import Hypringo.Lua.Value
import Hypringo.Runs

namespace Hypringo.Mpris
open Hypringo.Lua

def busPrefix : Bytes := text "org.mpris.MediaPlayer2."

structure Flags where
  canControl : Bool
  canGoNext : Bool
  canGoPrevious : Bool
  canPause : Bool
  canPlay : Bool
  deriving DecidableEq, Repr

def Flags.cleared : Flags := ⟨false,false,false,false,false⟩

structure Player where
  busName : Bytes
  identity : Bytes
  status : Bytes
  title : Bytes
  album : Bytes
  artist : Bytes
  art : Bytes
  flags : Flags
  deriving DecidableEq, Repr

-- A metadata variant: a string, an array of strings as far as it could be
-- read, or anything else, which is skipped.
inductive Variant where
  | string (value : Bytes)
  | strings (values : List Bytes)
  | other
  deriving DecidableEq, Repr

-- What one player answers. A failed property is none; the metadata are the
-- entries read before the reply ends or cannot be read on.
structure Replies where
  status : Option Bytes
  identity : Option Bytes
  metadata : List (Bytes × Variant)
  canControl : Option Bool
  canGoNext : Option Bool
  canGoPrevious : Option Bool
  canPause : Option Bool
  canPlay : Option Bool
  deriving DecidableEq, Repr

def isMprisName (name : Bytes) : Bool := busPrefix.isPrefixOf name

def appendArtist (artist value : Bytes) : Bytes :=
  if artist = [] then value else artist ++ text ", " ++ value

def readMetadataValue (player : Player) : Bytes × Variant → Player
  | (key,.string value) =>
    if key = text "xesam:title" then { player with title := value }
    else if key = text "xesam:album" then { player with album := value }
    else if key = text "mpris:artUrl" then { player with art := value }
    else player
  | (key,.strings values) =>
    if key = text "xesam:artist" then { player with artist := values.foldl appendArtist [] } else player
  | (_,.other) => player

-- Only an unreadable PlaybackStatus makes a player unreadable.
def readPlayer (name : Bytes) (replies : Replies) : Option Player :=
  match replies.status with
  | none => none
  | some status =>
    let blank : Player :=
      { busName := name
        identity := replies.identity.getD (name.drop busPrefix.length)
        status := status
        title := []
        album := []
        artist := []
        art := []
        flags :=
          ⟨replies.canControl.getD false,replies.canGoNext.getD false,replies.canGoPrevious.getD false,
           replies.canPause.getD false,replies.canPlay.getD false⟩ }
    some (replies.metadata.foldl readMetadataValue blank)

def lowerByte (b : UInt8) : UInt8 := if 65 ≤ b.toNat ∧ b.toNat ≤ 90 then b + 32 else b

def equalIgnoringCase (left right : Bytes) : Bool := left.map lowerByte == right.map lowerByte

def playerRank (player : Player) : Nat :=
  if equalIgnoringCase player.status (text "Playing") then 2
  else if equalIgnoringCase player.status (text "Paused") then 1
  else 0

def canonicalStatus (status : Bytes) : Bytes :=
  if equalIgnoringCase status (text "Playing") then text "playing"
  else if equalIgnoringCase status (text "Paused") then text "paused"
  else text "stopped"

def preferPlayer (candidate : Player) : Option Player → Bool
  | none => true
  | some selected =>
    if playerRank candidate ≠ playerRank selected then decide (playerRank selected < playerRank candidate)
    else decide (candidate.busName < selected.busName)

-- ListNames: the call fails, with the bus's message if it has one; the reply
-- holds no array; or names follow, each with what its player answers, until
-- the array ends or can no longer be read.
inductive Listing where
  | callFailed (message : Option Bytes)
  | unreadable (error : Bytes)
  | names (names : List (Bytes × Replies)) (broken : Option Bytes)
  deriving DecidableEq, Repr

def consider (selected : Option Player) (entry : Bytes × Replies) : Option Player :=
  if isMprisName entry.1 then
    match readPlayer entry.1 entry.2 with
    | none => selected
    | some candidate => if preferPlayer candidate selected then some candidate else selected
  else selected

def selectPlayer : Listing → Except Bytes (Option Player)
  | .callFailed message => .error (message.getD [])
  | .unreadable error => .error error
  | .names _ (some error) => .error error
  | .names names none => .ok (names.foldl consider none)

structure Capabilities where
  next : Bool
  pause : Bool
  play : Bool
  playPause : Bool
  previous : Bool
  deriving DecidableEq, Repr

-- The table lsource_snapshot returns.
structure Media where
  available : Bool
  error : Bytes
  album : Bytes
  art : Bytes
  artist : Bytes
  player : Bytes
  title : Bytes
  status : Bytes
  capabilities : Capabilities
  deriving DecidableEq, Repr

def pushUnavailable (error : Bytes) : Media where
  available := false
  error := error
  album := []
  art := []
  artist := []
  player := []
  title := []
  status := text "stopped"
  capabilities := ⟨false,false,false,false,false⟩

def pushPlayer (player : Player) : Media where
  available := true
  error := []
  album := player.album
  art := player.art
  artist := player.artist
  player := player.identity
  title := player.title
  status := canonicalStatus player.status
  capabilities :=
    { next := player.flags.canControl && player.flags.canGoNext
      pause := player.flags.canControl && player.flags.canPause
      play := player.flags.canControl && player.flags.canPlay
      playPause := player.flags.canControl && (player.flags.canPause || player.flags.canPlay)
      previous := player.flags.canControl && player.flags.canGoPrevious }

structure Source where
  bus : Bool
  selectedName : Option Bytes
  flags : Flags
  deriving DecidableEq, Repr

def opened : Source := ⟨true,none,.cleared⟩
def closed : Source := ⟨false,none,.cleared⟩

def snapshot (source : Source) (listing : Listing) : Source × Media :=
  if !source.bus then (source,pushUnavailable (text "MPRIS session bus is closed"))
  else match selectPlayer listing with
    | .error error => (source,pushUnavailable error)
    | .ok none => ({ source with selectedName := none, flags := .cleared },pushUnavailable [])
    | .ok (some player) =>
      ({ source with selectedName := some player.busName, flags := player.flags },pushPlayer player)

inductive Action where
  | next
  | pause
  | play
  | playPause
  | previous
  deriving DecidableEq, Repr

def actionOf (name : Bytes) : Option Action :=
  if name = text "next" then some .next
  else if name = text "pause" then some .pause
  else if name = text "play" then some .play
  else if name = text "play-pause" then some .playPause
  else if name = text "previous" then some .previous
  else none

def actionMethod : Action → Bytes
  | .next => text "Next"
  | .pause => text "Pause"
  | .play => text "Play"
  | .playPause => text "PlayPause"
  | .previous => text "Previous"

def actionAvailable (flags : Flags) (action : Action) : Bool :=
  flags.canControl && match action with
    | .next => flags.canGoNext
    | .pause => flags.canPause
    | .play => flags.canPlay
    | .playPause => flags.canPause || flags.canPlay
    | .previous => flags.canGoPrevious

structure Call where
  destination : Bytes
  method : Bytes
  deriving DecidableEq, Repr

-- What dispatch does before it looks at a reply: raise, return nil and a
-- message, or issue one method call.
inductive Dispatched where
  | raised (message : Bytes)
  | refused (message : Bytes)
  | issued (call : Call)
  deriving DecidableEq, Repr

def dispatch (source : Source) (name : Bytes) : Dispatched :=
  match actionOf name with
  | none => .raised (text "unsupported MPRIS action: " ++ name)
  | some action => match source.selectedName with
    | none => .refused (text "no MPRIS player is available")
    | some destination =>
      if !actionAvailable source.flags action then
        .refused (text "MPRIS player does not support action: " ++ name)
      else .issued ⟨destination,actionMethod action⟩

def Capabilities.of (capabilities : Capabilities) : Action → Bool
  | .next => capabilities.next
  | .pause => capabilities.pause
  | .play => capabilities.play
  | .playPause => capabilities.playPause
  | .previous => capabilities.previous

-- The most recent snapshot of a source: its table, the player the table
-- describes, and whether the bus names could be listed.
structure Shown where
  media : Media
  player : Option Player
  listed : Bool
  deriving DecidableEq, Repr

structure State where
  source : Source
  shown : Option Shown
  deriving DecidableEq, Repr

def start : State := ⟨closed,none⟩

inductive Event where
  | openFailed
  | opened
  | snapshot (listing : Listing)
  | dispatch (name : Bytes)
  | close
  deriving DecidableEq, Repr

def described (source : Source) (listing : Listing) : Option Player :=
  if source.bus then (selectPlayer listing).toOption.join else none

def apply (s : State) : Event → State
  | .openFailed => s
  | .opened => ⟨opened,none⟩
  | .snapshot listing =>
    ⟨(snapshot s.source listing).1,
      some ⟨(snapshot s.source listing).2,described s.source listing,(selectPlayer listing).isOk⟩⟩
  | .dispatch _ => s
  | .close => { s with source := closed }

-- The table offers the action, and to which player.
def Offers (shown : Shown) (name : Bytes) (player : Player) (action : Action) : Prop :=
  actionOf name = some action ∧ shown.player = some player ∧ shown.media = pushPlayer player ∧
    shown.media.available = true ∧ shown.media.capabilities.of action = true

-- dispatch issues exactly the calls the table offers.
def Agrees (source : Source) (shown : Shown) (name : Bytes) : Prop :=
  (∀ call, dispatch source name = .issued call ↔
    ∃ player action, Offers shown name player action ∧ call = ⟨player.busName,actionMethod action⟩) ∧
  ((∃ call, dispatch source name = .issued call) ↔
    shown.media.available = true ∧ ∃ action, actionOf name = some action ∧ shown.media.capabilities.of action = true)

def Silent (source : Source) (name : Bytes) : Prop := ∀ call, dispatch source name ≠ .issued call

-- As claimed, whatever happened to the source since its last snapshot.
def Claimed (s : State) : Event → Prop
  | .dispatch name => (s.shown = none → Silent s.source name) ∧
      ∀ shown, s.shown = some shown → Agrees s.source shown name
  | _ => True

-- A closed source calls nobody; an open one whose last snapshot could list the
-- names calls what that snapshot offered.
def Faithful (s : State) : Event → Prop
  | .dispatch name =>
    (s.source.bus = false → Silent s.source name) ∧
    (s.source.bus = true → (s.shown = none → Silent s.source name) ∧
      ∀ shown, s.shown = some shown → shown.listed = true → Agrees s.source shown name)
  | _ => True

-- The flags dispatch consults against the player last shown.
def Mirrors (source : Source) (shown : Shown) : Prop :=
  match shown.player with
  | none => source.selectedName = none ∧ shown.media.available = false
  | some player => source.selectedName = some player.busName ∧ source.flags = player.flags ∧
      shown.media = pushPlayer player

structure Invariant (s : State) : Prop where
  closed : s.source.bus = false → s.source.selectedName = none
  unseen : s.shown = none → s.source.selectedName = none
  mirrored : s.source.bus = true → ∀ shown, s.shown = some shown → shown.listed = true → Mirrors s.source shown

theorem start_invariant : Invariant start :=
  ⟨fun _ => rfl,fun _ => rfl,fun bus => (by cases bus)⟩

theorem snapshot_open {source : Source} (bus : source.bus = true) (listing : Listing) :
    (snapshot source listing).1.bus = true := by
  simp only [snapshot,bus,Bool.not_true,Bool.false_eq_true,if_false]
  split
  · exact bus
  · rfl
  · rfl

theorem snapshot_mirrors {source : Source} (bus : source.bus = true) {listing : Listing}
    (listed : (selectPlayer listing).isOk = true) :
    Mirrors (snapshot source listing).1 ⟨(snapshot source listing).2,described source listing,true⟩ := by
  cases selected : selectPlayer listing with
  | error error =>
    rw [selected] at listed
    cases listed
  | ok player =>
    cases player with
    | none => simp [Mirrors,snapshot,described,bus,selected,pushUnavailable,Except.toOption]
    | some player => simp [Mirrors,snapshot,described,bus,selected,Except.toOption]

theorem apply_invariant (s : State) (event : Event) (invariant : Invariant s) : Invariant (apply s event) := by
  cases event with
  | openFailed => exact invariant
  | opened => exact ⟨fun _ => rfl,fun _ => rfl,fun _ _ found => (by cases found)⟩
  | snapshot listing =>
    cases bus : s.source.bus with
    | false =>
      have kept : (snapshot s.source listing).1 = s.source := by simp [snapshot,bus]
      refine ⟨?_,fun none => (by cases none),?_⟩
      · intro _
        simp only [apply,kept]
        exact invariant.closed bus
      · intro still
        simp only [apply,kept,bus] at still
        cases still
    | true =>
      have still := snapshot_open bus listing
      refine ⟨?_,fun none => (by cases none),?_⟩
      · intro shut
        simp only [apply] at shut
        rw [still] at shut
        cases shut
      · intro _ shown found listed
        cases found
        dsimp only at listed
        simpa only [apply,listed] using snapshot_mirrors bus listed
  | dispatch name => exact invariant
  | close => exact ⟨fun _ => rfl,fun _ => rfl,fun bus => (by cases bus)⟩

theorem silent_of_none {source : Source} (none : source.selectedName = none) (name : Bytes) : Silent source name := by
  intro call issued
  simp only [dispatch,none] at issued
  split at issued <;> cases issued

-- The capabilities published and the flags dispatch consults are computed from
-- the same five properties.
theorem capabilities_of (player : Player) (action : Action) :
    (pushPlayer player).capabilities.of action = actionAvailable player.flags action := by
  cases action <;> rfl

theorem dispatch_issued {source : Source} {name : Bytes} {call : Call} :
    dispatch source name = .issued call ↔ ∃ destination action, source.selectedName = some destination ∧
      actionOf name = some action ∧ actionAvailable source.flags action = true ∧
      call = ⟨destination,actionMethod action⟩ := by
  unfold dispatch
  cases actionOf name with
  | none => exact iff_of_false (by simp) (by simp)
  | some action =>
    cases source.selectedName with
    | none => exact iff_of_false (by simp) (by simp)
    | some destination =>
      cases able : actionAvailable source.flags action with
      | true =>
        simp only [able,Bool.not_true,Bool.false_eq_true,if_false,Dispatched.issued.injEq]
        constructor
        · rintro rfl
          exact ⟨destination,action,rfl,rfl,able,rfl⟩
        · rintro ⟨_,_,⟨⟩,⟨⟩,_,rfl⟩
          rfl
      | false =>
        simp only [able,Bool.not_false,if_true]
        refine iff_of_false (by simp) ?_
        rintro ⟨_,_,_,⟨⟩,able',_⟩
        rw [able] at able'
        cases able'

theorem mirrors_agrees {source : Source} {shown : Shown} (mirrored : Mirrors source shown) (name : Bytes) :
    Agrees source shown name := by
  cases player : shown.player with
  | none =>
    simp only [Mirrors,player] at mirrored
    have silent := silent_of_none mirrored.1 name
    refine ⟨?_,?_⟩
    · intro call
      refine iff_of_false (silent call) ?_
      rintro ⟨other,action,⟨_,found,_⟩,_⟩
      rw [player] at found
      cases found
    · refine iff_of_false ?_ ?_
      · rintro ⟨call,issued⟩
        exact silent call issued
      · rintro ⟨available,_⟩
        rw [mirrored.2] at available
        cases available
  | some player' =>
    simp only [Mirrors,player] at mirrored
    obtain ⟨selected,flags,media⟩ := mirrored
    have available : shown.media.available = true := by rw [media]; rfl
    refine ⟨?_,?_⟩
    · intro call
      rw [dispatch_issued,selected,flags]
      constructor
      · rintro ⟨destination,action,same,named,able,rfl⟩
        cases same
        refine ⟨player',action,⟨named,player,media,available,?_⟩,rfl⟩
        rw [media,capabilities_of]
        exact able
      · rintro ⟨other,action,⟨named,found,_,_,able⟩,rfl⟩
        rw [player] at found
        cases found
        rw [media,capabilities_of] at able
        exact ⟨player'.busName,action,rfl,named,able,rfl⟩
    · simp only [dispatch_issued,selected,flags]
      constructor
      · rintro ⟨call,destination,action,_,named,able,_⟩
        refine ⟨available,action,named,?_⟩
        rw [media,capabilities_of]
        exact able
      · rintro ⟨_,action,named,able⟩
        rw [media,capabilities_of] at able
        exact ⟨⟨player'.busName,actionMethod action⟩,player'.busName,action,rfl,named,able,rfl⟩

theorem Invariant.faithful {s : State} (invariant : Invariant s) (event : Event) : Faithful s event := by
  cases event with
  | dispatch name =>
    refine ⟨fun shut => silent_of_none (invariant.closed shut) name,fun bus => ⟨?_,?_⟩⟩
    · exact fun none => silent_of_none (invariant.unseen none) name
    · exact fun shown found listed => mirrors_agrees (invariant.mirrored bus shown found listed) name
  | _ => trivial

theorem dispatch_run_faithful (events : List Event) : Runs.Each apply Faithful start events :=
  Runs.each_of_invariant (fun s event invariant _ => apply_invariant s event invariant)
    (fun _ event invariant _ => invariant.faithful event) start_invariant
    (Runs.each_always fun _ _ => trivial)

def spotify : Replies where
  status := some (text "Playing")
  identity := some (text "Spotify")
  metadata := [(text "xesam:title",.string (text "Song")),(text "xesam:artist",.strings [text "A",text "B"])]
  canControl := some true
  canGoNext := some true
  canGoPrevious := some true
  canPause := some true
  canPlay := some true

def playing : Listing := .names [(text "org.mpris.MediaPlayer2.spotify",spotify)] none

-- A dispatch on the closed source calls nobody although the last table offered
-- it; and after a listing that failed it still calls the earlier player.
theorem last_table_not_followed :
    ¬Runs.Each apply Claimed start [.opened,.snapshot playing,.close,.dispatch (text "next")] ∧
    ¬Runs.Each apply Claimed start
      [.opened,.snapshot playing,.snapshot (.callFailed (some (text "timed out"))),.dispatch (text "next")] := by
  constructor
  · rintro ⟨-,-,-,⟨-,claimed⟩,-⟩
    obtain ⟨call,issued⟩ := (claimed _ rfl).2.mpr ⟨by decide,.next,by decide,by decide⟩
    cases issued
  · rintro ⟨-,-,-,⟨-,claimed⟩,-⟩
    have offered := (claimed _ rfl).2.mp ⟨⟨text "org.mpris.MediaPlayer2.spotify",text "Next"⟩,by decide⟩
    exact absurd offered.1 (by decide)

end Hypringo.Mpris

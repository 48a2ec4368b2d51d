import Hypringo.Blocks
import Hypringo.Mpris
import Hypringo.Runs

namespace Hypringo.MprisHeap
open Hypringo.Lua Hypringo.Blocks
open Hypringo.Mpris (Flags Media Call Dispatched Listing Replies isMprisName busPrefix equalIgnoringCase canonicalStatus
  pushUnavailable actionOf actionMethod actionAvailable)

-- What mpris.c holds: strings, its own and those of libsystemd, messages, the
-- connection to the bus and subscriptions.
inductive Cell where
  | string (value : Bytes)
  | message
  | bus
  | slot
  deriving DecidableEq, Repr

-- The char pointers of struct player_snapshot.
inductive Field where
  | busName
  | identity
  | status
  | title
  | album
  | artist
  | art
  deriving DecidableEq, Repr

structure PlayerSnapshot where
  texts : Field → Pointer
  flags : Flags

def zeroed : PlayerSnapshot := ⟨fun _ => none,.cleared⟩

def PlayerSnapshot.set (player : PlayerSnapshot) (field : Field) (pointer : Pointer) : PlayerSnapshot :=
  { player with texts := Function.update player.texts field pointer }

def freePlayer (player : PlayerSnapshot) : Program Cell Unit := do
  free (player.texts .busName)
  free (player.texts .identity)
  free (player.texts .status)
  free (player.texts .title)
  free (player.texts .album)
  free (player.texts .artist)
  free (player.texts .art)

def strdup (value : Bytes) : Program Cell Pointer := malloc (.string value)

-- Only a string can be read as one.
def string (pointer : Pointer) : Program Cell Bytes := do
  match ← load pointer with
  | .string value => pure value
  | _ => failure

-- duplicate_or_empty of a pointer that may be NULL.
def duplicateOrEmpty : Pointer → Program Cell Pointer
  | none => strdup []
  | some n => do
    let value ← string (some n)
    strdup value

-- The message of an sd_bus_error and what a call returns; both are NULL when
-- there was no memory for either.
structure Called where
  error : Pointer
  result : Pointer

def call : Except (Option Bytes) Cell → Program Cell Called
  | .error none => pure ⟨none,none⟩
  | .error (some message) => do
    let error ← strdup message
    pure ⟨error,none⟩
  | .ok cell => do
    let result ← malloc cell
    pure ⟨none,result⟩

def readStringProperty (answer : Except (Option Bytes) Bytes) : Program Cell Pointer := do
  let called ← call (answer.map .string)
  free called.error
  pure called.result

-- A trivial property is copied out of its message.
def readBoolProperty (answer : Except (Option Bytes) Bool) : Program Cell Bool := do
  let called ← call (answer.map fun _ => .message)
  free called.error
  free called.result
  pure (called.result.isSome && answer.toOption.getD false)

def joined (value : Bytes) : Option Cell → Cell
  | some (.string artist) => .string (Mpris.appendArtist artist value)
  | _ => .string value

-- With whether it returned without an error.
structure Artist where
  ok : Bool
  artist : Pointer

def appendArtist (artist : Pointer) (value : Bytes) : Program Cell Artist := do
  let grown ← realloc artist (joined value)
  pure (if grown.isSome then ⟨true,grown⟩ else ⟨false,artist⟩)

-- `ends` when the array could be read to its end and left.
def readArtist (reply artist : Pointer) (ends : Bool) : List Bytes → Program Cell Artist
  | [] => do
    touch reply
    pure ⟨ends,artist⟩
  | value :: rest => do
    touch reply
    let appended ← appendArtist artist value
    if appended.ok then readArtist reply appended.artist ends rest else pure appended

-- What the reply holds for a key: nothing that can be read, a string with
-- whether it can be read, an array of strings with how far, or something else.
inductive Variant where
  | unreadable
  | string (value : Option Bytes)
  | strings (enters : Bool) (values : List Bytes) (ends : Bool)
  | other
  deriving DecidableEq, Repr

-- `skips` and `exits` are whether the variant can be skipped, and the entry left.
structure Entry where
  key : Bytes
  variant : Variant
  skips : Bool
  exits : Bool
  deriving DecidableEq, Repr

def textField (key : Bytes) : Option Field :=
  if key = text "xesam:title" then some .title
  else if key = text "xesam:album" then some .album
  else if key = text "mpris:artUrl" then some .art
  else none

structure Read where
  ok : Bool
  player : PlayerSnapshot

def replaceText (player : PlayerSnapshot) (field : Field) (value : Bytes) : Program Cell Read := do
  free (player.texts field)
  let copy ← strdup value
  pure ⟨copy.isSome,player.set field copy⟩

def replaceArtist (reply : Pointer) (player : PlayerSnapshot) (enters : Bool) (values : List Bytes) (ends : Bool) :
    Program Cell Read := do
  free (player.texts .artist)
  let read ← if enters then readArtist reply none ends values else pure ⟨false,none⟩
  pure ⟨read.ok,player.set .artist read.artist⟩

def readMetadataValue (reply : Pointer) (player : PlayerSnapshot) (entry : Entry) : Program Cell Read :=
  match entry.variant with
  | .unreadable => pure ⟨false,player⟩
  | .string value => match textField entry.key,value with
    | none,_ => pure ⟨entry.skips,player⟩
    | some _,none => pure ⟨false,player⟩
    | some field,some value => replaceText player field value
  | .strings enters values ends =>
    if entry.key = text "xesam:artist" then replaceArtist reply player enters values ends
    else pure ⟨entry.skips,player⟩
  | .other => pure ⟨entry.skips,player⟩

def readEntries (reply : Pointer) (player : PlayerSnapshot) : List Entry → Program Cell PlayerSnapshot
  | [] => do
    touch reply
    pure player
  | entry :: rest => do
    touch reply
    let read ← readMetadataValue reply player entry
    if read.ok && entry.exits then readEntries reply read.player rest else pure read.player

-- Its result is of no interest to the caller. A reply that holds no dictionary
-- is one without entries.
def readMetadata (player : PlayerSnapshot) (answer : Except (Option Bytes) (List Entry)) : Program Cell PlayerSnapshot := do
  let called ← call (answer.map fun _ => .message)
  free called.error
  let read ← if called.result.isSome then readEntries called.result player (answer.toOption.getD []) else pure player
  free called.result
  pure read

structure Answers where
  status : Except (Option Bytes) Bytes
  identity : Except (Option Bytes) Bytes
  metadata : Except (Option Bytes) (List Entry)
  canControl : Except (Option Bytes) Bool
  canGoNext : Except (Option Bytes) Bool
  canGoPrevious : Except (Option Bytes) Bool
  canPause : Except (Option Bytes) Bool
  canPlay : Except (Option Bytes) Bool

def readIdentity (name : Bytes) (answers : Answers) : Program Cell Pointer := do
  let identity ← readStringProperty answers.identity
  if identity.isSome then pure identity else strdup (name.drop busPrefix.length)

def readFlags (answers : Answers) : Program Cell Flags := do
  let canControl ← readBoolProperty answers.canControl
  let canGoNext ← readBoolProperty answers.canGoNext
  let canGoPrevious ← readBoolProperty answers.canGoPrevious
  let canPause ← readBoolProperty answers.canPause
  let canPlay ← readBoolProperty answers.canPlay
  pure ⟨canControl,canGoNext,canGoPrevious,canPause,canPlay⟩

-- A text the metadata did not give is empty.
def fill (player : PlayerSnapshot) (field : Field) : Program Cell PlayerSnapshot :=
  if (player.texts field).isSome then pure player
  else do
    let empty ← strdup []
    pure (player.set field empty)

def completePlayer (player : PlayerSnapshot) : Program Cell Read := do
  let player ← fill player .title
  let player ← fill player .album
  let player ← fill player .artist
  let player ← fill player .art
  pure ⟨(player.texts .title).isSome && (player.texts .album).isSome && (player.texts .artist).isSome &&
    (player.texts .art).isSome,player⟩

def readRest (name : Bytes) (answers : Answers) (player : PlayerSnapshot) : Program Cell Read := do
  let player ← readMetadata player answers.metadata
  let flags ← readFlags answers
  let busName ← strdup name
  let named := { player.set .busName busName with flags := flags }
  if busName.isSome then completePlayer named else pure ⟨false,named⟩

def readPlayer (name : Bytes) (answers : Answers) : Program Cell Read := do
  let status ← readStringProperty answers.status
  if status.isSome then do
    let identity ← readIdentity name answers
    let player := (zeroed.set .status status).set .identity identity
    if identity.isSome then readRest name answers player else pure ⟨false,player⟩
  else pure ⟨false,zeroed⟩

def rank (status : Bytes) : Nat :=
  if equalIgnoringCase status (text "Playing") then 2
  else if equalIgnoringCase status (text "Paused") then 1
  else 0

def preferPlayer (candidate selected : PlayerSnapshot) : Program Cell Bool :=
  if (selected.texts .busName).isSome then do
    let candidateStatus ← string (candidate.texts .status)
    let selectedStatus ← string (selected.texts .status)
    if rank candidateStatus ≠ rank selectedStatus then pure (decide (rank selectedStatus < rank candidateStatus))
    else do
      let candidateName ← string (candidate.texts .busName)
      let selectedName ← string (selected.texts .busName)
      pure (decide (candidateName < selectedName))
  else pure true

def consider (selected : PlayerSnapshot) (name : Bytes) (answers : Answers) : Program Cell PlayerSnapshot := do
  let candidate ← readPlayer name answers
  let better ← if candidate.ok then preferPlayer candidate.player selected else pure false
  if better then do
    freePlayer selected
    pure candidate.player
  else do
    freePlayer candidate.player
    pure selected

def readNames (reply : Pointer) (selected : PlayerSnapshot) : List (Bytes × Answers) → Program Cell PlayerSnapshot
  | [] => do
    touch reply
    pure selected
  | entry :: rest => do
    touch reply
    if isMprisName entry.1 then do
      let selected ← consider selected entry.1 entry.2
      readNames reply selected rest
    else readNames reply selected rest

-- ListNames: an error, with the message it carries; a reply without an array;
-- or names, with what each player answers, until the array ends or breaks off.
-- A failure comes with what strerror says of it.
inductive Names where
  | failed (message : Option Bytes) (error : Bytes)
  | unreadable (error : Bytes)
  | names (names : List (Bytes × Answers)) (broken : Option Bytes)

def Names.answer : Names → Except (Option Bytes) Cell
  | .failed message _ => .error message
  | _ => .ok .message

def noMemory : Bytes := text "Cannot allocate memory"

-- A negative result is given by its text.
structure Selection where
  failed : Option Bytes
  selected : PlayerSnapshot
  message : Pointer

def selectNames (reply : Pointer) : Names → Program Cell Selection
  | .failed _ error => pure ⟨some error,zeroed,none⟩
  | .unreadable error => pure ⟨some error,zeroed,none⟩
  | .names names broken => do
    let selected ← readNames reply zeroed names
    pure ⟨broken,selected,none⟩

def Names.error : Names → Bytes
  | .failed _ error => error
  | _ => noMemory

def selectPlayer (names : Names) : Program Cell Selection := do
  let called ← call names.answer
  if called.result.isSome then do
    free called.error
    let selection ← selectNames called.result names
    free called.result
    pure selection
  else do
    let message ← duplicateOrEmpty called.error
    free called.error
    free called.result
    pure ⟨some names.error,zeroed,message⟩

structure Source where
  bus : Pointer
  nameSlot : Pointer
  propertiesSlot : Pointer
  selectedName : Pointer
  flags : Flags

def closed : Source := ⟨none,none,none,none,.cleared⟩

inductive Returned where
  | nothing
  | opened (ok : Bool)
  | raised
  | table (media : Media)
  | dispatched (dispatched : Dispatched) (error : Option Bytes)
  | waited (error : Option Bytes)
  deriving DecidableEq, Repr

structure Done where
  source : Source
  returned : Returned

-- The table of the selected player. Its bus name is not in it.
def pushPlayer (player : PlayerSnapshot) : Program Cell Media := do
  let album ← string (player.texts .album)
  let art ← string (player.texts .art)
  let artist ← string (player.texts .artist)
  let identity ← string (player.texts .identity)
  let status ← string (player.texts .status)
  let title ← string (player.texts .title)
  pure (Mpris.pushPlayer ⟨[],identity,status,title,album,artist,art,player.flags⟩)

def showPlayer (source : Source) (selected : PlayerSnapshot) : Program Cell Done := do
  free source.selectedName
  if (selected.texts .busName).isSome then do
    let name ← string (selected.texts .busName)
    let copy ← strdup name
    let shown := { source with selectedName := copy, flags := selected.flags }
    if copy.isSome then do
      let media ← pushPlayer selected
      freePlayer selected
      pure ⟨shown,.table media⟩
    else do
      freePlayer selected
      pure ⟨shown,.raised⟩
  else do
    freePlayer selected
    pure ⟨{ source with selectedName := none, flags := selected.flags },.table (pushUnavailable [])⟩

def errorText (pointer : Pointer) (otherwise : Bytes) : Program Cell Bytes :=
  if pointer.isSome then string pointer else pure otherwise

def snapshot (source : Source) (names : Names) : Program Cell Done :=
  if source.bus.isSome then do
    touch source.bus
    let selection ← selectPlayer names
    match selection.failed with
    | some failed => do
      let error ← errorText selection.message failed
      free selection.message
      freePlayer selection.selected
      pure ⟨source,.table (pushUnavailable error)⟩
    | none => do
      free selection.message
      showPlayer source selection.selected
  else pure ⟨source,.table (pushUnavailable (text "MPRIS session bus is closed"))⟩

-- What the player answers to an action; strerror says something of a failure
-- without a message.
structure Reply where
  answer : Except (Option Bytes) Unit
  error : Bytes

def issue (source : Source) (method : Bytes) (reply : Reply) : Program Cell Done := do
  touch source.bus
  let destination ← string source.selectedName
  let called ← call (reply.answer.map fun _ => .message)
  free called.result
  if called.result.isSome then do
    free called.error
    pure ⟨source,.dispatched (.issued ⟨destination,method⟩) none⟩
  else do
    let error ← errorText called.error reply.error
    free called.error
    pure ⟨source,.dispatched (.issued ⟨destination,method⟩) (some error)⟩

def dispatch (source : Source) (name : Bytes) (reply : Reply) : Program Cell Done :=
  match actionOf name with
  | none => pure ⟨source,.dispatched (.raised (text "unsupported MPRIS action: " ++ name)) none⟩
  | some action =>
    if source.selectedName.isNone then pure ⟨source,.dispatched (.refused (text "no MPRIS player is available")) none⟩
    else if !actionAvailable source.flags action then
      pure ⟨source,.dispatched (.refused (text "MPRIS player does not support action: " ++ name)) none⟩
    else issue source (actionMethod action) reply

def processBus (source : Source) : Option Bytes → Program Cell Pointer
  | none => do
    touch source.bus
    pure none
  | some error => do
    touch source.bus
    strdup error

-- What process_bus meets before poll and after it, with strerror's text of a
-- failure, and whether the wait returns in between, with what it says then.
structure Waiting where
  first : Option Bytes
  between : Option (Option Bytes)
  second : Option Bytes

def waitSecond (source : Source) (second : Option Bytes) : Program Cell Done := do
  let message ← processBus source second
  if message.isSome then do
    let error ← string message
    free message
    pure ⟨source,.waited (some error)⟩
  else pure ⟨source,.waited none⟩

def wait (source : Source) (waiting : Waiting) : Program Cell Done :=
  if source.bus.isSome then do
    let message ← processBus source waiting.first
    if waiting.first.isSome then do
      let error ← errorText message (text "MPRIS bus processing failed")
      free message
      pure ⟨source,.waited (some error)⟩
    else match waiting.between with
      | some returned => pure ⟨source,.waited returned⟩
      | none => waitSecond source waiting.second
  else pure ⟨source,.raised⟩

def closeSource (source : Source) : Program Cell Done := do
  free source.propertiesSlot
  free source.nameSlot
  free source.bus
  free source.selectedName
  pure ⟨closed,.nothing⟩

-- What the calls of lopen answer, beside that there may be no memory.
structure Opening where
  bus : Bool
  configures : Bool
  name : Bool
  properties : Bool

def obtain (answers : Bool) (cell : Cell) : Program Cell Pointer := if answers then malloc cell else pure none

def failOpen (source : Source) : Program Cell Done := do
  let done ← closeSource source
  pure ⟨done.source,.opened false⟩

def subscribe (source : Source) (answers : Opening) : Program Cell Done := do
  let nameSlot ← obtain answers.name .slot
  if nameSlot.isSome then do
    let propertiesSlot ← obtain answers.properties .slot
    let subscribed := { source with nameSlot := nameSlot, propertiesSlot := propertiesSlot }
    if propertiesSlot.isSome then pure ⟨subscribed,.opened true⟩ else failOpen subscribed
  else failOpen { source with nameSlot := nameSlot }

def lopen (answers : Opening) : Program Cell Done := do
  let bus ← obtain answers.bus .bus
  if bus.isSome then do
    if answers.configures then subscribe { closed with bus := bus } answers
    else failOpen { closed with bus := bus }
  else pure ⟨closed,.opened false⟩

inductive Event where
  | «open» (answers : Opening)
  | snapshot (names : Names)
  | dispatch (name : Bytes) (reply : Reply)
  | wait (waiting : Waiting)
  | close

def run (source : Source) : Event → Program Cell Done
  | .open answers => lopen answers
  | .snapshot names => snapshot source names
  | .dispatch name reply => dispatch source name reply
  | .wait waiting => wait source waiting
  | .close => closeSource source

-- The source in use, the memory and what the methods returned, as long as none
-- has touched what is not there.
structure Process where
  source : Source
  memory : Memory Cell
  log : List Returned

def boot (grants : Nat → Bool) : Option Process := some ⟨closed,Blocks.boot grants,[]⟩

def apply (p : Option Process) (event : Event) : Option Process := do
  let p ← p
  let (done,memory) ← run p.source event p.memory
  pure ⟨done.source,memory,p.log ++ [done.returned]⟩

-- A new source is opened only without one.
def Possible (p : Option Process) : Event → Prop
  | .open _ => ∀ q ∈ p, q.source.bus = none
  | _ => True

-- What a reading of these replies comes to, as long as there is memory. An entry
-- that cannot be read on ends the metadata.
def Entry.shown (entry : Entry) : List (Bytes × Mpris.Variant) :=
  match entry.variant with
  | .unreadable => []
  | .string none => []
  | .string (some value) => [(entry.key,.string value)]
  | .strings enters values _ => [(entry.key,.strings (if enters then values else []))]
  | .other => [(entry.key,.other)]

def Entry.reads (entry : Entry) : Bool :=
  match entry.variant with
  | .unreadable => false
  | .string value => if (textField entry.key).isSome then value.isSome else entry.skips
  | .strings enters _ ends => if entry.key = text "xesam:artist" then enters && ends else entry.skips
  | .other => entry.skips

def seen : List Entry → List (Bytes × Mpris.Variant)
  | [] => []
  | entry :: rest => entry.shown ++ if entry.reads && entry.exits then seen rest else []

def Answers.replies (answers : Answers) : Replies where
  status := answers.status.toOption
  identity := answers.identity.toOption
  metadata := seen (answers.metadata.toOption.getD [])
  canControl := answers.canControl.toOption
  canGoNext := answers.canGoNext.toOption
  canGoPrevious := answers.canGoPrevious.toOption
  canPause := answers.canPause.toOption
  canPlay := answers.canPlay.toOption

def Names.listing : Names → Listing
  | .failed message _ => .callFailed message
  | .unreadable error => .unreadable error
  | .names listed broken => .names (listed.map fun entry => (entry.1,entry.2.replies)) broken

def Reply.said (reply : Reply) : Dispatched → Option Bytes
  | .issued _ => match reply.answer with
    | .error message => some (message.getD reply.error)
    | .ok _ => none
  | _ => none

-- The methods over values.
def meant (source : Mpris.Source) : Event → Mpris.Source × Returned
  | .open answers =>
    if answers.bus && answers.configures && answers.name && answers.properties then (Mpris.opened,.opened true)
    else (Mpris.closed,.opened false)
  | .snapshot names => ((Mpris.snapshot source names.listing).1,.table (Mpris.snapshot source names.listing).2)
  | .dispatch name reply => (source,.dispatched (Mpris.dispatch source name) (reply.said (Mpris.dispatch source name)))
  | .wait waiting =>
    (source,if source.bus then .waited (waiting.first <|> waiting.between.getD waiting.second) else .raised)
  | .close => (Mpris.closed,.nothing)

def intended (value : Mpris.Source × List Returned) (event : Event) : Mpris.Source × List Returned :=
  ((meant value.1 event).1,value.2 ++ [(meant value.1 event).2])

-- A pointer of mpris.c to a string, with the string.
abbrev Text := Slot Bytes

def Text.slot (t : Text) : Slot Cell := t.map fun block => (block.1,.string block.2)
def Text.blocks (t : Text) : Multiset (Nat × Cell) := Slot.blocks (Text.slot t)
def Text.content (t : Text) : Bytes := (Slot.value t).getD []

abbrev Texts := Field → Text

def Texts.blocks (texts : Texts) : Multiset (Nat × Cell) :=
  Text.blocks (texts .busName) + (Text.blocks (texts .identity) + (Text.blocks (texts .status) + (Text.blocks (texts .title) +
    (Text.blocks (texts .album) + (Text.blocks (texts .artist) + Text.blocks (texts .art))))))

def held (texts : Texts) (flags : Flags) : PlayerSnapshot := ⟨fun field => Slot.pointer (texts field),flags⟩

-- The player these strings describe.
def player (texts : Texts) (flags : Flags) : Mpris.Player where
  busName := Text.content (texts .busName)
  identity := Text.content (texts .identity)
  status := Text.content (texts .status)
  title := Text.content (texts .title)
  album := Text.content (texts .album)
  artist := Text.content (texts .artist)
  art := Text.content (texts .art)
  flags := flags

def nowhere : Texts := fun _ => none

variable {grants : Nat → Bool} {t : Text} {texts : Texts} {flags : Flags} {field : Field}

@[simp] theorem slot_pointer (t : Text) : Slot.pointer (Text.slot t) = Slot.pointer t := by
  cases t <;> rfl

theorem blocks_none : Text.blocks none = 0 := rfl

theorem held_zeroed : held nowhere .cleared = zeroed := rfl

theorem held_set (t : Text) : (held texts flags).set field (Slot.pointer t) = held (Function.update texts field t) flags := by
  simp only [held,PlayerSnapshot.set,PlayerSnapshot.mk.injEq,and_true]
  funext other
  by_cases same : other = field
  · subst same
    simp
  · simp [same]

-- One field and the others.
theorem Texts.split (texts : Texts) (field : Field) :
    Texts.blocks texts = Text.blocks (texts field) + Texts.blocks (Function.update texts field none) := by
  cases field <;> simp [Texts.blocks,blocks_none] <;> abel

theorem Texts.joined (texts : Texts) (field : Field) (t : Text) :
    Texts.blocks (Function.update texts field t) = Text.blocks t + Texts.blocks (Function.update texts field none) := by
  rw [Texts.split (Function.update texts field t) field,Function.update_self,Function.update_idem]

theorem free_text (t : Text) : Spec grants (Text.blocks t) (free (Slot.pointer t)) fun _ leaves => leaves = 0 := by
  rw [← slot_pointer]
  exact free_spec (Text.slot t)

theorem strdup_spec (value : Bytes) :
    Spec grants 0 (strdup value) fun pointer leaves =>
      ∃ t : Text, pointer = Slot.pointer t ∧ leaves = Text.blocks t ∧ Blocks.Answers grants value t := by
  refine (malloc_spec (Cell.string value)).weaken fun pointer leaves answered => ?_
  obtain ⟨slot,rfl,rfl,answers⟩ := answered
  cases slot with
  | none => exact ⟨none,rfl,rfl,by simp,answers.granted⟩
  | some block =>
    obtain ⟨n,cell⟩ := block
    obtain rfl : cell = .string value := answers.value _ rfl
    exact ⟨some (n,value),rfl,rfl,by simp,fun _ => rfl⟩

theorem string_spec (present : t.isSome) :
    Spec grants (Text.blocks t) (string (Slot.pointer t)) fun result leaves =>
      result = Text.content t ∧ leaves = Text.blocks t := by
  obtain ⟨⟨n,value⟩,rfl⟩ := Option.isSome_iff_exists.mp present
  refine .step (add_zero _).symm (load_spec n (Cell.string value)) fun cell leaves loaded => ?_
  obtain ⟨rfl,rfl⟩ := loaded
  exact .pure ⟨rfl,add_zero _⟩

theorem frees {owned others : Multiset (Nat × Cell)} {α : Type} {rest : Program Cell α}
    {post : α → Multiset (Nat × Cell) → Prop} (part : owned = Text.blocks t + others) (follows : Spec grants others rest post) :
    Spec grants owned (free (Slot.pointer t) >>= fun _ => rest) post := by
  rw [← slot_pointer]
  exact .frees part follows

theorem freePlayer_spec (texts : Texts) (flags : Flags) :
    Spec grants (Texts.blocks texts) (freePlayer (held texts flags)) fun _ leaves => leaves = 0 :=
  frees rfl (frees rfl (frees rfl (frees rfl (frees rfl (frees rfl (free_text _))))))

-- What a call of the bus brings.
structure Outcome (grants : Nat → Bool) (answer : Except (Option Bytes) Cell) (error : Text) (result : Slot Cell) : Prop where
  failed : ∀ message, answer = .error message → result = none ∧ (∀ block ∈ error, some block.2 = message) ∧
    (Plenty grants → Slot.value error = message)
  given : ∀ cell, answer = .ok cell → error = none ∧ Blocks.Answers grants cell result

theorem call_spec (answer : Except (Option Bytes) Cell) :
    Spec grants 0 (call answer) fun called leaves => ∃ (error : Text) (result : Slot Cell),
      called = ⟨Slot.pointer error,result.pointer⟩ ∧ leaves = Text.blocks error + result.blocks ∧
        Outcome grants answer error result := by
  cases answer with
  | ok cell =>
    refine .step (add_zero _).symm (malloc_spec cell) fun pointer leaves answered => ?_
    obtain ⟨slot,rfl,rfl,answers⟩ := answered
    refine .pure ⟨none,slot,rfl,add_comm _ _,by simp,fun other same => ?_⟩
    cases same
    exact ⟨rfl,answers⟩
  | error message =>
    cases message with
    | none =>
      refine .pure ⟨none,none,rfl,rfl,fun other same => ?_,by simp⟩
      cases same
      exact ⟨rfl,by simp,fun _ => rfl⟩
    | some message =>
      refine .step (add_zero _).symm (strdup_spec message) fun pointer leaves answered => ?_
      obtain ⟨t,rfl,rfl,answers⟩ := answered
      refine .pure ⟨t,none,rfl,rfl,fun other same => ?_,by simp⟩
      cases same
      refine ⟨rfl,fun block mem => congrArg some (answers.value block mem),fun plenty => ?_⟩
      obtain ⟨block,rfl⟩ := Option.isSome_iff_exists.mp (answers.granted plenty)
      exact congrArg some (answers.value block rfl)

theorem readStringProperty_spec (answer : Except (Option Bytes) Bytes) :
    Spec grants 0 (readStringProperty answer) fun pointer leaves => ∃ t : Text, pointer = Slot.pointer t ∧
      leaves = Text.blocks t ∧ (Plenty grants → Slot.value t = answer.toOption) := by
  refine .step (add_zero _).symm (call_spec _) fun called leaves reached => ?_
  obtain ⟨error,result,rfl,rfl,outcome⟩ := reached
  refine frees (add_zero _) (.pure ?_)
  cases answer with
  | error message =>
    obtain ⟨rfl,-⟩ := outcome.failed message rfl
    exact ⟨none,rfl,rfl,fun _ => rfl⟩
  | ok value =>
    obtain ⟨-,answers⟩ := outcome.given _ rfl
    cases result with
    | none => exact ⟨none,rfl,rfl,fun plenty => by cases answers.granted plenty⟩
    | some block =>
      obtain ⟨n,cell⟩ := block
      obtain rfl : cell = .string value := answers.value _ rfl
      exact ⟨some (n,value),rfl,rfl,fun _ => rfl⟩

theorem readBoolProperty_spec (answer : Except (Option Bytes) Bool) :
    Spec grants 0 (readBoolProperty answer) fun result leaves =>
      leaves = 0 ∧ (Plenty grants → result = answer.toOption.getD false) := by
  refine .step (add_zero _).symm (call_spec _) fun called leaves reached => ?_
  obtain ⟨error,result,rfl,rfl,outcome⟩ := reached
  refine frees (add_zero _) (.frees (add_zero _).symm (.pure ⟨rfl,fun plenty => ?_⟩))
  cases answer with
  | error message =>
    obtain ⟨rfl,-⟩ := outcome.failed message rfl
    rfl
  | ok value =>
    have granted := (outcome.given _ rfl).2.granted plenty
    simp [Slot.pointer,granted,Except.toOption]

-- The strings of a player that its metadata give.
def Field.ofMetadata : Field → Bool
  | .title => true
  | .album => true
  | .artist => true
  | .art => true
  | _ => false

theorem appendArtist_spec (t : Text) (value : Bytes) :
    Spec grants (Text.blocks t) (appendArtist (Slot.pointer t) value) fun appended leaves => ∃ after : Text,
      appended.artist = Slot.pointer after ∧ leaves = Text.blocks after ∧
        (Plenty grants → appended.ok = true ∧ Text.content after = Mpris.appendArtist (Text.content t) value) := by
  rw [← slot_pointer]
  refine .step (add_zero _).symm (realloc_spec (Text.slot t) (joined value)) fun pointer leaves grown => ?_
  obtain ⟨fresh,rfl,rfl,answers⟩ := grown
  cases fresh with
  | none => exact .pure ⟨t,slot_pointer t,by simp [Text.blocks],fun plenty => by cases answers.granted plenty⟩
  | some block =>
    obtain ⟨n,cell⟩ := block
    obtain rfl : cell = _ := answers.value _ rfl
    have written : joined value (Slot.value (Text.slot t)) = .string (Mpris.appendArtist (Text.content t) value) := by
      cases t with
      | none => rfl
      | some block => rfl
    rw [written]
    exact .pure ⟨some (n,_),rfl,rfl,fun _ => ⟨rfl,rfl⟩⟩

theorem readArtist_spec (r : Nat) (ends : Bool) (values : List Bytes) (t : Text) :
    Spec grants ({(r,.message)} + Text.blocks t) (readArtist (some r) (Slot.pointer t) ends values) fun read leaves =>
      ∃ after : Text, read.artist = Slot.pointer after ∧ leaves = {(r,.message)} + Text.blocks after ∧
        (Plenty grants → read.ok = ends ∧ Text.content after = values.foldl Mpris.appendArtist (Text.content t)) := by
  induction values generalizing t with
  | nil => exact .touches rfl (.pure ⟨t,rfl,rfl,fun _ => ⟨rfl,rfl⟩⟩)
  | cons value rest ih =>
    refine .touches rfl (.step (add_comm _ _) (appendArtist_spec t value) fun appended leaves reached => ?_)
    obtain ⟨middle,pointed,rfl,appendedAll⟩ := reached
    rw [pointed,add_comm (Text.blocks middle)]
    split
    · refine (ih middle).weaken fun read leaves reached => ?_
      obtain ⟨after,points,rfl,all⟩ := reached
      refine ⟨after,points,rfl,fun plenty => ?_⟩
      rw [List.foldl_cons,← (appendedAll plenty).2]
      exact all plenty
    · rename_i stopped
      exact .pure ⟨middle,pointed,rfl,fun plenty => absurd (appendedAll plenty).1 stopped⟩

theorem player_update (texts : Texts) (flags : Flags) (t : Text) :
    player (Function.update texts .title t) flags = { player texts flags with title := Text.content t } ∧
    player (Function.update texts .album t) flags = { player texts flags with album := Text.content t } ∧
    player (Function.update texts .artist t) flags = { player texts flags with artist := Text.content t } ∧
    player (Function.update texts .art t) flags = { player texts flags with art := Text.content t } := by
  simp [player]

theorem content_of (t : Text) (value : Bytes) (answers : Blocks.Answers grants value t) (plenty : Plenty grants) :
    t.isSome = true ∧ Text.content t = value := by
  obtain ⟨block,rfl⟩ := Option.isSome_iff_exists.mp (answers.granted plenty)
  exact ⟨rfl,answers.value block rfl⟩

theorem replaceText_spec (field : Field) (value : Bytes) :
    Spec grants (Texts.blocks texts) (replaceText (held texts flags) field value) fun read leaves => ∃ t : Text,
      read = ⟨t.isSome,held (Function.update texts field t) flags⟩ ∧
        leaves = Texts.blocks (Function.update texts field t) ∧ Blocks.Answers grants value t := by
  refine frees (Texts.split texts field) (.step (zero_add _).symm (strdup_spec value) fun pointer leaves copied => ?_)
  obtain ⟨t,rfl,rfl,answers⟩ := copied
  exact .pure ⟨t,by rw [held_set]; cases t <;> rfl,(Texts.joined texts field t).symm,answers⟩

theorem replaceArtist_spec (r : Nat) (enters ends : Bool) (values : List Bytes) :
    Spec grants ({(r,.message)} + Texts.blocks texts) (replaceArtist (some r) (held texts flags) enters values ends)
      fun read leaves => ∃ t : Text, read.player = held (Function.update texts .artist t) flags ∧
        leaves = {(r,.message)} + Texts.blocks (Function.update texts .artist t) ∧
        (Plenty grants → read.ok = (enters && ends) ∧
          Text.content t = (if enters then values else []).foldl Mpris.appendArtist []) := by
  refine frees (by rw [Texts.split texts .artist]; exact add_left_comm _ _ _) ?_
  cases enters with
  | false =>
    rw [if_neg Bool.false_ne_true,pure_bind]
    exact .pure ⟨none,held_set none,by rw [Texts.joined,blocks_none,zero_add],fun _ => ⟨rfl,rfl⟩⟩
  | true =>
    have part : {(r,.message)} + Texts.blocks (Function.update texts .artist none) =
        ({(r,.message)} + Text.blocks none) + Texts.blocks (Function.update texts .artist none) := by
      rw [blocks_none,add_zero]
    refine .step part (readArtist_spec r ends values none) fun read leaves reached => ?_
    obtain ⟨t,pointed,rfl,all⟩ := reached
    refine .pure ⟨t,?_,by rw [Texts.joined _ _ t,add_assoc],all⟩
    rw [pointed]
    exact held_set t

-- What a reader of metadata leaves as it is.
def Kept (before after : Texts) : Prop := ∀ field : Field, field.ofMetadata = false → after field = before field

theorem kept_update {field : Field} (given : field.ofMetadata = true) (t : Text) :
    Kept texts (Function.update texts field t) := by
  intro other apart
  refine Function.update_of_ne ?_ _ _
  rintro rfl
  rw [given] at apart
  cases apart

theorem textField_none {key : Bytes} (other : textField key = none) (player : Mpris.Player) (value : Bytes) :
    Mpris.readMetadataValue player (key,.string value) = player := by
  simp only [textField] at other
  split at other
  · cases other
  split at other
  · cases other
  split at other
  · cases other
  simp [Mpris.readMetadataValue, *]

theorem textField_some {key : Bytes} (found : textField key = some field) (texts : Texts) (t : Text) :
    field.ofMetadata = true ∧ Mpris.readMetadataValue (player texts flags) (key,.string (Text.content t)) =
      player (Function.update texts field t) flags := by
  obtain ⟨titled,onAlbum,-,pictured⟩ := player_update texts flags t
  simp only [textField] at found
  split at found
  · rename_i title
    cases found
    exact ⟨rfl,by rw [titled]; simp only [Mpris.readMetadataValue,if_pos title]⟩
  rename_i title
  split at found
  · rename_i album
    cases found
    exact ⟨rfl,by rw [onAlbum]; simp only [Mpris.readMetadataValue,if_neg title,if_pos album]⟩
  rename_i album
  split at found
  · rename_i art
    cases found
    exact ⟨rfl,by rw [pictured]; simp only [Mpris.readMetadataValue,if_neg title,if_neg album,if_pos art]⟩
  · cases found

theorem readMetadataValue_spec (r : Nat) (entry : Entry) :
    Spec grants ({(r,.message)} + Texts.blocks texts) (readMetadataValue (some r) (held texts flags) entry)
      fun read leaves => ∃ after : Texts, read.player = held after flags ∧ leaves = {(r,.message)} + Texts.blocks after ∧
        Kept texts after ∧ (Plenty grants → read.ok = entry.reads ∧
          player after flags = entry.shown.foldl Mpris.readMetadataValue (player texts flags)) := by
  obtain ⟨key,variant,skips,exits⟩ := entry
  cases variant with
  | unreadable => exact .pure ⟨texts,rfl,rfl,fun _ _ => rfl,fun _ => ⟨rfl,rfl⟩⟩
  | other => exact .pure ⟨texts,rfl,rfl,fun _ _ => rfl,fun _ => ⟨rfl,rfl⟩⟩
  | strings enters values ends =>
    by_cases artist : key = text "xesam:artist"
    · simp only [readMetadataValue,if_pos artist]
      refine (replaceArtist_spec r enters ends values).weaken fun read leaves reached => ?_
      obtain ⟨t,points,rfl,all⟩ := reached
      refine ⟨_,points,rfl,kept_update rfl t,fun plenty => ⟨?_,?_⟩⟩
      · rw [(all plenty).1]
        simp [Entry.reads,artist]
      · rw [(player_update texts flags t).2.2.1,(all plenty).2]
        simp [Entry.shown,Mpris.readMetadataValue,artist]
    · simp only [readMetadataValue,if_neg artist]
      exact .pure ⟨texts,rfl,rfl,fun _ _ => rfl,fun _ => by simp [Entry.reads,Entry.shown,Mpris.readMetadataValue,artist]⟩
  | string value =>
    cases found : textField key with
    | none =>
      simp only [readMetadataValue,found]
      refine .pure ⟨texts,rfl,rfl,fun _ _ => rfl,fun _ => ⟨by simp [Entry.reads,found],?_⟩⟩
      cases value with
      | none => rfl
      | some value => exact (textField_none found _ value).symm
    | some field => cases value with
      | none =>
        simp only [readMetadataValue,found]
        exact .pure ⟨texts,rfl,rfl,fun _ _ => rfl,fun _ => ⟨by simp [Entry.reads,found],rfl⟩⟩
      | some value =>
        simp only [readMetadataValue,found]
        refine .ends (add_comm _ _) (replaceText_spec field value) fun read leaves reached => ?_
        obtain ⟨t,rfl,rfl,answers⟩ := reached
        have replaced : field.ofMetadata = true ∧ Mpris.readMetadataValue (player texts flags) (key,.string (Text.content t)) =
            player (Function.update texts field t) flags := textField_some found texts t
        refine ⟨_,rfl,add_comm _ _,kept_update replaced.1 t,fun plenty => ?_⟩
        obtain ⟨present,written⟩ := content_of t value answers plenty
        refine ⟨by simp [Entry.reads,found,present],?_⟩
        rw [← replaced.2,written]
        rfl

theorem readEntries_spec (r : Nat) (entries : List Entry) (texts : Texts) :
    Spec grants ({(r,.message)} + Texts.blocks texts) (readEntries (some r) (held texts flags) entries) fun read leaves =>
      ∃ after : Texts, read = held after flags ∧ leaves = {(r,.message)} + Texts.blocks after ∧ Kept texts after ∧
        (Plenty grants → player after flags = (seen entries).foldl Mpris.readMetadataValue (player texts flags)) := by
  induction entries generalizing texts with
  | nil => exact .touches rfl (.pure ⟨texts,rfl,rfl,fun _ _ => rfl,fun _ => rfl⟩)
  | cons entry rest ih =>
    refine .touches rfl (.step (add_zero _).symm (readMetadataValue_spec r entry) fun read leaves reached => ?_)
    obtain ⟨middle,points,rfl,kept,all⟩ := reached
    rw [add_zero,points]
    split
    · rename_i goes
      obtain ⟨ok,exits⟩ := (Bool.and_eq_true _ _).mp goes
      refine (ih middle).weaken fun read leaves reached => ?_
      obtain ⟨after,rfl,rfl,keptOn,more⟩ := reached
      refine ⟨after,rfl,rfl,fun field given => (keptOn field given).trans (kept field given),fun plenty => ?_⟩
      rw [more plenty,(all plenty).2,seen,if_pos (by rw [← (all plenty).1,goes]),List.foldl_append]
    · rename_i stops
      refine .pure ⟨middle,rfl,rfl,kept,fun plenty => ?_⟩
      rw [(all plenty).2,seen,if_neg (by rwa [← (all plenty).1]),List.append_nil]

theorem readMetadata_spec (answer : Except (Option Bytes) (List Entry)) :
    Spec grants (Texts.blocks texts) (readMetadata (held texts flags) answer) fun read leaves =>
      ∃ after : Texts, read = held after flags ∧ leaves = Texts.blocks after ∧ Kept texts after ∧
        (Plenty grants → player after flags =
          (seen (answer.toOption.getD [])).foldl Mpris.readMetadataValue (player texts flags)) := by
  refine .step (zero_add _).symm (call_spec _) fun called leaves reached => ?_
  obtain ⟨error,result,rfl,rfl,outcome⟩ := reached
  refine frees (add_assoc _ _ _) ?_
  cases result with
  | none =>
    refine .pure ⟨texts,rfl,zero_add _,fun _ _ => rfl,fun plenty => ?_⟩
    cases answer with
    | error message => rfl
    | ok entries => cases (outcome.given _ rfl).2.granted plenty
  | some block =>
    obtain ⟨r,cell⟩ := block
    cases answer with
    | error message => cases (outcome.failed message rfl).1
    | ok entries =>
      obtain rfl : cell = .message := (outcome.given _ rfl).2.value _ rfl
      refine .step (add_zero _).symm (readEntries_spec r entries texts) fun read leaves reached => ?_
      obtain ⟨after,rfl,rfl,kept,all⟩ := reached
      refine .step (add_zero _) (free_spec (some (r,Cell.message))) fun _ leaves freed => ?_
      rw [freed,zero_add]
      exact .pure ⟨after,rfl,rfl,kept,all⟩

theorem asks {owned : Multiset (Nat × Cell)} {α : Type} {rest : Bool → Program Cell α}
    {post : α → Multiset (Nat × Cell) → Prop} (answer : Except (Option Bytes) Bool)
    (follows : ∀ value, (Plenty grants → value = answer.toOption.getD false) → Spec grants owned (rest value) post) :
    Spec grants owned (readBoolProperty answer >>= rest) post := by
  refine .step (zero_add _).symm (readBoolProperty_spec answer) fun value leaves asked => ?_
  rw [asked.1,zero_add]
  exact follows value asked.2

theorem readFlags_spec (answers : Answers) :
    Spec grants 0 (readFlags answers) fun flags leaves => leaves = 0 ∧ (Plenty grants → flags =
      ⟨answers.canControl.toOption.getD false,answers.canGoNext.toOption.getD false,
       answers.canGoPrevious.toOption.getD false,answers.canPause.toOption.getD false,
       answers.canPlay.toOption.getD false⟩) := by
  refine asks _ fun canControl control => asks _ fun canGoNext goNext => asks _ fun canGoPrevious goPrevious => ?_
  refine asks _ fun canPause pause => asks _ fun canPlay play => .pure ⟨rfl,fun plenty => ?_⟩
  rw [control plenty,goNext plenty,goPrevious plenty,pause plenty,play plenty]

-- A text that is filled in is the empty one it was.
theorem fill_spec (field : Field) :
    Spec grants (Texts.blocks texts) (fill (held texts flags) field) fun read leaves => ∃ t : Text,
      read = held (Function.update texts field t) flags ∧ leaves = Texts.blocks (Function.update texts field t) ∧
        Text.content t = Text.content (texts field) ∧ (Plenty grants → t.isSome = true) := by
  cases present : texts field with
  | some block =>
    have there : ((held texts flags).texts field).isSome = true := by simp [held,present,Slot.pointer]
    rw [fill,if_pos there]
    refine .pure ⟨texts field,?_,?_,?_,?_⟩ <;> simp [present]
    · rw [← present,Function.update_eq_self]
    · rw [← present,Function.update_eq_self]
  | none =>
    have absent : ¬((held texts flags).texts field).isSome = true := by simp [held,present,Slot.pointer]
    rw [fill,if_neg absent]
    have part : Texts.blocks texts = 0 + Texts.blocks (Function.update texts field none) := by
      rw [Texts.split texts field,present]
      rfl
    refine .step part (strdup_spec []) fun pointer leaves copied => ?_
    obtain ⟨t,rfl,rfl,answers⟩ := copied
    refine .pure ⟨t,held_set t,(Texts.joined texts field t).symm,?_,answers.granted⟩
    cases t with
    | none => rfl
    | some block => exact answers.value _ rfl

-- Strings for every pointer.
def Complete (texts : Texts) : Prop := ∀ field, (texts field).isSome = true

theorem completePlayer_spec (named : ∀ field : Field, field.ofMetadata = false → (texts field).isSome = true) :
    Spec grants (Texts.blocks texts) (completePlayer (held texts flags)) fun read leaves => ∃ after : Texts,
      read.player = held after flags ∧ leaves = Texts.blocks after ∧ player after flags = player texts flags ∧
        (read.ok = true → Complete after) ∧ (Plenty grants → read.ok = true) := by
  refine .step (add_zero _).symm (fill_spec .title) fun filled leaves reached => ?_
  obtain ⟨title,rfl,rfl,titled,titleThere⟩ := reached
  refine .step rfl (fill_spec .album) fun filled leaves reached => ?_
  obtain ⟨album,rfl,rfl,onAlbum,albumThere⟩ := reached
  refine .step rfl (fill_spec .artist) fun filled leaves reached => ?_
  obtain ⟨artist,rfl,rfl,byArtist,artistThere⟩ := reached
  refine .step rfl (fill_spec .art) fun filled leaves reached => ?_
  obtain ⟨art,rfl,rfl,pictured,artThere⟩ := reached
  refine .pure ⟨_,rfl,by simp,?_,?_,?_⟩
  · simp only [ne_eq,reduceCtorEq,not_false_eq_true,Function.update_of_ne] at onAlbum byArtist pictured
    simp [player,titled,onAlbum,byArtist,pictured]
  · intro ok field
    simp [held,Slot.pointer] at ok
    cases field with
    | busName => simpa using named .busName rfl
    | identity => simpa using named .identity rfl
    | status => simpa using named .status rfl
    | title => simpa using ok.1.1.1
    | album => simpa using ok.1.1.2
    | artist => simpa using ok.1.2
    | art => simpa using ok.2
  · intro plenty
    simp [held,Slot.pointer,titleThere plenty,albumThere plenty,artistThere plenty,artThere plenty]

theorem readIdentity_spec (name : Bytes) (answers : Answers) :
    Spec grants 0 (readIdentity name answers) fun pointer leaves => ∃ t : Text, pointer = Slot.pointer t ∧
      leaves = Text.blocks t ∧ (Plenty grants → t.isSome = true ∧
        Text.content t = answers.identity.toOption.getD (name.drop busPrefix.length)) := by
  refine .step (add_zero _).symm (readStringProperty_spec _) fun pointer leaves reached => ?_
  obtain ⟨t,rfl,rfl,all⟩ := reached
  cases t with
  | some block => exact .pure ⟨some block,rfl,add_zero _,fun plenty => ⟨rfl,by rw [Text.content,all plenty]; rw [← all plenty]; rfl⟩⟩
  | none =>
    refine (strdup_spec _).weaken fun pointer leaves copied => ?_
    obtain ⟨t,rfl,rfl,answers⟩ := copied
    refine ⟨t,rfl,rfl,fun plenty => ?_⟩
    rw [← all plenty]
    exact content_of t _ answers plenty

-- The bus name and the flags take no part in the metadata.
theorem readMetadataValue_named (player : Mpris.Player) (name : Bytes) (flags : Flags) (entry : Bytes × Mpris.Variant) :
    Mpris.readMetadataValue { player with busName := name, flags := flags } entry =
      { Mpris.readMetadataValue player entry with busName := name, flags := flags } := by
  obtain ⟨key,variant⟩ := entry
  cases variant <;> simp only [Mpris.readMetadataValue] <;> split_ifs <;> rfl

theorem metadata_named (player : Mpris.Player) (name : Bytes) (flags : Flags) (entries : List (Bytes × Mpris.Variant)) :
    entries.foldl Mpris.readMetadataValue { player with busName := name, flags := flags } =
      { entries.foldl Mpris.readMetadataValue player with busName := name, flags := flags } := by
  induction entries generalizing player with
  | nil => rfl
  | cons entry rest ih =>
    rw [List.foldl_cons,readMetadataValue_named]
    exact ih _

-- What a reading that succeeds leaves, and that it succeeds while there is memory.
structure Loaded (grants : Nat → Bool) (read : Read) (leaves : Multiset (Nat × Cell)) (meant : Option Mpris.Player)
    (after : Texts) (flags : Flags) : Prop where
  held : read.player = held after flags
  leaves : leaves = Texts.blocks after
  complete : read.ok = true → Complete after
  player : Plenty grants → (if read.ok then some (player after flags) else none) = meant

theorem readRest_spec (name : Bytes) (answers : Answers) (unnamed : texts .busName = none)
    (identity : (texts .identity).isSome = true) (status : (texts .status).isSome = true) :
    Spec grants (Texts.blocks texts) (readRest name answers (held texts .cleared)) fun read leaves => ∃ after flags,
      Loaded grants read leaves (some (answers.replies.metadata.foldl Mpris.readMetadataValue
        { player texts .cleared with
          busName := name
          flags := ⟨answers.canControl.toOption.getD false,answers.canGoNext.toOption.getD false,
            answers.canGoPrevious.toOption.getD false,answers.canPause.toOption.getD false,
            answers.canPlay.toOption.getD false⟩ })) after flags := by
  refine .step (add_zero _).symm (readMetadata_spec _) fun read leaves reached => ?_
  obtain ⟨middle,rfl,rfl,kept,described⟩ := reached
  rw [add_zero]
  refine .step (zero_add _).symm (readFlags_spec answers) fun flags leaves reached => ?_
  obtain ⟨rfl,flagged⟩ := reached
  refine .step rfl (strdup_spec name) fun pointer leaves copied => ?_
  obtain ⟨t,rfl,rfl,copies⟩ := copied
  have named : { (held middle .cleared).set .busName (Slot.pointer t) with flags := flags } =
      held (Function.update middle .busName t) flags := by
    rw [held_set]
    rfl
  have same : Function.update middle .busName none = middle := by
    rw [← unnamed,← kept .busName rfl,Function.update_eq_self]
  have owned : Text.blocks t + Texts.blocks middle = Texts.blocks (Function.update middle .busName t) := by
    rw [Texts.joined,same]
  rw [named,owned]
  dsimp only
  cases t with
  | none => exact .pure ⟨_,flags,rfl,rfl,fun ok => (by cases ok),fun plenty => (by cases copies.granted plenty)⟩
  | some block =>
    refine (completePlayer_spec ?_).weaken fun read leaves reached => ?_
    · intro field given
      cases field with
      | busName => simp
      | identity => simpa [kept .identity rfl] using identity
      | status => simpa [kept .status rfl] using status
      | _ => cases given
    · obtain ⟨after,points,rfl,same,complete,ok⟩ := reached
      refine ⟨after,flags,points,rfl,complete,fun plenty => ?_⟩
      have listed : answers.replies.metadata = seen (answers.metadata.toOption.getD []) := rfl
      rw [if_pos (ok plenty),same,metadata_named,listed,← described plenty,← flagged plenty]
      obtain rfl : block.2 = name := copies.value _ rfl
      simp [player,Text.content,Slot.value]

theorem readPlayer_spec (name : Bytes) (answers : Answers) :
    Spec grants 0 (readPlayer name answers) fun read leaves => ∃ after flags,
      Loaded grants read leaves (Mpris.readPlayer name answers.replies) after flags := by
  refine .step (add_zero _).symm (readStringProperty_spec _) fun pointer leaves reached => ?_
  obtain ⟨status,rfl,rfl,stated⟩ := reached
  rw [add_zero]
  cases status with
  | none =>
    refine .pure ⟨nowhere,.cleared,rfl,rfl,fun ok => (by cases ok),fun plenty => ?_⟩
    have unread : answers.replies.status = none := (stated plenty).symm
    simp [Mpris.readPlayer,unread]
  | some block =>
    refine .step (zero_add _).symm (readIdentity_spec name answers) fun pointer leaves reached => ?_
    obtain ⟨identity,rfl,rfl,identified⟩ := reached
    have begun : (zeroed.set .status (Slot.pointer (some block))).set .identity (Slot.pointer identity) =
        held (Function.update (Function.update nowhere .status (some block)) .identity identity) .cleared := by
      rw [← held_zeroed,held_set,held_set]
    have owned : Text.blocks identity + Text.blocks (some block) =
        Texts.blocks (Function.update (Function.update nowhere .status (some block)) .identity identity) := by
      rw [Texts.joined,Function.update_comm (by simp),Texts.joined]
      simp [nowhere,Texts.blocks,blocks_none]
    rw [begun,owned]
    cases identity with
    | none => exact .pure ⟨_,.cleared,rfl,rfl,fun ok => (by cases ok),fun plenty => (by cases (identified plenty).1)⟩
    | some other =>
      refine (readRest_spec name answers (by simp [nowhere]) (by simp) (by simp)).weaken fun read leaves reached => ?_
      obtain ⟨after,flags,loaded⟩ := reached
      refine ⟨after,flags,loaded.held,loaded.leaves,loaded.complete,fun plenty => ?_⟩
      have read : answers.replies.status = some block.2 := (stated plenty).symm
      have named : answers.replies.identity.getD (name.drop busPrefix.length) = Text.content (some other) :=
        (identified plenty).2.symm
      rw [loaded.player plenty,Mpris.readPlayer,read,named]
      rfl

theorem reads {owned others : Multiset (Nat × Cell)} {α : Type} {rest : Bytes → Program Cell α}
    {post : α → Multiset (Nat × Cell) → Prop} (present : (texts field).isSome = true)
    (part : owned = Texts.blocks texts + others) (follows : Spec grants owned (rest (Text.content (texts field))) post) :
    Spec grants owned (string ((held texts flags).texts field) >>= rest) post := by
  have whole : owned = Text.blocks (texts field) + (Texts.blocks (Function.update texts field none) + others) := by
    rw [part,Texts.split texts field,add_assoc]
  refine .step whole (string_spec present) fun value leaves read => ?_
  obtain ⟨rfl,rfl⟩ := read
  rwa [← whole]

-- The player selected so far, none while the struct is zeroed.
abbrev Pick := Option (Texts × Flags)

def Pick.snapshot (pick : Pick) : PlayerSnapshot := pick.elim zeroed fun chosen => held chosen.1 chosen.2
def Pick.blocks (pick : Pick) : Multiset (Nat × Cell) := pick.elim 0 fun chosen => Texts.blocks chosen.1
def Pick.player (pick : Pick) : Option Mpris.Player := pick.map fun chosen => MprisHeap.player chosen.1 chosen.2
def Pick.Whole (pick : Pick) : Prop := ∀ chosen ∈ pick, Complete chosen.1

theorem preferPlayer_spec (whole : Complete texts) {pick : Pick} (chosen : Pick.Whole pick) :
    Spec grants (Texts.blocks texts + Pick.blocks pick) (preferPlayer (held texts flags) (Pick.snapshot pick))
      fun better leaves => better = Mpris.preferPlayer (player texts flags) (Pick.player pick) ∧
        leaves = Texts.blocks texts + Pick.blocks pick := by
  cases pick with
  | none => exact .pure ⟨rfl,rfl⟩
  | some selected =>
    obtain ⟨others,kept⟩ := selected
    have present : ((Pick.snapshot (some (others,kept))).texts .busName).isSome = true := by
      simpa [Pick.snapshot,held,Slot.pointer] using chosen _ rfl .busName
    rw [preferPlayer,if_pos present]
    refine reads (whole .status) rfl (reads (chosen _ rfl .status) (add_comm _ _) ?_)
    split
    · rename_i differ
      refine .pure ⟨?_,rfl⟩
      exact (if_pos differ).symm
    · rename_i same
      refine reads (whole .busName) rfl (reads (chosen _ rfl .busName) (add_comm _ _) (.pure ⟨?_,rfl⟩))
      exact (if_neg same).symm

theorem releases {owned others : Multiset (Nat × Cell)} {α : Type} {rest : Program Cell α}
    {post : α → Multiset (Nat × Cell) → Prop} (pick : Pick) (part : owned = Pick.blocks pick + others)
    (follows : Spec grants others rest post) :
    Spec grants owned (freePlayer (Pick.snapshot pick) >>= fun _ => rest) post := by
  have freed : Spec grants (Pick.blocks pick) (freePlayer (Pick.snapshot pick)) fun _ leaves => leaves = 0 := by
    cases pick with
    | none => exact freePlayer_spec nowhere .cleared
    | some chosen => exact freePlayer_spec chosen.1 chosen.2
  refine .step part freed fun _ leaves gone => ?_
  rwa [gone,zero_add]

-- The candidate that wins takes the place of the selected player; the other one
-- is given back.
theorem consider_spec (name : Bytes) (answers : Answers) (mpris : isMprisName name = true) {pick : Pick}
    (whole : Pick.Whole pick) :
    Spec grants (Pick.blocks pick) (consider (Pick.snapshot pick) name answers) fun selected leaves => ∃ after : Pick,
      selected = Pick.snapshot after ∧ leaves = Pick.blocks after ∧ Pick.Whole after ∧
        (Plenty grants → Pick.player after = Mpris.consider (Pick.player pick) (name,answers.replies)) := by
  refine .step (zero_add _).symm (readPlayer_spec name answers) fun read leaves reached => ?_
  obtain ⟨texts,flags,loaded⟩ := reached
  obtain ⟨ok,candidate⟩ := read
  obtain rfl : candidate = held texts flags := loaded.held
  rw [loaded.leaves]
  cases ok with
  | false =>
    rw [if_neg Bool.false_ne_true,pure_bind]
    dsimp only
    rw [if_neg Bool.false_ne_true]
    refine releases (some (texts,flags)) rfl (.pure ⟨pick,rfl,rfl,whole,fun plenty => ?_⟩)
    have unread : Mpris.readPlayer name answers.replies = none := (loaded.player plenty).symm
    rw [Mpris.consider,if_pos mpris]
    simp only [unread]
  | true =>
    have complete : Complete texts := loaded.complete rfl
    have readable : Plenty grants → Mpris.readPlayer name answers.replies = some (player texts flags) :=
      fun plenty => (loaded.player plenty).symm
    rw [if_pos rfl]
    refine .step (add_zero _).symm (preferPlayer_spec complete whole) fun better leaves reached => ?_
    obtain ⟨rfl,rfl⟩ := reached
    rw [add_zero]
    dsimp only
    split
    · rename_i wins
      refine releases pick (add_comm _ _) (.pure ⟨some (texts,flags),rfl,rfl,fun chosen mem => ?_,fun plenty => ?_⟩)
      · cases mem
        exact complete
      · rw [Mpris.consider,if_pos mpris]
        simp only [readable plenty,wins,if_true]
        rfl
    · rename_i loses
      refine releases (some (texts,flags)) rfl (.pure ⟨pick,rfl,rfl,whole,fun plenty => ?_⟩)
      rw [Mpris.consider,if_pos mpris]
      simp only [readable plenty,if_neg loses]

theorem readNames_spec (r : Nat) (names : List (Bytes × Answers)) {pick : Pick} (whole : Pick.Whole pick) :
    Spec grants ({(r,.message)} + Pick.blocks pick) (readNames (some r) (Pick.snapshot pick) names) fun selected leaves =>
      ∃ after : Pick, selected = Pick.snapshot after ∧ leaves = {(r,.message)} + Pick.blocks after ∧ Pick.Whole after ∧
        (Plenty grants → Pick.player after =
          (names.map fun entry => (entry.1,entry.2.replies)).foldl Mpris.consider (Pick.player pick)) := by
  induction names generalizing pick with
  | nil => exact .touches rfl (.pure ⟨pick,rfl,rfl,whole,fun _ => rfl⟩)
  | cons entry rest ih =>
    refine .touches rfl ?_
    split
    · rename_i mpris
      refine .step (add_comm _ _) (consider_spec entry.1 entry.2 mpris whole) fun selected leaves reached => ?_
      obtain ⟨middle,rfl,rfl,kept,considered⟩ := reached
      rw [add_comm]
      refine (ih kept).weaken fun selected leaves reached => ?_
      obtain ⟨after,rfl,rfl,stays,all⟩ := reached
      refine ⟨after,rfl,rfl,stays,fun plenty => ?_⟩
      rw [all plenty,considered plenty]
      rfl
    · rename_i other
      refine (ih whole).weaken fun selected leaves reached => ?_
      obtain ⟨after,rfl,rfl,stays,all⟩ := reached
      refine ⟨after,rfl,rfl,stays,fun plenty => ?_⟩
      rw [all plenty,List.map_cons,List.foldl_cons,Mpris.consider,if_neg other]

theorem duplicateOrEmpty_spec (t : Text) :
    Spec grants (Text.blocks t) (duplicateOrEmpty (Slot.pointer t)) fun pointer leaves => ∃ copy : Text,
      pointer = Slot.pointer copy ∧ leaves = Text.blocks copy + Text.blocks t ∧
        Blocks.Answers grants (Text.content t) copy := by
  cases t with
  | none =>
    refine (strdup_spec []).weaken fun pointer leaves copied => ?_
    obtain ⟨copy,rfl,rfl,answers⟩ := copied
    exact ⟨copy,rfl,(add_zero _).symm,answers⟩
  | some block =>
    refine .step (add_zero _).symm (string_spec rfl) fun value leaves read => ?_
    obtain ⟨rfl,rfl⟩ := read
    rw [add_zero]
    refine .ends (zero_add _).symm (strdup_spec _) fun pointer leaves copied => ?_
    obtain ⟨copy,rfl,rfl,answers⟩ := copied
    exact ⟨copy,rfl,rfl,answers⟩

theorem errorText_spec (t : Text) (otherwise : Bytes) :
    Spec grants (Text.blocks t) (errorText (Slot.pointer t) otherwise) fun error leaves =>
      error = (Slot.value t).getD otherwise ∧ leaves = Text.blocks t := by
  cases t with
  | none => exact .pure ⟨rfl,rfl⟩
  | some block =>
    refine (string_spec rfl).weaken fun error leaves read => ?_
    obtain ⟨rfl,rfl⟩ := read
    exact ⟨rfl,rfl⟩

-- What select_player leaves behind, and what it says.
structure Selected (grants : Nat → Bool) (names : Names) (selection : Selection) (leaves : Multiset (Nat × Cell)) (pick : Pick)
    (message : Text) : Prop where
  selected : selection.selected = Pick.snapshot pick
  said : selection.message = Slot.pointer message
  leaves : leaves = Text.blocks message + Pick.blocks pick
  whole : Pick.Whole pick
  meant : Plenty grants → Mpris.selectPlayer names.listing =
    selection.failed.elim (.ok (Pick.player pick)) fun failed => .error ((Slot.value message).getD failed)

theorem whole_none : Pick.Whole none := by simp [Pick.Whole]

theorem selectNames_spec (r : Nat) (names : Names) (answered : names.answer = .ok .message) :
    Spec grants {(r,.message)} (selectNames (some r) names) fun selection leaves => ∃ pick own,
      leaves = {(r,.message)} + own ∧ Selected grants names selection own pick none := by
  cases names with
  | failed message error => cases answered
  | unreadable error => exact .pure ⟨none,0,rfl,rfl,rfl,rfl,whole_none,fun _ => rfl⟩
  | names listed broken =>
    refine .step (add_zero _).symm (readNames_spec r listed whole_none) fun selected leaves reached => ?_
    obtain ⟨pick,rfl,rfl,whole,all⟩ := reached
    refine .pure ⟨pick,_,add_zero _,rfl,rfl,(zero_add _).symm,whole,fun plenty => ?_⟩
    cases broken with
    | none => exact congrArg Except.ok (all plenty).symm
    | some error => rfl

theorem selectPlayer_spec (names : Names) :
    Spec grants 0 (selectPlayer names) fun selection leaves => ∃ pick message,
      Selected grants names selection leaves pick message := by
  refine .step (add_zero _).symm (call_spec _) fun called leaves reached => ?_
  obtain ⟨error,result,rfl,rfl,outcome⟩ := reached
  rw [add_zero]
  cases result with
  | none =>
    refine .step rfl (duplicateOrEmpty_spec error) fun pointer leaves copied => ?_
    obtain ⟨copy,rfl,rfl,answers⟩ := copied
    have part : Text.blocks copy + Text.blocks error + Slot.blocks none = Text.blocks error + Text.blocks copy := by
      rw [add_comm (Text.blocks copy)]
      exact add_zero _
    refine frees part (.step (zero_add _).symm (free_spec none) fun _ leaves freed => ?_)
    rw [freed,zero_add]
    refine .pure ⟨none,copy,rfl,rfl,(add_zero _).symm,whole_none,fun plenty => ?_⟩
    cases names with
    | failed message text =>
      obtain ⟨block,rfl⟩ := Option.isSome_iff_exists.mp (answers.granted plenty)
      have copied : block.2 = (Slot.value error).getD [] := answers.value block rfl
      rw [((outcome.failed message rfl).2.2 plenty)] at copied
      simp [Names.listing,Mpris.selectPlayer,Slot.value,copied]
    | unreadable error => cases (outcome.given _ rfl).2.granted plenty
    | names listed broken => cases (outcome.given _ rfl).2.granted plenty
  | some block =>
    obtain ⟨r,cell⟩ := block
    refine frees rfl ?_
    cases answered : names.answer with
    | error message => cases (outcome.failed message answered).1
    | ok given =>
      have message : given = .message := by
        cases names <;> cases answered <;> rfl
      obtain rfl : cell = given := (outcome.given _ answered).2.value _ rfl
      subst message
      refine .step (add_zero _).symm (selectNames_spec r names answered) fun selection leaves reached => ?_
      obtain ⟨pick,own,rfl,selected⟩ := reached
      refine .step (add_zero _) (free_spec (some (r,Cell.message))) fun _ leaves freed => ?_
      rw [freed,zero_add]
      exact .pure ⟨pick,none,selected⟩

def resource (cell : Cell) (pointer : Pointer) : Slot Cell := pointer.map fun n => (n,cell)

-- What a source owns.
structure Holding where
  bus : Pointer
  nameSlot : Pointer
  propertiesSlot : Pointer
  name : Text
  flags : Flags

def Holding.source (h : Holding) : Source := ⟨h.bus,h.nameSlot,h.propertiesSlot,Slot.pointer h.name,h.flags⟩

def Holding.rest (h : Holding) : Multiset (Nat × Cell) :=
  Slot.blocks (resource .slot h.propertiesSlot) + (Slot.blocks (resource .slot h.nameSlot) + Slot.blocks (resource .bus h.bus))

def Holding.blocks (h : Holding) : Multiset (Nat × Cell) := h.rest + Text.blocks h.name

def Holding.value (h : Holding) : Mpris.Source := ⟨h.bus.isSome,Slot.value h.name,h.flags⟩

def Holding.closed : Holding := ⟨none,none,none,none,.cleared⟩

-- A source is closed, or connected and subscribed.
def Settled (h : Holding) : Prop :=
  h = .closed ∨ h.bus.isSome = true ∧ h.nameSlot.isSome = true ∧ h.propertiesSlot.isSome = true

@[simp] theorem resource_pointer (cell : Cell) (pointer : Pointer) : (resource cell pointer).pointer = pointer := by
  cases pointer <;> rfl

structure Ends (grants : Nat → Bool) (h : Holding) (event : Event) (done : Done) (leaves : Multiset (Nat × Cell))
    (after : Holding) : Prop where
  source : done.source = after.source
  leaves : leaves = after.blocks
  settled : Settled after
  meant : Plenty grants → meant h.value event = (after.value,done.returned)

variable {h : Holding}

theorem free_resource {owned others : Multiset (Nat × Cell)} {α : Type} {rest : Program Cell α}
    {post : α → Multiset (Nat × Cell) → Prop} (cell : Cell) {pointer : Pointer}
    (part : owned = Slot.blocks (resource cell pointer) + others) (follows : Spec grants others rest post) :
    Spec grants owned (free pointer >>= fun _ => rest) post := by
  rw [← resource_pointer cell pointer]
  exact .frees part follows

theorem closeSource_spec (h : Holding) :
    Spec grants h.blocks (closeSource h.source) fun done leaves => done = ⟨closed,.nothing⟩ ∧ leaves = 0 := by
  refine free_resource .slot (add_assoc _ _ _) (free_resource .slot (add_assoc _ _ _) (free_resource .bus rfl ?_))
  exact frees (add_zero _).symm (.pure ⟨rfl,rfl⟩)

theorem failOpen_spec (h : Holding) :
    Spec grants h.blocks (failOpen h.source) fun done leaves => done = ⟨closed,.opened false⟩ ∧ leaves = 0 := by
  refine .step (add_zero _).symm (closeSource_spec h) fun done leaves reached => ?_
  obtain ⟨rfl,rfl⟩ := reached
  exact .pure ⟨rfl,rfl⟩

theorem obtain_spec (answers : Bool) (cell : Cell) :
    Spec grants 0 (obtain answers cell) fun pointer leaves => leaves = Slot.blocks (resource cell pointer) ∧
      (pointer.isSome = true → answers = true) ∧ (Plenty grants → pointer.isSome = answers) := by
  cases answers with
  | false => exact .pure ⟨rfl,by simp,by simp⟩
  | true =>
    refine (malloc_spec cell).weaken fun pointer leaves reached => ?_
    obtain ⟨slot,rfl,rfl,answers⟩ := reached
    cases slot with
    | none => exact ⟨rfl,by simp,answers.granted⟩
    | some block =>
      obtain ⟨n,given⟩ := block
      obtain rfl : given = cell := answers.value _ rfl
      exact ⟨rfl,by simp,by simp [Slot.pointer]⟩

-- An opening that fails leaves nothing.
theorem failed_ends {answers : Opening} (h before : Holding)
    (fails : Plenty grants → (answers.bus && answers.configures && answers.name && answers.properties) = false) :
    Spec grants h.blocks (failOpen h.source) fun done leaves => ∃ after, Ends grants before (.open answers) done leaves after := by
  refine (failOpen_spec h).weaken fun done leaves reached => ?_
  obtain ⟨rfl,rfl⟩ := reached
  refine ⟨.closed,rfl,rfl,.inl rfl,fun plenty => ?_⟩
  rw [meant,fails plenty]
  rfl

theorem subscribe_spec (before : Holding) (answers : Opening) (bus : Nat) (opens : answers.bus = true)
    (configures : answers.configures = true) :
    Spec grants {(bus,.bus)} (subscribe { closed with bus := some bus } answers) fun done leaves =>
      ∃ after, Ends grants before (.open answers) done leaves after := by
  refine .step (zero_add _).symm (obtain_spec _ _) fun nameSlot leaves reached => ?_
  obtain ⟨rfl,-,named⟩ := reached
  cases nameSlot with
  | none =>
    have owned : Slot.blocks (resource .slot none) + {(bus,.bus)} =
        (⟨some bus,none,none,none,.cleared⟩ : Holding).blocks := (add_zero _).symm
    rw [owned]
    refine failed_ends ⟨some bus,none,none,none,.cleared⟩ before fun plenty => ?_
    have refused : answers.name = false := (named plenty).symm
    simp [refused]
  | some name =>
    refine .step (zero_add _).symm (obtain_spec _ _) fun propertiesSlot leaves reached => ?_
    obtain ⟨rfl,-,watched⟩ := reached
    have owned : Slot.blocks (resource .slot propertiesSlot) + (Slot.blocks (resource .slot (some name)) + {(bus,.bus)}) =
        (⟨some bus,some name,propertiesSlot,none,.cleared⟩ : Holding).blocks := (add_zero _).symm
    rw [owned]
    cases propertiesSlot with
    | none =>
      refine failed_ends ⟨some bus,some name,none,none,.cleared⟩ before fun plenty => ?_
      have refused : answers.properties = false := (watched plenty).symm
      simp [refused]
    | some properties =>
      refine .pure ⟨_,rfl,rfl,.inr ⟨rfl,rfl,rfl⟩,fun plenty => ?_⟩
      have granted : answers.name = true := (named plenty).symm
      have given : answers.properties = true := (watched plenty).symm
      rw [meant,opens,configures,granted,given]
      rfl

theorem lopen_spec (before : Holding) (answers : Opening) :
    Spec grants 0 (lopen answers) fun done leaves => ∃ after, Ends grants before (.open answers) done leaves after := by
  refine .step (add_zero _).symm (obtain_spec _ _) fun bus leaves reached => ?_
  obtain ⟨rfl,opens,connected⟩ := reached
  rw [add_zero]
  cases bus with
  | none =>
    refine .pure ⟨.closed,rfl,rfl,.inl rfl,fun plenty => ?_⟩
    have refused : answers.bus = false := (connected plenty).symm
    rw [meant,refused]
    rfl
  | some bus =>
    have there : (some bus).isSome = true := rfl
    rw [if_pos there]
    split
    · rename_i configures
      exact subscribe_spec before answers bus (opens rfl) configures
    · rename_i configures
      have owned : Slot.blocks (resource .bus (some bus)) =
          (⟨some bus,none,none,none,.cleared⟩ : Holding).blocks := (add_zero _).symm
      rw [owned]
      exact failed_ends ⟨some bus,none,none,none,.cleared⟩ before fun _ => by simp [configures]

theorem pushPlayer_spec (whole : Complete texts) :
    Spec grants (Texts.blocks texts) (pushPlayer (held texts flags)) fun media leaves =>
      media = Mpris.pushPlayer (player texts flags) ∧ leaves = Texts.blocks texts := by
  have own : Texts.blocks texts = Texts.blocks texts + 0 := (add_zero _).symm
  refine reads (whole .album) own (reads (whole .art) own (reads (whole .artist) own ?_))
  exact reads (whole .identity) own (reads (whole .status) own (reads (whole .title) own (.pure ⟨rfl,rfl⟩)))

theorem Settled.connected (settled : Settled h) (bus : h.bus.isSome = true) :
    h.nameSlot.isSome = true ∧ h.propertiesSlot.isSome = true := by
  rcases settled with rfl | ⟨-,slots⟩
  · cases bus
  · exact slots

theorem showPlayer_spec (settled : Settled h) (bus : h.bus.isSome = true) {pick : Pick} (whole : Pick.Whole pick) (names : Names)
    (selected : Plenty grants → Mpris.selectPlayer names.listing = .ok (Pick.player pick)) :
    Spec grants (Pick.blocks pick + h.blocks) (showPlayer h.source (Pick.snapshot pick)) fun done leaves =>
      ∃ after, Ends grants h (.snapshot names) done leaves after := by
  have part : Pick.blocks pick + h.blocks = Text.blocks h.name + (Pick.blocks pick + h.rest) := by
    rw [Holding.blocks]
    abel
  refine frees part ?_
  cases pick with
  | none =>
    refine releases none rfl (.pure ⟨{ h with name := none, flags := .cleared },rfl,(add_zero _).symm,
      .inr ⟨bus,settled.connected bus⟩,fun plenty => ?_⟩)
    simp [meant,Mpris.snapshot,Holding.value,bus,selected plenty,Pick.player,Slot.value]
  | some chosen =>
    obtain ⟨texts,flags⟩ := chosen
    have complete : Complete texts := whole _ rfl
    have present : ((Pick.snapshot (some (texts,flags))).texts .busName).isSome = true := by
      simpa [Pick.snapshot,held,Slot.pointer] using complete .busName
    rw [if_pos present]
    refine reads (complete .busName) rfl (.step (zero_add _).symm (strdup_spec _) fun pointer leaves copied => ?_)
    obtain ⟨copy,rfl,rfl,answers⟩ := copied
    cases copy with
    | none =>
      refine releases (some (texts,flags)) (zero_add _) (.pure ⟨{ h with name := none, flags := flags },rfl,
        (add_zero _).symm,.inr ⟨bus,settled.connected bus⟩,fun plenty => ?_⟩)
      cases answers.granted plenty
    | some block =>
      refine .step (add_left_comm _ _ _) (pushPlayer_spec complete) fun media leaves pushed => ?_
      obtain ⟨rfl,rfl⟩ := pushed
      refine releases (some (texts,flags)) rfl (.pure ⟨{ h with name := some block, flags := flags },rfl,
        add_comm _ _,.inr ⟨bus,settled.connected bus⟩,fun plenty => ?_⟩)
      have copied : block.2 = Text.content (texts .busName) := answers.value block rfl
      simp [meant,Mpris.snapshot,Holding.value,bus,selected plenty,Pick.player,Slot.value,player,copied]

theorem bus_split {b : Nat} (bus : h.bus = some b) : h.blocks = {(b,.bus)} + (Slot.blocks (resource .slot h.propertiesSlot) +
    Slot.blocks (resource .slot h.nameSlot) + Text.blocks h.name) := by
  have own : Slot.blocks (resource .bus h.bus) = {(b,.bus)} := by
    rw [bus]
    rfl
  rw [Holding.blocks,Holding.rest,own]
  abel

theorem snapshot_spec (settled : Settled h) (names : Names) :
    Spec grants h.blocks (snapshot h.source names) fun done leaves => ∃ after, Ends grants h (.snapshot names) done leaves after := by
  cases bus : h.bus with
  | none =>
    have shut : ¬h.source.bus.isSome = true := by simp [Holding.source,bus]
    rw [snapshot,if_neg shut]
    exact .pure ⟨h,rfl,rfl,settled,fun _ => by simp [meant,Mpris.snapshot,Holding.value,bus]⟩
  | some b =>
    have pointed : h.source.bus = some b := bus
    have present : h.source.bus.isSome = true := by rw [pointed]; rfl
    have there : h.bus.isSome = true := by rw [bus]; rfl
    rw [snapshot,if_pos present,pointed]
    refine .touches (bus_split bus) (.step (zero_add _).symm (selectPlayer_spec names) fun selection leaves reached => ?_)
    obtain ⟨pick,message,found⟩ := reached
    obtain ⟨failed,selected,said⟩ := selection
    obtain rfl : selected = Pick.snapshot pick := found.selected
    obtain rfl : said = Slot.pointer message := found.said
    rw [found.leaves,add_assoc]
    cases failed with
    | some failed =>
      refine .step rfl (errorText_spec message failed) fun error leaves read => ?_
      obtain ⟨rfl,rfl⟩ := read
      refine frees rfl (releases pick rfl (.pure ⟨h,rfl,rfl,settled,fun plenty => ?_⟩))
      simp [meant,Mpris.snapshot,Holding.value,there,found.meant plenty]
    | none => exact frees rfl (showPlayer_spec settled there found.whole names found.meant)

-- A failure says what its error carries, or what strerror says.
theorem said_failure {reply : Reply} {error : Text} {result : Slot Cell} {call : Call}
    (outcome : Outcome grants (reply.answer.map fun _ => .message) error result) (plenty : Plenty grants) :
    (result.isSome = true → reply.said (.issued call) = none) ∧
      (result = none → reply.said (.issued call) = some ((Slot.value error).getD reply.error)) := by
  obtain ⟨answer,strerror⟩ := reply
  cases answer with
  | ok done =>
    have granted := (outcome.given _ rfl).2.granted plenty
    refine ⟨fun _ => rfl,fun missing => ?_⟩
    rw [missing] at granted
    cases granted
  | error message =>
    obtain ⟨rfl,-,carried⟩ := outcome.failed message rfl
    refine ⟨fun there => (by cases there),fun _ => ?_⟩
    rw [carried plenty]
    rfl

theorem issue_spec (settled : Settled h) {b : Nat} (bus : h.bus = some b) {name : Bytes} {method : Bytes} (reply : Reply)
    (named : h.name.isSome = true)
    (issues : Mpris.dispatch h.value name = .issued ⟨Text.content h.name,method⟩) :
    Spec grants h.blocks (issue h.source method reply) fun done leaves =>
      ∃ after, Ends grants h (.dispatch name reply) done leaves after := by
  have pointed : h.source.bus = some b := bus
  rw [issue,pointed]
  refine .touches (bus_split bus) (.step (add_comm _ _) (string_spec named) fun destination leaves read => ?_)
  obtain ⟨rfl,rfl⟩ := read
  rw [add_comm]
  refine .step (zero_add _).symm (call_spec _) fun called leaves reached => ?_
  obtain ⟨error,result,rfl,rfl,outcome⟩ := reached
  have part : Text.blocks error + result.blocks + h.blocks = result.blocks + (Text.blocks error + h.blocks) := by
    abel
  refine .step part (free_spec result) fun _ leaves freed => ?_
  rw [freed,zero_add]
  cases result with
  | some block =>
    refine frees rfl (.pure ⟨h,rfl,rfl,settled,fun plenty => ?_⟩)
    rw [meant,issues,(said_failure outcome plenty).1 rfl]
  | none =>
    refine .step rfl (errorText_spec error reply.error) fun text leaves read => ?_
    obtain ⟨rfl,rfl⟩ := read
    refine frees rfl (.pure ⟨h,rfl,rfl,settled,fun plenty => ?_⟩)
    rw [meant,issues,(said_failure outcome plenty).2 rfl]

theorem dispatch_spec (settled : Settled h) (name : Bytes) (reply : Reply) :
    Spec grants h.blocks (dispatch h.source name reply) fun done leaves =>
      ∃ after, Ends grants h (.dispatch name reply) done leaves after := by
  cases known : actionOf name with
  | none =>
    simp only [dispatch,known]
    exact .pure ⟨h,rfl,rfl,settled,fun _ => by simp [meant,Mpris.dispatch,known,Reply.said]⟩
  | some action =>
    simp only [dispatch,known]
    cases named : h.name with
    | none =>
      have absent : h.source.selectedName.isNone = true := by simp [Holding.source,named,Slot.pointer]
      rw [if_pos absent]
      exact .pure ⟨h,rfl,rfl,settled,fun _ => by simp [meant,Mpris.dispatch,known,Holding.value,named,Slot.value,Reply.said]⟩
    | some block =>
      have present : ¬h.source.selectedName.isNone = true := by simp [Holding.source,named,Slot.pointer]
      rw [if_neg present]
      cases able : actionAvailable h.flags action with
      | false =>
        have refused : (!actionAvailable h.source.flags action) = true := by simp [Holding.source,able]
        rw [if_pos refused]
        refine .pure ⟨h,rfl,rfl,settled,fun _ => ?_⟩
        simp [meant,Mpris.dispatch,known,Holding.value,named,Slot.value,able,Reply.said]
      | true =>
        have allowed : ¬(!actionAvailable h.source.flags action) = true := by simp [Holding.source,able]
        rw [if_neg allowed]
        rcases settled with rfl | ⟨connected,slots⟩
        · cases named
        · obtain ⟨b,bus⟩ := Option.isSome_iff_exists.mp connected
          refine issue_spec (.inr ⟨connected,slots⟩) bus reply (by rw [named]; rfl) ?_
          simp [Mpris.dispatch,known,Holding.value,named,Slot.value,able,Text.content]

theorem processBus_spec {source : Source} {b : Nat} (bus : source.bus = some b) (failure : Option Bytes) :
    Spec grants {(b,.bus)} (processBus source failure) fun pointer leaves => ∃ t : Text, pointer = Slot.pointer t ∧
      leaves = {(b,.bus)} + Text.blocks t ∧ (failure = none → t = none) ∧ (Plenty grants → Slot.value t = failure) := by
  have own : ({(b,.bus)} : Multiset (Nat × Cell)) = {(b,.bus)} + 0 := (add_zero _).symm
  cases failure with
  | none =>
    rw [processBus,bus]
    exact .touches own (.pure ⟨none,rfl,own,fun _ => rfl,fun _ => rfl⟩)
  | some error =>
    rw [processBus,bus]
    refine .touches own (.ends (zero_add _).symm (strdup_spec error) fun pointer leaves copied => ?_)
    obtain ⟨t,rfl,rfl,answers⟩ := copied
    refine ⟨t,rfl,add_comm _ _,fun missing => (by cases missing),fun plenty => ?_⟩
    obtain ⟨block,rfl⟩ := Option.isSome_iff_exists.mp (answers.granted plenty)
    exact congrArg some (answers.value block rfl)

theorem bus_beside {b : Nat} (bus : h.bus = some b) (t : Text) :
    {(b,.bus)} + Text.blocks t + (Slot.blocks (resource .slot h.propertiesSlot) + Slot.blocks (resource .slot h.nameSlot) +
      Text.blocks h.name) = Text.blocks t + h.blocks := by
  rw [bus_split bus]
  abel

theorem waitSecond_spec {b : Nat} (bus : h.bus = some b) (second : Option Bytes) :
    Spec grants h.blocks (waitSecond h.source second) fun done leaves => done.source = h.source ∧ leaves = h.blocks ∧
      (Plenty grants → done.returned = .waited second) := by
  refine .step (bus_split bus) (processBus_spec bus second) fun pointer leaves reached => ?_
  obtain ⟨t,rfl,rfl,-,all⟩ := reached
  rw [bus_beside bus t]
  cases t with
  | none => exact .pure ⟨rfl,zero_add _,fun plenty => by rw [← all plenty]; rfl⟩
  | some block =>
    refine .step rfl (string_spec rfl) fun value leaves read => ?_
    obtain ⟨rfl,rfl⟩ := read
    exact frees rfl (.pure ⟨rfl,rfl,fun plenty => by rw [← all plenty]; rfl⟩)

theorem wait_spec (settled : Settled h) (waiting : Waiting) :
    Spec grants h.blocks (wait h.source waiting) fun done leaves => ∃ after, Ends grants h (.wait waiting) done leaves after := by
  obtain ⟨first,between,second⟩ := waiting
  cases bus : h.bus with
  | none =>
    have shut : ¬h.source.bus.isSome = true := by simp [Holding.source,bus]
    rw [wait,if_neg shut]
    exact .pure ⟨h,rfl,rfl,settled,fun _ => by simp [meant,Holding.value,bus]⟩
  | some b =>
    have present : h.source.bus.isSome = true := by simp [Holding.source,bus]
    have connected' : h.value.bus = true := by simp [Holding.value,bus]
    rw [wait,if_pos present]
    refine .step (bus_split bus) (processBus_spec bus first) fun pointer leaves reached => ?_
    obtain ⟨t,rfl,rfl,without,all⟩ := reached
    rw [bus_beside bus t]
    cases first with
    | some failure =>
      refine .step rfl (errorText_spec t _) fun error leaves read => ?_
      obtain ⟨rfl,rfl⟩ := read
      refine frees rfl (.pure ⟨h,rfl,rfl,settled,fun plenty => ?_⟩)
      simp [meant,connected',all plenty]
    | none =>
      obtain rfl := without rfl
      cases between with
      | some returned => exact .pure ⟨h,rfl,zero_add _,settled,fun _ => by simp [meant,connected']⟩
      | none =>
        rw [blocks_none,zero_add]
        refine (waitSecond_spec bus second).weaken fun done leaves reached => ?_
        obtain ⟨same,left,returned⟩ := reached
        refine ⟨h,same,left,settled,fun plenty => ?_⟩
        rw [returned plenty]
        simp [meant,connected']

theorem close_spec (h : Holding) :
    Spec grants h.blocks (closeSource h.source) fun done leaves => ∃ after, Ends grants h .close done leaves after := by
  refine (closeSource_spec h).weaken fun done leaves reached => ?_
  obtain ⟨rfl,rfl⟩ := reached
  exact ⟨.closed,rfl,rfl,.inl rfl,fun _ => rfl⟩

theorem run_spec (settled : Settled h) (event : Event) (fresh : ∀ answers, event = .open answers → h.bus = none) :
    Spec grants h.blocks (run h.source event) fun done leaves => ∃ after, Ends grants h event done leaves after := by
  cases event with
  | snapshot names => exact snapshot_spec settled names
  | dispatch name reply => exact dispatch_spec settled name reply
  | wait waiting => exact wait_spec settled waiting
  | close => exact close_spec h
  | «open» answers =>
    have without := fresh answers rfl
    rcases settled with rfl | ⟨connected,-⟩
    · exact lopen_spec .closed answers
    · rw [without] at connected
      cases connected

-- The methods over memory and over values, side by side.
abbrev Pair := Option Process × (Mpris.Source × List Returned)

def both (s : Pair) (event : Event) : Pair := (apply s.1 event,intended s.2 event)

def begin (grants : Nat → Bool) : Pair := (boot grants,Mpris.closed,[])

-- A process holds what its source points to and nothing else, and while there
-- is memory its source and all it has returned are those of the values.
structure Simulates (grants : Nat → Bool) (q : Process) (h : Holding) (value : Mpris.Source × List Returned) : Prop where
  source : q.source = h.source
  supply : q.memory.grants = grants
  memory : q.memory.Holds h.blocks
  settled : Settled h
  meant : Plenty grants → value = (h.value,q.log)

def Sound (grants : Nat → Bool) (s : Pair) : Prop := ∃ q h, s.1 = some q ∧ Simulates grants q h s.2

theorem both_sound (s : Pair) (event : Event) (sound : Sound grants s) (possible : Possible s.1 event) :
    Sound grants (both s event) := by
  obtain ⟨p,value⟩ := s
  obtain ⟨q,h,rfl,simulates⟩ := sound
  have fresh : ∀ answers, event = .open answers → h.bus = none := by
    rintro answers rfl
    have without := possible q rfl
    rwa [simulates.source] at without
  have held := simulates.memory
  rw [← add_zero h.blocks] at held
  obtain ⟨done,later,ran,kept,leaves,ends,left⟩ := run_spec simulates.settled event fresh q.memory 0 simulates.supply held
  obtain ⟨after,ends⟩ := ends
  rw [add_zero,ends.leaves] at left
  rw [← simulates.source] at ran
  refine ⟨⟨done.source,later,q.log ++ [done.returned]⟩,after,?_,ends.source,kept,left,ends.settled,fun plenty => ?_⟩
  · simp [both,apply,ran]
  · have same : value = (h.value,q.log) := simulates.meant plenty
    simp [both,intended,same,ends.meant plenty]

theorem begin_sound (grants : Nat → Bool) : Sound grants (begin grants) :=
  ⟨_,.closed,rfl,rfl,rfl,boot_holds grants,.inl rfl,fun _ => rfl⟩

-- Whichever requests for memory are refused and whatever the bus answers, no
-- method touches memory that is not there, and none leaves more behind than the
-- source points to. With memory the pointers are the values.
theorem mpris_run_refines (grants : Nat → Bool) (events : List Event)
    (possible : Runs.Each both (fun s event => Possible s.1 event) (begin grants) events) :
    Runs.Throughout both (Sound grants) (begin grants) events :=
  Runs.throughout_invariant both_sound (begin_sound grants) possible

def answering : Answers where
  status := .ok (text "Playing")
  identity := .error (some (text "no such property"))
  metadata := .ok [⟨text "xesam:title",.string (some (text "Song")),true,true⟩,
    ⟨text "xesam:artist",.strings true [text "A",text "B"] true,true,true⟩,⟨text "mpris:length",.other,true,true⟩]
  canControl := .ok true
  canGoNext := .ok true
  canGoPrevious := .error none
  canPause := .ok true
  canPlay := .ok false

def listening : List Event :=
  [.open ⟨true,true,true,true⟩,.snapshot (.names [(text "org.mpris.MediaPlayer2.spotify",answering)] none),
   .dispatch (text "next") ⟨.error none,text "Connection timed out"⟩,.wait ⟨none,none,some (text "Broken pipe")⟩,.close]

-- The second artist finds no memory; or there is plenty, and the table that
-- comes out of it is that of the values.
def scarce (n : Nat) : Bool := n != 10
def plentiful (_ : Nat) : Bool := true

def song : Media where
  available := true
  error := []
  album := []
  art := []
  artist := text "A, B"
  player := text "spotify"
  title := text "Song"
  status := text "playing"
  capabilities := ⟨true,true,false,true,false⟩

theorem listening_possible (grants : Nat → Bool) : Runs.Each both (fun s event => Possible s.1 event) (begin grants) listening := by
  refine ⟨?_,trivial,trivial,trivial,trivial,trivial⟩
  intro q mem
  cases mem
  rfl

theorem listening_refines :
    Runs.Throughout both (Sound scarce) (begin scarce) listening ∧
    Runs.Throughout both (Sound plentiful) (begin plentiful) listening ∧
    ∃ q, (Runs.final both (begin plentiful) listening).1 = some q ∧ q.log[1]? = some (.table song) := by
  have plenty := mpris_run_refines plentiful listening (listening_possible plentiful)
  obtain ⟨q,h,held,simulates⟩ := Runs.throughout_final plenty
  refine ⟨mpris_run_refines scarce listening (listening_possible scarce),plenty,q,held,?_⟩
  have meant : (Runs.final both (begin plentiful) listening).2.2 = q.log :=
    congrArg Prod.snd (simulates.meant fun _ => rfl)
  have table : (Runs.final both (begin plentiful) listening).2.2[1]? = some (.table song) := by decide +kernel
  rw [← meant]
  exact table

end Hypringo.MprisHeap

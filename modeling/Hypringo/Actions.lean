import Hypringo.Configuration
import Hypringo.Lua.Numeral

namespace Hypringo.Actions
open Hypringo.Lua Pattern Numeral

def mediaActions : List Bytes :=
  [text "next",text "pause",text "play",text "play-pause",text "previous"]

def integerPattern : Anchored := ⟨literal [],[.optional (byte minus),.plus digit],[],true⟩

def parseInteger : Value → Option Int64
  | .string s => match integerPattern.matches s with
    | none => none
    | some _ => match tonumber s with
      | some (.integer i) => some i
      | _ => none
  | _ => none

inductive Domain where
  | workspace
  | media
  | audio
  | brightness
  deriving DecidableEq, Repr

def Domain.name : Domain → Bytes
  | .workspace => text "workspace"
  | .media => text "media"
  | .audio => text "audio"
  | .brightness => text "brightness"

structure Action where
  domain : Domain
  name : Bytes
  value : Value
  deriving DecidableEq, Repr

def workspaceLead : Bytes := text "dispatch workspace switch "
def mediaLead : Bytes := text "dispatch media "
def volumeLead : Bytes := text "dispatch audio set-volume "
def muteLead : Bytes := text "dispatch audio set-mute "
def brightnessLead : Bytes := text "dispatch brightness set "

def workspacePattern : Anchored := ⟨literal workspaceLead,[.optional (byte minus),.plus digit],[],true⟩
def mediaPattern : Anchored := ⟨literal mediaLead,[.plus (either letter (byte minus))],[],true⟩
def volumePattern : Anchored := ⟨literal volumeLead,[.plus digit],[],true⟩
def mutePattern : Anchored := ⟨literal muteLead,[.plus letter],[],true⟩
def brightnessPattern : Anchored := ⟨literal brightnessLead,[.plus digit],[],true⟩

-- assert(value): the outer error of this development is a raised Lua error,
-- the inner one the `nil, message` a function returns.
def assertInteger : Option Int64 → Except Bytes Int64
  | some i => .ok i
  | none => .error (text "assertion failed!")

def unsupported : Except Bytes Action := .error (text "unsupported dispatch action")

-- Volume and brightness: a percentage outside 0..100 falls through to the
-- checks that follow, an integer that does not fit raises.
def percentage (pattern : Anchored) (domain : Domain) (name : Bytes) (s : Bytes)
    (next : Except Bytes (Except Bytes Action)) : Except Bytes (Except Bytes Action) :=
  match pattern.matches s with
  | none => next
  | some digits => do
    let value ← assertInteger (parseInteger (.string digits))
    if 0 ≤ value.toInt ∧ value.toInt ≤ 100 then return .ok ⟨domain,name,.integer value⟩
    else next

def parseMute (s : Bytes) (next : Except Bytes (Except Bytes Action)) : Except Bytes (Except Bytes Action) :=
  match mutePattern.matches s with
  | some muted =>
    if muted = text "true" ∨ muted = text "false" then
      return .ok ⟨.audio,text "set-mute",.boolean (decide (muted = text "true"))⟩
    else next
  | none => next

def parseToggle (s : Bytes) (next : Except Bytes (Except Bytes Action)) : Except Bytes (Except Bytes Action) :=
  if s = text "dispatch audio toggle-mute" then return .ok ⟨.audio,text "toggle-mute",.nil⟩
  else next

def parseMedia (s : Bytes) (next : Except Bytes (Except Bytes Action)) : Except Bytes (Except Bytes Action) :=
  match mediaPattern.matches s with
  | some media => if mediaActions.contains media then return .ok ⟨.media,media,.nil⟩ else next
  | none => next

def parse : Value → Except Bytes (Except Bytes Action)
  | .string s => match workspacePattern.matches s with
    | some workspace => do
      let value ← assertInteger (parseInteger (.string workspace))
      return .ok ⟨.workspace,text "switch",.integer value⟩
    | none =>
      parseMedia s <|
      percentage volumePattern .audio (text "set-volume") s <|
      parseMute s <|
      parseToggle s <|
      percentage brightnessPattern .brightness (text "set-brightness") s (return unsupported)
  | _ => return .error (text "dispatch command must be a string")

inductive Service where
  | hyprland
  | mpris
  | audio
  | system
  deriving DecidableEq, Repr

inductive Effect where
  | call (service : Service) (name : Bytes) (value : Value)
  | reload
  | log (parts : List Bytes)
  deriving DecidableEq, Repr

-- What pcall(ltask.call, ...) gives back: an error of the call itself, or the
-- callee's result with its optional message.
inductive Reply where
  | raised (error : Bytes)
  | returned (result : Bool) (message : Option Bytes)
  deriving DecidableEq, Repr

def Reply.logged (reply : Reply) (subject : Bytes) : List Effect :=
  match reply with
  | .raised error => [.log [subject,error]]
  | .returned true _ => []
  | .returned false message => [.log [subject,message.getD (text "unknown error")]]

def callService (service : Service) (action : Action) (reply : Reply) : List Effect :=
  .call service action.name action.value ::
    reply.logged (text "dispatch " ++ action.domain.name ++ text "." ++ action.name ++ text " failed")

def dispatch (config : Configuration.Config) (reply : Reply) (command : Bytes) : Except Bytes (List Effect) :=
  if command = text "reload" then
    return .reload :: reply.logged (text "configuration reload failed")
  else do
    match ← parse (.string command) with
    | .error message => return [.log [text "rejected invalid dispatch command",message]]
    | .ok action => match action.domain with
      | .workspace =>
        if !config.sources.hyprland.enabled then
          return [.log [text "workspace dispatch requires the Hyprland source"]]
        else return callService .hyprland action reply
      | .media =>
        if !config.sources.mpris.enabled then
          return [.log [text "media dispatch requires the MPRIS source"]]
        else return callService .mpris action reply
      | .audio =>
        if !config.sources.audio.enabled then
          return [.log [text "audio dispatch requires the audio source"]]
        else return callService .audio action reply
      | .brightness =>
        if !config.sources.system.enabled then
          return [.log [text "brightness dispatch requires the system source"]]
        else return callService .system action reply

-- ltask.fork runs the loop in a coroutine of its own without pcall: an error
-- that leaves dispatch ends the coroutine, and nothing after it is popped.
structure Served where
  effects : List (List Effect)
  ended : Option Bytes
  deriving DecidableEq, Repr

def popLoop (config : Configuration.Config) : List (Bytes × Reply) → Served
  | [] => ⟨[],none⟩
  | (command,reply) :: rest => match dispatch config reply command with
    | .error error => ⟨[],some error⟩
    | .ok effects =>
      let later := popLoop config rest
      ⟨effects :: later.effects,later.ended⟩

-- What can reach the queue: a line the control server accepts as reload or as
-- a dispatch request.
def Queueable (command : Bytes) : Prop :=
  0 ∉ command ∧ 10 ∉ command ∧ command.length ≤ 126 ∧
    (command = text "reload" ∨ text "dispatch " <+: command)

-- The claim on one queue: every command parses or is refused, the loop handles
-- each with its own effects, and it is alive at the end.
def Survives (config : Configuration.Config) (queue : List (Bytes × Reply)) : Prop :=
  (∀ item ∈ queue, ∃ outcome, parse (.string item.1) = .ok outcome) ∧
  ∃ effects, queue.map (fun item => dispatch config item.2 item.1) = effects.map .ok ∧
    popLoop config queue = ⟨effects,none⟩

-- Read off the text of the command alone: an integer that one of the three
-- integer requests carries lies in the signed 64-bit range.
def Fits (lead command : Bytes) : Prop :=
  ∀ digits, command = lead ++ digits → plusText digit digits = true → Integral (decimal digits)

def Representable (command : Bytes) : Prop :=
  (∀ digits, command = workspaceLead ++ digits → signedText minus digit digits = true →
    Integral (signedValue digits)) ∧
  Fits volumeLead command ∧ Fits brightnessLead command

theorem parseInteger_exact {digits : Bytes} (ok : signedText minus digit digits = true) :
    parseInteger (.string digits) =
      if Integral (signedValue digits) then some (Int64.ofInt (signedValue digits)) else none := by
  have matched : integerPattern.matches digits = some digits :=
    (signed_matches_iff digit_minus).mpr ⟨rfl,ok⟩
  simp only [parseInteger,matched,tonumber_exact ok]
  by_cases inside : Integral (signedValue digits) <;> simp [inside]

def Returns (result : Except Bytes α) : Prop := ∃ value, result = .ok value

theorem assert_bind_returns {digits : Bytes} (ok : signedText minus digit digits = true)
    {next : Int64 → Except Bytes α} (continues : ∀ value, Returns (next value)) :
    Returns (assertInteger (parseInteger (.string digits)) >>= next) ↔ Integral (signedValue digits) := by
  rw [parseInteger_exact ok]
  by_cases inside : Integral (signedValue digits)
  · simpa [inside,assertInteger,bind,Except.bind] using continues _
  · simp [inside,assertInteger,bind,Except.bind,Returns]

-- The requests are told apart by their first words, so at most one of them
-- constrains a given command.
theorem leads_apart {lead other rest tail : Bytes} (n : Nat) (inLead : n ≤ lead.length)
    (inOther : n ≤ other.length) (differ : lead.take n ≠ other.take n) : other ++ rest ≠ lead ++ tail := by
  intro equal
  have taken := congrArg (List.take n) equal
  rw [List.take_append_of_le_length inLead,List.take_append_of_le_length inOther] at taken
  exact differ taken.symm

theorem fits_of_other {lead other rest : Bytes} (n : Nat) (inLead : n ≤ lead.length)
    (inOther : n ≤ other.length) (differ : lead.take n ≠ other.take n) : Fits lead (other ++ rest) :=
  fun _ equal => absurd equal (leads_apart n inLead inOther differ)

theorem percentage_returns {lead : Bytes} {domain : Domain} {name s : Bytes}
    {next : Except Bytes (Except Bytes Action)}
    (continues : ∀ digits, s = lead ++ digits → Returns next) :
    Returns (percentage ⟨literal lead,[.plus digit],[],true⟩ domain name s next) ↔
      Fits lead s ∧ ((∃ digits, s = lead ++ digits ∧ plusText digit digits = true) ∨ Returns next) := by
  unfold percentage
  cases found : (Anchored.mk (literal lead) [.plus digit] [] true).matches s with
  | none =>
    have unmatched : ∀ digits, s = lead ++ digits → ¬ plusText digit digits = true := by
      intro digits equal ok
      rw [plus_matches_iff.mpr ⟨equal,ok⟩] at found
      cases found
    constructor
    · exact fun returned => ⟨fun digits equal ok => absurd ok (unmatched digits equal),.inr returned⟩
    · rintro ⟨_,⟨digits,equal,ok⟩ | returned⟩
      · exact absurd ok (unmatched digits equal)
      · exact returned
  | some digits =>
    obtain ⟨equal,ok⟩ := plus_matches_iff.mp found
    obtain ⟨signed,value⟩ := plus_signed ok
    have after : ∀ value : Int64, Returns (if 0 ≤ value.toInt ∧ value.toInt ≤ 100 then
        (return .ok ⟨domain,name,.integer value⟩ : Except Bytes (Except Bytes Action)) else next) := by
      intro n
      split
      · exact ⟨_,rfl⟩
      · exact continues digits equal
    have asserted := assert_bind_returns signed after
    rw [value] at asserted
    refine asserted.trans ⟨fun inside => ⟨?_,.inl ⟨digits,equal,ok⟩⟩,fun fits => fits.1 digits equal ok⟩
    intro others same _
    rwa [List.append_cancel_left (same.symm.trans equal)]

theorem parseToggle_returns {s : Bytes} {next : Except Bytes (Except Bytes Action)} :
    Returns (parseToggle s next) ↔ s = text "dispatch audio toggle-mute" ∨ Returns next := by
  unfold parseToggle
  by_cases equal : s = text "dispatch audio toggle-mute"
  · simpa [equal] using ⟨_,rfl⟩
  · simp [equal]

theorem parseMute_returns {s : Bytes} {next : Except Bytes (Except Bytes Action)}
    (continues : ∀ rest, s = muteLead ++ rest → Returns next) :
    Returns (parseMute s next) ↔ Returns next := by
  unfold parseMute
  cases found : mutePattern.matches s with
  | none => exact Iff.rfl
  | some muted =>
    have returns := continues muted (plus_matches_iff.mp found).1
    dsimp only
    split
    · exact ⟨fun _ => returns,fun _ => ⟨_,rfl⟩⟩
    · exact Iff.rfl

theorem parseMedia_returns {s : Bytes} {next : Except Bytes (Except Bytes Action)}
    (continues : ∀ rest, s = mediaLead ++ rest → Returns next) :
    Returns (parseMedia s next) ↔ Returns next := by
  unfold parseMedia
  cases found : mediaPattern.matches s with
  | none => exact Iff.rfl
  | some media =>
    have returns := continues media (plus_matches_iff.mp found).1
    dsimp only
    split
    · exact ⟨fun _ => returns,fun _ => ⟨_,rfl⟩⟩
    · exact Iff.rfl

-- From the last check to the first: each earlier request, when it matches,
-- excludes the later ones, so the conditions simply add up.
theorem parse_tail_returns (s : Bytes) :
    Returns (parseMedia s <| percentage volumePattern .audio (text "set-volume") s <| parseMute s <|
      parseToggle s <| percentage brightnessPattern .brightness (text "set-brightness") s (return unsupported)) ↔
      Fits volumeLead s ∧ Fits brightnessLead s := by
  have refused : Returns (return unsupported : Except Bytes (Except Bytes Action)) := ⟨_,rfl⟩
  have brightness : Returns (percentage brightnessPattern .brightness (text "set-brightness") s
      (return unsupported)) ↔ Fits brightnessLead s :=
    (percentage_returns fun _ _ => refused).trans ⟨And.left,fun fits => ⟨fits,.inr refused⟩⟩
  have toggle : Returns (parseToggle s (percentage brightnessPattern .brightness (text "set-brightness") s
      (return unsupported))) ↔ Fits brightnessLead s := by
    rw [parseToggle_returns,brightness]
    refine ⟨?_,.inr⟩
    rintro (rfl | fits)
    · rw [← List.append_nil (text "dispatch audio toggle-mute")]
      exact fits_of_other 10 (by decide) (by decide) (by decide)
    · exact fits
  have mute : Returns (parseMute s (parseToggle s (percentage brightnessPattern .brightness
      (text "set-brightness") s (return unsupported)))) ↔ Fits brightnessLead s := by
    refine (parseMute_returns ?_).trans toggle
    rintro rest rfl
    exact toggle.mpr (fits_of_other 10 (by decide) (by decide) (by decide))
  have volume : Returns (percentage volumePattern .audio (text "set-volume") s (parseMute s (parseToggle s
      (percentage brightnessPattern .brightness (text "set-brightness") s (return unsupported))))) ↔
      Fits volumeLead s ∧ Fits brightnessLead s := by
    refine (percentage_returns ?_).trans ⟨?_,fun fits => ⟨fits.1,.inr (mute.mpr fits.2)⟩⟩
    · rintro rest rfl
      exact mute.mpr (fits_of_other 10 (by decide) (by decide) (by decide))
    · rintro ⟨fits,⟨rest,rfl,_⟩ | returned⟩
      · exact ⟨fits,fits_of_other 10 (by decide) (by decide) (by decide)⟩
      · exact ⟨fits,mute.mp returned⟩
  refine (parseMedia_returns ?_).trans volume
  rintro rest rfl
  exact volume.mpr ⟨fits_of_other 10 (by decide) (by decide) (by decide),
    fits_of_other 10 (by decide) (by decide) (by decide)⟩

theorem parse_returns_iff (command : Bytes) :
    Returns (parse (.string command)) ↔ Representable command := by
  cases found : workspacePattern.matches command with
  | some digits =>
    have shape : parse (.string command) = assertInteger (parseInteger (.string digits)) >>=
        fun value => return .ok ⟨.workspace,text "switch",.integer value⟩ := by
      simp only [parse,found]
    obtain ⟨equal,ok⟩ := (signed_matches_iff digit_minus).mp found
    have after : ∀ value : Int64, Returns (return .ok ⟨.workspace,text "switch",.integer value⟩ :
        Except Bytes (Except Bytes Action)) := fun value => ⟨_,rfl⟩
    rw [shape,assert_bind_returns ok after]
    refine ⟨fun inside => ⟨?_,?_,?_⟩,fun fits => fits.1 digits equal ok⟩
    · intro others same _
      rwa [List.append_cancel_left (same.symm.trans equal)]
    · rw [equal]; exact fits_of_other 10 (by decide) (by decide) (by decide)
    · rw [equal]; exact fits_of_other 10 (by decide) (by decide) (by decide)
  | none =>
    have shape : parse (.string command) = (parseMedia command <|
        percentage volumePattern .audio (text "set-volume") command <| parseMute command <| parseToggle command <|
        percentage brightnessPattern .brightness (text "set-brightness") command (return unsupported)) := by
      simp only [parse,found]
    rw [shape,parse_tail_returns]
    refine ⟨fun fits => ⟨?_,fits⟩,And.right⟩
    intro digits equal ok
    have matched : workspacePattern.matches command = some digits :=
      (signed_matches_iff digit_minus).mpr ⟨equal,ok⟩
    rw [found] at matched
    cases matched

-- Everything dispatch does after parsing is total: the calls stand under pcall.
theorem dispatch_returns_iff (config : Configuration.Config) (reply : Reply) (command : Bytes) :
    Returns (dispatch config reply command) ↔ command = text "reload" ∨ Returns (parse (.string command)) := by
  unfold dispatch
  by_cases reload : command = text "reload"
  · simpa [reload] using ⟨_,rfl⟩
  · simp only [reload,if_false,false_or]
    cases parsed : parse (.string command) with
    | error e => simp [Returns,bind,Except.bind]
    | ok outcome =>
      refine iff_of_true ?_ ⟨outcome,rfl⟩
      cases outcome with
      | error message => exact ⟨_,rfl⟩
      | ok action =>
        simp only [bind,Except.bind]
        split <;> split <;> exact ⟨_,rfl⟩

theorem reload_representable : Representable (text "reload") := by
  refine ⟨?_,?_,?_⟩ <;> intro digits equal <;>
    exact absurd (congrArg (List.take 1) equal) (by simp [workspaceLead,volumeLead,brightnessLead,text])

theorem dispatch_representable (config : Configuration.Config) (reply : Reply) (command : Bytes) :
    Returns (dispatch config reply command) ↔ Representable command := by
  rw [dispatch_returns_iff,parse_returns_iff]
  refine ⟨?_,.inr⟩
  rintro (rfl | ok)
  · exact reload_representable
  · exact ok

theorem popLoop_alive (config : Configuration.Config) (queue : List (Bytes × Reply)) :
    (∃ effects, queue.map (fun item => dispatch config item.2 item.1) = effects.map .ok ∧
      popLoop config queue = ⟨effects,none⟩) ↔ ∀ item ∈ queue, Returns (dispatch config item.2 item.1) := by
  induction queue with
  | nil => simp [popLoop]
  | cons item rest ih =>
    obtain ⟨command,reply⟩ := item
    cases result : dispatch config reply command with
    | error e => simp [popLoop,result,Returns]
    | ok effects =>
      simp only [List.mem_cons,forall_eq_or_imp,result]
      rw [← ih]
      constructor
      · rintro ⟨all,mapped,ran⟩
        cases all with
        | nil => simp at mapped
        | cons head tail =>
          simp only [List.map_cons,List.cons.injEq] at mapped
          simp only [popLoop,result,Served.mk.injEq,List.cons.injEq] at ran
          exact ⟨⟨_,rfl⟩,tail,mapped.2,by rw [← ran.1.2,← ran.2]⟩
      · rintro ⟨_,tail,mapped,ran⟩
        exact ⟨effects :: tail,by simp [result,mapped],by simp [popLoop,result,ran]⟩

theorem survives_iff_representable (config : Configuration.Config) (queue : List (Bytes × Reply)) :
    Survives config queue ↔ ∀ item ∈ queue, Representable item.1 := by
  unfold Survives
  rw [popLoop_alive]
  constructor
  · intro ok item member
    exact (parse_returns_iff item.1).mp (ok.1 item member)
  · intro ok
    exact ⟨fun item member => (parse_returns_iff item.1).mpr (ok item member),
      fun item member => (dispatch_representable config item.2 item.1).mpr (ok item member)⟩

-- One past the largest integer, then a reload that is never popped.
def overflowQueue : List (Bytes × Reply) :=
  [(text "dispatch workspace switch 9223372036854775808",.returned true none),
   (text "reload",.returned true none)]

theorem overflow_ends_loop :
    (∀ item ∈ overflowQueue, Queueable item.1) ∧
    popLoop Configuration.allSources overflowQueue = ⟨[],some (text "assertion failed!")⟩ ∧
    ¬ Survives Configuration.allSources overflowQueue := by
  have ended : popLoop Configuration.allSources overflowQueue = ⟨[],some (text "assertion failed!")⟩ := by decide
  refine ⟨?_,ended,?_⟩
  · unfold Queueable; decide
  · rintro ⟨_,effects,_,alive⟩
    rw [ended] at alive
    cases alive

end Hypringo.Actions

import Hypringo.Actions

namespace Hypringo.Dispatch
open Hypringo.Lua Pattern Numeral Actions

-- The whole language of dispatch commands, and what each one denotes.
inductive Denotes : Bytes → Action → Prop
  | workspace (number : Bytes) (shape : signedText minus digit number = true) (range : Integral (signedValue number)) :
      Denotes (workspaceLead ++ number) ⟨.workspace,text "switch",.integer (Int64.ofInt (signedValue number))⟩
  | media (name : Bytes) (known : name ∈ mediaActions) : Denotes (mediaLead ++ name) ⟨.media,name,.nil⟩
  | volume (number : Bytes) (shape : plusText digit number = true) (range : decimal number ≤ 100) :
      Denotes (volumeLead ++ number) ⟨.audio,text "set-volume",.integer (Int64.ofInt (decimal number))⟩
  | mute (muted : Bool) :
      Denotes (muteLead ++ if muted then text "true" else text "false") ⟨.audio,text "set-mute",.boolean muted⟩
  | toggle : Denotes (text "dispatch audio toggle-mute") ⟨.audio,text "toggle-mute",.nil⟩
  | brightness (number : Bytes) (shape : plusText digit number = true) (range : decimal number ≤ 100) :
      Denotes (brightnessLead ++ number)
        ⟨.brightness,text "set-brightness",.integer (Int64.ofInt (decimal number))⟩

section Stages
variable {s : Bytes} {action : Action} {next : Except Bytes (Except Bytes Action)}

theorem small_integral {n : Nat} (small : n ≤ 100) : Integral n ∧ (Int64.ofInt n).toInt = n := by
  have range : Integral n := ⟨by omega,by omega⟩
  exact ⟨range,Int64.toInt_ofInt_of_le range.1 range.2⟩

theorem asserted_integer {number : Bytes} (shape : signedText minus digit number = true) :
    assertInteger (parseInteger (.string number)) =
      if Integral (signedValue number) then .ok (Int64.ofInt (signedValue number))
      else .error (text "assertion failed!") := by
  rw [parseInteger_exact shape]
  by_cases inside : Integral (signedValue number) <;> simp [inside,assertInteger]

-- Each check of the parser: what it yields when its own request is there, that
-- it passes on when the first words are another request's, and that an action
-- it returns is its own or comes from the checks that follow.
theorem parseMedia_own {name : Bytes} (known : name ∈ mediaActions) :
    parseMedia (mediaLead ++ name) next = .ok (.ok ⟨.media,name,.nil⟩) := by
  have shape : plusText (either letter (byte minus)) name = true := by
    simp only [mediaActions,List.mem_cons,List.not_mem_nil,or_false] at known
    rcases known with rfl | rfl | rfl | rfl | rfl <;> decide
  have found : mediaPattern.matches (mediaLead ++ name) = some name := plus_matches_iff.mpr ⟨rfl,shape⟩
  have contained : mediaActions.contains name = true := by simpa using known
  simp only [parseMedia,found,contained,if_true]
  rfl

theorem parseMedia_skip (other : ∀ rest, s ≠ mediaLead ++ rest) : parseMedia s next = next := by
  unfold parseMedia
  split
  · rename_i found
    exact absurd (plus_matches_iff.mp found).1 (other _)
  · rfl

theorem parseMedia_inversion (parsed : parseMedia s next = .ok (.ok action)) :
    Denotes s action ∨ next = .ok (.ok action) := by
  unfold parseMedia at parsed
  split at parsed
  · rename_i name found
    split at parsed
    · rename_i known
      cases parsed
      rw [(plus_matches_iff.mp found).1]
      exact .inl (.media name (by simpa using known))
    · exact .inr parsed
  · exact .inr parsed

theorem percentage_own {lead number : Bytes} {domain : Domain} {name : Bytes}
    (shape : plusText digit number = true) (range : decimal number ≤ 100) :
    percentage ⟨literal lead,[.plus digit],[],true⟩ domain name (lead ++ number) next =
      .ok (.ok ⟨domain,name,.integer (Int64.ofInt (decimal number))⟩) := by
  have found : (Anchored.mk (literal lead) [.plus digit] [] true).matches (lead ++ number) = some number :=
    plus_matches_iff.mpr ⟨rfl,shape⟩
  obtain ⟨signed,value⟩ := plus_signed shape
  obtain ⟨inside,exact'⟩ := small_integral range
  have asserted : assertInteger (parseInteger (.string number)) = .ok (Int64.ofInt (decimal number)) := by
    rw [asserted_integer signed,value,if_pos inside]
  have within : 0 ≤ (Int64.ofInt (decimal number)).toInt ∧ (Int64.ofInt (decimal number)).toInt ≤ 100 := by
    rw [exact']
    omega
  simp only [percentage,found,asserted,bind,Except.bind,within,and_self,if_true]
  rfl

theorem percentage_skip {lead : Bytes} {domain : Domain} {name : Bytes} (other : ∀ rest, s ≠ lead ++ rest) :
    percentage ⟨literal lead,[.plus digit],[],true⟩ domain name s next = next := by
  unfold percentage
  split
  · rfl
  · rename_i found
    exact absurd (plus_matches_iff.mp found).1 (other _)

theorem percentage_inversion {lead : Bytes} {domain : Domain} {name : Bytes}
    (parsed : percentage ⟨literal lead,[.plus digit],[],true⟩ domain name s next = .ok (.ok action)) :
    (∃ number, s = lead ++ number ∧ plusText digit number = true ∧ decimal number ≤ 100 ∧
      action = ⟨domain,name,.integer (Int64.ofInt (decimal number))⟩) ∨ next = .ok (.ok action) := by
  unfold percentage at parsed
  split at parsed
  · exact .inr parsed
  · rename_i number found
    obtain ⟨equal,shape⟩ := plus_matches_iff.mp found
    obtain ⟨signed,value⟩ := plus_signed shape
    rw [asserted_integer signed,value] at parsed
    by_cases inside : Integral (decimal number)
    · rw [if_pos inside] at parsed
      have value : (Int64.ofInt (decimal number)).toInt = decimal number :=
          Int64.toInt_ofInt_of_le inside.1 inside.2
      by_cases range : 0 ≤ (Int64.ofInt (decimal number)).toInt ∧ (Int64.ofInt (decimal number)).toInt ≤ 100
      · have small : decimal number ≤ 100 := by
          have upper := range.2
          rw [value] at upper
          exact_mod_cast upper
        simp only [bind,Except.bind,if_pos range] at parsed
        injection parsed with parsed
        injection parsed with parsed
        exact .inl ⟨number,equal,shape,small,parsed.symm⟩
      · simp only [bind,Except.bind,if_neg range] at parsed
        exact .inr parsed
    · rw [if_neg inside] at parsed
      cases parsed

theorem parseMute_own (muted : Bool) :
    parseMute (muteLead ++ if muted then text "true" else text "false") next =
      .ok (.ok ⟨.audio,text "set-mute",.boolean muted⟩) := by
  have found : ∀ word, plusText letter word = true → mutePattern.matches (muteLead ++ word) = some word :=
    fun word shape => plus_matches_iff.mpr ⟨rfl,shape⟩
  cases muted with
  | true =>
    simp only [if_true,parseMute,found (text "true") (by decide)]
    rfl
  | false =>
    simp only [Bool.false_eq_true,if_false,parseMute,found (text "false") (by decide)]
    rfl

theorem parseMute_skip (other : ∀ rest, s ≠ muteLead ++ rest) : parseMute s next = next := by
  unfold parseMute
  split
  · rename_i found
    exact absurd (plus_matches_iff.mp found).1 (other _)
  · rfl

theorem parseMute_inversion (parsed : parseMute s next = .ok (.ok action)) :
    Denotes s action ∨ next = .ok (.ok action) := by
  unfold parseMute at parsed
  split at parsed
  · rename_i word found
    rw [(plus_matches_iff.mp found).1]
    split at parsed
    · rename_i known
      cases parsed
      rcases known with rfl | rfl
      · exact .inl (.mute true)
      · exact .inl (.mute false)
    · exact .inr parsed
  · exact .inr parsed

theorem parseToggle_skip (other : s ≠ text "dispatch audio toggle-mute") : parseToggle s next = next := by
  unfold parseToggle
  exact if_neg other

theorem parseToggle_inversion (parsed : parseToggle s next = .ok (.ok action)) :
    Denotes s action ∨ next = .ok (.ok action) := by
  unfold parseToggle at parsed
  split at parsed
  · rename_i equal
    cases parsed
    rw [equal]
    exact .inl .toggle
  · exact .inr parsed

theorem parse_skip (other : ∀ rest, s ≠ workspaceLead ++ rest) :
    parse (.string s) = (parseMedia s <| percentage volumePattern .audio (text "set-volume") s <| parseMute s <|
      parseToggle s <| percentage brightnessPattern .brightness (text "set-brightness") s (return unsupported)) := by
  simp only [parse]
  split
  · rename_i found
    exact absurd ((signed_matches_iff digit_minus).mp found).1 (other _)
  · rfl

end Stages

theorem parse_denoted {command : Bytes} {action : Action} (denoted : Denotes command action) :
    parse (.string command) = .ok (.ok action) := by
  cases denoted with
  | workspace number shape range =>
    have found : workspacePattern.matches (workspaceLead ++ number) = some number :=
      (signed_matches_iff digit_minus).mpr ⟨rfl,shape⟩
    have asserted : assertInteger (parseInteger (.string number)) = .ok (Int64.ofInt (signedValue number)) := by
      rw [asserted_integer shape,if_pos range]
    simp only [parse,found,asserted,bind,Except.bind]
    rfl
  | media name known =>
    rw [parse_skip fun _ => leads_apart 10 (by decide) (by decide) (by decide)]
    exact parseMedia_own known
  | volume number shape range =>
    rw [parse_skip fun _ => leads_apart 10 (by decide) (by decide) (by decide),
      parseMedia_skip fun _ => leads_apart 10 (by decide) (by decide) (by decide)]
    exact percentage_own shape range
  | mute muted =>
    rw [parse_skip fun _ => leads_apart 10 (by decide) (by decide) (by decide),
      parseMedia_skip fun _ => leads_apart 10 (by decide) (by decide) (by decide),
      volumePattern,percentage_skip fun _ => leads_apart 20 (by decide) (by decide) (by decide)]
    exact parseMute_own muted
  | toggle => decide
  | brightness number shape range =>
    have toggled : brightnessLead ++ number ≠ text "dispatch audio toggle-mute" ++ [] :=
      leads_apart 10 (by decide) (by decide) (by decide)
    rw [List.append_nil] at toggled
    rw [parse_skip fun _ => leads_apart 10 (by decide) (by decide) (by decide),
      parseMedia_skip fun _ => leads_apart 10 (by decide) (by decide) (by decide),
      volumePattern,percentage_skip fun _ => leads_apart 10 (by decide) (by decide) (by decide),
      parseMute_skip fun _ => leads_apart 10 (by decide) (by decide) (by decide),parseToggle_skip toggled]
    exact percentage_own shape range

theorem denoted_of_parse {command : Bytes} {action : Action} (parsed : parse (.string command) = .ok (.ok action)) :
    Denotes command action := by
  cases found : workspacePattern.matches command with
  | some number =>
    obtain ⟨equal,shape⟩ := (signed_matches_iff digit_minus).mp found
    simp only [parse,found,asserted_integer shape] at parsed
    by_cases inside : Integral (signedValue number)
    · simp only [if_pos inside,bind,Except.bind] at parsed
      injection parsed with parsed
      injection parsed with parsed
      rw [equal,← parsed]
      exact .workspace number shape inside
    · simp only [if_neg inside,bind,Except.bind] at parsed
      cases parsed
  | none =>
    simp only [parse,found] at parsed
    rcases parseMedia_inversion parsed with denoted | parsed
    · exact denoted
    rcases percentage_inversion parsed with ⟨number,rfl,shape,range,rfl⟩ | parsed
    · exact .volume number shape range
    rcases parseMute_inversion parsed with denoted | parsed
    · exact denoted
    rcases parseToggle_inversion parsed with denoted | parsed
    · exact denoted
    rcases percentage_inversion parsed with ⟨number,rfl,shape,range,rfl⟩ | parsed
    · exact .brightness number shape range
    · cases parsed

theorem parse_iff_denotes (command : Bytes) (action : Action) :
    parse (.string command) = .ok (.ok action) ↔ Denotes command action :=
  ⟨denoted_of_parse,parse_denoted⟩

def serviceOf : Domain → Service
  | .workspace => .hyprland
  | .media => .mpris
  | .audio => .audio
  | .brightness => .system

def enabled (config : Configuration.Config) : Domain → Bool
  | .workspace => config.sources.hyprland.enabled
  | .media => config.sources.mpris.enabled
  | .audio => config.sources.audio.enabled
  | .brightness => config.sources.system.enabled

def callOf : Effect → Option (Service × Bytes × Value)
  | .call service name value => some (service,name,value)
  | _ => none

def calls (effects : List Effect) : List (Service × Bytes × Value) := effects.filterMap callOf

theorem logged_calls (reply : Reply) (subject : Bytes) : calls (reply.logged subject) = [] := by
  cases reply with
  | raised error => rfl
  | returned result message => cases result <;> rfl

theorem calls_callService (service : Service) (action : Action) (reply : Reply) :
    calls (callService service action reply) = [(service,action.name,action.value)] := by
  have shape : calls (callService service action reply) = (service,action.name,action.value) :: calls
      (reply.logged (text "dispatch " ++ action.domain.name ++ text "." ++ action.name ++ text " failed")) := rfl
  rw [shape,logged_calls]

theorem reload_undenoted (action : Action) : ¬Denotes (text "reload") action := by
  intro denoted
  have parsed := parse_denoted denoted
  have refused : parse (.string (text "reload")) = .ok unsupported := by decide
  rw [refused] at parsed
  injection parsed with parsed
  cases parsed

-- One call to the service of the action's domain, or none when that source is
-- disabled.
theorem dispatch_parsed (config : Configuration.Config) (reply : Reply) {command : Bytes} {action : Action}
    (named : command ≠ text "reload") (parsed : parse (.string command) = .ok (.ok action)) :
    ∃ effects, dispatch config reply command = .ok effects ∧
      calls effects = if enabled config action.domain then [(serviceOf action.domain,action.name,action.value)] else [] := by
  unfold dispatch
  simp only [named,if_false,parsed,bind,Except.bind]
  cases domain : action.domain with
  | workspace =>
    cases on : config.sources.hyprland.enabled with
    | true => exact ⟨_,rfl,by simp [enabled,serviceOf,on,calls_callService]⟩
    | false => exact ⟨_,rfl,by simp [enabled,on,calls,callOf]⟩
  | media =>
    cases on : config.sources.mpris.enabled with
    | true => exact ⟨_,rfl,by simp [enabled,serviceOf,on,calls_callService]⟩
    | false => exact ⟨_,rfl,by simp [enabled,on,calls,callOf]⟩
  | audio =>
    cases on : config.sources.audio.enabled with
    | true => exact ⟨_,rfl,by simp [enabled,serviceOf,on,calls_callService]⟩
    | false => exact ⟨_,rfl,by simp [enabled,on,calls,callOf]⟩
  | brightness =>
    cases on : config.sources.system.enabled with
    | true => exact ⟨_,rfl,by simp [enabled,serviceOf,on,calls_callService]⟩
    | false => exact ⟨_,rfl,by simp [enabled,on,calls,callOf]⟩

theorem dispatch_called (config : Configuration.Config) (reply : Reply) {command : Bytes} {effects : List Effect}
    (done : dispatch config reply command = .ok effects) (some : calls effects ≠ []) :
    ∃ action, parse (.string command) = .ok (.ok action) := by
  by_cases named : command = text "reload"
  · simp only [dispatch,named,if_true] at done
    cases done
    exact absurd (logged_calls reply (text "configuration reload failed")) some
  · cases parsed : parse (.string command) with
    | error e => simp [dispatch,named,parsed,bind,Except.bind] at done
    | ok outcome =>
      cases outcome with
      | ok action => exact ⟨action,rfl⟩
      | error message =>
        simp only [dispatch,named,if_false,parsed,bind,Except.bind] at done
        cases done
        simp [calls,callOf] at some

-- The command socket: the results of the successive sends, and what comes back.
inductive Sent where
  | count (n : Nat)
  | interrupted
  | failed
  deriving DecidableEq, Repr

structure Peer where
  connects : Except Bytes Unit
  sends : List Sent
  sendError : Bytes
  shutdown : Except Bytes Unit
  receives : Except Bytes Bytes
  deriving Repr

-- The bytes written and whether all were.
def writeAll : List Sent → Bytes → Bytes × Bool
  | _,[] => ([],true)
  | [],_ => ([],false)
  | .count n :: rest,data =>
    if n = 0 then ([],false)
    else
      let later := writeAll rest (data.drop n)
      (data.take n ++ later.1,later.2)
  | .interrupted :: rest,data => writeAll rest data
  | .failed :: _,_ => ([],false)

def maxResponse : Nat := 16 * 1024 * 1024

structure Exchange where
  written : Bytes
  result : Except Bytes (Except Bytes Bytes)
  deriving Repr

def ipcRequest (peer : Peer) (payload : Bytes) : Exchange :=
  match peer.connects with
  | .error error => ⟨[],.ok (.error (text "connect failed: " ++ error))⟩
  | .ok _ =>
    let (written,whole) := writeAll peer.sends payload
    if !whole then ⟨written,.ok (.error (text "write failed: " ++ peer.sendError))⟩
    else match peer.shutdown with
      | .error error => ⟨written,.ok (.error (text "shutdown failed: " ++ error))⟩
      | .ok _ => match peer.receives with
        | .error error => ⟨written,.ok (.error (text "read failed: " ++ error))⟩
        | .ok response =>
          if maxResponse < response.length then ⟨written,.error (text "IPC response exceeds 16777216 bytes")⟩
          else ⟨written,.ok (.ok response)⟩

-- S.dispatch of the Hyprland service up to the request it makes.
def workspaceRequest (name : Bytes) : Value → Option Bytes
  | .integer i => if name = text "switch" then some (text "/dispatch workspace " ++ integerText i) else none
  | _ => none

def canonicalDecimal (n : Int) : Bytes := if n < 0 then minus :: digits n.natAbs else digits n.toNat

-- How many bytes a peer takes before a send fails or takes nothing.
def taken : List Sent → Nat
  | [] => 0
  | .count n :: rest => if n = 0 then 0 else n + taken rest
  | .interrupted :: rest => taken rest
  | .failed :: _ => 0

-- However the sends are cut and interrupted, what is written is what was taken.
theorem writeAll_taken (sends : List Sent) (data : Bytes) :
    writeAll sends data = (data.take (taken sends),decide (data.length ≤ taken sends)) := by
  induction sends generalizing data with
  | nil => cases data <;> simp [writeAll,taken]
  | cons sent rest ih =>
    cases data with
    | nil => simp [writeAll]
    | cons b tail =>
      cases sent with
      | count n =>
        by_cases zero : n = 0
        · simp [writeAll,taken,zero]
        · have pieces : (b :: tail).take n ++ ((b :: tail).drop n).take (taken rest) =
              (b :: tail).take (n + taken rest) := List.take_add.symm
          simp only [writeAll,taken,zero,if_false,ih,pieces,List.length_drop]
          congr 2
          exact propext (by omega)
      | interrupted => exact ih (b :: tail)
      | failed => simp [writeAll,taken]

-- What reaches the socket of a line: a prefix, and with a peer that connects
-- exactly what it takes; all of it when it takes that much, and whenever there
-- is an answer.
structure Conveyed (peer : Peer) (line : Bytes) : Prop where
  part : (ipcRequest peer line).written <+: line
  cut : peer.connects = .ok () → (ipcRequest peer line).written = line.take (taken peer.sends)
  whole : peer.connects = .ok () → line.length ≤ taken peer.sends → (ipcRequest peer line).written = line
  answered : ∀ response, (ipcRequest peer line).result = .ok (.ok response) → (ipcRequest peer line).written = line

theorem ipcRequest_written {peer : Peer} {line : Bytes} (connects : peer.connects = .ok ()) :
    (ipcRequest peer line).written = line.take (taken peer.sends) := by
  simp only [ipcRequest,connects,writeAll_taken]
  split
  · rfl
  · split
    · rfl
    · split
      · rfl
      · split <;> rfl

theorem ipcRequest_conveyed (peer : Peer) (line : Bytes) : Conveyed peer line := by
  cases connects : peer.connects with
  | error error =>
    refine ⟨?_,?_,?_,?_⟩ <;> simp [ipcRequest,connects]
  | ok _ =>
    have written : (ipcRequest peer line).written = line.take (taken peer.sends) := ipcRequest_written connects
    refine ⟨?_,fun _ => written,fun _ enough => ?_,fun response answered => ?_⟩
    · rw [written]
      exact List.take_prefix _ _
    · rw [written,List.take_of_length_le enough]
    · by_cases enough : line.length ≤ taken peer.sends
      · rw [written,List.take_of_length_le enough]
      · simp [ipcRequest,connects,writeAll_taken,enough] at answered

theorem integerText_canonical {n : Int} (range : Integral n) : integerText (Int64.ofInt n) = canonicalDecimal n := by
  simp only [integerText,canonicalDecimal,Int64.toInt_ofInt_of_le range.1 range.2]

-- What a command handed to the dispatcher does at the sources, and at the
-- Hyprland socket.
structure Confined (config : Configuration.Config) (reply : Reply) (command : Bytes) : Prop where
  language : ∀ effects, dispatch config reply command = .ok effects → calls effects ≠ [] →
    ∃ action, Denotes command action
  exactly : ∀ action, Denotes command action → ∃ effects, dispatch config reply command = .ok effects ∧
    calls effects = if enabled config action.domain then [(serviceOf action.domain,action.name,action.value)] else []
  socket : ∀ effects, dispatch config reply command = .ok effects →
    ∀ name value, (.hyprland,name,value) ∈ calls effects →
      ∃ number, command = workspaceLead ++ number ∧ Integral (signedValue number) ∧
        workspaceRequest name value = some (text "/dispatch workspace " ++ canonicalDecimal (signedValue number)) ∧
        ∀ peer, Conveyed peer (text "/dispatch workspace " ++ canonicalDecimal (signedValue number))

theorem dispatch_confined (config : Configuration.Config) (reply : Reply) (command : Bytes) :
    Confined config reply command where
  language effects done some := by
    obtain ⟨action,parsed⟩ := dispatch_called config reply done some
    exact ⟨action,denoted_of_parse parsed⟩
  exactly action denoted := by
    have named : command ≠ text "reload" := by
      rintro rfl
      exact reload_undenoted action denoted
    exact dispatch_parsed config reply named (parse_denoted denoted)
  socket effects done name value member := by
    obtain ⟨action,parsed⟩ := dispatch_called config reply done (List.ne_nil_of_mem member)
    have denoted := denoted_of_parse parsed
    have named : command ≠ text "reload" := by
      rintro rfl
      exact reload_undenoted action denoted
    obtain ⟨others,same,listed⟩ := dispatch_parsed config reply named parsed
    rw [same] at done
    cases done
    rw [listed] at member
    split at member
    · obtain ⟨service,rfl,rfl⟩ : .hyprland = serviceOf action.domain ∧ name = action.name ∧ value = action.value := by
        simpa using member
      cases denoted with
      | workspace number shape range =>
        refine ⟨number,rfl,range,?_,fun peer => ipcRequest_conveyed peer _⟩
        simp [workspaceRequest,integerText_canonical range]
      | _ => cases service
    · cases member

-- A peer that is slow to take the line, with a signal in between.
def hurried : Peer where
  connects := .ok ()
  sends := [.count 5,.interrupted,.count 1,.count 64]
  sendError := []
  shutdown := .ok ()
  receives := .ok (text "ok")

theorem switching_confined :
    Confined Configuration.allSources (.returned true none) (text "dispatch workspace switch -007") ∧
    (∃ effects, dispatch Configuration.allSources (.returned true none) (text "dispatch workspace switch -007") = .ok effects ∧
      calls effects = [(.hyprland,text "switch",.integer (-7))]) ∧
    workspaceRequest (text "switch") (.integer (-7)) = some (text "/dispatch workspace -7") ∧
    (ipcRequest hurried (text "/dispatch workspace -7")).written = text "/dispatch workspace -7" := by
  have confined := dispatch_confined Configuration.allSources (.returned true none) (text "dispatch workspace switch -007")
  have denoted : Denotes (text "dispatch workspace switch -007") ⟨.workspace,text "switch",.integer (-7)⟩ :=
    .workspace (text "-007") (by decide) (by decide)
  obtain ⟨effects,done,called⟩ := confined.exactly _ denoted
  refine ⟨confined,⟨effects,done,called⟩,rfl,?_⟩
  obtain ⟨number,same,-,-,conveyed⟩ := confined.socket effects done (text "switch") (.integer (-7))
    (by rw [called]; exact List.mem_singleton.mpr rfl)
  have cut : workspaceLead ++ text "-007" = workspaceLead ++ number := same
  obtain rfl := List.append_cancel_left cut
  exact (conveyed hurried).whole rfl (by decide)

end Hypringo.Dispatch

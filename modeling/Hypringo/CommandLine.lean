import Hypringo.Control
import Hypringo.Dispatch

namespace Hypringo.CommandLine
open Hypringo.Lua Pattern Numeral Actions

inductive Command where
  | doctor
  | reload
  | status
  | subscribe
  | dispatch
  deriving DecidableEq, Repr

def Command.name : Command → Bytes
  | .doctor => text "doctor"
  | .reload => text "reload"
  | .status => text "status"
  | .subscribe => text "subscribe"
  | .dispatch => text "dispatch"

def commandOf (argument : Bytes) : Option Command :=
  if argument = text "doctor" then some .doctor
  else if argument = text "reload" then some .reload
  else if argument = text "status" then some .status
  else if argument = text "subscribe" then some .subscribe
  else if argument = text "dispatch" then some .dispatch
  else none

structure Options where
  command : Option Command
  actionArgs : List Bytes
  checkConfig : Bool
  configPath : Option Bytes
  socketPath : Option Bytes
  format : Option Bytes
  help : Bool
  protocolCommand : Option Bytes
  deriving DecidableEq, Repr

def blank (command : Option Command) : Options := ⟨command,[],false,none,none,none,false,none⟩

def setConfig (options : Options) (path : Bytes) : Except Bytes Options :=
  if options.configPath.isSome then .error (text "configuration path was specified more than once")
  else .ok { options with configPath := some path }

def setSocket (options : Options) (path : Bytes) : Except Bytes Options :=
  if options.socketPath.isSome then .error (text "control socket path was specified more than once")
  else .ok { options with socketPath := some path }

def setFormat (options : Options) (format : Bytes) : Except Bytes Options :=
  if format ≠ text "eww" then .error (text "--format currently supports only eww")
  else .ok { options with format := some format }

-- The arguments that are neither --config, --socket nor --format.
def setOther (options : Options) (argument : Bytes) : Except Bytes Options :=
  if argument = text "--check-config" then
    if options.command.isSome then .error (text "--check-config cannot be used with a client command")
    else .ok { options with checkConfig := true }
  else if argument = text "--help" then .ok { options with help := true }
  else if options.command = some .dispatch ∧ (integerPattern.matches argument).isSome then
    .ok { options with actionArgs := options.actionArgs ++ [argument] }
  else if argument.head? = some minus then .error (text "unknown option: " ++ argument)
  else match options.command with
    | some .dispatch => .ok { options with actionArgs := options.actionArgs ++ [argument] }
    | some command => .error (text "unexpected argument for " ++ command.name ++ text ": " ++ argument)
    | none =>
      if options.configPath.isSome then .error (text "configuration path was specified more than once")
      else .ok { options with configPath := some argument }

-- The three options that take the argument after them.
inductive Flag where
  | config
  | socket
  | format
  deriving DecidableEq, Repr

def Flag.name : Flag → Bytes
  | .config => text "--config"
  | .socket => text "--socket"
  | .format => text "--format"

def flagOf (argument : Bytes) : Option Flag :=
  if argument = text "--config" then some .config
  else if argument = text "--socket" then some .socket
  else if argument = text "--format" then some .format
  else none

def Flag.missing : Flag → Bytes
  | .config => text "--config requires a path"
  | .socket => text "--socket requires a path"
  | .format => text "--format currently supports only eww"

def setPair (options : Options) (value : Bytes) : Flag → Except Bytes Options
  | .config => setConfig options value
  | .socket => setSocket options value
  | .format => setFormat options value

def parseLoop : Options → List Bytes → Except Bytes Options
  | options,[] => .ok options
  | options,argument :: rest => match flagOf argument,rest with
    | some flag,[] => .error flag.missing
    | some flag,value :: later => match setPair options value flag with
      | .error error => .error error
      | .ok options => parseLoop options later
    | none,rest => match setOther options argument with
      | .error error => .error error
      | .ok options => parseLoop options rest

-- actions.from_cli: the command to send, or the message.
def percentageArgument (lead : Bytes) (message : String) (argument : Bytes) : Except Bytes Bytes :=
  match parseInteger (.string argument) with
  | none => .error (text message)
  | some value =>
    if value.toInt < 0 ∨ 100 < value.toInt then .error (text message) else .ok (lead ++ integerText value)

def fromCli : List Bytes → Except Bytes Bytes
  | [domain,action] =>
    if domain = text "media" ∧ mediaActions.contains action then .ok (mediaLead ++ action)
    else if domain = text "audio" ∧ action = text "toggle-mute" then .ok (text "dispatch audio toggle-mute")
    else .error (text "unsupported dispatch action")
  | [domain,action,argument] =>
    if domain = text "workspace" ∧ action = text "switch" then
      match parseInteger (.string argument) with
      | none => .error (text "workspace switch requires an integer workspace id")
      | some workspace => .ok (workspaceLead ++ integerText workspace)
    else if domain = text "audio" ∧ action = text "set-volume" then
      percentageArgument volumeLead "audio set-volume requires an integer from 0 to 100" argument
    else if domain = text "audio" ∧ action = text "set-mute" ∧ (argument = text "true" ∨ argument = text "false") then
      .ok (muteLead ++ argument)
    else if domain = text "brightness" ∧ action = text "set" then
      percentageArgument brightnessLead "brightness set requires an integer from 0 to 100" argument
    else .error (text "unsupported dispatch action")
  | _ => .error (text "unsupported dispatch action")

def finish (options : Options) : Except Bytes Options :=
  if options.format.isSome ∧ options.command ≠ some .subscribe then
    .error (text "--format can only be used with subscribe")
  else if options.socketPath.isSome ∧ options.command = none then
    .error (text "--socket can only be used with a client command")
  else if options.command = some .dispatch then
    match fromCli options.actionArgs with
    | .error error => .error error
    | .ok command => .ok { options with protocolCommand := some command }
  else .ok options

def parseArguments (arguments : List Bytes) : Except Bytes Options :=
  let (command,rest) := match arguments with
    | [] => (none,[])
    | first :: rest => match commandOf first with
      | some command => (some command,rest)
      | none => (none,arguments)
  match parseLoop (blank command) rest with
  | .error error => .error error
  | .ok options => finish options

-- What run_client hands to control.request.
def clientLine (options : Options) : Bytes :=
  let command := options.protocolCommand.getD ((options.command.map Command.name).getD [])
  if options.format = some (text "eww") then command ++ text " eww" else command

example : (parseArguments [text "subscribe",text "--format",text "eww",text "--socket",text "/s"]).map clientLine =
    .ok (text "subscribe eww") := by decide

example : (parseArguments [text "dispatch",text "--socket",text "3",text "workspace",text "switch",text "-007"]).map
    clientLine = .ok (text "dispatch workspace switch -7") := by decide

-- A list of arguments as positional ones with option pairs placed among them.
inductive Placement : List Bytes → List (Flag × Bytes) → List Bytes → Prop
  | nil : Placement [] [] []
  | positional (argument : Bytes) (other : flagOf argument = none) :
      Placement positional pairs arguments → Placement (argument :: positional) pairs (argument :: arguments)
  | pair (flag : Flag) (value : Bytes) :
      Placement positional pairs arguments →
      Placement positional ((flag,value) :: pairs) (flag.name :: value :: arguments)

theorem flagOf_name (flag : Flag) : flagOf flag.name = some flag := by
  cases flag <;> decide

theorem flagOf_some {argument : Bytes} {flag : Flag} (found : flagOf argument = some flag) : argument = flag.name := by
  unfold flagOf at found
  split at found
  · cases found
    assumption
  split at found
  · cases found
    assumption
  split at found
  · cases found
    assumption
  · cases found

theorem parseLoop_pair (options : Options) (flag : Flag) (value : Bytes) (rest : List Bytes) :
    parseLoop options (flag.name :: value :: rest) = match setPair options value flag with
      | .error error => .error error
      | .ok options => parseLoop options rest := by
  conv_lhs => unfold parseLoop
  simp only [flagOf_name]

theorem parseLoop_other (options : Options) {argument : Bytes} (other : flagOf argument = none) (rest : List Bytes) :
    parseLoop options (argument :: rest) = match setOther options argument with
      | .error error => .error error
      | .ok options => parseLoop options rest := by
  simp only [parseLoop,other]

-- An option without its value ends every parse, so what is accepted is placed.
theorem placed_or_refused (arguments : List Bytes) :
    (∃ positional pairs, Placement positional pairs arguments) ∨
      ∀ options, ∃ error, parseLoop options arguments = .error error := by
  induction size : arguments.length using Nat.strong_induction_on generalizing arguments with
  | h n ih =>
    cases arguments with
    | nil => exact .inl ⟨[],[],.nil⟩
    | cons argument rest =>
      cases option : flagOf argument with
      | some flag =>
        obtain rfl := flagOf_some option
        cases rest with
        | nil =>
          right
          intro options
          unfold parseLoop
          simp only [option]
          exact ⟨_,rfl⟩
        | cons value later =>
          rcases ih later.length (by simp only [← size,List.length_cons]; omega) later rfl with
            ⟨positional,pairs,placed⟩ | refused
          · exact .inl ⟨positional,(flag,value) :: pairs,.pair flag value placed⟩
          · right
            intro options
            rw [parseLoop_pair]
            cases setPair options value flag with
            | error error => exact ⟨error,rfl⟩
            | ok options => exact refused options
      | none =>
        rcases ih rest.length (by simp only [← size,List.length_cons]; omega) rest rfl with
          ⟨positional,pairs,placed⟩ | refused
        · exact .inl ⟨argument :: positional,pairs,.positional argument option placed⟩
        · right
          intro options
          rw [parseLoop_other options option]
          cases setOther options argument with
          | error error => exact ⟨error,rfl⟩
          | ok options => exact refused options

-- With a client command given, what another argument does depends on it alone:
-- refused, the help flag, or one more argument of the action.
inductive Other where
  | refused
  | help
  | argument
  deriving DecidableEq, Repr

def otherKind (command : Command) (argument : Bytes) : Other :=
  if argument = text "--check-config" then .refused
  else if argument = text "--help" then .help
  else if command = .dispatch ∧ (integerPattern.matches argument).isSome then .argument
  else if argument.head? = some minus then .refused
  else if command = .dispatch then .argument
  else .refused

def place (command : Command) (options : Options) (argument : Bytes) : Option Options :=
  match otherKind command argument with
  | .refused => none
  | .help => some { options with help := true }
  | .argument => some { options with actionArgs := options.actionArgs ++ [argument] }

def absorb (options : Options) (pair : Flag × Bytes) : Option Options := (setPair options pair.2 pair.1).toOption

theorem setOther_place {options : Options} {command : Command} (client : options.command = some command)
    (argument : Bytes) : (setOther options argument).toOption = place command options argument := by
  unfold setOther place otherKind
  simp only [client,Option.isSome_some,if_true,Option.some.injEq]
  by_cases check : argument = text "--check-config"
  · rw [if_pos check,if_pos check]
    rfl
  rw [if_neg check,if_neg check]
  by_cases help : argument = text "--help"
  · rw [if_pos help,if_pos help]
    rfl
  rw [if_neg help,if_neg help]
  by_cases integer : command = .dispatch ∧ (integerPattern.matches argument).isSome = true
  · rw [if_pos integer,if_pos integer]
    rfl
  rw [if_neg integer,if_neg integer]
  by_cases dash : argument.head? = some minus
  · rw [if_pos dash,if_pos dash]
    rfl
  rw [if_neg dash,if_neg dash]
  cases command <;> rfl

theorem absorb_command {options later : Options} {pair : Flag × Bytes} (absorbed : absorb options pair = some later) :
    later.command = options.command := by
  obtain ⟨flag,value⟩ := pair
  cases flag <;> simp only [absorb,setPair,setConfig,setSocket,setFormat] at absorbed <;> split at absorbed <;>
    cases absorbed <;> rfl

theorem place_command {command : Command} {options later : Options} {argument : Bytes}
    (placed : place command options argument = some later) : later.command = options.command := by
  unfold place at placed
  split at placed <;> cases placed <;> rfl

def absorbAll (options : Option Options) (pairs : List (Flag × Bytes)) : Option Options :=
  pairs.foldl (fun options pair => options.bind (absorb · pair)) options

def placeAll (command : Command) (options : Option Options) (arguments : List Bytes) : Option Options :=
  arguments.foldl (fun options argument => options.bind (place command · argument)) options

theorem place_absorb (command : Command) (options : Options) (argument : Bytes) (pair : Flag × Bytes) :
    (place command options argument).bind (absorb · pair) =
      (absorb options pair).bind (place command · argument) := by
  obtain ⟨flag,value⟩ := pair
  unfold place
  cases otherKind command argument with
  | refused => cases absorb options (flag,value) <;> rfl
  | help | argument =>
    cases flag with
    | config =>
      simp only [absorb,setPair,setConfig,Option.bind_some]
      cases options.configPath <;> rfl
    | socket =>
      simp only [absorb,setPair,setSocket,Option.bind_some]
      cases options.socketPath <;> rfl
    | format =>
      simp only [absorb,setPair,setFormat,Option.bind_some]
      split <;> rfl

theorem absorb_absorb (options : Options) (left right : Flag × Bytes) :
    (absorb options left).bind (absorb · right) = (absorb options right).bind (absorb · left) := by
  obtain ⟨flag,value⟩ := left
  obtain ⟨other,value'⟩ := right
  have twice : ∀ flag : Flag, flag ≠ .format → ∀ value value',
      (absorb options (flag,value)).bind (absorb · (flag,value')) = none := by
    intro flag notFormat value value'
    cases flag with
    | config =>
      simp only [absorb,setPair,setConfig]
      cases options.configPath <;> rfl
    | socket =>
      simp only [absorb,setPair,setSocket]
      cases options.socketPath <;> rfl
    | format => exact absurd rfl notFormat
  cases flag <;> cases other
  case config.config => rw [twice _ (by decide),twice _ (by decide)]
  case socket.socket => rw [twice _ (by decide),twice _ (by decide)]
  case config.socket | socket.config =>
    simp only [absorb,setPair,setConfig,setSocket]
    cases options.configPath <;> cases options.socketPath <;> simp [Except.toOption]
  case config.format | format.config =>
    simp only [absorb,setPair,setConfig,setFormat]
    by_cases other : value = text "eww" <;> by_cases other' : value' = text "eww" <;>
      cases options.configPath <;> simp [other,other',Except.toOption]
  case socket.format | format.socket =>
    simp only [absorb,setPair,setSocket,setFormat]
    by_cases other : value = text "eww" <;> by_cases other' : value' = text "eww" <;>
      cases options.socketPath <;> simp [other,other',Except.toOption]
  case format.format =>
    simp only [absorb,setPair,setFormat]
    by_cases other : value = text "eww" <;> by_cases other' : value' = text "eww" <;>
      simp [other,other',Except.toOption]

theorem absorbAll_perm {pairs others : List (Flag × Bytes)} (same : pairs.Perm others) (options : Option Options) :
    absorbAll options pairs = absorbAll options others := by
  refine same.foldl_eq' ?_ options
  intro left _ right _ options
  cases options with
  | none => rfl
  | some options => exact absorb_absorb options left right

theorem placeAll_absorb (command : Command) (arguments : List Bytes) (options : Option Options) (pair : Flag × Bytes) :
    (placeAll command options arguments).bind (absorb · pair) =
      placeAll command (options.bind (absorb · pair)) arguments := by
  induction arguments generalizing options with
  | nil => rfl
  | cons argument rest ih =>
    have step : placeAll command options (argument :: rest) =
        placeAll command (options.bind (place command · argument)) rest := rfl
    rw [step,ih]
    show placeAll command _ rest = placeAll command ((options.bind (absorb · pair)).bind (place command · argument)) rest
    cases options with
    | none => rfl
    | some options => rw [Option.bind_some,Option.bind_some,place_absorb]

theorem placeAll_none (command : Command) (arguments : List Bytes) : placeAll command none arguments = none := by
  induction arguments with
  | nil => rfl
  | cons _ _ ih => exact ih

theorem refused_all (command : Command) (arguments : List Bytes) (pairs : List (Flag × Bytes)) :
    absorbAll (placeAll command none arguments) pairs = none := by
  rw [placeAll_none]
  induction pairs with
  | nil => rfl
  | cons _ _ ih => exact ih

-- The loop, for a client command: first the positional arguments, then the
-- pairs, wherever they stood.
theorem parseLoop_placed {positional : List Bytes} {pairs : List (Flag × Bytes)} {arguments : List Bytes}
    (placed : Placement positional pairs arguments) {command : Command} {options : Options}
    (client : options.command = some command) :
    (parseLoop options arguments).toOption = absorbAll (placeAll command (some options) positional) pairs := by
  induction placed generalizing options with
  | nil => rfl
  | @positional positional pairs arguments argument other placed ih =>
    rw [parseLoop_other options other]
    have step : placeAll command (some options) (argument :: positional) =
        placeAll command (place command options argument) positional := rfl
    have kind := setOther_place client argument
    rw [step,← kind]
    cases result : setOther options argument with
    | error error =>
      exact (refused_all command positional pairs).symm
    | ok later =>
      rw [result] at kind
      exact ih ((place_command kind.symm).trans client)
  | @pair positional pairs arguments flag value placed ih =>
    rw [parseLoop_pair]
    have step : absorbAll (placeAll command (some options) positional) ((flag,value) :: pairs) =
        absorbAll ((placeAll command (some options) positional).bind (absorb · (flag,value))) pairs := rfl
    rw [step,placeAll_absorb]
    show _ = absorbAll (placeAll command (absorb options (flag,value)) positional) pairs
    cases result : setPair options value flag with
    | error error =>
      have missing : absorb options (flag,value) = none := by simp only [absorb,result]; rfl
      rw [missing]
      exact (refused_all command positional pairs).symm
    | ok later =>
      have found : absorb options (flag,value) = some later := by simp only [absorb,result]; rfl
      rw [found]
      exact ih ((absorb_command found).trans client)

theorem setOther_command {options later : Options} {argument : Bytes}
    (done : setOther options argument = .ok later) : later.command = options.command := by
  unfold setOther at done
  split at done
  · split at done
    · cases done
    · cases done
      rfl
  split at done
  · cases done
    rfl
  split at done
  · cases done
    rfl
  split at done
  · cases done
  split at done
  · cases done
    rfl
  · cases done
  · split at done
    · cases done
    · cases done
      rfl

theorem parseLoop_command {options later : Options} {arguments : List Bytes}
    (done : parseLoop options arguments = .ok later) : later.command = options.command := by
  fun_induction parseLoop options arguments with
  | case1 => cases done; rfl
  | case2 => cases done
  | case3 => cases done
  | case4 options argument flag value rest named next set ih =>
    have absorbed : absorb options (flag,value) = some next := by
      simp only [absorb,set]
      rfl
    exact (ih done).trans (absorb_command absorbed)
  | case5 => cases done
  | case6 options argument rest named next set ih => exact (ih done).trans (setOther_command set)

theorem commandOf_name (command : Command) : commandOf command.name = some command := by
  cases command <;> decide

theorem commandOf_some {argument : Bytes} {command : Command} (found : commandOf argument = some command) :
    argument = command.name := by
  unfold commandOf at found
  repeat' split at found
  all_goals cases found
  all_goals assumption

-- A client command stands first.
theorem client_parts {arguments : List Bytes} {options : Options} {command : Command}
    (parsed : parseArguments arguments = .ok options) (client : options.command = some command) :
    ∃ rest looped, arguments = command.name :: rest ∧
      parseLoop (blank (some command)) rest = .ok looped ∧ finish looped = .ok options := by
  have finished : ∀ {before after : Options}, finish before = .ok after → after.command = before.command := by
    intro before after done
    unfold finish at done
    split at done
    · cases done
    split at done
    · cases done
    split at done
    · split at done
      · cases done
      · cases done
        rfl
    · cases done
      rfl
  have without : ∀ rest looped, parseLoop (blank none) rest = .ok looped → finish looped = .ok options → False := by
    intro rest looped ran done
    have same := (finished done).trans (parseLoop_command ran)
    rw [client] at same
    cases same
  unfold parseArguments at parsed
  cases arguments with
  | nil =>
    dsimp only at parsed
    cases ran : parseLoop (blank none) [] with
    | error error => simp [ran] at parsed
    | ok looped =>
      rw [ran] at parsed
      exact (without _ _ ran parsed).elim
  | cons first rest =>
    dsimp only at parsed
    cases found : commandOf first with
    | none =>
      rw [found] at parsed
      dsimp only at parsed
      cases ran : parseLoop (blank none) (first :: rest) with
      | error error => simp [ran] at parsed
      | ok looped =>
        rw [ran] at parsed
        exact (without _ _ ran parsed).elim
    | some other =>
      rw [found] at parsed
      dsimp only at parsed
      cases ran : parseLoop (blank (some other)) rest with
      | error error => simp [ran] at parsed
      | ok looped =>
        rw [ran] at parsed
        have same := (finished parsed).trans (parseLoop_command ran)
        rw [client] at same
        cases same
        exact ⟨rest,looped,by rw [commandOf_some found],ran,parsed⟩

theorem placeAll_positional {command : Command} {positional : List Bytes} {options later : Options}
    (placed : placeAll command (some options) positional = some later) (plain : later.help = false) :
    later = { options with actionArgs := options.actionArgs ++ positional } ∧
      (positional ≠ [] → command = .dispatch) := by
  induction positional generalizing options with
  | nil =>
    cases placed
    simp
  | cons argument rest ih =>
    have step : placeAll command (some options) (argument :: rest) =
        placeAll command (place command options argument) rest := rfl
    rw [step] at placed
    unfold place at placed
    cases kind : otherKind command argument with
    | refused =>
      rw [kind] at placed
      dsimp only at placed
      rw [placeAll_none] at placed
      cases placed
    | help =>
      rw [kind] at placed
      obtain ⟨rfl,_⟩ := ih placed
      cases plain
    | argument =>
      rw [kind] at placed
      obtain ⟨rfl,_⟩ := ih placed
      refine ⟨by simp,fun _ => ?_⟩
      unfold otherKind at kind
      by_contra other
      simp only [other,false_and,if_false] at kind
      repeat' split at kind
      all_goals cases kind

theorem absorbAll_kept {pairs : List (Flag × Bytes)} {start : Option Options} {later : Options}
    (absorbed : absorbAll start pairs = some later) :
    ∃ options, start = some options ∧ later.command = options.command ∧ later.actionArgs = options.actionArgs ∧
      later.help = options.help ∧ later.protocolCommand = options.protocolCommand ∧
      (later.format = options.format ∨ later.format = some (text "eww")) := by
  induction pairs generalizing start with
  | nil => exact ⟨later,absorbed,rfl,rfl,rfl,rfl,.inl rfl⟩
  | cons pair rest ih =>
    obtain ⟨middle,found,command,arguments,help,protocol,format⟩ := ih absorbed
    cases start with
    | none => cases found
    | some options =>
      obtain ⟨flag,value⟩ := pair
      have set : absorb options (flag,value) = some middle := found
      refine ⟨options,rfl,?_⟩
      cases flag with
      | config | socket =>
        simp only [absorb,setPair,setConfig,setSocket] at set
        split at set
        · cases set
        · cases set
          exact ⟨command,arguments,help,protocol,format⟩
      | format =>
        simp only [absorb,setPair,setFormat] at set
        split at set
        · cases set
        · rename_i eww
          cases set
          simp only [ne_eq,not_not] at eww
          refine ⟨command,arguments,help,protocol,.inr ?_⟩
          rcases format with same | same
          · rw [same,eww]
          · exact same

-- What the arguments after `dispatch` denote.
inductive ArgumentsDenote : List Bytes → Action → Prop
  | workspace (number : Bytes) (shape : signedText minus digit number = true) (range : Integral (signedValue number)) :
      ArgumentsDenote [text "workspace",text "switch",number]
        ⟨.workspace,text "switch",.integer (Int64.ofInt (signedValue number))⟩
  | media (name : Bytes) (known : name ∈ mediaActions) :
      ArgumentsDenote [text "media",name] ⟨.media,name,.nil⟩
  | volume (number : Bytes) (shape : signedText minus digit number = true)
      (range : 0 ≤ signedValue number ∧ signedValue number ≤ 100) :
      ArgumentsDenote [text "audio",text "set-volume",number]
        ⟨.audio,text "set-volume",.integer (Int64.ofInt (signedValue number))⟩
  | mute (muted : Bool) :
      ArgumentsDenote [text "audio",text "set-mute",if muted then text "true" else text "false"]
        ⟨.audio,text "set-mute",.boolean muted⟩
  | toggle : ArgumentsDenote [text "audio",text "toggle-mute"] ⟨.audio,text "toggle-mute",.nil⟩
  | brightness (number : Bytes) (shape : signedText minus digit number = true)
      (range : 0 ≤ signedValue number ∧ signedValue number ≤ 100) :
      ArgumentsDenote [text "brightness",text "set",number]
        ⟨.brightness,text "set-brightness",.integer (Int64.ofInt (signedValue number))⟩

-- A line the server reads whole: no terminator inside, and short enough.
def Clean (line : Bytes) : Prop := 0 ∉ line ∧ Control.newline ∉ line

theorem clean_append {left right : Bytes} (first : Clean left) (second : Clean right) : Clean (left ++ right) := by
  refine ⟨?_,?_⟩ <;> rw [List.mem_append,not_or]
  · exact ⟨first.1,second.1⟩
  · exact ⟨first.2,second.2⟩

theorem clean_digits {number : Bytes} (shape : plusText digit number = true) : Clean number := by
  simp only [plusText,Bool.and_eq_true,List.all_eq_true] at shape
  have bytes : ∀ b, digit b = false → b ∉ number := by
    intro b other member
    rw [shape.2 b member] at other
    cases other
  exact ⟨bytes 0 (by decide),bytes 10 (by decide)⟩

theorem clean_integerText (i : Int64) : Clean (integerText i) := by
  unfold integerText
  split
  · obtain ⟨zero,line⟩ := clean_digits (digits_text i.toInt.natAbs)
    exact ⟨by simpa [minus] using zero,by simpa [minus,Control.newline] using line⟩
  · exact clean_digits (digits_text _)

theorem parseInteger_some {argument : Bytes} {value : Int64} (parsed : parseInteger (.string argument) = some value) :
    signedText minus digit argument = true ∧ Integral (signedValue argument) ∧
      value = Int64.ofInt (signedValue argument) := by
  have shape : signedText minus digit argument = true := by
    unfold parseInteger at parsed
    cases found : integerPattern.matches argument with
    | none => simp [found] at parsed
    | some group =>
      obtain ⟨equal,shape⟩ := (signed_matches_iff digit_minus).mp found
      rw [List.nil_append] at equal
      rwa [equal]
  rw [parseInteger_exact shape] at parsed
  split at parsed
  · rename_i range
    cases parsed
    exact ⟨shape,range,rfl⟩
  · cases parsed

theorem percentageArgument_some {lead argument line : Bytes} {message : String}
    (made : percentageArgument lead message argument = .ok line) :
    signedText minus digit argument = true ∧ (0 ≤ signedValue argument ∧ signedValue argument ≤ 100) ∧
      line = lead ++ integerText (Int64.ofInt (signedValue argument)) := by
  unfold percentageArgument at made
  split at made
  · cases made
  · rename_i value parsed
    obtain ⟨shape,range,rfl⟩ := parseInteger_some parsed
    have exact' : (Int64.ofInt (signedValue argument)).toInt = signedValue argument :=
      Int64.toInt_ofInt_of_le range.1 range.2
    split at made
    · cases made
    · rename_i inside
      rw [exact'] at inside
      cases made
      exact ⟨shape,⟨by omega,by omega⟩,rfl⟩

-- The command from_cli makes of arguments it accepts.
structure Sound (arguments : List Bytes) (line : Bytes) : Prop where
  meaning : ∃ action, ArgumentsDenote arguments action ∧ Dispatch.Denotes line action
  clean : Clean line
  short : line.length ≤ 126
  lead : text "dispatch " <+: line

theorem integer_line (lead : Bytes) (clean : Clean lead) (short : lead.length ≤ 30) (i : Int64) :
    Clean (lead ++ integerText i) ∧ (lead ++ integerText i).length ≤ 126 := by
  refine ⟨clean_append clean (clean_integerText i),?_⟩
  have size := integerText_length i
  rw [List.length_append]
  omega

theorem percentage_denoted {number : Bytes} (range : 0 ≤ signedValue number ∧ signedValue number ≤ 100) :
    plusText digit (integerText (Int64.ofInt (signedValue number))) = true ∧
    decimal (integerText (Int64.ofInt (signedValue number))) ≤ 100 ∧
    (decimal (integerText (Int64.ofInt (signedValue number))) : Int) = signedValue number := by
  have value : (Int64.ofInt (signedValue number)).toInt = signedValue number :=
    Int64.toInt_ofInt_of_le (by omega) (by omega)
  obtain ⟨shape,same⟩ := integerText_plus (i := Int64.ofInt (signedValue number)) (by omega)
  exact ⟨shape,by omega,by omega⟩

theorem fromCli_sound {arguments : List Bytes} {line : Bytes} (made : fromCli arguments = .ok line) :
    Sound arguments line := by
  unfold fromCli at made
  split at made
  · rename_i domain action
    split at made
    · rename_i named
      obtain ⟨rfl,known⟩ := named
      cases made
      have member : action ∈ mediaActions := by simpa using known
      have size : Clean action ∧ action.length ≤ 10 := by
        simp only [mediaActions,List.mem_cons,List.not_mem_nil,or_false] at member
        rcases member with rfl | rfl | rfl | rfl | rfl <;> exact ⟨⟨by decide,by decide⟩,by decide⟩
      refine ⟨⟨_,.media action member,.media action member⟩,clean_append ⟨by decide,by decide⟩ size.1,?_,?_⟩
      · rw [List.length_append]
        have lead : mediaLead.length = 15 := by decide
        omega
      · exact List.IsPrefix.trans (by decide) (List.prefix_append mediaLead action)
    split at made
    · rename_i named
      obtain ⟨rfl,rfl⟩ := named
      cases made
      exact ⟨⟨_,.toggle,.toggle⟩,⟨by decide,by decide⟩,by decide,by decide⟩
    · cases made
  · rename_i domain action argument
    split at made
    · rename_i named
      obtain ⟨rfl,rfl⟩ := named
      split at made
      · cases made
      · rename_i value parsed
        cases made
        obtain ⟨shape,range,rfl⟩ := parseInteger_some parsed
        obtain ⟨shape',value⟩ := integerText_signed (Int64.ofInt (signedValue argument))
        have same : signedValue (integerText (Int64.ofInt (signedValue argument))) = signedValue argument :=
          value.trans (Int64.toInt_ofInt_of_le range.1 range.2)
        obtain ⟨clean,short⟩ := integer_line workspaceLead ⟨by decide,by decide⟩ (by decide)
          (Int64.ofInt (signedValue argument))
        have denoted := Dispatch.Denotes.workspace _ shape' (by rw [same]; exact range)
        rw [same] at denoted
        exact ⟨⟨_,.workspace argument shape range,denoted⟩,clean,short,
          List.IsPrefix.trans (by decide) (List.prefix_append workspaceLead _)⟩
    split at made
    · rename_i named
      obtain ⟨rfl,rfl⟩ := named
      obtain ⟨shape,range,rfl⟩ := percentageArgument_some made
      obtain ⟨shape',small,same⟩ := percentage_denoted range
      obtain ⟨clean,short⟩ := integer_line volumeLead ⟨by decide,by decide⟩ (by decide)
        (Int64.ofInt (signedValue argument))
      have denoted := Dispatch.Denotes.volume _ shape' small
      rw [same] at denoted
      exact ⟨⟨_,.volume argument shape range,denoted⟩,clean,short,
        List.IsPrefix.trans (by decide) (List.prefix_append volumeLead _)⟩
    split at made
    · rename_i named
      obtain ⟨rfl,rfl,rfl | rfl⟩ := named
      · cases made
        exact ⟨⟨_,.mute true,.mute true⟩,⟨by decide,by decide⟩,by decide,by decide⟩
      · cases made
        exact ⟨⟨_,.mute false,.mute false⟩,⟨by decide,by decide⟩,by decide,by decide⟩
    split at made
    · rename_i named
      obtain ⟨rfl,rfl⟩ := named
      obtain ⟨shape,range,rfl⟩ := percentageArgument_some made
      obtain ⟨shape',small,same⟩ := percentage_denoted range
      obtain ⟨clean,short⟩ := integer_line brightnessLead ⟨by decide,by decide⟩ (by decide)
        (Int64.ofInt (signedValue argument))
      have denoted := Dispatch.Denotes.brightness _ shape' small
      rw [same] at denoted
      exact ⟨⟨_,.brightness argument shape range,denoted⟩,clean,short,
        List.IsPrefix.trans (by decide) (List.prefix_append brightnessLead _)⟩
    · cases made
  · cases made

-- What handle_command has to make of a command line.
def answerOf (command : Command) (eww : Bool) (line : Bytes) : Control.Answer :=
  match command with
  | .doctor => .snapshot .doctor
  | .reload => .enqueue (text "reload")
  | .status => .snapshot .default
  | .subscribe => .subscribe (if eww then .eww else .default)
  | .dispatch => .enqueue line

structure Understood (command : Command) (eww : Bool) (positional : List Bytes) (line : Bytes) : Prop where
  clean : Clean line
  fits : line.length + 1 ≤ Control.commandCapacity - 1
  allowed : Control.requestable line = true
  recognised : ∀ fd, Control.handleCommand ⟨fd,false,.default,line ++ [Control.newline]⟩ = answerOf command eww line
  dispatched : command = .dispatch →
    ∃ action, ArgumentsDenote positional action ∧ parse (.string line) = .ok (.ok action)

theorem plain_understood (command : Command) (eww : Bool) (positional : List Bytes) (other : command ≠ .dispatch)
    (formatted : eww = true → command = .subscribe) :
    Understood command eww positional (if eww then command.name ++ text " eww" else command.name) := by
  have known : ∀ line : Bytes, Clean line → line.length ≤ 20 → Control.requestable line = true →
      Control.recognise line = answerOf command eww line → Understood command eww positional line := by
    intro line clean short allowed recognised
    refine ⟨clean,?_,allowed,fun fd => ?_,fun same => absurd same other⟩
    · have capacity : Control.commandCapacity = 128 := rfl
      omega
    · rw [Control.handleCommand_line clean.1 clean.2]
      exact recognised
  cases command with
  | dispatch => exact absurd rfl other
  | subscribe => cases eww <;> exact known _ ⟨by decide,by decide⟩ (by decide) (by decide) (by decide)
  | doctor | reload | status =>
    cases eww with
    | true => cases formatted rfl
    | false => exact known _ ⟨by decide,by decide⟩ (by decide) (by decide) (by decide)

theorem dispatch_understood {positional : List Bytes} {line : Bytes} (sound : Sound positional line) :
    Understood .dispatch false positional line where
  clean := sound.clean
  fits := by
    have capacity : Control.commandCapacity = 128 := rfl
    have short := sound.short
    omega
  allowed := Control.requestable_dispatch sound.lead
  recognised fd := by
    rw [Control.handleCommand_line sound.clean.1 sound.clean.2,Control.recognise_dispatch sound.lead]
    rfl
  dispatched _ := by
    obtain ⟨action,arguments,denoted⟩ := sound.meaning
    exact ⟨action,arguments,Dispatch.parse_denoted denoted⟩

theorem parseArguments_placed {positional : List Bytes} {pairs : List (Flag × Bytes)} {arguments : List Bytes}
    {command : Command} {looped : Options} (placed : Placement positional pairs arguments)
    (ran : absorbAll (placeAll command (some (blank (some command))) positional) pairs = some looped) :
    parseArguments (command.name :: arguments) = finish looped := by
  have same : (parseLoop (blank (some command)) arguments).toOption =
      absorbAll (placeAll command (some (blank (some command))) positional) pairs := parseLoop_placed placed rfl
  rw [ran] at same
  unfold parseArguments
  simp only [commandOf_name]
  cases result : parseLoop (blank (some command)) arguments with
  | error error =>
    rw [result] at same
    cases same
  | ok other =>
    rw [result] at same
    cases same
    rfl

-- Every accepted client command: its line, and that the placement of the
-- option pairs does not matter.
theorem client_line_agrees {arguments : List Bytes} {options : Options} {command : Command}
    (parsed : parseArguments arguments = .ok options) (client : options.command = some command)
    (plain : options.help = false) :
    ∃ positional pairs rest, arguments = command.name :: rest ∧ Placement positional pairs rest ∧
      Understood command options.format.isSome positional (clientLine options) ∧
      ∀ pairs' rest', pairs'.Perm pairs → Placement positional pairs' rest' →
        parseArguments (command.name :: rest') = .ok options := by
  obtain ⟨rest,looped,rfl,ran,finished⟩ := client_parts parsed client
  obtain ⟨positional,pairs,placed⟩ : ∃ positional pairs, Placement positional pairs rest := by
    rcases placed_or_refused rest with placed | refused
    · exact placed
    · obtain ⟨error,failed⟩ := refused (blank (some command))
      rw [ran] at failed
      cases failed
  have absorbed : absorbAll (placeAll command (some (blank (some command))) positional) pairs = some looped := by
    rw [← parseLoop_placed placed rfl,ran]
    rfl
  refine ⟨positional,pairs,rest,rfl,placed,?_,?_⟩
  · obtain ⟨placed,found,sameCommand,sameArguments,sameHelp,sameProtocol,format⟩ := absorbAll_kept absorbed
    have finishes : options.help = looped.help ∧ options.format = looped.format := by
      unfold finish at finished
      repeat' split at finished
      all_goals cases finished
      all_goals exact ⟨rfl,rfl⟩
    obtain ⟨rfl,only⟩ := placeAll_positional found (by rw [← sameHelp,← finishes.1,plain])
    have isCommand : looped.command = some command := sameCommand
    have eww : looped.format.isSome = true → looped.format = some (text "eww") := by
      intro given
      rcases format with same | same
      · rw [same] at given
        cases given
      · exact same
    unfold finish at finished
    by_cases wrong : looped.format.isSome = true ∧ looped.command ≠ some .subscribe
    · rw [if_pos wrong] at finished
      cases finished
    rw [if_neg wrong] at finished
    rw [if_neg (by rw [isCommand]; simp)] at finished
    by_cases dispatching : command = .dispatch
    · subst dispatching
      rw [if_pos isCommand] at finished
      have arguments : looped.actionArgs = positional := by
        rw [sameArguments]
        rfl
      have none : looped.format = none := by
        by_contra some
        exact wrong ⟨Option.isSome_iff_ne_none.mpr some,by rw [isCommand]; decide⟩
      rw [arguments] at finished
      split at finished
      · cases finished
      · rename_i line made
        cases finished
        have understood := dispatch_understood (fromCli_sound made)
        simpa [clientLine,none] using understood
    · rw [if_neg (by rw [isCommand]; simpa using dispatching)] at finished
      injection finished with finished
      subst finished
      have protocol : looped.protocolCommand = none := sameProtocol
      have formatted : looped.format.isSome = true → command = .subscribe := by
        intro given
        by_contra other
        exact wrong ⟨given,by rw [isCommand]; simpa using other⟩
      have understood := plain_understood command looped.format.isSome positional dispatching formatted
      have line : clientLine looped =
          if looped.format.isSome then command.name ++ text " eww" else command.name := by
        simp only [clientLine,protocol,isCommand,Option.map_some,Option.getD_none,Option.getD_some]
        cases given : looped.format.isSome with
        | true => rw [if_pos (eww given),if_pos rfl]
        | false =>
          rw [if_neg]
          · rfl
          · intro same
            rw [same] at given
            cases given
      rw [line]
      exact understood
  · intro pairs' rest' same placed'
    rw [parseArguments_placed placed' ((absorbAll_perm same _).trans absorbed)]
    exact finished

def switching : List Bytes := [text "dispatch",text "--socket",text "/s",text "workspace",text "switch",text "-007"]

def switched : Options :=
  { blank (some .dispatch) with
    actionArgs := [text "workspace",text "switch",text "-007"]
    socketPath := some (text "/s")
    protocolCommand := some (text "dispatch workspace switch -7") }

theorem switching_line_agrees :
    parseArguments switching = .ok switched ∧ switched.command = some .dispatch ∧ switched.help = false ∧
    ∃ positional pairs rest, switching = Command.dispatch.name :: rest ∧ Placement positional pairs rest ∧
      Understood .dispatch switched.format.isSome positional (clientLine switched) ∧
      ∀ pairs' rest', pairs'.Perm pairs → Placement positional pairs' rest' →
        parseArguments (Command.dispatch.name :: rest') = .ok switched := by
  have parsed : parseArguments switching = .ok switched := by decide
  exact ⟨parsed,rfl,rfl,client_line_agrees parsed rfl rfl⟩

end Hypringo.CommandLine

import Hypringo.Lua.Effects
import Hypringo.Lua.Numeral

namespace Hypringo.ConfigLoad
open Hypringo.Lua Hypringo.Lua.Numeral

def nonEmpty : Option Bytes → Option Bytes
  | some [] => none
  | value => value

section Environment
variable (environment : Bytes → Option Bytes)

def defaultSocketPath : Except Bytes Value :=
  match nonEmpty (environment (text "XDG_RUNTIME_DIR")) with
  | none => .error (text "cannot resolve control socket path: XDG_RUNTIME_DIR is not set")
  | some runtimeDir => .ok (.string (runtimeDir ++ text "/hypringo.sock"))

def defaultHyprlandSocket (name : String) : Except Bytes Value :=
  match nonEmpty (environment (text "XDG_RUNTIME_DIR")) with
  | none => .error (text "cannot resolve Hyprland " ++ text name ++ text " socket: XDG_RUNTIME_DIR is not set")
  | some runtimeDir =>
    match nonEmpty (environment (text "HYPRLAND_INSTANCE_SIGNATURE")) with
    | none =>
      .error (text "cannot resolve Hyprland " ++ text name ++ text " socket: HYPRLAND_INSTANCE_SIGNATURE is not set")
    | some signature => .ok (.string (runtimeDir ++ text "/hypr/" ++ signature ++ text "/" ++ text name))

end Environment

-- Lua's `or`. The position `error` puts before a message is left out.
def otherwise (value fallback : Value) : Value := if value.truthy then value else fallback
def orElse (value : Value) (fallback : Except Bytes Value) : Except Bytes Value := if value.truthy then .ok value else fallback

def fieldError (path : String) (problem : Bytes) : Bytes := text "configuration field " ++ text path ++ problem

def slash : UInt8 := 47

def validateAbsolutePath (value : Value) (path : String) : Except Bytes Value :=
  match value with
  | .string [] => .error (fieldError path (text " must be a non-empty string"))
  | .string (first :: rest) =>
    if first = slash then .ok (.string (first :: rest))
    else .error (fieldError path (text " must be an absolute path"))
  | _ => .error (fieldError path (text " must be a non-empty string"))

def validateInteger (value : Value) (path : String) (fallback : Int64) (minimum maximum : Nat) : Except Bytes Value :=
  let refused := fieldError path (text " must be an integer between " ++ digits minimum ++ text " and " ++ digits maximum)
  match otherwise value (.integer fallback) with
  | .integer i => if i.toInt < minimum ∨ maximum < i.toInt then .error refused else .ok (.integer i)
  | _ => .error refused

def validateMilliseconds (value : Value) (path : String) (fallback : Int64) : Except Bytes Value :=
  validateInteger value path fallback 10 60000

def space : Pattern.Class := fun b => b == 32 || decide (9 ≤ b.toNat ∧ b.toNat ≤ 13)

-- ^https?://[^%s]+$
def urlPattern : Pattern.Anchored where
  lead := Pattern.literal (text "http") ++ .optional (Pattern.byte 115) :: Pattern.literal (text "://")
  group := [.plus (fun b => !space b)]
  rest := []
  toEnd := true

def validateUrl (value : Value) (path : String) : Except Bytes Value :=
  let refused := fieldError path (text " must be a non-empty HTTP or HTTPS URL")
  match value with
  | .string s => if (urlPattern.matches s).isSome then .ok value else .error refused
  | _ => .error refused

-- ^[A-Za-z_][A-Za-z0-9_]*$
def environmentName (s : Bytes) : Bool :=
  (Pattern.run [.one (Pattern.either Pattern.letter (Pattern.byte 95))] s fun rest =>
    Pattern.expand (Pattern.either Pattern.alphanumeric (Pattern.byte 95)) rest fun tail =>
      if tail.isEmpty then some () else none).isSome

structure Defaults where
  intervalMs : Int64
  maxResponseBytes : Int64
  retryMaxMs : Int64
  retryMinMs : Int64
  timeoutMs : Int64
  url : Value

section Sections
variable (foreign : Foreign) (environment : Bytes → Option Bytes)

def requireTable (parent : Value) (key path : String) : Program Value := do
  match ← index foreign parent key with
  | .nil =>
    let value ← Program.newTable
    assign foreign parent key value
    return value
  | .table a => return .table a
  | _ => Program.raise (fieldError path (text " must be a table"))

-- source.name = validate(source.name)
def validated (source : Value) (name : String) (validate : Value → Except Bytes Value) : Program Unit := do
  let value ← Program.lift (validate (← index foreign source name))
  assign foreign source name value

def enabledFlag (source : Value) (path : String) (fallback : Bool) : Program Unit := do
  if (← index foreign source "enabled") = .nil then assign foreign source "enabled" (.boolean fallback)
  else match ← index foreign source "enabled" with
    | .boolean _ => return ()
    | _ => Program.raise (fieldError (path ++ ".enabled") (text " must be a boolean"))

def checkOrder (source : Value) (path maximum minimum : String) : Program Unit := do
  let largest ← index foreign source maximum
  let least ← index foreign source minimum
  if ← compare foreign .less largest least then
    Program.raise (fieldError (path ++ "." ++ maximum) (text " must not be less than " ++ text minimum))

def runtimeSettings (config runtime : Value) : Program Unit := do
  let workers := otherwise (← index foreign (← index foreign config "runtime") "workers") (.integer 2)
  let workers ← Program.lift (validateInteger workers "runtime.workers" 2 1 256)
  assign foreign runtime "workers" workers
  validated foreign runtime "socket_path" fun value => do
    validateAbsolutePath (← orElse value (defaultSocketPath environment)) "runtime.socket_path"

def reconnectSettings (source : Value) (path : String) : Program Unit := do
  enabledFlag foreign source path false
  validated foreign source "reconnect_min_ms" fun value => validateMilliseconds value (path ++ ".reconnect_min_ms") 100
  validated foreign source "reconnect_max_ms" fun value => validateMilliseconds value (path ++ ".reconnect_max_ms") 5000
  checkOrder foreign source path "reconnect_max_ms" "reconnect_min_ms"

def hyprlandSockets (hyprland : Value) : Program Unit := do
  validated foreign hyprland "command_socket" fun value => do
    validateAbsolutePath (← orElse value (defaultHyprlandSocket environment ".socket.sock"))
      "sources.hyprland.command_socket"
  validated foreign hyprland "event_socket" fun value => do
    validateAbsolutePath (← orElse value (defaultHyprlandSocket environment ".socket2.sock"))
      "sources.hyprland.event_socket"
  let command ← index foreign hyprland "command_socket"
  let event ← index foreign hyprland "event_socket"
  if ← equals foreign command event then
    Program.raise (text "configuration fields sources.hyprland.command_socket and event_socket must differ")

def hyprlandSettings (hyprland : Value) : Program Unit := do
  reconnectSettings foreign hyprland "sources.hyprland"
  if (← index foreign hyprland "enabled").truthy then hyprlandSockets foreign environment hyprland

def systemSettings (system : Value) : Program Unit := do
  enabledFlag foreign system "sources.system" true
  validated foreign system "interval_ms" fun value => validateInteger value "sources.system.interval_ms" 5000 100 60000
  validated foreign system "sysfs_root" fun value =>
    validateAbsolutePath (otherwise value (.string (text "/sys"))) "sources.system.sysfs_root"

def urlSetting (source : Value) (path : String) (fallback : Value) : Program Unit := do
  if (← index foreign source "enabled").truthy then
    validated foreign source "url" fun value => validateUrl (otherwise value fallback) (path ++ ".url")
  else if (← index foreign source "url") ≠ .nil then
    validated foreign source "url" fun value => validateUrl value (path ++ ".url")

def validateRemoteSource (source : Value) (path : String) (defaults : Defaults) : Program Unit := do
  enabledFlag foreign source path false
  validated foreign source "interval_ms" fun value =>
    validateInteger value (path ++ ".interval_ms") defaults.intervalMs 100 86400000
  validated foreign source "timeout_ms" fun value =>
    validateInteger value (path ++ ".timeout_ms") defaults.timeoutMs 10 600000
  validated foreign source "retry_min_ms" fun value =>
    validateInteger value (path ++ ".retry_min_ms") defaults.retryMinMs 100 86400000
  validated foreign source "retry_max_ms" fun value =>
    validateInteger value (path ++ ".retry_max_ms") defaults.retryMaxMs 100 86400000
  checkOrder foreign source path "retry_max_ms" "retry_min_ms"
  validated foreign source "max_response_bytes" fun value =>
    validateInteger value (path ++ ".max_response_bytes") defaults.maxResponseBytes 1 (16 * 1024 * 1024)
  urlSetting foreign source path defaults.url

def weatherDefaults : Defaults where
  intervalMs := 600000
  maxResponseBytes := 65536
  retryMaxMs := 300000
  retryMinMs := 5000
  timeoutMs := 10000
  url := .nil

def githubDefaults : Defaults where
  intervalMs := 60000
  maxResponseBytes := 1024 * 1024
  retryMaxMs := 900000
  retryMinMs := 5000
  timeoutMs := 10000
  url := .string (text "https://api.github.com/notifications?per_page=100")

-- Written first and checked afterwards, with a read for each half of the check.
def tokenEnv (github : Value) : Program Unit := do
  let value := otherwise (← index foreign github "token_env") (.string (text "HYPRINGO_GITHUB_TOKEN"))
  assign foreign github "token_env" value
  let refused := text "configuration field sources.github.token_env must be an environment variable name"
  match ← index foreign github "token_env" with
  | .string _ =>
    match ← index foreign github "token_env" with
    | .string s => if environmentName s then return () else Program.raise refused
    | _ => Program.raise refused
  | _ => Program.raise refused

def githubSettings (github : Value) : Program Unit := do
  validateRemoteSource foreign github "sources.github" githubDefaults
  validated foreign github "max_items" fun value => validateInteger value "sources.github.max_items" 50 1 100
  tokenEnv foreign github

def blockingSources (sources : List Value) : Program Nat :=
  sources.foldlM (fun n source => do
    if (← index foreign source "enabled").truthy then return n + 1 else return n) 0

def checkWorkers (runtime : Value) (sources : List Value) : Program Unit := do
  let blocking ← blockingSources foreign sources
  if ← compare foreign .lessEqual (← index foreign runtime "workers") (.integer (.ofNat blocking)) then
    Program.raise (fieldError "runtime.workers"
      (text " must be greater than the number of enabled blocking sources (" ++ digits blocking ++ text ")"))

-- The validators in turn, up to the one that looks at all of the data.
def settings (config : Value) : Program Unit := do
  let runtime ← requireTable foreign config "runtime" "runtime"
  runtimeSettings foreign environment config runtime
  let sources ← requireTable foreign config "sources" "sources"
  let hyprland ← requireTable foreign sources "hyprland" "sources.hyprland"
  hyprlandSettings foreign environment hyprland
  let mpris ← requireTable foreign sources "mpris" "sources.mpris"
  reconnectSettings foreign mpris "sources.mpris"
  let audio ← requireTable foreign sources "audio" "sources.audio"
  reconnectSettings foreign audio "sources.audio"
  let system ← requireTable foreign sources "system" "sources.system"
  systemSettings foreign system
  let weather ← requireTable foreign sources "weather" "sources.weather"
  validateRemoteSource foreign weather "sources.weather" weatherDefaults
  let github ← requireTable foreign sources "github" "sources.github"
  githubSettings foreign github
  checkWorkers foreign runtime [hyprland,mpris,audio,weather,github]

end Sections

def keyText : Value → Bytes
  | .integer i => integerText i
  | .float f => floatText f
  | .string s => s
  | _ => []

def validateEntry (validate : Value → Bytes → List Address → Except Bytes (List Address)) (path : Bytes)
    (validated : List Address) (entry : Value × Value) : Except Bytes (List Address) :=
  match entry.1 with
  | .string _ | .integer _ | .float _ => validate entry.2 (path ++ text "[" ++ keyText entry.1 ++ text "]") validated
  | key => .error (path ++ text " contains an unsupported " ++ key.typeName ++ text " key")

-- The registry of validated tables is threaded through. The depth only stands
-- in for the stack: the tables being visited are all different.
def validateValue (w : World) : Nat → Value → Bytes → List Address → List Address → Except Bytes (List Address)
  | 0,_,_,_,_ => .error (text "stack overflow")
  | depth+1,value,path,visiting,validated =>
    match value with
    | .nil | .boolean _ | .integer _ | .float _ | .string _ => .ok validated
    | .other kind identity =>
      .error (path ++ text " must contain serializable data, got " ++ (Value.other kind identity).typeName)
    | .table a =>
      if w.metatable (.table a) ≠ none then .error (path ++ text " must not have a metatable")
      else if a ∈ visiting then .error (path ++ text " contains a circular table reference")
      else if a ∈ validated then .ok validated
      else
        let validate := fun child path validated => validateValue w depth child path (a :: visiting) validated
        ((w.table a).entries.foldlM (validateEntry validate path) validated).map (a :: ·)

inductive Loaded where
  | unreadable (message : Bytes)
  | raised (message : Bytes)
  | returned (value : Value)

def load (foreign : Foreign) (environment : Bytes → Option Bytes) (path : Bytes) : Loaded → Program Value
  | .unreadable message => .raise (text "cannot load configuration " ++ path ++ text ": " ++ message)
  | .raised message => .raise (text "cannot evaluate configuration " ++ path ++ text ": " ++ message)
  | .returned (.table a) => do
    settings foreign environment (.table a)
    let w ← get
    let _ ← Program.lift (validateValue w (w.size + 1) (.table a) (text "configuration") [] [])
    return .table a
  | .returned _ => .raise (text "configuration " ++ path ++ text " must return a table")

end Hypringo.ConfigLoad

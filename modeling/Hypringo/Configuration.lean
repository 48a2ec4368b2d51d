import Hypringo.Lua.Value

namespace Hypringo.Configuration
open Hypringo.Lua

-- The table config.load returns, with the types its validators leave behind.
-- A field that stays nil when its source is disabled is optional here.
structure Runtime where
  workers : Int
  socketPath : Bytes
  deriving DecidableEq, Repr

structure Reconnecting where
  enabled : Bool
  reconnectMinMs : Int
  reconnectMaxMs : Int
  deriving DecidableEq, Repr

structure Hyprland extends Reconnecting where
  commandSocket : Option Bytes
  eventSocket : Option Bytes
  deriving DecidableEq, Repr

structure System where
  enabled : Bool
  intervalMs : Int
  sysfsRoot : Bytes
  deriving DecidableEq, Repr

structure Remote where
  enabled : Bool
  intervalMs : Int
  timeoutMs : Int
  retryMinMs : Int
  retryMaxMs : Int
  maxResponseBytes : Int
  url : Option Bytes
  deriving DecidableEq, Repr

structure Github extends Remote where
  maxItems : Nat
  tokenEnv : Bytes
  deriving DecidableEq, Repr

structure Sources where
  audio : Reconnecting
  github : Github
  hyprland : Hyprland
  mpris : Reconnecting
  system : System
  weather : Remote
  deriving DecidableEq, Repr

structure Config where
  runtime : Runtime
  sources : Sources
  deriving DecidableEq, Repr

-- test/config-all-sources.lua as config.load returns it.
def allSources : Config where
  runtime := ⟨4,text "/tmp/hypringo-all-sources.sock"⟩
  sources :=
    { audio := ⟨true,100,5000⟩
      github := ⟨⟨false,60000,10000,5000,900000,1048576,none⟩,50,text "HYPRINGO_GITHUB_TOKEN"⟩
      hyprland := ⟨⟨true,100,5000⟩,some (text "/tmp/hypringo-command.sock"),some (text "/tmp/hypringo-event.sock")⟩
      mpris := ⟨true,100,5000⟩
      system := ⟨true,5000,text "/sys"⟩
      weather := ⟨false,600000,10000,5000,300000,65536,none⟩ }

-- One row of M.reloadable's table: whether the two values agree, and the field.
structure Immutable where
  same : Bool
  field : Bytes

def immutable (current candidate : Config) : List Immutable :=
  [⟨decide (current.runtime.workers = candidate.runtime.workers),text "runtime.workers"⟩,
   ⟨decide (current.runtime.socketPath = candidate.runtime.socketPath),text "runtime.socket_path"⟩,
   ⟨current.sources.audio.enabled == candidate.sources.audio.enabled,text "sources.audio.enabled"⟩,
   ⟨current.sources.github.enabled == candidate.sources.github.enabled,text "sources.github.enabled"⟩,
   ⟨current.sources.hyprland.enabled == candidate.sources.hyprland.enabled,text "sources.hyprland.enabled"⟩,
   ⟨current.sources.mpris.enabled == candidate.sources.mpris.enabled,text "sources.mpris.enabled"⟩,
   ⟨current.sources.system.enabled == candidate.sources.system.enabled,text "sources.system.enabled"⟩,
   ⟨current.sources.weather.enabled == candidate.sources.weather.enabled,text "sources.weather.enabled"⟩] ++
  (if current.sources.hyprland.enabled && candidate.sources.hyprland.enabled then
    [⟨decide (current.sources.hyprland.commandSocket = candidate.sources.hyprland.commandSocket),
        text "sources.hyprland.command_socket"⟩,
     ⟨decide (current.sources.hyprland.eventSocket = candidate.sources.hyprland.eventSocket),
        text "sources.hyprland.event_socket"⟩]
   else []) ++
  (if current.sources.system.enabled && candidate.sources.system.enabled then
    [⟨decide (current.sources.system.sysfsRoot = candidate.sources.system.sysfsRoot),
        text "sources.system.sysfs_root"⟩]
   else [])

def reloadable (current candidate : Config) : Except Bytes Unit :=
  match (immutable current candidate).find? (fun entry => !entry.same) with
  | some entry => .error (text "restart required after changing " ++ entry.field)
  | none => .ok ()

-- Which sources run is fixed at boot: a candidate that passes keeps every flag.
theorem reloadable_enabled (accepted : reloadable current candidate = .ok ()) :
    current.sources.audio.enabled = candidate.sources.audio.enabled ∧
    current.sources.github.enabled = candidate.sources.github.enabled ∧
    current.sources.hyprland.enabled = candidate.sources.hyprland.enabled ∧
    current.sources.mpris.enabled = candidate.sources.mpris.enabled ∧
    current.sources.system.enabled = candidate.sources.system.enabled ∧
    current.sources.weather.enabled = candidate.sources.weather.enabled := by
  unfold reloadable at accepted
  split at accepted
  · cases accepted
  · rename_i none
    simp only [List.find?_eq_none] at none
    have same : ∀ entry ∈ immutable current candidate, entry.same = true := by
      intro entry member
      simpa using none entry member
    simp only [immutable,List.mem_append,List.mem_cons,List.not_mem_nil,or_false] at same
    refine ⟨?_,?_,?_,?_,?_,?_⟩
    · simpa using same _ (.inl (.inl (.inr (.inr (.inl rfl)))))
    · simpa using same _ (.inl (.inl (.inr (.inr (.inr (.inl rfl))))))
    · simpa using same _ (.inl (.inl (.inr (.inr (.inr (.inr (.inl rfl)))))))
    · simpa using same _ (.inl (.inl (.inr (.inr (.inr (.inr (.inr (.inl rfl))))))))
    · simpa using same _ (.inl (.inl (.inr (.inr (.inr (.inr (.inr (.inr (.inl rfl)))))))))
    · simpa using same _ (.inl (.inl (.inr (.inr (.inr (.inr (.inr (.inr (.inr rfl)))))))))

end Hypringo.Configuration

import Hypringo.AudioService
import Hypringo.Devices
import Hypringo.Hyprland
import Hypringo.Mpris
import Hypringo.RemoteServices
import Hypringo.Runs
import Hypringo.StateChange

namespace Hypringo.Reports
open Hypringo.Lua Hypringo.Configuration Json Document State StateDelivery StateChange RemoteServices

def audioFields (patch : AudioService.Patch) : List (Bytes × Doc) :=
  [(text "available",.boolean patch.available),
   (text "capabilities",.object (patch.capabilities.map (fun capability => (capability.1,.boolean capability.2)))),
   (text "connected",.boolean patch.connected),
   (text "error",.string patch.error),
   (text "muted",.boolean patch.muted),
   (text "sink",.string patch.sink),
   (text "volume",.sint patch.volume)]

def capabilities (capabilities : Mpris.Capabilities) : Doc :=
  .object
    [(text "next",.boolean capabilities.next),(text "pause",.boolean capabilities.pause),
     (text "play",.boolean capabilities.play),(text "play_pause",.boolean capabilities.playPause),
     (text "previous",.boolean capabilities.previous)]

-- The service adds `connected` to the table of the source.
def mediaFields (connected : Bool) (media : Mpris.Media) : List (Bytes × Doc) :=
  [(text "album",.string media.album),
   (text "art",.string media.art),
   (text "artist",.string media.artist),
   (text "available",.boolean media.available),
   (text "capabilities",capabilities media.capabilities),
   (text "connected",.boolean connected),
   (text "error",.string media.error),
   (text "player",.string media.player),
   (text "status",.string media.status),
   (text "title",.string media.title)]

-- What the sources ask of the machine and its libraries.
structure Environment where
  yyjson : Yyjson
  getenv : Bytes → Option Bytes
  sorting : Hyprland.Sorting
  percentage : Int → Int → Int
  pulse : AudioSource.Pulse

-- Every call that sends a patch to the state service, with whatever it was
-- computed from.
inductive Report where
  | audio (source : AudioSource.Source)
  | audioLost (message : Bytes)
  | github (service : GithubService) (clock : Clock) (reply : Reply)
  | hyprland (monitors workspaces activeWindow : Tree)
  | hyprlandLost (message : Option Bytes)
  | media (source : Mpris.Source) (listing : Mpris.Listing)
  | mediaLost (message : Option Bytes)
  | system (scan : Devices.Scan)
  | systemFailed (message : Option Bytes)
  | weather (service : WeatherService) (clock : Clock) (reply : Reply)
  | ready
  | reloadFailed (message : Bytes)
  | reloaded (generation : Int64)

def Report.domain : Report → Domain
  | .audio _ | .audioLost _ => .audio
  | .github _ _ _ => .github
  | .hyprland _ _ _ | .hyprlandLost _ => .hyprland
  | .media _ _ | .mediaLost _ => .media
  | .system _ | .systemFailed _ => .system
  | .weather _ _ _ => .weather
  | .ready | .reloadFailed _ | .reloaded _ => .runtime

def Report.fields (environment : Environment) : Report → List (Bytes × Doc)
  | .audio source => audioFields (.ofSnapshot (AudioSource.snapshot environment.pulse source))
  | .audioLost message => audioFields (AudioService.unavailable message)
  | .github service clock reply => (service.refresh environment.yyjson environment.getenv clock reply).2
  | .hyprland monitors workspaces activeWindow =>
    (Hyprland.snapshot environment.sorting monitors workspaces activeWindow).fields
  | .hyprlandLost message => (Hyprland.unavailable message).fields
  | .media source listing => mediaFields true (Mpris.snapshot source listing).2
  | .mediaLost message => mediaFields false (Mpris.pushUnavailable (message.getD []))
  | .system scan => (Devices.snapshot environment.percentage scan).fields
  | .systemFailed message => (Devices.unavailable message).fields
  | .weather service clock reply => (service.refresh environment.yyjson clock reply).2
  | .ready => [(text "ready",.boolean true)]
  | .reloadFailed message => [(text "last_reload_error",.string message)]
  | .reloaded generation => [(text "config_generation",.sint generation.toInt),(text "last_reload_error",.string [])]

-- The store with, for every domain, the patch that came last. The latter is a
-- record, read by no code.
structure System where
  store : Store
  last : Domain → Option (List (Bytes × Doc))

def boot (configPath : Bytes) (config : Config) : System := ⟨new configPath config,fun _ => none⟩

-- `h` and `p` say where the patch has been unpacked.
structure Event where
  report : Report
  h : Heap
  p : Address

def apply (environment : Environment) (system : System) (event : Event) : System where
  store := (merge ⟨system.store.snapshot,event.h⟩ event.report.domain.name (.table event.p)).2
  last := fun domain => if domain = event.report.domain then some (event.report.fields environment) else system.last domain

def Possible (environment : Environment) (system : System) (event : Event) : Prop :=
  Packed system.store.heap event.h event.p (event.report.fields environment)

-- The documents M.new starts with. The cleared values are those the sources
-- report when they have nothing.
def initialDocuments (configPath : Bytes) (config : Config) : Domain → List (Bytes × Doc)
  | .audio =>
    [(text "available",.boolean false),
     (text "capabilities",.object
       [(text "set_mute",.boolean config.sources.audio.enabled),(text "set_volume",.boolean config.sources.audio.enabled),
        (text "toggle_mute",.boolean config.sources.audio.enabled)]),
     (text "connected",.boolean false),(text "error",.string []),(text "muted",.boolean false),(text "sink",.string []),
     (text "volume",.sint 0)]
  | .github =>
    [(text "available",.boolean false),(text "error",.string []),(text "failures",.sint 0),(text "last_attempt_at",.sint 0),
     (text "last_success_at",.sint 0),(text "notifications",.array []),(text "refresh_in_ms",.sint 0),
     (text "stale",.boolean false)]
  | .hyprland =>
    [(text "active_window",(Hyprland.unavailable none).activeWindow.document),
     (text "active_workspace",Hyprland.ActiveWorkspace.cleared.document),
     (text "available",.boolean false),
     (text "capabilities",.object [(text "switch_workspace",.boolean config.sources.hyprland.enabled)]),
     (text "error",.string []),(text "monitors",.array []),(text "workspaces",.array [])]
  | .media => mediaFields false (Mpris.pushUnavailable [])
  | .runtime =>
    [(text "config_generation",.sint 1),(text "config_path",.string configPath),(text "last_reload_error",.string []),
     (text "ready",.boolean false),(text "socket_path",.string config.runtime.socketPath),
     (text "workers",.sint (Int64.ofInt config.runtime.workers).toInt)]
  | .system => (Devices.unavailable none).fields
  | .weather =>
    [(text "available",.boolean false),(text "condition",.string []),(text "error",.string []),(text "failures",.sint 0),
     (text "feels_like",.string []),(text "last_attempt_at",.sint 0),(text "last_success_at",.sint 0),
     (text "location",.string []),(text "precipitation",.string []),(text "pressure",.string []),
     (text "refresh_in_ms",.sint 0),(text "stale",.boolean false),(text "temperature",.string []),(text "wind",.string [])]

theorem runtime_reads (configPath : Bytes) (config : Config) :
    ∀ field ∈ initialDocuments configPath config .runtime,
      document (initialHeap config) 3 ((Table.record (initialFields configPath config .runtime)).get (.string field.1)) =
        .ok field.2 := by
  have distinct : ((initialFields configPath config .runtime).map Prod.fst).Nodup := by
    simp only [initialFields,List.map_cons,List.map_nil]
    decide
  have present : ∀ field ∈ initialFields configPath config .runtime, field.2 ≠ .nil := by
    simp [initialFields,State.empty,flag]
  have get : ∀ name v, (name,v) ∈ initialFields configPath config .runtime →
      (Table.record (initialFields configPath config .runtime)).get (.string name) = v :=
    fun name v listed => Table.record_get distinct present listed
  simp only [initialDocuments,List.forall_mem_cons]
  refine ⟨?_,?_,?_,?_,?_,?_,by simp⟩
  · rw [get _ (.integer 1) (by simp [initialFields])]
    rfl
  · rw [get _ (.string configPath) (by simp [initialFields])]
    rfl
  · rw [get _ State.empty (by simp [initialFields])]
    rfl
  · rw [get _ (flag false) (by simp [initialFields])]
    rfl
  · rw [get _ (.string config.runtime.socketPath) (by simp [initialFields])]
    rfl
  · rw [get _ (.integer (Int64.ofInt config.runtime.workers)) (by simp [initialFields])]
    exact document_scalar rfl 3

theorem initial_reads (configPath : Bytes) (config : Config) (domain : Domain) :
    ∀ field ∈ initialDocuments configPath config domain,
      Reads (new configPath config) domain (.string field.1) field.2 := by
  have each : ∀ field ∈ initialDocuments configPath config domain,
      document (initialHeap config) 3 ((Table.record (initialFields configPath config domain)).get (.string field.1)) =
        .ok field.2 := by
    cases domain with
    | audio =>
      simp only [initialDocuments,List.forall_mem_cons]
      exact ⟨rfl,rfl,rfl,rfl,rfl,rfl,rfl,by simp⟩
    | github =>
      simp only [initialDocuments,List.forall_mem_cons]
      exact ⟨rfl,rfl,rfl,rfl,rfl,rfl,rfl,rfl,by simp⟩
    | hyprland =>
      simp only [initialDocuments,List.forall_mem_cons]
      exact ⟨rfl,rfl,rfl,rfl,rfl,rfl,rfl,by simp⟩
    | media =>
      simp only [initialDocuments,mediaFields,List.forall_mem_cons]
      exact ⟨rfl,rfl,rfl,rfl,rfl,rfl,rfl,rfl,rfl,rfl,by simp⟩
    | runtime => exact runtime_reads configPath config
    | system =>
      simp only [initialDocuments,Devices.Patch.fields,List.forall_mem_cons]
      exact ⟨rfl,rfl,rfl,rfl,by simp⟩
    | weather =>
      simp only [initialDocuments,List.forall_mem_cons]
      exact ⟨rfl,rfl,rfl,rfl,rfl,rfl,rfl,rfl,rfl,rfl,rfl,rfl,rfl,rfl,by simp⟩
  exact fun field listed => ⟨3,each field listed⟩

theorem initial_names (configPath : Bytes) (config : Config) (domain : Domain) (key : Value)
    (held : ((new configPath config).snapshot.state domain).get key ≠ .nil) :
    ∃ field ∈ initialDocuments configPath config domain, key = .string field.1 := by
  obtain ⟨field,listed,same⟩ := Table.mem_of_mem_record (Table.mem_of_get held)
  have names : (initialFields configPath config domain).map Prod.fst ⊆
      (initialDocuments configPath config domain).map Prod.fst := by
    cases domain <;> simp only [initialFields,initialDocuments,mediaFields,Devices.Patch.fields,List.map_cons,List.map_nil] <;>
      decide
  obtain ⟨document,known,name⟩ := List.mem_map.mp (names (List.mem_map_of_mem listed))
  exact ⟨document,known,by rw [name]; exact (Prod.ext_iff.mp same).1⟩

-- A machine with the sort and the JSON text at hand and nothing plugged in.
def bare : Environment where
  yyjson := JsonText.reference
  getenv _ := none
  sorting := Hyprland.mergesort
  percentage current maximum := current * 100 / maximum
  pulse := ⟨fun _ => 0⟩

end Hypringo.Reports

import Hypringo.ConfigSections

namespace Hypringo.ConfigValid
open Hypringo.Lua ConfigLoad ConfigFields ConfigEffects ConfigSettings ConfigSections ValidateValue Settling

structure Sections where
  runtime : Address
  sources : Address
  hyprland : Address
  mpris : Address
  audio : Address
  system : Address
  weather : Address
  github : Address

def Sections.blocking (s : Sections) : List Address := [s.hyprland,s.mpris,s.audio,s.weather,s.github]

structure Configured (config : Address) (s : Sections) (w : World) : Prop where
  runtimeLink : Linked config s.runtime "runtime" w
  sourcesLink : Linked config s.sources "sources" w
  hyprlandLink : Linked s.sources s.hyprland "hyprland" w
  mprisLink : Linked s.sources s.mpris "mpris" w
  audioLink : Linked s.sources s.audio "audio" w
  systemLink : Linked s.sources s.system "system" w
  weatherLink : Linked s.sources s.weather "weather" w
  githubLink : Linked s.sources s.github "github" w
  runtime : Runtime s.runtime w
  hyprland : Hyprland s.hyprland w
  mpris : Reconnecting s.mpris w
  audio : Reconnecting s.audio w
  system : System s.system w
  weather : Remote s.weather w
  github : Github s.github w
  staffed : Staffed s.runtime s.blocking w
  data : Serialisable w (.table config)

-- A table returned by a chunk, in the tables as the chunk leaves them.
structure Chunk where
  world : World
  value : Value
  closed : world.Closed
  inside : value.Within world.size

def sectionNames : List String := ["runtime","sources","hyprland","mpris","audio","system","weather","github"]

theorem sectionNames_apart : ∀ key ∈ sectionNames, Apart key settingNames := by decide

theorem sectionNames_distinct : sectionNames.Pairwise fun key other => nameKey key ≠ nameKey other := by decide

theorem outer_distinct (foreign : Foreign) (environment : Bytes → Option Bytes) :
    (outerSections foreign environment).Pairwise fun s t => nameKey s.key ≠ nameKey t.key := by
  have names := sectionNames_distinct.sublist (List.take_sublist 2 _)
  exact (List.pairwise_map (f := Section.key) (R := fun key other => nameKey key ≠ nameKey other)).mp names

theorem source_distinct (foreign : Foreign) (environment : Bytes → Option Bytes) :
    (sourceSections foreign environment).Pairwise fun s t => nameKey s.key ≠ nameKey t.key := by
  have names := sectionNames_distinct.sublist (List.drop_sublist 2 _)
  exact (List.pairwise_map (f := Section.key) (R := fun key other => nameKey key ≠ nameKey other)).mp names

theorem outer_apart (foreign : Foreign) (environment : Bytes → Option Bytes) : ∀ s ∈ outerSections foreign environment,
    Apart s.key ((sourceSections foreign environment).map Section.key ++ settingNames) := by
  have names : ∀ key ∈ sectionNames.take 2, Apart key (sectionNames.drop 2 ++ settingNames) := by decide
  exact fun s member => names s.key (List.mem_map_of_mem (f := Section.key) member)

section Loading
variable {foreign : Foreign} (inert : foreign.Inert) (environment : Bytes → Option Bytes)
include inert

theorem outer_lawful : ∀ s ∈ outerSections foreign environment, s.Lawful := by
  intro s member
  simp only [outerSections,List.mem_cons,List.not_mem_nil,or_false] at member
  rcases member with rfl | rfl
  · exact ⟨sectionNames_apart "runtime" (by simp [sectionNames]),fun _ _ _ outer inside => runtimeSettings_writes inert outer inside,
      fun p _ => runtimeSettings_converges foreign environment p,fun b => (lasting_integer b _ _ _).and (lasting_path b _)⟩
  · refine ⟨sectionNames_apart "sources" (by simp [sectionNames]),fun _ _ _ _ _ => .pure (fun _ _ => trivial),
      fun _ _ => ⟨?_,fun _ _ _ => rfl⟩,fun _ _ _ _ _ => trivial⟩
    intro w later _ done
    cases done
    exact ⟨.refl _,trivial⟩

theorem source_lawful : ∀ s ∈ sourceSections foreign environment, s.Lawful := by
  intro s member
  simp only [sourceSections,List.mem_cons,List.not_mem_nil,or_false] at member
  rcases member with rfl | rfl | rfl | rfl | rfl | rfl
  · exact ⟨sectionNames_apart "hyprland" (by simp [sectionNames]),fun _ _ _ _ inside => hyprlandSettings_writes inert inside,
      fun _ _ => (hyprlandSettings_converges foreign environment).weaken fun _ holds => holds.1,lasting_hyprland⟩
  · exact ⟨sectionNames_apart "mpris" (by simp [sectionNames]),fun _ _ _ _ inside => reconnectSettings_writes inert inside _,
      fun _ _ => (reconnectSettings_converges foreign _).weaken fun _ holds => holds.1,lasting_reconnecting⟩
  · exact ⟨sectionNames_apart "audio" (by simp [sectionNames]),fun _ _ _ _ inside => reconnectSettings_writes inert inside _,
      fun _ _ => (reconnectSettings_converges foreign _).weaken fun _ holds => holds.1,lasting_reconnecting⟩
  · exact ⟨sectionNames_apart "system" (by simp [sectionNames]),fun _ _ _ _ inside => systemSettings_writes inert inside,
      fun _ _ => (systemSettings_converges foreign).weaken fun _ holds => holds.1,lasting_system⟩
  · exact ⟨sectionNames_apart "weather" (by simp [sectionNames]),fun _ _ _ _ inside => validateRemoteSource_writes inert inside _ _,
      fun _ _ => (validateRemoteSource_converges foreign _ _).weaken fun _ holds => holds.1,lasting_remote⟩
  · exact ⟨sectionNames_apart "github" (by simp [sectionNames]),fun _ _ _ _ inside => githubSettings_writes inert inside,
      fun _ _ => (githubSettings_converges foreign).weaken fun _ holds => holds.1,lasting_github⟩

omit inert in
theorem serialisable_plain {w : World} {config a : Address} (data : Serialisable w (.table config))
    (reached : Reaches w (.table config) (.table a)) : w.metatable (.table a) = none := (data.sound _ reached).1

omit inert in
theorem linked_contains {w : World} {p b : Address} {name : String} (held : w.get p (nameKey name) = .table b) :
    Contains w (.table p) (.table b) := by
  have found : (w.table p).get (nameKey name) ≠ .nil := by
    intro absent
    cases absent.symm.trans held
  exact ⟨p,rfl,_,Table.mem_of_get found,held.symm⟩

omit inert in
theorem getD_within {values : List Value} {n : Nat} (all : ∀ v ∈ values, v.Within n) (i : Nat) :
    (values.getD i .nil).Within n := by
  rw [List.getD_eq_getElem?_getD]
  cases held : values[i]? with
  | none => exact .of_scalar rfl n
  | some v => exact all v (List.mem_of_getElem? held)

theorem settings_configure {config : Address} {w final : World} (closed : w.Closed) (inside : config < w.size)
    (done : settings foreign environment (.table config) w = .ok ((),final)) (data : Serialisable final (.table config)) :
    ∃ s, Configured config s final := by
  rw [settings_sections] at done
  obtain ⟨outer,first,ranOuter,more⟩ := bind_ok.mp done
  obtain ⟨sources,second,ranSources,ranCheck⟩ := bind_ok.mp more
  have lawfulOuter := outer_lawful inert environment
  have lawfulSources := source_lawful inert environment
  -- Forwards: what each part leaves alone, metatables or not.
  obtain ⟨keepsOuter,outerInside⟩ := runSections_writes inert lawfulOuter (show (Value.table config).Within _ from inside) w outer first closed
    (Nat.le_refl _) ranOuter
  obtain ⟨keepsSources,sourcesInside⟩ := runSections_writes inert lawfulSources (getD_within outerInside 1) first sources second
    keepsOuter.closed (Nat.le_refl _) ranSources
  obtain ⟨keepsCheck,_⟩ := checkWorkers_writes inert ((getD_within outerInside 0).mono keepsSources.size)
    (fun v member => sourcesInside v (List.mem_of_mem_eraseIdx member)) second () final keepsSources.closed (Nat.le_refl _)
    ranCheck
  have afterOuter := keepsSources.trans (keepsCheck.mono (List.nil_subset _))
  -- Backwards: the configuration is plain at the end, so it was all along.
  have here : Plain config w := by
    refine ⟨inside,?_⟩
    have before := keepsOuter.metatable (.table config) inside
    have after := afterOuter.metatable (.table config) (Nat.lt_of_lt_of_le inside keepsOuter.size)
    exact before.symm.trans (after.symm.trans (serialisable_plain data .refl))
  obtain ⟨steadyOuter,placed,rfl,outerPlaced⟩ := runSections_settle inert lawfulOuter (outer_distinct foreign environment)
    closed here ranOuter afterOuter (outer_apart foreign environment)
    (fun s _ b held => serialisable_plain data (.single (linked_contains held)))
  obtain ⟨runtime,_,placedRuntime,pastRuntime,rfl⟩ := List.forall₂_cons_left_iff.mp outerPlaced
  obtain ⟨parent,_,placedSources,pastSources,rfl⟩ := List.forall₂_cons_left_iff.mp pastRuntime
  obtain rfl := List.forall₂_nil_left_iff.mp pastSources
  have link : final.get config (nameKey "sources") = .table parent := by
    refine (afterOuter.get config placedSources.link.allocated (nameKey "sources") ?_).trans placedSources.link.holds
    exact outer_apart foreign environment _ (List.mem_cons_of_mem _ List.mem_cons_self)
  obtain ⟨steadySources,placed,rfl,placements⟩ := runSections_settle inert lawfulSources (source_distinct foreign environment)
    keepsOuter.closed placedSources.plain ranSources keepsCheck (fun _ _ _ none => (List.not_mem_nil none).elim)
    (fun s _ b held => serialisable_plain data (.tail (.single (linked_contains link)) (linked_contains held)))
  obtain ⟨hyprland,_,placedHyprland,pastHyprland,rfl⟩ := List.forall₂_cons_left_iff.mp placements
  obtain ⟨mpris,_,placedMpris,pastMpris,rfl⟩ := List.forall₂_cons_left_iff.mp pastHyprland
  obtain ⟨audio,_,placedAudio,pastAudio,rfl⟩ := List.forall₂_cons_left_iff.mp pastMpris
  obtain ⟨system,_,placedSystem,pastSystem,rfl⟩ := List.forall₂_cons_left_iff.mp pastAudio
  obtain ⟨weather,_,placedWeather,pastWeather,rfl⟩ := List.forall₂_cons_left_iff.mp pastSystem
  obtain ⟨github,_,placedGithub,pastGithub,rfl⟩ := List.forall₂_cons_left_iff.mp pastWeather
  obtain rfl := List.forall₂_nil_left_iff.mp pastGithub
  have runtimeLater := lasting_placed (lawfulOuter _ List.mem_cons_self) runtime first second steadySources placedRuntime
  have each : ∀ a ∈ [hyprland,mpris,audio,weather,github], Plain a second := by
    intro a member
    simp only [List.mem_cons,List.not_mem_nil,or_false] at member
    rcases member with rfl | rfl | rfl | rfl | rfl
    · exact placedHyprland.plain
    · exact placedMpris.plain
    · exact placedAudio.plain
    · exact placedWeather.plain
    · exact placedGithub.plain
  obtain ⟨steadyCheck,staffed⟩ := (checkWorkers_converges foreign runtime
    (by simp : [hyprland,mpris,audio,weather,github].length < 2^63)).establishes second final ⟨runtimeLater.plain,runtimeLater.post.1,each⟩ ranCheck
  have last : ∀ {s : Section}, s ∈ sourceSections foreign environment → ∀ {b}, Placed parent s b second →
      Placed parent s b final := fun listed _ placed => lasting_placed (lawfulSources _ listed) _ second final steadyCheck placed
  have runtimeFinal := lasting_placed (lawfulOuter _ List.mem_cons_self) runtime second final steadyCheck runtimeLater
  have hyprlandFinal := last (by simp [sourceSections]) placedHyprland
  have mprisFinal := last (by simp [sourceSections]) placedMpris
  have audioFinal := last (by simp [sourceSections]) placedAudio
  have systemFinal := last (by simp [sourceSections]) placedSystem
  have weatherFinal := last (by simp [sourceSections]) placedWeather
  have githubFinal := last (by simp [sourceSections]) placedGithub
  exact ⟨⟨runtime,parent,hyprland,mpris,audio,system,weather,github⟩,runtimeFinal.link,⟨runtimeFinal.link.allocated,link⟩,
    hyprlandFinal.link,mprisFinal.link,audioFinal.link,systemFinal.link,weatherFinal.link,githubFinal.link,
    runtimeFinal.post,hyprlandFinal.post,mprisFinal.post,audioFinal.post,systemFinal.post,weatherFinal.post,
    githubFinal.post,staffed,data⟩

-- A configuration that is in order is written as it stands.
theorem settings_rest {config : Address} {s : Sections} {w : World} (configured : Configured config s w) :
    settings foreign environment (.table config) w = .ok ((),w) := by
  obtain ⟨runtimeLink,sourcesLink,hyprlandLink,mprisLink,audioLink,systemLink,weatherLink,githubLink,runtime,hyprland,mpris,
    audio,system,weather,github,staffed,data⟩ := configured
  have under : ∀ {b name}, Linked config b name w → b < w.size → Plain b w := fun link allocated =>
    ⟨allocated,serialisable_plain data (.single (linked_contains link.holds))⟩
  have below : ∀ {b name}, Linked s.sources b name w → b < w.size → Plain b w := fun link allocated =>
    ⟨allocated,serialisable_plain data (.tail (.single (linked_contains sourcesLink.holds)) (linked_contains link.holds))⟩
  have plainRuntime := under runtimeLink runtime.1.allocated
  have plainHyprland := below hyprlandLink hyprland.1.1.allocated
  have plainMpris := below mprisLink mpris.1.allocated
  have plainAudio := below audioLink audio.1.allocated
  have plainWeather := below weatherLink weather.1.allocated
  have plainGithub := below githubLink github.1.1.allocated
  have outer := runSections_rest foreign (outer_lawful inert environment) (p := config) (w := w)
    ⟨runtimeLink.allocated,serialisable_plain data .refl⟩ (.cons ⟨plainRuntime,runtimeLink,runtime⟩
      (.cons ⟨under sourcesLink hyprlandLink.allocated,sourcesLink,trivial⟩ .nil))
  have sources := runSections_rest foreign (source_lawful inert environment) (p := s.sources) (w := w)
    (under sourcesLink hyprlandLink.allocated) (.cons ⟨plainHyprland,hyprlandLink,hyprland⟩
      (.cons ⟨plainMpris,mprisLink,mpris⟩ (.cons ⟨plainAudio,audioLink,audio⟩
      (.cons ⟨below systemLink system.1.allocated,systemLink,system⟩ (.cons ⟨plainWeather,weatherLink,weather⟩
      (.cons ⟨plainGithub,githubLink,github⟩ .nil))))))
  have each : ∀ a ∈ s.blocking, Plain a w := by
    intro a member
    simp only [Sections.blocking,List.mem_cons,List.not_mem_nil,or_false] at member
    rcases member with rfl | rfl | rfl | rfl | rfl
    · exact plainHyprland
    · exact plainMpris
    · exact plainAudio
    · exact plainWeather
    · exact plainGithub
  have few : s.blocking.length < 2^63 := by simp [Sections.blocking]
  rw [settings_sections,bind_eq outer]
  refine (bind_eq sources).trans ?_
  exact (checkWorkers_converges foreign s.runtime few).rests w ⟨plainRuntime,runtime.1,each⟩ staffed

end Loading

-- Metamethods that change no table see nothing changed under them either: what
-- is returned is in order, and loading it again leaves it as it is.
theorem load_configures {foreign : Foreign} (inert : foreign.Inert) (environment : Bytes → Option Bytes) (path : Bytes)
    (chunk : Chunk) :
    (∃ message, load foreign environment path (.returned chunk.value) chunk.world = .error message) ∨
      ∃ config s later, load foreign environment path (.returned chunk.value) chunk.world = .ok (.table config,later) ∧
        Configured config s later ∧
        load foreign environment path (.returned (.table config)) later = .ok (.table config,later) := by
  cases loaded : load foreign environment path (.returned chunk.value) chunk.world with
  | error message => exact .inl ⟨message,rfl⟩
  | ok result =>
    refine .inr ?_
    obtain ⟨w,value,closed,inside⟩ := chunk
    cases value with
    | table config =>
      simp only [load] at loaded
      obtain ⟨_,later,set,reading⟩ := bind_ok.mp loaded
      obtain ⟨_,_,got,validating⟩ := bind_ok.mp reading
      cases got
      obtain ⟨found,_,validated,returned⟩ := bind_ok.mp validating
      obtain ⟨checked,rfl⟩ := Program.lift_ok.mp validated
      cases returned
      obtain ⟨s,configured⟩ := settings_configure inert environment closed inside set (validateValue_serialisable checked)
      refine ⟨config,s,_,rfl,configured,?_⟩
      simp only [load]
      rw [bind_eq (settings_rest inert environment configured)]
      exact bind_ok.mpr ⟨_,_,rfl,bind_ok.mpr ⟨_,_,Program.lift_ok.mpr ⟨checked,rfl⟩,rfl⟩⟩
    | _ => cases loaded

-- A session in which Hyprland runs, and metamethods that do nothing.
def session : Bytes → Option Bytes := fun name =>
  if name = text "XDG_RUNTIME_DIR" then some (text "/run/user/1000")
  else if name = text "HYPRLAND_INSTANCE_SIGNATURE" then some (text "v0")
  else none

def idle : Foreign := ⟨fun _ _ => pure .nil⟩

theorem idle_inert : idle.Inert := ⟨fun _ _ _ _ _ => .pure (fun _ _ => trivial)⟩

def sharingChunk : Chunk where
  world := .listed [[(nameKey "runtime",.table 3),(nameKey "sources",.table 1)],
    [(nameKey "hyprland",.table 2),(nameKey "mpris",.table 2)],[(nameKey "enabled",.boolean true)],
    [(nameKey "workers",.integer 4)]]
  value := .table 0
  closed := World.listed_closed (by decide)
  inside := Nat.zero_lt_succ 3

-- Two sections in one table, with the default sockets.
theorem load_configures_sharing :
    ∃ config s later,
      load idle session (text "config.lua") (.returned sharingChunk.value) sharingChunk.world = .ok (.table config,later) ∧
        Configured config s later ∧
        load idle session (text "config.lua") (.returned (.table config)) later = .ok (.table config,later) := by
  rcases load_configures idle_inert session (text "config.lua") sharingChunk with ⟨message,failed⟩ | configured
  · have returned : (load idle session (text "config.lua") (.returned sharingChunk.value) sharingChunk.world).isOk = true := by
      decide +kernel
    rw [failed] at returned
    cases returned
  · exact configured

-- With Hyprland disabled nothing looks at its sockets.
def unusedSocketChunk : Chunk where
  world := .listed [[(nameKey "sources",.table 1)],[(nameKey "hyprland",.table 2)],
    [(nameKey "command_socket",.string (text "relative"))]]
  value := .table 0
  closed := World.listed_closed (by decide)
  inside := Nat.zero_lt_succ 2

-- A field of the last section is looked up by a function that takes its own
-- metatable away and writes to a section that was checked before.
def lateWorld : World :=
  { World.listed [[(nameKey "sources",.table 1)],[(nameKey "hyprland",.table 2),(nameKey "github",.table 3)],[],[],
      [(nameKey "__index",.other .function 0)]] with
    metatable := fun v => if v = .table 3 then some 4 else none }

def lateChunk : Chunk where
  world := lateWorld
  value := .table 0
  closed := by
    refine ⟨(World.listed_closed (by decide)).entries,?_,fun _ => trivial⟩
    intro v _ m held
    simp only [lateWorld] at held
    split at held
    · cases held
      exact Nat.lt_succ_self 4
    · cases held
  inside := Nat.zero_lt_succ 4

def rewriting : Foreign :=
  ⟨fun _ _ w => .ok (.nil,{ w.rawSet 2 (nameKey "reconnect_min_ms") (.string (text "late")) with metatable := fun _ => none })⟩

def fieldAt (w : World) (v : Value) : List String → Value
  | [] => v
  | name :: rest => fieldAt w (w.raw v (nameKey name)) rest

theorem unchecked_fields_returned :
    (load idle session (text "config.lua") (.returned unusedSocketChunk.value) unusedSocketChunk.world).toOption.map
        (fun r => fieldAt r.2 r.1 ["sources","hyprland","command_socket"]) = some (.string (text "relative")) ∧
      (load rewriting session (text "config.lua") (.returned lateChunk.value) lateChunk.world).toOption.map
        (fun r => fieldAt r.2 r.1 ["sources","hyprland","reconnect_min_ms"]) = some (.string (text "late")) :=
  ⟨by decide +kernel,by decide +kernel⟩

end Hypringo.ConfigValid

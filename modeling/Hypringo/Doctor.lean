import Hypringo.StateMerge

namespace Hypringo.Doctor
open Hypringo.Lua Hypringo.Configuration Json Document Constructor State StateMerge

inductive Source where
  | audio
  | github
  | hyprland
  | mpris
  | system
  | weather
  deriving DecidableEq, Repr

namespace Source

def name : Source → Bytes
  | .audio => text "audio"
  | .github => text "github"
  | .hyprland => text "hyprland"
  | .mpris => text "mpris"
  | .system => text "system"
  | .weather => text "weather"

def domain : Source → Domain
  | .audio => .audio
  | .github => .github
  | .hyprland => .hyprland
  | .mpris => .media
  | .system => .system
  | .weather => .weather

def enabled (config : Config) : Source → Bool
  | .audio => config.sources.audio.enabled
  | .github => config.sources.github.enabled
  | .hyprland => config.sources.hyprland.enabled
  | .mpris => config.sources.mpris.enabled
  | .system => config.sources.system.enabled
  | .weather => config.sources.weather.enabled

def all : List Source := [.audio,.github,.hyprland,.mpris,.system,.weather]

end Source

inductive Status where
  | disabled
  | ready
  | degraded
  deriving DecidableEq, Repr

def Status.text : Status → Bytes
  | .disabled => Lua.text "disabled"
  | .ready => Lua.text "ready"
  | .degraded => Lua.text "degraded"

def status (enabled operational : Bool) : Status :=
  if !enabled then .disabled else if operational then .ready else .degraded

-- v.name on a value of unknown type. A string is indexed through its methods,
-- none of which has a name asked for here.
def index (h : Heap) (v : Value) (name : Bytes) : Except Bytes Value :=
  match v with
  | .table a => .ok ((h.table a).get (.string name))
  | .string _ => .ok .nil
  | v => .error (text "attempt to index a " ++ v.typeName ++ text " value")

def either (v w : Value) : Value := if v.truthy then v else w

-- `enabled and v or w`
def whenEnabled (enabled : Bool) (v w : Value) : Value := if enabled then either v w else w

def member (name : Bytes) (v : Value) : List (Bytes × Built) := if v = .nil then [] else [(name,.value v)]

-- The right operand of `enabled and`, evaluated only when it is asked for.
def asked (enabled : Bool) (operand : Except Bytes Value) : Except Bytes Value := if enabled then operand else .ok .nil

def setCapability (h : Heap) (brightness : Value) : Except Bytes Value := do
  let capabilities ← index h brightness (text "capabilities")
  index h capabilities (text "set")

structure Health where
  status : Status
  built : Built

def systemHealth (enabled : Bool) (h : Heap) (domain : Table) : Except Bytes Health := do
  let available := domain.get (.string (text "available"))
  let error := domain.get (.string (text "error"))
  let health := status enabled (available.truthy && error.rawEqual empty)
  let battery ← asked enabled (index h (domain.get (.string (text "battery"))) (text "available"))
  let brightness ← asked enabled (index h (domain.get (.string (text "brightness"))) (text "available"))
  let set ← asked enabled (setCapability h (domain.get (.string (text "brightness"))))
  return ⟨health,.record
    [(text "available",.value (whenEnabled enabled available (flag false))),
     (text "battery_available",.value (whenEnabled enabled battery (flag false))),
     (text "brightness_available",.value (whenEnabled enabled brightness (flag false))),
     (text "capabilities",.record [(text "set_brightness",.value (whenEnabled enabled set (flag false)))]),
     (text "enabled",.value (flag enabled)),
     (text "error",.value (whenEnabled enabled error empty)),
     (text "status",.value (.string health.text))]⟩

def remoteHealth (enabled : Bool) (domain : Table) : Health :=
  let available := domain.get (.string (text "available"))
  let stale := domain.get (.string (text "stale"))
  let health := status enabled (available.truthy && !stale.truthy)
  ⟨health,.record
    [(text "available",.value (whenEnabled enabled available (flag false))),
     (text "capabilities",.record []),
     (text "enabled",.value (flag enabled)),
     (text "error",.value (whenEnabled enabled (domain.get (.string (text "error"))) empty)),
     (text "failures",.value (whenEnabled enabled (domain.get (.string (text "failures"))) zero)),
     (text "last_attempt_at",.value (whenEnabled enabled (domain.get (.string (text "last_attempt_at"))) zero)),
     (text "last_success_at",.value (whenEnabled enabled (domain.get (.string (text "last_success_at"))) zero)),
     (text "stale",.value (whenEnabled enabled stale (flag false))),
     (text "status",.value (.string health.text))]⟩

def connectedHealth (source : Source) (enabled : Bool) (domain : Table) : Health :=
  let available := domain.get (.string (text "available"))
  let connected :=
    if source = .hyprland then either available (domain.get (.string (text "connected")))
    else domain.get (.string (text "connected"))
  let health := status enabled (connected.truthy && (source = .mpris || available.truthy))
  ⟨health,.record
    ([(text "available",.value (whenEnabled enabled available (flag false)))] ++
     member (text "capabilities") (domain.get (.string (text "capabilities"))) ++
     [(text "connected",.value (whenEnabled enabled connected (flag false))),
      (text "enabled",.value (flag enabled)),
      (text "error",.value (whenEnabled enabled (domain.get (.string (text "error"))) empty)),
      (text "status",.value (.string health.text))])⟩

def sourceHealth (config : Config) (h : Heap) (state : Domain → Table) (source : Source) : Except Bytes Health :=
  match source with
  | .system => systemHealth (source.enabled config) h (state .system)
  | .github | .weather => .ok (remoteHealth (source.enabled config) (state source.domain))
  | .audio | .hyprland | .mpris => .ok (connectedHealth source (source.enabled config) (state source.domain))

-- `healthy and b` for a boolean b.
def narrow (healthy : Value) (b : Bool) : Value := if healthy.truthy then flag b else healthy

def build (s : Snapshot) (config : Config) (h : Heap) : Except Bytes Built := do
  let runtime := s.state .runtime
  let ready := runtime.get (.string (text "ready"))
  let reloadError := runtime.get (.string (text "last_reload_error"))
  let sources ← Source.all.mapM (sourceHealth config h s.state)
  let healthy := sources.foldl (fun healthy source => narrow healthy (source.status ≠ .degraded))
    (narrow ready (reloadError.rawEqual empty))
  return .record
    (member (text "healthy") healthy ++
     member (text "ready") ready ++
     [(text "revision",.value (.integer (Int64.ofInt s.revision))),
      (text "runtime",.record
        (member (text "config_generation") (runtime.get (.string (text "config_generation"))) ++
         member (text "config_path") (runtime.get (.string (text "config_path"))) ++
         member (text "last_reload_error") reloadError ++
         member (text "socket_path") (runtime.get (.string (text "socket_path"))) ++
         member (text "workers") (runtime.get (.string (text "workers"))))),
      (text "sources",.record ((Source.all.zip sources).map (fun pair => (pair.1.name,pair.2.built)))),
      (text "type",.value (.string (text "doctor")))])

theorem index_good {h : Heap} {room : Nat} {v w : Value} {name : Bytes} (closed : h.Closed) (plain : h.Plain)
    (good : Good (room+1) h v) (found : index h v name = .ok w) : Good room h w := by
  cases v with
  | table a =>
    cases found
    exact good.child closed plain _
  | string s =>
    cases found
    exact .nil room h
  | _ => cases found

theorem asked_good {h : Heap} {room : Nat} {enabled : Bool} {operand : Except Bytes Value} {v : Value}
    (found : asked enabled operand = .ok v) (good : operand = .ok v → Good room h v) : Good room h v := by
  unfold asked at found
  split at found
  · exact good found
  · cases found
    exact .nil room h

theorem value_whenEnabled {h : Heap} {room : Nat} (enabled : Bool) {v w : Value} (good : Good room h v)
    (fallback : leaf w = true) : (Built.value (whenEnabled enabled v w)).Ok h room := by
  have other := leaf_good fallback room h
  have present : w ≠ .nil := by
    intro absent
    simp [absent,leaf] at fallback
  unfold whenEnabled either
  split
  · split
    · rename_i truthy
      refine value_ok good ?_
      intro absent
      simp [absent,Value.truthy] at truthy
    · exact value_ok other present
  · exact value_ok other present

theorem value_leaf {h : Heap} {room : Nat} {v : Value} (ok : leaf v = true) : (Built.value v).Ok h room := by
  refine value_ok (leaf_good ok room h) ?_
  intro absent
  simp [absent,leaf] at ok

theorem member_ok {h : Heap} {room : Nat} {name : Bytes} {v : Value} (valid : validUtf8 name = true)
    (good : Good room h v) : FieldsOk h room (member name v) := by
  unfold member
  split
  · exact fieldsOk_nil h room
  · rename_i present
    exact fieldsOk_cons valid (value_ok good present) (fieldsOk_nil h room)

theorem member_names (name : Bytes) (v : Value) : ((member name v).map Prod.fst).Sublist [name] := by
  unfold member
  split
  · exact List.nil_sublist _
  · exact List.Sublist.refl _

theorem status_leaf (s : Status) : leaf (.string s.text) = true := by cases s <;> decide

-- What the system source asks of the values it looks into.
def Inspectable (config : Config) (h : Heap) (state : Domain → Table) : Prop :=
  ∃ health, sourceHealth config h state .system = .ok health

theorem systemHealth_ok {h : Heap} {room : Nat} {domain : Table} {enabled : Bool} {health : Health} (closed : h.Closed)
    (plain : h.Plain) (formed : Formed (room+2) h domain) (found : systemHealth enabled h domain = .ok health) :
    health.built.Ok h (room+3) := by
  obtain ⟨battery,batteryFound,found⟩ := Raise.bind_ok.mp found
  obtain ⟨brightness,brightnessFound,found⟩ := Raise.bind_ok.mp found
  obtain ⟨set,setFound,found⟩ := Raise.bind_ok.mp found
  cases found
  have field : ∀ name, Good (room+2) h (domain.get (.string name)) := fun name => formed.get (.string name)
  have capability : Good room h set := by
    apply asked_good setFound
    intro held
    obtain ⟨capabilities,outer,inner⟩ := Raise.bind_ok.mp held
    exact index_good closed plain (index_good closed plain (field _) outer) inner
  have batteryGood : Good (room+1) h battery := asked_good batteryFound (index_good closed plain (field _))
  have brightnessGood : Good (room+1) h brightness := asked_good brightnessFound (index_good closed plain (field _))
  refine record_ok (by simp only [List.map_cons,List.map_nil]; decide) ?_
  refine fieldsOk_cons (by decide) (value_whenEnabled enabled (field _) rfl) ?_
  refine fieldsOk_cons (by decide) (value_whenEnabled enabled (batteryGood.le (Nat.le_succ _)) rfl) ?_
  refine fieldsOk_cons (by decide) (value_whenEnabled enabled (brightnessGood.le (Nat.le_succ _)) rfl) ?_
  refine fieldsOk_cons (by decide) (record_ok (by simp only [List.map_cons,List.map_nil]; decide) (fieldsOk_cons (by decide)
    (value_whenEnabled enabled (capability.le (Nat.le_succ _)) rfl) (fieldsOk_nil h _))) ?_
  refine fieldsOk_cons (by decide) (value_leaf rfl) ?_
  refine fieldsOk_cons (by decide) (value_whenEnabled enabled (field _) rfl) ?_
  exact fieldsOk_cons (by decide) (value_leaf (status_leaf _)) (fieldsOk_nil h _)

theorem remoteHealth_ok {h : Heap} {room : Nat} {domain : Table} (enabled : Bool) (formed : Formed (room+1) h domain) :
    (remoteHealth enabled domain).built.Ok h (room+2) := by
  have field : ∀ name, Good (room+1) h (domain.get (.string name)) := fun name => formed.get (.string name)
  refine record_ok (by simp only [List.map_cons,List.map_nil]; decide) ?_
  refine fieldsOk_cons (by decide) (value_whenEnabled enabled (field _) rfl) ?_
  refine fieldsOk_cons (by decide) (record_ok (by decide) (fieldsOk_nil h room)) ?_
  refine fieldsOk_cons (by decide) (value_leaf rfl) ?_
  refine fieldsOk_cons (by decide) (value_whenEnabled enabled (field _) rfl) ?_
  refine fieldsOk_cons (by decide) (value_whenEnabled enabled (field _) rfl) ?_
  refine fieldsOk_cons (by decide) (value_whenEnabled enabled (field _) rfl) ?_
  refine fieldsOk_cons (by decide) (value_whenEnabled enabled (field _) rfl) ?_
  refine fieldsOk_cons (by decide) (value_whenEnabled enabled (field _) rfl) ?_
  exact fieldsOk_cons (by decide) (value_leaf (status_leaf _)) (fieldsOk_nil h _)

theorem connectedHealth_ok {h : Heap} {room : Nat} {domain : Table} (source : Source) (enabled : Bool)
    (formed : Formed room h domain) : (connectedHealth source enabled domain).built.Ok h (room+1) := by
  have field : ∀ name, Good room h (domain.get (.string name)) := fun name => formed.get (.string name)
  have connected : Good room h (if source = .hyprland then
      either (domain.get (.string (text "available"))) (domain.get (.string (text "connected")))
      else domain.get (.string (text "connected"))) := by
    split
    · unfold either
      split <;> exact field _
    · exact field _
  refine record_ok ?_ (fieldsOk_append (fieldsOk_append ?_ (member_ok (by decide) (field _))) ?_)
  · rw [List.map_append,List.map_append]
    refine List.Sublist.nodup (((List.Sublist.refl _).append (member_names _ _)).append (List.Sublist.refl _)) ?_
    simp only [List.map_cons,List.map_nil]
    decide
  · exact fieldsOk_cons (by decide) (value_whenEnabled enabled (field _) rfl) (fieldsOk_nil h _)
  · refine fieldsOk_cons (by decide) (value_whenEnabled enabled connected rfl) ?_
    refine fieldsOk_cons (by decide) (value_leaf rfl) ?_
    refine fieldsOk_cons (by decide) (value_whenEnabled enabled (field _) rfl) ?_
    exact fieldsOk_cons (by decide) (value_leaf (status_leaf _)) (fieldsOk_nil h _)

theorem sourceHealth_ok {room : Nat} {store : Store} {config : Config} {source : Source} {health : Health}
    (tidy : Tidy (room+2) store) (found : sourceHealth config store.heap store.snapshot.state source = .ok health) :
    health.built.Ok store.heap (room+3) := by
  cases source with
  | system => exact systemHealth_ok tidy.closed tidy.plain (tidy.formed .system) found
  | github =>
    cases found
    exact remoteHealth_ok _ (tidy.formed _)
  | weather =>
    cases found
    exact remoteHealth_ok _ (tidy.formed _)
  | audio =>
    cases found
    exact connectedHealth_ok _ _ (tidy.formed _)
  | hyprland =>
    cases found
    exact connectedHealth_ok _ _ (tidy.formed _)
  | mpris =>
    cases found
    exact connectedHealth_ok _ _ (tidy.formed _)

theorem narrow_good {h : Heap} {room : Nat} {v : Value} (good : Good room h v) (b : Bool) : Good room h (narrow v b) := by
  unfold narrow
  split
  · exact leaf_good rfl room h
  · exact good

theorem healthy_good {h : Heap} {room : Nat} (sources : List Health) {v : Value} (good : Good room h v) :
    Good room h (sources.foldl (fun healthy source => narrow healthy (source.status ≠ .degraded)) v) := by
  induction sources generalizing v with
  | nil => exact good
  | cons source rest ih => exact ih (narrow_good good _)

theorem sources_ok {h : Heap} {room : Nat} {sources : List Health} (each : ∀ health ∈ sources, health.built.Ok h room) :
    FieldsOk h room ((Source.all.zip sources).map (fun pair => (pair.1.name,pair.2.built))) := by
  rw [fieldsOk_iff]
  intro field listed
  obtain ⟨pair,member,rfl⟩ := List.mem_map.mp listed
  have parts := List.of_mem_zip member
  refine ⟨?_,each pair.2 parts.2⟩
  dsimp only
  cases pair.1 <;> decide

theorem sources_names {sources : List Health} (full : Source.all.length = sources.length) :
    (((Source.all.zip sources).map (fun pair => (pair.1.name,pair.2.built))).map Prod.fst).Nodup := by
  have names : ((Source.all.zip sources).map (fun pair => (pair.1.name,pair.2.built))).map Prod.fst =
      ((Source.all.zip sources).map Prod.fst).map Source.name := by
    simp [Function.comp_def]
  rw [names,List.map_fst_zip (Nat.le_of_eq full)]
  decide

theorem build_ok {room : Nat} {store : Store} {config : Config} (tidy : Tidy (room+2) store)
    (inspectable : Inspectable config store.heap store.snapshot.state) :
    ∃ built, build store.snapshot config store.heap = .ok built ∧ built.Ok store.heap (room+5) := by
  obtain ⟨sources,all⟩ : ∃ sources, Source.all.mapM (sourceHealth config store.heap store.snapshot.state) = .ok sources := by
    apply Raise.mapM_returns
    intro source _
    cases source with
    | system => exact inspectable
    | _ => exact ⟨_,rfl⟩
  have each : ∀ health ∈ sources, health.built.Ok store.heap (room+3) := by
    intro health listed
    obtain ⟨source,_,found⟩ := Raise.forall₂_right (Raise.mapM_ok.mp all) listed
    exact sourceHealth_ok tidy found
  have field : ∀ name, Good (room+2) store.heap ((store.snapshot.state .runtime).get (.string name)) :=
    fun name => (tidy.formed .runtime).get (.string name)
  have wide : ∀ {v}, Good (room+2) store.heap v → Good (room+4) store.heap v := fun good => good.le (by omega)
  refine ⟨_,by simp only [build,all,bind,Except.bind]; rfl,?_⟩
  refine record_ok ?_ (fieldsOk_append (fieldsOk_append ?_ ?_) ?_)
  · rw [List.map_append,List.map_append]
    refine List.Sublist.nodup (((member_names _ _).append (member_names _ _)).append (List.Sublist.refl _)) ?_
    simp only [List.map_cons,List.map_nil]
    decide
  · exact member_ok (by decide) (healthy_good sources (narrow_good (wide (field _)) _))
  · exact member_ok (by decide) (wide (field _))
  · refine fieldsOk_cons (by decide) (value_leaf rfl) ?_
    refine fieldsOk_cons (by decide) ?_ ?_
    · have narrow : ∀ {v}, Good (room+2) store.heap v → Good (room+3) store.heap v := fun good => good.le (by omega)
      refine record_ok ?_ (fieldsOk_append (fieldsOk_append (fieldsOk_append (fieldsOk_append
        (member_ok (by decide) (narrow (field _))) (member_ok (by decide) (narrow (field _))))
        (member_ok (by decide) (narrow (field _)))) (member_ok (by decide) (narrow (field _))))
        (member_ok (by decide) (narrow (field _))))
      simp only [List.map_append]
      refine List.Sublist.nodup (((((member_names _ _).append (member_names _ _)).append (member_names _ _)).append
        (member_names _ _)).append (member_names _ _)) ?_
      decide
    refine fieldsOk_cons (by decide) (record_ok (sources_names (Raise.mapM_ok.mp all).length_eq) (sources_ok each)) ?_
    exact fieldsOk_cons (by decide) (value_leaf rfl) (fieldsOk_nil _ _)

theorem index_extends {h later : Heap} (grown : h.Extends later) {v : Value} (inside : v.Within h.size) (name : Bytes) :
    index later v name = index h v name := by
  cases v with
  | table a => simp only [index,grown.table a inside]
  | _ => rfl

theorem systemHealth_extends {room : Nat} {h later : Heap} {domain : Table} (closed : h.Closed) (grown : h.Extends later)
    (formed : Formed room h domain) (enabled : Bool) :
    systemHealth enabled later domain = systemHealth enabled h domain := by
  have field : ∀ name, (domain.get (.string name)).Within h.size := fun name => (formed.get (.string name)).inside
  have inner : setCapability later (domain.get (.string (text "brightness"))) =
      setCapability h (domain.get (.string (text "brightness"))) := by
    unfold setCapability
    rw [index_extends grown (field _)]
    cases found : index h (domain.get (.string (text "brightness"))) (text "capabilities") with
    | error e => rfl
    | ok capabilities =>
      apply index_extends grown
      cases brightness : domain.get (.string (text "brightness")) with
      | table a =>
        rw [brightness] at found
        cases found
        have bound := field (text "brightness")
        rw [brightness] at bound
        exact Table.get_within _ (closed.entries a bound)
      | string s =>
        rw [brightness] at found
        cases found
        trivial
      | _ =>
        rw [brightness] at found
        cases found
  simp only [systemHealth,index_extends grown (field _),inner]

theorem build_extends {room : Nat} {store : Store} {later : Heap} (tidy : Tidy room store)
    (grown : store.heap.Extends later) (config : Config) :
    build store.snapshot config later = build store.snapshot config store.heap := by
  have sources : sourceHealth config later store.snapshot.state = sourceHealth config store.heap store.snapshot.state := by
    funext source
    cases source with
    | system => exact systemHealth_extends tidy.closed grown (tidy.formed .system) _
    | _ => rfl
  simp only [build,sources]

end Hypringo.Doctor

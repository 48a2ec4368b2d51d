import Hypringo.Doctor

namespace Hypringo.StateService
open Hypringo.Lua Hypringo.Configuration Json Document Constructor State StateMerge Doctor

-- What the control server holds after control.publish.
structure Payloads where
  snapshot : Bytes
  eww : Bytes
  doctor : Bytes

structure Service where
  store : Store
  config : Config
  payloads : Payloads

def newline : Bytes := [10]

def snapshotBuilt (s : Snapshot) : Built :=
  .record
    [(text "revision",.value (.integer (Int64.ofInt s.revision))),
     (text "state",stateBuilt s),
     (text "type",.value (.string (text "snapshot")))]

def publish (y : Yyjson) (store : Store) (config : Config) : Except Bytes Payloads := do
  let payload ← encodeBuilt y (snapshotBuilt store.snapshot) store.heap
  let ewwPayload ← encodeState y store
  let doctor ← build store.snapshot config store.heap
  let doctorPayload ← encodeBuilt y doctor store.heap
  return ⟨payload ++ newline,ewwPayload ++ newline,doctorPayload ++ newline⟩

-- S.merge. reload_failed is the same call on the runtime domain.
def serviceMerge (y : Yyjson) (service : Service) (domain : Bytes) (patch : Value) : Except Bytes Int × Service :=
  match merge service.store domain patch with
  | (.error message,store) => (.error message,{ service with store := store })
  | (.ok (changed,revision),store) =>
    if changed then match publish y store service.config with
      | .ok payloads => (.ok revision,⟨store,service.config,payloads⟩)
      | .error message => (.error message,{ service with store := store })
    else (.ok revision,{ service with store := store })

theorem serviceMerge_store (y : Yyjson) (service : Service) (name : Bytes) (patch : Value) :
    (serviceMerge y service name patch).2.store = (merge service.store name patch).2 := by
  unfold serviceMerge
  split
  · rename_i merged
    rw [merged]
  · rename_i merged
    rw [merged]
    split
    · split <;> rfl
    · rfl

-- The arguments of a call have been unpacked into the heap.
def receive (service : Service) (h : Heap) : Service := { service with store := ⟨service.store.snapshot,h⟩ }

-- Field values sit three tables down in the snapshot payload.
def payloadRoom : Nat := maxDepth - 3

def indexable : Value → Bool
  | .table _ | .string _ => true
  | _ => false

-- What doctor.build looks into when the system source is enabled.
structure Readable (h : Heap) (key value : Value) : Prop where
  battery : key = .string (text "battery") → indexable value = true
  brightness : key = .string (text "brightness") →
    ∃ a, value = .table a ∧ indexable ((h.table a).get (.string (text "capabilities"))) = true

-- The calls on which S.merge keeps its promise.
inductive Clean (config : Config) (store : Store) (name : Bytes) (p : Address) : Prop
  | unknown (unknown : Domain.parse name = none)
  | cyclic (domain : Domain) (known : Domain.parse name = some domain) (before after : List (Value × Value))
      (entry : Value × Value) (fields : (store.heap.table p).entries = before ++ entry :: after)
      (settled : ∀ other ∈ before, Holds store.heap domain other ((store.snapshot.state domain).get other.1))
      (unsettled : ¬Holds store.heap domain entry ((store.snapshot.state domain).get entry.1))
      (cyclic : ∀ n, ¬Bounded store.heap n entry.2)
  | storable (domain : Domain) (known : Domain.parse name = some domain)
      (each : ∀ entry ∈ (store.heap.table p).entries,
        Holds store.heap domain entry ((store.snapshot.state domain).get entry.1) ∨
        (Storable payloadRoom store.heap entry ∧
          (domain = .system → config.sources.system.enabled = true → Readable store.heap entry.1 entry.2)))

theorem Formed.le {room more : Nat} {h : Heap} {t : Table} (formed : Formed room h t) (le : room ≤ more) : Formed more h t :=
  ⟨formed.unmarked,formed.names,fun entry member => (formed.values entry member).le le⟩

theorem Tidy.le {room more : Nat} {store : Store} (tidy : Tidy room store) (le : room ≤ more) : Tidy more store :=
  ⟨tidy.closed,tidy.plain,fun domain => Formed.le (tidy.formed domain) le⟩

theorem snapshotBuilt_ok {store : Store} (tidy : Tidy payloadRoom store) :
    (snapshotBuilt store.snapshot).Ok store.heap maxDepth := by
  refine record_ok (by simp only [List.map_cons,List.map_nil]; decide) ?_
  refine fieldsOk_cons (by decide) (value_leaf rfl) ?_
  refine fieldsOk_cons (by decide) (stateBuilt_ok tidy) ?_
  exact fieldsOk_cons (by decide) (value_leaf rfl) (fieldsOk_nil _ _)

-- All three payloads can be written, and the texts do not depend on what else
-- the heap holds.
theorem publish_text (y : Yyjson) {store : Store} {config : Config} (tidy : Tidy payloadRoom store)
    (inspectable : Inspectable config store.heap store.snapshot.state) :
    ∃ payloads, ∀ later, store.heap.Extends later → later.Closed →
      publish y ⟨store.snapshot,later⟩ config = .ok payloads := by
  obtain ⟨payload,payloadText⟩ := encodeBuilt_text y tidy.closed (snapshotBuilt_ok tidy)
  have wide : Tidy (payloadRoom+1) store := Tidy.le tidy (Nat.le_succ _)
  obtain ⟨eww,ewwText⟩ := encodeBuilt_text y tidy.closed (stateBuilt_ok wide)
  obtain ⟨built,found,ok⟩ := build_ok tidy inspectable
  obtain ⟨doctor,doctorText⟩ := encodeBuilt_text y tidy.closed ok
  refine ⟨⟨payload ++ newline,eww ++ newline,doctor ++ newline⟩,?_⟩
  intro later grown closed
  have same := build_extends tidy grown config
  simp only [publish,encodeState,payloadText later grown closed,ewwText later grown closed,same,found,
    doctorText later grown closed,bind,Except.bind]
  rfl

theorem Readable.extends {h later : Heap} (grown : h.Extends later) {key value : Value} (inside : value.Within h.size)
    (readable : Readable h key value) : Readable later key value := by
  refine ⟨readable.battery,?_⟩
  intro named
  obtain ⟨a,rfl,found⟩ := readable.brightness named
  exact ⟨a,rfl,by rw [grown.table a inside]; exact found⟩

theorem indexable_same {h : Heap} {held value : Value} (same : Same h held value) (ok : indexable value = true) :
    indexable held = true := by
  cases same with
  | equal equal =>
    cases value with
    | table a =>
      rw [Value.rawEqual_table.mp equal]
      rfl
    | string s =>
      cases held with
      | string t => rfl
      | _ => simp [Value.rawEqual] at equal
    | _ => simp [indexable] at ok
  | table _ _ => rfl

theorem Readable.same {h : Heap} {key held value : Value} (same : Same h held value) (readable : Readable h key value) :
    Readable h key held := by
  refine ⟨fun named => indexable_same same (readable.battery named),?_⟩
  intro named
  obtain ⟨a,rfl,found⟩ := readable.brightness named
  cases same with
  | equal equal => exact ⟨a,Value.rawEqual_table.mp equal,found⟩
  | @table b _ _ each => exact ⟨b,rfl,indexable_same (each _) found⟩

def Inspected (config : Config) (store : Store) : Prop :=
  config.sources.system.enabled = true → ∀ key, Readable store.heap key ((store.snapshot.state .system).get key)

theorem index_returns (h : Heap) {v : Value} (ok : indexable v = true) (name : Bytes) : ∃ w, index h v name = .ok w := by
  cases v with
  | table a => exact ⟨_,rfl⟩
  | string s => exact ⟨_,rfl⟩
  | _ => simp [indexable] at ok

theorem asked_returns {enabled : Bool} {operand : Except Bytes Value} (ok : enabled = true → ∃ v, operand = .ok v) :
    ∃ v, asked enabled operand = .ok v := by
  unfold asked
  split
  · rename_i on
    exact ok on
  · exact ⟨_,rfl⟩

theorem Inspected.inspectable {config : Config} {store : Store} (inspected : Inspected config store) :
    Inspectable config store.heap store.snapshot.state := by
  have battery : ∃ v, asked config.sources.system.enabled
      (index store.heap ((store.snapshot.state .system).get (.string (text "battery"))) (text "available")) = .ok v := by
    apply asked_returns
    intro on
    exact index_returns store.heap ((inspected on (.string (text "battery"))).battery rfl) (text "available")
  have brightness : ∃ v, asked config.sources.system.enabled
      (index store.heap ((store.snapshot.state .system).get (.string (text "brightness"))) (text "available")) = .ok v := by
    apply asked_returns
    intro on
    obtain ⟨a,held,_⟩ := (inspected on (.string (text "brightness"))).brightness rfl
    rw [held]
    exact ⟨_,rfl⟩
  have capability : ∃ v, asked config.sources.system.enabled
      (setCapability store.heap ((store.snapshot.state .system).get (.string (text "brightness")))) = .ok v := by
    apply asked_returns
    intro on
    obtain ⟨a,held,found⟩ := (inspected on (.string (text "brightness"))).brightness rfl
    rw [held]
    exact index_returns store.heap found (text "set")
  obtain ⟨_,one⟩ := battery
  obtain ⟨_,two⟩ := brightness
  obtain ⟨_,three⟩ := capability
  exact ⟨_,Raise.bind_ok.mpr ⟨_,one,Raise.bind_ok.mpr ⟨_,two,Raise.bind_ok.mpr ⟨_,three,rfl⟩⟩⟩⟩

theorem Inspected.extends {config : Config} {store : Store} {later : Heap} (tidy : Tidy payloadRoom store)
    (grown : store.heap.Extends later) (inspected : Inspected config store) :
    Inspected config ⟨store.snapshot,later⟩ := by
  intro on key
  exact (inspected on key).extends grown ((tidy.formed .system).get key).inside

-- A merge of readable values leaves doctor.build something to read.
theorem Inspected.merged {config : Config} {store after : Store} {domain : Domain} {fields : List (Value × Value)}
    {changed : Bool} (tidy : Tidy payloadRoom store) (incoming : ∀ entry ∈ fields, Incoming store.heap entry)
    (outcome : Outcome payloadRoom store domain fields changed after)
    (each : ∀ entry ∈ fields, Holds store.heap domain entry ((store.snapshot.state domain).get entry.1) ∨
      (domain = .system → config.sources.system.enabled = true → Readable store.heap entry.1 entry.2))
    (inspected : Inspected config store) : Inspected config after := by
  intro on key
  have grown := outcome.merged.working.grown
  have old : Readable after.heap key ((store.snapshot.state .system).get key) :=
    (inspected on key).extends grown ((tidy.formed .system).get key).inside
  by_cases here : domain = .system
  · subst here
    by_cases listed : key ∈ fields.map Prod.fst
    · obtain ⟨entry,member,rfl⟩ := List.mem_map.mp listed
      rcases each entry member with settled | readable
      · rw [outcome.merged.kept entry member settled]
        exact old
      · have holds := outcome.merged.holds entry member
        simp only [Holds,arrayField,Bool.false_and,Bool.false_eq_true,if_false] at holds
        exact ((readable rfl on).extends grown (incoming entry member).inside).same holds
    · rw [outcome.merged.others key listed]
      exact old
  · rw [outcome.domains .system (fun same => here same.symm)]
    exact old

-- What holds of the service between calls.
structure Holding (y : Yyjson) (service : Service) : Prop where
  tidy : Tidy payloadRoom service.store
  inspected : Inspected service.config service.store
  published : publish y service.store service.config = .ok service.payloads

theorem Holding.receive {y : Yyjson} {service : Service} {h : Heap} {p : Address} (holding : Holding y service)
    (arrived : Arrived service.store.heap h p) : Holding y (receive service h) := by
  refine ⟨holding.tidy.arrived arrived,holding.inspected.extends holding.tidy arrived.grown,?_⟩
  obtain ⟨payloads,all⟩ := publish_text y holding.tidy holding.inspected.inspectable
  have before := all service.store.heap (.refl _) holding.tidy.closed
  have same := before.symm.trans holding.published
  cases same
  exact all h arrived.grown arrived.closed

-- A call either returns with the payloads of the new snapshot published, or
-- raises with the snapshot as it was.
inductive Kept (y : Yyjson) (before : Service) : Except Bytes Int × Service → Prop
  | returned (revision : Int) (after : Service)
      (published : publish y after.store after.config = .ok after.payloads) : Kept y before (.ok revision,after)
  | raised (message : Bytes) (after : Service) (unchanged : after.store.snapshot = before.store.snapshot) :
      Kept y before (.error message,after)

theorem serviceMerge_unknown (y : Yyjson) (service : Service) {name : Bytes} (unknown : Domain.parse name = none)
    (patch : Value) : ∃ message, serviceMerge y service name patch = (.error message,service) := by
  refine ⟨text "unknown state domain: " ++ name,?_⟩
  simp only [serviceMerge,merge,unknown]

theorem serviceMerge_storable {y : Yyjson} {service : Service} (domain : Domain) {p : Address} (holding : Holding y service)
    (incoming : ∀ entry ∈ (service.store.heap.table p).entries, Incoming service.store.heap entry)
    (each : ∀ entry ∈ (service.store.heap.table p).entries,
      Holds service.store.heap domain entry ((service.store.snapshot.state domain).get entry.1) ∨
      (Storable payloadRoom service.store.heap entry ∧
        (domain = .system → service.config.sources.system.enabled = true →
          Readable service.store.heap entry.1 entry.2))) :
    ∃ revision after, serviceMerge y service domain.name (.table p) = (.ok revision,after) ∧ Holding y after ∧
      after.config = service.config := by
  have admissible : Admissible payloadRoom service.store.heap domain (service.store.snapshot.state domain)
      (service.store.heap.table p).entries :=
    ⟨(service.store.heap.table p).distinct,incoming,fun entry member => (each entry member).imp id And.left⟩
  obtain ⟨changed,after,done,outcome⟩ := merge_outcome 252 domain holding.tidy admissible
  have inspected : Inspected service.config after := holding.inspected.merged holding.tidy incoming outcome
    (fun entry member => (each entry member).imp id And.right)
  obtain ⟨payloads,all⟩ := publish_text y outcome.tidy inspected.inspectable
  have here := all after.heap (.refl _) outcome.tidy.closed
  simp only [serviceMerge,done]
  cases changed with
  | true =>
    refine ⟨after.snapshot.revision,⟨after,service.config,payloads⟩,?_,⟨outcome.tidy,inspected,here⟩,rfl⟩
    rw [if_pos rfl,here]
  | false =>
    refine ⟨after.snapshot.revision,⟨after,service.config,service.payloads⟩,by simp,⟨outcome.tidy,inspected,?_⟩,rfl⟩
    obtain ⟨old,same⟩ := publish_text y holding.tidy holding.inspected.inspectable
    have before := (same service.store.heap (.refl _) holding.tidy.closed).symm.trans holding.published
    cases before
    have later := same after.heap outcome.merged.working.grown outcome.tidy.closed
    rw [← outcome.idle] at later
    exact later

theorem serviceMerge_cyclic {y : Yyjson} {service : Service} {domain : Domain} {p : Address} (holding : Holding y service)
    (incoming : ∀ entry ∈ (service.store.heap.table p).entries, Incoming service.store.heap entry)
    {before after : List (Value × Value)} {entry : Value × Value}
    (fields : (service.store.heap.table p).entries = before ++ entry :: after)
    (settled : ∀ other ∈ before, Holds service.store.heap domain other ((service.store.snapshot.state domain).get other.1))
    (unsettled : ¬Holds service.store.heap domain entry ((service.store.snapshot.state domain).get entry.1))
    (cyclic : ∀ n, ¬Bounded service.store.heap n entry.2) :
    ∃ message later, serviceMerge y service domain.name (.table p) = (.error message,receive service later) ∧
      Holding y (receive service later) := by
  rw [fields] at incoming
  obtain ⟨message,later,working,refused⟩ := mergeFields_cyclic holding.tidy.closed holding.tidy.plain
    (holding.tidy.formed domain) incoming settled unsettled cyclic
  rw [← fields] at refused
  have same : replace service.store.snapshot domain (service.store.snapshot.state domain) = service.store.snapshot := by
    unfold replace
    congr 1
    funext other
    by_cases here : other = domain
    · simp [here]
    · simp [here]
  refine ⟨message,later,?_,?_⟩
  · simp only [serviceMerge,merge,Domain.parse_name,refused,same,receive]
  · refine ⟨⟨working.closed,working.plain,fun other => (holding.tidy.formed other).extends holding.tidy.closed working.grown⟩,
      holding.inspected.extends holding.tidy working.grown,?_⟩
    obtain ⟨payloads,all⟩ := publish_text y holding.tidy holding.inspected.inspectable
    have before := (all service.store.heap (.refl _) holding.tidy.closed).symm.trans holding.published
    cases before
    exact all later working.grown working.closed

theorem publish_config {y : Yyjson} {store : Store} {current candidate : Config}
    (accepted : reloadable current candidate = .ok ()) : publish y store candidate = publish y store current := by
  obtain ⟨audio,github,hyprland,mpris,system,weather⟩ := reloadable_enabled accepted
  have sources : sourceHealth candidate store.heap store.snapshot.state = sourceHealth current store.heap store.snapshot.state := by
    funext source
    cases source <;> simp only [sourceHealth,Source.enabled,audio,github,hyprland,mpris,system,weather]
  simp only [publish,build,sources]

theorem Holding.reconfigured {y : Yyjson} {service : Service} {candidate : Config} (holding : Holding y service)
    (accepted : reloadable service.config candidate = .ok ()) : Holding y { service with config := candidate } := by
  refine ⟨holding.tidy,?_,(publish_config accepted).trans holding.published⟩
  intro on
  apply holding.inspected
  rw [(reloadable_enabled accepted).2.2.2.2.1]
  exact on

-- Every state the service can be in when all its calls are clean. A reload
-- that reaches its end swaps the configuration and merges the next generation.
inductive Reached (y : Yyjson) (configPath : Bytes) (config : Config) : Service → Prop
  | boot (payloads : Payloads) (published : publish y (new configPath config) config = .ok payloads) :
      Reached y configPath config ⟨new configPath config,config,payloads⟩
  | merge {service : Service} {h : Heap} {p : Address} (name : Bytes) (reached : Reached y configPath config service)
      (arrived : Arrived service.store.heap h p) (clean : Clean service.config (receive service h).store name p) :
      Reached y configPath config (serviceMerge y (receive service h) name (.table p)).2
  | reload {service : Service} {h : Heap} {p : Address} (candidate : Config) (generation : Value)
      (reached : Reached y configPath config service) (accepted : reloadable service.config candidate = .ok ())
      (next : ∀ i, (service.store.snapshot.state .runtime).get (.string (text "config_generation")) = .integer i →
        generation = .integer (i + 1))
      (arrived : Arrived service.store.heap h p)
      (patch : h.table p = .record [(text "config_generation",generation),(text "last_reload_error",empty)])
      (clean : Clean candidate (receive service h).store (text "runtime") p) :
      Reached y configPath config
        (serviceMerge y { receive service h with config := candidate } (text "runtime") (.table p)).2

theorem clean_kept {y : Yyjson} {service : Service} {h : Heap} {p : Address} {name : Bytes} (holding : Holding y service)
    (arrived : Arrived service.store.heap h p) (clean : Clean service.config (receive service h).store name p) :
    Kept y (receive service h) (serviceMerge y (receive service h) name (.table p)) ∧
      Holding y (serviceMerge y (receive service h) name (.table p)).2 := by
  have ready := holding.receive arrived
  cases clean with
  | unknown unknown =>
    obtain ⟨message,result⟩ := serviceMerge_unknown y (receive service h) unknown (.table p)
    rw [result]
    exact ⟨.raised message _ rfl,ready⟩
  | cyclic domain known before after entry fields settled unsettled cyclic =>
    obtain ⟨message,later,result,still⟩ := serviceMerge_cyclic ready arrived.incoming fields settled unsettled cyclic
    rw [Domain.name_of_parse known] at result
    rw [result]
    exact ⟨.raised message _ rfl,still⟩
  | storable domain known each =>
    obtain ⟨revision,after,result,still,_⟩ := serviceMerge_storable domain ready arrived.incoming each
    rw [Domain.name_of_parse known] at result
    rw [result]
    exact ⟨.returned revision after still.published,still⟩

theorem initial_inspected (configPath : Bytes) (config : Config) : Inspected config (new configPath config) := by
  intro _ key
  constructor
  · intro named
    subst named
    rfl
  · intro named
    subst named
    exact ⟨12,rfl,rfl⟩

theorem reached_holding {y : Yyjson} {configPath : Bytes} {config : Config} {service : Service}
    (bootable : Bootable configPath config) (reached : Reached y configPath config service) : Holding y service := by
  induction reached with
  | boot payloads published => exact ⟨initial_tidy bootable 251,initial_inspected configPath config,published⟩
  | merge name _ arrived clean ih => exact (clean_kept ih arrived clean).2
  | reload candidate generation _ accepted next arrived patch clean ih =>
    exact (clean_kept (ih.reconfigured accepted) arrived clean).2

-- Along every run of clean calls each of them keeps the promise, and a patch
-- that can be stored is merged and published whatever came before it.
theorem clean_run_kept (y : Yyjson) {configPath : Bytes} {config : Config} {service : Service} {h : Heap} {p : Address}
    {name : Bytes} (bootable : Bootable configPath config) (reached : Reached y configPath config service)
    (arrived : Arrived service.store.heap h p) (clean : Clean service.config (receive service h).store name p) :
    Kept y service (serviceMerge y (receive service h) name (.table p)) ∧
    ∀ domain, Domain.parse name = some domain →
      (∀ entry ∈ (h.table p).entries, Storable payloadRoom h entry ∧
        (domain = .system → service.config.sources.system.enabled = true → Readable h entry.1 entry.2)) →
      ∃ revision after, serviceMerge y (receive service h) name (.table p) = (.ok revision,after) := by
  have holding := reached_holding bootable reached
  constructor
  · have kept := (clean_kept holding arrived clean).1
    generalize serviceMerge y (receive service h) name (.table p) = result at kept ⊢
    cases kept with
    | returned revision after published => exact .returned revision after published
    | raised message after unchanged => exact .raised message after unchanged
  · intro domain known each
    obtain ⟨revision,after,result,_⟩ := serviceMerge_storable domain (holding.receive arrived) arrived.incoming
      (fun entry member => .inr (each entry member))
    rw [Domain.name_of_parse known] at result
    exact ⟨revision,after,result⟩

def bootConfig : Bytes := text "config.lua"

theorem boot_publishes : ∃ payloads, publish JsonText.reference (new bootConfig allSources) allSources = .ok payloads := by
  have tidy : Tidy payloadRoom (new bootConfig allSources) := initial_tidy ⟨by decide,by decide⟩ 251
  obtain ⟨payloads,all⟩ := publish_text JsonText.reference tidy (initial_inspected bootConfig allSources).inspectable
  exact ⟨payloads,all _ (.refl _) tidy.closed⟩

-- The state service, with nothing and then with a workspace in its store.
def booted (payloads : Payloads) : Service := ⟨new bootConfig allSources,allSources,payloads⟩

def showing (payloads : Payloads) : Service :=
  (serviceMerge JsonText.reference (receive (booted payloads) shownHeap) (text "hyprland") (.table 15)).2

theorem showing_store (payloads : Payloads) : (showing payloads).store = shown := by
  have given : (receive (booted payloads) shownHeap).store = ⟨(new bootConfig allSources).snapshot,shownHeap⟩ := rfl
  rw [showing,serviceMerge_store,given]
  rfl

theorem storable_clean {config : Config} {store : Store} {before : Heap} {p : Address}
    (delivered : Delivered payloadRoom before store.heap p) : Clean config store (text "hyprland") p := by
  refine .storable .hyprland (by decide) ?_
  intro entry member
  exact .inr ⟨delivered.storable entry member,by intro impossible; cases impossible⟩

theorem showing_reached {payloads : Payloads}
    (published : publish JsonText.reference (new bootConfig allSources) allSources = .ok payloads) :
    Reached JsonText.reference bootConfig allSources (showing payloads) :=
  .merge _ (.boot payloads published) (shown_delivered 251).toArrived (storable_clean (shown_delivered 251))

-- The list of workspaces arrives empty and another one is active.
theorem emptied_call_kept : ∃ payloads, publish JsonText.reference (new bootConfig allSources) allSources = .ok payloads ∧
    Kept JsonText.reference (showing payloads)
      (serviceMerge JsonText.reference (receive (showing payloads) emptiedHeap) (text "hyprland") (.table 20)) := by
  obtain ⟨payloads,published⟩ := boot_publishes
  have delivered : Delivered payloadRoom (showing payloads).store.heap emptiedHeap 20 := by
    rw [showing_store]
    exact emptied_delivered 251
  exact ⟨payloads,published,(clean_run_kept JsonText.reference ⟨by decide,by decide⟩ (showing_reached published)
    delivered.toArrived (storable_clean delivered)).1⟩

-- A title that is not UTF-8, and a good patch after it.
def titleHeap : Heap := (initialHeap allSources).alloc (.record [(text "title",.string [255])])
def retryHeap : Heap := titleHeap.alloc (.record [(text "ready",flag true)])

def mistitled : Store := (merge ⟨(new bootConfig allSources).snapshot,titleHeap⟩ (text "media") (.table 13)).2

theorem title_merged : merge ⟨(new bootConfig allSources).snapshot,titleHeap⟩ (text "media") (.table 13) =
    (.ok (true,1),mistitled) := by
  have result : (merge ⟨(new bootConfig allSources).snapshot,titleHeap⟩ (text "media") (.table 13)).1 = .ok (true,1) := by rfl
  rw [← result]
  rfl

theorem mistitled_refused : encodeBuilt JsonText.reference (snapshotBuilt mistitled.snapshot) mistitled.heap =
    .error (text "cannot encode JSON: invalid utf-8 encoding in string") := by rfl

def retried : Store := (merge ⟨mistitled.snapshot,retryHeap⟩ (text "runtime") (.table 14)).2

theorem retry_merged : merge ⟨mistitled.snapshot,retryHeap⟩ (text "runtime") (.table 14) = (.ok (true,2),retried) := by
  have result : (merge ⟨mistitled.snapshot,retryHeap⟩ (text "runtime") (.table 14)).1 = .ok (true,2) := by rfl
  rw [← result]
  rfl

theorem retried_refused : encodeBuilt JsonText.reference (snapshotBuilt retried.snapshot) retried.heap =
    .error (text "cannot encode JSON: invalid utf-8 encoding in string") := by rfl

theorem mistitled_media : (mistitled.snapshot.state .media).get (.string (text "title")) = .string [255] := by rfl

theorem bad_title_stays : ∃ payloads, publish JsonText.reference (new bootConfig allSources) allSources = .ok payloads ∧
    ¬Kept JsonText.reference ⟨new bootConfig allSources,allSources,payloads⟩
      (serviceMerge JsonText.reference (receive ⟨new bootConfig allSources,allSources,payloads⟩ titleHeap)
        (text "media") (.table 13)) ∧
    ∃ message, (serviceMerge JsonText.reference (receive (serviceMerge JsonText.reference
        (receive ⟨new bootConfig allSources,allSources,payloads⟩ titleHeap) (text "media") (.table 13)).2 retryHeap)
      (text "runtime") (.table 14)).1 = .error message := by
  obtain ⟨payloads,published⟩ := boot_publishes
  have first : serviceMerge JsonText.reference (receive ⟨new bootConfig allSources,allSources,payloads⟩ titleHeap)
      (text "media") (.table 13) =
      (.error (text "cannot encode JSON: invalid utf-8 encoding in string"),⟨mistitled,allSources,payloads⟩) := by
    simp only [serviceMerge,receive,title_merged,publish,mistitled_refused,bind,Except.bind,if_true]
  refine ⟨payloads,published,?_,?_⟩
  · rw [first]
    intro kept
    cases kept with
    | raised _ _ unchanged =>
      have title := congrArg (fun s : Snapshot => (s.state .media).get (.string (text "title"))) unchanged
      have fresh : ((new bootConfig allSources).snapshot.state .media).get (.string (text "title")) = empty := by rfl
      dsimp only at title
      rw [mistitled_media,fresh] at title
      exact absurd title (by decide)
  · rw [first]
    refine ⟨text "cannot encode JSON: invalid utf-8 encoding in string",?_⟩
    simp only [serviceMerge,receive,retry_merged,publish,retried_refused,bind,Except.bind,if_true]

end Hypringo.StateService

import Hypringo.StateService
import Hypringo.Runs

namespace Hypringo.Reload
open Hypringo.Lua Hypringo.Configuration Json State StateMerge Doctor StateService Runs

-- What a source service runs with: its own section of a configuration.
inductive Policy where
  | reconnecting (config : Reconnecting)
  | github (config : Github)
  | hyprland (config : Hyprland)
  | system (config : Configuration.System)
  | remote (config : Remote)
  deriving DecidableEq

def policy (sources : Sources) : Source → Policy
  | .audio => .reconnecting sources.audio
  | .github => .github sources.github
  | .hyprland => .hyprland sources.hyprland
  | .mpris => .reconnecting sources.mpris
  | .system => .system sources.system
  | .weather => .remote sources.weather

-- source_config = new_config.sources.<name>, the first thing every S.reload of
-- a source does.
def adopt (running candidate : Sources) : Source → Sources
  | .audio => { running with audio := candidate.audio }
  | .github => { running with github := candidate.github }
  | .hyprland => { running with hyprland := candidate.hyprland }
  | .mpris => { running with mpris := candidate.mpris }
  | .system => { running with system := candidate.system }
  | .weather => { running with weather := candidate.weather }

theorem policy_adopt (running candidate : Sources) (source other : Source) :
    policy (adopt running candidate source) other =
      if other = source then policy candidate other else policy running other := by
  cases source <;> cases other <;> rfl

def generationKey : Value := .string (text "config_generation")
def errorKey : Value := .string (text "last_reload_error")

def runtimeField (service : Service) (key : Value) : Value := (service.store.snapshot.state .runtime).get key

-- A patch S.reload builds itself: a fresh table of the state service.
def mergeRuntime (y : Yyjson) (service : Service) (fields : List (Bytes × Value)) : Except Bytes Int × Service :=
  serviceMerge y (receive service (service.store.heap.alloc (.record fields))) (text "runtime")
    (.table service.store.heap.size)

-- config_generation + 1. The field never holds anything but an integer, so the
-- other operands of the addition are not told apart.
def increment : Value → Except Bytes Value
  | .integer i => .ok (.integer (i+1))
  | _ => .error (text "attempt to perform arithmetic on field 'config_generation'")

-- What S.reload returns.
inductive Report where
  | reloaded (generation : Value)
  | failed (message : Bytes)

def reloadFailed (y : Yyjson) (service : Service) (message : Bytes) : Except Bytes Report × Service :=
  match mergeRuntime y service [(text "last_reload_error",.string message)] with
  | (.ok _,service) => (.ok (.failed message),service)
  | (.error raised,service) => (.error raised,service)

def commit (y : Yyjson) (service : Service) (candidate : Config) : Except Bytes Report × Service :=
  let service := { service with config := candidate }
  match increment (runtimeField service generationKey) with
  | .error raised => (.error raised,service)
  | .ok generation =>
    match mergeRuntime y service [(text "config_generation",generation),(text "last_reload_error",empty)] with
    | (.ok _,service) => (.ok (.reloaded (runtimeField service generationKey)),service)
    | (.error raised,service) => (.error raised,service)

-- One finished call of S.reload. It raises only where publish does, and may do
-- so on either side of the commit, so that is kept apart from the report.
structure Attempt where
  loaded : Option Config
  committed : Bool
  report : Except Bytes Report
  before : Config
  after : Config
  sourcesBefore : Sources
  sourcesAfter : Sources

-- S.reload suspended in the call of the first waiting source.
structure Pending where
  candidate : Config
  sourcesBefore : Sources
  called : List Source
  waiting : List Source

structure Process where
  service : Service
  running : Sources
  pending : Option Pending
  attempts : List Attempt

def conclude (p : Process) (loaded : Option Config) (committed : Bool) (sourcesBefore : Sources)
    (outcome : Except Bytes Report × Service) : Process :=
  { p with
    service := outcome.2
    pending := none
    attempts := ⟨loaded,committed,outcome.1,p.service.config,outcome.2.config,sourcesBefore,p.running⟩ :: p.attempts }

def proceed (y : Yyjson) (p : Process) (candidate : Config) (sourcesBefore : Sources) (called : List Source) :
    List Source → Process
  | [] => conclude p (some candidate) true sourcesBefore (commit y p.service candidate)
  | source :: rest => { p with pending := some ⟨candidate,sourcesBefore,called,source :: rest⟩ }

def start (y : Yyjson) (p : Process) (loaded : Except Bytes Config) : Process :=
  match loaded with
  | .error message => conclude p none false p.running (reloadFailed y p.service message)
  | .ok candidate =>
    match reloadable p.service.config candidate with
    | .error message => conclude p (some candidate) false p.running (reloadFailed y p.service message)
    | .ok () => proceed y p candidate p.running [] (Source.all.filter (Source.enabled candidate))

-- The outcome of pcall(ltask.call, service, "reload", candidate). A source that
-- cannot be reached has not taken the candidate, nor has one that declines it.
inductive Answer where
  | accepted
  | declined (message : Option Bytes)
  | raised (message : Bytes)

def Answer.complaint (source : Source) : Answer → Option Bytes
  | .accepted => none
  | .declined message => some (message.getD (text "cannot reload " ++ source.name ++ text " source"))
  | .raised message => some message

def resume (y : Yyjson) (p : Process) (pending : Pending) (answer : Answer) : Process :=
  match pending.waiting with
  | [] => p
  | source :: rest =>
    match answer.complaint source with
    | some message =>
      conclude p (some pending.candidate) false pending.sourcesBefore (reloadFailed y p.service message)
    | none =>
      proceed y { p with running := adopt p.running pending.candidate.sources source } pending.candidate
        pending.sourcesBefore (pending.called ++ [source]) rest

-- A call of S.merge brings its arguments into the heap.
inductive Event where
  | merge (domain : Bytes) (h : Heap) (patch : Value)
  | reload (loaded : Except Bytes Config)
  | answered (answer : Answer)

def apply (y : Yyjson) (p : Process) : Event → Process
  | .merge domain h patch => { p with service := (serviceMerge y (receive p.service h) domain patch).2 }
  | .reload loaded => start y p loaded
  | .answered answer =>
    match p.pending with
    | some pending => resume y p pending answer
    | none => p

-- The actions service calls reload from its only loop, so attempts follow one
-- another; an answer belongs to the call S.reload waits for.
def Turn (p : Process) : Event → Prop
  | .merge _ _ _ => True
  | .reload _ => p.pending = none
  | .answered _ => p.pending ≠ none

def boot (configPath : Bytes) (config : Config) (payloads : Payloads) : Process where
  service := ⟨new configPath config,config,payloads⟩
  running := config.sources
  pending := none
  attempts := []

def successes (attempts : List Attempt) : Nat := attempts.countP Attempt.committed

-- Newest first: the attempts after the last success, or all of them.
def failedSince (attempts : List Attempt) : List Attempt := attempts.takeWhile (fun attempt => !attempt.committed)

structure Attempt.Sound (attempt : Attempt) : Prop where
  kept : attempt.committed = false → attempt.after = attempt.before
  adopted : attempt.committed = true → attempt.loaded = some attempt.after
  reloaded : ∀ generation, attempt.report = .ok (.reloaded generation) → attempt.committed = true
  failed : ∀ message, attempt.report = .ok (.failed message) → attempt.committed = false

-- The attempts lead from the boot configuration to the one in use.
def History (boot : Config) : List Attempt → Config → Prop
  | [],config => config = boot
  | attempt :: older,config => config = attempt.after ∧ attempt.Sound ∧ History boot older attempt.before

-- What only a restart may change.
structure Topology (one other : Config) : Prop where
  workers : one.runtime.workers = other.runtime.workers
  socketPath : one.runtime.socketPath = other.runtime.socketPath
  enabled : ∀ source, Source.enabled one source = Source.enabled other source
  hyprland : one.sources.hyprland.enabled = true →
    one.sources.hyprland.commandSocket = other.sources.hyprland.commandSocket ∧
    one.sources.hyprland.eventSocket = other.sources.hyprland.eventSocket
  system : one.sources.system.enabled = true → one.sources.system.sysfsRoot = other.sources.system.sysfsRoot

structure Recorded (boot : Config) (p : Process) : Prop where
  generation : runtimeField p.service generationKey = .integer (Int64.ofNat (1 + successes p.attempts))
  error : ∃ message, runtimeField p.service errorKey = .string message ∧ (message = [] ↔ failedSince p.attempts = [])
  history : History boot p.attempts p.service.config
  topology : Topology boot p.service.config

theorem Topology.refl (config : Config) : Topology config config :=
  ⟨rfl,rfl,fun _ => rfl,fun _ => ⟨rfl,rfl⟩,fun _ => rfl⟩

theorem Topology.trans {first second third : Config} (one : Topology first second) (two : Topology second third) :
    Topology first third := by
  refine ⟨one.workers.trans two.workers,one.socketPath.trans two.socketPath,
    fun source => (one.enabled source).trans (two.enabled source),?_,?_⟩
  · intro on
    have sockets := one.hyprland on
    have more := two.hyprland ((one.enabled .hyprland).symm.trans on)
    exact ⟨sockets.1.trans more.1,sockets.2.trans more.2⟩
  · intro on
    exact (one.system on).trans (two.system ((one.enabled .system).symm.trans on))

-- M.reloadable compares with the configuration in use, not with the one at
-- boot; the agreement is chained.
theorem reloadable_topology {current candidate : Config} (accepted : reloadable current candidate = .ok ()) :
    Topology current candidate := by
  obtain ⟨audio,github,hyprland,mpris,system,weather⟩ := reloadable_enabled accepted
  have same : ∀ entry ∈ immutable current candidate, entry.same = true := by
    unfold reloadable at accepted
    split at accepted
    · cases accepted
    · rename_i none
      intro entry member
      simpa using List.find?_eq_none.mp none entry member
  refine ⟨?_,?_,?_,?_,?_⟩
  · simpa using same ⟨decide (current.runtime.workers = candidate.runtime.workers),text "runtime.workers"⟩
      (by simp [immutable])
  · simpa using same ⟨decide (current.runtime.socketPath = candidate.runtime.socketPath),text "runtime.socket_path"⟩
      (by simp [immutable])
  · intro source
    cases source with
    | audio => exact audio
    | github => exact github
    | hyprland => exact hyprland
    | mpris => exact mpris
    | system => exact system
    | weather => exact weather
  · intro on
    have other := hyprland.symm.trans on
    constructor
    · simpa using same ⟨decide (current.sources.hyprland.commandSocket = candidate.sources.hyprland.commandSocket),
        text "sources.hyprland.command_socket"⟩ (by simp [immutable,on,other])
    · simpa using same ⟨decide (current.sources.hyprland.eventSocket = candidate.sources.hyprland.eventSocket),
        text "sources.hyprland.event_socket"⟩ (by simp [immutable,on,other])
  · intro on
    have other := system.symm.trans on
    simpa using same ⟨decide (current.sources.system.sysfsRoot = candidate.sources.system.sysfsRoot),
      text "sources.system.sysfs_root"⟩ (by simp [immutable,on,other])

theorem serviceMerge_config (y : Yyjson) (service : Service) (domain : Bytes) (patch : Value) :
    (serviceMerge y service domain patch).2.config = service.config := by
  unfold serviceMerge
  split
  · rfl
  · split
    · split <;> rfl
    · rfl

-- The assignment M.merge makes for a value that is not a table.
def assign (target : Table) (key value : Value) : Table :=
  if (target.get key).rawEqual value then target else target.set key value

theorem reloadFailed_service (y : Yyjson) (service : Service) (message : Bytes) :
    (reloadFailed y service message).2 = (mergeRuntime y service [(text "last_reload_error",.string message)]).2 := by
  unfold reloadFailed
  split <;> simp_all

theorem reloadFailed_config (y : Yyjson) (service : Service) (message : Bytes) :
    (reloadFailed y service message).2.config = service.config := by
  rw [reloadFailed_service]
  exact serviceMerge_config y _ _ _

theorem reloadFailed_report (y : Yyjson) (service : Service) (message : Bytes) (generation : Value) :
    (reloadFailed y service message).1 ≠ .ok (.reloaded generation) := by
  unfold reloadFailed
  split <;> simp

theorem commit_config (y : Yyjson) (service : Service) (candidate : Config) :
    (commit y service candidate).2.config = candidate := by
  simp only [commit]
  split
  · rfl
  · rename_i generation _
    have kept := serviceMerge_config y (receive { service with config := candidate } (service.store.heap.alloc
      (.record [(text "config_generation",generation),(text "last_reload_error",empty)]))) (text "runtime")
      (.table service.store.heap.size)
    split
    · rename_i merged
      exact (congrArg (fun result => result.2.config) merged).symm.trans kept
    · rename_i merged
      exact (congrArg (fun result => result.2.config) merged).symm.trans kept

theorem commit_report (y : Yyjson) (service : Service) (candidate : Config) (message : Bytes) :
    (commit y service candidate).1 ≠ .ok (.failed message) := by
  simp only [commit]
  split
  · simp
  · split <;> simp

-- S.reload between two of its calls: the sources called so far run with the
-- candidate, the others with what they had.
structure InFlight (p : Process) (pending : Pending) : Prop where
  accepted : reloadable p.service.config pending.candidate = .ok ()
  order : pending.called ++ pending.waiting = Source.all.filter (Source.enabled pending.candidate)
  policies : ∀ source, policy p.running source =
    if source ∈ pending.called then policy pending.candidate.sources source else policy pending.sourcesBefore source

def Underway (p : Process) : Prop := ∀ pending, p.pending = some pending → InFlight p pending

theorem underway_idle {p : Process} (idle : p.pending = none) : Underway p := by
  intro pending found
  rw [idle] at found
  cases found

theorem proceed_underway (y : Yyjson) {p : Process} {candidate : Config} {sourcesBefore : Sources} {called waiting : List Source}
    (flight : InFlight p ⟨candidate,sourcesBefore,called,waiting⟩) :
    Underway (proceed y p candidate sourcesBefore called waiting) := by
  cases waiting with
  | nil => exact underway_idle rfl
  | cons source rest =>
    intro pending found
    cases found
    exact ⟨flight.accepted,flight.order,flight.policies⟩

theorem start_flight {p : Process} {candidate : Config} (accepted : reloadable p.service.config candidate = .ok ()) :
    InFlight p ⟨candidate,p.running,[],Source.all.filter (Source.enabled candidate)⟩ :=
  ⟨accepted,rfl,fun _ => rfl⟩

theorem InFlight.adopted {p : Process} {candidate : Config} {sourcesBefore : Sources} {called rest : List Source}
    {source : Source} (flight : InFlight p ⟨candidate,sourcesBefore,called,source :: rest⟩) :
    InFlight { p with running := adopt p.running candidate.sources source }
      ⟨candidate,sourcesBefore,called ++ [source],rest⟩ := by
  refine ⟨flight.accepted,by simpa using flight.order,?_⟩
  intro other
  change policy (adopt p.running candidate.sources source) other = _
  rw [policy_adopt]
  by_cases here : other = source
  · subst here
    simp
  · simpa [here] using flight.policies other

theorem step_underway (y : Yyjson) {p : Process} {event : Event} (underway : Underway p) : Underway (apply y p event) := by
  cases event with
  | merge domain h patch =>
    intro pending found
    have flight := underway pending found
    refine ⟨?_,flight.order,flight.policies⟩
    change reloadable (serviceMerge y (receive p.service h) domain patch).2.config pending.candidate = _
    rw [serviceMerge_config]
    exact flight.accepted
  | reload loaded =>
    cases loaded with
    | error message => exact underway_idle rfl
    | ok candidate =>
      cases accepted : reloadable p.service.config candidate with
      | error message =>
        simp only [apply,start,accepted]
        exact underway_idle rfl
      | ok _ =>
        simp only [apply,start,accepted]
        exact proceed_underway y (start_flight accepted)
  | answered answer =>
    cases found : p.pending with
    | none =>
      simp only [apply,found]
      exact underway
    | some pending =>
      have flight := underway pending found
      simp only [apply,found]
      obtain ⟨candidate,sourcesBefore,called,waiting⟩ := pending
      cases waiting with
      | nil => exact underway
      | cons source rest =>
        simp only [resume]
        cases answer.complaint source with
        | some message => exact underway_idle rfl
        | none => exact proceed_underway y flight.adopted

-- A candidate that reloads: only the audio source's reconnect policy differs.
def faster : Config :=
  { allSources with sources := { allSources.sources with audio := ⟨true,200,5000⟩ } }

theorem faster_started (y : Yyjson) (payloads : Payloads) :
    apply y (boot bootConfig allSources payloads) (.reload (.ok faster)) =
      { boot bootConfig allSources payloads with
        pending := some ⟨faster,allSources.sources,[],[.audio,.hyprland,.mpris,.system]⟩ } := by
  have accepted : reloadable allSources faster = .ok () := by decide
  have waiting : Source.all.filter (Source.enabled faster) = [.audio,.hyprland,.mpris,.system] := by decide
  simp only [apply,start,boot,accepted,waiting]
  rfl

-- What the sources ran with when no attempt was under way last.
def settled (p : Process) : Sources :=
  match p.pending with
  | some pending => pending.sourcesBefore
  | none => p.running

structure Attempt.Whole (attempt : Attempt) : Prop where
  failed : ∀ message, attempt.report = .ok (.failed message) → ∀ source,
    policy attempt.sourcesAfter source = policy attempt.sourcesBefore source
  reloaded : ∀ generation candidate, attempt.report = .ok (.reloaded generation) → attempt.loaded = some candidate →
    ∀ source, Source.enabled candidate source = true →
      policy attempt.sourcesAfter source = policy candidate.sources source

structure AllOrNothing (p : Process) : Prop where
  attempts : ∀ attempt ∈ p.attempts, attempt.Whole
  together : ∀ source, Source.enabled p.service.config source = true →
    policy (settled p) source = policy p.service.config.sources source

-- A source's call fails only where the sources called before it were handed
-- the section they already ran with.
def Harmless (p : Process) : Event → Prop
  | .answered answer => ∀ pending source rest, p.pending = some pending → pending.waiting = source :: rest →
      answer.complaint source ≠ none → ∀ earlier ∈ pending.called,
        policy pending.candidate.sources earlier = policy pending.sourcesBefore earlier
  | _ => True

theorem InFlight.complete {p : Process} {candidate : Config} {sourcesBefore : Sources} {called : List Source}
    (flight : InFlight p ⟨candidate,sourcesBefore,called,[]⟩) {source : Source}
    (enabled : Source.enabled candidate source = true) : policy p.running source = policy candidate.sources source := by
  have listed : source ∈ called := by
    have order := flight.order
    rw [List.append_nil] at order
    change called = _ at order
    rw [order,List.mem_filter]
    exact ⟨by cases source <;> decide,enabled⟩
  rw [flight.policies source]
  exact if_pos listed

theorem proceed_whole (y : Yyjson) {p : Process} {candidate : Config} {sourcesBefore : Sources} {called waiting : List Source}
    (attempts : ∀ attempt ∈ p.attempts, attempt.Whole)
    (together : ∀ source, Source.enabled p.service.config source = true →
      policy sourcesBefore source = policy p.service.config.sources source)
    (flight : InFlight p ⟨candidate,sourcesBefore,called,waiting⟩) :
    AllOrNothing (proceed y p candidate sourcesBefore called waiting) := by
  cases waiting with
  | nil =>
    constructor
    · intro attempt listed
      rcases List.mem_cons.mp listed with rfl | older
      · refine ⟨fun message returned => absurd returned (commit_report y _ _ message),?_⟩
        intro generation other _ loaded source enabled
        cases loaded
        exact flight.complete enabled
      · exact attempts attempt older
    · intro source
      change Source.enabled (commit y p.service candidate).2.config source = true →
        policy p.running source = policy (commit y p.service candidate).2.config.sources source
      rw [commit_config]
      exact flight.complete
  | cons source rest => exact ⟨attempts,together⟩

-- An attempt that fails is harmless exactly when the sources ended where they
-- began.
theorem refused_whole_iff (y : Yyjson) {p : Process} (loaded : Option Config) {sourcesBefore : Sources} (message : Bytes)
    (attempts : ∀ attempt ∈ p.attempts, attempt.Whole)
    (together : ∀ source, Source.enabled p.service.config source = true →
      policy sourcesBefore source = policy p.service.config.sources source)
    (disabled : ∀ source, Source.enabled p.service.config source = false →
      policy p.running source = policy sourcesBefore source) :
    AllOrNothing (conclude p loaded false sourcesBefore (reloadFailed y p.service message)) ↔
      ∀ source, policy p.running source = policy sourcesBefore source := by
  constructor
  · intro whole source
    cases enabled : Source.enabled p.service.config source with
    | false => exact disabled source enabled
    | true =>
      have after := whole.together source
      change Source.enabled (reloadFailed y p.service message).2.config source = true →
        policy p.running source = policy (reloadFailed y p.service message).2.config.sources source at after
      rw [reloadFailed_config] at after
      rw [after enabled,together source enabled]
  · intro same
    constructor
    · intro attempt listed
      rcases List.mem_cons.mp listed with rfl | older
      · exact ⟨fun _ _ => same,fun generation _ returned => absurd returned (reloadFailed_report y _ _ generation)⟩
      · exact attempts attempt older
    · intro source
      change Source.enabled (reloadFailed y p.service message).2.config source = true →
        policy p.running source = policy (reloadFailed y p.service message).2.config.sources source
      rw [reloadFailed_config,same]
      exact together source

theorem settled_idle {p : Process} (idle : p.pending = none) : settled p = p.running := by simp [settled,idle]

theorem settled_pending {p : Process} {pending : Pending} (found : p.pending = some pending) :
    settled p = pending.sourcesBefore := by simp [settled,found]

theorem merge_whole (y : Yyjson) {p : Process} (whole : AllOrNothing p) (domain : Bytes) (h : Heap) (patch : Value) :
    AllOrNothing (apply y p (.merge domain h patch)) := by
  refine ⟨whole.attempts,?_⟩
  change ∀ source, Source.enabled (serviceMerge y (receive p.service h) domain patch).2.config source = true →
    policy (settled p) source = policy (serviceMerge y (receive p.service h) domain patch).2.config.sources source
  rw [serviceMerge_config]
  exact whole.together

theorem start_whole (y : Yyjson) {p : Process} (idle : p.pending = none) (whole : AllOrNothing p)
    (loaded : Except Bytes Config) : AllOrNothing (start y p loaded) := by
  have together := whole.together
  rw [settled_idle idle] at together
  have refused : ∀ loaded message, AllOrNothing (conclude p loaded false p.running (reloadFailed y p.service message)) := by
    intro loaded message
    exact (refused_whole_iff y loaded message whole.attempts together (fun _ _ => rfl)).mpr (fun _ => rfl)
  cases loaded with
  | error message => exact refused none message
  | ok candidate =>
    cases accepted : reloadable p.service.config candidate with
    | error message =>
      simp only [start,accepted]
      exact refused (some candidate) message
    | ok _ =>
      simp only [start,accepted]
      exact proceed_whole y whole.attempts together (start_flight accepted)

-- The sources ended where they began exactly when those already called were
-- handed what they had.
theorem InFlight.unmoved_iff {p : Process} {pending : Pending} (flight : InFlight p pending) :
    (∀ source, policy p.running source = policy pending.sourcesBefore source) ↔
      ∀ earlier ∈ pending.called, policy pending.candidate.sources earlier = policy pending.sourcesBefore earlier := by
  constructor
  · intro same earlier called
    rw [← same earlier,flight.policies earlier,if_pos called]
  · intro same source
    rw [flight.policies source]
    by_cases called : source ∈ pending.called
    · rw [if_pos called]
      exact same source called
    · rw [if_neg called]

theorem InFlight.disabled {p : Process} {pending : Pending} (flight : InFlight p pending) {source : Source}
    (off : Source.enabled p.service.config source = false) :
    policy p.running source = policy pending.sourcesBefore source := by
  rw [flight.policies source]
  apply if_neg
  intro called
  have listed : source ∈ Source.all.filter (Source.enabled pending.candidate) := by
    rw [← flight.order]
    exact List.mem_append_left _ called
  have on := (List.mem_filter.mp listed).2
  rw [← (reloadable_topology flight.accepted).enabled source,off] at on
  cases on

theorem step_whole_iff (y : Yyjson) {p : Process} {event : Event} (underway : Underway p) (whole : AllOrNothing p)
    (turn : Turn p event) : AllOrNothing (apply y p event) ↔ Harmless p event := by
  cases event with
  | merge domain h patch => exact ⟨fun _ => trivial,fun _ => merge_whole y whole domain h patch⟩
  | reload loaded => exact ⟨fun _ => trivial,fun _ => start_whole y turn whole loaded⟩
  | answered answer =>
    cases found : p.pending with
    | none => exact absurd found turn
    | some pending =>
      have flight := underway pending found
      have together := whole.together
      rw [settled_pending found] at together
      simp only [apply,found,Harmless]
      obtain ⟨candidate,sourcesBefore,called,waiting⟩ := pending
      cases waiting with
      | nil =>
        constructor
        · intro _ pending source rest same waiting
          cases same
          cases waiting
        · exact fun _ => whole
      | cons source rest =>
        simp only [resume]
        cases told : answer.complaint source with
        | none =>
          constructor
          · intro _ pending other more same waiting complaint
            cases same
            cases waiting
            exact absurd told complaint
          · exact fun _ => proceed_whole y whole.attempts together flight.adopted
        | some message =>
          have ended := refused_whole_iff y (some candidate) message whole.attempts together
            (fun source off => flight.disabled off)
          refine ended.trans (flight.unmoved_iff.trans ?_)
          constructor
          · intro same pending other more known waiting _
            cases known
            exact same
          · intro harmless
            exact harmless _ source rest rfl rfl (by simp [told])

-- Each source adopts the candidate as it is called and nothing takes it back,
-- so an attempt is all or nothing only where a failure comes before any change.
theorem reload_run_whole_iff (y : Yyjson) (configPath : Bytes) (config : Config) (payloads : Payloads)
    (events : List Event) (turns : Each (apply y) Turn (boot configPath config payloads) events) :
    Throughout (apply y) AllOrNothing (boot configPath config payloads) events ↔
      Each (apply y) Harmless (boot configPath config payloads) events := by
  have start : AllOrNothing (boot configPath config payloads) := ⟨by simp [boot],fun _ _ => rfl⟩
  have flights : Throughout (apply y) Underway (boot configPath config payloads) events :=
    throughout_invariant (fun p event before _ => step_underway y before) (underway_idle rfl) turns
  have exact : Throughout (apply y) (fun p => Underway p ∧ AllOrNothing p) (boot configPath config payloads) events ↔
      Each (apply y) Harmless (boot configPath config payloads) events := throughout_iff_each
    (fun p event before turn => ⟨fun after => (step_whole_iff y before.1 before.2 turn).mp after.2,
      fun harmless => ⟨step_underway y before.1,(step_whole_iff y before.1 before.2 turn).mpr harmless⟩⟩)
    ⟨underway_idle rfl,start⟩ turns
  exact ⟨fun whole => exact.mp (throughout_and flights whole),
    fun harmless => throughout_imp (fun _ holds => holds.2) (exact.mpr harmless)⟩

def halfway : List Event := [.reload (.ok faster),.answered .accepted,.answered (.raised (text "hyprland has quit"))]

theorem halfway_turns (y : Yyjson) (payloads : Payloads) :
    Each (apply y) Turn (boot bootConfig allSources payloads) halfway := by
  refine ⟨rfl,?_⟩
  rw [faster_started]
  exact ⟨by simp [Turn],by simp [Turn,apply,resume,Answer.complaint,proceed],trivial⟩

theorem halfway_whole_iff : ∃ payloads, publish JsonText.reference (new bootConfig allSources) allSources = .ok payloads ∧
    (Throughout (apply JsonText.reference) AllOrNothing (boot bootConfig allSources payloads) halfway ↔
      Each (apply JsonText.reference) Harmless (boot bootConfig allSources payloads) halfway) := by
  obtain ⟨payloads,published⟩ := boot_publishes
  exact ⟨payloads,published,reload_run_whole_iff JsonText.reference bootConfig allSources payloads halfway
    (halfway_turns JsonText.reference payloads)⟩

-- The audio source has taken its new policy when the call of the next source
-- fails: the attempt reports failure and the policy stays.
theorem halfway_leaves_audio_changed : ∃ payloads,
    publish JsonText.reference (new bootConfig allSources) allSources = .ok payloads ∧
    Each (apply JsonText.reference) Turn (boot bootConfig allSources payloads) halfway ∧
    ¬Throughout (apply JsonText.reference) AllOrNothing (boot bootConfig allSources payloads) halfway := by
  obtain ⟨payloads,published⟩ := boot_publishes
  refine ⟨payloads,published,halfway_turns JsonText.reference payloads,?_⟩
  rintro ⟨-,all⟩
  rw [faster_started] at all
  have together := all.2.2.together .audio
  simp only [apply,resume,Answer.complaint,proceed,conclude,reloadFailed_config,settled] at together
  change Source.enabled allSources .audio = true →
    policy (adopt allSources.sources faster.sources .audio) .audio = policy allSources.sources .audio at together
  exact absurd (together (by decide)) (by decide)

end Hypringo.Reload

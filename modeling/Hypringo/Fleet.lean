import Hypringo.Dispatch
import Hypringo.Reload

namespace Hypringo.Fleet
open Hypringo.Lua Hypringo.Configuration Json StateMerge Doctor StateService Reload

-- The services runtime.start asks ltask to bring up.
inductive Service where
  | timer
  | logger
  | state
  | source (source : Source)
  | actions
  | main
  deriving DecidableEq, Repr

def Service.name : Service → Bytes
  | .timer => text "timer"
  | .logger => text "logger"
  | .state => text "state"
  | .source which => which.name
  | .actions => text "actions"
  | .main => text "main"

inductive Argument where
  | path (configPath : Bytes)
  | config (config : Config)
  deriving DecidableEq, Repr

structure Bootstrap where
  service : Service
  unique : Bool
  args : List Argument
  deriving DecidableEq, Repr

-- The order in which start tests the sources.
def startOrder : List Source := [.audio,.hyprland,.github,.mpris,.weather,.system]

def bootstrapServices (configPath : Bytes) (config : Config) : List Bootstrap :=
  [⟨.timer,true,[]⟩,⟨.logger,true,[]⟩,⟨.state,true,[.path configPath,.config config]⟩] ++
    (startOrder.filter (Source.enabled config)).map (fun source => ⟨.source source,true,[.config config]⟩) ++
      [⟨.actions,true,[.config config]⟩,⟨.main,false,[.path configPath,.config config]⟩]

-- build_service_loader: the services and modules whose sources it carries.
def serviceNames : List Bytes :=
  [text "actions",text "audio",text "github",text "hyprland",text "logger",text "main",text "mpris",text "root",
   text "state",text "system",text "timer",text "weather"]

def moduleNames : List Bytes :=
  [text "hypringo.actions",text "hypringo.config",text "hypringo.doctor",text "hypringo.hyprland",text "hypringo.remote",
   text "hypringo.state"]

-- The first column of scripts/embed.lua.
def embedded : List Bytes :=
  [text "ltask.bootstrap",text "ltask.service",text "service.logger",text "service.root",text "service.timer",
   text "hypringo.actions",text "hypringo.config",text "hypringo.doctor",text "hypringo.hyprland",text "hypringo.remote",
   text "hypringo.runtime",text "hypringo.state",text "service.actions",text "service.audio",text "service.github",
   text "service.hyprland",text "service.mpris",text "service.main",text "service.state",text "service.system",
   text "service.weather"]

-- hypringo_openlibs, and ltask itself.
def preloaded : List Bytes :=
  [text "hypringo.audio",text "hypringo.control",text "hypringo.system",text "hypringo.http",text "hypringo.ipc",
   text "hypringo.json",text "hypringo.mpris",text "ltask"]

def moduleRequires (module : Bytes) : List Bytes :=
  if module = text "hypringo.remote" ∨ module = text "hypringo.hyprland" ∨ module = text "hypringo.state" then
    [text "hypringo.json"]
  else []

-- What the chunk of a service requires; timer and logger are ltask's own.
def requires : Service → List Bytes
  | .timer | .logger => []
  | .state =>
    [text "ltask",text "hypringo.control",text "hypringo.config",text "hypringo.doctor",text "hypringo.json",
     text "hypringo.state"]
  | .source .audio => [text "hypringo.audio",text "hypringo.ipc",text "ltask"]
  | .source .github => [text "hypringo.http",text "hypringo.ipc",text "ltask",text "hypringo.remote"]
  | .source .hyprland => [text "ltask",text "hypringo.hyprland",text "hypringo.ipc",text "hypringo.json"]
  | .source .mpris => [text "hypringo.ipc",text "ltask",text "hypringo.mpris"]
  | .source .system => [text "ltask",text "hypringo.system"]
  | .source .weather => [text "hypringo.http",text "hypringo.ipc",text "ltask",text "hypringo.remote"]
  | .actions => [text "hypringo.actions",text "hypringo.control",text "ltask"]
  | .main => [text "ltask"]

-- The services a chunk queries while it is loaded.
def loadQueries : Service → List Service
  | .timer | .logger | .state => []
  | .source _ | .actions | .main => [.state]

-- The functions of the table S a chunk returns.
inductive Method where
  | snapshot
  | merge
  | reload
  | dispatch
  | status
  | quit
  deriving DecidableEq, Repr

def exports : Service → List Method
  | .timer | .logger => []
  | .state => [.snapshot,.merge,.reload,.quit]
  | .source .audio | .source .hyprland | .source .mpris | .source .system => [.dispatch,.status,.reload,.quit]
  | .source .github | .source .weather => [.status,.reload,.quit]
  | .actions => [.quit]
  | .main => [.status,.quit]

structure Message where
  sender : Service
  receiver : Service
  method : Method
  awaited : Bool
  deriving DecidableEq, Repr

-- What the loop of the actions service waits for.
inductive Busy where
  | free
  | requested
  | reloading
  | calling (service : Actions.Service)
  | ended (error : Bytes)
  deriving DecidableEq, Repr

-- config is what the actions service was started with; it is never replaced.
structure System where
  config : Config
  busy : Busy
  process : Process

def boot (configPath : Bytes) (config : Config) (payloads : Payloads) : System :=
  ⟨config,.free,Reload.boot configPath config payloads⟩

inductive Event where
  | command (command : Bytes) (reply : Actions.Reply)
  | replied
  | loaded (loaded : Except Bytes Config)
  | answered (answer : Answer)
  | sent (source : Source) (h : Heap) (patch : Value)
  | ready (h : Heap) (patch : Value)

def sourceOf : Actions.Service → Source
  | .hyprland => .hyprland
  | .mpris => .mpris
  | .audio => .audio
  | .system => .system

-- The first thing a command has the loop do, its reply apart.
def begun : Except Bytes (List Actions.Effect) → Busy
  | .error error => .ended error
  | .ok (.call service _ _ :: _) => .calling service
  | .ok (.reload :: _) => .requested
  | .ok _ => .free

def reloadBusy (process : Process) : Busy := if process.pending.isSome then .reloading else .free

section
variable (y : Yyjson)

-- The call of S.reload or of S.merge a step stands for.
def stateEvent : Event → Option Reload.Event
  | .loaded loaded => some (.reload loaded)
  | .answered answer => some (.answered answer)
  | .sent source h patch => some (.merge source.domain.name h patch)
  | .ready h patch => some (.merge (text "runtime") h patch)
  | _ => none

def processAfter (process : Process) (event : Event) : Process :=
  match stateEvent event with
  | some event => Reload.apply y process event
  | none => process

def busyAfter (s : System) : Event → Busy
  | .command command reply => begun (Actions.dispatch s.config reply command)
  | .replied => .free
  | .loaded loaded => reloadBusy (Reload.apply y s.process (.reload loaded))
  | .answered answer => reloadBusy (Reload.apply y s.process (.answered answer))
  | _ => s.busy

def apply (s : System) (event : Event) : System :=
  { s with busy := busyAfter y s event, process := processAfter y s.process event }

-- S.reload queries a source and calls it; it then waits in that call.
def reloadCall (process : Process) : List Message :=
  match process.pending with
  | some ⟨_,_,_,source :: _⟩ => [⟨.state,.source source,.reload,true⟩]
  | _ => []

def effectMessage : Actions.Effect → Option Message
  | .call service _ _ => some ⟨.actions,.source (sourceOf service),.dispatch,true⟩
  | .reload => some ⟨.actions,.state,.reload,true⟩
  | .log _ => none

def effectMessages : Except Bytes (List Actions.Effect) → List Message
  | .error _ => []
  | .ok effects => effects.filterMap effectMessage

def messages (s : System) : Event → List Message
  | .command command reply => effectMessages (Actions.dispatch s.config reply command)
  | .replied => []
  | .loaded loaded => reloadCall (Reload.apply y s.process (.reload loaded))
  | .answered answer => reloadCall (Reload.apply y s.process (.answered answer))
  | .sent source _ _ => [⟨.source source,.state,.merge,false⟩]
  | .ready _ _ => [⟨.main,.state,.merge,true⟩]

end

-- The loop takes its next command when the last one is done, a request reaches
-- S.reload once, and only a service that runs sends.
def Possible (s : System) : Event → Prop
  | .command _ _ => s.busy = .free
  | .replied => ∃ service, s.busy = .calling service
  | .loaded _ => s.busy = .requested
  | .answered _ => s.busy = .reloading
  | .sent source _ _ => Source.enabled s.config source = true
  | .ready _ _ => True

-- What a list of services to start has to provide for each of them: the code,
-- the modules it requires, and the services it queries while loading.
def Provided (module : Bytes) : Prop := module ∈ preloaded ∨ module ∈ moduleNames ∧ module ∈ embedded

instance (module : Bytes) : Decidable (Provided module) := inferInstanceAs (Decidable (_ ∨ _))

structure Startable (entries : List Bootstrap) : Prop where
  distinct : (entries.map fun entry => entry.service.name).Nodup
  code : ∀ entry ∈ entries, entry.service.name ∈ serviceNames ∧ text "service." ++ entry.service.name ∈ embedded
  modules : ∀ entry ∈ entries, ∀ module ∈ requires entry.service,
    Provided module ∧ ∀ inner ∈ moduleRequires module, Provided inner
  order : ∀ earlier entry later, entries = earlier ++ entry :: later →
    ∀ queried ∈ loadQueries entry.service, ∃ other ∈ earlier, other.service = queried ∧ other.unique = true

-- Every service there is, in the order of a configuration with all sources.
def everyService : List Service :=
  [.timer,.logger,.state] ++ startOrder.map .source ++ [.actions,.main]

theorem bootstrap_sublist (configPath : Bytes) (config : Config) :
    ((bootstrapServices configPath config).map Bootstrap.service).Sublist everyService := by
  have sources : ((startOrder.filter (Source.enabled config)).map Service.source).Sublist (startOrder.map .source) :=
    List.filter_sublist.map _
  simpa [bootstrapServices,everyService,Function.comp_def] using sources

theorem bootstrap_known {configPath : Bytes} {config : Config} {entry : Bootstrap}
    (listed : entry ∈ bootstrapServices configPath config) : entry.service ∈ everyService :=
  (bootstrap_sublist configPath config).subset (List.mem_map_of_mem listed)

theorem bootstrap_startable (configPath : Bytes) (config : Config) : Startable (bootstrapServices configPath config) where
  distinct := by
    have names := (bootstrap_sublist configPath config).map Service.name
    rw [List.map_map] at names
    exact names.nodup (by decide)
  code entry listed := by
    have all : ∀ service ∈ everyService, service.name ∈ serviceNames ∧ text "service." ++ service.name ∈ embedded := by decide
    exact all _ (bootstrap_known listed)
  modules entry listed := by
    have all : ∀ service ∈ everyService, ∀ module ∈ requires service,
        Provided module ∧ ∀ inner ∈ moduleRequires module, Provided inner := by decide
    exact all _ (bootstrap_known listed)
  order := by
    -- Only the first three query nothing, and the third is what the others query.
    intro earlier entry later split queried asked
    rcases earlier with _ | ⟨timer,_ | ⟨logger,_ | ⟨state,earlier⟩⟩⟩
    · obtain ⟨rfl,_⟩ := List.cons.inj split
      cases asked
    · obtain ⟨_,split⟩ := List.cons.inj split
      obtain ⟨rfl,_⟩ := List.cons.inj split
      cases asked
    · obtain ⟨_,split⟩ := List.cons.inj split
      obtain ⟨_,split⟩ := List.cons.inj split
      obtain ⟨rfl,_⟩ := List.cons.inj split
      cases asked
    · obtain ⟨_,split⟩ := List.cons.inj split
      obtain ⟨_,split⟩ := List.cons.inj split
      obtain ⟨rfl,_⟩ := List.cons.inj split
      refine ⟨⟨.state,true,[.path configPath,.config config]⟩,by simp,?_,rfl⟩
      cases known : entry.service <;> simp_all [loadQueries]

-- Callers stand above what they wait for.
def rank : Service → Nat
  | .actions | .main => 2
  | .state => 1
  | .timer | .logger | .source _ => 0

-- A message that arrives: both ends run, the receiver is found by its name and
-- has the function, and nobody waits in a circle.
structure Lands (configPath : Bytes) (config : Config) (message : Message) : Prop where
  sender : ∃ entry ∈ bootstrapServices configPath config, entry.service = message.sender
  receiver : ∃ entry ∈ bootstrapServices configPath config, entry.service = message.receiver ∧ entry.unique = true
  method : message.method ∈ exports message.receiver
  descends : message.awaited = true → rank message.receiver < rank message.sender

section
variable {configPath : Bytes} {config : Config}

theorem state_started : ∃ entry ∈ bootstrapServices configPath config, entry.service = .state ∧ entry.unique = true :=
  ⟨⟨.state,true,[.path configPath,.config config]⟩,by simp [bootstrapServices],rfl,rfl⟩

theorem actions_started : ∃ entry ∈ bootstrapServices configPath config, entry.service = .actions :=
  ⟨⟨.actions,true,[.config config]⟩,by simp [bootstrapServices],rfl⟩

theorem source_started {source : Source} (on : Source.enabled config source = true) :
    ∃ entry ∈ bootstrapServices configPath config, entry.service = .source source ∧ entry.unique = true := by
  have ordered : source ∈ startOrder := by cases source <;> decide
  refine ⟨⟨.source source,true,[.config config]⟩,?_,rfl,rfl⟩
  simp [bootstrapServices,ordered,on]

theorem reload_lands {source : Source} (on : Source.enabled config source = true) :
    Lands configPath config ⟨.state,.source source,.reload,true⟩ where
  sender := state_started.imp fun _ found => ⟨found.1,found.2.1⟩
  receiver := source_started on
  method := by cases source <;> decide
  descends _ := Nat.zero_lt_one

theorem dispatch_lands {service : Actions.Service} (on : Source.enabled config (sourceOf service) = true) :
    Lands configPath config ⟨.actions,.source (sourceOf service),.dispatch,true⟩ where
  sender := actions_started
  receiver := source_started on
  method := by cases service <;> decide
  descends _ := Nat.zero_lt_two

theorem request_lands : Lands configPath config ⟨.actions,.state,.reload,true⟩ :=
  ⟨actions_started,state_started,by decide,fun _ => Nat.one_lt_two⟩

theorem sent_lands {source : Source} (on : Source.enabled config source = true) :
    Lands configPath config ⟨.source source,.state,.merge,false⟩ where
  sender := (source_started on).imp fun _ found => ⟨found.1,found.2.1⟩
  receiver := state_started
  method := List.mem_of_elem_eq_true rfl
  descends awaited := by cases awaited

theorem ready_lands : Lands configPath config ⟨.main,.state,.merge,true⟩ where
  sender := ⟨⟨.main,false,[.path configPath,.config config]⟩,by simp [bootstrapServices],rfl⟩
  receiver := state_started
  method := by decide
  descends _ := Nat.one_lt_two

end

theorem logged_silent (reply : Actions.Reply) (subject : Bytes) :
    (reply.logged subject).filterMap effectMessage = [] := by
  unfold Actions.Reply.logged
  split <;> rfl

theorem called_messages (service : Actions.Service) (action : Actions.Action) (reply : Actions.Reply) :
    effectMessages (.ok (Actions.callService service action reply)) =
      [⟨.actions,.source (sourceOf service),.dispatch,true⟩] := by
  simp only [effectMessages,Actions.callService,List.filterMap_cons,effectMessage,logged_silent]

theorem gated_messages {on : Bool} {parts : List Bytes} {service : Actions.Service} {action : Actions.Action}
    {reply : Actions.Reply} {message : Message}
    (sent : message ∈ effectMessages (if !on then pure [.log parts] else pure (Actions.callService service action reply))) :
    on = true ∧ message = ⟨.actions,.source (sourceOf service),.dispatch,true⟩ := by
  cases on with
  | true =>
    rw [if_neg (by simp)] at sent
    exact ⟨rfl,List.mem_singleton.mp (called_messages service action reply ▸ sent)⟩
  | false => cases sent

-- A command goes to the state service or to a source that is enabled, and
-- nowhere else.
theorem dispatch_messages {config : Config} {reply : Actions.Reply} {command : Bytes} {message : Message}
    (sent : message ∈ effectMessages (Actions.dispatch config reply command)) :
    message = ⟨.actions,.state,.reload,true⟩ ∨
      ∃ service, Source.enabled config (sourceOf service) = true ∧
        message = ⟨.actions,.source (sourceOf service),.dispatch,true⟩ := by
  by_cases named : command = text "reload"
  · left
    simp only [Actions.dispatch,named,if_true,pure,Except.pure,effectMessages,List.filterMap_cons,effectMessage,
      logged_silent,List.mem_singleton] at sent
    exact sent
  · right
    cases parsed : Actions.parse (.string command) with
    | error error =>
      simp only [Actions.dispatch,named,if_false,parsed,bind,Except.bind,effectMessages] at sent
      cases sent
    | ok outcome =>
      cases outcome with
      | error refused =>
        simp only [Actions.dispatch,named,if_false,parsed,bind,Except.bind,pure,Except.pure,effectMessages,
          List.filterMap_cons,effectMessage,List.filterMap_nil] at sent
        cases sent
      | ok action =>
        simp only [Actions.dispatch,named,if_false,parsed,bind,Except.bind] at sent
        cases domain : action.domain with
        | workspace =>
          rw [domain] at sent
          obtain ⟨on,same⟩ := gated_messages sent
          exact ⟨.hyprland,on,same⟩
        | media =>
          rw [domain] at sent
          obtain ⟨on,same⟩ := gated_messages sent
          exact ⟨.mpris,on,same⟩
        | audio =>
          rw [domain] at sent
          obtain ⟨on,same⟩ := gated_messages sent
          exact ⟨.audio,on,same⟩
        | brightness =>
          rw [domain] at sent
          obtain ⟨on,same⟩ := gated_messages sent
          exact ⟨.system,on,same⟩

-- Which sources a reload calls was settled at boot, and the loop of the actions
-- service waits exactly as long as S.reload does.
structure Invariant (config : Config) (s : System) : Prop where
  started : s.config = config
  underway : Underway s.process
  topology : Topology config s.process.service.config
  waits : s.busy = .reloading ↔ s.process.pending.isSome = true

theorem proceed_topology (y : Yyjson) {origin : Config} {p : Process} {candidate : Config} {sourcesBefore : Sources}
    {called waiting : List Source} (topology : Topology origin p.service.config)
    (accepted : reloadable p.service.config candidate = .ok ()) :
    Topology origin (proceed y p candidate sourcesBefore called waiting).service.config := by
  cases waiting with
  | nil =>
    change Topology origin (commit y p.service candidate).2.config
    rw [commit_config]
    exact topology.trans (reloadable_topology accepted)
  | cons source rest => exact topology

theorem step_topology (y : Yyjson) {origin : Config} {p : Process} (event : Reload.Event) (underway : Underway p)
    (topology : Topology origin p.service.config) : Topology origin (Reload.apply y p event).service.config := by
  have refused : ∀ message, Topology origin (reloadFailed y p.service message).2.config := by
    intro message
    rw [reloadFailed_config]
    exact topology
  cases event with
  | merge domain h patch =>
    change Topology origin (serviceMerge y (receive p.service h) domain patch).2.config
    rw [serviceMerge_config]
    exact topology
  | reload loaded =>
    cases loaded with
    | error message => exact refused message
    | ok candidate =>
      cases accepted : reloadable p.service.config candidate with
      | error message =>
        simp only [Reload.apply,Reload.start,accepted]
        exact refused message
      | ok _ =>
        simp only [Reload.apply,Reload.start,accepted]
        exact proceed_topology y topology accepted
  | answered answer =>
    cases found : p.pending with
    | none =>
      simp only [Reload.apply,found]
      exact topology
    | some pending =>
      have flight := underway pending found
      simp only [Reload.apply,found]
      obtain ⟨candidate,sourcesBefore,called,waiting⟩ := pending
      cases waiting with
      | nil => exact topology
      | cons source rest =>
        simp only [resume]
        cases answer.complaint source with
        | some message => exact refused message
        | none =>
          exact proceed_topology y (p := { p with running := adopt p.running candidate.sources source }) topology
            flight.accepted

theorem reloadBusy_waits (process : Process) : reloadBusy process = .reloading ↔ process.pending.isSome = true := by
  unfold reloadBusy
  split <;> simp_all

theorem begun_waits (outcome : Except Bytes (List Actions.Effect)) : begun outcome ≠ .reloading := by
  unfold begun
  split <;> simp

theorem apply_invariant (y : Yyjson) {config : Config} {s : System} {event : Event} (invariant : Invariant config s)
    (possible : Possible s event) : Invariant config (apply y s event) := by
  obtain ⟨same,underway,topology,waits⟩ := invariant
  have idle : s.busy ≠ .reloading → s.process.pending.isSome ≠ true := fun other some => other (waits.mpr some)
  cases event with
  | command command reply =>
    have free : s.busy = .free := possible
    refine ⟨same,underway,topology,?_⟩
    exact iff_of_false (begun_waits _) (idle (by simp [free]))
  | replied =>
    obtain ⟨service,calling⟩ := possible
    exact ⟨same,underway,topology,iff_of_false (by simp [apply,busyAfter]) (idle (by simp [calling]))⟩
  | loaded loaded =>
    exact ⟨same,step_underway y underway,step_topology y _ underway topology,reloadBusy_waits _⟩
  | answered answer =>
    exact ⟨same,step_underway y underway,step_topology y _ underway topology,reloadBusy_waits _⟩
  | sent source h patch => exact ⟨same,step_underway y underway,step_topology y _ underway topology,waits⟩
  | ready h patch => exact ⟨same,step_underway y underway,step_topology y _ underway topology,waits⟩

-- A source S.reload calls is one it has found enabled in a candidate that keeps
-- the flags of the boot configuration.
theorem reloadCall_lands {configPath : Bytes} {config : Config} {p : Process} (underway : Underway p)
    (topology : Topology config p.service.config) : ∀ message ∈ reloadCall p, Lands configPath config message := by
  intro message listed
  unfold reloadCall at listed
  split at listed
  · rename_i candidate sourcesBefore called source rest found
    obtain ⟨accepted,order,_⟩ := underway _ found
    have waiting : source ∈ Source.all.filter (Source.enabled candidate) := by
      rw [← order]
      simp
    have on : Source.enabled config source = true := by
      rw [topology.enabled source,(reloadable_topology accepted).enabled source]
      exact (List.mem_filter.mp waiting).2
    rw [List.mem_singleton.mp listed]
    exact reload_lands on
  · cases listed

theorem messages_land (y : Yyjson) (configPath : Bytes) {config : Config} {s : System} {event : Event}
    (invariant : Invariant config s) (possible : Possible s event) :
    ∀ message ∈ messages y s event, Lands configPath config message := by
  obtain ⟨rfl,underway,topology,_⟩ := invariant
  intro message listed
  cases event with
  | command command reply =>
    rcases dispatch_messages listed with rfl | ⟨service,on,rfl⟩
    · exact request_lands
    · exact dispatch_lands on
  | replied => cases listed
  | loaded loaded => exact reloadCall_lands (step_underway y underway) (step_topology y _ underway topology) message listed
  | answered answer => exact reloadCall_lands (step_underway y underway) (step_topology y _ underway topology) message listed
  | sent source h patch =>
    rw [List.mem_singleton.mp listed]
    exact sent_lands possible
  | ready h patch =>
    rw [List.mem_singleton.mp listed]
    exact ready_lands

theorem state_turn {config : Config} {s : System} {event : Event} (invariant : Invariant config s)
    (possible : Possible s event) {call : Reload.Event} (stands : stateEvent event = some call) : Turn s.process call := by
  have waits := invariant.waits
  cases event with
  | loaded loaded =>
    cases stands
    have asked : s.busy = .requested := possible
    change s.process.pending = none
    simpa [asked] using waits
  | answered answer =>
    cases stands
    have asked : s.busy = .reloading := possible
    change s.process.pending ≠ none
    exact Option.isSome_iff_ne_none.mp (waits.mp asked)
  | sent source h patch =>
    cases stands
    trivial
  | ready h patch =>
    cases stands
    trivial
  | command command reply => cases stands
  | replied => cases stands

-- Whatever is dispatched, reloaded and merged, and however it interleaves, no
-- service speaks to one that does not run or lacks the function, none waits for
-- another that may wait for it, and S.reload is never entered twice.
theorem fleet_run_sound (y : Yyjson) (configPath : Bytes) (config : Config) (payloads : Payloads) (events : List Event)
    (possible : Runs.Each (apply y) Possible (boot configPath config payloads) events) :
    Startable (bootstrapServices configPath config) ∧
      Runs.Each (apply y) (fun s event => (∀ message ∈ messages y s event, Lands configPath config message) ∧
        ∀ call, stateEvent event = some call → Turn s.process call) (boot configPath config payloads) events := by
  have begin : Invariant config (boot configPath config payloads) :=
    ⟨rfl,underway_idle rfl,.refl config,by simp [boot,Reload.boot]⟩
  exact ⟨bootstrap_startable configPath config,Runs.each_of_invariant
    (fun _ _ invariant possible => apply_invariant y invariant possible)
    (fun _ _ invariant possible => ⟨messages_land y configPath invariant possible,
      fun _ stands => state_turn invariant possible stands⟩) begin possible⟩

-- A dispatch, then a reload that reaches the audio source while hyprland merges.
def session : List Event :=
  [.command (text "dispatch audio toggle-mute") (.returned true none),.replied,
   .command (text "reload") (.returned true none),.loaded (.ok faster),.sent .hyprland readyHeap (.table 13),
   .answered .accepted]

theorem session_sound : ∃ payloads,
    StateService.publish JsonText.reference (State.new bootConfig allSources) allSources = .ok payloads ∧
    Startable (bootstrapServices bootConfig allSources) ∧
      Runs.Each (apply JsonText.reference) (fun s event =>
        (∀ message ∈ messages JsonText.reference s event, Lands bootConfig allSources message) ∧
        ∀ call, stateEvent event = some call → Turn s.process call) (boot bootConfig allSources payloads) session := by
  obtain ⟨payloads,published⟩ := boot_publishes
  refine ⟨payloads,published,fleet_run_sound JsonText.reference bootConfig allSources payloads session ?_⟩
  have toggled : Actions.dispatch allSources (.returned true none) (text "dispatch audio toggle-mute") =
      .ok [.call .audio (text "toggle-mute") .nil] := by decide
  have requested : Actions.dispatch allSources (.returned true none) (text "reload") = .ok [.reload] := by decide
  have calling : busyAfter JsonText.reference (boot bootConfig allSources payloads)
      (.command (text "dispatch audio toggle-mute") (.returned true none)) = .calling .audio := by
    simp only [busyAfter,boot,toggled,begun]
  have asking : begun (Actions.dispatch allSources (.returned true none) (text "reload")) = .requested := by
    simp only [requested,begun]
  have waiting : reloadBusy (Reload.apply JsonText.reference (Reload.boot bootConfig allSources payloads) (.reload (.ok faster))) =
      .reloading := by
    rw [faster_started]
    rfl
  exact ⟨rfl,⟨.audio,calling⟩,rfl,asking,rfl,waiting,trivial⟩

end Hypringo.Fleet

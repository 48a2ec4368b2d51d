import Hypringo.AudioSource
import Hypringo.Configuration

namespace Hypringo.AudioService
open Hypringo.Lua Hypringo.Configuration AudioSource

-- The audio patch. Every one carries the same three capabilities.
structure Patch where
  available : Bool
  capabilities : List (Bytes × Bool)
  connected : Bool
  error : Bytes
  muted : Bool
  sink : Bytes
  volume : Nat
  deriving DecidableEq, Repr

def capabilities : List (Bytes × Bool) :=
  [(text "set_mute",true),(text "set_volume",true),(text "toggle_mute",true)]

def unavailable (message : Bytes) : Patch where
  available := false
  capabilities := AudioService.capabilities
  connected := false
  error := message
  muted := false
  sink := []
  volume := 0

def Patch.ofSnapshot (snapshot : Snapshot) : Patch where
  available := snapshot.available
  capabilities := AudioService.capabilities
  connected := snapshot.connected
  error := snapshot.error
  muted := snapshot.muted
  sink := snapshot.sink
  volume := snapshot.volume

-- Where the idle handler stands. Messages are served while it rests, and in
-- wait_message once wait has said so, before the snapshot; a snapshot of the
-- source that `quit` has taken away raises, and so does a poll that fails.
inductive Control where
  | rest
  | opening (candidate : Source)
  | greeting
  | polling
  | polled (changed wakeReady : Bool)
  | drained (changed wakeReady : Bool)
  | returned (changed wakeReady closed : Bool) (waitError : Option Bytes)
  | settling (closed : Bool) (waitError : Option Bytes)
  | retrying
  | raised
  deriving DecidableEq, Repr

structure Service where
  sourceConfig : Reconnecting
  reconnectMs : Int
  source : Option Source
  stopping : Bool
  control : Control
  sent : List Patch

def start (config : Reconnecting) : Service where
  sourceConfig := config
  reconnectMs := config.reconnectMinMs
  source := none
  stopping := false
  control := .rest
  sent := []

-- How far lopen gets before it waits for the context.
inductive Setup where
  | pipeFailed (message : Bytes)
  | mainloopFailed
  | contextFailed
  | connectFailed (message : Bytes)
  | startFailed
  | started
  deriving DecidableEq, Repr

inductive Wakeup where
  | failed
  | ready
  | timeout
  deriving DecidableEq, Repr

inductive Event where
  | callback (callback : Callback)
  | idle (setup : Setup)
  | openCheck (message : Bytes)
  | greet
  | pollReturns (changed wakeReady : Bool)
  | pollFails
  | drain
  | read
  | publishChange
  | settle
  | retry (wakeup : Wakeup)
  | dispatch (action : Action) (operation : Operation)
  | reload (config : Reconnecting)
  | quit

namespace Service

def publish (service : Service) (patch : Patch) : Service := { service with sent := service.sent ++ [patch] }

-- source:close() and source = nil; the closed source is never looked at again.
def disconnect (service : Service) (message : Bytes) : Service :=
  let service := { service with source := none }
  if service.stopping then service else service.publish (unavailable message)

def publishSnapshot (pulse : Pulse) (service : Service) (source : Source) : Service :=
  { service with source := some (AudioSource.apply source .snapshot) }.publish
    (.ofSnapshot (snapshot pulse source))

end Service

def Setup.failure : Setup → Option Bytes
  | .pipeFailed message => some (text "cannot create audio notification pipe: " ++ message)
  | .mainloopFailed => some (text "cannot create PulseAudio mainloop")
  | .contextFailed => some (text "cannot create PulseAudio context")
  | .connectFailed message => some (opened.setContextError cannotConnect message).error
  | .startFailed => some (text "cannot start PulseAudio mainloop")
  | .started => none

-- pa_context_connect returns with the context on its way.
def connecting : Source := enter opened .connecting .accepted .accepted []

-- One idle run: open when there is no source, else wait on the one held.
def idle (service : Service) (setup : Setup) : Service :=
  if service.stopping then service
  else match service.source with
    | some _ => { service with control := .polling }
    | none => match setup.failure with
      | some message => { service.disconnect message with control := .retrying }
      | none => { service with control := .opening connecting }

-- One round of the loop at the end of lopen.
def openCheck (service : Service) (candidate : Source) (message : Bytes) : Service :=
  if candidate.context.state = .ready then { service with source := some candidate, control := .greeting }
  else if candidate.context.state.good then service
  else { service.disconnect (candidate.setContextError cannotConnect message).error with control := .retrying }

def closed (source : Source) : Bool := !source.connected && source.context.state.ended

def waitError (source : Source) : Option Bytes := if source.error = [] then none else some source.error

def settle (service : Service) (closed : Bool) (waitError : Option Bytes) : Service :=
  match waitError with
  | some message => { service.disconnect message with control := .rest }
  | none =>
    if closed then { service.disconnect (text "Audio server connection closed") with control := .rest }
    else { service with control := .rest }

def retry (service : Service) : Wakeup → Service
  | .failed | .ready => { service with control := .rest }
  | .timeout =>
    { service with
      control := .rest
      reconnectMs := min service.sourceConfig.reconnectMaxMs (service.reconnectMs*2) }

def callback (service : Service) (callback : Callback) : Service :=
  match service.control,service.source with
  | .opening candidate,_ => { service with control := .opening (candidate.callback callback) }
  | _,some source => { service with source := some (source.callback callback) }
  | _,none => service

def reload (service : Service) (config : Reconnecting) : Service :=
  { service with
    sourceConfig := config
    reconnectMs := max config.reconnectMinMs (min config.reconnectMaxMs service.reconnectMs) }

def quit (service : Service) : Service := { service with stopping := true, source := none }

def listening : Control → Bool
  | .rest => true
  | .returned _ wakeReady _ _ => wakeReady
  | _ => false

-- What is left of the idle run once the messages have been served.
def publishChange (pulse : Pulse) (service : Service) (changed closed : Bool) (waitError : Option Bytes) : Service :=
  if changed then match service.source with
    | some source => { service.publishSnapshot pulse source with control := .settling closed waitError }
    | none => { service with control := .raised }
  else { service with control := .settling closed waitError }

def apply (pulse : Pulse) (service : Service) (event : Event) : Service :=
  match event,service.control,service.source with
  | .callback callback,_,_ => AudioService.callback service callback
  | .idle setup,.rest,_ => idle service setup
  | .openCheck message,.opening candidate,_ => openCheck service candidate message
  | .greet,.greeting,some source =>
    { service.publishSnapshot pulse source with
      reconnectMs := service.sourceConfig.reconnectMinMs, control := .polling }
  | .pollReturns changed wakeReady,.polling,some _ => { service with control := .polled changed wakeReady }
  | .pollFails,.polling,some _ => { service with control := .raised }
  | .drain,.polled changed wakeReady,some source =>
    { service with
      source := some (if changed then AudioSource.apply source .drain else source)
      control := .drained changed wakeReady }
  | .read,.drained changed wakeReady,some source =>
    { service with control := .returned changed wakeReady (closed source) (waitError source) }
  | .publishChange,.returned changed _ closed waitError,_ => publishChange pulse service changed closed waitError
  | .settle,.settling closed waitError,_ => settle service closed waitError
  | .retry wakeup,.retrying,_ => retry service wakeup
  | .dispatch action operation,control,some source =>
    if listening control then { service with source := some (AudioSource.apply source (.dispatch action operation)) }
    else service
  | .reload config,control,_ => if listening control then reload service config else service
  | .quit,control,_ => if listening control then quit service else service
  | _,_,_ => service

-- The source whose callbacks can run.
def live (service : Service) : Option Source :=
  match service.control with
  | .opening candidate => some candidate
  | _ => service.source

def Possible (service : Service) : Event → Prop
  | .callback callback => ∃ source, live service = some source ∧ callback.Possible source.context
  | .pollReturns changed wakeReady =>
    (changed = true ∨ wakeReady = true) ∧
      (changed = true → ∃ source, service.source = some source ∧ 0 < source.notifications)
  | _ => True

-- wait hands whatever error text it finds to the loop, and the loop disconnects
-- on any text. So no failure may be left unanswered when wait looks at a source
-- that is still connected; a sink-info reply is what clears the text.
def Quiet (service : Service) : Event → Prop
  | .read => ∀ changed wakeReady source, service.control = .drained changed wakeReady →
      service.source = some source → source.context.state = .ready → source.error = []
  | _ => True

-- Callbacks that say there is no usable default sink.
def Withdraws : Callback → Bool
  | .serverInfo none _ | .serverInfo (some []) _ | .serverInfo _ (.refused _) => true
  | .sinkInfo (.failed _) => true
  | .subscribeEvent .server (.refused _) | .subscribeEvent .sink (.refused _) => true
  | _ => false

def added (pulse : Pulse) (service : Service) (event : Event) : List Patch :=
  (apply pulse service event).sent.drop service.sent.length

-- What a step does to a source that audio.open has returned.
structure Kept (pulse : Pulse) (service : Service) (event : Event) : Prop where
  closes : ∀ source, service.source = some source → (apply pulse service event).source = none →
    source.context.state.ended = true ∨ event = .quit
  disconnects : ∀ source, service.source = some source → ∀ patch ∈ added pulse service event,
    patch.connected = false → source.context.state.ended = true
  stays : ∀ source, service.source = some source → source.context.state = .ready → event ≠ .quit →
    ∃ later, (apply pulse service event).source = some later ∧
      ∀ patch ∈ added pulse service event, patch = .ofSnapshot (snapshot pulse source) ∧ patch.connected = true
  withdraws : ∀ source callback, service.source = some source → event = .callback callback →
    Withdraws callback = true →
    ∃ later, (apply pulse service event).source = some later ∧ later.available = false

def opening : Control → Bool
  | .opening _ => true
  | _ => false

-- The idle handler is about to disconnect.
def condemned : Control → Bool
  | .returned _ _ closed waitError | .settling closed waitError => closed || waitError.isSome
  | _ => false

-- Everything a step can do while the service holds a source.
inductive Effect (pulse : Pulse) (service : Service) (source : Source) (event : Event) (next : Service) : Prop
  | moves (sourceEvent : AudioSource.Event) (later : next.source = some (AudioSource.apply source sourceEvent))
      (quiet : next.sent = service.sent)
      (callback : ∀ callback, sourceEvent = .callback callback → event = .callback callback)
      (control : condemned next.control = true → condemned service.control = true)
  | holds (later : next.source = some source) (quiet : next.sent = service.sent)
      (idle : ∀ callback, event ≠ .callback callback)
      (control : condemned next.control = true → condemned service.control = true ∨ 
        (event = .read ∧ (closed source || (waitError source).isSome) = true ∧ 
          ∃ changed wakeReady, service.control = .drained changed wakeReady))
  | publishes (later : next.source = some (AudioSource.apply source .snapshot))
      (sent : next.sent = service.sent ++ [.ofSnapshot (snapshot pulse source)])
      (idle : ∀ callback, event ≠ .callback callback)
      (control : condemned next.control = true → condemned service.control = true)
  | closes (later : next.source = none) (message : Bytes)
      (sent : next.sent = service.sent ∨ next.sent = service.sent ++ [unavailable message])
      (idle : ∀ callback, event ≠ .callback callback)
      (control : condemned service.control = true)
  | quits (later : next.source = none) (quit : event = .quit) (quiet : next.sent = service.sent)

theorem settle_effect (pulse : Pulse) {service : Service} {source : Source} (held : service.source = some source)
    {closed : Bool} {waitError : Option Bytes} (at_settling : service.control = .settling closed waitError) :
    Effect pulse service source .settle (settle service closed waitError) := by
  have disconnected : ∀ message, condemned service.control = true →
      Effect pulse service source .settle { service.disconnect message with control := .rest } := by
    intro message control
    simp only [Service.disconnect]
    split
    · exact .closes rfl message (.inl rfl) (by simp) control
    · exact .closes rfl message (.inr rfl) (by simp) control
  cases waitError with
  | some message =>
    apply disconnected
    simp [at_settling,condemned]
  | none =>
    cases closed with
    | true =>
      apply disconnected
      simp [at_settling,condemned]
    | false => exact .holds held rfl (by simp) (by simp [settle,condemned])

theorem apply_effect (pulse : Pulse) {service : Service} {source : Source} (held : service.source = some source)
    (running : opening service.control = false) (event : Event) :
    Effect pulse service source event (apply pulse service event) := by
  have same : (∀ callback, event ≠ .callback callback) → Effect pulse service source event service :=
    fun idle => .holds held rfl idle .inl
  cases event with
  | callback callback =>
    refine .moves (.callback callback) ?_ ?_ (by simp) ?_
    all_goals
      simp only [apply,AudioService.callback]
      split
      · simp_all [opening]
      · simp_all [AudioSource.apply]
      · simp_all
  | idle setup =>
    cases position : service.control with
    | rest =>
      simp only [apply,position,idle]
      split
      · exact same (by simp)
      · simp only [held]
        exact .holds rfl rfl (by simp) (by simp [condemned])
    | _ => simpa only [apply,position] using same (by simp)
  | openCheck message =>
    cases position : service.control with
    | opening candidate => simp [position,opening] at running
    | _ => simpa only [apply,position] using same (by simp)
  | greet =>
    cases position : service.control with
    | greeting =>
      simp only [apply,position,held]
      exact .publishes rfl rfl (by simp) (by simp [condemned])
    | _ => simpa only [apply,position] using same (by simp)
  | pollReturns changed wakeReady =>
    cases position : service.control with
    | polling =>
      simp only [apply,position,held]
      exact .holds rfl rfl (by simp) (by simp [condemned])
    | _ => simpa only [apply,position] using same (by simp)
  | pollFails =>
    cases position : service.control with
    | polling =>
      simp only [apply,position,held]
      exact .holds rfl rfl (by simp) (by simp [condemned])
    | _ => simpa only [apply,position] using same (by simp)
  | drain =>
    cases position : service.control with
    | polled changed wakeReady =>
      simp only [apply,position,held]
      cases changed with
      | true => exact .moves .drain rfl rfl (by simp) (by simp [condemned])
      | false => exact .holds rfl rfl (by simp) (by simp [condemned])
    | _ => simpa only [apply,position] using same (by simp)
  | read =>
    cases position : service.control with
    | drained changed wakeReady =>
      simp only [apply,position,held]
      exact .holds rfl rfl (by simp) (fun found => .inr ⟨rfl,found,changed,wakeReady,position⟩)
    | _ => simpa only [apply,position] using same (by simp)
  | publishChange =>
    cases position : service.control with
    | returned changed wakeReady closed waitError =>
      have control : condemned (.settling closed waitError) = true → condemned service.control = true := by
        rw [position]
        exact id
      simp only [apply,position]
      cases changed with
      | true =>
        simp only [publishChange,held,↓reduceIte]
        exact .publishes rfl rfl (by simp) control
      | false => exact .holds held rfl (by simp) (fun found => .inl (control found))
    | _ => simpa only [apply,position] using same (by simp)
  | settle =>
    cases position : service.control with
    | settling closed waitError =>
      simp only [apply,position]
      exact settle_effect pulse held position
    | _ => simpa only [apply,position] using same (by simp)
  | retry wakeup =>
    cases position : service.control with
    | retrying =>
      simp only [apply,position]
      cases wakeup with
      | failed => exact .holds held rfl (by simp) (by simp [retry,condemned])
      | ready => exact .holds held rfl (by simp) (by simp [retry,condemned])
      | timeout => exact .holds held rfl (by simp) (by simp [retry,condemned])
    | _ => simpa only [apply,position] using same (by simp)
  | dispatch action operation =>
    simp only [apply,held]
    split
    · exact .moves (.dispatch action operation) rfl rfl (by simp) id
    · exact same (by simp)
  | reload config =>
    simp only [apply]
    split
    · exact .holds held rfl (by simp) .inl
    · exact same (by simp)
  | quit =>
    simp only [apply]
    split
    · exact .quits rfl rfl rfl
    · exact same (by simp)

structure Invariant (service : Service) : Prop where
  alone : opening service.control = true → service.source = none
  candidate : ∀ source, service.control = .opening source → source.Linked
  linked : ∀ source, service.source = some source → source.Linked
  begun : ∀ source, service.source = some source → source.Begun
  justified : condemned service.control = true →
    ∀ source, service.source = some source → source.context.state.ended = true

-- Without a source, only audio.open can bring one.
inductive Unheld (service : Service) (event : Event) (next : Service) : Prop
  | still (later : next.source = none)
      (candidate : ∀ candidate, next.control = .opening candidate → candidate = connecting ∨
        service.control = .opening candidate ∨
        ∃ before callback, service.control = .opening before ∧ candidate = before.callback callback)
  | opens (candidate : Source) (position : service.control = .opening candidate)
      (ready : candidate.context.state = .ready) (later : next.source = some candidate)
      (control : next.control = .greeting)

theorem disconnect_unheld {service : Service} (event : Event) (message : Bytes) (control : Control)
    (running : opening control = false) :
    Unheld service event { service.disconnect message with control := control } := by
  refine .still ?_ ?_
  · simp only [Service.disconnect]
    split <;> rfl
  · intro candidate found
    change control = _ at found
    rw [found] at running
    cases running

theorem apply_unheld (pulse : Pulse) {service : Service} (unheld : service.source = none) (event : Event) :
    Unheld service event (apply pulse service event) := by
  have same : Unheld service event service := .still unheld fun _ found => .inr (.inl found)
  cases event with
  | callback callback =>
    cases position : service.control with
    | opening before =>
      simp only [apply,AudioService.callback,position]
      refine .still unheld ?_
      intro candidate found
      cases found
      exact .inr (.inr ⟨before,callback,position,rfl⟩)
    | _ => simpa only [apply,AudioService.callback,position,unheld] using same
  | idle setup =>
    cases position : service.control with
    | rest =>
      simp only [apply,position,idle,unheld]
      split
      · exact same
      · split
        · exact disconnect_unheld _ _ _ rfl
        · refine .still rfl ?_
          intro candidate found
          cases found
          exact .inl rfl
    | _ => simpa only [apply,position] using same
  | openCheck message =>
    cases position : service.control with
    | opening candidate =>
      simp only [apply,position,openCheck]
      split
      · rename_i ready
        exact .opens candidate position ready rfl rfl
      · split
        · exact same
        · exact disconnect_unheld _ _ _ rfl
    | _ => simpa only [apply,position] using same
  | settle =>
    cases position : service.control with
    | settling closed waitError =>
      simp only [apply,position,settle]
      split
      · exact disconnect_unheld _ _ _ rfl
      · split
        · exact disconnect_unheld _ _ _ rfl
        · exact .still unheld (by simp)
    | _ => simpa only [apply,position] using same
  | retry wakeup =>
    cases position : service.control with
    | retrying =>
      simp only [apply,position]
      cases wakeup <;> exact .still unheld (by simp [retry])
    | _ => simpa only [apply,position] using same
  | reload config =>
    simp only [apply]
    split
    · exact .still unheld fun _ found => .inr (.inl found)
    · exact same
  | quit =>
    simp only [apply]
    split
    · exact .still rfl fun _ found => .inr (.inl found)
    · exact same
  | publishChange =>
    cases position : service.control with
    | returned changed wakeReady closed waitError =>
      simp only [apply,position,publishChange,unheld]
      split <;> exact .still rfl (by simp)
    | _ => simpa only [apply,position] using same
  | greet => cases position : service.control <;> simpa only [apply,position,unheld] using same
  | pollReturns changed wakeReady =>
    cases position : service.control <;> simpa only [apply,position,unheld] using same
  | drain => cases position : service.control <;> simpa only [apply,position,unheld] using same
  | read => cases position : service.control <;> simpa only [apply,position,unheld] using same
  | pollFails => cases position : service.control <;> simpa only [apply,position,unheld] using same
  | dispatch action operation =>
    cases position : service.control <;> simpa only [apply,position,unheld] using same

theorem start_invariant (config : Reconnecting) : Invariant (start config) := by
  refine ⟨?_,?_,?_,?_,?_⟩ <;> simp [start,opening,condemned]

theorem apply_running (pulse : Pulse) {service : Service} {source : Source} (held : service.source = some source)
    (running : opening service.control = false) (event : Event) :
    opening (apply pulse service event).control = false := by
  cases event with
  | idle setup =>
    cases position : service.control <;> simp only [apply,position,idle,held]
    all_goals first | (split <;> simp_all [opening]) | simp_all [opening]
  | publishChange =>
    cases position : service.control <;> simp only [apply,position,held]
    all_goals first | (simp only [publishChange,held]; split <;> rfl) | simp_all [opening]
  | settle =>
    cases position : service.control <;> simp only [apply,position,held]
    all_goals first | (simp only [settle]; split <;> (try split) <;> rfl) | simp_all [opening]
  | retry wakeup =>
    cases position : service.control <;> simp only [apply,position,held]
    all_goals first | (cases wakeup <;> rfl) | simp_all [opening]
  | callback callback => cases position : service.control <;> simp_all [apply,AudioService.callback,opening]
  | openCheck message => cases position : service.control <;> simp_all [apply,opening]
  | greet => cases position : service.control <;> simp_all [apply,opening]
  | pollReturns changed wakeReady => cases position : service.control <;> simp_all [apply,opening]
  | pollFails => cases position : service.control <;> simp_all [apply,opening]
  | drain => cases position : service.control <;> simp_all [apply,opening]
  | read => cases position : service.control <;> simp_all [apply,opening]
  | dispatch action operation =>
    simp only [apply,held]
    split <;> exact running
  | reload config =>
    simp only [apply]
    split <;> exact running
  | quit =>
    simp only [apply]
    split <;> exact running

theorem live_held {service : Service} (running : opening service.control = false) : live service = service.source := by
  cases position : service.control with
  | opening candidate => simp [position,opening] at running
  | _ => simp only [live,position]

theorem source_possible {service : Service} {source : Source} {event : Event} {sourceEvent : AudioSource.Event}
    (held : service.source = some source) (running : opening service.control = false)
    (possible : Possible service event)
    (callback : ∀ callback, sourceEvent = .callback callback → event = .callback callback) :
    AudioSource.Possible source sourceEvent := by
  cases sourceEvent with
  | callback called =>
    rw [callback called rfl] at possible
    obtain ⟨found,isLive,can⟩ := possible
    rw [live_held running,held] at isLive
    cases isLive
    exact can
  | _ => trivial

-- The one step that can condemn a source: with no error text left over, wait
-- reports closed or an error only for a context that has ended.
theorem read_justified {service : Service} {source : Source} (held : service.source = some source)
    (quiet : Quiet service .read) (begun : source.Begun) {changed wakeReady : Bool}
    (position : service.control = .drained changed wakeReady)
    (found : (closed source || (waitError source).isSome) = true) : source.context.state.ended = true := by
  rcases begun with ready | ended
  · have silent := quiet changed wakeReady source position held ready
    simp [closed,waitError,silent,ready,ContextState.ended] at found
  · exact ended

theorem Invariant.running {service : Service} {source : Source} (invariant : Invariant service)
    (held : service.source = some source) : opening service.control = false := by
  cases position : opening service.control with
  | false => rfl
  | true => cases (invariant.alone position).symm.trans held

theorem held_invariant {pulse : Pulse} {service : Service} {source : Source} {event : Event}
    (invariant : Invariant service) (held : service.source = some source)
    (possible : Possible service event) (quiet : Quiet service event) :
    Invariant (apply pulse service event) := by
  have running := invariant.running held
  have runs := apply_running pulse held running event
  have linked := invariant.linked source held
  have begun := invariant.begun source held
  have ended : condemned service.control = true → source.context.state.ended = true :=
    fun condemned => invariant.justified condemned source held
  have rebuilt : ∀ later, (apply pulse service event).source = some later → later.Linked → later.Begun →
      (condemned (apply pulse service event).control = true → later.context.state.ended = true) →
      Invariant (apply pulse service event) := by
    intro later found linked begun ended
    refine ⟨?_,?_,?_,?_,?_⟩
    · intro open'
      simp [runs] at open'
    · intro candidate position
      simp [position,opening] at runs
    · intro other same
      cases found.symm.trans same
      exact linked
    · intro other same
      cases found.symm.trans same
      exact begun
    · intro condemned other same
      cases found.symm.trans same
      exact ended condemned
  have emptied : (apply pulse service event).source = none → Invariant (apply pulse service event) := by
    intro none
    refine ⟨fun _ => none,?_,?_,?_,?_⟩
    · intro candidate position
      simp [position,opening] at runs
    all_goals simp [none]
  cases apply_effect pulse held running event with
  | moves sourceEvent later _ callback control =>
    have can := source_possible held running possible callback
    exact rebuilt _ later (apply_linked linked _) (apply_begun begun can)
      fun condemned => apply_ended (ended (control condemned)) can
  | holds later _ _ control =>
    refine rebuilt _ later linked begun ?_
    intro condemned
    rcases control condemned with before | ⟨rfl,found,changed,wakeReady,position⟩
    · exact ended before
    · exact read_justified held quiet begun position found
  | publishes later _ _ control =>
    have can : AudioSource.Possible source .snapshot := trivial
    exact rebuilt _ later (apply_linked linked _) (apply_begun begun can)
      fun condemned => apply_ended (ended (control condemned)) can
  | closes later => exact emptied later
  | quits later => exact emptied later

theorem apply_invariant (pulse : Pulse) (service : Service) (event : Event) (invariant : Invariant service)
    (met : Possible service event ∧ Quiet service event) : Invariant (apply pulse service event) := by
  cases held : service.source with
  | some source => exact held_invariant invariant held met.1 met.2
  | none =>
    cases apply_unheld pulse held event with
    | still later candidate =>
      refine ⟨fun _ => later,?_,?_,?_,?_⟩
      · intro source position
        rcases candidate source position with rfl | before | ⟨before,callback,earlier,rfl⟩
        · exact (enter_state opened .connecting .accepted .accepted []).2
        · exact invariant.candidate source before
        · exact apply_linked (invariant.candidate before earlier) (.callback callback)
      all_goals simp [later]
    | opens candidate position ready later control =>
      refine ⟨?_,?_,?_,?_,?_⟩
      · simp [control,opening]
      · simp [control]
      · intro source found
        cases later.symm.trans found
        exact invariant.candidate candidate position
      · intro source found
        cases later.symm.trans found
        exact .inl ready
      · simp [control,condemned]

theorem withdraws_unavailable {source : Source} {callback : Callback} (withdraws : Withdraws callback = true) :
    (source.callback callback).available = false := by
  cases callback with
  | contextState state subscription operation message => cases withdraws
  | serverInfo name operation =>
    match name,operation with
    | none,_ => rfl
    | some [],_ => rfl
    | some (byte :: rest),.refused message =>
      simp only [Source.callback,serverInfo,requestSinkInfo]
      split <;> rfl
    | some (byte :: rest),.accepted => cases withdraws
  | sinkInfo reply =>
    cases reply with
    | failed message => rfl
    | _ => cases withdraws
  | subscribeEvent facility operation =>
    cases facility <;> cases operation <;> first | rfl | cases withdraws
  | subscribeComplete success message => cases withdraws

theorem invariant_kept (pulse : Pulse) (service : Service) (event : Event) (invariant : Invariant service) :
    Kept pulse service event := by
  have effect := fun source (held : service.source = some source) =>
    apply_effect pulse held (invariant.running held) event
  refine ⟨?_,?_,?_,?_⟩
  · intro source held gone
    cases effect source held with
    | moves _ later => cases later.symm.trans gone
    | holds later => cases later.symm.trans gone
    | publishes later => cases later.symm.trans gone
    | closes _ _ _ _ control => exact .inl (invariant.justified control source held)
    | quits _ quit => exact .inr quit
  · intro source held patch member disconnected
    cases effect source held with
    | moves _ _ quiet => simp [added,quiet] at member
    | holds _ quiet => simp [added,quiet] at member
    | publishes _ sent =>
      simp only [added,sent,List.drop_left,List.mem_singleton] at member
      subst member
      -- connected is false only once the context has left READY
      rcases invariant.begun source held with ready | ended
      · cases (invariant.linked source held ready).symm.trans disconnected
      · exact ended
    | closes _ _ _ _ control => exact invariant.justified control source held
    | quits _ _ quiet => simp [added,quiet] at member
  · intro source held ready staying
    have connected := invariant.linked source held ready
    cases effect source held with
    | moves _ later quiet => exact ⟨_,later,by simp [added,quiet]⟩
    | holds later quiet => exact ⟨_,later,by simp [added,quiet]⟩
    | publishes later sent =>
      refine ⟨_,later,?_⟩
      intro patch member
      simp only [added,sent,List.drop_left,List.mem_singleton] at member
      subst member
      exact ⟨rfl,connected⟩
    | closes _ _ _ _ control =>
      have ended := invariant.justified control source held
      simp [ready,ContextState.ended] at ended
    | quits _ quit => exact absurd quit staying
  · rintro source callback held rfl withdraws
    refine ⟨source.callback callback,?_,withdraws_unavailable withdraws⟩
    have running := invariant.running held
    cases position : service.control with
    | opening candidate => simp [position,opening] at running
    | _ => simp only [apply,AudioService.callback,position,held]

theorem quiet_run_kept (pulse : Pulse) (config : Reconnecting) (events : List Event)
    (possible : Runs.Each (apply pulse) Possible (start config) events)
    (quiet : Runs.Each (apply pulse) Quiet (start config) events) :
    Runs.Each (apply pulse) (Kept pulse) (start config) events :=
  Runs.each_of_invariant (apply_invariant pulse)
    (fun service event invariant _ => invariant_kept pulse service event invariant)
    (start_invariant config) (Runs.each_and possible quiet)

def connected : List Event :=
  [.idle .started,
   .callback (.contextState .authorizing .accepted .accepted []),
   .callback (.contextState .settingName .accepted .accepted []),
   .callback (.contextState .ready .accepted .accepted []),
   .openCheck [],
   .greet,
   .callback (.subscribeComplete true [])]

def round : List Event := [.pollReturns true false,.drain,.read,.publishChange]

-- A wait that a message ends: it is served before the wait's results are used.
def served : List Event :=
  [.idle .started,.pollReturns false true,.drain,.read,.dispatch .toggleMute .accepted,.publishChange,.settle]

def speakersRun : List Event :=
  connected ++
  [.callback (.serverInfo (some (text "speakers")) .accepted),
   .callback (.sinkInfo (.info speakers))] ++ round ++ [.settle] ++ served

theorem speakers_run_kept :
    Runs.Each (apply mean) Possible (start allSources.sources.audio) speakersRun ∧
    Runs.Each (apply mean) Quiet (start allSources.sources.audio) speakersRun ∧
    Runs.Each (apply mean) (Kept mean) (start allSources.sources.audio) speakersRun := by
  have possible : Runs.Each (apply mean) Possible (start allSources.sources.audio) speakersRun :=
    ⟨trivial,⟨_,rfl,rfl⟩,⟨_,rfl,rfl⟩,⟨_,rfl,rfl⟩,trivial,trivial,⟨_,rfl,rfl⟩,⟨_,rfl,rfl⟩,⟨_,rfl,⟨_,rfl⟩⟩,
      ⟨.inl rfl,fun _ => ⟨_,rfl,by decide⟩⟩,trivial,trivial,trivial,trivial,trivial,
      ⟨.inr rfl,fun changed => by cases changed⟩,trivial,trivial,trivial,trivial,trivial,trivial⟩
  have quiet : Runs.Each (apply mean) Quiet (start allSources.sources.audio) speakersRun := by
    refine ⟨trivial,trivial,trivial,trivial,trivial,trivial,trivial,trivial,trivial,trivial,trivial,?_,
      trivial,trivial,trivial,trivial,trivial,?_,trivial,trivial,trivial,trivial⟩
    all_goals
      intro _ _ source _ held _
      cases held
      rfl
  exact ⟨possible,quiet,quiet_run_kept mean allSources.sources.audio speakersRun possible quiet⟩

def noSinkRun : List Event := connected ++ [.callback (.serverInfo none .accepted)] ++ round

-- The server is up and has no default sink: the source is closed at the end of
-- the first wait, with its context READY throughout.
theorem no_sink_disconnects :
    Runs.Each (apply mean) Possible (start allSources.sources.audio) (noSinkRun ++ [.settle]) ∧
    (∃ source, (Runs.final (apply mean) (start allSources.sources.audio) noSinkRun).source = some source ∧
      source.context.state = .ready) ∧
    (Runs.final (apply mean) (start allSources.sources.audio) (noSinkRun ++ [.settle])).source = none ∧
    (Runs.final (apply mean) (start allSources.sources.audio) (noSinkRun ++ [.settle])).sent.getLast? =
      some (unavailable noSink) ∧
    ¬Runs.Each (apply mean) (Kept mean) (start allSources.sources.audio) (noSinkRun ++ [.settle]) := by
  refine ⟨?_,⟨_,rfl,rfl⟩,rfl,rfl,?_⟩
  · exact ⟨trivial,⟨_,rfl,rfl⟩,⟨_,rfl,rfl⟩,⟨_,rfl,rfl⟩,trivial,trivial,⟨_,rfl,rfl⟩,⟨_,rfl,rfl⟩,
      ⟨.inl rfl,fun _ => ⟨_,rfl,by decide⟩⟩,trivial,trivial,trivial,trivial,trivial⟩
  · rintro ⟨-,-,-,-,-,-,-,-,-,-,-,-,last,-⟩
    rcases last.closes _ rfl rfl with ended | quit
    · cases ended
    · cases quit

end Hypringo.AudioService

import Hypringo.Runs
import Hypringo.Lua.Value

namespace Hypringo.AudioSource
open Hypringo.Lua

inductive ContextState where
  | unconnected
  | connecting
  | authorizing
  | settingName
  | ready
  | failed
  | terminated
  deriving DecidableEq, Repr

-- PA_CONTEXT_IS_GOOD
def ContextState.good : ContextState → Bool
  | .connecting | .authorizing | .settingName | .ready => true
  | _ => false

def ContextState.ended : ContextState → Bool
  | .failed | .terminated => true
  | _ => false

-- The life of a pa_context: a failed or terminated one does not come back.
def ContextState.precedes : ContextState → ContextState → Bool
  | .unconnected,.connecting | .connecting,.authorizing | .authorizing,.settingName | .settingName,.ready => true
  | .failed,_ | .terminated,_ => false
  | _,.failed | _,.terminated => true
  | _,_ => false

-- pa_cvolume
structure Volume where
  channels : UInt8
  values : List UInt32
  deriving DecidableEq, Repr

namespace Volume

def muted : UInt32 := 0
def norm : UInt32 := 65536

-- pa_cvolume_set
def set (channels : UInt8) (value : UInt32) : Volume := ⟨channels,List.replicate channels.toNat value⟩

end Volume

-- pa_cvolume_avg is the library's own.
structure Pulse where
  average : Volume → UInt32

structure SinkInfo where
  name : Bytes
  volume : Volume
  mute : Int
  deriving DecidableEq, Repr

inductive Request where
  | subscribe
  | serverInfo
  | sinkInfo (name : Bytes)
  deriving DecidableEq, Repr

-- The library's side: requests are answered in the order they were made.
-- `received` is a record of the sink-info replies, read by no code.
structure Context where
  state : ContextState
  pending : List Request
  received : List SinkInfo
  deriving DecidableEq, Repr

-- struct audio_source. The notification pipe is the number of unread bytes.
structure Source where
  context : Context
  notifications : Nat
  error : Bytes
  sink : Bytes
  volume : Volume
  available : Bool
  connected : Bool
  dirty : Bool
  muted : Bool
  deriving DecidableEq, Repr

-- What lopen starts from, before pa_context_connect.
def opened : Source where
  context := ⟨.unconnected,[],[]⟩
  notifications := 0
  error := []
  sink := []
  volume := ⟨0,[]⟩
  available := false
  connected := false
  dirty := false
  muted := false

-- The result of a pa_context_* call: NULL comes with pa_strerror of the context.
inductive Operation where
  | accepted
  | refused (message : Bytes)
  deriving DecidableEq, Repr

def nameCapacity : Nat := 256
def errorCapacity : Nat := 256
def pipeCapacity : Nat := 65536

-- snprintf into a buffer keeps one byte for the terminator.
def printed (capacity : Nat) (s : Bytes) : Bytes := s.take (capacity-1)

def noSink : Bytes := text "no default audio sink is available"
def cannotReadSink : Bytes := text "cannot read default sink"
def cannotRequestSink : Bytes := text "cannot request default sink"
def cannotRequestServer : Bytes := text "cannot request audio server"
def cannotSubscribe : Bytes := text "cannot subscribe to audio events"
def cannotDispatch : Bytes := text "cannot dispatch audio action"
def cannotConnect : Bytes := text "cannot connect to audio server"
def connectionFailed : Bytes := text "audio server connection failed"
def connectionTerminated : Bytes := text "audio server connection terminated"

namespace Source

def setError (source : Source) (message : Bytes) : Source :=
  { source with error := printed errorCapacity message }

def setContextError (source : Source) (subject message : Bytes) : Source :=
  { source with error := printed errorCapacity (subject ++ text ": " ++ message) }

def resetSnapshot (source : Source) : Source :=
  { source with available := false, muted := false, sink := [], volume := Volume.set 2 Volume.muted }

-- A full pipe drops the byte and stays readable.
def notify (source : Source) : Source :=
  { source with
    dirty := true
    notifications := if source.notifications < pipeCapacity then source.notifications+1 else source.notifications }

def request (source : Source) (request : Request) : Source :=
  { source with context := { source.context with pending := source.context.pending ++ [request] } }

def answered (source : Source) : Source :=
  { source with context := { source.context with pending := source.context.pending.tail } }

end Source

inductive SinkReply where
  | failed (message : Bytes)
  | info (info : SinkInfo)
  | missing
  | last
  deriving DecidableEq, Repr

def sinkInfo (source : Source) : SinkReply → Source
  | .failed message => ((source.resetSnapshot).setContextError cannotReadSink message).notify
  | .missing | .last => source
  | .info info =>
    ({ source with
      sink := printed nameCapacity info.name
      volume := info.volume
      muted := decide (info.mute ≠ 0)
      available := true }.setError []).notify

def requestSinkInfo (source : Source) (operation : Operation) : Source :=
  if source.sink = [] then ((source.resetSnapshot).setError noSink).notify
  else match operation with
    | .refused message => ((source.resetSnapshot).setContextError cannotRequestSink message).notify
    | .accepted => source.request (.sinkInfo source.sink)

-- `none` stands for a NULL info as well as for a NULL default_sink_name.
def serverInfo (source : Source) (defaultSinkName : Option Bytes) (operation : Operation) : Source :=
  match defaultSinkName with
  | none => ((source.resetSnapshot).setError noSink).notify
  | some name => requestSinkInfo { source with sink := printed nameCapacity name } operation

def requestServerInfo (source : Source) : Operation → Source
  | .refused message => ((source.resetSnapshot).setContextError cannotRequestServer message).notify
  | .accepted => source.request .serverInfo

inductive Facility where
  | server
  | sink
  | other
  deriving DecidableEq, Repr

def subscribeEvent (source : Source) (facility : Facility) (operation : Operation) : Source :=
  match facility with
  | .server | .sink => requestServerInfo source operation
  | .other => source

def subscribeComplete (source : Source) (success : Bool) (message : Bytes) : Source :=
  if success then source else (source.setContextError cannotSubscribe message).notify

def subscribe (source : Source) : Operation → Source
  | .refused message => (source.setContextError cannotSubscribe message).notify
  | .accepted => source.request .subscribe

def contextStateChanged (source : Source) (subscription operation : Operation) (message : Bytes) : Source :=
  match source.context.state with
  | .ready =>
    requestServerInfo (subscribe ({ source with connected := true }.setError []) subscription) operation
  | .failed => ({ source.resetSnapshot with connected := false }.setContextError connectionFailed message).notify
  | .terminated => ({ source.resetSnapshot with connected := false }.setError connectionTerminated).notify
  | _ => source

-- The library enters the new state, calls back, and drops the requests of a
-- context that has ended.
def enter (source : Source) (state : ContextState) (subscription operation : Operation) (message : Bytes) : Source :=
  let entered := { source with context := { source.context with state := state } }
  let called := contextStateChanged entered subscription operation message
  if state.ended then { called with context := { called.context with pending := [] } } else called

inductive Callback where
  | contextState (state : ContextState) (subscription operation : Operation) (message : Bytes)
  | serverInfo (defaultSinkName : Option Bytes) (operation : Operation)
  | sinkInfo (reply : SinkReply)
  | subscribeEvent (facility : Facility) (operation : Operation)
  | subscribeComplete (success : Bool) (message : Bytes)
  deriving DecidableEq, Repr

-- Callbacks run one at a time under the mainloop lock.
def Source.callback (source : Source) : Callback → Source
  | .contextState state subscription operation message => enter source state subscription operation message
  | .serverInfo name operation => AudioSource.serverInfo source.answered name operation
  | .sinkInfo (.failed message) => AudioSource.sinkInfo source.answered (.failed message)
  | .sinkInfo .last => AudioSource.sinkInfo source.answered .last
  | .sinkInfo .missing => AudioSource.sinkInfo source .missing
  | .sinkInfo (.info info) =>
    AudioSource.sinkInfo
      { source with context := { source.context with received := source.context.received ++ [info] } } (.info info)
  | .subscribeEvent facility operation => AudioSource.subscribeEvent source facility operation
  | .subscribeComplete success message => AudioSource.subscribeComplete source.answered success message

-- Replies come in request order, states in the order of a context's life.
def Callback.Possible (context : Context) : Callback → Prop
  | .contextState state _ _ _ => context.state.precedes state = true
  | .serverInfo _ _ => context.pending.head? = some .serverInfo
  | .sinkInfo _ => ∃ name, context.pending.head? = some (.sinkInfo name)
  | .subscribeEvent _ _ => context.state = .ready
  | .subscribeComplete _ _ => context.pending.head? = some .subscribe

structure Snapshot where
  available : Bool
  connected : Bool
  error : Bytes
  muted : Bool
  sink : Bytes
  volume : Nat
  deriving DecidableEq, Repr

def percent (volume : UInt32) : Nat := (volume.toNat*100+Volume.norm.toNat/2)/Volume.norm.toNat

def snapshot (pulse : Pulse) (source : Source) : Snapshot where
  available := source.available
  connected := source.connected
  error := source.error
  muted := source.muted
  sink := source.sink
  volume := percent (if source.available then pulse.average source.volume else Volume.muted)

-- actions.parse hands over an integer, a boolean or nothing.
inductive Action where
  | setVolume (volume : Int64)
  | setMute (mute : Bool)
  | toggleMute
  | other (name : Bytes)
  deriving DecidableEq, Repr

inductive Command where
  | setSinkVolume (sink : Bytes) (volume : Volume)
  | setSinkMute (sink : Bytes) (mute : Bool)
  deriving DecidableEq, Repr

def command (source : Source) : Action → Except Bytes Command
  | .setVolume volume =>
    if volume < 0 ∨ volume > 100 then .error (text "audio volume must be between 0 and 100")
    else
      let channels := if source.volume.channels = 0 then 2 else source.volume.channels
      .ok (.setSinkVolume source.sink
        (Volume.set channels (UInt32.ofNat (volume.toNatClampNeg*Volume.norm.toNat/100))))
  | .setMute mute => .ok (.setSinkMute source.sink mute)
  | .toggleMute => .ok (.setSinkMute source.sink (!source.muted))
  | .other name => .error (text "unsupported audio action: " ++ name)

inductive Dispatched where
  | raised (message : Bytes)
  | failed (message : Bytes)
  | issued (command : Command)
  deriving DecidableEq, Repr

-- lsource_dispatch: a bad request raises before the source is looked at.
def dispatch (source : Source) (action : Action) (operation : Operation) : Dispatched × Source :=
  match command source action with
  | .error message => (.raised message,source)
  | .ok command =>
    if source.available = false ∨ source.sink = [] then (.failed noSink,source)
    else match operation with
      | .accepted => (.issued command,source)
      | .refused message =>
        let source := source.setContextError cannotDispatch message
        (.failed source.error,source)

-- READY is announced by the callback that sets connected.
def Source.Linked (source : Source) : Prop := source.context.state = .ready → source.connected = true

inductive Event where
  | callback (callback : Callback)
  | snapshot
  | drain
  | dispatch (action : Action) (operation : Operation)
  deriving DecidableEq, Repr

-- The service's thread takes the same lock, one critical section at a time.
-- The locked part of wait only reads.
def apply (source : Source) : Event → Source
  | .callback callback => source.callback callback
  | .snapshot => { source with dirty := false }
  | .drain => { source with notifications := 0 }
  | .dispatch action operation => (AudioSource.dispatch source action operation).2

def Possible (source : Source) : Event → Prop
  | .callback callback => callback.Possible source.context
  | _ => True

-- Only a state change touches the context's state and the connected flag.
def changesState : Event → Bool
  | .callback (.contextState _ _ _ _) => true
  | _ => false

theorem requestServerInfo_state (source : Source) (operation : Operation) :
    (requestServerInfo source operation).context.state = source.context.state ∧
    (requestServerInfo source operation).connected = source.connected := by
  cases operation with
  | accepted => exact ⟨rfl,rfl⟩
  | refused message => exact ⟨rfl,rfl⟩

theorem subscribe_state (source : Source) (operation : Operation) :
    (subscribe source operation).context.state = source.context.state ∧
    (subscribe source operation).connected = source.connected := by
  cases operation with
  | accepted => exact ⟨rfl,rfl⟩
  | refused message => exact ⟨rfl,rfl⟩

theorem requestSinkInfo_state (source : Source) (operation : Operation) :
    (requestSinkInfo source operation).context.state = source.context.state ∧
    (requestSinkInfo source operation).connected = source.connected := by
  simp only [requestSinkInfo]
  split
  · exact ⟨rfl,rfl⟩
  · cases operation with
    | accepted => exact ⟨rfl,rfl⟩
    | refused message => exact ⟨rfl,rfl⟩

theorem dispatch_state (source : Source) (action : Action) (operation : Operation) :
    (dispatch source action operation).2.context.state = source.context.state ∧
    (dispatch source action operation).2.connected = source.connected := by
  simp only [dispatch]
  split
  · exact ⟨rfl,rfl⟩
  · split
    · exact ⟨rfl,rfl⟩
    · cases operation with
      | accepted => exact ⟨rfl,rfl⟩
      | refused message => exact ⟨rfl,rfl⟩

theorem apply_state (source : Source) {event : Event} (other : changesState event = false) :
    (apply source event).context.state = source.context.state ∧
    (apply source event).connected = source.connected := by
  cases event with
  | snapshot => exact ⟨rfl,rfl⟩
  | drain => exact ⟨rfl,rfl⟩
  | dispatch action operation => exact dispatch_state source action operation
  | callback callback =>
    cases callback with
    | contextState state subscription operation message => cases other
    | serverInfo name operation =>
      cases name with
      | none => exact ⟨rfl,rfl⟩
      | some name => exact requestSinkInfo_state _ operation
    | sinkInfo reply => cases reply <;> exact ⟨rfl,rfl⟩
    | subscribeEvent facility operation =>
      cases facility with
      | server => exact requestServerInfo_state source operation
      | sink => exact requestServerInfo_state source operation
      | other => exact ⟨rfl,rfl⟩
    | subscribeComplete success message => cases success <;> exact ⟨rfl,rfl⟩

theorem enter_state (source : Source) (state : ContextState) (subscription operation : Operation) (message : Bytes) :
    (enter source state subscription operation message).context.state = state ∧
    (enter source state subscription operation message).Linked := by
  cases state with
  | ready =>
    have one := requestServerInfo_state (subscribe
      ({ source with context := { source.context with state := .ready }, connected := true }.setError [])
      subscription) operation
    have two := subscribe_state
      ({ source with context := { source.context with state := .ready }, connected := true }.setError []) subscription
    exact ⟨one.1.trans two.1,fun _ => one.2.trans two.2⟩
  | failed => exact ⟨rfl,fun ready => by cases ready⟩
  | terminated => exact ⟨rfl,fun ready => by cases ready⟩
  | unconnected => exact ⟨rfl,fun ready => by cases ready⟩
  | connecting => exact ⟨rfl,fun ready => by cases ready⟩
  | authorizing => exact ⟨rfl,fun ready => by cases ready⟩
  | settingName => exact ⟨rfl,fun ready => by cases ready⟩

theorem apply_linked {source : Source} (linked : source.Linked) (event : Event) : (apply source event).Linked := by
  cases change : changesState event with
  | false =>
    obtain ⟨state,connected⟩ := apply_state source change
    intro ready
    rw [connected]
    exact linked (state.symm.trans ready)
  | true =>
    match event,change with
    | .callback (.contextState state subscription operation message),_ =>
      exact (enter_state source state subscription operation message).2

-- audio.open returns a source whose context is READY.
def Source.Begun (source : Source) : Prop := source.context.state = .ready ∨ source.context.state.ended = true

theorem apply_ended {source : Source} {event : Event} (ended : source.context.state.ended = true)
    (possible : Possible source event) : (apply source event).context.state.ended = true := by
  cases change : changesState event with
  | false =>
    rw [(apply_state source change).1]
    exact ended
  | true =>
    match event,change with
    | .callback (.contextState state subscription operation message),_ =>
      change source.context.state.precedes state = true at possible
      cases current : source.context.state <;> simp [current,ContextState.ended,ContextState.precedes] at ended possible

theorem apply_begun {source : Source} {event : Event} (begun : source.Begun) (possible : Possible source event) :
    (apply source event).Begun := by
  rcases begun with ready | ended
  · cases change : changesState event with
    | false => exact .inl ((apply_state source change).1.trans ready)
    | true =>
      match event,change with
      | .callback (.contextState state subscription operation message),_ =>
        change source.context.state.precedes state = true at possible
        right
        rw [show apply source _ = enter source state subscription operation message from rfl,
          (enter_state source state subscription operation message).1]
        rw [ready] at possible
        cases state <;> first | rfl | cases possible
  · exact .inr (apply_ended ended possible)

def Carries (reply : SinkInfo) (sink : Bytes) (volume : Volume) (muted : Bool) : Prop :=
  sink = printed nameCapacity reply.name ∧ volume = reply.volume ∧ muted = decide (reply.mute ≠ 0)

-- The command acts on the sink of the reply with that reply's channel count,
-- and a toggle inverts that reply's mute state.
def Addresses (reply : SinkInfo) (action : Action) : Command → Prop
  | .setSinkVolume sink volume =>
    sink = printed nameCapacity reply.name ∧
      volume.channels = if reply.volume.channels = 0 then 2 else reply.volume.channels
  | .setSinkMute sink mute =>
    sink = printed nameCapacity reply.name ∧ (action = .toggleMute → mute = !decide (reply.mute ≠ 0))

structure Coherent (pulse : Pulse) (source : Source) : Prop where
  present : source.available = true →
    ∃ reply ∈ source.context.received, Carries reply source.sink source.volume source.muted
  absent : source.available = false →
    source.sink = [] ∧ source.muted = false ∧ (snapshot pulse source).volume = 0

structure Sound (pulse : Pulse) (source : Source) : Prop extends Coherent pulse source where
  published : (snapshot pulse source).available = true →
    ∃ reply ∈ source.context.received,
      (snapshot pulse source).sink = printed nameCapacity reply.name ∧
      (snapshot pulse source).muted = decide (reply.mute ≠ 0) ∧
      (snapshot pulse source).volume = percent (pulse.average reply.volume)
  issued : ∀ action operation command, (dispatch source action operation).1 = .issued command →
    ∃ reply ∈ source.context.received, Addresses reply action command

-- server_info writes the name it is told over the held one and leaves
-- available, volume and mute to the reply still to come. That is harmless when
-- there is no name and when the request is refused: then all is cleared.
def Sinkless : Event → Prop
  | .callback (.serverInfo (some name) .accepted) => name = []
  | _ => True

-- What a source is until it has been told of a sink: nothing is held and no
-- sink-info reply is on its way.
structure Source.Blank (source : Source) : Prop where
  unavailable : source.available = false
  unasked : ∀ name, .sinkInfo name ∉ source.context.pending

-- Coherence reads these fields only.
theorem Coherent.same {pulse : Pulse} {source other : Source} (coherent : Coherent pulse source)
    (available : other.available = source.available) (sink : other.sink = source.sink)
    (volume : other.volume = source.volume) (muted : other.muted = source.muted)
    (received : other.context.received = source.context.received) : Coherent pulse other := by
  refine ⟨?_,?_⟩
  · simpa only [available,sink,volume,muted,received] using coherent.present
  · simpa only [available,sink,muted,snapshot,volume] using coherent.absent

theorem coherent_reset {pulse : Pulse} {source : Source} (available : source.available = false)
    (sink : source.sink = []) (muted : source.muted = false) : Coherent pulse source := by
  refine ⟨?_,?_⟩
  · intro present
    rw [available] at present
    cases present
  · intro _
    refine ⟨sink,muted,?_⟩
    simp only [snapshot,available,Bool.false_eq_true,if_false]
    decide

theorem opened_coherent (pulse : Pulse) : Coherent pulse opened := coherent_reset rfl rfl rfl

theorem requestServerInfo_coherent {pulse : Pulse} {source : Source} (coherent : Coherent pulse source)
    (operation : Operation) : Coherent pulse (requestServerInfo source operation) := by
  cases operation with
  | refused message => exact coherent_reset rfl rfl rfl
  | accepted => exact coherent.same rfl rfl rfl rfl rfl

theorem subscribe_coherent {pulse : Pulse} {source : Source} (coherent : Coherent pulse source)
    (operation : Operation) : Coherent pulse (subscribe source operation) := by
  cases operation with
  | refused message => exact coherent.same rfl rfl rfl rfl rfl
  | accepted => exact coherent.same rfl rfl rfl rfl rfl

theorem contextStateChanged_coherent {pulse : Pulse} {source : Source} (coherent : Coherent pulse source)
    (subscription operation : Operation) (message : Bytes) :
    Coherent pulse (contextStateChanged source subscription operation message) := by
  cases state : source.context.state with
  | ready =>
    simp only [contextStateChanged,state]
    apply requestServerInfo_coherent
    apply subscribe_coherent
    exact coherent.same rfl rfl rfl rfl rfl
  | failed => simpa only [contextStateChanged,state] using coherent_reset rfl rfl rfl
  | terminated => simpa only [contextStateChanged,state] using coherent_reset rfl rfl rfl
  | unconnected => simpa only [contextStateChanged,state] using coherent
  | connecting => simpa only [contextStateChanged,state] using coherent
  | authorizing => simpa only [contextStateChanged,state] using coherent
  | settingName => simpa only [contextStateChanged,state] using coherent

theorem enter_coherent {pulse : Pulse} {source : Source} (coherent : Coherent pulse source) (state : ContextState)
    (subscription operation : Operation) (message : Bytes) :
    Coherent pulse (enter source state subscription operation message) := by
  have called : Coherent pulse (contextStateChanged
      { source with context := { source.context with state := state } } subscription operation message) := by
    apply contextStateChanged_coherent
    exact coherent.same rfl rfl rfl rfl rfl
  simp only [enter]
  split
  · exact called.same rfl rfl rfl rfl rfl
  · exact called

theorem sinkInfo_info_coherent (pulse : Pulse) (source : Source) (info : SinkInfo) :
    Coherent pulse (source.callback (.sinkInfo (.info info))) := by
  refine ⟨?_,?_⟩
  · intro _
    exact ⟨info,by simp [Source.callback,sinkInfo,Source.setError,Source.notify],rfl,rfl,rfl⟩
  · intro absent
    cases absent

theorem printed_empty {name : Bytes} : printed nameCapacity name = [] ↔ name = [] := by
  simp [printed,nameCapacity]

-- The name is held before anything has been received about the sink.
theorem serverInfo_coherent_iff {pulse : Pulse} {source : Source} (blank : source.Blank) (name : Bytes) :
    Coherent pulse (source.callback (.serverInfo (some name) .accepted)) ↔ name = [] := by
  constructor
  · intro coherent
    by_contra named
    have held : printed nameCapacity name ≠ [] := fun h => named (printed_empty.mp h)
    have stepped : source.callback (.serverInfo (some name) .accepted) =
        { source.answered with sink := printed nameCapacity name }.request
          (.sinkInfo (printed nameCapacity name)) := by
      simp only [Source.callback,serverInfo,requestSinkInfo,if_neg held]
    rw [stepped] at coherent
    exact held (coherent.absent blank.unavailable).1
  · rintro rfl
    exact coherent_reset rfl rfl rfl

theorem dispatch_coherent {pulse : Pulse} {source : Source} (coherent : Coherent pulse source) (action : Action)
    (operation : Operation) : Coherent pulse (dispatch source action operation).2 := by
  simp only [dispatch]
  split
  · exact coherent
  · split
    · exact coherent
    · cases operation with
      | accepted => exact coherent
      | refused message => exact coherent.same rfl rfl rfl rfl rfl

theorem apply_coherent_iff {pulse : Pulse} {source : Source} (coherent : Coherent pulse source)
    (blank : source.Blank) (event : Event) : Coherent pulse (apply source event) ↔ Sinkless event := by
  cases event with
  | snapshot => exact iff_of_true (coherent.same rfl rfl rfl rfl rfl) trivial
  | drain => exact iff_of_true (coherent.same rfl rfl rfl rfl rfl) trivial
  | dispatch action operation => exact iff_of_true (dispatch_coherent coherent action operation) trivial
  | callback callback =>
    have answered : Coherent pulse source.answered := coherent.same rfl rfl rfl rfl rfl
    cases callback with
    | contextState state subscription operation message =>
      exact iff_of_true (enter_coherent coherent state subscription operation message) trivial
    | serverInfo name operation =>
      cases name with
      | none => exact iff_of_true (coherent_reset rfl rfl rfl) trivial
      | some name =>
        cases operation with
        | accepted => exact serverInfo_coherent_iff blank name
        | refused message =>
          refine iff_of_true ?_ trivial
          simp only [apply,Source.callback,serverInfo,requestSinkInfo]
          split <;> exact coherent_reset rfl rfl rfl
    | sinkInfo reply =>
      cases reply with
      | failed message => exact iff_of_true (coherent_reset rfl rfl rfl) trivial
      | info info => exact iff_of_true (sinkInfo_info_coherent pulse source info) trivial
      | missing => exact iff_of_true coherent trivial
      | last => exact iff_of_true answered trivial
    | subscribeEvent facility operation =>
      refine iff_of_true ?_ trivial
      cases facility with
      | server => exact requestServerInfo_coherent coherent operation
      | sink => exact requestServerInfo_coherent coherent operation
      | other => exact coherent
    | subscribeComplete success message =>
      refine iff_of_true ?_ trivial
      cases success with
      | true => exact answered
      | false => exact answered.same rfl rfl rfl rfl rfl

namespace Source.Blank

theorem opened : opened.Blank := ⟨rfl,fun _ => List.not_mem_nil⟩

-- Requests may be dropped.
theorem of_pending {source other : Source} (blank : source.Blank) (available : other.available = false)
    (pending : ∀ request ∈ other.context.pending, request ∈ source.context.pending) : other.Blank :=
  ⟨available,fun name asked => blank.unasked name (pending _ asked)⟩

theorem answered {source : Source} (blank : source.Blank) : source.answered.Blank :=
  blank.of_pending blank.unavailable fun _ => List.mem_of_mem_tail

theorem request {source : Source} (blank : source.Blank) {request : Request}
    (other : ∀ name, request ≠ .sinkInfo name) : (source.request request).Blank := by
  refine ⟨blank.unavailable,fun name asked => ?_⟩
  rcases List.mem_append.mp asked with earlier | latest
  · exact blank.unasked name earlier
  · exact other name (List.mem_singleton.mp latest).symm

theorem requestServerInfo {source : Source} (blank : source.Blank) (operation : Operation) :
    (requestServerInfo source operation).Blank := by
  cases operation with
  | refused message => exact blank.of_pending rfl fun _ => id
  | accepted => exact blank.request fun _ => by simp

theorem subscribe {source : Source} (blank : source.Blank) (operation : Operation) :
    (subscribe source operation).Blank := by
  cases operation with
  | refused message => exact blank.of_pending blank.unavailable fun _ => id
  | accepted => exact blank.request fun _ => by simp

theorem contextStateChanged {source : Source} (blank : source.Blank) (subscription operation : Operation)
    (message : Bytes) : (contextStateChanged source subscription operation message).Blank := by
  cases state : source.context.state with
  | ready =>
    simp only [AudioSource.contextStateChanged,state]
    apply requestServerInfo
    apply subscribe
    exact blank.of_pending blank.unavailable fun _ => id
  | failed =>
    simp only [AudioSource.contextStateChanged,state]
    exact blank.of_pending rfl fun _ => id
  | terminated =>
    simp only [AudioSource.contextStateChanged,state]
    exact blank.of_pending rfl fun _ => id
  | unconnected => simpa only [AudioSource.contextStateChanged,state] using blank
  | connecting => simpa only [AudioSource.contextStateChanged,state] using blank
  | authorizing => simpa only [AudioSource.contextStateChanged,state] using blank
  | settingName => simpa only [AudioSource.contextStateChanged,state] using blank

theorem enter {source : Source} (blank : source.Blank) (state : ContextState) (subscription operation : Operation)
    (message : Bytes) : (enter source state subscription operation message).Blank := by
  have entered : { source with context := { source.context with state := state } }.Blank :=
    blank.of_pending blank.unavailable fun _ => id
  have called := entered.contextStateChanged subscription operation message
  simp only [AudioSource.enter]
  split
  · exact called.of_pending called.unavailable fun _ dropped => absurd dropped List.not_mem_nil
  · exact called

theorem dispatch {source : Source} (blank : source.Blank) (action : Action) (operation : Operation) :
    (dispatch source action operation).2.Blank := by
  simp only [AudioSource.dispatch]
  split
  · exact blank
  · split
    · exact blank
    · cases operation with
      | accepted => exact blank
      | refused message => exact blank.of_pending blank.unavailable fun _ => id

-- No sink-info callback can come, and a server-info one asks for no sink.
theorem apply {source : Source} (blank : source.Blank) {event : Event} (possible : Possible source event)
    (sinkless : Sinkless event) : (apply source event).Blank := by
  cases event with
  | snapshot => exact blank.of_pending blank.unavailable fun _ => id
  | drain => exact blank.of_pending blank.unavailable fun _ => id
  | dispatch action operation => exact blank.dispatch action operation
  | callback callback =>
    cases callback with
    | contextState state subscription operation message => exact blank.enter state subscription operation message
    | serverInfo name operation =>
      cases name with
      | none => exact blank.answered.of_pending rfl fun _ => id
      | some name =>
        cases operation with
        | accepted =>
          obtain rfl : name = [] := sinkless
          exact blank.answered.of_pending rfl fun _ => id
        | refused message =>
          simp only [AudioSource.apply,Source.callback,serverInfo,requestSinkInfo]
          split <;> exact blank.answered.of_pending rfl fun _ => id
    | sinkInfo reply =>
      obtain ⟨name,asked⟩ := possible
      exact absurd (List.mem_of_mem_head? asked) (blank.unasked name)
    | subscribeEvent facility operation =>
      cases facility with
      | server => exact blank.requestServerInfo operation
      | sink => exact blank.requestServerInfo operation
      | other => exact blank
    | subscribeComplete success message =>
      cases success with
      | true => exact blank.answered
      | false => exact blank.answered.of_pending blank.unavailable fun _ => id

end Source.Blank

theorem dispatch_issued {source : Source} {action : Action} {operation : Operation} {issued : Command}
    (done : (dispatch source action operation).1 = .issued issued) :
    source.available = true ∧ command source action = .ok issued := by
  simp only [dispatch] at done
  split at done
  · cases done
  · rename_i found formed
    split at done
    · cases done
    · rename_i usable
      cases operation with
      | accepted =>
        cases done
        refine ⟨?_,formed⟩
        simpa using fun h => usable (.inl h)
      | refused message => cases done

theorem command_addresses {source : Source} {action : Action} {formed : Command} {reply : SinkInfo}
    (carries : Carries reply source.sink source.volume source.muted)
    (made : command source action = .ok formed) : Addresses reply action formed := by
  obtain ⟨sink,volume,muted⟩ := carries
  cases action with
  | setVolume value =>
    simp only [command] at made
    split at made
    · cases made
    · cases made
      exact ⟨sink,by rw [volume]; rfl⟩
  | setMute mute =>
    cases made
    exact ⟨sink,fun toggle => by cases toggle⟩
  | toggleMute =>
    cases made
    exact ⟨sink,fun _ => by rw [muted]⟩
  | other name => cases made

-- What a reader or a dispatcher sees follows from the coherence of the record.
theorem Coherent.sound {pulse : Pulse} {source : Source} (coherent : Coherent pulse source) : Sound pulse source := by
  refine ⟨coherent,?_,?_⟩
  · intro available
    change source.available = true at available
    obtain ⟨reply,member,sink,volume,muted⟩ := coherent.present available
    refine ⟨reply,member,sink,muted,?_⟩
    simp only [snapshot,available,if_true,volume]
  · intro action operation issued done
    obtain ⟨available,made⟩ := dispatch_issued done
    obtain ⟨reply,member,carries⟩ := coherent.present available
    exact ⟨reply,member,command_addresses carries made⟩

theorem sound_run_iff (pulse : Pulse) (events : List Event) (possible : Runs.Each apply Possible opened events) :
    Runs.Throughout apply (Sound pulse) opened events ↔ Runs.Each apply (fun _ => Sinkless) opened events := by
  refine Runs.throughout_iff_each_beside ?_ (fun _ _ blank => blank.apply) (opened_coherent pulse).sound
    Source.Blank.opened possible
  intro source event sound blank _
  rw [← apply_coherent_iff sound.toCoherent blank event]
  exact ⟨fun h => h.toCoherent,fun h => h.sound⟩

def connection : List Event :=
  [.callback (.contextState .connecting .accepted .accepted []),
   .callback (.contextState .authorizing .accepted .accepted []),
   .callback (.contextState .settingName .accepted .accepted []),
   .callback (.contextState .ready .accepted .accepted []),
   .callback (.subscribeComplete true [])]

def mean : Pulse where
  average volume := UInt32.ofNat ((volume.values.map UInt32.toNat).sum/volume.channels.toNat)

theorem sinkless_run_sound :
    Runs.Each apply Possible opened (connection ++ [.callback (.serverInfo none .accepted),.snapshot]) ∧
    Runs.Throughout apply (Sound mean) opened (connection ++ [.callback (.serverInfo none .accepted),.snapshot]) := by
  have possible : Runs.Each apply Possible opened
      (connection ++ [.callback (.serverInfo none .accepted),.snapshot]) :=
    ⟨rfl,rfl,rfl,rfl,rfl,rfl,trivial,trivial⟩
  refine ⟨possible,(sound_run_iff mean _ possible).mpr ?_⟩
  exact ⟨trivial,trivial,trivial,trivial,trivial,trivial,trivial,trivial⟩

def speakers : SinkInfo := ⟨text "speakers",Volume.set 6 65536,1⟩

-- The default sink changes from muted speakers with six channels to headphones
-- about which nothing has been received yet.
def defaultChange : List Event :=
  connection ++
  [.callback (.serverInfo (some (text "speakers")) .accepted),
   .callback (.sinkInfo (.info speakers)),
   .callback (.sinkInfo .last),
   .callback (.subscribeEvent .server .accepted),
   .callback (.serverInfo (some (text "headphones")) .accepted)]

theorem default_change_mixes_sinks :
    Runs.Each apply Possible opened defaultChange ∧
    (Runs.final apply opened defaultChange).context.received = [speakers] ∧
    (dispatch (Runs.final apply opened defaultChange) .toggleMute .accepted).1 =
      .issued (.setSinkMute (text "headphones") false) ∧
    ∀ pulse, ¬Runs.Throughout apply (Sound pulse) opened defaultChange := by
  refine ⟨⟨rfl,rfl,rfl,rfl,rfl,rfl,⟨_,rfl⟩,⟨_,rfl⟩,rfl,rfl,trivial⟩,rfl,rfl,?_⟩
  intro pulse sound
  -- the last state of the run
  obtain ⟨-,-,-,-,-,-,-,-,-,-,last⟩ := sound
  obtain ⟨reply,member,sink,-⟩ := last.present rfl
  have only : reply = speakers := List.mem_singleton.mp member
  subst only
  revert sink
  decide

end Hypringo.AudioSource

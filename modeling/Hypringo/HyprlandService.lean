import Hypringo.Configuration
import Hypringo.Hyprland
import Hypringo.HyprlandEvents
import Hypringo.JsonText
import Hypringo.Runs

namespace Hypringo.HyprlandService
open Hypringo.Lua Json HyprlandEvents

-- What Hyprland answers to the three queries.
structure View where
  monitors : Bytes
  workspaces : Bytes
  activeWindow : Bytes
  deriving DecidableEq, Repr

-- Every state Hyprland has been in, how many of the changes its answers show,
-- and how many it has announced with an event.
structure Compositor where
  initial : View
  changes : List View
  shown : Nat
  announced : Nat
  deriving DecidableEq, Repr

def Compositor.latest (compositor : Compositor) : Nat := compositor.changes.length

def Compositor.view (compositor : Compositor) : Nat → View
  | 0 => compositor.initial
  | n + 1 => compositor.changes[n]?.getD compositor.initial

-- The event stream the service holds. `wire` has been written and not been
-- read. `lines` and `lost` are records: the events not consumed yet, and the
-- number emitted after Hyprland closed its end.
structure Stream where
  peer : Bool
  wire : Bytes
  lines : List Bytes
  lost : Nat
  deriving DecidableEq, Repr

-- `sent` and `attempted` are records: the patches sent to the state service,
-- and whether a connect has been tried.
structure Service where
  sourceConfig : Configuration.Hyprland
  eventBuffer : Bytes
  eventStream : Option Stream
  reconnectMs : Int
  stopping : Bool
  sent : List Hyprland.Patch
  attempted : Bool

inductive Origin where
  | connect
  | consume
  deriving DecidableEq, Repr

-- What event_stream:wait returns.
inductive Reply where
  | failed (message : Bytes)
  | chunk (data : Bytes) (wake : Bool)
  | closed (error : Option Bytes) (wake : Bool)
  | nothing (wake : Bool)
  deriving DecidableEq, Repr

def Reply.wake : Reply → Bool
  | .failed _ => false
  | .chunk _ wake | .closed _ wake | .nothing wake => wake

-- Where the service stands: between two runs of the idle handler, in one of its
-- waits, before one of the queries of resync, or after a wait, when messages
-- may be handled. `since` records what the answers showed when resync began.
inductive Phase where
  | between
  | retrying
  | monitors (origin : Origin) (since : Nat)
  | workspaces (origin : Origin) (since : Nat) (monitors : Tree)
  | activeWindow (origin : Origin) (since : Nat) (monitors workspaces : Tree)
  | waiting
  | woken (reply : Reply)
  | raised

-- `synced` records what the answers showed when the last complete resync began.
structure System where
  compositor : Compositor
  service : Service
  phase : Phase
  synced : Nat

-- ipc.request: an error it returns, one it raises, or what Hyprland answers.
inductive Answer where
  | failed (message : Bytes)
  | exceeded
  | response
  deriving DecidableEq, Repr

inductive Wakeup where
  | failed
  | ready
  | timedOut
  deriving DecidableEq, Repr

inductive Event where
  | change (view : View)
  | reveal (count : Nat)
  | emit (line : Bytes) (announced : Nat)
  | hangUp
  | begin (outcome : Except Bytes Unit)
  | answer (outcome : Answer)
  | wakeup (outcome : Wakeup)
  | wait (reply : Reply)
  | resume
  | reload (config : Configuration.Hyprland)
  | quit

structure Environment where
  yyjson : Yyjson
  sorting : Hyprland.Sorting

def monitorsCommand : Bytes := text "j/monitors"
def workspacesCommand : Bytes := text "j/workspaces"
def activeWindowCommand : Bytes := text "j/activewindow"

def parseResponse (y : Yyjson) (command response : Bytes) : Except Bytes Tree :=
  match decode y response with
  | .error message => .error (command ++ text " returned invalid JSON: " ++ message)
  | .ok decoded =>
    if Hyprland.isTable decoded then .ok decoded
    else .error (command ++ text " returned a non-container JSON value")

-- decode_response; `none` when ipc.request raises, which nothing catches.
def decodeResponse (y : Yyjson) (command : Bytes) (outcome : Answer) (body : Bytes) : Option (Except Bytes Tree) :=
  match outcome with
  | .failed message => some (.error (command ++ text " request failed: " ++ message))
  | .exceeded => none
  | .response => some (parseResponse y command body)

def publish (service : Service) (patch : Hyprland.Patch) : Service := { service with sent := service.sent ++ [patch] }

def disconnect (service : Service) (message : Bytes) : Service :=
  let closed := { service with eventStream := none, eventBuffer := [] }
  if service.stopping then closed else publish closed (Hyprland.unavailable (some message))

-- connect and consume both disconnect when resync returns an error.
def abandon (s : System) (origin : Origin) (message : Bytes) : System :=
  { s with
    service := disconnect s.service message
    phase := match origin with
      | .connect => .retrying
      | .consume => .between }

def proceed (s : System) (origin : Origin) (answer : Option (Except Bytes Tree)) (next : Tree → System) : System :=
  match answer with
  | none => { s with phase := .raised }
  | some (.error message) => abandon s origin message
  | some (.ok tree) => next tree

def finish (environment : Environment) (s : System) (origin : Origin) (since : Nat)
    (monitors workspaces activeWindow : Tree) : System :=
  let service := publish s.service (Hyprland.snapshot environment.sorting monitors workspaces activeWindow)
  match origin with
  | .connect =>
    { s with
      service := { service with reconnectMs := service.sourceConfig.reconnectMinMs }, phase := .waiting, synced := since }
  | .consume => { s with service := service, phase := .between, synced := since }

def answer (environment : Environment) (s : System) (outcome : Answer) : System :=
  let view := s.compositor.view s.compositor.shown
  match s.phase with
  | .monitors origin since =>
    proceed s origin (decodeResponse environment.yyjson monitorsCommand outcome view.monitors)
      (fun tree => { s with phase := .workspaces origin since tree })
  | .workspaces origin since monitors =>
    proceed s origin (decodeResponse environment.yyjson workspacesCommand outcome view.workspaces)
      (fun tree => { s with phase := .activeWindow origin since monitors tree })
  | .activeWindow origin since monitors workspaces =>
    proceed s origin (decodeResponse environment.yyjson activeWindowCommand outcome view.activeWindow)
      (finish environment s origin since monitors workspaces)
  | _ => s

-- A run of the idle handler up to its first query or wait. The outcome is that
-- of ipc.connect, where it is called.
def begin (s : System) (outcome : Except Bytes Unit) : System :=
  match s.phase with
  | .between =>
    if s.service.stopping then s
    else match s.service.eventStream,outcome with
      | some _,_ => { s with phase := .waiting }
      | none,.error message =>
        { s with service := { disconnect s.service message with attempted := true }, phase := .retrying }
      | none,.ok () =>
        { s with
          service := { s.service with eventStream := some ⟨true,[],[],0⟩, attempted := true }
          phase := .monitors .connect s.compositor.shown }
  | _ => s

def wakeup (s : System) (outcome : Wakeup) : System :=
  match s.phase,outcome with
  | .retrying,.timedOut =>
    let delay := min s.service.sourceConfig.reconnectMaxMs (s.service.reconnectMs * 2)
    { s with service := { s.service with reconnectMs := delay }, phase := .between }
  | .retrying,_ => { s with phase := .between }
  | _,_ => s

def readFrom (stream : Stream) : Reply → Stream
  | .chunk data _ => { stream with wire := stream.wire.drop data.length }
  | _ => stream

def wait (s : System) (reply : Reply) : System :=
  match s.phase with
  | .waiting =>
    { s with
      service := { s.service with eventStream := s.service.eventStream.map (readFrom · reply) }, phase := .woken reply }
  | _ => s

-- The record of a stream whose first lines have been consumed.
def consumeLines (count : Nat) (stream : Stream) : Stream := { stream with lines := stream.lines.drop count }

def consume (s : System) (chunk : Bytes) : System :=
  match consumeEvents s.service.eventBuffer chunk with
  | .error message => abandon s .consume message
  | .ok consumed =>
    let complete := (lines (s.service.eventBuffer ++ chunk)).1
    { s with
      service := { s.service with
        eventBuffer := consumed.remainder
        eventStream := s.service.eventStream.map (consumeLines complete.length) }
      phase := if consumed.relevant then .monitors .consume s.compositor.shown else .between }

def resume (s : System) : System :=
  match s.phase with
  | .woken (.chunk data _) => consume s data
  | .woken (.failed message) => abandon s .consume message
  | .woken (.closed error _) => abandon s .consume (error.getD (text "Hyprland event socket closed"))
  | .woken (.nothing _) => { s with phase := .between }
  | _ => s

def writeTo (line : Bytes) (stream : Stream) : Stream :=
  if stream.peer then { stream with wire := stream.wire ++ line ++ [newline], lines := stream.lines ++ [line] }
  else { stream with lost := stream.lost + 1 }

def emit (s : System) (line : Bytes) (announced : Nat) : System :=
  { s with
    compositor := { s.compositor with announced := announced, shown := max s.compositor.shown announced }
    service := { s.service with eventStream := s.service.eventStream.map (writeTo line) } }

def hangUp (stream : Stream) : Stream := { stream with peer := false }

def reload (service : Service) (config : Configuration.Hyprland) : Service :=
  { service with
    sourceConfig := config
    reconnectMs := max config.reconnectMinMs (min config.reconnectMaxMs service.reconnectMs) }

def apply (environment : Environment) (s : System) : Event → System
  | .change view => { s with compositor := { s.compositor with changes := s.compositor.changes ++ [view] } }
  | .reveal count => { s with compositor := { s.compositor with shown := count } }
  | .emit line announced => emit s line announced
  | .hangUp => { s with service := { s.service with eventStream := s.service.eventStream.map hangUp } }
  | .begin outcome => begin s outcome
  | .answer outcome => answer environment s outcome
  | .wakeup outcome => wakeup s outcome
  | .wait reply => wait s reply
  | .resume => resume s
  | .reload config => { s with service := reload s.service config }
  | .quit => { s with service := { s.service with stopping := true, eventStream := none } }

-- Messages are handled between two runs and in wait_message.
def Listening : Phase → Prop
  | .between => True
  | .woken reply => reply.wake = true
  | _ => False

def chunkSize : Nat := 65536

-- A change is visible to queries before or when its event is written, and its
-- event is one of the relevant set. Any other event may be written at any time.
def Possible (s : System) : Event → Prop
  | .reveal count => s.compositor.shown ≤ count ∧ count ≤ s.compositor.latest
  | .emit line announced => newline ∉ line ∧ s.compositor.announced ≤ announced ∧ announced ≤ s.compositor.latest ∧
      (s.compositor.announced < announced → relevant line = true)
  | .wait (.chunk data _) => 0 < data.length ∧ data.length ≤ chunkSize ∧
      ∀ stream, s.service.eventStream = some stream → data <+: stream.wire
  | .reload _ | .quit => Listening s.phase
  | _ => True

def boot (config : Configuration.Hyprland) (view : View) : System where
  compositor := ⟨view,[],0,0⟩
  service := ⟨config,[],none,config.reconnectMinMs,false,[],false⟩
  phase := .between
  synced := 0

-- The service is between two runs of its idle handler or blocked in its wait
-- for events.
def AtRest : Phase → Prop
  | .between | .waiting => True
  | _ => False

def Shows (environment : Environment) (patch : Hyprland.Patch) (view : View) : Prop :=
  ∃ monitors workspaces activeWindow,
    parseResponse environment.yyjson monitorsCommand view.monitors = .ok monitors ∧
    parseResponse environment.yyjson workspacesCommand view.workspaces = .ok workspaces ∧
    parseResponse environment.yyjson activeWindowCommand view.activeWindow = .ok activeWindow ∧
    patch = Hyprland.snapshot environment.sorting monitors workspaces activeWindow

-- Everything emitted has been read and consumed, and every change announced.
structure Settled (s : System) (stream : Stream) : Prop where
  held : s.service.eventStream = some stream
  read : stream.wire = []
  none : stream.lost = 0
  buffer : s.service.eventBuffer = []
  announced : s.compositor.announced = s.compositor.latest

structure Mirrored (environment : Environment) (s : System) : Prop where
  connected : AtRest s.phase → ∀ stream, Settled s stream →
    ∃ patch, s.service.sent.getLast? = some patch ∧ Shows environment patch (s.compositor.view s.compositor.latest)
  disconnected : s.phase = .between → s.service.attempted = true → s.service.stopping = false →
    s.service.eventStream = none → ∃ message, s.service.sent.getLast? = some (Hyprland.unavailable message)

structure Grown (before after : Compositor) : Prop where
  views : ∀ i ≤ before.latest, after.view i = before.view i
  latest : before.latest ≤ after.latest
  shown : before.shown ≤ after.shown

theorem Grown.same {before after : Compositor} (initial : after.initial = before.initial)
    (changes : after.changes = before.changes) (shown : before.shown ≤ after.shown) : Grown before after := by
  refine ⟨?_,?_,shown⟩
  · intro i _
    cases i with
    | zero => exact initial
    | succ n => simp only [Compositor.view,changes,initial]
  · simp only [Compositor.latest,changes,le_refl]

theorem Grown.change (compositor : Compositor) (view : View) :
    Grown compositor { compositor with changes := compositor.changes ++ [view] } := by
  refine ⟨?_,?_,Nat.le_refl _⟩
  · intro i le
    cases i with
    | zero => rfl
    | succ n => simp only [Compositor.view,List.getElem?_append_left (Nat.lt_of_succ_le le)]
  · simp [Compositor.latest]

-- One of the states the answers have shown from `since` on.
def Seen (compositor : Compositor) (since : Nat) (answers : View → Prop) : Prop :=
  ∃ i, since ≤ i ∧ i ≤ compositor.shown ∧ answers (compositor.view i)

theorem Seen.grown {before after : Compositor} {since : Nat} {answers : View → Prop} (grown : Grown before after)
    (bound : before.shown ≤ before.latest) (seen : Seen before since answers) : Seen after since answers := by
  obtain ⟨i,low,high,answered⟩ := seen
  refine ⟨i,low,Nat.le_trans high grown.shown,?_⟩
  rw [grown.views i (Nat.le_trans high bound)]
  exact answered

section
variable (environment : Environment)

def GivesMonitors (tree : Tree) (view : View) : Prop :=
  parseResponse environment.yyjson monitorsCommand view.monitors = .ok tree
def GivesWorkspaces (tree : Tree) (view : View) : Prop :=
  parseResponse environment.yyjson workspacesCommand view.workspaces = .ok tree
def GivesActiveWindow (tree : Tree) (view : View) : Prop :=
  parseResponse environment.yyjson activeWindowCommand view.activeWindow = .ok tree

-- The three answers of a resync may be of three states, none from before it
-- began.
def Sampled (compositor : Compositor) (since : Nat) (patch : Hyprland.Patch) : Prop :=
  ∃ monitors workspaces activeWindow, Seen compositor since (GivesMonitors environment monitors) ∧
    Seen compositor since (GivesWorkspaces environment workspaces) ∧
    Seen compositor since (GivesActiveWindow environment activeWindow) ∧
    patch = Hyprland.snapshot environment.sorting monitors workspaces activeWindow

-- What the queries so far have brought.
def Answered (compositor : Compositor) : Phase → Prop
  | .monitors _ since => since ≤ compositor.shown
  | .workspaces _ since monitors => since ≤ compositor.shown ∧ Seen compositor since (GivesMonitors environment monitors)
  | .activeWindow _ since monitors workspaces => since ≤ compositor.shown ∧
      Seen compositor since (GivesMonitors environment monitors) ∧
      Seen compositor since (GivesWorkspaces environment workspaces)
  | _ => True

end

theorem Sampled.grown {environment : Environment} {before after : Compositor} {since : Nat} {patch : Hyprland.Patch}
    (grown : Grown before after) (bound : before.shown ≤ before.latest)
    (sampled : Sampled environment before since patch) : Sampled environment after since patch := by
  obtain ⟨monitors,workspaces,activeWindow,one,two,three,same⟩ := sampled
  exact ⟨monitors,workspaces,activeWindow,one.grown grown bound,two.grown grown bound,three.grown grown bound,same⟩

theorem Answered.grown {environment : Environment} {before after : Compositor} {phase : Phase}
    (grown : Grown before after) (bound : before.shown ≤ before.latest) (answered : Answered environment before phase) :
    Answered environment after phase := by
  cases phase with
  | monitors origin since => exact Nat.le_trans answered grown.shown
  | workspaces origin since monitors => exact ⟨Nat.le_trans answered.1 grown.shown,answered.2.grown grown bound⟩
  | activeWindow origin since monitors workspaces =>
    exact ⟨Nat.le_trans answered.1 grown.shown,answered.2.1.grown grown bound,answered.2.2.grown grown bound⟩
  | _ => trivial

-- A chunk that has been read and not yet been consumed.
def inHand : Phase → Bytes
  | .woken (.chunk data _) => data
  | _ => []

-- The resync that is complete or under way covers what was shown at this point.
def mark (s : System) : Nat :=
  match s.phase with
  | .monitors _ since | .workspaces _ since _ | .activeWindow _ since _ _ => since
  | _ => s.synced

-- The buffer and the wire hold the lines not consumed yet. A change announced
-- after the mark has its event among them, unless Hyprland has hung up before.
structure Wired (s : System) (stream : Stream) : Prop where
  single : ∀ line ∈ stream.lines, newline ∉ line
  held : s.service.eventBuffer ++ inHand s.phase ++ stream.wire = joined stream.lines
  covered : s.compositor.announced ≤ mark s ∨ (∃ line ∈ stream.lines, relevant line = true) ∨ 0 < stream.lost

-- A resync is under way or a wait for events.
def Busy : Phase → Prop
  | .between | .retrying | .raised => False
  | _ => True

-- The last resync is complete.
def Resting : Phase → Prop
  | .between | .waiting | .woken _ => True
  | _ => False

def Cleared (service : Service) : Prop := ∃ message, service.sent.getLast? = some (Hyprland.unavailable message)

structure Invariant (environment : Environment) (s : System) : Prop where
  announced : s.compositor.announced ≤ s.compositor.shown
  shown : s.compositor.shown ≤ s.compositor.latest
  emptied : s.service.eventStream = none → s.service.stopping = false → s.service.eventBuffer = []
  wired : ∀ stream, s.service.eventStream = some stream → s.phase ≠ .raised → Wired s stream
  answered : Answered environment s.compositor s.phase
  busy : Busy s.phase → s.service.stopping = false → s.service.eventStream ≠ none
  retrying : s.phase = .retrying → s.service.eventStream = none
  sampled : Resting s.phase → s.service.eventStream ≠ none →
    ∃ patch, s.service.sent.getLast? = some patch ∧ Sampled environment s.compositor s.synced patch
  cleared : s.phase = .between ∨ s.phase = .retrying → s.service.attempted = true → s.service.stopping = false →
    s.service.eventStream = none → Cleared s.service

theorem boot_invariant (environment : Environment) (config : Configuration.Hyprland) (view : View) :
    Invariant environment (boot config view) where
  announced := Nat.le_refl _
  shown := Nat.le_refl _
  emptied _ _ := rfl
  wired _ held := by cases held
  answered := trivial
  busy busy := by cases busy
  retrying _ := rfl
  sampled _ held := absurd rfl held
  cleared _ attempted := by cases attempted

theorem Invariant.mirrored {environment : Environment} {s : System} (invariant : Invariant environment s) :
    Mirrored environment s := by
  refine ⟨?_,fun between => invariant.cleared (.inl between)⟩
  intro rest stream settled
  have resting : Resting s.phase ∧ s.phase ≠ .raised ∧ inHand s.phase = [] ∧ mark s = s.synced := by
    unfold mark
    cases here : s.phase <;> simp_all [AtRest,Resting,inHand]
  obtain ⟨resting,alive,idle,marked⟩ := resting
  obtain ⟨single,held,covered⟩ := invariant.wired stream settled.held alive
  have nothing : stream.lines = [] := by
    rw [settled.buffer,settled.read,idle] at held
    exact joined_nil_iff.mp held.symm
  obtain ⟨patch,last,monitors,workspaces,activeWindow,one,two,three,same⟩ :=
    invariant.sampled resting (by simp [settled.held])
  -- No event is left that could announce something later than the last resync.
  have since : s.compositor.latest ≤ s.synced := by
    rcases covered with enough | ⟨line,listed,_⟩ | lost
    · rw [settled.announced,marked] at enough
      exact enough
    · rw [nothing] at listed
      cases listed
    · rw [settled.none] at lost
      cases lost
  have latest : ∀ {answers}, Seen s.compositor s.synced answers → answers (s.compositor.view s.compositor.latest) := by
    rintro answers ⟨i,low,high,answered⟩
    have exactly : i = s.compositor.latest := by
      have := invariant.shown
      omega
    exact exactly ▸ answered
  exact ⟨patch,last,monitors,workspaces,activeWindow,latest one,latest two,latest three,same⟩

theorem compositor_invariant {environment : Environment} {s : System} (invariant : Invariant environment s)
    {compositor : Compositor} (grown : Grown s.compositor compositor)
    (announced : compositor.announced = s.compositor.announced) (shown : compositor.shown ≤ compositor.latest) :
    Invariant environment { s with compositor := compositor } := by
  refine ⟨?_,shown,invariant.emptied,?_,invariant.answered.grown grown invariant.shown,invariant.busy,invariant.retrying,
    ?_,invariant.cleared⟩
  · rw [announced]
    exact Nat.le_trans invariant.announced grown.shown
  · intro stream held alive
    obtain ⟨single,joined,covered⟩ := invariant.wired stream held alive
    exact ⟨single,joined,by simpa only [announced,mark] using covered⟩
  · intro rest held
    obtain ⟨patch,last,sampled⟩ := invariant.sampled rest held
    exact ⟨patch,last,sampled.grown grown invariant.shown⟩

theorem disconnect_stream (service : Service) (message : Bytes) : (disconnect service message).eventStream = none := by
  unfold disconnect
  dsimp only
  split <;> rfl

theorem disconnect_buffer (service : Service) (message : Bytes) : (disconnect service message).eventBuffer = [] := by
  unfold disconnect
  dsimp only
  split <;> rfl

theorem disconnect_cleared {service : Service} {message : Bytes} (running : (disconnect service message).stopping = false) :
    Cleared (disconnect service message) := by
  unfold disconnect at running ⊢
  dsimp only at running ⊢
  split
  · rename_i stopping
    rw [if_pos stopping] at running
    exact absurd stopping (by simpa using running)
  · exact ⟨some message,by simp [publish]⟩

-- Without a stream there is nothing left to rely on but the patch of
-- disconnect.
theorem dropped_invariant {environment : Environment} {s t : System} (invariant : Invariant environment s)
    (compositor : t.compositor = s.compositor) (phase : t.phase = .between ∨ t.phase = .retrying)
    (stream : t.service.eventStream = none) (buffer : t.service.eventBuffer = [])
    (cleared : t.service.stopping = false → Cleared t.service) : Invariant environment t := by
  refine ⟨?_,?_,fun _ _ => buffer,?_,?_,?_,fun _ => stream,?_,fun _ _ running _ => cleared running⟩
  · rw [compositor]
    exact invariant.announced
  · rw [compositor]
    exact invariant.shown
  · intro held some _
    rw [stream] at some
    cases some
  · rcases phase with here | here <;> simp [here,Answered]
  · rcases phase with here | here <;> simp [here,Busy]
  · intro _ held
    exact absurd stream held

theorem abandon_invariant {environment : Environment} {s : System} (invariant : Invariant environment s) (origin : Origin)
    (message : Bytes) : Invariant environment (abandon s origin message) := by
  refine dropped_invariant invariant rfl ?_ (disconnect_stream _ _) (disconnect_buffer _ _) disconnect_cleared
  cases origin with
  | connect => exact .inr rfl
  | consume => exact .inl rfl

theorem begin_invariant {environment : Environment} {s : System} (invariant : Invariant environment s)
    (outcome : Except Bytes Unit) : Invariant environment (begin s outcome) := by
  unfold begin
  split
  · rename_i here
    split
    · exact invariant
    · rename_i running
      split
      · rename_i stream held
        refine ⟨invariant.announced,invariant.shown,invariant.emptied,?_,trivial,?_,?_,?_,?_⟩
        · intro other same alive
          obtain ⟨single,joined,covered⟩ := invariant.wired other same (by simp [here])
          rw [here] at joined
          refine ⟨single,joined,?_⟩
          simpa only [mark,here] using covered
        · intro _ _ none
          rw [held] at none
          cases none
        · exact fun phase => by cases phase
        · exact fun _ some => invariant.sampled (by simp [here,Resting]) some
        · rintro (phase | phase) <;> cases phase
      · refine dropped_invariant invariant rfl (.inr rfl) (disconnect_stream _ _) (disconnect_buffer _ _) ?_
        exact fun running => disconnect_cleared running
      · rename_i none
        have emptied := invariant.emptied none (by simpa using running)
        refine ⟨invariant.announced,invariant.shown,fun none => (by cases none),?_,Nat.le_refl _,
          fun _ _ none => (by cases none),fun phase => (by cases phase),fun rest => (by cases rest),?_⟩
        · intro stream same _
          cases same
          refine ⟨by simp,?_,.inl invariant.announced⟩
          rw [emptied]
          rfl
        · rintro (phase | phase) <;> cases phase
  · exact invariant

theorem wakeup_invariant {environment : Environment} {s : System} (invariant : Invariant environment s) (outcome : Wakeup) :
    Invariant environment (wakeup s outcome) := by
  have back : s.phase = .retrying → ∀ delay, Invariant environment
      { s with service := { s.service with reconnectMs := delay }, phase := .between } := by
    intro here delay
    have none := invariant.retrying here
    refine ⟨invariant.announced,invariant.shown,invariant.emptied,?_,trivial,fun busy => (by cases busy),fun _ => none,?_,?_⟩
    · intro stream held _
      rw [none] at held
      cases held
    · exact fun _ held => absurd none held
    · exact fun _ attempted running _ => invariant.cleared (.inr here) attempted running none
  unfold wakeup
  split
  · exact back (by assumption) _
  · exact back (by assumption) s.service.reconnectMs
  · exact invariant

theorem raised_invariant {environment : Environment} {s : System} (invariant : Invariant environment s) :
    Invariant environment { s with phase := .raised } := by
  refine ⟨invariant.announced,invariant.shown,invariant.emptied,fun _ _ alive => absurd rfl alive,trivial,
    fun busy => (by cases busy),fun phase => (by cases phase),fun rest => (by cases rest),?_⟩
  rintro (phase | phase) <;> cases phase

-- Another query of the same resync.
theorem ask_invariant {environment : Environment} {s : System} (invariant : Invariant environment s) {phase : Phase}
    (before : Busy s.phase) (after : Busy phase) (fresh : ¬Resting phase) (alive : s.phase ≠ .raised)
    (answered : Answered environment s.compositor phase) (hand : inHand phase = inHand s.phase)
    (marked : mark { s with phase := phase } = mark s) : Invariant environment { s with phase := phase } := by
  refine ⟨invariant.announced,invariant.shown,invariant.emptied,?_,answered,fun _ => invariant.busy before,?_,
    fun rest => absurd rest fresh,?_⟩
  · intro stream held _
    obtain ⟨single,joined,covered⟩ := invariant.wired stream held alive
    exact ⟨single,by rw [hand]; exact joined,by rw [marked]; exact covered⟩
  · intro here
    dsimp only at here
    rw [here] at after
    cases after
  · rintro (here | here) <;> (dsimp only at here; rw [here] at after; cases after)

theorem finish_invariant {environment : Environment} {s : System} (invariant : Invariant environment s) {origin : Origin}
    {since : Nat} {monitors workspaces activeWindow : Tree}
    (here : s.phase = .activeWindow origin since monitors workspaces)
    (given : Seen s.compositor since (GivesActiveWindow environment activeWindow)) :
    Invariant environment (finish environment s origin since monitors workspaces activeWindow) := by
  have answered := invariant.answered
  rw [here] at answered
  have sampled : ∃ patch, (s.service.sent ++ [Hyprland.snapshot environment.sorting monitors workspaces activeWindow]).getLast? =
      some patch ∧ Sampled environment s.compositor since patch :=
    ⟨_,List.getLast?_concat,monitors,workspaces,activeWindow,answered.2.1,answered.2.2,given,rfl⟩
  have wired : ∀ stream, s.service.eventStream = some stream → (∀ line ∈ stream.lines, newline ∉ line) ∧
      s.service.eventBuffer ++ [] ++ stream.wire = joined stream.lines ∧
      (s.compositor.announced ≤ since ∨ (∃ line ∈ stream.lines, relevant line = true) ∨ 0 < stream.lost) := by
    intro stream held
    obtain ⟨single,joined,covered⟩ := invariant.wired stream held (by simp [here])
    rw [here] at joined
    simp only [mark,here] at covered
    exact ⟨single,joined,covered⟩
  have holding := invariant.busy (by simp [here,Busy])
  cases origin with
  | connect =>
    refine ⟨invariant.announced,invariant.shown,invariant.emptied,?_,trivial,fun _ => holding,fun phase => (by cases phase),
      fun _ _ => sampled,?_⟩
    · intro stream held _
      obtain ⟨single,joined,covered⟩ := wired stream held
      exact ⟨single,joined,covered⟩
    · rintro (phase | phase) <;> cases phase
  | consume =>
    refine ⟨invariant.announced,invariant.shown,invariant.emptied,?_,trivial,fun busy => (by cases busy),
      fun phase => (by cases phase),fun _ _ => sampled,?_⟩
    · intro stream held _
      obtain ⟨single,joined,covered⟩ := wired stream held
      exact ⟨single,joined,covered⟩
    · intro _ _ running none
      exact absurd none (holding running)

theorem decodeResponse_ok {y : Yyjson} {command body : Bytes} {outcome : Answer} {tree : Tree}
    (decoded : decodeResponse y command outcome body = some (.ok tree)) : parseResponse y command body = .ok tree := by
  cases outcome with
  | failed message => simp [decodeResponse] at decoded
  | exceeded => cases decoded
  | response => exact Option.some.inj decoded

theorem proceed_invariant {environment : Environment} {s : System} (invariant : Invariant environment s) (origin : Origin)
    (answer : Option (Except Bytes Tree)) (next : Tree → System)
    (done : ∀ tree, answer = some (.ok tree) → Invariant environment (next tree)) :
    Invariant environment (proceed s origin answer next) := by
  unfold proceed
  split
  · exact raised_invariant invariant
  · exact abandon_invariant invariant origin _
  · exact done _ rfl

theorem answer_invariant {environment : Environment} {s : System} (invariant : Invariant environment s)
    (outcome : Answer) : Invariant environment (answer environment s outcome) := by
  have answered := invariant.answered
  -- An answer shows what is shown now.
  have now : ∀ {since answers}, since ≤ s.compositor.shown → answers (s.compositor.view s.compositor.shown) →
      Seen s.compositor since answers := fun low given => ⟨_,low,Nat.le_refl _,given⟩
  unfold answer
  dsimp only
  split
  · rename_i origin since here
    rw [here] at answered
    refine proceed_invariant invariant origin _ _ ?_
    intro tree decoded
    refine ask_invariant invariant (by simp [here,Busy]) trivial (fun rest => by cases rest) (by simp [here]) ?_
      (by simp [here,inHand]) (by simp [mark,here])
    exact ⟨answered,now answered (decodeResponse_ok decoded)⟩
  · rename_i origin since monitors here
    rw [here] at answered
    refine proceed_invariant invariant origin _ _ ?_
    intro tree decoded
    refine ask_invariant invariant (by simp [here,Busy]) trivial (fun rest => by cases rest) (by simp [here]) ?_
      (by simp [here,inHand]) (by simp [mark,here])
    exact ⟨answered.1,answered.2,now answered.1 (decodeResponse_ok decoded)⟩
  · rename_i origin since monitors workspaces here
    rw [here] at answered
    refine proceed_invariant invariant origin _ _ ?_
    intro tree decoded
    exact finish_invariant invariant here (now answered.1 (decodeResponse_ok decoded))
  · exact invariant

-- What others do to the stream, or the service between its steps: the phase and
-- the record of patches stay.
theorem stream_invariant {environment : Environment} {s : System} (invariant : Invariant environment s)
    {compositor : Compositor} {update : Stream → Stream} (grown : Grown s.compositor compositor)
    (announced : compositor.announced ≤ compositor.shown) (shown : compositor.shown ≤ compositor.latest)
    (wired : ∀ stream, s.service.eventStream = some stream → s.phase ≠ .raised → Wired s stream →
      Wired { s with
        compositor := compositor
        service := { s.service with eventStream := s.service.eventStream.map update } } (update stream)) :
    Invariant environment { s with
      compositor := compositor
      service := { s.service with eventStream := s.service.eventStream.map update } } := by
  have absent : s.service.eventStream.map update = none ↔ s.service.eventStream = none := Option.map_eq_none_iff
  refine ⟨announced,shown,fun none => invariant.emptied (absent.mp none),?_,invariant.answered.grown grown invariant.shown,
    ?_,?_,?_,?_⟩
  · intro later held alive
    obtain ⟨stream,before,same⟩ := Option.map_eq_some_iff.mp held
    rw [← same]
    exact wired stream before alive (invariant.wired stream before alive)
  · exact fun busy running none => invariant.busy busy running (absent.mp none)
  · exact fun here => absent.mpr (invariant.retrying here)
  · intro rest held
    obtain ⟨patch,last,sampled⟩ := invariant.sampled rest (fun none => held (absent.mpr none))
    exact ⟨patch,last,sampled.grown grown invariant.shown⟩
  · exact fun here attempted running none => invariant.cleared here attempted running (absent.mp none)

theorem emit_invariant {environment : Environment} {s : System} (invariant : Invariant environment s) {line : Bytes}
    {announced : Nat} (single : newline ∉ line) (low : s.compositor.announced ≤ announced)
    (high : announced ≤ s.compositor.latest) (telling : s.compositor.announced < announced → relevant line = true) :
    Invariant environment (emit s line announced) := by
  refine stream_invariant invariant (.same rfl rfl (Nat.le_max_left _ _)) (Nat.le_max_right _ _)
    (max_le invariant.shown high) ?_
  intro stream _ _ wired
  have stays : announced = s.compositor.announced → s.compositor.announced ≤ mark s → announced ≤ mark s := by
    intro same le
    rw [same]
    exact le
  unfold writeTo
  split
  · refine ⟨?_,?_,?_⟩
    · intro other listed
      rcases List.mem_append.mp listed with old | new
      · exact wired.single other old
      · rw [List.mem_singleton.mp new]
        exact single
    · have held := wired.held
      rw [joined_append,← held]
      simp [joined]
    · rcases Nat.lt_or_ge s.compositor.announced announced with more | same
      · exact .inr (.inl ⟨line,by simp,telling more⟩)
      · rcases wired.covered with enough | ⟨other,listed,tells⟩ | lost
        · exact .inl (stays (Nat.le_antisymm same low) enough)
        · exact .inr (.inl ⟨other,by simp [listed],tells⟩)
        · exact .inr (.inr lost)
  · exact ⟨wired.single,wired.held,.inr (.inr (Nat.succ_pos _))⟩

theorem hangUp_invariant {environment : Environment} {s : System} (invariant : Invariant environment s) :
    Invariant environment { s with service := { s.service with eventStream := s.service.eventStream.map hangUp } } :=
  stream_invariant invariant (.same rfl rfl (Nat.le_refl _)) invariant.announced invariant.shown
    (fun _ _ _ wired => ⟨wired.single,wired.held,wired.covered⟩)

theorem wait_invariant {environment : Environment} {s : System} (invariant : Invariant environment s) {reply : Reply}
    (given : ∀ data wake, reply = .chunk data wake → ∀ stream, s.service.eventStream = some stream → data <+: stream.wire) :
    Invariant environment (wait s reply) := by
  unfold wait
  split
  · rename_i here
    have absent : s.service.eventStream.map (readFrom · reply) = none ↔ s.service.eventStream = none :=
      Option.map_eq_none_iff
    refine ⟨invariant.announced,invariant.shown,fun none => invariant.emptied (absent.mp none),?_,trivial,?_,
      fun phase => (by cases phase),?_,?_⟩
    · intro later held _
      obtain ⟨stream,before,same⟩ := Option.map_eq_some_iff.mp held
      obtain ⟨single,joined,covered⟩ := invariant.wired stream before (by simp [here])
      rw [here] at joined
      rw [← same]
      have marked : s.compositor.announced ≤ s.synced ∨ (∃ line ∈ stream.lines, relevant line = true) ∨ 0 < stream.lost := by
        simpa only [mark,here] using covered
      cases reply with
      | chunk data wake =>
        obtain ⟨rest,wire⟩ := given data wake rfl stream before
        refine ⟨single,?_,marked⟩
        simp only [inHand,readFrom,← wire,List.drop_left]
        simpa [inHand,← wire] using joined
      | _ => exact ⟨single,joined,marked⟩
    · exact fun _ running none => invariant.busy (by simp [here,Busy]) running (absent.mp none)
    · exact fun _ held => invariant.sampled (by simp [here,Resting]) (fun none => held (absent.mpr none))
    · rintro (phase | phase) <;> cases phase
  · exact invariant

-- The lines a chunk completes are the first ones not consumed yet.
theorem consumed_lines {buffer chunk wire : Bytes} {written : List Bytes} (alone : ∀ line ∈ written, newline ∉ line)
    (held : buffer ++ chunk ++ wire = joined written) :
    ∃ others, written = (lines (buffer ++ chunk)).1 ++ others ∧ (lines (buffer ++ chunk)).2 ++ wire = joined others := by
  have split := lines_split (buffer ++ chunk)
  rw [split.whole,List.append_assoc] at held
  exact complete_prefix split.single alone held

theorem consume_invariant {environment : Environment} {s : System} (invariant : Invariant environment s) {chunk : Bytes}
    {wake : Bool} (here : s.phase = .woken (.chunk chunk wake)) : Invariant environment (consume s chunk) := by
  unfold consume
  split
  · exact abandon_invariant invariant _ _
  · rename_i consumed done
    obtain ⟨remainder,relevance,_⟩ := consumeEvents_ok done
    dsimp only
    generalize count : (lines (s.service.eventBuffer ++ chunk)).1.length = length
    have absent : s.service.eventStream.map (consumeLines length) = none ↔ s.service.eventStream = none :=
      Option.map_eq_none_iff
    have resting : Resting s.phase := by simp [here,Resting]
    have busy : Busy s.phase := by simp [here,Busy]
    -- What is left of the stream, and what an irrelevant chunk says of it.
    have left : ∀ stream, s.service.eventStream = some stream →
        (∀ line ∈ (consumeLines length stream).lines, newline ∉ line) ∧
        consumed.remainder ++ [] ++ stream.wire = joined (consumeLines length stream).lines ∧
        (consumed.relevant = false → s.compositor.announced ≤ s.synced ∨
          (∃ line ∈ (consumeLines length stream).lines, relevant line = true) ∨ 0 < stream.lost) := by
      intro stream held
      obtain ⟨single,whole,covered⟩ := invariant.wired stream held (by simp [here])
      rw [here] at whole
      simp only [inHand] at whole
      simp only [mark,here] at covered
      obtain ⟨others,written,rest⟩ := consumed_lines single whole
      have after : (consumeLines length stream).lines = others := by
        simp only [consumeLines,written,← count,List.drop_left]
      rw [after,remainder,List.append_nil]
      refine ⟨fun line listed => single line (by rw [written]; exact List.mem_append_right _ listed),rest,?_⟩
      intro nothing
      rw [relevance] at nothing
      refine covered.imp id (Or.imp ?_ id)
      rintro ⟨line,listed,tells⟩
      rw [written] at listed
      rcases List.mem_append.mp listed with old | new
      · exact absurd tells (List.any_eq_false.mp nothing line old)
      · exact ⟨line,new,tells⟩
    cases tells : consumed.relevant with
    | true =>
      refine ⟨invariant.announced,invariant.shown,?_,?_,Nat.le_refl _,?_,fun phase => (by cases phase),
        fun rest => (by cases rest),?_⟩
      · exact fun none running => absurd (absent.mp none) (invariant.busy busy running)
      · intro later held _
        obtain ⟨stream,before,same⟩ := Option.map_eq_some_iff.mp held
        obtain ⟨single,rest,_⟩ := left stream before
        rw [← same]
        exact ⟨single,rest,.inl invariant.announced⟩
      · exact fun _ running none => invariant.busy busy running (absent.mp none)
      · rintro (phase | phase) <;> cases phase
    | false =>
      refine ⟨invariant.announced,invariant.shown,?_,?_,trivial,fun busy => (by cases busy),fun phase => (by cases phase),
        ?_,?_⟩
      · exact fun none running => absurd (absent.mp none) (invariant.busy busy running)
      · intro later held _
        obtain ⟨stream,before,same⟩ := Option.map_eq_some_iff.mp held
        obtain ⟨single,rest,covered⟩ := left stream before
        rw [← same]
        exact ⟨single,rest,covered tells⟩
      · exact fun _ held => invariant.sampled resting (fun none => held (absent.mpr none))
      · exact fun _ _ running none => absurd (absent.mp none) (invariant.busy busy running)

theorem resume_invariant {environment : Environment} {s : System} (invariant : Invariant environment s) :
    Invariant environment (resume s) := by
  unfold resume
  split
  · rename_i data wake here
    exact consume_invariant invariant here
  · exact abandon_invariant invariant _ _
  · exact abandon_invariant invariant _ _
  · rename_i wake here
    refine ⟨invariant.announced,invariant.shown,invariant.emptied,?_,trivial,fun busy => (by cases busy),
      fun phase => (by cases phase),fun _ => invariant.sampled (by simp [here,Resting]),?_⟩
    · intro stream held _
      obtain ⟨single,joined,covered⟩ := invariant.wired stream held (by simp [here])
      rw [here] at joined
      exact ⟨single,joined,by simpa only [mark,here] using covered⟩
    · exact fun _ _ running none => absurd none (invariant.busy (by simp [here,Busy]) running)
  · exact invariant

theorem reload_invariant {environment : Environment} {s : System} (invariant : Invariant environment s)
    (config : Configuration.Hyprland) : Invariant environment { s with service := reload s.service config } := by
  refine ⟨invariant.announced,invariant.shown,invariant.emptied,?_,invariant.answered,invariant.busy,invariant.retrying,
    invariant.sampled,invariant.cleared⟩
  intro stream held alive
  obtain ⟨single,joined,covered⟩ := invariant.wired stream held alive
  exact ⟨single,joined,covered⟩

theorem quit_invariant {environment : Environment} {s : System} (invariant : Invariant environment s) :
    Invariant environment { s with service := { s.service with stopping := true, eventStream := none } } := by
  refine ⟨invariant.announced,invariant.shown,fun _ running => (by cases running),fun _ held => (by cases held),
    invariant.answered,fun _ running => (by cases running),fun _ => rfl,fun _ held => absurd rfl held,
    fun _ _ running => (by cases running)⟩

theorem apply_invariant {environment : Environment} (s : System) (event : Event) (invariant : Invariant environment s)
    (possible : Possible s event) : Invariant environment (apply environment s event) := by
  cases event with
  | change view =>
    refine compositor_invariant invariant (.change s.compositor view) rfl ?_
    exact Nat.le_trans invariant.shown (Grown.change s.compositor view).latest
  | reveal count => exact compositor_invariant invariant (.same rfl rfl possible.1) rfl possible.2
  | emit line announced =>
    obtain ⟨single,low,high,telling⟩ := possible
    exact emit_invariant invariant single low high telling
  | hangUp => exact hangUp_invariant invariant
  | begin outcome => exact begin_invariant invariant outcome
  | answer outcome => exact answer_invariant invariant outcome
  | wakeup outcome => exact wakeup_invariant invariant outcome
  | wait reply =>
    refine wait_invariant invariant ?_
    rintro data wake rfl
    exact possible.2.2
  | resume => exact resume_invariant invariant
  | reload config => exact reload_invariant invariant config
  | quit => exact quit_invariant invariant

-- In every interleaving the service at rest mirrors Hyprland, or says that it
-- does not.
theorem hyprland_mirrored (environment : Environment) (config : Configuration.Hyprland) (view : View) (events : List Event)
    (possible : Runs.Each (apply environment) Possible (boot config view) events) :
    Runs.Throughout (apply environment) (Mirrored environment) (boot config view) events :=
  Runs.throughout_imp (fun _ invariant => invariant.mirrored)
    (Runs.throughout_invariant apply_invariant (boot_invariant environment config view) possible)

def plainEnvironment : Environment := ⟨JsonText.reference,Hyprland.mergesort⟩

def emptyView : View := ⟨text "[]",text "[]",text "\x7b\x7d"⟩

def hyprlandConfig : Configuration.Hyprland := Configuration.allSources.sources.hyprland

def answers : List Event := [.answer .response,.answer .response,.answer .response]

-- Three answers that show one state end a resync.
theorem resynced {environment : Environment} {s : System} {origin : Origin} {since : Nat}
    {monitors workspaces activeWindow : Tree}
    (here : s.phase = .monitors origin since)
    (one : GivesMonitors environment monitors (s.compositor.view s.compositor.shown))
    (two : GivesWorkspaces environment workspaces (s.compositor.view s.compositor.shown))
    (three : GivesActiveWindow environment activeWindow (s.compositor.view s.compositor.shown)) :
    Runs.final (apply environment) s answers =
      finish environment { s with phase := .activeWindow origin since monitors workspaces } origin since monitors workspaces
        activeWindow := by
  unfold GivesMonitors at one
  unfold GivesWorkspaces at two
  unfold GivesActiveWindow at three
  have first : apply environment s (.answer .response) = { s with phase := .workspaces origin since monitors } := by
    simp only [apply,answer,here,decodeResponse,one,proceed]
  have second : apply environment { s with phase := .workspaces origin since monitors } (.answer .response) =
      { s with phase := .activeWindow origin since monitors workspaces } := by
    simp only [apply,answer,decodeResponse,two,proceed]
  simp only [answers,Runs.final,first,second]
  simp only [apply,answer,decodeResponse,three,proceed]

def titledView : View := ⟨text "[]",text "[]",text "\x7b\"title\":\"b\"\x7d"⟩

def titledWindow : Tree := .object [(text "title",.string (text "b"))]

def titledPatch : Hyprland.Patch := Hyprland.snapshot Hyprland.mergesort (.array []) (.array []) titledWindow

theorem titled_window : GivesActiveWindow plainEnvironment titledWindow titledView := by
  have written : JsonText.reference.write (.object [(text "title",.string (text "b"))]) = .ok titledView.activeWindow := rfl
  have read := write_ok written
  simp only [GivesActiveWindow,parseResponse,decode,plainEnvironment,read]
  rfl

-- The title changes while the first resync is still to begin; the event comes in
-- two chunks. Then Hyprland goes away and cannot be reached again.
def connecting : List Event := [.begin (.ok ()),.change titledView,.emit (text "windowtitle>>b") 1]

def reading : List Event :=
  [.wait (.chunk (text "windowti") false),.resume,.begin (.ok ()),.wait (.chunk (text "tle>>b\n") false),.resume]

def losing : List Event :=
  [.begin (.ok ()),.hangUp,.wait (.closed none false),.resume,.begin (.error (text "Connection refused")),.wakeup .timedOut]

def settlingRun : List Event := connecting ++ (answers ++ (reading ++ answers))

def titled : Compositor := ⟨emptyView,[titledView],1,1⟩

def connectedService (stream : Stream) (sent : List Hyprland.Patch) : Service :=
  ⟨hyprlandConfig,[],some stream,hyprlandConfig.reconnectMinMs,false,sent,true⟩

def unread : Stream := ⟨true,text "windowtitle>>b\n",[text "windowtitle>>b"],0⟩

def drained : Stream := ⟨true,[],[],0⟩

-- What a resync makes of the titled view, whoever asked for it.
theorem titled_resynced {service : Service} {origin : Origin} {since synced : Nat} :
    Runs.final (apply plainEnvironment) ⟨titled,service,.monitors origin since,synced⟩ answers =
      finish plainEnvironment ⟨titled,service,.activeWindow origin since (.array []) (.array []),synced⟩ origin since
        (.array []) (.array []) titledWindow := by
  have one : GivesMonitors plainEnvironment (.array []) titledView := rfl
  have two : GivesWorkspaces plainEnvironment (.array []) titledView := rfl
  exact resynced rfl one two titled_window

theorem connecting_resynced :
    Runs.final (apply plainEnvironment) (Runs.final (apply plainEnvironment) (boot hyprlandConfig emptyView) connecting) answers =
      ⟨titled,connectedService unread [titledPatch],.waiting,0⟩ := by
  have asking : Runs.final (apply plainEnvironment) (boot hyprlandConfig emptyView) connecting =
      ⟨titled,connectedService unread [],.monitors .connect 0,0⟩ := rfl
  rw [asking,titled_resynced]
  rfl

theorem reading_resynced :
    Runs.final (apply plainEnvironment)
        (Runs.final (apply plainEnvironment) ⟨titled,connectedService unread [titledPatch],.waiting,0⟩ reading) answers =
      ⟨titled,connectedService drained [titledPatch,titledPatch],.between,1⟩ := by
  have asking (sent : List Hyprland.Patch) :
      Runs.final (apply plainEnvironment) ⟨titled,connectedService unread sent,.waiting,0⟩ reading =
        ⟨titled,connectedService drained sent,.monitors .consume 1,0⟩ := rfl
  rw [asking,titled_resynced]
  rfl

theorem settling_settles :
    Runs.final (apply plainEnvironment) (boot hyprlandConfig emptyView) settlingRun =
      ⟨titled,connectedService drained [titledPatch,titledPatch],.between,1⟩ := by
  rw [settlingRun,Runs.final_append,Runs.final_append,connecting_resynced,Runs.final_append]
  exact reading_resynced

theorem reading_possible (sent : List Hyprland.Patch) :
    Runs.Each (apply plainEnvironment) Possible ⟨titled,connectedService unread sent,.waiting,0⟩ reading := by
  refine ⟨⟨by decide,by decide,?_⟩,trivial,trivial,⟨by decide,by decide,?_⟩,trivial,trivial⟩
  · intro stream held
    obtain rfl : unread = stream := Option.some.inj held
    decide
  · intro stream held
    obtain rfl : ⟨true,text "tle>>b\n",[text "windowtitle>>b"],0⟩ = stream := Option.some.inj held
    decide

theorem settling_possible :
    Runs.Each (apply plainEnvironment) Possible (boot hyprlandConfig emptyView) settlingRun := by
  refine Runs.each_append ⟨trivial,trivial,⟨by decide,by decide,by decide,by decide⟩,trivial⟩ ?_
  refine Runs.each_append ⟨trivial,trivial,trivial,trivial⟩ ?_
  rw [connecting_resynced]
  exact Runs.each_append (reading_possible _) ⟨trivial,trivial,trivial,trivial⟩

def changingRun : List Event := settlingRun ++ losing

theorem changing_possible :
    Runs.Each (apply plainEnvironment) Possible (boot hyprlandConfig emptyView) changingRun := by
  refine Runs.each_append settling_possible ?_
  rw [settling_settles]
  exact ⟨trivial,trivial,trivial,trivial,trivial,trivial,trivial⟩

-- The run settles on the new title, and ends between two runs of the idle
-- handler without a stream.
theorem changing_mirrored :
    Runs.Each (apply plainEnvironment) Possible (boot hyprlandConfig emptyView) changingRun ∧
    Runs.Throughout (apply plainEnvironment) (Mirrored plainEnvironment) (boot hyprlandConfig emptyView) changingRun ∧
    (Settled (Runs.final (apply plainEnvironment) (boot hyprlandConfig emptyView) settlingRun) ⟨true,[],[],0⟩ ∧
      AtRest (Runs.final (apply plainEnvironment) (boot hyprlandConfig emptyView) settlingRun).phase ∧
      (Runs.final (apply plainEnvironment) (boot hyprlandConfig emptyView) settlingRun).service.sent.getLast? =
        some titledPatch) ∧
    (Runs.final (apply plainEnvironment) (boot hyprlandConfig emptyView) changingRun).phase = .between ∧
    (Runs.final (apply plainEnvironment) (boot hyprlandConfig emptyView) changingRun).service.eventStream = none ∧
    (Runs.final (apply plainEnvironment) (boot hyprlandConfig emptyView) changingRun).service.sent.getLast? =
      some (Hyprland.unavailable (some (text "Connection refused"))) := by
  have ended : Runs.final (apply plainEnvironment) (boot hyprlandConfig emptyView) changingRun =
      Runs.final (apply plainEnvironment) ⟨titled,connectedService drained [titledPatch,titledPatch],.between,1⟩ losing := by
    rw [changingRun,Runs.final_append,settling_settles]
  refine ⟨changing_possible,hyprland_mirrored plainEnvironment hyprlandConfig emptyView changingRun changing_possible,?_,?_⟩
  · rw [settling_settles]
    exact ⟨⟨rfl,rfl,rfl,rfl,rfl⟩,trivial,rfl⟩
  · rw [ended]
    exact ⟨rfl,rfl,rfl⟩

-- The stream is connected before the queries, so for their time the service is
-- connected and has sent nothing.
theorem connecting_not_mirrored :
    Runs.Each (apply plainEnvironment) Possible (boot hyprlandConfig emptyView) [.begin (.ok ())] ∧
    ∃ stream, Settled (Runs.final (apply plainEnvironment) (boot hyprlandConfig emptyView) [.begin (.ok ())]) stream ∧
      (Runs.final (apply plainEnvironment) (boot hyprlandConfig emptyView) [.begin (.ok ())]).service.sent = [] :=
  ⟨⟨trivial,trivial⟩,⟨true,[],[],0⟩,⟨rfl,rfl,rfl,rfl,rfl⟩,rfl⟩

end Hypringo.HyprlandService

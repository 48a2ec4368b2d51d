import Hypringo.Control
import Hypringo.Runs
import Hypringo.SwapRemove

namespace Hypringo.Broadcast
open Hypringo.Lua Hypringo.Circular Control

-- A payload on its way to a client, with the number of publications there were
-- when it was copied.
structure Copy where
  format : Format
  revision : Nat
  payload : Bytes
  deriving DecidableEq, Repr

-- An entry of the clients array. `since` and `sent` are records read by no
-- code: the publications there were when its command was answered, and what
-- has gone out to it in whole.
structure Slot where
  client : Client
  since : Option Nat
  sent : List Copy
  deriving DecidableEq, Repr

inductive Revents where
  | quiet
  | readable
  | broken
  deriving DecidableEq, Repr

-- What one turn of the loop keeps from poll on.
structure Round where
  listener : Bool
  revents : List Revents
  shouldBroadcast : Bool
  deriving DecidableEq, Repr

-- Where control_thread stands. `read` is before recv, `copying` before the
-- section of copy_snapshot, `sending` before write_all; `serve` has still to
-- look at the clients below the index.
inductive Thread where
  | top
  | poll
  | drain (round : Round)
  | checkStop (round : Round)
  | serve (round : Round) (index : Nat)
  | read (round : Round) (index : Nat)
  | copying (round : Round) (index : Nat)
  | sending (round : Round) (index : Nat) (copy : Copy)
  | accept (round : Round)
  | broadcast (index : Nat)
  | broadcastSending (index : Nat) (copy : Copy)
  | exited
  deriving DecidableEq, Repr

-- `published` records every payload stored, `gone` every entry that has left
-- the array. `publishers` and `stoppers` count the calls between their section
-- and their write to the pipe, `pipe` the bytes in it.
structure System where
  server : Server
  published : List Payloads
  pipe : Nat
  publishers : Nat
  stoppers : Nat
  thread : Thread
  slots : List Slot
  gone : List Slot

def boot : System := ⟨startSection zeroed,[],0,0,0,.top,[],[]⟩

inductive Polled where
  | interrupted
  | failed
  | ready (listener wake : Bool) (revents : List Revents)
  deriving DecidableEq, Repr

inductive Received where
  | bytes (data : Bytes)
  | closed
  | interrupted
  | wouldBlock
  | failed
  deriving DecidableEq, Repr

inductive Accepted where
  | nothing
  | interrupted
  | connection (fd : Nat) (configured : Bool)
  deriving DecidableEq, Repr

-- The sections under the mutex and the system calls, one event each, in any
-- order the two threads and the kernel allow.
inductive Event where
  | publish (payloads : Payloads)
  | wake
  | stop
  | wakeStop
  | check
  | polled (outcome : Polled)
  | drained (interrupted : Bool)
  | advance
  | received (outcome : Received)
  | copied (allocated : Bool)
  | written (whole : Bool)
  | accepted (outcome : Accepted)
  deriving DecidableEq, Repr

def newest (s : System) : Nat := s.published.length

def publish (s : System) (payloads : Payloads) : System :=
  match publishSection s.server payloads with
  | none => s
  | some server =>
    { s with server := server, published := s.published ++ [payloads], publishers := s.publishers + 1 }

def stop (s : System) : System :=
  match stopSection s.server with
  | none => s
  | some server => { s with server := server, stoppers := s.stoppers + 1 }

-- The pipe is not blocking: a byte that does not fit is dropped.
def writeByte (capacity pipe : Nat) : Nat := if pipe < capacity then pipe + 1 else pipe

def removeClient (slots : List Slot) (index : Nat) : List Slot :=
  match slots.getLast? with
  | none => []
  | some last => (slots.set index last).dropLast

theorem removeClient_removeAt (slots : List Slot) (index : Nat) : removeClient slots index = SwapRemove.removeAt slots index := by
  unfold removeClient SwapRemove.removeAt
  cases slots.getLast? with
  | none => rfl
  | some last => rfl

theorem removeClient_place {slots : List Slot} {index new : Nat} {slot : Slot}
    (found : (removeClient slots index)[new]? = some slot) :
    new < slots.length - 1 ∧ slots[if new = index then slots.length - 1 else new]? = some slot :=
  SwapRemove.removeAt_place (removeClient_removeAt slots index ▸ found)

def removeAs (s : System) (index : Nat) (closed : List Slot) (thread : Thread) : System :=
  { s with slots := removeClient s.slots index, gone := s.gone ++ closed, thread := thread }

def remove (s : System) (index : Nat) (thread : Thread) : System := removeAs s index s.slots[index]?.toList thread

def leave (s : System) : System := { s with thread := .exited, slots := [], gone := s.gone ++ s.slots }

def check (s : System) : System :=
  match s.thread with
  | .top => if s.server.stopping then leave s else { s with thread := .poll }
  | .checkStop round =>
    { s with thread := .serve { round with shouldBroadcast := !s.server.stopping } round.revents.length }
  | _ => s

def polled (s : System) (outcome : Polled) : System :=
  match s.thread,outcome with
  | .poll,.interrupted => { s with thread := .top }
  | .poll,.failed => leave s
  | .poll,.ready listener wake revents =>
    let round : Round := ⟨listener,revents,false⟩
    { s with thread := if wake then .drain round else .serve round revents.length }
  | _,_ => s

-- One read of drain_wake_pipe.
def drained (s : System) (interrupted : Bool) : System :=
  match s.thread with
  | .drain round =>
    if interrupted || s.pipe == 0 then { s with thread := .checkStop round }
    else { s with pipe := s.pipe - min 64 s.pipe }
  | _ => s

-- The head of the loop of read_command.
def enterRead (s : System) (round : Round) (index : Nat) : System :=
  match s.slots[index]? with
  | none => { s with thread := .serve round index }
  | some slot =>
    if slot.client.subscribed then { s with thread := .serve round index }
    else if commandCapacity - 1 ≤ slot.client.command.length then remove s index (.serve round index)
    else { s with thread := .read round index }

def afterAccept (round : Round) : Thread := if round.shouldBroadcast then .broadcast 0 else .top

def advance (s : System) : System :=
  match s.thread with
  | .serve round 0 => { s with thread := if round.listener then .accept round else afterAccept round }
  | .serve round (index + 1) =>
    match round.revents[index]?.getD .quiet with
    | .quiet => { s with thread := .serve round index }
    | .readable => enterRead s round index
    | .broken => remove s index (.serve round index)
  | .broadcast index =>
    match s.slots[index]? with
    | none => { s with thread := .top }
    | some slot => if slot.client.subscribed then s else { s with thread := .broadcast (index + 1) }
  | _ => s

def setSlot (s : System) (index : Nat) (slot : Slot) (thread : Thread) : System :=
  { s with slots := s.slots.set index slot, thread := thread }

def received (s : System) (outcome : Received) : System :=
  match s.thread with
  | .read round index =>
    match s.slots[index]?,outcome with
    | some slot,.bytes data =>
      let client := { slot.client with command := slot.client.command ++ data }
      match handleCommand client with
      | .incomplete => enterRead (setSlot s index { slot with client := client } s.thread) round index
      | .snapshot format =>
        setSlot s index { slot with client := { client with format := format } } (.copying round index)
      | .subscribe format =>
        setSlot s index { slot with client := { client with format := format, subscribed := true } } (.copying round index)
      | .enqueue command =>
        remove { s with server := (enqueueAction s.server command).1 } index (.serve round index)
      | .unknown => remove s index (.serve round index)
    | some _,.interrupted => enterRead s round index
    | some _,.wouldBlock => { s with thread := .serve round index }
    | some _,_ => remove s index (.serve round index)
    | none,_ => s
  | _ => s

def copyFor (s : System) (slot : Slot) : Copy :=
  ⟨slot.client.format,newest s,snapshotText slot.client.format (copySnapshot s.server slot.client.format)⟩

-- send_snapshot gives up when there is something to copy and no room for it.
def refused (s : System) (slot : Slot) (allocated : Bool) : Bool :=
  !allocated && copySnapshot s.server slot.client.format != []

def copied (s : System) (allocated : Bool) : System :=
  match s.thread with
  | .copying round index =>
    match s.slots[index]? with
    | none => s
    | some slot =>
      if refused s slot allocated then remove s index (.serve round index)
      else setSlot s index { slot with since := some (newest s) } (.sending round index (copyFor s slot))
  | .broadcast index =>
    match s.slots[index]? with
    | none => s
    | some slot =>
      if !slot.client.subscribed then s
      else if refused s slot allocated then remove s index (.broadcast index)
      else { s with thread := .broadcastSending index (copyFor s slot) }
  | _ => s

def deliver (slot : Slot) (copy : Copy) : Slot := { slot with sent := slot.sent ++ [copy] }

-- A status client is closed whatever came of the write.
def written (s : System) (whole : Bool) : System :=
  match s.thread with
  | .sending round index copy =>
    match s.slots[index]? with
    | none => s
    | some slot =>
      if !whole then remove s index (.serve round index)
      else if slot.client.subscribed then setSlot s index (deliver slot copy) (.serve round index)
      else removeAs s index [deliver slot copy] (.serve round index)
  | .broadcastSending index copy =>
    match s.slots[index]? with
    | none => s
    | some slot =>
      if whole then setSlot s index (deliver slot copy) (.broadcast (index + 1)) else remove s index (.broadcast index)
  | _ => s

def accepted (s : System) (outcome : Accepted) : System :=
  match s.thread,outcome with
  | .accept round,.nothing => { s with thread := afterAccept round }
  | .accept _,.connection fd configured =>
    if !configured || decide (maxClients ≤ s.slots.length) then s
    else { s with slots := s.slots ++ [⟨⟨fd,false,.default,[]⟩,none,[]⟩] }
  | _,_ => s

def apply (capacity : Nat) (s : System) : Event → System
  | .publish payloads => publish s payloads
  | .wake => { s with pipe := writeByte capacity s.pipe, publishers := s.publishers - 1 }
  | .stop => stop s
  | .wakeStop => { s with pipe := writeByte capacity s.pipe, stoppers := s.stoppers - 1 }
  | .check => check s
  | .polled outcome => polled s outcome
  | .drained interrupted => drained s interrupted
  | .advance => advance s
  | .received outcome => received s outcome
  | .copied allocated => copied s allocated
  | .written whole => written s whole
  | .accepted outcome => accepted s outcome

-- recv is given the room left in the buffer of the client.
def room (s : System) : Nat :=
  match s.thread with
  | .read _ index => commandCapacity - 1 - ((s.slots[index]?.map (fun slot => slot.client.command.length)).getD 0)
  | _ => 0

-- An event that does not belong to the place the thread is at changes nothing.
def Possible (s : System) : Event → Prop
  | .wake => 0 < s.publishers
  | .wakeStop => 0 < s.stoppers
  | .polled (.ready _ wake revents) => (wake = true → 0 < s.pipe) ∧ revents.length = s.slots.length
  | .received (.bytes data) => 0 < data.length ∧ data.length ≤ room s
  | _ => True

-- What the server had to send after so many publications: nothing before the
-- first.
def history (published : List Payloads) : Nat → Payloads
  | 0 => ⟨[],[],[]⟩
  | n + 1 => published[n]?.getD ⟨[],[],[]⟩

-- Deliveries follow the publications, from the one that was current when the
-- command was answered. Before the first publication it is the empty snapshot.
structure InOrder (published : List Payloads) (slot : Slot) : Prop where
  ordered : slot.sent.Pairwise (fun earlier later => earlier.revision ≤ later.revision)
  each : ∀ copy ∈ slot.sent, copy.format = slot.client.format ∧ copy.revision ≤ published.length ∧
    copy.payload = snapshotText copy.format ((history published copy.revision).of copy.format)
  first : ∀ copy, slot.sent.head? = some copy → slot.since = some copy.revision

def Current (s : System) (slot : Slot) : Prop :=
  ∃ copy, slot.sent.getLast? = some copy ∧ copy.revision = newest s

structure Served (s : System) : Prop where
  ordered : ∀ slot ∈ s.slots ++ s.gone, InOrder s.published slot
  caughtUp : s.thread = .poll → s.pipe = 0 → s.publishers = 0 →
    ∀ slot ∈ s.slots, slot.client.subscribed = true → Current s slot

-- A byte is in the pipe or about to be written: poll will not sleep on it.
def Awake (s : System) : Prop := 0 < s.pipe ∨ 0 < s.publishers

-- The entry is sent to before the thread polls again.
def due : Thread → Nat → Bool
  | .top,_ | .poll,_ | .exited,_ => false
  | .drain _,_ | .checkStop _,_ => true
  | .serve round _,_ | .read round _,_ | .accept round,_ => round.shouldBroadcast
  | .copying round index,place | .sending round index _,place => round.shouldBroadcast || place == index
  | .broadcast index,place | .broadcastSending index _,place => decide (index ≤ place)

-- The entry whose command is being answered.
def answering : Thread → Nat → Bool
  | .copying _ index,place | .sending _ index _,place => place == index
  | _,_ => false

structure Pending (s : System) (copy : Copy) : Prop where
  stored : copy.revision ≤ newest s
  payload : copy.payload = snapshotText copy.format ((history s.published copy.revision).of copy.format)
  newest : copy.revision = newest s ∨ Awake s

-- What the thread relies on about the entry it is busy with.
def Engaged (s : System) : Thread → Prop
  | .read _ index => ∀ slot, s.slots[index]? = some slot → slot.client.subscribed = false
  | .copying _ index => ∀ slot, s.slots[index]? = some slot → slot.sent = []
  | .sending _ index copy => Pending s copy ∧ ∀ slot, s.slots[index]? = some slot →
      slot.sent = [] ∧ slot.since = some copy.revision ∧ slot.client.format = copy.format
  | .broadcastSending index copy => Pending s copy ∧ ∀ slot, s.slots[index]? = some slot →
      slot.client.subscribed = true ∧ slot.client.format = copy.format ∧
        ∀ earlier ∈ slot.sent, earlier.revision ≤ copy.revision
  | _ => True

-- Every stop of the thread at poll finds the subscribers up to date or the pipe
-- awake; on the way there some are still to be sent to. A thread told to stop
-- does not broadcast, but it does not come back to poll either.
structure Invariant (s : System) : Prop where
  payloads : s.server.payloads = history s.published (newest s)
  ordered : ∀ slot ∈ s.slots ++ s.gone, InOrder s.published slot
  silent : ∀ slot ∈ s.slots, slot.client.subscribed = false → slot.sent = []
  begun : ∀ index slot, s.slots[index]? = some slot → slot.client.subscribed = true →
    slot.sent ≠ [] ∨ answering s.thread index = true
  engaged : Engaged s s.thread
  caught : ∀ index slot, s.slots[index]? = some slot → slot.client.subscribed = true →
    Current s slot ∨ Awake s ∨ due s.thread index = true ∨ (s.server.stopping = true ∧ s.thread ≠ .poll)

theorem boot_invariant : Invariant boot where
  payloads := rfl
  ordered := by simp [boot]
  silent := by simp [boot]
  begun := by simp [boot]
  engaged := trivial
  caught := by simp [boot]

theorem Invariant.served {s : System} (invariant : Invariant s) : Served s := by
  refine ⟨invariant.ordered,?_⟩
  intro here empty none slot member subscribed
  obtain ⟨index,found⟩ := List.mem_iff_getElem?.mp member
  rcases invariant.caught index slot found subscribed with current | awake | later | stopping
  · exact current
  · rcases awake with byte | publisher
    · omega
    · omega
  · rw [here] at later
    cases later
  · exact absurd here stopping.2

-- Later publications do not change what was there to send before.
theorem history_grown {earlier later : List Payloads} (grown : earlier <+: later) {n : Nat} (le : n ≤ earlier.length) :
    history later n = history earlier n := by
  obtain ⟨more,rfl⟩ := grown
  cases n with
  | zero => rfl
  | succ n => simp only [history,List.getElem?_append_left (Nat.lt_of_succ_le le)]

theorem InOrder.publish {published : List Payloads} {slot : Slot} (inOrder : InOrder published slot) (payloads : Payloads) :
    InOrder (published ++ [payloads]) slot := by
  refine ⟨inOrder.ordered,?_,inOrder.first⟩
  intro copy listed
  obtain ⟨format,stored,payload⟩ := inOrder.each copy listed
  refine ⟨format,?_,?_⟩
  · rw [List.length_append]
    exact Nat.le_add_right_of_le stored
  · rw [history_grown (List.prefix_append _ _) stored]
    exact payload

theorem Engaged.transfer {s t : System} (slots : t.slots = s.slots) (pending : ∀ copy, Pending s copy → Pending t copy)
    (thread : Thread) (engaged : Engaged s thread) : Engaged t thread := by
  cases thread with
  | read round index =>
    simp only [Engaged,slots]
    exact engaged
  | copying round index =>
    simp only [Engaged,slots]
    exact engaged
  | sending round index copy =>
    simp only [Engaged,slots]
    exact ⟨pending copy engaged.1,engaged.2⟩
  | broadcastSending index copy =>
    simp only [Engaged,slots]
    exact ⟨pending copy engaged.1,engaged.2⟩
  | _ => trivial

-- A publication leaves everything awake until its byte is read.
theorem publish_invariant {s : System} (invariant : Invariant s) (payloads : Payloads) : Invariant (publish s payloads) := by
  unfold publish publishSection
  split
  · exact invariant
  · rename_i server stored
    split at stored
    · cases stored
    · cases stored
      have grown : newest s ≤ (s.published ++ [payloads]).length := by simp [newest]
      refine ⟨?_,?_,invariant.silent,invariant.begun,?_,?_⟩
      · simp [newest,history]
      · exact fun slot member => (invariant.ordered slot member).publish payloads
      · refine Engaged.transfer ?_ ?_ _ invariant.engaged
        · rfl
        intro copy pending
        refine ⟨Nat.le_trans pending.stored grown,?_,.inr (.inr (Nat.succ_pos _))⟩
        rw [history_grown (List.prefix_append _ _) pending.stored]
        exact pending.payload
      · exact fun _ _ _ _ => .inr (.inl (.inr (Nat.succ_pos _)))

-- What others do besides publishing: nothing the thread depends on is lost.
theorem Invariant.around {s t : System} (invariant : Invariant s) (published : t.published = s.published)
    (payloads : t.server.payloads = s.server.payloads) (slots : t.slots = s.slots) (gone : t.gone = s.gone)
    (thread : t.thread = s.thread) (awake : Awake s → Awake t)
    (stopping : s.server.stopping = true → t.server.stopping = true) : Invariant t := by
  have same : newest t = newest s := by simp only [newest,published]
  refine ⟨?_,?_,?_,?_,?_,?_⟩
  · rw [payloads,published,same]
    exact invariant.payloads
  · rw [slots,gone,published]
    exact invariant.ordered
  · rw [slots]
    exact invariant.silent
  · rw [slots,thread]
    exact invariant.begun
  · rw [thread]
    refine invariant.engaged.transfer slots ?_
    intro copy pending
    refine ⟨same ▸ pending.stored,published ▸ pending.payload,?_⟩
    rw [same]
    exact pending.newest.imp id awake
  · intro index slot found subscribed
    rw [slots] at found
    rw [thread]
    rcases invariant.caught index slot found subscribed with ⟨copy,last,current⟩ | woken | later | ending
    · exact .inl ⟨copy,last,current.trans same.symm⟩
    · exact .inr (.inl (awake woken))
    · exact .inr (.inr (.inl later))
    · exact .inr (.inr (.inr ⟨stopping ending.1,ending.2⟩))

theorem writeByte_pos {capacity : Nat} (positive : 0 < capacity) (pipe : Nat) : 0 < writeByte capacity pipe := by
  unfold writeByte
  split <;> omega

theorem wake_invariant {capacity : Nat} (positive : 0 < capacity) {s : System} (invariant : Invariant s)
    (publishers stoppers : Nat) :
    Invariant { s with pipe := writeByte capacity s.pipe, publishers := publishers, stoppers := stoppers } :=
  invariant.around rfl rfl rfl rfl rfl (fun _ => .inl (writeByte_pos positive _)) id

theorem stop_invariant {s : System} (invariant : Invariant s) : Invariant (stop s) := by
  unfold stop stopSection
  split
  · exact invariant
  · rename_i server stopped
    split at stopped
    · cases stopped
    · cases stopped
      exact invariant.around rfl rfl rfl rfl rfl id (fun _ => rfl)

theorem Invariant.move {s : System} (invariant : Invariant s) {thread : Thread} (engaged : Engaged s thread)
    (answers : ∀ place, answering s.thread place = true → answering thread place = true)
    (later : ∀ place slot, s.slots[place]? = some slot → slot.client.subscribed = true → due s.thread place = true →
      due thread place = true ∨ s.server.stopping = true)
    (running : thread = .poll → s.server.stopping = false) : Invariant { s with thread := thread } := by
  refine ⟨invariant.payloads,invariant.ordered,invariant.silent,?_,?_,?_⟩
  · exact fun place slot found subscribed => (invariant.begun place slot found subscribed).imp id (answers place)
  · refine Engaged.transfer ?_ ?_ _ engaged
    · rfl
    · exact fun copy pending => ⟨pending.stored,pending.payload,pending.newest⟩
  · intro place slot found subscribed
    have stops : s.server.stopping = true → s.server.stopping = true ∧ thread ≠ .poll := by
      intro stopping
      refine ⟨stopping,?_⟩
      intro here
      rw [running here] at stopping
      cases stopping
    rcases invariant.caught place slot found subscribed with current | awake | sent | ending
    · exact .inl current
    · exact .inr (.inl awake)
    · rcases later place slot found subscribed sent with still | stopping
      · exact .inr (.inr (.inl still))
      · exact .inr (.inr (.inr (stops stopping)))
    · exact .inr (.inr (.inr (stops ending.1)))

theorem leave_invariant {s : System} (invariant : Invariant s) : Invariant (leave s) where
  payloads := invariant.payloads
  ordered slot member := invariant.ordered slot (by simpa [leave,or_comm] using member)
  silent slot member := by simp [leave] at member
  begun index slot found := by simp [leave] at found
  engaged := trivial
  caught index slot found := by simp [leave] at found

theorem check_invariant {s : System} (invariant : Invariant s) : Invariant (check s) := by
  unfold check
  split
  · rename_i here
    split
    · exact leave_invariant invariant
    · rename_i going
      refine invariant.move trivial ?_ ?_ (fun _ => by simpa using going)
      · simp [here,answering]
      · simp [here,due]
  · rename_i round here
    refine invariant.move trivial ?_ ?_ (fun poll => by cases poll)
    · simp [here,answering]
    · intro place slot _ _ _
      cases stopping : s.server.stopping with
      | true => exact .inr rfl
      | false => exact .inl rfl
  · exact invariant

theorem polled_invariant {s : System} (invariant : Invariant s) (outcome : Polled) : Invariant (polled s outcome) := by
  unfold polled
  split
  · rename_i here
    exact invariant.move trivial (by simp [here,answering]) (by simp [here,due]) (fun poll => by cases poll)
  · exact leave_invariant invariant
  · rename_i listener wake revents here
    cases wake with
    | true => exact invariant.move trivial (by simp [here,answering]) (by simp [here,due]) (fun poll => by cases poll)
    | false => exact invariant.move trivial (by simp [here,answering]) (by simp [here,due]) (fun poll => by cases poll)
  · exact invariant

theorem drained_invariant {s : System} (invariant : Invariant s) (interrupted : Bool) : Invariant (drained s interrupted) := by
  unfold drained
  split
  · rename_i round here
    split
    · exact invariant.move trivial (by simp [here,answering]) (by simp [due]) (fun poll => by cases poll)
    · refine ⟨invariant.payloads,invariant.ordered,invariant.silent,invariant.begun,?_,?_⟩
      · simp only [here]
        trivial
      · intro place slot found subscribed
        simp [here,due]
  · exact invariant

-- The last entry takes the place of the removed one; those before it stay.
theorem removeClient_get {slots : List Slot} {index new : Nat} {slot : Slot}
    (found : (removeClient slots index)[new]? = some slot) :
    ∃ old, old ≠ index ∧ (new < index → old = new) ∧ slots[old]? = some slot := by
  obtain ⟨below,origin⟩ := removeClient_place found
  by_cases here : new = index
  · rw [if_pos here] at origin
    exact ⟨slots.length - 1,by omega,by omega,origin⟩
  · rw [if_neg here] at origin
    exact ⟨new,here,fun _ => rfl,origin⟩

theorem removeClient_mem {slots : List Slot} {index : Nat} {slot : Slot} (member : slot ∈ removeClient slots index) :
    slot ∈ slots := by
  obtain ⟨new,found⟩ := List.mem_iff_getElem?.mp member
  obtain ⟨old,_,_,origin⟩ := removeClient_get found
  exact List.mem_iff_getElem?.mpr ⟨old,origin⟩

theorem removeAs_invariant {s : System} (invariant : Invariant s) {index : Nat} {closed : List Slot} {thread : Thread}
    (ordered : ∀ slot ∈ closed, InOrder s.published slot) (free : ∀ t, Engaged t thread)
    (alone : ∀ place, place ≠ index → answering s.thread place = false)
    (later : ∀ old new, old ≠ index → (new < index → old = new) → due s.thread old = true → due thread new = true)
    (away : thread ≠ .poll) : Invariant (removeAs s index closed thread) := by
  refine ⟨invariant.payloads,?_,?_,?_,free _,?_⟩
  · intro slot member
    simp only [removeAs,List.mem_append] at member
    rcases member with kept | old | last
    · exact invariant.ordered slot (List.mem_append_left _ (removeClient_mem kept))
    · exact invariant.ordered slot (List.mem_append_right _ old)
    · exact ordered slot last
  · exact fun slot member => invariant.silent slot (removeClient_mem member)
  · intro new slot found subscribed
    obtain ⟨old,other,_,origin⟩ := removeClient_get found
    rcases invariant.begun old slot origin subscribed with sent | answered
    · exact .inl sent
    · rw [alone old other] at answered
      cases answered
  · intro new slot found subscribed
    obtain ⟨old,other,same,origin⟩ := removeClient_get found
    rcases invariant.caught old slot origin subscribed with current | awake | sent | ending
    · exact .inl current
    · exact .inr (.inl awake)
    · exact .inr (.inr (.inl (later old new other same sent)))
    · exact .inr (.inr (.inr ⟨ending.1,away⟩))

theorem remove_invariant {s : System} (invariant : Invariant s) {index : Nat} {thread : Thread}
    (free : ∀ t, Engaged t thread) (alone : ∀ place, place ≠ index → answering s.thread place = false)
    (later : ∀ old new, old ≠ index → (new < index → old = new) → due s.thread old = true → due thread new = true)
    (away : thread ≠ .poll) : Invariant (remove s index thread) := by
  refine removeAs_invariant invariant ?_ free alone later away
  intro slot closed
  exact invariant.ordered slot (List.mem_append_left _ (List.mem_of_getElem? (Option.mem_toList.mp closed)))

theorem set_get {slots : List Slot} {index place : Nat} {slot other : Slot}
    (found : (slots.set index slot)[place]? = some other) :
    (place = index ∧ other = slot) ∨ (place ≠ index ∧ slots[place]? = some other) := by
  by_cases here : index = place
  · subst here
    by_cases bound : index < slots.length
    · rw [List.getElem?_set_self bound] at found
      exact .inl ⟨rfl,(Option.some.inj found).symm⟩
    · rw [List.getElem?_eq_none (by simpa using bound)] at found
      cases found
  · rw [List.getElem?_set_ne here] at found
    exact .inr ⟨Ne.symm here,found⟩

theorem set_get_self {slots : List Slot} {index : Nat} {slot other : Slot}
    (found : (slots.set index slot)[index]? = some other) : other = slot := by
  rcases set_get found with ⟨_,same⟩ | ⟨different,_⟩
  · exact same
  · exact absurd rfl different

theorem setSlot_invariant {s : System} (invariant : Invariant s) {index : Nat} {slot : Slot} {thread : Thread}
    (ordered : InOrder s.published slot) (silent : slot.client.subscribed = false → slot.sent = [])
    (begun : slot.client.subscribed = true → slot.sent ≠ [] ∨ answering thread index = true)
    (engaged : Engaged (setSlot s index slot thread) thread)
    (caught : slot.client.subscribed = true → Current s slot ∨ Awake s ∨ due thread index = true)
    (alone : ∀ place, place ≠ index → answering s.thread place = false)
    (later : ∀ place, place ≠ index → due s.thread place = true → due thread place = true)
    (away : thread ≠ .poll) : Invariant (setSlot s index slot thread) := by
  refine ⟨invariant.payloads,?_,?_,?_,engaged,?_⟩
  · intro other member
    simp only [setSlot,List.mem_append] at member
    rcases member with kept | closed
    · rcases List.mem_or_eq_of_mem_set kept with old | rfl
      · exact invariant.ordered other (List.mem_append_left _ old)
      · exact ordered
    · exact invariant.ordered other (List.mem_append_right _ closed)
  · intro other member
    rcases List.mem_or_eq_of_mem_set member with old | rfl
    · exact invariant.silent other old
    · exact silent
  · intro place other found subscribed
    rcases set_get found with ⟨rfl,rfl⟩ | ⟨different,origin⟩
    · exact begun subscribed
    · rcases invariant.begun place other origin subscribed with sent | answered
      · exact .inl sent
      · rw [alone place different] at answered
        cases answered
  · intro place other found subscribed
    rcases set_get found with ⟨rfl,rfl⟩ | ⟨different,origin⟩
    · rcases caught subscribed with current | awake | sent
      · exact .inl current
      · exact .inr (.inl awake)
      · exact .inr (.inr (.inl sent))
    · rcases invariant.caught place other origin subscribed with current | awake | sent | ending
      · exact .inl current
      · exact .inr (.inl awake)
      · exact .inr (.inr (.inl (later place different sent)))
      · exact .inr (.inr (.inr ⟨ending.1,away⟩))

theorem enterRead_invariant {s : System} (invariant : Invariant s) {round : Round} (index : Nat)
    (duty : ∀ place, due s.thread place = round.shouldBroadcast) (alone : ∀ place, answering s.thread place = false) :
    Invariant (enterRead s round index) := by
  have answers : ∀ (thread : Thread) place, answering s.thread place = true → answering thread place = true := by
    intro thread place answered
    rw [alone place] at answered
    cases answered
  have passed : Invariant { s with thread := .serve round index } := by
    refine invariant.move trivial (answers _) ?_ (fun poll => by cases poll)
    intro place slot _ _ sent
    rw [duty place] at sent
    exact .inl sent
  unfold enterRead
  split
  · exact passed
  · rename_i slot found
    split
    · exact passed
    · rename_i unsubscribed
      split
      · refine remove_invariant invariant (fun _ => trivial) (fun place _ => alone place) ?_ (by simp)
        intro old new _ _ sent
        rw [duty old] at sent
        exact sent
      · refine invariant.move ?_ (answers _) ?_ (fun poll => by cases poll)
        · intro other same
          rw [found] at same
          cases same
          simpa using unsubscribed
        · intro place slot _ _ sent
          rw [duty place] at sent
          exact .inl sent

theorem afterAccept_invariant {s : System} (invariant : Invariant s) {round : Round}
    (duty : ∀ place, due s.thread place = round.shouldBroadcast) (alone : ∀ place, answering s.thread place = false) :
    Invariant { s with thread := afterAccept round } := by
  unfold afterAccept
  cases broadcasts : round.shouldBroadcast with
  | true => exact invariant.move trivial (by simp [alone]) (by simp [due]) (fun poll => by cases poll)
  | false => exact invariant.move trivial (by simp [alone]) (by simp [duty,broadcasts]) (fun poll => by cases poll)

theorem advance_invariant {s : System} (invariant : Invariant s) : Invariant (advance s) := by
  unfold advance
  split
  · rename_i round here
    have duty : ∀ place, due s.thread place = round.shouldBroadcast := by simp [here,due]
    have alone : ∀ place, answering s.thread place = false := by simp [here,answering]
    split
    · refine invariant.move trivial (by simp [alone]) ?_ (fun poll => by cases poll)
      intro place slot _ _ sent
      rw [duty place] at sent
      exact .inl sent
    · exact afterAccept_invariant invariant duty alone
  · rename_i round index here
    have duty : ∀ place, due s.thread place = round.shouldBroadcast := by simp [here,due]
    have alone : ∀ place, answering s.thread place = false := by simp [here,answering]
    split
    · refine invariant.move trivial (by simp [alone]) ?_ (fun poll => by cases poll)
      intro place slot _ _ sent
      rw [duty place] at sent
      exact .inl sent
    · exact enterRead_invariant invariant index duty alone
    · refine remove_invariant invariant (fun _ => trivial) (fun place _ => alone place) ?_ (by simp)
      intro old new _ _ sent
      rw [duty old] at sent
      exact sent
  · rename_i index here
    split
    · rename_i none
      refine invariant.move trivial (by simp [here,answering]) ?_ (fun poll => by cases poll)
      intro place slot found _ sent
      rw [here] at sent
      have above := List.getElem?_eq_none_iff.mp none
      have below := (List.getElem?_eq_some_iff.mp found).1
      have reached := of_decide_eq_true sent
      omega
    · rename_i slot found
      split
      · exact invariant
      · rename_i unsubscribed
        refine invariant.move trivial (by simp [here,answering]) ?_ (fun poll => by cases poll)
        intro place other same subscribed sent
        rw [here] at sent
        have reached := of_decide_eq_true sent
        have different : place ≠ index := by
          rintro rfl
          rw [found] at same
          cases same
          exact unsubscribed subscribed
        exact .inl (decide_eq_true (by omega))
  · exact invariant

theorem inOrder_nothing {published : List Payloads} {slot : Slot} (nothing : slot.sent = []) : InOrder published slot :=
  ⟨by simp [nothing],by simp [nothing],by simp [nothing]⟩

theorem enqueue_invariant {s : System} (invariant : Invariant s) (command : Bytes) :
    Invariant { s with server := (enqueueAction s.server command).1 } := by
  unfold enqueueAction
  split
  · exact invariant
  · exact invariant.around rfl rfl rfl rfl rfl id id

theorem answering_due {thread : Thread} {place : Nat} (answered : answering thread place = true) :
    due thread place = true := by
  cases thread with
  | copying round index => exact Bool.or_eq_true_iff.mpr (.inr answered)
  | sending round index copy => exact Bool.or_eq_true_iff.mpr (.inr answered)
  | _ => cases answered

-- An entry that has been sent nothing yet.
theorem unsent_invariant {s : System} (invariant : Invariant s) {index : Nat} {slot : Slot} {thread : Thread}
    (nothing : slot.sent = []) (answered : slot.client.subscribed = true → answering thread index = true)
    (engaged : Engaged (setSlot s index slot thread) thread)
    (alone : ∀ place, place ≠ index → answering s.thread place = false)
    (later : ∀ place, place ≠ index → due s.thread place = true → due thread place = true)
    (away : thread ≠ .poll) : Invariant (setSlot s index slot thread) :=
  setSlot_invariant invariant (inOrder_nothing nothing) (fun _ => nothing) (fun subscribed => .inr (answered subscribed))
    engaged (fun subscribed => .inr (.inr (answering_due (answered subscribed)))) alone later away

theorem received_invariant {s : System} (invariant : Invariant s) (outcome : Received) : Invariant (received s outcome) := by
  unfold received
  split
  · rename_i round index here
    have duty : ∀ place, due s.thread place = round.shouldBroadcast := by simp [here,due]
    have alone : ∀ place, answering s.thread place = false := by simp [here,answering]
    have removed : ∀ {t : System}, Invariant t → t.thread = s.thread → Invariant (remove t index (.serve round index)) := by
      intro t invariant same
      refine remove_invariant invariant (fun _ => trivial) (fun place _ => by rw [same]; exact alone place) ?_ (by simp)
      intro old new _ _ sent
      rw [same,duty old] at sent
      exact sent
    have engaged := invariant.engaged
    rw [here] at engaged
    split
    · rename_i slot data found
      have unsubscribed : slot.client.subscribed = false := engaged slot found
      have nothing := invariant.silent slot (List.mem_of_getElem? found) unsubscribed
      have answer : ∀ client : Client, Invariant (setSlot s index { slot with client := client } (.copying round index)) := by
        intro client
        refine unsent_invariant invariant nothing (fun _ => by simp [answering]) ?_ (fun place _ => alone place) ?_ (by simp)
        · intro other same
          rw [set_get_self same]
          exact nothing
        · intro place _ sent
          rw [duty place] at sent
          exact Bool.or_eq_true_iff.mpr (.inl sent)
      dsimp only
      split
      · refine enterRead_invariant (s := setSlot s index _ s.thread) ?_ index duty alone
        refine unsent_invariant invariant nothing ?_ ?_ (fun place _ => alone place) (fun _ _ sent => sent) (by simp [here])
        · intro subscribed
          simp [unsubscribed] at subscribed
        · rw [here]
          intro other same
          rw [set_get_self same]
          exact unsubscribed
      · exact answer _
      · exact answer _
      · exact removed (enqueue_invariant invariant _) rfl
      · exact removed invariant rfl
    · exact enterRead_invariant invariant index duty alone
    · refine invariant.move trivial (by simp [alone]) ?_ (fun poll => by cases poll)
      intro place slot _ _ sent
      rw [duty place] at sent
      exact .inl sent
    · exact removed invariant rfl
    · exact invariant
  · exact invariant

theorem copyFor_pending {s : System} (invariant : Invariant s) (slot : Slot) : Pending s (copyFor s slot) := by
  refine ⟨Nat.le_refl _,?_,.inl rfl⟩
  simp only [copyFor,copySnapshot,invariant.payloads]

theorem copied_invariant {s : System} (invariant : Invariant s) (allocated : Bool) : Invariant (copied s allocated) := by
  unfold copied
  split
  · rename_i round index here
    have alone : ∀ place, place ≠ index → answering s.thread place = false := by
      intro place different
      simp [here,answering,different]
    split
    · exact invariant
    · rename_i slot found
      split
      · refine remove_invariant invariant (fun _ => trivial) alone ?_ (by simp)
        intro old new different _ sent
        simpa [here,due,different] using sent
      · have engaged := invariant.engaged
        rw [here] at engaged
        have nothing : slot.sent = [] := engaged slot found
        have pending := copyFor_pending invariant slot
        refine unsent_invariant invariant nothing (fun _ => by simp [answering]) ?_ alone ?_ (by simp)
        · refine ⟨⟨pending.stored,pending.payload,pending.newest⟩,?_⟩
          intro other same
          rw [set_get_self same]
          exact ⟨nothing,rfl,rfl⟩
        · intro place _ sent
          simpa [here,due] using sent
  · rename_i index here
    split
    · exact invariant
    · rename_i slot found
      split
      · exact invariant
      · rename_i subscribed
        split
        · refine remove_invariant invariant (fun _ => trivial) (by simp [here,answering]) ?_ (by simp)
          intro old new _ same sent
          simp only [here,due,decide_eq_true_eq] at sent ⊢
          by_contra below
          have := same (by omega)
          omega
        · refine invariant.move ?_ (by simp [here,answering]) ?_ (fun poll => by cases poll)
          · refine ⟨copyFor_pending invariant slot,?_⟩
            intro other same
            rw [found] at same
            cases same
            refine ⟨by simpa using subscribed,rfl,?_⟩
            intro earlier listed
            have inOrder := invariant.ordered slot (List.mem_append_left _ (List.mem_of_getElem? found))
            exact (inOrder.each earlier listed).2.1
          · intro place other _ _ sent
            rw [here] at sent
            exact .inl sent
  · exact invariant

-- A copy that continues what the entry has been sent.
theorem inOrder_deliver {s : System} {slot : Slot} {copy : Copy} (inOrder : InOrder s.published slot)
    (pending : Pending s copy) (format : slot.client.format = copy.format)
    (after : ∀ earlier ∈ slot.sent, earlier.revision ≤ copy.revision)
    (first : slot.sent = [] → slot.since = some copy.revision) : InOrder s.published (deliver slot copy) := by
  refine ⟨?_,?_,?_⟩
  · rw [deliver,List.pairwise_append]
    refine ⟨inOrder.ordered,List.pairwise_singleton _ _,?_⟩
    intro earlier listed last same
    rw [List.mem_singleton.mp same]
    exact after earlier listed
  · intro other listed
    rcases List.mem_append.mp listed with old | last
    · exact inOrder.each other old
    · rw [List.mem_singleton.mp last]
      exact ⟨format.symm,pending.stored,pending.payload⟩
  · intro other head
    simp only [deliver] at head
    cases sent : slot.sent with
    | nil =>
      rw [sent] at head
      cases head
      exact first sent
    | cons earlier rest =>
      rw [sent] at head
      exact inOrder.first other (by rw [sent]; exact head)

theorem deliver_caught {s : System} (slot : Slot) {copy : Copy} (pending : Pending s copy) :
    Current s (deliver slot copy) ∨ Awake s :=
  pending.newest.imp (fun current => ⟨copy,by simp [deliver],current⟩) id

theorem written_invariant {s : System} (invariant : Invariant s) (whole : Bool) : Invariant (written s whole) := by
  unfold written
  split
  · rename_i round index copy here
    have alone : ∀ place, place ≠ index → answering s.thread place = false := by
      intro place different
      simp [here,answering,different]
    have later : ∀ old, old ≠ index → due s.thread old = true → round.shouldBroadcast = true := by
      intro old different sent
      simpa [here,due,different] using sent
    have engaged := invariant.engaged
    rw [here] at engaged
    obtain ⟨pending,state⟩ := engaged
    split
    · exact invariant
    · rename_i slot found
      obtain ⟨nothing,since,format⟩ := state slot found
      have inOrder : InOrder s.published (deliver slot copy) :=
        inOrder_deliver (inOrder_nothing nothing) pending format (by simp [nothing]) (fun _ => since)
      split
      · exact remove_invariant invariant (fun _ => trivial) alone (fun old new different _ => later old different) (by simp)
      · split
        · rename_i subscribed
          refine setSlot_invariant invariant inOrder ?_ (fun _ => .inl (by simp [deliver])) trivial ?_ alone later (by simp)
          · intro unsubscribed
            rw [deliver,subscribed] at unsubscribed
            cases unsubscribed
          · exact fun _ => (deliver_caught slot pending).imp id .inl
        · refine removeAs_invariant invariant ?_ (fun _ => trivial) alone (fun old new different _ => later old different)
            (by simp)
          intro other same
          rw [List.mem_singleton.mp same]
          exact inOrder
  · rename_i index copy here
    have alone : ∀ place, place ≠ index → answering s.thread place = false := by simp [here,answering]
    have engaged := invariant.engaged
    rw [here] at engaged
    obtain ⟨pending,state⟩ := engaged
    split
    · exact invariant
    · rename_i slot found
      obtain ⟨subscribed,format,after⟩ := state slot found
      have begun : slot.sent ≠ [] := by
        rcases invariant.begun index slot found subscribed with sent | answered
        · exact sent
        · rw [here] at answered
          cases answered
      split
      · have inOrder := invariant.ordered slot (List.mem_append_left _ (List.mem_of_getElem? found))
        refine setSlot_invariant invariant (inOrder_deliver inOrder pending format after (fun none => absurd none begun)) ?_
          (fun _ => .inl (by simp [deliver])) trivial ?_ alone ?_ (by simp)
        · intro unsubscribed
          rw [deliver,subscribed] at unsubscribed
          cases unsubscribed
        · exact fun _ => (deliver_caught slot pending).imp id .inl
        · intro place different sent
          simp only [here,due,decide_eq_true_eq] at sent ⊢
          omega
      · refine remove_invariant invariant (fun _ => trivial) alone ?_ (by simp)
        intro old new _ same sent
        simp only [here,due,decide_eq_true_eq] at sent ⊢
        by_contra below
        have := same (by omega)
        omega
  · exact invariant

theorem accepted_invariant {s : System} (invariant : Invariant s) (outcome : Accepted) : Invariant (accepted s outcome) := by
  unfold accepted
  split
  · rename_i round here
    exact afterAccept_invariant invariant (by simp [here,due]) (by simp [here,answering])
  · rename_i round fd configured here
    split
    · exact invariant
    · have get : ∀ (place : Nat) (slot : Slot), (s.slots ++ [⟨⟨fd,false,.default,[]⟩,none,[]⟩])[place]? = some slot →
          slot.client.subscribed = true → s.slots[place]? = some slot := by
        intro place slot found subscribed
        rw [List.getElem?_append] at found
        split at found
        · exact found
        · rw [List.mem_singleton.mp (List.mem_of_getElem? found)] at subscribed
          cases subscribed
      refine ⟨invariant.payloads,?_,?_,?_,?_,?_⟩
      · intro slot member
        simp only [List.mem_append,List.mem_singleton] at member
        rcases member with (old | rfl) | closed
        · exact invariant.ordered slot (List.mem_append_left _ old)
        · exact inOrder_nothing rfl
        · exact invariant.ordered slot (List.mem_append_right _ closed)
      · intro slot member unsubscribed
        rcases List.mem_append.mp member with old | new
        · exact invariant.silent slot old unsubscribed
        · rw [List.mem_singleton.mp new]
      · exact fun place slot found subscribed => invariant.begun place slot (get place slot found subscribed) subscribed
      · simp only [here]
        trivial
      · exact fun place slot found subscribed => invariant.caught place slot (get place slot found subscribed) subscribed
  · exact invariant

theorem apply_invariant {capacity : Nat} (positive : 0 < capacity) (s : System) (event : Event) (invariant : Invariant s) :
    Invariant (apply capacity s event) := by
  cases event with
  | publish payloads => exact publish_invariant invariant payloads
  | wake => exact wake_invariant positive invariant _ _
  | stop => exact stop_invariant invariant
  | wakeStop => exact wake_invariant positive invariant _ _
  | check => exact check_invariant invariant
  | polled outcome => exact polled_invariant invariant outcome
  | drained interrupted => exact drained_invariant invariant interrupted
  | advance => exact advance_invariant invariant
  | received outcome => exact received_invariant invariant outcome
  | copied allocated => exact copied_invariant invariant allocated
  | written whole => exact written_invariant invariant whole
  | accepted outcome => exact accepted_invariant invariant outcome

-- Over every interleaving: what a client is sent follows the publications, and
-- the thread never sleeps on a subscriber that has missed one.
theorem subscribers_served (capacity : Nat) (positive : 0 < capacity) (events : List Event)
    (possible : Runs.Each (apply capacity) Possible boot events) :
    Runs.Throughout (apply capacity) Served boot events :=
  Runs.throughout_imp (fun _ invariant => invariant.served)
    (Runs.throughout_invariant (fun s event invariant _ => apply_invariant positive s event invariant) boot_invariant
      possible)

def pipeCapacity : Nat := 65536

-- control.start returns before the first control.publish: a client that
-- subscribes in between.
def earlyRun : List Event :=
  [.check,.polled (.ready true false []),.advance,.accepted (.connection 7 true),.accepted .nothing,
   .check,.polled (.ready false false [.readable]),.advance,.received (.bytes (text "subscribe\n")),
   .copied true,.written true,
   .publish ⟨text "snapshot\n",text "eww\n",text "doctor\n"⟩,.wake]

theorem early_possible : Runs.Each (apply pipeCapacity) Possible boot earlyRun := by
  refine ⟨trivial,⟨by simp,rfl⟩,trivial,trivial,trivial,trivial,⟨by simp,rfl⟩,trivial,
    ⟨by decide,by decide⟩,trivial,trivial,trivial,Nat.succ_pos 0,trivial⟩

-- Another publication follows; one broadcast carries the newer of the two, and
-- the thread is back in poll.
def caughtUpRun : List Event :=
  earlyRun ++
  [.publish ⟨text "second\n",text "eww\n",text "doctor\n"⟩,.wake,.advance,.check,.polled (.ready false true [.quiet]),
   .drained false,.drained false,.check,.advance,.advance,.copied true,.written true,.advance,.check]

theorem caughtUp_possible : Runs.Each (apply pipeCapacity) Possible boot caughtUpRun := by
  refine ⟨trivial,⟨by simp,rfl⟩,trivial,trivial,trivial,trivial,⟨by simp,rfl⟩,trivial,
    ⟨by decide,by decide⟩,trivial,trivial,trivial,Nat.succ_pos 0,trivial,Nat.succ_pos 0,trivial,trivial,
    ⟨fun _ => by decide,rfl⟩,trivial,trivial,trivial,trivial,trivial,trivial,trivial,trivial,trivial,trivial⟩

theorem caughtUp_subscribers_served :
    ((Runs.final (apply pipeCapacity) boot caughtUpRun).thread = .poll ∧
      (Runs.final (apply pipeCapacity) boot caughtUpRun).pipe = 0 ∧
      (Runs.final (apply pipeCapacity) boot caughtUpRun).publishers = 0 ∧
      (Runs.final (apply pipeCapacity) boot caughtUpRun).slots.map Slot.sent =
        [[⟨.default,0,emptySnapshot .default⟩,⟨.default,2,text "second\n"⟩]]) ∧
    Runs.Throughout (apply pipeCapacity) Served boot caughtUpRun :=
  ⟨⟨rfl,rfl,rfl,rfl⟩,subscribers_served pipeCapacity (by decide) caughtUpRun caughtUp_possible⟩

-- The empty snapshot it was sent is no payload that was published.
theorem early_subscriber_sent_unpublished :
    Runs.Each (apply pipeCapacity) Possible boot earlyRun ∧
    ∃ slot ∈ (Runs.final (apply pipeCapacity) boot earlyRun).slots, slot.client.subscribed = true ∧
      ∃ copy ∈ slot.sent, ∀ payloads ∈ (Runs.final (apply pipeCapacity) boot earlyRun).published,
        copy.payload ≠ payloads.of copy.format :=
  ⟨early_possible,⟨⟨7,true,.default,text "subscribe\n"⟩,some 0,[⟨.default,0,emptySnapshot .default⟩]⟩,by decide,rfl,
    ⟨.default,0,emptySnapshot .default⟩,by decide,by decide⟩

end Hypringo.Broadcast

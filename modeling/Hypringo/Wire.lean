import Hypringo.Broadcast

namespace Hypringo.Wire
open Hypringo.Lua Control Broadcast

-- What send answers: the bytes taken, or an error.
inductive Sent where
  | taken (count : Nat)
  | interrupted
  | wouldBlock
  | failed
  deriving DecidableEq, Repr

-- One turn of the loop of write_all: what goes out, what is left, and the result
-- once there is one.
structure Turn where
  out : Bytes
  left : Bytes
  result : Option Bool

def writeTurn (left : Bytes) : Sent → Turn
  | .taken count => ⟨left.take count,left.drop count,if left.drop count = [] then some true else none⟩
  | .interrupted => ⟨[],left,none⟩
  | .wouldBlock | .failed => ⟨[],left,some false⟩

-- A connection the daemon has closed. `kept` says that the client had not.
structure Ended where
  received : Bytes
  kept : Bool
  deriving DecidableEq, Repr

-- `left` is what the write_all under way has still to send. What has gone out on
-- an open descriptor, and who has hung up, is known to the kernel only.
structure Sockets where
  system : System
  left : Bytes
  received : Nat → Bytes
  hungUp : Nat → Bool
  ended : List Ended

def boot : Sockets := ⟨Broadcast.boot,[],fun _ => [],fun _ => false,[]⟩

def writing : Thread → Option (Nat × Copy)
  | .sending _ index copy => some (index,copy)
  | .broadcastSending index copy => some (index,copy)
  | _ => none

-- The descriptor a write_all is under way on, and what it was given.
def addressee (s : System) : Option (Nat × Copy) :=
  (writing s.thread).bind (fun task => s.slots[task.1]?.map (fun slot => (slot.client.fd,task.2)))

def descriptors (s : System) : List Nat := s.slots.map (fun slot => slot.client.fd)

def closed (s t : System) : List Nat := (descriptors s).filter (fun fd => !(descriptors t).contains fd)

def settle (w : Sockets) (next : System) : Sockets :=
  { w with system := next
           ended := w.ended ++ (closed w.system next).map (fun fd => ⟨w.received fd,!w.hungUp fd⟩) }

-- `inner` is any event but the end of a write, which the sends bring about.
inductive Event where
  | inner (event : Broadcast.Event)
  | send (outcome : Sent)
  | hangUp (fd : Nat)
  deriving DecidableEq, Repr

def opened : Broadcast.Event → Option Nat
  | .accepted (.connection fd _) => some fd
  | _ => none

-- write_all starts out with the whole payload.
def begun (w : Sockets) (next : System) : Bytes :=
  match writing w.system.thread,writing next.thread with
  | none,some (_,copy) => copy.payload
  | _,_ => w.left

def connected (w : Sockets) : Option Nat → Sockets
  | some fd => { w with received := Function.update w.received fd [], hungUp := Function.update w.hungUp fd false }
  | none => w

def inner (capacity : Nat) (w : Sockets) (event : Broadcast.Event) : Sockets :=
  let next := Broadcast.apply capacity w.system event
  connected { settle w next with left := begun w next } (opened event)

def send (w : Sockets) (outcome : Sent) : Sockets :=
  match addressee w.system with
  | none => w
  | some (fd,_) =>
    let turn := writeTurn w.left outcome
    let w := { w with received := Function.update w.received fd (w.received fd ++ turn.out), left := turn.left }
    match turn.result with
    | none => w
    | some whole => settle w (written w.system whole)

def apply (capacity : Nat) (w : Sockets) : Event → Sockets
  | .inner event => inner capacity w event
  | .send outcome => send w outcome
  | .hangUp fd => { w with hungUp := Function.update w.hungUp fd true }

-- accept gives a descriptor that is not open.
def Possible (w : Sockets) : Event → Prop
  | .inner (.written _) => False
  | .inner event => Broadcast.Possible w.system event ∧ ∀ fd, opened event = some fd → fd ∉ descriptors w.system
  | .send (.taken count) => 0 < count ∧ count ≤ w.left.length
  | .send _ | .hangUp _ => True

-- No send is refused after a part of the line, unless the client has hung up.
def Unbroken (w : Sockets) : Event → Prop
  | .send .wouldBlock | .send .failed =>
    ∀ fd copy, addressee w.system = some (fd,copy) → w.left = copy.payload ∨ w.hungUp fd = true
  | _ => True

def Line (published : List Payloads) (line : Bytes) : Prop :=
  ∃ format n, n ≤ published.length ∧ line = snapshotText format ((history published n).of format)

def Lines (published : List Payloads) (bytes : Bytes) : Prop :=
  ∃ lines : List Bytes, (∀ line ∈ lines, Line published line) ∧ bytes = lines.flatten

-- Whole lines on every connection, the one being written to apart, and on every
-- connection the daemon closed before the client did.
structure Complete (w : Sockets) : Prop where
  connected : ∀ slot ∈ w.system.slots, (∀ copy, addressee w.system ≠ some (slot.client.fd,copy)) →
    Lines w.system.published (w.received slot.client.fd)
  underway : ∀ fd copy, addressee w.system = some (fd,copy) → Line w.system.published copy.payload ∧
    ∃ lines part, Lines w.system.published lines ∧ w.received fd = lines ++ part ∧ part ++ w.left = copy.payload
  ended : ∀ last ∈ w.ended, last.kept = true → Lines w.system.published last.received

theorem Lines.nil (published : List Payloads) : Lines published [] := ⟨[],nofun,rfl⟩

theorem Lines.append {published : List Payloads} {one two : Bytes} (first : Lines published one)
    (second : Lines published two) : Lines published (one ++ two) := by
  obtain ⟨lines,each,rfl⟩ := first
  obtain ⟨others,all,rfl⟩ := second
  refine ⟨lines ++ others,?_,List.flatten_append.symm⟩
  intro line member
  rcases List.mem_append.mp member with early | late
  · exact each line early
  · exact all line late

theorem Line.lines {published : List Payloads} {line : Bytes} (whole : Line published line) : Lines published line := by
  refine ⟨[line],?_,by simp⟩
  intro other member
  rw [List.mem_singleton.mp member]
  exact whole

theorem Line.grow {earlier later : List Payloads} (grown : earlier <+: later) {line : Bytes} (whole : Line earlier line) :
    Line later line := by
  obtain ⟨format,n,le,rfl⟩ := whole
  exact ⟨format,n,Nat.le_trans le grown.length_le,by rw [history_grown grown le]⟩

theorem Lines.grow {earlier later : List Payloads} (grown : earlier <+: later) {bytes : Bytes} (whole : Lines earlier bytes) :
    Lines later bytes := by
  obtain ⟨lines,each,rfl⟩ := whole
  exact ⟨lines,fun line member => (each line member).grow grown,rfl⟩

-- No two clients on one descriptor.
def Distinct (slots : List Slot) : Prop :=
  ∀ (i j : Nat) (a b : Slot), slots[i]? = some a → slots[j]? = some b → a.client.fd = b.client.fd → i = j

theorem Distinct.remove {slots : List Slot} (distinct : Distinct slots) (index : Nat) : Distinct (removeClient slots index) := by
  intro i j a b first second same
  obtain ⟨below,found⟩ := removeClient_place first
  obtain ⟨under,other⟩ := removeClient_place second
  have places := distinct _ _ _ _ found other same
  split at places <;> split at places <;> omega

theorem Distinct.other {slots : List Slot} (distinct : Distinct slots) {index : Nat} {slot rest : Slot}
    (found : slots[index]? = some slot) (member : rest ∈ removeClient slots index) :
    rest ∈ slots ∧ rest.client.fd ≠ slot.client.fd := by
  obtain ⟨new,placed⟩ := List.mem_iff_getElem?.mp member
  obtain ⟨below,origin⟩ := removeClient_place placed
  refine ⟨List.mem_of_getElem? origin,?_⟩
  intro same
  have places := distinct _ _ _ _ origin found same
  split at places <;> omega

theorem Distinct.set {slots : List Slot} (distinct : Distinct slots) {index : Nat} {slot next : Slot}
    (found : slots[index]? = some slot) (same : next.client.fd = slot.client.fd) : Distinct (slots.set index next) := by
  have origin : ∀ (i : Nat) (a : Slot), (slots.set index next)[i]? = some a →
      ∃ b, slots[i]? = some b ∧ b.client.fd = a.client.fd := by
    intro i a placed
    rcases set_get placed with ⟨rfl,rfl⟩ | ⟨_,kept⟩
    · exact ⟨slot,found,same.symm⟩
    · exact ⟨a,kept,rfl⟩
  intro i j a b first second equal
  obtain ⟨one,here,fd⟩ := origin i a first
  obtain ⟨two,there,fd'⟩ := origin j b second
  exact distinct i j one two here there (fd.trans (equal.trans fd'.symm))

theorem Distinct.connect {slots : List Slot} (distinct : Distinct slots) {slot : Slot}
    (fresh : ∀ other ∈ slots, other.client.fd ≠ slot.client.fd) : Distinct (slots ++ [slot]) := by
  have origin : ∀ (i : Nat) (a : Slot), (slots ++ [slot])[i]? = some a → slots[i]? = some a ∨ (i = slots.length ∧ a = slot) := by
    intro i a placed
    rcases Nat.lt_or_ge i slots.length with inside | outside
    · rw [List.getElem?_append_left inside] at placed
      exact .inl placed
    · rw [List.getElem?_append_right outside,List.getElem?_singleton] at placed
      split at placed
      · exact .inr ⟨by omega,(Option.some.inj placed).symm⟩
      · cases placed
  intro i j a b first second equal
  rcases origin i a first with here | ⟨last,rfl⟩
  · rcases origin j b second with there | ⟨_,rfl⟩
    · exact distinct i j a b here there equal
    · exact absurd equal (fresh a (List.mem_of_getElem? here))
  · rcases origin j b second with there | ⟨also,_⟩
    · exact absurd equal.symm (fresh b (List.mem_of_getElem? there))
    · omega

-- What a step other than a write does to the clients.
structure Frame (s t : System) (fresh : Option Nat) : Prop where
  published : s.published <+: t.published
  slots : ∀ slot ∈ t.slots, (∃ earlier ∈ s.slots, earlier.client.fd = slot.client.fd ∧ earlier.sent = slot.sent) ∨
    (slot.sent = [] ∧ fresh = some slot.client.fd)
  distinct : Distinct s.slots → (∀ fd, fresh = some fd → fd ∉ descriptors s) → Distinct t.slots

theorem Frame.kept {s t : System} {fresh : Option Nat} (published : s.published <+: t.published)
    (slots : t.slots = s.slots) : Frame s t fresh := by
  refine ⟨published,?_,?_⟩
  · intro slot member
    exact .inl ⟨slot,slots ▸ member,rfl,rfl⟩
  · intro distinct _
    rw [slots]
    exact distinct

theorem Frame.refl (s : System) {fresh : Option Nat} : Frame s s fresh := .kept (List.prefix_refl _) rfl

theorem Frame.remove {s t : System} {fresh : Option Nat} {index : Nat} (published : t.published = s.published)
    (slots : t.slots = removeClient s.slots index) : Frame s t fresh := by
  refine ⟨published ▸ List.prefix_refl _,?_,?_⟩
  · intro slot member
    rw [slots] at member
    exact .inl ⟨slot,removeClient_mem member,rfl,rfl⟩
  · intro distinct _
    rw [slots]
    exact distinct.remove index

theorem Frame.set {s t : System} {fresh : Option Nat} {index : Nat} {slot next : Slot} (found : s.slots[index]? = some slot)
    (published : t.published = s.published) (slots : t.slots = s.slots.set index next)
    (fd : next.client.fd = slot.client.fd) (sent : next.sent = slot.sent) : Frame s t fresh := by
  refine ⟨published ▸ List.prefix_refl _,?_,?_⟩
  · intro other member
    rw [slots] at member
    rcases List.mem_or_eq_of_mem_set member with kept | rfl
    · exact .inl ⟨other,kept,rfl,rfl⟩
    · exact .inl ⟨slot,List.mem_of_getElem? found,fd.symm,sent.symm⟩
  · intro distinct _
    rw [slots]
    exact distinct.set found fd

theorem Frame.trans {s t u : System} {fresh : Option Nat} (first : Frame s t fresh) (second : Frame t u none) :
    Frame s u fresh := by
  refine ⟨first.published.trans second.published,?_,?_⟩
  · intro slot member
    rcases second.slots slot member with ⟨earlier,present,fd,sent⟩ | ⟨_,never⟩
    · rcases first.slots earlier present with ⟨origin,before,fd',sent'⟩ | ⟨nothing,made⟩
      · exact .inl ⟨origin,before,fd'.trans fd,sent'.trans sent⟩
      · exact .inr ⟨sent.symm.trans nothing,made.trans (congrArg some fd)⟩
    · cases never
  · intro distinct unopened
    exact second.distinct (first.distinct distinct unopened) nofun

theorem enterRead_frame (s : System) (round : Round) (index : Nat) : Frame s (enterRead s round index) none := by
  unfold enterRead
  split
  · exact .kept (List.prefix_refl _) rfl
  · split
    · exact .kept (List.prefix_refl _) rfl
    · split
      · exact .remove rfl rfl
      · exact .kept (List.prefix_refl _) rfl

theorem advance_frame (s : System) : Frame s (advance s) none := by
  unfold advance
  split
  · exact .kept (List.prefix_refl _) rfl
  · split
    · exact .kept (List.prefix_refl _) rfl
    · exact enterRead_frame _ _ _
    · exact .remove rfl rfl
  · split
    · exact .kept (List.prefix_refl _) rfl
    · split
      · exact .refl s
      · exact .kept (List.prefix_refl _) rfl
  · exact .refl s

theorem received_frame (s : System) (outcome : Received) : Frame s (received s outcome) none := by
  unfold received
  split
  · rename_i round index here
    split
    · rename_i slot data found
      dsimp only
      split
      · refine Frame.trans ?_ (enterRead_frame _ round index)
        exact .set found rfl rfl rfl rfl
      · exact .set found rfl rfl rfl rfl
      · exact .set found rfl rfl rfl rfl
      · exact .remove rfl rfl
      · exact .remove rfl rfl
    · exact enterRead_frame _ _ _
    · exact .kept (List.prefix_refl _) rfl
    · exact .remove rfl rfl
    · exact .refl s
  · exact .refl s

theorem copied_frame (s : System) (allocated : Bool) : Frame s (copied s allocated) none := by
  unfold copied
  split
  · split
    · exact .refl s
    · rename_i slot found
      split
      · exact .remove rfl rfl
      · exact .set found rfl rfl rfl rfl
  · split
    · exact .refl s
    · split
      · exact .refl s
      · split
        · exact .remove rfl rfl
        · exact .kept (List.prefix_refl _) rfl
  · exact .refl s

theorem leave_frame (s : System) : Frame s (leave s) none := by
  refine ⟨List.prefix_refl _,nofun,?_⟩
  intro _ _ i j a b none
  cases none

theorem accepted_frame (s : System) (outcome : Accepted) : Frame s (Broadcast.accepted s outcome) (opened (.accepted outcome)) := by
  unfold Broadcast.accepted
  split
  · exact .kept (List.prefix_refl _) rfl
  · split
    · exact .refl s
    · refine ⟨List.prefix_refl _,?_,?_⟩
      · intro slot member
        rcases List.mem_append.mp member with kept | new
        · exact .inl ⟨slot,kept,rfl,rfl⟩
        · rw [List.mem_singleton.mp new]
          exact .inr ⟨rfl,rfl⟩
      · intro distinct fresh
        refine distinct.connect ?_
        intro other present same
        exact fresh _ rfl (List.mem_map.mpr ⟨other,present,same⟩)
  · exact .refl s

theorem apply_frame (capacity : Nat) (s : System) {event : Broadcast.Event} (other : ∀ whole, event ≠ .written whole) :
    Frame s (Broadcast.apply capacity s event) (opened event) := by
  cases event with
  | publish payloads =>
    simp only [Broadcast.apply,publish]
    split
    · exact .refl s
    · exact .kept (List.prefix_append _ _) rfl
  | wake => exact .kept (List.prefix_refl _) rfl
  | stop =>
    simp only [Broadcast.apply,stop]
    split
    · exact .refl s
    · exact .kept (List.prefix_refl _) rfl
  | wakeStop => exact .kept (List.prefix_refl _) rfl
  | check =>
    simp only [Broadcast.apply,check]
    split
    · split
      · exact leave_frame s
      · exact .kept (List.prefix_refl _) rfl
    · exact .kept (List.prefix_refl _) rfl
    · exact .refl s
  | polled outcome =>
    simp only [Broadcast.apply,polled]
    split
    · exact .kept (List.prefix_refl _) rfl
    · exact leave_frame s
    · exact .kept (List.prefix_refl _) rfl
    · exact .refl s
  | drained interrupted =>
    simp only [Broadcast.apply,drained]
    split
    · split
      · exact .kept (List.prefix_refl _) rfl
      · exact .kept (List.prefix_refl _) rfl
    · exact .refl s
  | advance => exact advance_frame s
  | received outcome => exact received_frame s outcome
  | copied allocated => exact copied_frame s allocated
  | written whole => exact absurd rfl (other whole)
  | accepted outcome => exact accepted_frame s outcome

theorem writing_thread {thread : Thread} {task : Nat × Copy} (busy : writing thread = some task) :
    (∃ round, thread = .sending round task.1 task.2) ∨ thread = .broadcastSending task.1 task.2 := by
  cases thread with
  | sending round index copy =>
    cases busy
    exact .inl ⟨round,rfl⟩
  | broadcastSending index copy =>
    cases busy
    exact .inr rfl
  | _ => cases busy

-- While a write is under way no other step touches the clients.
theorem apply_busy (capacity : Nat) {s : System} {event : Broadcast.Event} (other : ∀ whole, event ≠ .written whole)
    {task : Nat × Copy} (busy : writing s.thread = some task) :
    (Broadcast.apply capacity s event).thread = s.thread ∧ (Broadcast.apply capacity s event).slots = s.slots := by
  have unmoved : check s = s ∧ advance s = s ∧ (∀ outcome, polled s outcome = s) ∧
      (∀ interrupted, drained s interrupted = s) ∧ (∀ outcome, received s outcome = s) ∧
        (∀ allocated, copied s allocated = s) ∧ ∀ outcome, Broadcast.accepted s outcome = s := by
    rcases writing_thread busy with ⟨round,here⟩ | here
    · simp [check,polled,drained,advance,received,copied,Broadcast.accepted,here]
    · simp [check,polled,drained,advance,received,copied,Broadcast.accepted,here]
  obtain ⟨checking,advancing,polling,draining,receiving,copying,accepting⟩ := unmoved
  cases event with
  | publish payloads =>
    simp only [Broadcast.apply,publish]
    split <;> exact ⟨rfl,rfl⟩
  | wake => exact ⟨rfl,rfl⟩
  | stop =>
    simp only [Broadcast.apply,stop]
    split <;> exact ⟨rfl,rfl⟩
  | wakeStop => exact ⟨rfl,rfl⟩
  | written whole => exact absurd rfl (other whole)
  | check => rw [Broadcast.apply,checking]; exact ⟨rfl,rfl⟩
  | advance => rw [Broadcast.apply,advancing]; exact ⟨rfl,rfl⟩
  | polled outcome => rw [Broadcast.apply,polling]; exact ⟨rfl,rfl⟩
  | drained interrupted => rw [Broadcast.apply,draining]; exact ⟨rfl,rfl⟩
  | received outcome => rw [Broadcast.apply,receiving]; exact ⟨rfl,rfl⟩
  | copied allocated => rw [Broadcast.apply,copying]; exact ⟨rfl,rfl⟩
  | accepted outcome => rw [Broadcast.apply,accepting]; exact ⟨rfl,rfl⟩

def wholly (slot : Slot) : Bytes := (slot.sent.map Copy.payload).flatten

-- What has gone out is what was sent in whole, and on the connection written to
-- the part that is no longer left.
structure Invariant (w : Sockets) : Prop where
  base : Broadcast.Invariant w.system
  distinct : Distinct w.system.slots
  quiet : ∀ slot ∈ w.system.slots, (∀ copy, addressee w.system ≠ some (slot.client.fd,copy)) →
    w.received slot.client.fd = wholly slot
  underway : ∀ index copy slot, writing w.system.thread = some (index,copy) → w.system.slots[index]? = some slot →
    ∃ part, w.received slot.client.fd = wholly slot ++ part ∧ part ++ w.left = copy.payload
  ended : ∀ last ∈ w.ended, last.kept = true → Lines w.system.published last.received

theorem boot_invariant : Invariant boot where
  base := Broadcast.boot_invariant
  distinct := by
    intro i j a b none
    cases none
  quiet := by
    intro slot none
    cases none
  underway := nofun
  ended := by
    intro last none
    cases none

theorem addressee_some {s : System} {fd : Nat} {copy : Copy} (found : addressee s = some (fd,copy)) :
    ∃ index slot, writing s.thread = some (index,copy) ∧ s.slots[index]? = some slot ∧ slot.client.fd = fd := by
  obtain ⟨⟨index,other⟩,busy,here⟩ := Option.bind_eq_some_iff.mp found
  obtain ⟨slot,placed,pair⟩ := Option.map_eq_some_iff.mp here
  cases pair
  exact ⟨index,slot,busy,placed,rfl⟩

theorem addressee_of {s : System} {index : Nat} {copy : Copy} {slot : Slot} (busy : writing s.thread = some (index,copy))
    (placed : s.slots[index]? = some slot) : addressee s = some (slot.client.fd,copy) := by
  simp [addressee,busy,placed]

theorem addressee_idle {s : System} (idle : writing s.thread = none) : addressee s = none := by
  simp [addressee,idle]

theorem InOrder.lines {published : List Payloads} {slot : Slot} (inOrder : InOrder published slot) :
    Lines published (wholly slot) := by
  refine ⟨slot.sent.map Copy.payload,?_,rfl⟩
  intro line member
  obtain ⟨copy,sent,rfl⟩ := List.mem_map.mp member
  obtain ⟨_,stored,payload⟩ := inOrder.each copy sent
  exact ⟨copy.format,copy.revision,stored,payload⟩

theorem Invariant.lines {w : Sockets} (invariant : Invariant w) {slot : Slot} (present : slot ∈ w.system.slots) :
    Lines w.system.published (wholly slot) :=
  InOrder.lines (invariant.base.ordered slot (List.mem_append_left _ present))

theorem Invariant.line {w : Sockets} (invariant : Invariant w) {index : Nat} {copy : Copy}
    (busy : writing w.system.thread = some (index,copy)) : Line w.system.published copy.payload := by
  have pending : Pending w.system copy := by
    have engaged := invariant.base.engaged
    rcases writing_thread busy with ⟨round,here⟩ | here
    · rw [here] at engaged
      exact engaged.1
    · rw [here] at engaged
      exact engaged.1
  exact ⟨copy.format,copy.revision,pending.stored,pending.payload⟩

theorem Invariant.complete {w : Sockets} (invariant : Invariant w) : Complete w := by
  refine ⟨?_,?_,invariant.ended⟩
  · intro slot present quiet
    rw [invariant.quiet slot present quiet]
    exact invariant.lines present
  · intro fd copy found
    obtain ⟨index,slot,busy,placed,rfl⟩ := addressee_some found
    obtain ⟨part,sent,rest⟩ := invariant.underway index copy slot busy placed
    exact ⟨invariant.line busy,wholly slot,part,invariant.lines (List.mem_of_getElem? placed),sent,rest⟩

theorem connected_system (w : Sockets) (fresh : Option Nat) : (connected w fresh).system = w.system := by
  cases fresh <;> rfl

theorem connected_left (w : Sockets) (fresh : Option Nat) : (connected w fresh).left = w.left := by
  cases fresh <;> rfl

theorem connected_ended (w : Sockets) (fresh : Option Nat) : (connected w fresh).ended = w.ended := by
  cases fresh <;> rfl

theorem connected_received (w : Sockets) {fresh : Option Nat} {fd : Nat} (other : fresh ≠ some fd) :
    (connected w fresh).received fd = w.received fd := by
  cases fresh with
  | none => rfl
  | some new => exact Function.update_of_ne (fun same => other (congrArg some same.symm)) _ _

theorem connected_new (w : Sockets) (fd : Nat) : (connected w (some fd)).received fd = [] := Function.update_self _ _ _

theorem closed_open {s t : System} {fd : Nat} (member : fd ∈ closed s t) : ∃ slot ∈ s.slots, slot.client.fd = fd :=
  List.mem_map.mp (List.mem_of_mem_filter member)

theorem closed_same {s t : System} (same : t.slots = s.slots) : closed s t = [] := by
  unfold closed descriptors
  rw [same]
  exact List.filter_eq_nil_iff.mpr (by simp)

theorem inner_system (capacity : Nat) (w : Sockets) (event : Broadcast.Event) :
    (inner capacity w event).system = Broadcast.apply capacity w.system event := connected_system _ _

theorem inner_busy {capacity : Nat} {w : Sockets} {event : Broadcast.Event} (positive : 0 < capacity)
    (invariant : Invariant w) (other : ∀ whole, event ≠ .written whole)
    (fresh : ∀ fd, opened event = some fd → fd ∉ descriptors w.system) {task : Nat × Copy}
    (busy : writing w.system.thread = some task) : Invariant (inner capacity w event) := by
  obtain ⟨thread,slots⟩ := apply_busy capacity other busy
  have frame := apply_frame capacity w.system other
  have unread : ∀ slot ∈ w.system.slots, (inner capacity w event).received slot.client.fd = w.received slot.client.fd := by
    intro slot present
    refine connected_received _ ?_
    intro new
    exact fresh _ new (List.mem_map_of_mem present)
  have left : (inner capacity w event).left = w.left := by
    rw [inner,connected_left]
    simp only [begun,busy]
  have addressed : addressee (Broadcast.apply capacity w.system event) = addressee w.system := by
    simp only [addressee,thread,slots]
  refine ⟨?_,?_,?_,?_,?_⟩
  · rw [inner_system]
    exact Broadcast.apply_invariant positive _ _ invariant.base
  · rw [inner_system]
    exact frame.distinct invariant.distinct fresh
  · rw [inner_system,addressed,slots]
    intro slot present quiet
    rw [unread slot present]
    exact invariant.quiet slot present quiet
  · rw [inner_system,thread,slots,left]
    intro index copy slot here placed
    rw [unread slot (List.mem_of_getElem? placed)]
    exact invariant.underway index copy slot here placed
  · intro last member kept
    rw [inner_system]
    rw [inner,connected_ended] at member
    simp only [settle,closed_same slots,List.map_nil,List.append_nil] at member ⊢
    exact (invariant.ended last member kept).grow frame.published

theorem inner_idle {capacity : Nat} {w : Sockets} {event : Broadcast.Event} (positive : 0 < capacity)
    (invariant : Invariant w) (other : ∀ whole, event ≠ .written whole)
    (fresh : ∀ fd, opened event = some fd → fd ∉ descriptors w.system)
    (idle : writing w.system.thread = none) : Invariant (inner capacity w event) := by
  have frame := apply_frame capacity w.system other
  have quiet : ∀ slot ∈ w.system.slots, w.received slot.client.fd = wholly slot := by
    intro slot present
    refine invariant.quiet slot present ?_
    rw [addressee_idle idle]
    exact nofun
  have sent : ∀ slot ∈ (Broadcast.apply capacity w.system event).slots,
      (inner capacity w event).received slot.client.fd = wholly slot := by
    intro slot present
    rcases frame.slots slot present with ⟨earlier,before,fd,same⟩ | ⟨nothing,new⟩
    · rw [← fd]
      refine (connected_received _ ?_).trans ((quiet earlier before).trans ?_)
      · exact fun new => fresh _ new (List.mem_map_of_mem before)
      · rw [wholly,wholly,same]
    · rw [inner,new,connected_new,wholly,nothing]
      rfl
  refine ⟨?_,?_,?_,?_,?_⟩
  · rw [inner_system]
    exact Broadcast.apply_invariant positive _ _ invariant.base
  · rw [inner_system]
    exact frame.distinct invariant.distinct fresh
  · rw [inner_system]
    exact fun slot present _ => sent slot present
  · rw [inner_system]
    intro index copy slot here placed
    refine ⟨[],?_,?_⟩
    · rw [sent slot (List.mem_of_getElem? placed),List.append_nil]
    · rw [inner,connected_left]
      simp only [begun,idle,here,List.nil_append]
  · rw [inner_system]
    intro last member kept
    rw [inner,connected_ended] at member
    rcases List.mem_append.mp member with old | new
    · exact (invariant.ended last old kept).grow frame.published
    · obtain ⟨fd,gone,rfl⟩ := List.mem_map.mp new
      obtain ⟨slot,present,rfl⟩ := closed_open gone
      rw [quiet slot present]
      exact (invariant.lines present).grow frame.published

-- A part goes out: it joins what has gone out before.
theorem part_invariant {w : Sockets} (invariant : Invariant w) {fd : Nat} {copy : Copy}
    (found : addressee w.system = some (fd,copy)) {out left : Bytes} (split : out ++ left = w.left) :
    Invariant { w with received := Function.update w.received fd (w.received fd ++ out), left := left } := by
  obtain ⟨index,slot,busy,placed,rfl⟩ := addressee_some found
  obtain ⟨part,sent,rest⟩ := invariant.underway index copy slot busy placed
  refine ⟨invariant.base,invariant.distinct,?_,?_,invariant.ended⟩
  · intro other present quiet
    have apart : other.client.fd ≠ slot.client.fd := by
      intro same
      rw [same] at quiet
      exact quiet copy found
    exact (Function.update_of_ne apart _ _).trans (invariant.quiet other present quiet)
  · intro place copy' slot' here placed'
    cases busy.symm.trans here
    cases placed.symm.trans placed'
    refine ⟨part ++ out,?_,?_⟩
    · rw [← List.append_assoc,← sent]
      exact Function.update_self _ _ _
    · rw [List.append_assoc,split,rest]

theorem written_frame {s : System} {index : Nat} {copy : Copy} {slot : Slot} (distinct : Distinct s.slots)
    (busy : writing s.thread = some (index,copy)) (placed : s.slots[index]? = some slot) (whole : Bool) :
    (written s whole).published = s.published ∧ writing (written s whole).thread = none ∧
      Distinct (written s whole).slots ∧ ∀ other ∈ (written s whole).slots,
        (other ∈ s.slots ∧ other.client.fd ≠ slot.client.fd) ∨ (whole = true ∧ other = deliver slot copy) := by
  have removed : Distinct (removeClient s.slots index) ∧ ∀ other ∈ removeClient s.slots index,
      (other ∈ s.slots ∧ other.client.fd ≠ slot.client.fd) ∨ (whole = true ∧ other = deliver slot copy) :=
    ⟨distinct.remove index,fun other member => .inl (distinct.other placed member)⟩
  have delivered : whole = true → Distinct (s.slots.set index (deliver slot copy)) ∧
      ∀ other ∈ s.slots.set index (deliver slot copy),
        (other ∈ s.slots ∧ other.client.fd ≠ slot.client.fd) ∨ (whole = true ∧ other = deliver slot copy) := by
    intro sent
    refine ⟨distinct.set placed rfl,?_⟩
    intro other member
    obtain ⟨place,found⟩ := List.mem_iff_getElem?.mp member
    rcases set_get found with ⟨_,same⟩ | ⟨apart,kept⟩
    · exact .inr ⟨sent,same⟩
    · exact .inl ⟨List.mem_of_getElem? kept,fun same => apart (distinct _ _ _ _ kept placed same)⟩
  rcases writing_thread busy with ⟨round,here⟩ | here
  · simp only [written,here,placed]
    split
    · exact ⟨rfl,rfl,removed⟩
    · rename_i done
      split
      · exact ⟨rfl,rfl,delivered (by simpa using done)⟩
      · exact ⟨rfl,rfl,removed⟩
  · simp only [written,here,placed]
    split
    · rename_i done
      exact ⟨rfl,rfl,delivered done⟩
    · exact ⟨rfl,rfl,removed⟩

-- The end of a write: the line is out, or the connection goes with no part of it
-- out, or the client had gone.
theorem settle_invariant {w : Sockets} (invariant : Invariant w) {index : Nat} {copy : Copy} {slot : Slot}
    (busy : writing w.system.thread = some (index,copy)) (placed : w.system.slots[index]? = some slot) (whole : Bool)
    (out : whole = true → w.left = [])
    (kept : whole = false → w.left = copy.payload ∨ w.hungUp slot.client.fd = true) :
    Invariant (settle w (written w.system whole)) := by
  obtain ⟨published,idle,distinct,slots⟩ := written_frame invariant.distinct busy placed whole
  obtain ⟨part,sent,rest⟩ := invariant.underway index copy slot busy placed
  have addressed := addressee_of busy placed
  have quiet : ∀ other ∈ w.system.slots, other.client.fd ≠ slot.client.fd → w.received other.client.fd = wholly other := by
    intro other present apart
    refine invariant.quiet other present ?_
    intro copy' found
    exact apart (congrArg Prod.fst (Option.some.inj (found.symm.trans addressed)))
  refine ⟨Broadcast.written_invariant invariant.base whole,distinct,?_,?_,?_⟩
  · intro other present _
    rcases slots other present with ⟨before,apart⟩ | ⟨done,rfl⟩
    · exact quiet other before apart
    · rw [out done,List.append_nil] at rest
      change w.received slot.client.fd = _
      rw [sent,rest]
      simp [wholly,deliver]
  · intro place copy' slot' here
    rw [show writing (settle w (written w.system whole)).system.thread = none from idle] at here
    cases here
  · intro last member open'
    rw [show (settle w (written w.system whole)).system.published = w.system.published from published]
    rcases List.mem_append.mp member with old | new
    · exact invariant.ended last old open'
    · obtain ⟨fd,gone,rfl⟩ := List.mem_map.mp new
      obtain ⟨other,present,rfl⟩ := closed_open gone
      by_cases same : other.client.fd = slot.client.fd
      · dsimp only at open' ⊢
        rw [same,sent]
        have whole' := invariant.lines (List.mem_of_getElem? placed)
        cases whole with
        | true =>
          rw [out rfl,List.append_nil] at rest
          rw [rest]
          exact whole'.append (invariant.line busy).lines
        | false =>
          rcases kept rfl with untouched | away
          · rw [untouched] at rest
            rw [List.append_left_eq_self.mp rest,List.append_nil]
            exact whole'
          · rw [same,away] at open'
            cases open'
      · rw [quiet other present same]
        exact invariant.lines present

theorem send_invariant {w : Sockets} (invariant : Invariant w) {outcome : Sent} (unbroken : Unbroken w (.send outcome)) :
    Invariant (send w outcome) := by
  unfold send
  split
  · exact invariant
  · rename_i fd copy found
    have split : (writeTurn w.left outcome).out ++ (writeTurn w.left outcome).left = w.left := by
      cases outcome with
      | taken count => exact List.take_append_drop count w.left
      | interrupted => rfl
      | wouldBlock => rfl
      | failed => rfl
    have sent := part_invariant invariant found split
    obtain ⟨index,slot,busy,placed,rfl⟩ := addressee_some found
    dsimp only
    split
    · exact sent
    · rename_i whole result
      refine settle_invariant sent busy placed whole ?_ ?_
      · intro done
        cases outcome with
        | taken count =>
          simp only [writeTurn] at result
          split at result
          · assumption
          · cases result
        | interrupted => cases result
        | wouldBlock =>
          cases result
          cases done
        | failed =>
          cases result
          cases done
      · intro refused
        cases outcome with
        | taken count =>
          simp only [writeTurn] at result
          split at result
          · cases result
            cases refused
          · cases result
        | interrupted => cases result
        | wouldBlock => exact unbroken _ copy found
        | failed => exact unbroken _ copy found

theorem hangUp_invariant {w : Sockets} (invariant : Invariant w) (fd : Nat) :
    Invariant { w with hungUp := Function.update w.hungUp fd true } :=
  ⟨invariant.base,invariant.distinct,invariant.quiet,invariant.underway,invariant.ended⟩

theorem step_invariant {capacity : Nat} (positive : 0 < capacity) (w : Sockets) (event : Event) (invariant : Invariant w)
    (allowed : Possible w event ∧ Unbroken w event) : Invariant (apply capacity w event) := by
  obtain ⟨possible,unbroken⟩ := allowed
  cases event with
  | inner event =>
    have other : ∀ whole, event ≠ .written whole := by
      rintro whole rfl
      exact possible
    have fresh : ∀ fd, opened event = some fd → fd ∉ descriptors w.system := by
      cases event with
      | written whole => exact absurd rfl (other whole)
      | _ => exact possible.2
    cases busy : writing w.system.thread with
    | none => exact inner_idle positive invariant other fresh busy
    | some task => exact inner_busy positive invariant other fresh busy
  | send outcome => exact send_invariant invariant unbroken
  | hangUp fd => exact hangUp_invariant invariant fd

theorem lines_complete_when_unbroken (capacity : Nat) (positive : 0 < capacity) (events : List Event)
    (possible : Runs.Each (apply capacity) Possible boot events)
    (unbroken : Runs.Each (apply capacity) Unbroken boot events) :
    Runs.Throughout (apply capacity) Complete boot events :=
  Runs.throughout_imp (fun _ invariant => invariant.complete)
    (Runs.throughout_invariant (step_invariant positive) boot_invariant (Runs.each_and possible unbroken))

-- A refused send closes the connection after the part that has gone out.
theorem refused_closes {w : Sockets} (distinct : Distinct w.system.slots) {fd : Nat} {copy : Copy}
    (found : addressee w.system = some (fd,copy)) : ⟨w.received fd,!w.hungUp fd⟩ ∈ (send w .wouldBlock).ended := by
  obtain ⟨index,slot,busy,placed,rfl⟩ := addressee_some found
  obtain ⟨_,_,_,slots⟩ := written_frame distinct busy placed false
  have gone : slot.client.fd ∈ closed w.system (written w.system false) := by
    refine List.mem_filter.mpr ⟨List.mem_map_of_mem (List.mem_of_getElem? placed),?_⟩
    simp only [Bool.not_eq_true',List.contains_eq_mem,decide_eq_false_iff_not]
    intro still
    obtain ⟨other,present,same⟩ := List.mem_map.mp still
    rcases slots other present with ⟨_,apart⟩ | ⟨never,_⟩
    · exact apart same
    · cases never
  have sent : send w .wouldBlock = settle
      { w with received := Function.update w.received slot.client.fd (w.received slot.client.fd ++ []) }
        (written w.system false) := by
    simp only [send,found,writeTurn]
  rw [sent]
  refine List.mem_append_right _ (List.mem_map.mpr ⟨slot.client.fd,gone,?_⟩)
  simp

theorem refused_cuts {w : Sockets} (invariant : Invariant w) {fd : Nat} {copy : Copy}
    (found : addressee w.system = some (fd,copy)) (begun : w.left ≠ copy.payload) (kept : w.hungUp fd = false) :
    ∃ lines part, Lines w.system.published lines ∧ part ≠ [] ∧ part ++ w.left = copy.payload ∧
      ⟨lines ++ part,true⟩ ∈ (send w .wouldBlock).ended := by
  have closes := refused_closes invariant.distinct found
  obtain ⟨index,slot,busy,placed,rfl⟩ := addressee_some found
  obtain ⟨part,sent,rest⟩ := invariant.underway index copy slot busy placed
  refine ⟨wholly slot,part,invariant.lines (List.mem_of_getElem? placed),?_,rest,?_⟩
  · rintro rfl
    exact begun rest
  · rw [sent,kept] at closes
    exact closes

-- A client asks for the status, and a snapshot is published in between.
def asked (payload : Bytes) : List Event :=
  [.inner .check,.inner (.polled (.ready true false [])),.inner .advance,.inner (.accepted (.connection 7 true)),
   .inner (.accepted .nothing),.inner .check,.inner (.polled (.ready false false [.readable])),
   .inner (.publish ⟨payload,payload,payload⟩),.inner .wake,.inner .advance,
   .inner (.received (.bytes (text "status\n"))),.inner (.copied true)]

theorem asked_possible (payload : Bytes) : Runs.Each (apply pipeCapacity) Possible boot (asked payload) := by
  have room : 7 ≤ 127 := by decide
  refine ⟨⟨trivial,nofun⟩,⟨⟨nofun,rfl⟩,nofun⟩,⟨trivial,nofun⟩,⟨trivial,?_⟩,⟨trivial,nofun⟩,⟨trivial,nofun⟩,
    ⟨⟨nofun,rfl⟩,nofun⟩,⟨trivial,nofun⟩,⟨Nat.succ_pos 0,nofun⟩,⟨trivial,nofun⟩,⟨⟨by decide,room⟩,nofun⟩,
    ⟨trivial,nofun⟩,trivial⟩
  intro fd _ listed
  cases listed

theorem asked_unbroken (payload : Bytes) : Runs.Each (apply pipeCapacity) Unbroken boot (asked payload) :=
  ⟨trivial,trivial,trivial,trivial,trivial,trivial,trivial,trivial,trivial,trivial,trivial,trivial,trivial⟩

-- The state before the first send.
def answering (payload : Bytes) : Sockets := Runs.final (apply pipeCapacity) boot (asked payload)

theorem answering_invariant (payload : Bytes) : Invariant (answering payload) :=
  Runs.final_invariant (step_invariant (by decide)) boot_invariant
    (Runs.each_and (asked_possible payload) (asked_unbroken payload))

theorem answering_addressee (byte : UInt8) (rest : Bytes) :
    addressee (answering (byte :: rest)).system = some (7,⟨.default,1,byte :: rest⟩) := rfl

theorem answering_left (byte : UInt8) (rest : Bytes) : (answering (byte :: rest)).left = byte :: rest := rfl

theorem answering_received (payload : Bytes) : (answering payload).received 7 = [] := rfl

-- A short send, a signal and the rest.
def whole : List Event := asked (text "\x7b\x7d\n") ++ [.send (.taken 1),.send .interrupted,.send (.taken 2)]

theorem whole_possible : Runs.Each (apply pipeCapacity) Possible boot whole := by
  have one : 0 < 1 ∧ 1 ≤ 3 := by decide
  have two : 0 < 2 ∧ 2 ≤ 2 := by decide
  exact Runs.each_append (asked_possible _) ⟨one,trivial,two,trivial⟩

theorem whole_unbroken : Runs.Each (apply pipeCapacity) Unbroken boot whole :=
  Runs.each_append (asked_unbroken _) ⟨trivial,trivial,trivial,trivial⟩

theorem short_sends_complete : Runs.Throughout (apply pipeCapacity) Complete boot whole :=
  lines_complete_when_unbroken pipeCapacity (by decide) whole whole_possible whole_unbroken

-- A snapshot of more bytes than a socket takes from a client that does not read.
def body (count : Nat) : Bytes := 123 :: 34 :: 97 :: 34 :: 58 :: 34 :: (List.replicate count 97 ++ [34,125])

def large (count : Nat) : Bytes := body count ++ [newline]

theorem body_length (count : Nat) : (body count).length = count + 8 := by simp [body]

theorem body_unended (count : Nat) : newline ∉ body count := by simp [body,newline,List.mem_replicate]

theorem large_addressee (count : Nat) :
    addressee (answering (large count)).system = some (7,⟨.default,1,large count⟩) := answering_addressee _ _

theorem large_left (count : Nat) : (answering (large count)).left = large count := answering_left _ _

def cut (count accommodated : Nat) : List Event :=
  asked (large count) ++ [.send (.taken accommodated),.send .wouldBlock]

theorem cut_possible {count accommodated : Nat} (one : 0 < accommodated) (fewer : accommodated ≤ count) :
    Runs.Each (apply pipeCapacity) Possible boot (cut count accommodated) := by
  refine Runs.each_append (asked_possible _) ⟨⟨one,?_⟩,trivial,trivial⟩
  change accommodated ≤ (answering (large count)).left.length
  rw [large_left,large,List.length_append,body_length]
  omega

-- The buffer of the socket is full.
def stuck (count accommodated : Nat) : Sockets :=
  { answering (large count) with
    received := Function.update (answering (large count)).received 7 ((large count).take accommodated)
    left := (large count).drop accommodated }

theorem first_sent {count accommodated : Nat} (fewer : accommodated ≤ count) :
    apply pipeCapacity (answering (large count)) (.send (.taken accommodated)) = stuck count accommodated := by
  have rest : (large count).drop accommodated ≠ [] := by
    rw [Ne,List.drop_eq_nil_iff,large,List.length_append,body_length]
    omega
  simp only [apply,send,large_addressee,large_left,writeTurn,if_neg rest,answering_received,List.nil_append,stuck]

theorem snapshotText_ends {format : Format} {copied : Bytes} (ends : copied ≠ [] → newline ∈ copied) :
    newline ∈ snapshotText format copied := by
  unfold snapshotText
  split
  · cases format <;> decide
  · exact ends ‹_›

theorem line_ends {count : Nat} {line : Bytes} (whole : Line [⟨large count,large count,large count⟩] line) :
    newline ∈ line := by
  have last : newline ∈ large count := List.mem_append_right _ List.mem_cons_self
  obtain ⟨format,n,stored,rfl⟩ := whole
  refine snapshotText_ends ?_
  cases n with
  | zero =>
    intro nonempty
    cases format <;> exact absurd rfl nonempty
  | succ n =>
    have first : n = 0 := by simpa using stored
    subst first
    intro _
    cases format <;> exact last

theorem part_unended {count accommodated : Nat} (fewer : accommodated ≤ count) :
    newline ∉ (large count).take accommodated := by
  rw [large,List.take_append_of_le_length (by rw [body_length]; omega)]
  exact fun member => body_unended count (List.mem_of_mem_take member)

theorem refused_published {w : Sockets} (distinct : Distinct w.system.slots) {fd : Nat} {copy : Copy}
    (found : addressee w.system = some (fd,copy)) : (send w .wouldBlock).system.published = w.system.published := by
  obtain ⟨index,slot,busy,placed,rfl⟩ := addressee_some found
  simp only [send,found,writeTurn]
  exact (written_frame distinct busy placed false).1

theorem cut_incomplete {count accommodated : Nat} (one : 0 < accommodated) (fewer : accommodated ≤ count) :
    ¬Runs.Throughout (apply pipeCapacity) Complete boot (cut count accommodated) := by
  intro complete
  have final := (Runs.throughout_final complete).ended
  have sent : Runs.final (apply pipeCapacity) boot (cut count accommodated) =
      send (apply pipeCapacity (answering (large count)) (.send (.taken accommodated))) .wouldBlock :=
    Runs.final_append _ _
  have distinct : Distinct (stuck count accommodated).system.slots := (answering_invariant (large count)).distinct
  have found : addressee (stuck count accommodated).system = some (7,⟨.default,1,large count⟩) := large_addressee count
  rw [sent,first_sent fewer,refused_published distinct found] at final
  obtain ⟨lines,each,joined⟩ := final _ (refused_closes distinct found) rfl
  have received : (stuck count accommodated).received 7 = (large count).take accommodated := by
    simp only [stuck,Function.update_self]
  simp only [received] at joined
  cases lines with
  | nil =>
    have length := congrArg List.length joined
    rw [List.length_take,large,List.length_append,body_length] at length
    simp only [List.flatten_nil,List.length_nil] at length
    omega
  | cons line rest =>
    refine part_unended fewer ?_
    rw [joined,List.flatten_cons]
    exact List.mem_append_left _ (line_ends (each line List.mem_cons_self))

theorem large_status_cut : Runs.Each (apply pipeCapacity) Possible boot (cut 300000 212992) ∧
    ¬Runs.Throughout (apply pipeCapacity) Complete boot (cut 300000 212992) :=
  ⟨cut_possible (by decide) (by decide),cut_incomplete (by decide) (by decide)⟩

end Hypringo.Wire

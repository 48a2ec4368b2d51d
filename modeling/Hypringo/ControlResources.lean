import Hypringo.Control
import Hypringo.Handles
import Hypringo.Runs
import Hypringo.SwapRemove

namespace Hypringo.ControlResources
open Hypringo.Lua Hypringo.Handles SwapRemove
open Hypringo.Control (Format Payloads maxClients)

def pathCapacity : Nat := 108

inductive Handle where
  | descriptor (fd : Nat)
  | block (address : Nat)
  deriving DecidableEq, Repr

-- What a function does to descriptors and heap blocks, and what comes of it.
structure Called (α : Type) where
  ops : List (Op Handle)
  result : α

-- An error of connect_socket, with whether it is ECONNREFUSED or ENOENT.
structure Failure where
  gone : Bool
  message : Bytes

structure Connecting where
  socket : Except Failure Nat
  cloexec : Except Failure Unit
  tooLong : Failure
  connects : Except Failure Unit

def connectSocket (path : Bytes) (answers : Connecting) : Called (Except Failure Nat) :=
  match answers.socket with
  | .error failure => ⟨[],.error failure⟩
  | .ok fd => match answers.cloexec with
    | .error failure => ⟨[.opens (.descriptor fd),.uses (.descriptor fd),.closes (.descriptor fd)],.error failure⟩
    | .ok _ =>
      if pathCapacity ≤ path.length then
        ⟨[.opens (.descriptor fd),.uses (.descriptor fd),.closes (.descriptor fd)],.error answers.tooLong⟩
      else match answers.connects with
        | .error failure =>
          ⟨[.opens (.descriptor fd),.uses (.descriptor fd),.uses (.descriptor fd),.closes (.descriptor fd)],.error failure⟩
        | .ok _ => ⟨[.opens (.descriptor fd),.uses (.descriptor fd),.uses (.descriptor fd)],.ok fd⟩

inductive Inspected where
  | missing
  | failed (error : Bytes)
  | other
  | socket

structure Preparing where
  lstat : Inspected
  probe : Connecting
  unlinked : Except Bytes Unit
  socket : Except Bytes Nat
  configured : Except Bytes Unit
  bound : Except Bytes Unit
  listens : Except Bytes Unit

-- The part of prepare_socket that looks at what the path names.
def inspect (path : Bytes) (answers : Preparing) : Called (Except Bytes Unit) :=
  match answers.lstat with
  | .missing => ⟨[],.ok ()⟩
  | .failed error => ⟨[],.error (text "cannot inspect control socket " ++ path ++ text ": " ++ error)⟩
  | .other => ⟨[],.error (text "control socket path exists and is not a socket: " ++ path)⟩
  | .socket =>
    let probe := connectSocket path answers.probe
    match probe.result with
    | .ok existing =>
      ⟨probe.ops ++ [.closes (.descriptor existing)],
        .error (text "another Hypringo instance is listening on " ++ path)⟩
    | .error failure =>
      if !failure.gone then
        ⟨probe.ops,.error (text "cannot verify existing control socket " ++ path ++ text ": " ++ failure.message)⟩
      else match answers.unlinked with
        | .error error =>
          ⟨probe.ops,.error (text "cannot remove stale control socket " ++ path ++ text ": " ++ error)⟩
        | .ok _ => ⟨probe.ops,.ok ()⟩

-- set_nonblocking and set_cloexec are one answer, as are chmod and listen.
def listen (path : Bytes) (answers : Preparing) : Called (Except Bytes Nat) :=
  match answers.socket with
  | .error error => ⟨[],.error (text "cannot create control socket: " ++ error)⟩
  | .ok listener =>
    let opened : List (Op Handle) := [.opens (.descriptor listener),.uses (.descriptor listener)]
    let closed : List (Op Handle) := [.closes (.descriptor listener)]
    match answers.configured with
    | .error error => ⟨opened ++ closed,.error (text "cannot configure control socket: " ++ error)⟩
    | .ok _ =>
      if pathCapacity ≤ path.length then ⟨opened ++ closed,.error (text "control socket path is too long: " ++ path)⟩
      else match answers.bound with
        | .error error =>
          ⟨opened ++ .uses (.descriptor listener) :: closed,
            .error (text "cannot bind control socket " ++ path ++ text ": " ++ error)⟩
        | .ok _ => match answers.listens with
          | .error error =>
            ⟨opened ++ .uses (.descriptor listener) :: .uses (.descriptor listener) :: closed,
              .error (text "cannot listen on control socket " ++ path ++ text ": " ++ error)⟩
          | .ok _ => ⟨opened ++ [.uses (.descriptor listener),.uses (.descriptor listener)],.ok listener⟩

def prepareSocket (path : Bytes) (answers : Preparing) : Called (Except Bytes Nat) :=
  let inspected := inspect path answers
  match inspected.result with
  | .error error => ⟨inspected.ops,.error error⟩
  | .ok _ =>
    let listening := listen path answers
    { listening with ops := inspected.ops ++ listening.ops }

def createControlPipe (pipe : Except Bytes (Nat × Nat)) (configured : Except Bytes Unit) :
    Called (Except Bytes (Nat × Nat)) :=
  match pipe with
  | .error error => ⟨[],.error error⟩
  | .ok (read,write) =>
    let opened : List (Op Handle) :=
      [.opens (.descriptor write),.opens (.descriptor read),.uses (.descriptor read),.uses (.descriptor write)]
    match configured with
    | .error error => ⟨opened ++ [.closes (.descriptor read),.closes (.descriptor write)],.error error⟩
    | .ok _ => ⟨opened,.ok (read,write)⟩

-- A snapshot pointer, none for NULL, and its size.
structure Snapshot where
  block : Option Nat
  size : Nat

def Snapshot.none : Snapshot := ⟨.none,0⟩

structure Server where
  running : Bool
  stopping : Bool
  listener : Option Nat
  wakeRead : Option Nat
  wakeWrite : Option Nat
  path : Option Nat
  snapshot : Snapshot
  ewwSnapshot : Snapshot
  doctorSnapshot : Snapshot

def zeroed : Server := ⟨false,false,none,none,none,none,.none,.none,.none⟩

def Server.of (server : Server) : Format → Snapshot
  | .default => server.snapshot
  | .eww => server.ewwSnapshot
  | .doctor => server.doctorSnapshot

def blocks (addresses : List (Option Nat)) : List Handle := (addresses.filterMap id).map .block
def descriptors (fds : List (Option Nat)) : List Handle := (fds.filterMap id).map .descriptor

def Server.snapshots (server : Server) : List Handle :=
  blocks [server.snapshot.block,server.ewwSnapshot.block,server.doctorSnapshot.block]

def Server.fixed (server : Server) : List Handle :=
  descriptors [server.listener,server.wakeRead,server.wakeWrite] ++ blocks [server.path]

structure Starting where
  preparing : Preparing
  pipe : Except Bytes (Nat × Nat)
  pipeConfigured : Except Bytes Unit
  path : Option Nat
  thread : Bool

def start (server : Server) (path : Bytes) (answers : Starting) : Called (Server × Except Bytes Unit) :=
  if server.running then ⟨[],server,.error (text "control server is already running")⟩
  else
    let prepared := prepareSocket path answers.preparing
    match prepared.result with
    | .error error => ⟨prepared.ops,server,.error error⟩
    | .ok listener =>
      let piped := createControlPipe answers.pipe answers.pipeConfigured
      match piped.result with
      | .error error =>
        ⟨prepared.ops ++ (piped.ops ++ [.closes (.descriptor listener)]),server,
          .error (text "cannot create control wake pipe: " ++ error)⟩
      | .ok (wakeRead,wakeWrite) =>
        let copied := (blocks [answers.path]).map .opens
        if answers.path.isSome && answers.thread then
          ⟨prepared.ops ++ (piped.ops ++ copied),
            { server with
              running := true
              stopping := false
              listener := some listener
              wakeRead := some wakeRead
              wakeWrite := some wakeWrite
              path := answers.path },.ok ()⟩
        else
          ⟨prepared.ops ++ (piped.ops ++ (copied ++ ((blocks [answers.path]).map .closes ++
              [.closes (.descriptor listener),.closes (.descriptor wakeRead),.closes (.descriptor wakeWrite)]))),
            { server with
              running := false
              stopping := true
              listener := none
              wakeRead := none
              wakeWrite := none
              path := none },.error (text "cannot start control server thread")⟩

-- What malloc gives for the three payloads.
structure Copies where
  snapshot : Option Nat
  ewwSnapshot : Option Nat
  doctorSnapshot : Option Nat

def Copies.blocks (copies : Copies) : List Handle :=
  ControlResources.blocks [copies.snapshot,copies.ewwSnapshot,copies.doctorSnapshot]

def Copies.whole (copies : Copies) : Bool :=
  copies.snapshot.isSome && copies.ewwSnapshot.isSome && copies.doctorSnapshot.isSome

def publish (server : Server) (payloads : Payloads) (copies : Copies) : Called (Server × Except Bytes Unit) :=
  let allocated := copies.blocks.map .opens
  let dropped := copies.blocks.map .closes
  if !copies.whole then ⟨allocated ++ dropped,server,.error (text "cannot allocate control snapshot")⟩
  else
    let filled := copies.blocks.map .uses
    if !server.running || server.stopping then
      ⟨allocated ++ (filled ++ dropped),server,.error (text "control server is not running")⟩
    else
      ⟨allocated ++ (filled ++ (server.snapshots.map .closes ++ (descriptors [server.wakeWrite]).map .uses)),
        { server with
          snapshot := ⟨copies.snapshot,payloads.snapshot.length⟩
          ewwSnapshot := ⟨copies.ewwSnapshot,payloads.ewwSnapshot.length⟩
          doctorSnapshot := ⟨copies.doctorSnapshot,payloads.doctorSnapshot.length⟩ },.ok ()⟩

-- copy_snapshot and what send_snapshot does with the copy: whether write_all is
-- reached, and the blocks that nothing frees any more.
structure Sending where
  ops : List (Op Handle)
  reaches : Bool
  lost : List Nat

def sendSnapshot (server : Server) (fd : Nat) (format : Format) (copied : Option Nat) : Sending :=
  let snapshot := server.of format
  let allocated := (blocks [copied]).map .opens
  if snapshot.size = 0 then ⟨allocated ++ [.uses (.descriptor fd)],true,copied.toList⟩
  else match copied with
    | none => ⟨allocated,false,[]⟩
    | some copy =>
      ⟨allocated ++ ((blocks [snapshot.block]).map .uses ++
        [.uses (.block copy),.uses (.descriptor fd),.closes (.block copy)]),true,[]⟩

-- The process around the control thread. `alive` lasts from pthread_create until
-- the thread returns, `joining` while lstop waits for it. `lost` and `log` are
-- records.
structure Process where
  server : Server
  alive : Bool
  joining : Bool
  clients : List Nat
  lost : List Nat
  log : List (Op Handle)

def boot : Process := ⟨zeroed,false,false,[],[],[]⟩

inductive Event where
  | start (path : Bytes) (answers : Starting)
  | publish (payloads : Payloads) (copies : Copies)
  | stop
  | joined
  -- the control thread
  | poll
  | exchange (index : Nat)
  | send (index : Nat) (format : Format) (copied : Option Nat)
  | remove (index : Nat)
  | accept (fd : Nat) (configured : Bool)
  | exit

def owned (p : Process) : List Handle := p.server.fixed ++ p.clients.map .descriptor ++ p.lost.map .block

def handles (p : Process) : List Handle := p.server.snapshots ++ owned p

def record (p : Process) (ops : List (Op Handle)) : Process := { p with log := p.log ++ ops }

def joined (p : Process) : Process :=
  record { p with server := { zeroed with stopping := p.server.stopping }, joining := false }
    (p.server.snapshots.map .closes ++ p.server.fixed.map .closes)

def accept (p : Process) (fd : Nat) (configured : Bool) : Process :=
  let opened : List (Op Handle) := [.opens (.descriptor fd),.uses (.descriptor fd)]
  if !configured || decide (maxClients ≤ p.clients.length) then record p (opened ++ [.closes (.descriptor fd)])
  else record { p with clients := p.clients ++ [fd] } opened

def apply (p : Process) : Event → Process
  | .start path answers =>
    let called := start p.server path answers
    record { p with server := called.result.1, alive := p.alive || called.result.2.isOk } called.ops
  | .publish payloads copies =>
    let called := publish p.server payloads copies
    record { p with server := called.result.1 } called.ops
  | .stop =>
    if p.server.running then
      record { p with server := { p.server with stopping := true }, joining := true }
        ((descriptors [p.server.wakeWrite]).map .uses)
    else p
  | .joined => joined p
  | .poll => record p ((descriptors [p.server.listener,p.server.wakeRead] ++ p.clients.map Handle.descriptor).map .uses)
  | .exchange index => match p.clients[index]? with
    | some fd => record p [.uses (.descriptor fd)]
    | none => p
  | .send index format copied => match p.clients[index]? with
    | some fd =>
      let sending := sendSnapshot p.server fd format copied
      record { p with lost := p.lost ++ sending.lost } sending.ops
    | none => p
  | .remove index => match p.clients[index]? with
    | some fd => record { p with clients := removeAt p.clients index } [.closes (.descriptor fd)]
    | none => p
  | .accept fd configured => accept p fd configured
  | .exit => record { p with alive := false, clients := [] } ((p.clients.map Handle.descriptor).map .closes)

-- The system gives out what is not in use.
def Fresh (p : Process) (given : List Handle) : Prop := given.Nodup ∧ ∀ handle ∈ given, handle ∉ handles p

def Preparing.given (answers : Preparing) : List Handle := descriptors [answers.socket.toOption]

def Starting.given (answers : Starting) : List Handle :=
  answers.preparing.given ++ (match answers.pipe with
    | .ok (read,write) => [.descriptor read,.descriptor write]
    | .error _ => []) ++ blocks [answers.path]

-- The functions Lua calls come one after another, the thread's steps while it
-- runs, and the join when it has returned.
def Possible (p : Process) : Event → Prop
  | .start _ answers => p.joining = false ∧ Fresh p answers.given ∧
      ∀ fd, answers.preparing.probe.socket = .ok fd → Handle.descriptor fd ∉ handles p
  | .publish _ copies => p.joining = false ∧ Fresh p copies.blocks
  | .stop => p.joining = false
  | .joined => p.joining = true ∧ p.alive = false
  | .poll | .exchange _ | .remove _ | .exit => p.alive = true
  | .send _ _ copied => p.alive = true ∧ Fresh p (blocks [copied])
  | .accept fd _ => p.alive = true ∧ Handle.descriptor fd ∉ handles p

structure Sound (p : Process) : Prop where
  ledger : after ∅ p.log = some (handles p).toFinset
  distinct : (handles p).Nodup
  stopped : p.server.running = false → handles p = p.lost.map .block

section
variable {l : List Handle}

theorem connectSocket_moves (path : Bytes) {answers : Connecting}
    (fresh : ∀ fd, answers.socket = .ok fd → .descriptor fd ∉ l) :
    (∀ fd, (connectSocket path answers).result = .ok fd → Moves l (connectSocket path answers).ops (.descriptor fd :: l)) ∧
      ∀ failure, (connectSocket path answers).result = .error failure → Moves l (connectSocket path answers).ops l := by
  unfold connectSocket
  cases given : answers.socket with
  | error failure => exact ⟨by simp,fun _ _ => .refl l⟩
  | ok fd =>
    have opened : Moves l [.opens (.descriptor fd)] (.descriptor fd :: l) := .opens (fresh fd given)
    have used : ∀ ops, (∀ op ∈ ops, op = .uses (.descriptor fd)) →
        Moves (.descriptor fd :: l) ops (.descriptor fd :: l) :=
      fun ops only => .uses fun op listed => ⟨_,List.mem_cons_self,only op listed⟩
    have once := opened.trans (used [.uses (.descriptor fd)] (by simp))
    have twice := opened.trans (used [.uses (.descriptor fd),.uses (.descriptor fd)] (by simp))
    cases answers.cloexec with
    | error failure => exact ⟨by simp,fun _ _ => once.trans .closes⟩
    | ok _ =>
      dsimp only
      split
      · exact ⟨by simp,fun _ _ => once.trans .closes⟩
      · cases answers.connects with
        | error failure => exact ⟨by simp,fun _ _ => twice.trans .closes⟩
        | ok _ =>
          refine ⟨?_,by simp⟩
          rintro _ ⟨⟩
          exact twice

theorem inspect_moves (path : Bytes) {answers : Preparing}
    (fresh : ∀ fd, answers.probe.socket = .ok fd → .descriptor fd ∉ l) : Moves l (inspect path answers).ops l := by
  obtain ⟨connected,refused⟩ := connectSocket_moves path fresh
  unfold inspect
  cases answers.lstat with
  | missing => exact .refl l
  | failed error => exact .refl l
  | other => exact .refl l
  | socket =>
    dsimp only
    cases result : (connectSocket path answers.probe).result with
    | ok existing => exact (connected existing result).trans .closes
    | error failure =>
      have kept := refused failure result
      dsimp only
      split
      · exact kept
      · cases answers.unlinked <;> exact kept

theorem listen_moves (path : Bytes) {answers : Preparing}
    (fresh : ∀ fd, answers.socket = .ok fd → .descriptor fd ∉ l) :
    (∀ fd, (listen path answers).result = .ok fd →
        answers.socket = .ok fd ∧ Moves l (listen path answers).ops (.descriptor fd :: l)) ∧
      ∀ error, (listen path answers).result = .error error → Moves l (listen path answers).ops l := by
  unfold listen
  cases given : answers.socket with
  | error error => exact ⟨by simp,fun _ _ => .refl l⟩
  | ok fd =>
    have opened : Moves l [.opens (.descriptor fd)] (.descriptor fd :: l) := .opens (fresh fd given)
    have used : ∀ ops, (∀ op ∈ ops, op = .uses (.descriptor fd)) →
        Moves l (.opens (.descriptor fd) :: ops) (.descriptor fd :: l) :=
      fun ops only => opened.trans (.uses fun op listed => ⟨_,List.mem_cons_self,only op listed⟩)
    have closed : ∀ ops, (∀ op ∈ ops, op = .uses (.descriptor fd)) →
        Moves l (.opens (.descriptor fd) :: ops ++ [.closes (.descriptor fd)]) l :=
      fun ops only => (used ops only).trans .closes
    cases answers.configured with
    | error error => exact ⟨by simp,fun _ _ => closed [.uses (.descriptor fd)] (by simp)⟩
    | ok _ =>
      dsimp only
      split
      · exact ⟨by simp,fun _ _ => closed [.uses (.descriptor fd)] (by simp)⟩
      · cases answers.bound with
        | error error =>
          exact ⟨by simp,fun _ _ => closed [.uses (.descriptor fd),.uses (.descriptor fd)] (by simp)⟩
        | ok _ =>
          cases answers.listens with
          | error error =>
            exact ⟨by simp,fun _ _ =>
              closed [.uses (.descriptor fd),.uses (.descriptor fd),.uses (.descriptor fd)] (by simp)⟩
          | ok _ =>
            refine ⟨?_,by simp⟩
            rintro _ ⟨⟩
            exact ⟨rfl,used [.uses (.descriptor fd),.uses (.descriptor fd),.uses (.descriptor fd)] (by simp)⟩

theorem prepareSocket_moves (path : Bytes) {answers : Preparing}
    (probed : ∀ fd, answers.probe.socket = .ok fd → .descriptor fd ∉ l)
    (fresh : ∀ fd, answers.socket = .ok fd → .descriptor fd ∉ l) :
    (∀ fd, (prepareSocket path answers).result = .ok fd →
        answers.socket = .ok fd ∧ Moves l (prepareSocket path answers).ops (.descriptor fd :: l)) ∧
      ∀ error, (prepareSocket path answers).result = .error error → Moves l (prepareSocket path answers).ops l := by
  have inspected := inspect_moves path probed
  obtain ⟨listening,failed⟩ := listen_moves path fresh
  unfold prepareSocket
  dsimp only
  cases (inspect path answers).result with
  | error error => exact ⟨by simp,fun _ _ => inspected⟩
  | ok _ =>
    refine ⟨fun fd made => ?_,fun error made => inspected.trans (failed error made)⟩
    obtain ⟨given,moved⟩ := listening fd made
    exact ⟨given,inspected.trans moved⟩

theorem createControlPipe_moves (pipe : Except Bytes (Nat × Nat)) (configured : Except Bytes Unit)
    (fresh : ∀ read write, pipe = .ok (read,write) →
      Handle.descriptor read ∉ l ∧ Handle.descriptor write ∉ l ∧ read ≠ write) :
    (∀ read write, (createControlPipe pipe configured).result = .ok (read,write) →
        pipe = .ok (read,write) ∧ Moves l (createControlPipe pipe configured).ops (.descriptor read :: .descriptor write :: l)) ∧
      ∀ error, (createControlPipe pipe configured).result = .error error → Moves l (createControlPipe pipe configured).ops l := by
  unfold createControlPipe
  cases pipe with
  | error error => exact ⟨by simp,fun _ _ => .refl l⟩
  | ok ends =>
    obtain ⟨read,write⟩ := ends
    obtain ⟨readable,writable,apart⟩ := fresh read write rfl
    have both : Moves l [.opens (.descriptor write),.opens (.descriptor read)] (.descriptor read :: .descriptor write :: l) :=
      (Moves.opens writable).trans (.opens (by simp [readable,apart]))
    have used : Moves l
        [.opens (.descriptor write),.opens (.descriptor read),.uses (.descriptor read),.uses (.descriptor write)]
        (.descriptor read :: .descriptor write :: l) := by
      refine both.trans (.uses ?_)
      intro op listed
      rcases List.mem_pair.mp listed with rfl | rfl
      · exact ⟨_,List.mem_cons_self,rfl⟩
      · exact ⟨_,List.mem_cons_of_mem _ List.mem_cons_self,rfl⟩
    cases configured with
    | error error => exact ⟨by simp,fun _ _ => used.trans (Moves.closes.trans .closes)⟩
    | ok _ =>
      refine ⟨?_,by simp⟩
      rintro _ _ ⟨⟩
      exact ⟨rfl,used⟩

end

theorem mem_blocks {addresses : List (Option Nat)} {address : Nat} (listed : some address ∈ addresses) :
    .block address ∈ blocks addresses := List.mem_map_of_mem (List.mem_filterMap.mpr ⟨_,listed,rfl⟩)

structure Invariant (p : Process) : Prop where
  ledger : after ∅ p.log = some (handles p).toFinset
  distinct : (handles p).Nodup
  stopped : p.server.running = false → p.server.fixed = [] ∧ p.server.snapshots = [] ∧ p.clients = []
  waking : p.server.running = true → ∃ fd, p.server.wakeWrite = some fd
  alive : p.alive = true → p.server.running = true
  joining : p.joining = true → p.server.running = true
  dead : p.alive = false → p.clients = []
  filled : ∀ format, (p.server.of format).size ≠ 0 → ∃ address, (p.server.of format).block = some address

theorem boot_invariant : Invariant boot where
  ledger := rfl
  distinct := List.nodup_nil
  stopped _ := ⟨rfl,rfl,rfl⟩
  waking running := by cases running
  alive alive := by cases alive
  joining joining := by cases joining
  dead _ := rfl
  filled format sized := by cases format <;> exact absurd rfl sized

variable {p : Process}

theorem Invariant.held (invariant : Invariant p) (next : Process) {ops : List (Op Handle)}
    (log : next.log = p.log ++ ops) (moves : Moves (handles p) ops (handles next)) :
    after ∅ next.log = some (handles next).toFinset ∧ (handles next).Nodup := by
  obtain ⟨moved,distinct⟩ := moves.holds invariant.distinct
  rw [log]
  exact ⟨after_append invariant.ledger moved,distinct⟩

theorem given_socket {answers : Starting} {fd : Nat} (made : answers.preparing.socket = .ok fd) :
    answers.preparing.given = [.descriptor fd] := by
  simp [Preparing.given,descriptors,made,Except.toOption]

-- The listener, the pipe and the copy of the path, or nothing.
theorem start_cases (server : Server) (path : Bytes) {answers : Starting} {l : List Handle}
    (probed : ∀ fd, answers.preparing.probe.socket = .ok fd → .descriptor fd ∉ l)
    (distinct : answers.given.Nodup) (fresh : ∀ handle ∈ answers.given, handle ∉ l) :
    (∃ error, (start server path answers).result.2 = .error error ∧ Moves l (start server path answers).ops l ∧
        ((start server path answers).result.1 = server ∨ server.running = false ∧
          (start server path answers).result.1 =
            { server with
              running := false
              stopping := true
              listener := none
              wakeRead := none
              wakeWrite := none
              path := none })) ∨
      ∃ listener wakeRead wakeWrite copy, (start server path answers).result.2 = .ok () ∧ server.running = false ∧
        (start server path answers).result.1 =
          { server with
            running := true
            stopping := false
            listener := some listener
            wakeRead := some wakeRead
            wakeWrite := some wakeWrite
            path := some copy } ∧
        Moves l (start server path answers).ops
          (.block copy :: .descriptor wakeRead :: .descriptor wakeWrite :: .descriptor listener :: l) := by
  have socket : ∀ fd, answers.preparing.socket = .ok fd → .descriptor fd ∉ l := fun fd made =>
    fresh _ (by simp [Starting.given,given_socket made])
  obtain ⟨prepared,failed⟩ := prepareSocket_moves path probed socket
  unfold start
  cases server.running with
  | true => exact .inl ⟨_,rfl,.refl l,.inl rfl⟩
  | false =>
    dsimp only
    rw [if_neg (by decide)]
    cases prepares : (prepareSocket path answers.preparing).result with
    | error error => exact .inl ⟨_,rfl,failed error prepares,.inl rfl⟩
    | ok listener =>
      obtain ⟨made,listening⟩ := prepared listener prepares
      have piping := createControlPipe_moves (l := .descriptor listener :: l) answers.pipe answers.pipeConfigured
      have ends : ∀ read write, answers.pipe = .ok (read,write) →
          Handle.descriptor read ∉ Handle.descriptor listener :: l ∧
            Handle.descriptor write ∉ Handle.descriptor listener :: l ∧ read ≠ write := by
        intro read write opened
        have given : answers.given = [.descriptor listener,.descriptor read,.descriptor write] ++ blocks [answers.path] := by
          simp [Starting.given,given_socket made,opened]
        rw [given] at distinct fresh
        obtain ⟨apart,-,-⟩ := List.nodup_append.mp distinct
        have readable := fresh (.descriptor read) (by simp)
        have writable := fresh (.descriptor write) (by simp)
        simp only [List.nodup_cons,List.mem_cons,List.not_mem_nil,or_false,not_or,Handle.descriptor.injEq] at apart
        obtain ⟨⟨one,two⟩,three,-⟩ := apart
        simp only [List.mem_cons,not_or,Handle.descriptor.injEq]
        exact ⟨⟨fun same => one same.symm,readable⟩,⟨fun same => two same.symm,writable⟩,three⟩
      obtain ⟨piped,broken⟩ := piping ends
      cases pipes : (createControlPipe answers.pipe answers.pipeConfigured).result with
      | error error => exact .inl ⟨_,rfl,listening.trans ((broken error pipes).trans .closes),.inl rfl⟩
      | ok both =>
        obtain ⟨wakeRead,wakeWrite⟩ := both
        obtain ⟨opened,pair⟩ := piped wakeRead wakeWrite pipes
        have reached := listening.trans pair
        have order : [Handle.descriptor wakeRead,.descriptor wakeWrite,.descriptor listener].Perm
            [.descriptor listener,.descriptor wakeRead,.descriptor wakeWrite] :=
          (List.Perm.cons _ (.swap _ _ [])).trans (.swap _ _ _)
        have shut : Moves (.descriptor wakeRead :: .descriptor wakeWrite :: .descriptor listener :: l)
            [.closes (.descriptor listener),.closes (.descriptor wakeRead),.closes (.descriptor wakeWrite)] l :=
          .arranged (order.append_right l) (.closes_all [Handle.descriptor listener,.descriptor wakeRead,.descriptor wakeWrite])
        dsimp only
        cases copied : answers.path with
        | none => exact .inl ⟨_,rfl,listening.trans (pair.trans shut),.inr ⟨rfl,rfl⟩⟩
        | some copy =>
          have given : answers.given =
              [.descriptor listener] ++ [.descriptor wakeRead,.descriptor wakeWrite] ++ [.block copy] := by
            simp [Starting.given,given_socket made,opened,copied,blocks]
          have unused : Handle.block copy ∉ Handle.descriptor wakeRead :: .descriptor wakeWrite :: .descriptor listener :: l := by
            simpa using fresh (.block copy) (by simp [given])
          have copying := Moves.opens unused
          cases answers.thread with
          | true => exact .inr ⟨listener,wakeRead,wakeWrite,copy,rfl,rfl,rfl,listening.trans (pair.trans copying)⟩
          | false =>
            exact .inl ⟨_,rfl,listening.trans (pair.trans (copying.trans (Moves.closes.trans shut))),.inr ⟨rfl,rfl⟩⟩

theorem wake_held {fd : Nat} (waking : p.server.wakeWrite = some fd) : .descriptor fd ∈ handles p := by
  refine List.mem_append_right _ (List.mem_append_left _ (List.mem_append_left _ (List.mem_append_left _ ?_)))
  exact List.mem_map_of_mem (List.mem_filterMap.mpr ⟨some fd,by simp [waking],rfl⟩)

theorem client_held {fd : Nat} (listed : fd ∈ p.clients) : .descriptor fd ∈ handles p :=
  List.mem_append_right _ (List.mem_append_left _ (List.mem_append_right _ (List.mem_map_of_mem listed)))

theorem snapshot_held {format : Format} {address : Nat} (stored : (p.server.of format).block = some address) :
    .block address ∈ handles p := by
  refine List.mem_append_left _ (mem_blocks ?_)
  rw [← stored]
  cases format <;> simp [Server.of]

theorem client_perm {fd : Nat} {rest : List Nat} (same : p.clients.Perm (fd :: rest)) :
    (handles p).Perm (.descriptor fd :: handles { p with clients := rest }) := by
  have moved : (owned p).Perm (.descriptor fd :: owned { p with clients := rest }) :=
    (((same.map Handle.descriptor).append_left p.server.fixed).trans List.perm_middle).append_right _
  exact (moved.append_left p.server.snapshots).trans List.perm_middle

theorem publish_moves (payloads : Payloads) {copies : Copies} (invariant : Invariant p) (fresh : Fresh p copies.blocks) :
    ∃ ops, (apply p (.publish payloads copies)).log = p.log ++ ops ∧
      Moves (handles p) ops (handles (apply p (.publish payloads copies))) := by
  obtain ⟨distinct,unused⟩ := fresh
  have opened := Moves.opens_all copies.blocks unused distinct
  have dropped := Moves.closes_all copies.blocks (l := handles p)
  have filled : Moves (copies.blocks ++ handles p) (copies.blocks.map .uses) (copies.blocks ++ handles p) := by
    refine .uses fun op listed => ?_
    obtain ⟨handle,among,rfl⟩ := List.mem_map.mp listed
    exact ⟨handle,List.mem_append_left _ among,rfl⟩
  refine ⟨_,rfl,?_⟩
  simp only [apply,publish]
  split
  · exact opened.trans dropped
  split
  · exact opened.trans (filled.trans dropped)
  · rename_i running
    have runs : p.server.running = true := by
      by_contra idle
      simp [idle] at running
    obtain ⟨fd,waking⟩ := invariant.waking runs
    have order : (copies.blocks ++ handles p).Perm (p.server.snapshots ++ (copies.blocks ++ owned p)) :=
      List.perm_append_comm_assoc _ _ _
    have woken : Moves (copies.blocks ++ owned p) ((descriptors [p.server.wakeWrite]).map .uses) (copies.blocks ++ owned p) := by
      refine .uses fun op listed => ?_
      obtain ⟨handle,among,rfl⟩ := List.mem_map.mp listed
      refine ⟨handle,?_,rfl⟩
      have own : handle = .descriptor fd := by simpa [descriptors,waking] using among
      subst own
      refine List.mem_append_right _ (List.mem_append_left _ (List.mem_append_left _ (List.mem_append_left _ ?_)))
      exact List.mem_map_of_mem (List.mem_filterMap.mpr ⟨some fd,by simp [waking],rfl⟩)
    exact opened.trans (filled.trans ((Moves.arranged order (.closes_all _)).trans woken))

theorem send_moves (index : Nat) (format : Format) {copied : Option Nat} (invariant : Invariant p)
    (fresh : Fresh p (blocks [copied])) : ∃ ops, (apply p (.send index format copied)).log = p.log ++ ops ∧
      Moves (handles p) ops (handles (apply p (.send index format copied))) := by
  simp only [apply]
  cases found : p.clients[index]? with
  | none => exact ⟨[],(List.append_nil _).symm,.refl _⟩
  | some fd =>
    refine ⟨_,rfl,?_⟩
    have own := client_held (List.mem_of_getElem? found)
    have written : ∀ more : List Handle, Moves (more ++ handles p) [.uses (.descriptor fd)] (more ++ handles p) := by
      intro more
      refine .uses fun op listed => ⟨_,List.mem_append_right _ own,List.mem_singleton.mp listed⟩
    unfold sendSnapshot
    dsimp only
    split
    · cases copied with
      | none => simpa [blocks,record,handles,owned] using written []
      | some copy =>
        -- The empty copy stays allocated.
        have kept : (.block copy :: handles p).Perm (handles { p with lost := p.lost ++ [copy] }) := by
          have moved := List.perm_append_singleton (Handle.block copy) (handles p)
          simpa [handles,owned,List.append_assoc] using moved.symm
        have opened : Moves (handles p) [.opens (.block copy)] (.block copy :: handles p) :=
          .opens (fresh.2 _ (by simp [blocks]))
        exact (opened.trans (written [.block copy])).shuffled kept
    · rename_i sized
      cases copied with
      | none => simpa [blocks,record,handles,owned] using Moves.refl (handles p)
      | some copy =>
        obtain ⟨address,stored⟩ := invariant.filled format sized
        have opened : Moves (handles p) [.opens (.block copy)] (.block copy :: handles p) :=
          .opens (fresh.2 _ (by simp [blocks]))
        have read : Moves (.block copy :: handles p) [.uses (.block address)] (.block copy :: handles p) :=
          .uses fun op listed => ⟨_,List.mem_cons_of_mem _ (snapshot_held stored),List.mem_singleton.mp listed⟩
        have filled : Moves (.block copy :: handles p) [.uses (.block copy)] (.block copy :: handles p) :=
          .uses fun op listed => ⟨_,List.mem_cons_self,List.mem_singleton.mp listed⟩
        have whole := opened.trans (read.trans (filled.trans ((written [.block copy]).trans .closes)))
        simpa [blocks,stored,record,handles,owned] using whole

theorem removeAt_perm {clients : List Nat} {index fd : Nat} (found : clients[index]? = some fd) :
    clients.Perm (fd :: removeAt clients index) := by
  obtain ⟨inside,same⟩ := List.getElem?_eq_some_iff.mp found
  have parts := split_at inside
  rw [same] at parts
  obtain ⟨moved,removed,perm⟩ := removeAt_split (clients.take index) (clients.drop (index + 1)) fd
  rw [List.length_take_of_le (by omega),← parts] at removed
  rw [removed]
  have whole : (clients.take index ++ fd :: clients.drop (index + 1)).Perm (fd :: (clients.take index ++ moved)) :=
    List.perm_middle.trans (.cons _ (perm.symm.append_left _))
  rwa [← parts] at whole

theorem remove_moves (index : Nat) : ∃ ops, (apply p (.remove index)).log = p.log ++ ops ∧
    Moves (handles p) ops (handles (apply p (.remove index))) := by
  simp only [apply]
  cases found : p.clients[index]? with
  | none => exact ⟨[],(List.append_nil _).symm,.refl _⟩
  | some fd => exact ⟨_,rfl,.arranged (client_perm (removeAt_perm found)) .closes⟩

theorem accept_moves {fd : Nat} (configured : Bool) (fresh : Handle.descriptor fd ∉ handles p) :
    ∃ ops, (apply p (.accept fd configured)).log = p.log ++ ops ∧
      Moves (handles p) ops (handles (apply p (.accept fd configured))) := by
  have used : Moves (handles p) [.opens (.descriptor fd),.uses (.descriptor fd)] (.descriptor fd :: handles p) :=
    (Moves.opens fresh).trans (.uses fun op listed => ⟨_,List.mem_cons_self,List.mem_singleton.mp listed⟩)
  simp only [apply,accept]
  split
  · exact ⟨_,rfl,used.trans .closes⟩
  · refine ⟨_,rfl,used.shuffled ?_⟩
    have grown := client_perm (p := { p with clients := p.clients ++ [fd] }) (List.perm_append_singleton fd p.clients)
    exact grown.symm

theorem exit_moves : ∃ ops, (apply p .exit).log = p.log ++ ops ∧ Moves (handles p) ops (handles (apply p .exit)) := by
  refine ⟨_,rfl,?_⟩
  have front : (handles p).Perm (p.clients.map .descriptor ++ handles { p with clients := [] }) := by
    have moved : (p.server.snapshots ++ p.server.fixed ++ p.clients.map Handle.descriptor).Perm
        (p.clients.map .descriptor ++ (p.server.snapshots ++ p.server.fixed)) := List.perm_append_comm
    simpa [handles,owned,List.append_assoc] using moved.append_right (p.lost.map Handle.block)
  exact .arranged front (.closes_all _)

theorem joined_moves (dead : p.clients = []) : ∃ ops, (apply p .joined).log = p.log ++ ops ∧
    Moves (handles p) ops (handles (apply p .joined)) := by
  refine ⟨_,rfl,?_⟩
  have left : handles (apply p .joined) = p.lost.map .block := by
    simp [handles,owned,apply,joined,record,zeroed,Server.snapshots,Server.fixed,blocks,descriptors,Snapshot.none,dead]
  rw [left]
  have shape : handles p = p.server.snapshots ++ (p.server.fixed ++ p.lost.map .block) := by
    simp [handles,owned,dead]
  rw [shape]
  exact (Moves.closes_all _).trans (.closes_all _)

theorem used_moves {next : Process} {ops : List (Op Handle)} (same : handles next = handles p)
    (log : next.log = p.log ++ ops) (used : ∀ op ∈ ops, ∃ handle ∈ handles p, op = .uses handle) :
    ∃ ops, next.log = p.log ++ ops ∧ Moves (handles p) ops (handles next) :=
  ⟨ops,log,by rw [same]; exact .uses used⟩

-- Everything but the ledger, where the server is left as it was.
theorem Invariant.same_server {next : Process} (invariant : Invariant p)
    (moved : ∃ ops, next.log = p.log ++ ops ∧ Moves (handles p) ops (handles next)) (server : next.server = p.server)
    (alive : next.alive = true → p.alive = true) (joining : next.joining = p.joining)
    (idle : p.server.running = false → next.clients = []) (dead : next.alive = false → next.clients = []) :
    Invariant next := by
  obtain ⟨ops,log,moves⟩ := moved
  obtain ⟨ledger,distinct⟩ := invariant.held next log moves
  refine ⟨ledger,distinct,?_,?_,?_,?_,dead,?_⟩
  · intro stopped
    rw [server] at stopped ⊢
    obtain ⟨fixed,snapshots,-⟩ := invariant.stopped stopped
    exact ⟨fixed,snapshots,idle stopped⟩
  · rw [server]
    exact invariant.waking
  · intro lives
    rw [server]
    exact invariant.alive (alive lives)
  · rw [joining,server]
    exact invariant.joining
  · rw [server]
    exact invariant.filled

theorem start_invariant {path : Bytes} {answers : Starting} (invariant : Invariant p)
    (possible : Possible p (.start path answers)) : Invariant (apply p (.start path answers)) := by
  obtain ⟨unjoined,⟨distinct,fresh⟩,probed⟩ := possible
  rcases start_cases p.server path probed distinct fresh with
    ⟨error,failed,moves,server⟩ | ⟨listener,wakeRead,wakeWrite,copy,started,idle,server,moves⟩
  · have quiet : (apply p (.start path answers)).alive = p.alive := by simp [apply,record,failed,Except.isOk,Except.toBool]
    rcases server with server | ⟨idle,server⟩
    · refine invariant.same_server ⟨_,rfl,?_⟩ server (fun lives => quiet ▸ lives) rfl
        (fun stopped => (invariant.stopped stopped).2.2) (fun ends => invariant.dead (quiet ▸ ends))
      have same : handles (apply p (.start path answers)) = handles p := by
        simp [handles,owned,apply,record,server]
      rw [same]
      exact moves
    · obtain ⟨fixed,snapshots,clients⟩ := invariant.stopped idle
      have left : (apply p (.start path answers)).server = _ := server
      have bare : (apply p (.start path answers)).server.fixed = [] := by
        rw [left]
        rfl
      have kept : (apply p (.start path answers)).server.snapshots = p.server.snapshots := by rw [left]; rfl
      have same : handles (apply p (.start path answers)) = handles p := by
        rw [handles,owned,bare,kept,handles,owned,fixed]
        rfl
      obtain ⟨ledger,distinct⟩ := invariant.held (apply p (.start path answers)) rfl (by rw [same]; exact moves)
      have lifeless : p.alive ≠ true := fun lives => by
        rw [invariant.alive lives] at idle
        cases idle
      refine ⟨ledger,distinct,fun _ => ⟨bare,kept.trans snapshots,clients⟩,?_,?_,?_,fun _ => clients,?_⟩
      · intro runs
        rw [left] at runs
        cases runs
      · intro lives
        exact absurd (quiet ▸ lives) lifeless
      · intro joins
        exact absurd (unjoined.symm.trans joins) (by decide)
      · intro format
        rw [left]
        exact invariant.filled format
  · obtain ⟨fixed,snapshots,clients⟩ := invariant.stopped idle
    have left : (apply p (.start path answers)).server = _ := server
    have order : [Handle.block copy,.descriptor wakeRead,.descriptor wakeWrite,.descriptor listener].Perm
        [.descriptor listener,.descriptor wakeRead,.descriptor wakeWrite,.block copy] :=
      (List.perm_append_singleton (Handle.block copy) [.descriptor wakeRead,.descriptor wakeWrite,.descriptor listener]).symm.trans
        ((List.perm_append_singleton (Handle.descriptor listener) [.descriptor wakeRead,.descriptor wakeWrite]).append_right _)
    have more : handles (apply p (.start path answers)) =
        [.descriptor listener,.descriptor wakeRead,.descriptor wakeWrite,.block copy] ++ handles p := by
      have kept : (apply p (.start path answers)).server.snapshots = [] := by rw [left]; exact snapshots
      have held : (apply p (.start path answers)).server.fixed =
          [.descriptor listener,.descriptor wakeRead,.descriptor wakeWrite,.block copy] := by rw [left]; rfl
      rw [handles,owned,kept,held,handles,owned,fixed,snapshots]
      rfl
    obtain ⟨ledger,distinct⟩ := invariant.held (apply p (.start path answers)) rfl
      (by rw [more]; exact moves.shuffled (order.append_right _))
    refine ⟨ledger,distinct,?_,?_,?_,?_,?_,?_⟩
    · intro stopped
      rw [left] at stopped
      cases stopped
    · intro _
      rw [left]
      exact ⟨wakeWrite,rfl⟩
    · intro _
      rw [left]
    · intro _
      rw [left]
    · intro ends
      simp [apply,record,started,Except.isOk,Except.toBool] at ends
    · intro format
      rw [left]
      exact invariant.filled format

theorem publish_invariant {payloads : Payloads} {copies : Copies} (invariant : Invariant p)
    (possible : Possible p (.publish payloads copies)) : Invariant (apply p (.publish payloads copies)) := by
  have moved := publish_moves payloads invariant possible.2
  have shape : apply p (.publish payloads copies) =
      record { p with server := (publish p.server payloads copies).result.1 } (publish p.server payloads copies).ops := rfl
  rw [shape] at moved ⊢
  unfold publish at moved ⊢
  dsimp only at moved ⊢
  split at moved
  · rename_i incomplete
    rw [if_pos incomplete]
    exact invariant.same_server moved rfl id rfl (fun stopped => (invariant.stopped stopped).2.2) invariant.dead
  · rename_i complete
    rw [if_neg complete]
    split at moved
    · rename_i down
      rw [if_pos down]
      exact invariant.same_server moved rfl id rfl (fun stopped => (invariant.stopped stopped).2.2) invariant.dead
    · rename_i up
      rw [if_neg up]
      obtain ⟨ops,log,moves⟩ := moved
      obtain ⟨ledger,distinct⟩ := invariant.held _ log moves
      have whole : copies.whole = true := by simpa using complete
      simp only [Copies.whole,Bool.and_eq_true,Option.isSome_iff_exists] at whole
      obtain ⟨⟨one,two⟩,three⟩ := whole
      refine ⟨ledger,distinct,fun stopped => ?_,invariant.waking,invariant.alive,invariant.joining,invariant.dead,?_⟩
      · have idle : p.server.running = false := stopped
        simp [idle] at up
      · intro format _
        cases format with
        | default => exact one
        | eww => exact two
        | doctor => exact three

theorem stop_invariant (invariant : Invariant p) : Invariant (apply p .stop) := by
  simp only [apply]
  split
  · rename_i runs
    obtain ⟨fd,waking⟩ := invariant.waking runs
    have used : Moves (handles p) ((descriptors [p.server.wakeWrite]).map .uses) (handles p) := by
      refine .uses fun op listed => ⟨.descriptor fd,wake_held waking,?_⟩
      simpa [descriptors,waking] using listed
    obtain ⟨ledger,distinct⟩ := invariant.held
      (record { p with server := { p.server with stopping := true }, joining := true }
        ((descriptors [p.server.wakeWrite]).map .uses)) rfl used
    exact ⟨ledger,distinct,invariant.stopped,invariant.waking,invariant.alive,fun _ => runs,invariant.dead,invariant.filled⟩
  · exact invariant

theorem joined_invariant (invariant : Invariant p) (possible : Possible p .joined) : Invariant (apply p .joined) := by
  obtain ⟨ops,log,moves⟩ := joined_moves (invariant.dead possible.2)
  obtain ⟨ledger,distinct⟩ := invariant.held _ log moves
  refine ⟨ledger,distinct,fun _ => ⟨rfl,rfl,invariant.dead possible.2⟩,?_,?_,?_,fun _ => invariant.dead possible.2,?_⟩
  · intro runs
    cases runs
  · intro lives
    exact absurd (possible.2.symm.trans lives) (by decide)
  · intro joins
    cases joins
  · intro format sized
    cases format <;> exact absurd rfl sized

theorem thread_idle {next : Process} (invariant : Invariant p) (lives : p.alive = true) :
    p.server.running = false → next.clients = [] := by
  intro stopped
  rw [invariant.alive lives] at stopped
  cases stopped

theorem apply_invariant (event : Event) (invariant : Invariant p) (possible : Possible p event) :
    Invariant (apply p event) := by
  cases event with
  | start path answers => exact start_invariant invariant possible
  | publish payloads copies => exact publish_invariant invariant possible
  | stop => exact stop_invariant invariant
  | joined => exact joined_invariant invariant possible
  | poll =>
    refine invariant.same_server (used_moves rfl rfl ?_) rfl id rfl (thread_idle invariant possible) invariant.dead
    intro op listed
    obtain ⟨handle,among,rfl⟩ := List.mem_map.mp listed
    refine ⟨handle,?_,rfl⟩
    rcases List.mem_append.mp among with own | client
    · have fixed : handle ∈ p.server.fixed := by
        refine List.mem_append_left _ ?_
        obtain ⟨fd,given,rfl⟩ := List.mem_map.mp own
        obtain ⟨field,stored,same⟩ := List.mem_filterMap.mp given
        exact List.mem_map_of_mem (List.mem_filterMap.mpr ⟨field,by simp at stored ⊢; tauto,same⟩)
      exact List.mem_append_right _ (List.mem_append_left _ (List.mem_append_left _ fixed))
    · obtain ⟨fd,open',rfl⟩ := List.mem_map.mp client
      exact client_held open'
  | exchange index =>
    simp only [apply]
    cases found : p.clients[index]? with
    | none => exact invariant
    | some fd =>
      refine invariant.same_server (used_moves rfl rfl ?_) rfl id rfl (thread_idle invariant possible) invariant.dead
      intro op listed
      exact ⟨_,client_held (List.mem_of_getElem? found),List.mem_singleton.mp listed⟩
  | send index format copied =>
    have moved := send_moves index format invariant possible.2
    have server : (apply p (.send index format copied)).server = p.server ∧
        (apply p (.send index format copied)).alive = p.alive ∧ (apply p (.send index format copied)).joining = p.joining ∧
        (apply p (.send index format copied)).clients = p.clients := by
      simp only [apply]
      split
      · exact ⟨rfl,rfl,rfl,rfl⟩
      · exact ⟨rfl,rfl,rfl,rfl⟩
    obtain ⟨server,alive,joining,clients⟩ := server
    refine invariant.same_server moved server (fun lives => alive ▸ lives) joining (thread_idle invariant possible.1) ?_
    rw [alive,clients]
    exact invariant.dead
  | remove index =>
    have moved := remove_moves (p := p) index
    have lives : p.alive = true := possible
    have server : (apply p (.remove index)).server = p.server ∧ (apply p (.remove index)).alive = p.alive ∧
        (apply p (.remove index)).joining = p.joining := by
      simp only [apply]
      split
      · exact ⟨rfl,rfl,rfl⟩
      · exact ⟨rfl,rfl,rfl⟩
    obtain ⟨server,alive,joining⟩ := server
    refine invariant.same_server moved server (fun still => alive ▸ still) joining (thread_idle invariant lives) ?_
    rw [alive,lives]
    exact fun ends => by cases ends
  | accept fd configured =>
    obtain ⟨lives,fresh⟩ := possible
    have moved := accept_moves (p := p) configured fresh
    have server : (apply p (.accept fd configured)).server = p.server ∧ (apply p (.accept fd configured)).alive = p.alive ∧
        (apply p (.accept fd configured)).joining = p.joining := by
      simp only [apply,accept]
      split
      · exact ⟨rfl,rfl,rfl⟩
      · exact ⟨rfl,rfl,rfl⟩
    obtain ⟨server,alive,joining⟩ := server
    refine invariant.same_server moved server (fun still => alive ▸ still) joining (thread_idle invariant lives) ?_
    rw [alive,lives]
    exact fun ends => by cases ends
  | exit => exact invariant.same_server exit_moves rfl (fun ends => by cases ends) rfl (fun _ => rfl) fun _ => rfl

-- What is lost: the empty copies that answers before the first publication ask
-- for. Nothing else stays allocated once the server has stopped.
def Leaks (p : Process) (event : Event) : Prop :=
  (apply p event).lost = p.lost ∨ ∃ index format copy, event = .send index format (some copy) ∧
    (p.server.of format).size = 0 ∧ (apply p event).lost = p.lost ++ [copy]

theorem apply_leaks (event : Event) : Leaks p event := by
  cases event with
  | send index format copied =>
    simp only [Leaks,apply]
    split
    · unfold sendSnapshot
      dsimp only
      split
      · rename_i empty
        cases copied with
        | none => exact .inl (List.append_nil _)
        | some copy => exact .inr ⟨index,format,copy,rfl,empty,rfl⟩
      · cases copied <;> exact .inl (List.append_nil _)
    · exact .inl rfl
  | start path answers => exact .inl rfl
  | publish payloads copies => exact .inl rfl
  | stop =>
    simp only [Leaks,apply]
    split <;> exact .inl rfl
  | joined => exact .inl rfl
  | poll => exact .inl rfl
  | exchange index =>
    simp only [Leaks,apply]
    split <;> exact .inl rfl
  | remove index =>
    simp only [Leaks,apply]
    split <;> exact .inl rfl
  | accept fd configured =>
    simp only [Leaks,apply,accept]
    split <;> exact .inl rfl
  | exit => exact .inl rfl

theorem control_run_conserves (events : List Event) (possible : Runs.Each apply Possible boot events) :
    Runs.Throughout apply Sound boot events ∧ Runs.Each apply Leaks boot events := by
  refine ⟨Runs.throughout_imp ?_ (Runs.throughout_invariant (fun _ event invariant possible =>
    apply_invariant event invariant possible) boot_invariant possible),Runs.each_always fun _ event => apply_leaks event⟩
  intro p invariant
  refine ⟨invariant.ledger,invariant.distinct,fun stopped => ?_⟩
  obtain ⟨fixed,snapshots,clients⟩ := invariant.stopped stopped
  simp [handles,owned,fixed,snapshots,clients]

def gone : Failure := ⟨true,text "Connection refused"⟩

def starting (listener wakeRead wakeWrite copy : Nat) : Starting where
  preparing := ⟨.missing,⟨.error gone,.ok (),gone,.ok ()⟩,.ok (),.ok listener,.ok (),.ok (),.ok ()⟩
  pipe := .ok (wakeRead,wakeWrite)
  pipeConfigured := .ok ()
  path := some copy
  thread := true

-- A client is answered before and after the first publication; the numbers and
-- blocks of the stopped server serve the next one.
def restarted : List Event :=
  [.start (text "/run/h") (starting 3 4 5 100),.accept 6 true,.send 0 .default (some 101),
   .publish ⟨text "a",text "b",text "c"⟩ ⟨some 102,some 103,some 104⟩,.send 0 .eww (some 105),.remove 0,.stop,.exit,.joined,
   .start (text "/run/h") (starting 3 4 5 100)]

theorem starting_possible {listener wakeRead wakeWrite copy : Nat} {path : Bytes}
    (idle : p.joining = false) (fresh : Fresh p (starting listener wakeRead wakeWrite copy).given) :
    Possible p (.start path (starting listener wakeRead wakeWrite copy)) :=
  ⟨idle,fresh,fun _ made => by cases made⟩

theorem restarted_conserves :
    Runs.Throughout apply Sound boot restarted ∧ Runs.Each apply Leaks boot restarted := by
  have unused : ∀ (p : Process) given, given.Nodup → (∀ handle ∈ given, handle ∉ handles p) → Fresh p given :=
    fun _ _ distinct fresh => ⟨distinct,fresh⟩
  refine control_run_conserves restarted ⟨starting_possible rfl (unused _ _ ?_ ?_),⟨rfl,?_⟩,⟨rfl,unused _ _ ?_ ?_⟩,
    ⟨rfl,unused _ _ ?_ ?_⟩,⟨rfl,unused _ _ ?_ ?_⟩,rfl,rfl,rfl,⟨rfl,rfl⟩,starting_possible rfl (unused _ _ ?_ ?_),trivial⟩ <;> decide

end Hypringo.ControlResources

import Hypringo.Control
import Hypringo.Dispatch
import Hypringo.Handles
import Hypringo.HyprlandService
import Hypringo.Runs

namespace Hypringo.Ipc
open Hypringo.Lua Hypringo.Dispatch Handles
open Hypringo.Control (cString)

def slash : UInt8 := 47
def pathCapacity : Nat := 108
def bufferSize : Nat := 65536

-- What a function does to descriptors, and what comes of it.
structure Called (α : Type) where
  ops : List (Op Nat)
  result : α

-- How the calls of connect_socket turn out, with the texts of their errors.
structure Connecting where
  invalid : Bytes
  tooLong : Bytes
  socket : Except Bytes Nat
  cloexec : Except Bytes Unit
  connects : Except Bytes Unit

def connectSocket (path : Bytes) (answers : Connecting) : Called (Except Bytes Nat) :=
  if (cString path).head? ≠ some slash then ⟨[],.error answers.invalid⟩
  else if pathCapacity ≤ (cString path).length then ⟨[],.error answers.tooLong⟩
  else match answers.socket with
    | .error error => ⟨[],.error error⟩
    | .ok fd => match answers.cloexec with
      | .error error => ⟨[.opens fd,.uses fd,.closes fd],.error error⟩
      | .ok _ => match answers.connects with
        | .error error => ⟨[.opens fd,.uses fd,.uses fd,.closes fd],.error error⟩
        | .ok _ => ⟨[.opens fd,.uses fd,.uses fd],.ok fd⟩

-- How often write_all calls send.
def sendCalls : List Sent → Bytes → Nat
  | _,[] => 0
  | [],_ => 1
  | .count n :: rest,data => if n = 0 then 1 else sendCalls rest (data.drop n) + 1
  | .interrupted :: rest,data => sendCalls rest data + 1
  | .failed :: _,_ => 1

inductive Received where
  | data (chunk : Bytes)
  | interrupted
  deriving DecidableEq, Repr

structure Receipt where
  calls : Nat
  response : Except Bytes (Except Bytes Bytes)

-- The loop of recv: what comes before the end of the stream or an error.
def receiveAll (ending : Except Bytes Unit) (response : Bytes) : List Received → Receipt
  | [] => match ending with
    | .ok _ => ⟨1,.ok (.ok response)⟩
    | .error error => ⟨1,.ok (.error (text "read failed: " ++ error))⟩
  | .data chunk :: rest =>
    if maxResponse < response.length + chunk.length then ⟨1,.error (text "IPC response exceeds 16777216 bytes")⟩
    else
      let later := receiveAll ending (response ++ chunk) rest
      { later with calls := later.calls + 1 }
  | .interrupted :: rest =>
    let later := receiveAll ending response rest
    { later with calls := later.calls + 1 }

-- ENOTCONN is no failure of shutdown.
inductive Shutdown where
  | done
  | notConnected
  | failed (error : Bytes)

structure Answers where
  connecting : Connecting
  sends : List Sent
  sendError : Bytes
  shutdown : Shutdown
  receives : List Received
  ending : Except Bytes Unit

def request (path payload : Bytes) (answers : Answers) : Called Exchange :=
  let connection := connectSocket path answers.connecting
  match connection.result with
  | .error error => ⟨connection.ops,⟨[],.ok (.error (text "connect failed: " ++ error))⟩⟩
  | .ok fd =>
    let (written,whole) := writeAll answers.sends payload
    let sent := connection.ops ++ List.replicate (sendCalls answers.sends payload) (.uses fd)
    if !whole then ⟨sent ++ [.closes fd],⟨written,.ok (.error (text "write failed: " ++ answers.sendError))⟩⟩
    else match answers.shutdown with
      | .failed error => ⟨sent ++ [.uses fd] ++ [.closes fd],⟨written,.ok (.error (text "shutdown failed: " ++ error))⟩⟩
      | .done | .notConnected =>
        let receipt := receiveAll answers.ending [] answers.receives
        ⟨sent ++ .uses fd :: List.replicate receipt.calls (.uses fd) ++ [.closes fd],⟨written,receipt.response⟩⟩

structure Revents where
  input : Bool
  error : Bool
  hangup : Bool
  invalid : Bool
  deriving DecidableEq, Repr

inductive Polled where
  | failed (error : Bytes)
  | ready (stream wake : Revents)

inductive Peeked where
  | data (chunk : Bytes)
  | again
  | failed (error : Bytes)

-- How poll and recv turn out after the calls that a signal interrupted.
structure Waiting where
  polls : Nat
  polled : Polled
  peeks : Nat
  peeked : Peeked

structure Waited where
  chunk : Option Bytes
  wakeReady : Bool
  closed : Bool
  error : Option Bytes
  deriving DecidableEq, Repr

def waitReport (answers : Waiting) : Waited :=
  match answers.polled with
  | .failed error => ⟨none,false,false,some (text "poll failed: " ++ error)⟩
  | .ready stream wake =>
    let wakeReady := wake.input || wake.error || wake.hangup || wake.invalid
    if stream.input then match answers.peeked with
      | .data chunk => if chunk = [] then ⟨none,wakeReady,true,none⟩ else ⟨some chunk,wakeReady,false,none⟩
      | .again => ⟨none,wakeReady,false,none⟩
      | .failed error => ⟨none,wakeReady,true,some (text "read failed: " ++ error)⟩
    else ⟨none,wakeReady,stream.error || stream.hangup || stream.invalid,none⟩

def waitCalls (answers : Waiting) : Nat :=
  answers.polls + 1 + match answers.polled with
    | .failed _ => 0
    | .ready stream _ => if stream.input then answers.peeks + 1 else 0

-- What recv takes out of the socket during a wait.
def received (answers : Waiting) : Bytes := match answers.polled with
  | .failed _ => []
  | .ready stream _ =>
    if stream.input then match answers.peeked with
      | .data chunk => chunk
      | .again | .failed _ => []
    else []

-- A userdata of lconnect: fd is none once it is -1. What its peer has sent, the
-- part of that which waits in the kernel, and what wait has returned.
structure Stream where
  fd : Option Nat
  sent : Bytes
  incoming : Bytes
  delivered : List Bytes

def Stream.receive (stream : Stream) (data : Bytes) : Stream :=
  { stream with incoming := stream.incoming.drop data.length }

def Stream.deliver (stream : Stream) (chunk : Option Bytes) : Stream :=
  { stream with delivered := stream.delivered ++ chunk.toList }

-- Everything a process does through this module, from any of its services.
structure Process where
  streams : List Stream
  log : List (Op Nat)

def boot : Process := ⟨[],[]⟩

inductive Event where
  | connect (path : Bytes) (answers : Connecting)
  | request (path payload : Bytes) (answers : Answers)
  | arrives (index : Nat) (data : Bytes)
  | wait (index : Nat) (answers : Waiting)
  -- S:close and __gc
  | close (index : Nat)

def descriptors (p : Process) : List Nat := p.streams.filterMap Stream.fd

def connected : Except Bytes Nat → List Stream
  | .ok fd => [⟨some fd,[],[],[]⟩]
  | .error _ => []

def held (p : Process) (index : Nat) : Option Nat := p.streams[index]?.bind Stream.fd

def apply (p : Process) : Event → Process
  | .connect path answers =>
    let connection := connectSocket path answers
    ⟨p.streams ++ connected connection.result,p.log ++ connection.ops⟩
  | .request path payload answers => { p with log := p.log ++ (request path payload answers).ops }
  | .arrives index data =>
    { p with
      streams := p.streams.modify index fun stream =>
        { stream with sent := stream.sent ++ data, incoming := stream.incoming ++ data } }
  | .wait index answers => match held p index with
    | some fd =>
      ⟨p.streams.modify index fun stream => (stream.receive (received answers)).deliver (waitReport answers).chunk,
        p.log ++ List.replicate (waitCalls answers) (.uses fd)⟩
    | none => p
  | .close index => match held p index with
    | some fd => ⟨p.streams.modify index fun stream => { stream with fd := none },p.log ++ [.closes fd]⟩
    | none => p

-- socket gives out a number that is not in use, and recv gives what has
-- arrived, at most a buffer of it.
def Fresh (p : Process) (answers : Connecting) : Prop := ∀ fd, answers.socket = .ok fd → fd ∉ descriptors p

def Possible (p : Process) : Event → Prop
  | .connect _ answers => Fresh p answers
  | .request _ _ answers => Fresh p answers.connecting
  | .wait index answers =>
    (received answers).length ≤ bufferSize ∧ ∀ stream ∈ p.streams[index]?, received answers <+: stream.incoming
  | _ => True

section
variable {table : Finset Nat}

theorem connectSocket_opened {path : Bytes} {answers : Connecting} {fd : Nat}
    (opened : (connectSocket path answers).result = .ok fd) :
    answers.socket = .ok fd ∧ (connectSocket path answers).ops = [.opens fd,.uses fd,.uses fd] := by
  unfold connectSocket at opened ⊢
  split at opened
  · cases opened
  · split at opened
    · cases opened
    · rename_i absolute short
      rw [if_neg absolute,if_neg short]
      cases given : answers.socket with
      | error error => simp [given] at opened
      | ok number =>
        cases flags : answers.cloexec with
        | error error => simp [given,flags] at opened
        | ok _ =>
          cases reached : answers.connects with
          | error error => simp [given,flags,reached] at opened
          | ok _ =>
            have same : number = fd := by simpa [given,flags,reached] using opened
            subst same
            exact ⟨rfl,rfl⟩

-- A connect_socket that fails leaves nothing open, whichever call failed.
theorem connectSocket_refused {path : Bytes} {answers : Connecting} {error : Bytes}
    (fresh : ∀ fd, answers.socket = .ok fd → fd ∉ table) (refused : (connectSocket path answers).result = .error error) :
    after table (connectSocket path answers).ops = some table := by
  unfold connectSocket at refused ⊢
  split
  · rfl
  · split
    · rfl
    · rename_i absolute short
      rw [if_neg absolute,if_neg short] at refused
      cases given : answers.socket with
      | error error => rfl
      | ok fd =>
        have unused := fresh fd given
        cases flags : answers.cloexec with
        | error error => exact after_borrows [.uses fd] unused (by simp)
        | ok _ =>
          cases reached : answers.connects with
          | error error => exact after_borrows [.uses fd,.uses fd] unused (by simp)
          | ok _ => simp [given,flags,reached] at refused

theorem request_borrows (path payload : Bytes) {answers : Answers}
    (fresh : ∀ fd, answers.connecting.socket = .ok fd → fd ∉ table) :
    after table (request path payload answers).ops = some table := by
  cases connection : (connectSocket path answers.connecting).result with
  | error error =>
    simp only [request,connection]
    exact connectSocket_refused fresh connection
  | ok fd =>
    obtain ⟨given,ops⟩ := connectSocket_opened connection
    -- Every path between the socket and its close only uses the descriptor.
    have borrows : ∀ uses : List (Op Nat), (∀ op ∈ uses, op = .uses fd) →
        after table (.opens fd :: uses ++ [.closes fd]) = some table := fun uses only => after_borrows uses (fresh fd given) only
    simp only [request,connection,ops]
    split
    · exact borrows ([.uses fd,.uses fd] ++ List.replicate (sendCalls answers.sends payload) (.uses fd)) (by simp [or_imp])
    · split
      · exact borrows ([.uses fd,.uses fd] ++ List.replicate (sendCalls answers.sends payload) (.uses fd) ++ [.uses fd])
          (by simp [or_imp])
      all_goals
        exact borrows ([.uses fd,.uses fd] ++ List.replicate (sendCalls answers.sends payload) (.uses fd) ++
          .uses fd :: List.replicate (receiveAll answers.ending [] answers.receives).calls (.uses fd)) (by simp [or_imp])

end

-- What the calls of recv brought before the stream ended.
def arrived : List Received → Bytes
  | [] => []
  | .data chunk :: rest => chunk ++ arrived rest
  | .interrupted :: rest => arrived rest

-- The peer of the exchange in plain terms: it takes at one go what the sends
-- took together, and what it answers has come when it is asked for.
def Answers.peer (path : Bytes) (answers : Answers) : Peer where
  connects := (connectSocket path answers.connecting).result.map fun _ => ()
  sends := [.count (taken answers.sends)]
  sendError := answers.sendError
  shutdown := match answers.shutdown with
    | .failed error => .error error
    | .done | .notConnected => .ok ()
  receives :=
    if maxResponse < (arrived answers.receives).length then .ok (arrived answers.receives)
    else answers.ending.map fun _ => arrived answers.receives

theorem receiveAll_response (ending : Except Bytes Unit) (response : Bytes) (receives : List Received)
    (room : response.length ≤ maxResponse) :
    (receiveAll ending response receives).response =
      if maxResponse < (response ++ arrived receives).length then .error (text "IPC response exceeds 16777216 bytes")
      else .ok ((ending.mapError fun error => text "read failed: " ++ error).map fun _ => response ++ arrived receives) := by
  induction receives generalizing response with
  | nil =>
    rw [arrived,List.append_nil,if_neg (by omega)]
    cases ending <;> rfl
  | cons received rest ih =>
    cases received with
    | interrupted => exact ih response room
    | data chunk =>
      have shape : arrived (.data chunk :: rest) = chunk ++ arrived rest := rfl
      rw [shape]
      simp only [receiveAll]
      by_cases exceeds : maxResponse < response.length + chunk.length
      · have beyond : maxResponse < (response ++ (chunk ++ arrived rest)).length := by
          simp only [List.length_append]
          omega
        rw [if_pos exceeds,if_pos beyond]
      · have fits : (response ++ chunk).length ≤ maxResponse := by
          rw [List.length_append]
          omega
        rw [if_neg exceeds,ih (response ++ chunk) fits,List.append_assoc]

theorem writeAll_once (sends : List Sent) (payload : Bytes) :
    writeAll [.count (taken sends)] payload = writeAll sends payload := by
  have once : taken [.count (taken sends)] = taken sends := by
    simp only [taken,add_zero]
    split <;> simp [*]
  rw [writeAll_taken,writeAll_taken,once]

theorem request_refines (path payload : Bytes) (answers : Answers) :
    (request path payload answers).result = ipcRequest (answers.peer path) payload := by
  have replied := receiveAll_response answers.ending [] answers.receives (Nat.zero_le _)
  rw [List.nil_append] at replied
  unfold request ipcRequest
  cases connection : (connectSocket path answers.connecting).result with
  | error error => simp [Answers.peer,connection,Except.map]
  | ok fd =>
    simp only [Answers.peer,connection,Except.map,writeAll_once]
    cases done : (writeAll answers.sends payload).2 with
    | false => simp
    | true =>
      -- The receive error only shows where the response was not too long already.
      by_cases exceeds : maxResponse < (arrived answers.receives).length
      · rw [if_pos exceeds] at replied
        cases shut : answers.shutdown <;> simp [exceeds,replied]
      · rw [if_neg exceeds] at replied
        cases ends : answers.ending <;> rw [ends] at replied <;> cases shut : answers.shutdown <;>
          simp [exceeds,replied,Except.map,Except.mapError]

-- The replies the service's model tells apart, as event_stream:wait gives them.
def shown : HyprlandService.Reply → Waited
  | .failed message => ⟨none,false,false,some message⟩
  | .chunk data wake => ⟨some data,wake,false,none⟩
  | .closed error wake => ⟨none,wake,true,error⟩
  | .nothing wake => ⟨none,wake,false,none⟩

theorem waitReport_shown (answers : Waiting) : ∃ reply, waitReport answers = shown reply := by
  unfold waitReport
  split
  · exact ⟨.failed _,rfl⟩
  · rename_i stream wake _
    dsimp only
    split
    · split
      · split
        · exact ⟨.closed none _,rfl⟩
        · exact ⟨.chunk _ _,rfl⟩
      · exact ⟨.nothing _,rfl⟩
      · exact ⟨.closed (some _) _,rfl⟩
    · cases stream.error || stream.hangup || stream.invalid with
      | true => exact ⟨.closed none _,rfl⟩
      | false => exact ⟨.nothing _,rfl⟩

-- The process owns exactly the descriptors of its open streams, each of them
-- once, and everything it ever did to a descriptor it did while owning it.
structure Owned (p : Process) : Prop where
  held : after ∅ p.log = some (descriptors p).toFinset
  distinct : (descriptors p).Nodup

-- What wait has returned and what still waits is what the peer has sent.
structure Lossless (stream : Stream) : Prop where
  whole : stream.delivered.flatten ++ stream.incoming = stream.sent
  pieces : ∀ chunk ∈ stream.delivered, chunk ≠ [] ∧ chunk.length ≤ bufferSize

theorem descriptors_kept {f : Stream → Stream} (same : ∀ stream, (f stream).fd = stream.fd) (streams : List Stream)
    (index : Nat) : (streams.modify index f).filterMap Stream.fd = streams.filterMap Stream.fd := by
  induction streams generalizing index with
  | nil => simp
  | cons stream rest ih => cases index <;> simp [List.filterMap_cons,same,ih]

theorem descriptors_closed {streams : List Stream} {index fd : Nat} (found : streams[index]?.bind Stream.fd = some fd)
    (distinct : (streams.filterMap Stream.fd).Nodup) :
    (streams.modify index fun stream => { stream with fd := none }).filterMap Stream.fd =
      (streams.filterMap Stream.fd).erase fd := by
  induction streams generalizing index with
  | nil => cases found
  | cons stream rest ih =>
    cases index with
    | zero =>
      have own : stream.fd = some fd := by simpa using found
      simp [own]
    | succ index =>
      have later : rest[index]?.bind Stream.fd = some fd := by simpa using found
      cases own : stream.fd with
      | none =>
        rw [List.filterMap_cons,own] at distinct
        simp [own,ih later distinct]
      | some other =>
        rw [List.filterMap_cons,own] at distinct
        obtain ⟨outside,distinct⟩ := List.nodup_cons.mp distinct
        have listed : fd ∈ rest.filterMap Stream.fd := by
          obtain ⟨held,at',is⟩ := Option.bind_eq_some_iff.mp later
          exact List.mem_filterMap.mpr ⟨held,List.mem_of_getElem? at',is⟩
        have different : other ≠ fd := fun same => outside (same ▸ listed)
        simp [own,ih later distinct,List.erase_cons_tail,different]

theorem held_listed {p : Process} {index fd : Nat} (found : held p index = some fd) : fd ∈ descriptors p := by
  obtain ⟨stream,at',is⟩ := Option.bind_eq_some_iff.mp found
  exact List.mem_filterMap.mpr ⟨stream,List.mem_of_getElem? at',is⟩

theorem apply_owned {p : Process} {event : Event} (owned : Owned p) (possible : Possible p event) : Owned (apply p event) := by
  obtain ⟨table,distinct⟩ := owned
  cases event with
  | connect path answers =>
    have fresh : ∀ fd, answers.socket = .ok fd → fd ∉ (descriptors p).toFinset :=
      fun fd given => by simpa using possible fd given
    cases connection : (connectSocket path answers).result with
    | error error =>
      have same : descriptors (apply p (.connect path answers)) = descriptors p := by
        simp [descriptors,apply,connection,connected]
      refine ⟨?_,by rwa [same]⟩
      rw [same]
      exact after_append table (connectSocket_refused fresh connection)
    | ok fd =>
      obtain ⟨given,ops⟩ := connectSocket_opened connection
      have more : descriptors (apply p (.connect path answers)) = descriptors p ++ [fd] := by
        simp [descriptors,apply,connection,connected]
      have outside : fd ∉ descriptors p := possible fd given
      refine ⟨?_,?_⟩
      · have kept := after_append table (after_keeps [.uses fd,.uses fd] (fresh fd given) (by simp))
        rw [more]
        simpa [apply,ops,Finset.union_comm] using kept
      · rw [more]
        simpa [List.nodup_append] using ⟨distinct,fun other listed same => outside (same ▸ listed)⟩
  | request path payload answers =>
    have fresh : ∀ fd, answers.connecting.socket = .ok fd → fd ∉ (descriptors p).toFinset :=
      fun fd given => by simpa using possible fd given
    exact ⟨after_append table (request_borrows path payload fresh),distinct⟩
  | arrives index data =>
    have same : descriptors (apply p (.arrives index data)) = descriptors p :=
      descriptors_kept (f := fun stream => { stream with sent := stream.sent ++ data, incoming := stream.incoming ++ data })
        (fun _ => rfl) p.streams index
    exact ⟨by rw [same]; exact table,by rw [same]; exact distinct⟩
  | wait index answers =>
    cases found : held p index with
    | none => simpa [apply,found] using ⟨table,distinct⟩
    | some fd =>
      have same : descriptors (apply p (.wait index answers)) = descriptors p := by
        simp only [apply,found]
        refine descriptors_kept ?_ p.streams index
        exact fun _ => rfl
      refine ⟨?_,by rwa [same]⟩
      rw [same]
      simp only [apply,found]
      exact after_append table (after_uses (by simpa using held_listed found) fun _ used => List.eq_of_mem_replicate used)
  | close index =>
    cases found : held p index with
    | none => simpa [apply,found] using ⟨table,distinct⟩
    | some fd =>
      have less : descriptors (apply p (.close index)) = (descriptors p).erase fd := by
        simp only [apply,found]
        exact descriptors_closed found distinct
      refine ⟨?_,by rw [less]; exact distinct.erase fd⟩
      have rest : ((descriptors p).erase fd).toFinset = (descriptors p).toFinset.erase fd := by
        ext other
        simp [distinct.mem_erase_iff]
      rw [less,rest]
      simp only [apply,found]
      exact after_append table (after_closes (by simpa using held_listed found))

-- A wait returns all that recv took.
theorem report_received (answers : Waiting) :
    (waitReport answers).chunk = if received answers = [] then none else some (received answers) := by
  obtain ⟨polls,polled,peeks,peeked⟩ := answers
  cases polled with
  | failed error => rfl
  | ready stream wake =>
    obtain ⟨input,error,hangup,invalid⟩ := stream
    cases input with
    | false => rfl
    | true =>
      cases peeked with
      | data chunk => cases chunk <;> rfl
      | again => rfl
      | failed error => rfl

theorem modify_lossless {streams : List Stream} {f : Stream → Stream} (index : Nat)
    (before : ∀ stream ∈ streams, Lossless stream) (step : ∀ stream ∈ streams[index]?, Lossless (f stream)) :
    ∀ stream ∈ streams.modify index f, Lossless stream := by
  intro stream listed
  obtain ⟨place,at'⟩ := List.mem_iff_getElem?.mp listed
  rw [List.getElem?_modify] at at'
  obtain ⟨old,found,same⟩ := Option.map_eq_some_iff.mp at'
  split at same
  · rename_i here
    exact same ▸ step old (here ▸ found)
  · exact same ▸ before old (List.mem_of_getElem? found)

theorem apply_lossless {p : Process} {event : Event} (lossless : ∀ stream ∈ p.streams, Lossless stream)
    (possible : Possible p event) : ∀ stream ∈ (apply p event).streams, Lossless stream := by
  cases event with
  | connect path answers =>
    intro stream listed
    rcases List.mem_append.mp listed with old | new
    · exact lossless stream old
    · cases connection : (connectSocket path answers).result with
      | error error =>
        rw [connection] at new
        cases new
      | ok fd =>
        rw [connection] at new
        rw [List.mem_singleton.mp new]
        exact ⟨rfl,by simp⟩
  | request path payload answers => exact lossless
  | arrives index data =>
    refine modify_lossless index lossless ?_
    intro stream at'
    obtain ⟨whole,pieces⟩ := lossless stream (List.mem_of_getElem? at')
    exact ⟨by rw [← whole,List.append_assoc],pieces⟩
  | wait index answers =>
    cases found : held p index with
    | none => simpa [apply,found] using lossless
    | some fd =>
      simp only [apply,found]
      refine modify_lossless index lossless ?_
      intro stream at'
      obtain ⟨whole,pieces⟩ := lossless stream (List.mem_of_getElem? at')
      obtain ⟨short,inside⟩ := possible
      obtain ⟨rest,split⟩ := inside stream at'
      by_cases none : received answers = []
      · refine ⟨?_,?_⟩ <;> simpa [Stream.receive,Stream.deliver,report_received,none]
      · refine ⟨?_,?_⟩
        · simp [Stream.receive,Stream.deliver,report_received,none,← whole,← split]
        · intro piece listed
          rw [Stream.deliver,report_received,if_neg none] at listed
          rcases List.mem_append.mp listed with old | new
          · exact pieces piece old
          · rw [List.mem_singleton.mp new]
            exact ⟨none,short⟩
  | close index =>
    cases found : held p index with
    | none => simpa [apply,found] using lossless
    | some fd =>
      simp only [apply,found]
      refine modify_lossless index lossless ?_
      intro stream at'
      obtain ⟨whole,pieces⟩ := lossless stream (List.mem_of_getElem? at')
      exact ⟨whole,pieces⟩

-- However connections, requests, waits and closes follow one another and
-- whichever calls fail: no descriptor leaks, none is used or closed after it was
-- closed, even when its number is in use again, and a stream loses nothing.
theorem ipc_run_sound (events : List Event) (possible : Runs.Each apply Possible boot events) :
    Runs.Throughout apply (fun p => Owned p ∧ ∀ stream ∈ p.streams, Lossless stream) boot events := by
  refine Runs.throughout_invariant ?_ ⟨⟨rfl,List.nodup_nil⟩,by simp [boot]⟩ possible
  intro p event sound possible
  exact ⟨apply_owned sound.1 possible,apply_lossless sound.2 possible⟩

def commandSocket : Bytes := text "/run/user/1000/hypr/a/.socket.sock"

def reached (fd : Nat) : Connecting := ⟨[],[],.ok fd,.ok (),.ok ()⟩
def readable : Revents := ⟨true,false,false,false⟩
def quiet : Revents := ⟨false,false,false,false⟩

-- The number of a closed stream is given out again to a request.
def reused : List Event :=
  [.connect commandSocket (reached 7),.arrives 0 (text "workspace>>1\n"),
   .wait 0 ⟨1,.ready readable quiet,0,.data (text "workspace")⟩,.close 0,
   .request commandSocket (text "j/monitors")
     ⟨reached 7,[.interrupted,.count 4,.count 6],[],.notConnected,[.data (text "["),.interrupted,.data (text "]")],.ok ()⟩,
   .close 0]

theorem reused_sound :
    Runs.Throughout apply (fun p => Owned p ∧ ∀ stream ∈ p.streams, Lossless stream) boot reused := by
  have free : descriptors (Runs.final apply boot (reused.take 4)) = [] := by decide
  refine ipc_run_sound reused ⟨?_,trivial,?_,trivial,?_,trivial,trivial⟩
  · intro fd given listed
    cases listed
  · refine ⟨by decide,?_⟩
    intro stream listed
    cases listed
    exact ⟨text ">>1\n",by decide⟩
  · intro fd given listed
    cases given
    change 7 ∈ descriptors (Runs.final apply boot (reused.take 4)) at listed
    rw [free] at listed
    cases listed

end Hypringo.Ipc

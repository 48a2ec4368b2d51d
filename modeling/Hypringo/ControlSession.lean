import Hypringo.CommandReader
import Hypringo.Runs

namespace Hypringo.ControlSession
open Hypringo.Lua Control CommandReader

-- What send and write answer, and what recv answers: at most `extra` bytes more
-- than one.
inductive Sent where
  | taken (count : Nat)
  | interrupted
  | failed (error : Bytes)
  deriving DecidableEq, Repr

inductive Received where
  | bytes (extra : Nat)
  | closed
  | interrupted
  | failed (error : Bytes)
  deriving DecidableEq, Repr

-- How lrequest ends.
inductive Outcome where
  | answered
  | unsupported
  | unconnected (error : Bytes)
  | unsent (error : Bytes)
  | unread (error : Bytes)
  | unprinted (error : Bytes)
  deriving DecidableEq, Repr

def Outcome.result (path command : Bytes) : Outcome → Except Bytes Unit
  | .answered => .ok ()
  | .unsupported => .error (text "unsupported control command: " ++ command)
  | .unconnected error => .error (text "cannot connect to control socket " ++ path ++ text ": " ++ error)
  | .unsent error => .error (text "cannot write control command: " ++ error)
  | .unread error => .error (text "cannot read control response: " ++ error)
  | .unprinted error => .error (text "cannot write control response: " ++ error)

-- The process of the command. `sending` has what is left of one write_all and
-- what the next one is to write.
inductive Client where
  | starting
  | sending (left rest : Bytes)
  | receiving
  | printing (left : Bytes)
  | ended (outcome : Outcome)
  deriving DecidableEq, Repr

-- The daemon's end of the connection. An answer that closes is the last.
inductive Serving where
  | pending
  | reading
  | answering (left : Bytes) (closing : Bool)
  | subscribed
  | closed
  deriving DecidableEq, Repr

structure Call where
  command : Bytes
  queued : Bool
  deriving DecidableEq, Repr

-- One request. `incoming` is what the daemon has sent and the client not yet
-- received; what the client has sent and the daemon not yet received is the
-- stream of its connection. The fields after `printed` are records: what went
-- out, the actions asked for, the answers begun, what of them went out and
-- whether a send of one failed.
structure Session where
  command : Bytes
  client : Client
  serving : Serving
  connection : Connection
  server : Server
  incoming : Bytes
  printed : Bytes
  sent : Bytes
  calls : List Call
  replies : List Bytes
  delivered : Bytes
  cut : Bool

def boot (command : Bytes) (fd : Nat) (server : Server) : Session :=
  ⟨command,.starting,.pending,connected fd [],server,[],[],[],[],[],[],false⟩

-- `elsewhere` is whatever the other clients, the actions service and the state
-- service do under the mutex.
inductive Event where
  | connect (outcome : Except Bytes Unit)
  | send (outcome : Sent)
  | receive (outcome : Received)
  | print (outcome : Sent)
  | accept (kept : Bool)
  | read (outcome : Received) (allocated : Bool)
  | answer (outcome : Sent)
  | broadcast (allocated : Bool)
  | drop
  | elsewhere (server : Server)

def responseSize : Nat := 4096

def connect (s : Session) (outcome : Except Bytes Unit) : Session :=
  if !requestable s.command then { s with client := .ended .unsupported }
  else match outcome with
    | .error error => { s with client := .ended (.unconnected error) }
    | .ok _ => { s with client := .sending s.command [newline] }

def deliver (c : Connection) (data : Bytes) : Connection := { c with stream := c.stream ++ data }

def send (s : Session) (left rest : Bytes) : Sent → Session
  | .taken count =>
    { s with
      connection := deliver s.connection (left.take count)
      sent := s.sent ++ left.take count
      client :=
        if left.drop count ≠ [] then .sending (left.drop count) rest
        else if rest ≠ [] then .sending rest []
        else .receiving }
  | .interrupted => s
  | .failed error => { s with client := .ended (.unsent error) }

def receive (s : Session) : Received → Session
  | .bytes extra =>
    let data := s.incoming.take (min (extra + 1) responseSize)
    if data = [] then s else { s with incoming := s.incoming.drop data.length, client := .printing data }
  | .closed => { s with client := .ended .answered }
  | .interrupted => s
  | .failed error => { s with client := .ended (.unread error) }

def print (s : Session) (left : Bytes) : Sent → Session
  | .taken count =>
    { s with
      printed := s.printed ++ left.take count
      client := if left.drop count = [] then .receiving else .printing (left.drop count) }
  | .interrupted => s
  | .failed error => { s with client := .ended (.unprinted error) }

def begin (s : Session) (reply : Bytes) (closing : Bool) : Session :=
  { s with serving := .answering reply closing, replies := s.replies ++ [reply] }

def sendSnapshot (s : Session) (format : Format) (allocated closing : Bool) : Session :=
  if !allocated && copySnapshot s.server format != [] then { s with serving := .closed }
  else begin s (snapshotText format (copySnapshot s.server format)) closing

def respond (s : Session) (line : Bytes) (allocated : Bool) : Session :=
  match recognise line with
  | .snapshot format => sendSnapshot s format allocated true
  | .subscribe format => sendSnapshot s format allocated false
  | .enqueue command =>
    let (server,queued) := enqueueAction s.server command
    begin { s with server := server, calls := s.calls ++ [⟨command,queued⟩] } (queueAnswer queued) true
  | .unknown | .incomplete => begin s unknownCommand true

-- One turn of the loop of read_command.
def read (s : Session) (outcome : Received) (allocated : Bool) : Session :=
  if commandCapacity - 1 ≤ s.connection.client.commandSize then { s with serving := .closed }
  else match outcome with
    | .bytes extra =>
      if piece s.connection extra = [] then s
      else
        let next := (handle (store s.connection (piece s.connection extra)) true).1
        match next.executed with
        | [] => { s with connection := next }
        | line :: _ => respond { s with connection := next } line allocated
    | .interrupted => s
    | .closed | .failed _ => { s with serving := .closed }

def answer (s : Session) (left : Bytes) (closing : Bool) : Sent → Session
  | .taken count =>
    { s with
      incoming := s.incoming ++ left.take count
      delivered := s.delivered ++ left.take count
      serving :=
        if left.drop count ≠ [] then .answering (left.drop count) closing
        else if closing then .closed
        else .subscribed }
  | .interrupted => s
  | .failed _ => { s with serving := .closed, cut := true }

def apply (s : Session) : Event → Session
  | .connect outcome => match s.client with
    | .starting => connect s outcome
    | _ => s
  | .send outcome => match s.client with
    | .sending left rest => send s left rest outcome
    | _ => s
  | .receive outcome => match s.client with
    | .receiving => receive s outcome
    | _ => s
  | .print outcome => match s.client with
    | .printing left => print s left outcome
    | _ => s
  | .accept kept => match s.serving with
    | .pending => { s with serving := if kept then .reading else .closed }
    | _ => s
  | .read outcome allocated => match s.serving with
    | .reading => read s outcome allocated
    | _ => s
  | .answer outcome => match s.serving with
    | .answering left closing => answer s left closing outcome
    | _ => s
  | .broadcast allocated => match s.serving with
    | .subscribed => sendSnapshot s s.connection.client.format allocated false
    | _ => s
  | .drop => match s.serving with
    | .answering _ _ => s
    | _ => { s with serving := .closed }
  | .elsewhere server => { s with server := server }

-- Ended before anything was sent whole.
def Outcome.early : Outcome → Bool
  | .unsupported | .unconnected _ | .unsent _ => true
  | .answered | .unread _ | .unprinted _ => false

def Client.connected : Client → Bool
  | .starting | .ended .unsupported | .ended (.unconnected _) => false
  | _ => true

def Client.isEnded : Client → Bool
  | .ended _ => true
  | _ => false

-- There is something to accept or to drop once the client has connected, and an
-- end is received when the other side has closed and all it sent has come in.
def Possible (s : Session) : Event → Prop
  | .receive .closed => s.serving = .closed ∧ s.incoming = []
  | .read .closed _ => s.client.isEnded = true ∧ s.connection.stream = []
  | .send (.taken count) | .print (.taken count) | .answer (.taken count) => 0 < count
  | .accept _ | .drop => s.client.connected = true
  | _ => True

instance (s : Session) : ∀ event, Decidable (Possible s event)
  | .receive .closed => inferInstanceAs (Decidable (_ ∧ _))
  | .receive (.bytes _) | .receive .interrupted | .receive (.failed _) => inferInstanceAs (Decidable True)
  | .read .closed _ => inferInstanceAs (Decidable (_ ∧ _))
  | .read (.bytes _) _ | .read .interrupted _ | .read (.failed _) _ => inferInstanceAs (Decidable True)
  | .send (.taken _) | .print (.taken _) | .answer (.taken _) => inferInstanceAs (Decidable (_ < _))
  | .send .interrupted | .send (.failed _) | .print .interrupted | .print (.failed _) | .answer .interrupted
  | .answer (.failed _) => inferInstanceAs (Decidable True)
  | .accept _ | .drop => inferInstanceAs (Decidable (_ = _))
  | .connect _ | .broadcast _ | .elsewhere _ => inferInstanceAs (Decidable True)

-- The line the daemon is to make out.
def line (command : Bytes) : Bytes := command.takeWhile (· != newline)

def meaning (s : Session) : Answer := recognise (line s.command)

-- What a client waiting for an answer waits for.
def Owed (s : Session) : Prop :=
  match s.serving with
  | .pending | .closed => True
  | .reading => s.connection.stream ≠ []
  | .answering left _ => left ≠ []
  | .subscribed => ∃ format, meaning s = .subscribe format

structure Faithful (s : Session) : Prop where
  once : s.calls = [] ∨ ∃ queued, s.calls = [⟨line s.command,queued⟩]
  heard : s.calls ≠ [] ∨ s.replies ≠ [] →
    line s.command ++ [newline] <+: s.sent ∧ (line s.command).length < commandCapacity - 1
  understood : s.sent ≠ [] → meaning s ≠ .unknown ∧ meaning s ≠ .incomplete
  reported : meaning s = .enqueue (line s.command) → s.replies = s.calls.map (fun call => queueAnswer call.queued)
  believed : meaning s = .enqueue (line s.command) →
    (accepted <+: s.printed → s.calls = [⟨line s.command,true⟩]) ∧ (busy <+: s.printed → s.calls = [⟨line s.command,false⟩])
  formatted : ∀ format, meaning s = .snapshot format ∨ meaning s = .subscribe format →
    s.calls = [] ∧ ∀ reply ∈ s.replies, ∃ copied, reply = snapshotText format copied
  shown : s.printed <+: s.replies.flatten
  early : ∀ outcome, s.client = .ended outcome → outcome.early = true → newline ∉ s.command →
    s.calls = [] ∧ s.replies = [] ∧ s.printed = []
  complete : s.client = .ended .answered →
    s.sent = s.command ++ [newline] ∧ (s.cut = false → s.printed = s.replies.flatten)
  waits : s.client = .receiving → s.incoming = [] → Owed s

-- How far the client is with its line.
inductive Stage where
  | apart
  | under (left : Bytes)
  | broken
  | whole

def Client.stage : Client → Stage
  | .starting | .ended .unsupported | .ended (.unconnected _) => .apart
  | .sending left rest => .under (left ++ rest)
  | .ended (.unsent _) => .broken
  | .receiving | .printing _ | .ended .answered | .ended (.unread _) | .ended (.unprinted _) => .whole

def Sends (command sent : Bytes) (serving : Serving) : Stage → Prop
  | .apart => sent = [] ∧ serving = .pending
  | .under left => requestable command = true ∧ left ≠ [] ∧ sent ++ left = command ++ [newline]
  | .broken => requestable command = true ∧ ∃ left, left ≠ [] ∧ sent ++ left = command ++ [newline]
  | .whole => requestable command = true ∧ sent = command ++ [newline]

structure Unheard (sent : Bytes) (connection : Connection) (serving : Serving) (calls : List Call)
    (replies : List Bytes) : Prop where
  waiting : Waiting sent connection
  uncalled : calls = []
  unanswered : replies = []
  quiet : serving = .pending ∨ serving = .reading ∨ serving = .closed

def Replied (answer : Answer) (format : Format) (calls : List Call) (replies : List Bytes) : Prop :=
  match answer with
  | .enqueue command => ∃ queued, calls = [⟨command,queued⟩] ∧ replies = [queueAnswer queued]
  | .snapshot asked => calls = [] ∧ ∀ reply ∈ replies, ∃ copied, reply = snapshotText asked copied
  | .subscribe asked => (calls = [] ∧ ∀ reply ∈ replies, ∃ copied, reply = snapshotText asked copied) ∧ format = asked
  | .unknown | .incomplete => False

structure Heard (command sent : Bytes) (connection : Connection) (serving : Serving) (calls : List Call)
    (replies : List Bytes) : Prop where
  done : Done sent (line command) connection
  beyond : serving ≠ .pending ∧ serving ≠ .reading
  replied : Replied (recognise (line command)) connection.client.format calls replies
  streams : serving = .subscribed ∨ (∃ left, serving = .answering left false) →
    ∃ format, recognise (line command) = .subscribe format

-- What has gone out of the answers begun.
structure Flow (serving : Serving) (replies : List Bytes) (delivered : Bytes) (cut : Bool) : Prop where
  begun : ∀ left closing, serving = .answering left closing → left ≠ [] ∧ delivered ++ left = replies.flatten
  idle : serving = .subscribed → delivered = replies.flatten
  part : delivered <+: replies.flatten
  uncut : serving = .closed → cut = false → delivered = replies.flatten

def Shown (serving : Serving) (delivered incoming printed : Bytes) : Client → Prop
  | .printing left => printed ++ (left ++ incoming) = delivered
  | .ended .answered => printed = delivered ∧ serving = .closed
  | .ended _ => printed <+: delivered
  | .starting | .sending _ _ | .receiving => printed ++ incoming = delivered

structure Invariant (s : Session) : Prop where
  free : 0 ∉ s.command
  sends : Sends s.command s.sent s.serving s.client.stage
  asked : Unheard s.sent s.connection s.serving s.calls s.replies ∨
    Heard s.command s.sent s.connection s.serving s.calls s.replies
  flow : Flow s.serving s.replies s.delivered s.cut
  shown : Shown s.serving s.delivered s.incoming s.printed s.client

theorem line_first {command : Bytes} (free : 0 ∉ command) : FirstLine (command ++ [newline]) (line command) where
  single member := by
    have kept := List.mem_takeWhile_imp member
    simp at kept
  string member := free ((List.takeWhile_prefix _).subset member)
  ended := by
    by_cases inside : newline ∈ command
    · obtain ⟨before,after,rfl,single⟩ := List.eq_append_cons_of_mem inside
      have taken : line (before ++ newline :: after) = before := by
        rw [line,List.takeWhile_append_of_pos,List.takeWhile_cons_of_neg (by simp),List.append_nil]
        intro b member
        rw [bne_iff_ne]
        rintro rfl
        exact single member
      rw [taken]
      exact ⟨after ++ [newline],by simp⟩
    · have whole : line command = command := by
        refine List.takeWhile_eq_self_iff.mpr fun b member => ?_
        rw [bne_iff_ne]
        rintro rfl
        exact inside member
      rw [whole]

theorem requestable_line {command : Bytes} (allowed : requestable command = true) :
    recognise (line command) ≠ .unknown ∧ recognise (line command) ≠ .incomplete := by
  simp only [requestable,Bool.or_eq_true,beq_iff_eq] at allowed
  rcases allowed with (((((rfl | rfl) | rfl) | rfl) | rfl) | rfl) | lead
  · decide
  · decide
  · decide
  · decide
  · decide
  · decide
  · obtain ⟨rest,rfl⟩ := List.isPrefixOf_iff_prefix.mp lead
    have kept : line (text "dispatch " ++ rest) = text "dispatch " ++ line rest :=
      List.takeWhile_append_of_pos (List.all_eq_true.mp (rfl : (text "dispatch ").all (· != newline) = true))
    rw [kept,recognise_dispatch (List.prefix_append _ _)]
    exact ⟨by simp,by simp⟩

theorem recognise_enqueue {command asked : Bytes} (found : recognise command = .enqueue asked) : asked = command := by
  unfold recognise at found
  repeat' split at found
  all_goals cases found
  all_goals rfl

variable {command sent : Bytes} {serving : Serving} {stage : Stage}

theorem Sends.within (sends : Sends command sent serving stage) : sent <+: command ++ [newline] := by
  cases stage with
  | apart => exact sends.1 ▸ List.nil_prefix
  | under left => exact ⟨left,sends.2.2⟩
  | broken =>
    obtain ⟨_,left,_,whole⟩ := sends
    exact ⟨left,whole⟩
  | whole => exact sends.2 ▸ List.prefix_refl _

theorem Sends.allowed (sends : Sends command sent serving stage) (some : sent ≠ []) : requestable command = true := by
  cases stage with
  | apart => exact absurd sends.1 some
  | under left => exact sends.1
  | broken => exact sends.1
  | whole => exact sends.1

-- Where the daemon stands matters only to a client that never connected.
theorem Sends.moved (sends : Sends command sent serving stage) {later : Serving} (joined : stage ≠ .apart) :
    Sends command sent later stage := by
  cases stage with
  | apart => exact absurd rfl joined
  | under left => exact sends
  | broken => exact sends
  | whole => exact sends

theorem Sends.joined (sends : Sends command sent serving stage) (apart : serving ≠ .pending) : stage ≠ .apart := by
  rintro rfl
  exact apart sends.2

theorem connected_joined {client : Client} (connected : client.connected = true) : client.stage ≠ .apart := by
  intro apart
  unfold Client.stage at apart
  split at apart <;> cases apart <;> cases connected

theorem boot_invariant {command : Bytes} (free : 0 ∉ command) (fd : Nat) (server : Server) :
    Invariant (boot command fd server) where
  free := free
  sends := ⟨rfl,rfl⟩
  asked := .inl ⟨connected_waiting fd [],rfl,rfl,.inl rfl⟩
  flow := ⟨by simp [boot],by simp [boot],List.prefix_refl _,by simp [boot]⟩
  shown := rfl

variable {s : Session}

theorem connect_invariant (invariant : Invariant s) (starting : s.client = .starting) (outcome : Except Bytes Unit) :
    Invariant (connect s outcome) := by
  obtain ⟨free,sends,asked,flow,shown⟩ := invariant
  rw [starting] at sends shown
  obtain ⟨none,waiting⟩ := sends
  have nothing : s.printed <+: s.delivered := ⟨s.incoming,shown⟩
  unfold connect
  split
  · exact ⟨free,⟨none,waiting⟩,asked,flow,nothing⟩
  · rename_i allowed
    simp only [Bool.not_eq_true',Bool.not_eq_false] at allowed
    cases outcome with
    | error error => exact ⟨free,⟨none,waiting⟩,asked,flow,nothing⟩
    | ok _ =>
      refine ⟨free,⟨allowed,by simp,?_⟩,asked,flow,shown⟩
      rw [none]
      rfl

theorem deliver_recorded {stream : Bytes} {c : Connection} (recorded : Recorded stream c) (data : Bytes) :
    Recorded (stream ++ data) (deliver c data) where
  whole := by
    rw [← recorded.whole,List.append_assoc]
    rfl
  short := recorded.short
  stored := recorded.stored
  terminated := recorded.terminated

theorem deliver_asked {connection : Connection} {calls : List Call} {replies : List Bytes} (data : Bytes)
    (asked : Unheard sent connection serving calls replies ∨ Heard command sent connection serving calls replies) :
    Unheard (sent ++ data) (deliver connection data) serving calls replies ∨
      Heard command (sent ++ data) (deliver connection data) serving calls replies := by
  rcases asked with unheard | heard
  · obtain ⟨waiting,uncalled,unanswered,quiet⟩ := unheard
    have more : Waiting (sent ++ data) (deliver connection data) :=
      ⟨deliver_recorded waiting.toRecorded data,waiting.buffered,waiting.lineless,waiting.unsubscribed,waiting.idle⟩
    exact .inl ⟨more,uncalled,unanswered,quiet⟩
  · obtain ⟨done,beyond,replied,streams⟩ := heard
    exact .inr ⟨⟨deliver_recorded done.toRecorded data,done.first,done.once⟩,beyond,replied,streams⟩

theorem send_invariant (invariant : Invariant s) {left rest : Bytes} (sending : s.client = .sending left rest)
    (outcome : Sent) : Invariant (send s left rest outcome) := by
  cases outcome with
  | interrupted => exact invariant
  | failed error =>
    obtain ⟨free,sends,asked,flow,shown⟩ := invariant
    rw [sending] at sends shown
    obtain ⟨allowed,unsent,whole⟩ := sends
    exact ⟨free,⟨allowed,_,unsent,whole⟩,asked,flow,⟨s.incoming,shown⟩⟩
  | taken count =>
    obtain ⟨free,sends,asked,flow,shown⟩ := invariant
    rw [sending] at sends shown
    obtain ⟨allowed,unsent,whole⟩ := sends
    have parts : s.sent ++ left.take count ++ (left.drop count ++ rest) = s.command ++ [newline] := by
      rw [← whole,List.append_assoc,← List.append_assoc (left.take count),List.take_append_drop]
    unfold send
    dsimp only
    by_cases more : left.drop count ≠ []
    · rw [if_pos more]
      exact ⟨free,⟨allowed,by simp [more],parts⟩,deliver_asked _ asked,flow,shown⟩
    · rw [if_neg more]
      rw [not_not] at more
      rw [more,List.nil_append] at parts
      by_cases next : rest ≠ []
      · rw [if_pos next]
        exact ⟨free,⟨allowed,by simpa using next,by rw [List.append_nil]; exact parts⟩,deliver_asked _ asked,flow,shown⟩
      · rw [if_neg next]
        rw [not_not] at next
        rw [next,List.append_nil] at parts
        exact ⟨free,⟨allowed,parts⟩,deliver_asked _ asked,flow,shown⟩

theorem receive_invariant (invariant : Invariant s) (receiving : s.client = .receiving) {outcome : Received}
    (possible : Possible s (.receive outcome)) : Invariant (receive s outcome) := by
  obtain ⟨free,sends,asked,flow,shown⟩ := invariant
  rw [receiving] at sends shown
  cases outcome with
  | interrupted => exact ⟨free,by rw [receive,receiving]; exact sends,asked,flow,by rw [receive,receiving]; exact shown⟩
  | failed error => exact ⟨free,sends,asked,flow,⟨s.incoming,shown⟩⟩
  | closed =>
    obtain ⟨closed,none⟩ := possible
    have whole : s.printed ++ s.incoming = s.delivered := shown
    rw [none,List.append_nil] at whole
    exact ⟨free,sends,asked,flow,whole,closed⟩
  | bytes extra =>
    unfold receive
    dsimp only
    split
    · exact ⟨free,by rw [receiving]; exact sends,asked,flow,by rw [receiving]; exact shown⟩
    · refine ⟨free,sends,asked,flow,?_⟩
      have rejoined : s.incoming.take (min (extra + 1) responseSize) ++
          s.incoming.drop (s.incoming.take (min (extra + 1) responseSize)).length = s.incoming :=
        List.prefix_iff_eq_append.mp (List.take_prefix _ _)
      dsimp only [Shown]
      rw [rejoined]
      exact shown

theorem print_invariant (invariant : Invariant s) {left : Bytes} (printing : s.client = .printing left) (outcome : Sent) :
    Invariant (print s left outcome) := by
  obtain ⟨free,sends,asked,flow,shown⟩ := invariant
  rw [printing] at sends shown
  cases outcome with
  | interrupted => exact ⟨free,by rw [print,printing]; exact sends,asked,flow,by rw [print,printing]; exact shown⟩
  | failed error => exact ⟨free,sends,asked,flow,⟨_,shown⟩⟩
  | taken count =>
    have parts : s.printed ++ left.take count ++ (left.drop count ++ s.incoming) = s.delivered := by
      rw [List.append_assoc,← List.append_assoc (left.take count),List.take_append_drop]
      exact shown
    unfold print
    dsimp only
    split
    · rename_i none
      rw [none,List.nil_append] at parts
      exact ⟨free,sends,asked,flow,parts⟩
    · exact ⟨free,sends,asked,flow,parts⟩

theorem Shown.kept {serving later : Serving} {delivered incoming printed : Bytes} {client : Client}
    (shown : Shown serving delivered incoming printed client) (still : serving = .closed → later = .closed) :
    Shown later delivered incoming printed client := by
  cases client with
  | starting => exact shown
  | sending left rest => exact shown
  | receiving => exact shown
  | printing left => exact shown
  | ended outcome =>
    cases outcome with
    | answered => exact ⟨shown.1,still shown.2⟩
    | unsupported => exact shown
    | unconnected error => exact shown
    | unsent error => exact shown
    | unread error => exact shown
    | unprinted error => exact shown

theorem Shown.more {serving later : Serving} {delivered incoming printed : Bytes} {client : Client}
    (shown : Shown serving delivered incoming printed client) (open' : serving ≠ .closed) (data : Bytes) :
    Shown later (delivered ++ data) (incoming ++ data) printed client := by
  have behind : ∀ outcome, printed <+: delivered → outcome ≠ Outcome.answered →
      Shown later (delivered ++ data) (incoming ++ data) printed (.ended outcome) := by
    intro outcome earlier other
    have grown := earlier.trans (List.prefix_append delivered data)
    cases outcome with
    | answered => exact absurd rfl other
    | unsupported => exact grown
    | unconnected error => exact grown
    | unsent error => exact grown
    | unread error => exact grown
    | unprinted error => exact grown
  cases client with
  | starting => exact (List.append_assoc _ _ _).symm.trans (congrArg (· ++ data) shown)
  | sending left rest => exact (List.append_assoc _ _ _).symm.trans (congrArg (· ++ data) shown)
  | receiving => exact (List.append_assoc _ _ _).symm.trans (congrArg (· ++ data) shown)
  | printing left =>
    have whole : printed ++ (left ++ incoming) = delivered := shown
    rw [Shown,← whole]
    simp only [List.append_assoc]
  | ended outcome =>
    cases outcome with
    | answered => exact absurd shown.2 open'
    | unsupported => exact behind _ shown (by simp)
    | unconnected error => exact behind _ shown (by simp)
    | unsent error => exact behind _ shown (by simp)
    | unread error => exact behind _ shown (by simp)
    | unprinted error => exact behind _ shown (by simp)

-- Closing a connection on which no answer is under way.
theorem closed_invariant (invariant : Invariant s) (joined : s.client.stage ≠ .apart)
    (idle : ∀ left closing, s.serving ≠ .answering left closing) : Invariant { s with serving := .closed } := by
  obtain ⟨free,sends,asked,flow,shown⟩ := invariant
  refine ⟨free,sends.moved joined,?_,⟨by simp,by simp,flow.part,?_⟩,shown.kept fun _ => rfl⟩
  · rcases asked with unheard | heard
    · exact .inl ⟨unheard.waiting,unheard.uncalled,unheard.unanswered,.inr (.inr rfl)⟩
    · exact .inr ⟨heard.done,⟨by simp,by simp⟩,heard.replied,by simp⟩
  · intro _ uncut
    cases serving : s.serving with
    | answering left closing => exact absurd serving (idle left closing)
    | subscribed => exact flow.idle serving
    | closed => exact flow.uncut serving uncut
    | pending =>
      rcases asked with unheard | heard
      · have none := flow.part
        rw [unheard.unanswered] at none ⊢
        exact List.prefix_nil.mp none
      · exact absurd serving heard.beyond.1
    | reading =>
      rcases asked with unheard | heard
      · have none := flow.part
        rw [unheard.unanswered] at none ⊢
        exact List.prefix_nil.mp none
      · exact absurd serving heard.beyond.2

theorem accept_invariant (invariant : Invariant s) (joined : s.client.stage ≠ .apart) (pending : s.serving = .pending) :
    Invariant { s with serving := .reading } := by
  obtain ⟨free,sends,asked,flow,shown⟩ := invariant
  refine ⟨free,sends.moved joined,?_,⟨by simp,by simp,flow.part,by simp⟩,shown.kept fun closed => ?_⟩
  · rcases asked with unheard | heard
    · exact .inl ⟨unheard.waiting,unheard.uncalled,unheard.unanswered,.inr (.inl rfl)⟩
    · exact absurd pending heard.beyond.1
  · rw [pending] at closed
    cases closed

theorem answer_invariant (invariant : Invariant s) {left : Bytes} {closing : Bool}
    (answering : s.serving = .answering left closing) (outcome : Sent) : Invariant (answer s left closing outcome) := by
  have joined := invariant.sends.joined (by rw [answering]; simp)
  have heard : Heard s.command s.sent s.connection s.serving s.calls s.replies := by
    rcases invariant.asked with unheard | heard
    · rcases unheard.quiet with quiet | quiet | quiet <;> rw [answering] at quiet <;> cases quiet
    · exact heard
  obtain ⟨some,whole⟩ := invariant.flow.begun left closing answering
  obtain ⟨free,sends,_,flow,shown⟩ := invariant
  have opened : s.serving ≠ .closed := by
    rw [answering]
    simp
  cases outcome with
  | interrupted => exact ⟨free,sends,.inr heard,flow,shown⟩
  | failed error =>
    exact ⟨free,sends.moved joined,.inr ⟨heard.done,⟨by simp [answer],by simp [answer]⟩,heard.replied,by simp [answer]⟩,
      ⟨by simp [answer],by simp [answer],flow.part,by simp [answer]⟩,shown.kept fun _ => rfl⟩
  | taken count =>
    have parts : s.delivered ++ left.take count ++ left.drop count = s.replies.flatten := by
      rw [List.append_assoc,List.take_append_drop]
      exact whole
    unfold answer
    dsimp only
    by_cases more : left.drop count ≠ []
    · rw [if_pos more]
      refine ⟨free,sends.moved joined,.inr ⟨heard.done,⟨by simp,by simp⟩,heard.replied,?_⟩,?_,shown.more opened _⟩
      · rintro (impossible | ⟨rest,same⟩)
        · cases impossible
        · cases same
          exact heard.streams (.inr ⟨left,answering⟩)
      · refine ⟨?_,by simp,⟨_,parts⟩,by simp⟩
        intro rest last same
        cases same
        exact ⟨more,parts⟩
    · rw [if_neg more]
      rw [not_not] at more
      rw [more,List.append_nil] at parts
      cases closing with
      | true =>
        exact ⟨free,sends.moved joined,.inr ⟨heard.done,⟨by simp,by simp⟩,heard.replied,by simp⟩,
          ⟨by simp,by simp,⟨[],by rw [List.append_nil]; exact parts⟩,fun _ _ => parts⟩,shown.more opened _⟩
      | false =>
        exact ⟨free,sends.moved joined,.inr ⟨heard.done,⟨by simp,by simp⟩,heard.replied,
            fun _ => heard.streams (.inr ⟨left,answering⟩)⟩,
          ⟨by simp,fun _ => parts,⟨[],by rw [List.append_nil]; exact parts⟩,by simp⟩,shown.more opened _⟩

theorem snapshotText_some (format : Format) (copied : Bytes) : snapshotText format copied ≠ [] := by
  unfold snapshotText
  split
  · cases format <;> decide
  · assumption

theorem queueAnswer_some (queued : Bool) : queueAnswer queued ≠ [] := by
  cases queued <;> decide

theorem begin_flow {replies : List Bytes} {delivered reply : Bytes} {cut closing : Bool}
    (all : delivered = replies.flatten) (some : reply ≠ []) :
    Flow (.answering reply closing) (replies ++ [reply]) delivered cut where
  begun left last same := by
    cases same
    exact ⟨some,by simp [all]⟩
  idle := by simp
  part := by simp [all]
  uncut := by simp

theorem broadcast_invariant (invariant : Invariant s) (subscribed : s.serving = .subscribed) (allocated : Bool) :
    Invariant (sendSnapshot s s.connection.client.format allocated false) := by
  have joined := invariant.sends.joined (by rw [subscribed]; simp)
  unfold sendSnapshot
  split
  · exact closed_invariant invariant joined (by rw [subscribed]; simp)
  · have all := invariant.flow.idle subscribed
    obtain ⟨free,sends,asked,_,shown⟩ := invariant
    have heard : Heard s.command s.sent s.connection s.serving s.calls s.replies := by
      rcases asked with unheard | heard
      · rcases unheard.quiet with quiet | quiet | quiet <;> rw [subscribed] at quiet <;> cases quiet
      · exact heard
    obtain ⟨format,meant⟩ := heard.streams (.inl subscribed)
    have replied := heard.replied
    rw [meant] at replied
    obtain ⟨⟨uncalled,formatted⟩,same⟩ := replied
    refine ⟨free,sends.moved joined,.inr ⟨heard.done,⟨by simp [begin],by simp [begin]⟩,?_,fun _ => ⟨format,meant⟩⟩,
      begin_flow all (snapshotText_some _ _),shown.kept fun closed => ?_⟩
    · dsimp only [begin]
      rw [meant]
      refine ⟨⟨uncalled,fun reply listed => ?_⟩,same⟩
      rcases List.mem_append.mp listed with earlier | last
      · exact formatted reply earlier
      · rw [List.mem_singleton.mp last,same]
        exact ⟨_,rfl⟩
    · rw [subscribed] at closed
      cases closed

-- A line made out, and nothing answered yet.
structure Understood (s : Session) : Prop where
  free : 0 ∉ s.command
  sends : Sends s.command s.sent s.serving s.client.stage
  done : Done s.sent (line s.command) s.connection
  uncalled : s.calls = []
  unanswered : s.replies = []
  undelivered : s.delivered = []
  reading : s.serving = .reading
  shown : Shown s.serving s.delivered s.incoming s.printed s.client
  format : ∀ format, recognise (line s.command) = .subscribe format → s.connection.client.format = format

theorem Understood.snapshot (understood : Understood s) {format : Format} {allocated closing : Bool}
    (meant : recognise (line s.command) = .snapshot format ∧ closing = true ∨
      recognise (line s.command) = .subscribe format ∧ closing = false) :
    Invariant (sendSnapshot s format allocated closing) := by
  obtain ⟨free,sends,done,uncalled,unanswered,undelivered,reading,shown,formatted⟩ := understood
  have joined := sends.joined (by rw [reading]; simp)
  have later : ∀ serving, Shown serving s.delivered s.incoming s.printed s.client := by
    intro serving
    refine shown.kept fun closed => ?_
    rw [reading] at closed
    cases closed
  have replied : ∀ replies : List Bytes, (∀ reply ∈ replies, ∃ copied, reply = snapshotText format copied) →
      Replied (recognise (line s.command)) s.connection.client.format s.calls replies := by
    intro replies each
    rcases meant with ⟨meant,_⟩ | ⟨meant,_⟩ <;> rw [meant]
    · exact ⟨uncalled,each⟩
    · exact ⟨⟨uncalled,each⟩,formatted format meant⟩
  have all : s.delivered = s.replies.flatten := by
    rw [undelivered,unanswered]
    rfl
  unfold sendSnapshot
  split
  · exact ⟨free,sends.moved joined,.inr ⟨done,⟨by simp,by simp⟩,replied _ (by simp [unanswered]),by simp⟩,
      ⟨by simp,by simp,⟨[],by rw [List.append_nil]; exact all⟩,fun _ _ => all⟩,later _⟩
  · refine ⟨free,sends.moved joined,.inr ⟨done,⟨by simp [begin],by simp [begin]⟩,replied _ ?_,?_⟩,
      begin_flow all (snapshotText_some _ _),later _⟩
    · intro reply listed
      dsimp only [begin] at listed
      rw [unanswered] at listed
      exact ⟨_,List.mem_singleton.mp listed⟩
    · rintro (impossible | ⟨left,same⟩)
      · cases impossible
      · cases same
        rcases meant with ⟨_,impossible⟩ | ⟨meant,_⟩
        · cases impossible
        · exact ⟨format,meant⟩

theorem respond_invariant (understood : Understood s) (allocated : Bool) :
    Invariant (respond s (line s.command) allocated) := by
  have sent : s.sent ≠ [] := by
    have ended := understood.done.commands.1.1.ended.length_le
    rintro none
    rw [none,List.length_append] at ended
    exact absurd ended (Nat.not_succ_le_zero _)
  obtain ⟨known,complete⟩ := requestable_line (understood.sends.allowed sent)
  unfold respond
  cases meant : recognise (line s.command) with
  | unknown => exact absurd meant known
  | incomplete => exact absurd meant complete
  | snapshot format => exact understood.snapshot (.inl ⟨meant,rfl⟩)
  | subscribe format => exact understood.snapshot (.inr ⟨meant,rfl⟩)
  | enqueue asked =>
    obtain ⟨free,sends,done,uncalled,unanswered,undelivered,reading,shown,_⟩ := understood
    have joined := sends.joined (by rw [reading]; simp)
    have all : s.delivered = s.replies.flatten := by
      rw [undelivered,unanswered]
      rfl
    refine ⟨free,sends.moved joined,.inr ⟨done,⟨by simp [begin],by simp [begin]⟩,?_,by simp [begin]⟩,
      begin_flow all (queueAnswer_some _),shown.kept fun closed => ?_⟩
    · dsimp only [begin]
      rw [meant,uncalled,unanswered]
      exact ⟨(enqueueAction s.server asked).2,rfl,rfl⟩
    · rw [reading] at closed
      cases closed

theorem handled_format {client : ControlClient} {received made : Bytes} {format : Format} (buffered : Buffered client received)
    (first : FirstLine received made) (meant : recognise made = .subscribe format) :
    (CommandReader.handleCommand client true).1.format = format := by
  have executed := (handleCommand_executes buffered first true).1
  revert executed
  unfold CommandReader.handleCommand
  dsimp only
  split
  · split <;> rename_i answered <;> intro executed <;> rw [Option.some.inj executed,meant] at answered <;> cases answered
    rfl
  · intro executed
    cases executed

theorem read_invariant (invariant : Invariant s) (reading : s.serving = .reading) {outcome : Received} (allocated : Bool) :
    Invariant (read s outcome allocated) := by
  have joined := invariant.sends.joined (by rw [reading]; simp)
  have closing : Invariant { s with serving := .closed } :=
    closed_invariant invariant joined (by rw [reading]; simp)
  unfold read
  split
  · exact closing
  · cases outcome with
    | interrupted => exact invariant
    | closed => exact closing
    | failed error => exact closing
    | bytes extra =>
      dsimp only
      split
      · exact invariant
      · obtain ⟨free,sends,asked,flow,shown⟩ := invariant
        have unheard : Unheard s.sent s.connection s.serving s.calls s.replies := by
          rcases asked with unheard | heard
          · exact unheard
          · exact absurd reading heard.beyond.2
        obtain ⟨waiting,uncalled,unanswered,quiet⟩ := unheard
        obtain ⟨_,still | ⟨made,done,_⟩⟩ := handle_piece waiting extra true
        · rw [still.1.idle]
          exact ⟨free,sends,.inl ⟨still.1,uncalled,unanswered,quiet⟩,flow,shown⟩
        · have same : made = line s.command :=
            (done.commands.1.1.mono sends.within).unique (line_first free)
          subst same
          rw [done.once]
          have none : s.delivered = [] := by
            have part := flow.part
            rw [unanswered] at part
            exact List.prefix_nil.mp part
          refine respond_invariant (s := { s with connection := (handle (store s.connection (piece s.connection extra)) true).1 })
            ⟨free,sends,done,uncalled,unanswered,none,reading,shown,fun format meant => ?_⟩ allocated
          exact handled_format (store_buffered waiting extra) done.first meant

theorem apply_invariant (s : Session) (event : Event) (invariant : Invariant s) (possible : Possible s event) :
    Invariant (apply s event) := by
  cases event with
  | connect outcome =>
    cases client : s.client with
    | starting => simpa only [apply,client] using connect_invariant invariant client outcome
    | sending left rest => simpa only [apply,client] using invariant
    | receiving => simpa only [apply,client] using invariant
    | printing left => simpa only [apply,client] using invariant
    | ended outcome => simpa only [apply,client] using invariant
  | send outcome =>
    cases client : s.client with
    | sending left rest => simpa only [apply,client] using send_invariant invariant client outcome
    | starting => simpa only [apply,client] using invariant
    | receiving => simpa only [apply,client] using invariant
    | printing left => simpa only [apply,client] using invariant
    | ended outcome => simpa only [apply,client] using invariant
  | receive outcome =>
    cases client : s.client with
    | receiving => simpa only [apply,client] using receive_invariant invariant client possible
    | starting => simpa only [apply,client] using invariant
    | sending left rest => simpa only [apply,client] using invariant
    | printing left => simpa only [apply,client] using invariant
    | ended outcome => simpa only [apply,client] using invariant
  | print outcome =>
    cases client : s.client with
    | printing left => simpa only [apply,client] using print_invariant invariant client outcome
    | starting => simpa only [apply,client] using invariant
    | sending left rest => simpa only [apply,client] using invariant
    | receiving => simpa only [apply,client] using invariant
    | ended outcome => simpa only [apply,client] using invariant
  | accept kept =>
    have joined := connected_joined possible
    cases serving : s.serving with
    | pending =>
      cases kept with
      | true => simpa only [apply,serving,if_true] using accept_invariant invariant joined serving
      | false => simpa only [apply,serving,Bool.false_eq_true,if_false] using closed_invariant invariant joined (by rw [serving]; simp)
    | reading => simpa only [apply,serving] using invariant
    | answering left closing => simpa only [apply,serving] using invariant
    | subscribed => simpa only [apply,serving] using invariant
    | closed => simpa only [apply,serving] using invariant
  | read outcome allocated =>
    cases serving : s.serving with
    | reading => simpa only [apply,serving] using read_invariant invariant serving allocated
    | pending => simpa only [apply,serving] using invariant
    | answering left closing => simpa only [apply,serving] using invariant
    | subscribed => simpa only [apply,serving] using invariant
    | closed => simpa only [apply,serving] using invariant
  | answer outcome =>
    cases serving : s.serving with
    | answering left closing => simpa only [apply,serving] using answer_invariant invariant serving outcome
    | pending => simpa only [apply,serving] using invariant
    | reading => simpa only [apply,serving] using invariant
    | subscribed => simpa only [apply,serving] using invariant
    | closed => simpa only [apply,serving] using invariant
  | broadcast allocated =>
    cases serving : s.serving with
    | subscribed => simpa only [apply,serving] using broadcast_invariant invariant serving allocated
    | pending => simpa only [apply,serving] using invariant
    | reading => simpa only [apply,serving] using invariant
    | answering left closing => simpa only [apply,serving] using invariant
    | closed => simpa only [apply,serving] using invariant
  | drop =>
    have joined := connected_joined possible
    cases serving : s.serving with
    | answering left closing => simpa only [apply,serving] using invariant
    | pending => simpa only [apply,serving] using closed_invariant invariant joined (by rw [serving]; simp)
    | reading => simpa only [apply,serving] using closed_invariant invariant joined (by rw [serving]; simp)
    | subscribed => simpa only [apply,serving] using closed_invariant invariant joined (by rw [serving]; simp)
    | closed => simpa only [apply,serving] using closed_invariant invariant joined (by rw [serving]; simp)
  | elsewhere server =>
    obtain ⟨free,sends,asked,flow,shown⟩ := invariant
    exact ⟨free,sends,asked,flow,shown⟩

theorem Shown.behind {serving : Serving} {delivered incoming printed : Bytes} {client : Client}
    (shown : Shown serving delivered incoming printed client) : printed <+: delivered := by
  cases client with
  | starting => exact ⟨incoming,shown⟩
  | sending left rest => exact ⟨incoming,shown⟩
  | receiving => exact ⟨incoming,shown⟩
  | printing left => exact ⟨left ++ incoming,shown⟩
  | ended outcome =>
    cases outcome with
    | answered => exact shown.1 ▸ List.prefix_refl _
    | unsupported => exact shown
    | unconnected error => exact shown
    | unsent error => exact shown
    | unread error => exact shown
    | unprinted error => exact shown

theorem Invariant.shown' (invariant : Invariant s) : s.printed <+: s.replies.flatten :=
  invariant.shown.behind.trans invariant.flow.part

-- Nothing is made out of a line that has not gone out whole.
theorem Invariant.early (invariant : Invariant s) (unended : newline ∉ s.sent) :
    s.calls = [] ∧ s.replies = [] ∧ s.printed = [] := by
  rcases invariant.asked with unheard | heard
  · have printed := invariant.shown'
    rw [unheard.unanswered] at printed
    exact ⟨unheard.uncalled,unheard.unanswered,List.prefix_nil.mp printed⟩
  · have ended := heard.done.commands.1.1.ended
    exact absurd (ended.subset (List.mem_append_right _ (List.mem_singleton_self _))) unended

theorem early_unended {command sent : Bytes} {serving : Serving} {outcome : Outcome}
    (sends : Sends command sent serving (Client.ended outcome).stage) (early : outcome.early = true)
    (clean : newline ∉ command) : newline ∉ sent := by
  have apart : ∀ {stage : Stage}, Sends command sent serving stage → stage = .apart → newline ∉ sent := by
    rintro stage sends rfl
    rw [sends.1]
    exact List.not_mem_nil
  cases outcome with
  | unsupported => exact apart sends rfl
  | unconnected error => exact apart sends rfl
  | answered => cases early
  | unread error => cases early
  | unprinted error => cases early
  | unsent error =>
    obtain ⟨_,left,some,whole⟩ := sends
    obtain ⟨front,last,rfl⟩ := (List.eq_nil_or_concat' left).resolve_left some
    rw [← List.append_assoc] at whole
    have same := (List.append_inj' whole rfl).1
    intro member
    exact clean (same ▸ List.mem_append_left _ member)

theorem Invariant.owed (invariant : Invariant s) (receiving : s.client = .receiving) : Owed s := by
  have sends := invariant.sends
  rw [receiving] at sends
  obtain ⟨_,whole⟩ := sends
  unfold Owed
  cases serving : s.serving with
  | pending => trivial
  | closed => trivial
  | answering left closing => exact (invariant.flow.begun left closing serving).1
  | subscribed =>
    rcases invariant.asked with unheard | heard
    · rcases unheard.quiet with quiet | quiet | quiet <;> rw [serving] at quiet <;> cases quiet
    · exact heard.streams (.inl serving)
  | reading =>
    rcases invariant.asked with unheard | heard
    · have waiting := unheard.waiting
      intro none
      have received := waiting.whole
      rw [none,List.append_nil,whole] at received
      exact waiting.lineless _ (received ▸ line_first invariant.free)
    · exact absurd serving heard.beyond.2

theorem Invariant.faithful (invariant : Invariant s) : Faithful s where
  once := by
    rcases invariant.asked with unheard | heard
    · exact .inl unheard.uncalled
    · have replied := heard.replied
      cases meant : recognise (line s.command) with
      | unknown => rw [meant] at replied; exact replied.elim
      | incomplete => rw [meant] at replied; exact replied.elim
      | snapshot format => rw [meant] at replied; exact .inl replied.1
      | subscribe format => rw [meant] at replied; exact .inl replied.1.1
      | enqueue asked =>
        rw [meant] at replied
        obtain ⟨queued,called,_⟩ := replied
        rw [recognise_enqueue meant] at called
        exact .inr ⟨queued,called⟩
  heard acted := by
    rcases invariant.asked with unheard | heard
    · rcases acted with called | replied
      · exact absurd unheard.uncalled called
      · exact absurd unheard.unanswered replied
    · obtain ⟨first,short⟩ := heard.done.commands.1
      exact ⟨first.ended,Nat.lt_succ_of_le short⟩
  understood some := requestable_line (invariant.sends.allowed some)
  reported meant := by
    rcases invariant.asked with unheard | heard
    · rw [unheard.uncalled,unheard.unanswered]
      rfl
    · have replied := heard.replied
      rw [show recognise (line s.command) = .enqueue (line s.command) from meant] at replied
      obtain ⟨queued,called,answered⟩ := replied
      rw [called,answered]
      rfl
  believed meant := by
    have printed := invariant.shown'
    rcases invariant.asked with unheard | heard
    · rw [unheard.unanswered] at printed
      rw [List.prefix_nil.mp printed]
      exact ⟨fun shown => absurd shown (by decide),fun shown => absurd shown (by decide)⟩
    · have replied := heard.replied
      rw [show recognise (line s.command) = .enqueue (line s.command) from meant] at replied
      obtain ⟨queued,called,answered⟩ := replied
      rw [answered,List.flatten_singleton] at printed
      rw [called]
      cases queued with
      | true => exact ⟨fun _ => rfl,fun shown => absurd (shown.trans printed) (by decide)⟩
      | false => exact ⟨fun shown => absurd (shown.trans printed) (by decide),fun _ => rfl⟩
  formatted format meant := by
    rcases invariant.asked with unheard | heard
    · rw [unheard.unanswered]
      exact ⟨unheard.uncalled,by simp⟩
    · have replied := heard.replied
      unfold meaning at meant
      rcases meant with meant | meant <;> rw [meant] at replied
      · exact replied
      · exact replied.1
  shown := invariant.shown'
  early outcome ended early clean := by
    have sends := invariant.sends
    rw [ended] at sends
    exact invariant.early (early_unended sends early clean)
  complete ended := by
    have sends := invariant.sends
    have shown := invariant.shown
    rw [ended] at sends shown
    exact ⟨sends.2,fun uncut => shown.1.trans (invariant.flow.uncut shown.2 uncut)⟩
  waits receiving _ := invariant.owed receiving

-- One request, whatever the order of the steps of the two sides.
theorem session_faithful (argument : Bytes) (fd : Nat) (server : Server) (events : List Event)
    (possible : Runs.Each apply Possible (boot (cString argument) fd server) events) :
    Runs.Throughout apply Faithful (boot (cString argument) fd server) events :=
  Runs.throughout_imp (fun _ => Invariant.faithful)
    (Runs.throughout_invariant apply_invariant (boot_invariant (cString_free argument) fd server) possible)

-- The daemon reads the line in two parts and its answer is printed in three.
def requesting : List Event :=
  [.connect (.ok ()),.send (.taken 3),.accept true,.read (.bytes 9) true,.send (.taken 9),.send (.taken 1),.receive (.bytes 0),
   .read (.bytes 9) true,.answer (.taken 5),.receive (.bytes 99),.print (.taken 2),.answer .interrupted,.answer (.taken 99),
   .print (.taken 9),.receive (.bytes 99),.print (.taken 99),.receive .closed]

theorem requesting_faithful :
    Runs.Throughout apply Faithful (boot (cString (text "reload")) 5 (startSection zeroed)) requesting :=
  session_faithful (text "reload") 5 (startSection zeroed) requesting (by decide)

end Hypringo.ControlSession

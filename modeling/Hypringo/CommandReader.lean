import Hypringo.Control

namespace Hypringo.CommandReader
open Hypringo.Lua Control

-- struct control_client as it lies in memory.
structure ControlClient where
  fd : Nat
  subscribed : Bool
  format : Format
  command : Bytes
  commandSize : Nat

def accepted (fd : Nat) : ControlClient := ⟨fd,false,.default,List.replicate commandCapacity 0,0⟩

-- What recv answers: at most `extra` bytes more than one, or an error. `sent`
-- tells whether the snapshot of a new subscriber goes out.
inductive Recv where
  | bytes (extra : Nat) (sent : Bool)
  | closed
  | interrupted
  | wouldBlock
  | failed
  deriving DecidableEq, Repr

-- `stream` is what the peer sends and recv has not returned yet. The fields
-- after it are records read by no code: the bytes received, the commands
-- executed, and the last index each recv and each terminator was written to.
structure Connection where
  client : ControlClient
  stream : Bytes
  received : Bytes
  executed : List Bytes
  stored : List Nat
  terminated : List Nat

def connected (fd : Nat) (stream : Bytes) : Connection := ⟨accepted fd,stream,[],[],[],[]⟩

-- The client afterwards, the command executed and whether to close.
def handleCommand (client : ControlClient) (sent : Bool) : ControlClient × Option Bytes × Bool :=
  let terminated := client.command.set client.commandSize 0
  let line := cString terminated
  if line.contains newline then
    let command := terminated.set (line.idxOf newline) 0
    let client := { client with command := command }
    match recognise (cString command) with
    | .snapshot format => ({ client with format := format },some (cString command),true)
    | .subscribe format => ({ client with format := format, subscribed := true },some (cString command),!sent)
    | .enqueue _ => (client,some (cString command),true)
    | .unknown => (client,some (cString command),true)
    | .incomplete => (client,some (cString command),true)
  else ({ client with command := terminated },none,false)

def room (c : Connection) : Nat := commandCapacity - 1 - c.client.commandSize

def piece (c : Connection) (extra : Nat) : Bytes := c.stream.take (min (extra + 1) (room c))

def store (c : Connection) (data : Bytes) : Connection :=
  { c with
    client :=
      { c.client with
        command := memcpy c.client.command c.client.commandSize data
        commandSize := c.client.commandSize + data.length }
    stream := c.stream.drop data.length
    received := c.received ++ data
    stored := c.stored ++ [c.client.commandSize + data.length - 1] }

def handle (c : Connection) (sent : Bool) : Connection × Bool :=
  let (client,executed,close) := handleCommand c.client sent
  ({ c with
      client := client
      executed := c.executed ++ executed.toList
      terminated := c.terminated ++ [c.client.commandSize] },close)

-- One call: what it returns, none while it waits for the next recv, and the
-- answers of recv it leaves. A stream with nothing left is EAGAIN.
def readCommand (c : Connection) (events : List Recv) : Connection × Option Bool × List Recv :=
  if c.client.subscribed then (c,some true,events)
  else if commandCapacity - 1 ≤ c.client.commandSize then (c,some false,events)
  else match events with
    | [] => (c,none,[])
    | .bytes extra sent :: rest =>
      if piece c extra = [] then (c,some true,rest)
      else
        let (next,close) := handle (store c (piece c extra)) sent
        if close then (next,some false,rest)
        else if next.client.subscribed then (next,some true,rest)
        else readCommand next rest
    | .closed :: rest => (c,some false,rest)
    | .interrupted :: rest => readCommand c rest
    | .wouldBlock :: rest => (c,some true,rest)
    | .failed :: rest => (c,some false,rest)

-- Call after call, until one returns false and the client is dropped. A
-- subscriber takes no more answers.
def serve (c : Connection) (events : List Recv) : Connection × Bool :=
  match readCommand c events with
  | (next,some false,_) => (next,true)
  | (next,some true,rest) => if rest.length < events.length then serve next rest else (next,false)
  | (next,none,_) => (next,false)
termination_by events.length

def closes : Recv → Bool
  | .closed | .failed => true
  | _ => false

def delivers : Recv → Bool
  | .bytes _ _ => true
  | _ => false

-- The first newline ends `line`, and no NUL comes before it.
structure FirstLine (bytes line : Bytes) : Prop where
  single : newline ∉ line
  string : 0 ∉ line
  ended : line ++ [newline] <+: bytes

theorem FirstLine.mono {part whole line : Bytes} (first : FirstLine part line) (grown : part <+: whole) :
    FirstLine whole line := ⟨first.single,first.string,first.ended.trans grown⟩

theorem FirstLine.within {part whole line : Bytes} (first : FirstLine whole line) (grown : part <+: whole)
    (longer : line.length < part.length) : FirstLine part line := by
  refine ⟨first.single,first.string,List.prefix_of_prefix_length_le first.ended grown ?_⟩
  rw [List.length_append,List.length_singleton]
  exact longer

theorem FirstLine.unique {bytes one two : Bytes} (first : FirstLine bytes one) (second : FirstLine bytes two) :
    one = two := by
  have shorter : ∀ {left right : Bytes}, FirstLine bytes left → FirstLine bytes right → right.length ≤ left.length := by
    intro left right whole other
    by_contra longer
    have inside : left ++ [newline] <+: right :=
      List.prefix_of_prefix_length_le whole.ended ((List.prefix_append right _).trans other.ended)
        (by rw [List.length_append,List.length_singleton]; omega)
    exact other.single (inside.subset (by simp))
  have same : one.length = two.length := le_antisymm (shorter second first) (shorter first second)
  have ends := List.prefix_of_prefix_length_le first.ended second.ended (by simp [same])
  exact List.append_cancel_right (ends.eq_of_length (by simp [same]))

theorem cString_split {line : Bytes} (string : 0 ∉ line) (rest : Bytes) :
    cString (line ++ rest) = line ++ cString rest := by
  rw [cString,List.takeWhile_append_of_pos]
  · rfl
  · intro b member
    simp only [bne_iff_ne,ne_eq]
    rintro rfl
    exact string member

theorem newline_firstLine {bytes : Bytes} : newline ∈ cString bytes ↔ ∃ line, FirstLine bytes line := by
  constructor
  · intro found
    obtain ⟨line,rest,split,single⟩ := List.eq_append_cons_of_mem found
    have inside : cString bytes <+: bytes := List.takeWhile_prefix _
    have ended : line ++ [newline] <+: cString bytes := ⟨rest,by rw [split,List.append_assoc,List.singleton_append]⟩
    refine ⟨line,single,?_,ended.trans inside⟩
    exact fun member => cString_free bytes (split ▸ List.mem_append_left _ member)
  · rintro ⟨line,first⟩
    obtain ⟨rest,rfl⟩ := first.ended
    rw [List.append_assoc,cString_split first.string]
    exact List.mem_append_right _ (by rw [List.singleton_append]; exact List.mem_cons_self)

theorem cString_terminated (bytes tail : Bytes) : cString (bytes ++ 0 :: tail) = cString bytes := by
  induction bytes with
  | nil => rfl
  | cons b rest ih =>
    unfold cString at ih ⊢
    rw [List.cons_append,List.takeWhile_cons,List.takeWhile_cons,ih]

-- The bytes received lie at the start of a buffer of its full size.
structure Buffered (client : ControlClient) (received : Bytes) : Prop where
  sized : client.command.length = commandCapacity
  size : client.commandSize = received.length
  short : received.length < commandCapacity
  start : client.command.take client.commandSize = received

theorem Buffered.terminated {client : ControlClient} {received : Bytes} (buffered : Buffered client received) :
    client.command.set client.commandSize 0 = received ++ 0 :: client.command.drop (client.commandSize + 1) := by
  have inside : client.commandSize < client.command.length := by
    rw [buffered.sized,buffered.size]
    exact buffered.short
  rw [List.set_eq_take_append_cons_drop,if_pos inside,buffered.start]

theorem handleCommand_waits {client : ControlClient} {received : Bytes} (buffered : Buffered client received)
    (nothing : ∀ line, ¬FirstLine received line) (sent : Bool) :
    handleCommand client sent = ({ client with command := client.command.set client.commandSize 0 },none,false) := by
  have absent : (cString (client.command.set client.commandSize 0)).contains newline = false := by
    rw [buffered.terminated,cString_terminated,← Bool.not_eq_true,List.contains_iff_mem]
    intro found
    obtain ⟨line,first⟩ := newline_firstLine.mp found
    exact nothing line first
  unfold handleCommand
  dsimp only
  rw [absent]
  rfl

-- The buffer as the next recv finds it.
theorem Buffered.kept {client : ControlClient} {received : Bytes} (buffered : Buffered client received) :
    Buffered { client with command := client.command.set client.commandSize 0 } received := by
  refine ⟨(List.length_set).trans buffered.sized,buffered.size,buffered.short,?_⟩
  rw [← buffered.start]
  exact List.take_set_of_le (le_refl _)

theorem handleCommand_executes {client : ControlClient} {received line : Bytes} (buffered : Buffered client received)
    (first : FirstLine received line) (sent : Bool) :
    (handleCommand client sent).2.1 = some line ∧
      ((handleCommand client sent).2.2 = true ∨ (handleCommand client sent).1.subscribed = true) := by
  obtain ⟨rest,split⟩ := first.ended
  have text : cString (client.command.set client.commandSize 0) = line ++ newline :: cString rest := by
    rw [buffered.terminated,cString_terminated,← split,List.append_assoc,cString_split first.string,List.singleton_append]
    rfl
  have found : (cString (client.command.set client.commandSize 0)).contains newline = true := by simp [text]
  have place : (cString (client.command.set client.commandSize 0)).idxOf newline = line.length := by
    rw [text,List.idxOf_append_of_notMem first.single,List.idxOf_cons_self]
    rfl
  have command : cString ((client.command.set client.commandSize 0).set line.length 0) = line := by
    rw [buffered.terminated,← split,List.append_assoc,List.append_assoc,List.set_append_right _ _ (le_refl _),Nat.sub_self,
      List.singleton_append,List.set_cons_zero,cString_terminated,cString_of_free first.string]
  unfold handleCommand
  dsimp only
  rw [found,if_pos rfl,place,command]
  cases recognise line with
  | incomplete => exact ⟨rfl,.inl rfl⟩
  | snapshot format => exact ⟨rfl,.inl rfl⟩
  | subscribe format => exact ⟨rfl,.inr rfl⟩
  | enqueue command => exact ⟨rfl,.inl rfl⟩
  | unknown => exact ⟨rfl,.inl rfl⟩

-- What the buffer of bytes received answers is what the memory answers.
theorem handleCommand_answer {client : ControlClient} {received : Bytes} (buffered : Buffered client received) (sent : Bool) :
    Control.handleCommand ⟨client.fd,client.subscribed,client.format,received⟩ =
      ((handleCommand client sent).2.1.map recognise).getD .incomplete := by
  unfold Control.handleCommand
  dsimp only
  by_cases complete : ∃ line, FirstLine received line
  · obtain ⟨line,first⟩ := complete
    rw [(handleCommand_executes buffered first sent).1]
    obtain ⟨rest,rfl⟩ := first.ended
    have before : ∀ b ∈ line, (b != newline) = true := by
      intro b member
      rw [bne_iff_ne]
      rintro rfl
      exact first.single member
    have text : cString (line ++ [newline] ++ rest) = line ++ newline :: cString rest := by
      rw [List.append_assoc,cString_split first.string]
      rfl
    rw [text,if_pos (by simp),List.takeWhile_append_of_pos before,List.takeWhile_cons_of_neg (by simp),List.append_nil]
    rfl
  · have nothing : ∀ line, ¬FirstLine received line := fun line first => complete ⟨line,first⟩
    rw [handleCommand_waits buffered nothing sent,if_neg]
    · rfl
    · rw [List.contains_iff_mem]
      exact fun found => complete (newline_firstLine.mp found)

structure Recorded (stream : Bytes) (c : Connection) : Prop where
  whole : c.received ++ c.stream = stream
  short : c.received.length ≤ 127
  stored : ∀ index ∈ c.stored, index ≤ 126
  terminated : ∀ index ∈ c.terminated, index ≤ 127

-- No complete line yet.
structure Waiting (stream : Bytes) (c : Connection) : Prop extends Recorded stream c where
  buffered : Buffered c.client c.received
  lineless : ∀ line, ¬FirstLine c.received line
  unsubscribed : c.client.subscribed = false
  idle : c.executed = []

structure Done (stream line : Bytes) (c : Connection) : Prop extends Recorded stream c where
  first : FirstLine c.received line
  once : c.executed = [line]

theorem connected_waiting (fd : Nat) (stream : Bytes) : Waiting stream (connected fd stream) where
  whole := rfl
  short := Nat.zero_le _
  stored _ member := absurd member List.not_mem_nil
  terminated _ member := absurd member List.not_mem_nil
  buffered := ⟨List.length_replicate,rfl,(by decide : 0 < commandCapacity),rfl⟩
  lineless line first := by
    have ended := first.ended.length_le
    rw [List.length_append,List.length_singleton] at ended
    exact absurd ended (Nat.not_succ_le_zero _)
  unsubscribed := rfl
  idle := rfl

section Piece
variable {stream : Bytes} {c : Connection}

-- recv is given the room that is left, so what it stores fits.
theorem store_fits (waiting : Waiting stream c) (extra : Nat) :
    c.received.length + (piece c extra).length ≤ 127 := by
  have size := waiting.buffered.size
  have short := waiting.short
  have most : (piece c extra).length ≤ room c := by
    rw [piece,List.length_take]
    omega
  have capacity : commandCapacity - 1 = 127 := rfl
  unfold room at most
  omega

theorem store_recorded (waiting : Waiting stream c) (extra : Nat) : Recorded stream (store c (piece c extra)) := by
  have fits := store_fits waiting extra
  refine ⟨?_,?_,?_,waiting.terminated⟩
  · have rejoined : piece c extra ++ c.stream.drop (piece c extra).length = c.stream := by
      rw [piece,List.length_take]
      rcases Nat.le_total (min (extra + 1) (room c)) c.stream.length with less | more
      · rw [Nat.min_eq_left less,List.take_append_drop]
      · rw [Nat.min_eq_right more,List.take_of_length_le more,List.drop_length,List.append_nil]
    calc c.received ++ piece c extra ++ c.stream.drop (piece c extra).length
        = c.received ++ (piece c extra ++ c.stream.drop (piece c extra).length) := List.append_assoc _ _ _
      _ = stream := by rw [rejoined,waiting.whole]
  · dsimp only [store]
    rw [List.length_append]
    exact fits
  · intro index member
    rcases List.mem_append.mp member with earlier | last
    · exact waiting.stored index earlier
    · have size := waiting.buffered.size
      rw [List.mem_singleton.mp last]
      omega

theorem store_buffered (waiting : Waiting stream c) (extra : Nat) :
    Buffered (store c (piece c extra)).client (c.received ++ piece c extra) := by
  have fits := store_fits waiting extra
  obtain ⟨sized,size,_,start⟩ := waiting.buffered
  have capacity : commandCapacity = 128 := rfl
  obtain ⟨taken,length⟩ := memcpy_take c.client.command (piece c extra) (by omega : c.client.commandSize + _ ≤ _)
  refine ⟨length.trans sized,?_,?_,?_⟩
  · dsimp only [store]
    rw [List.length_append,size]
  · rw [List.length_append]
    omega
  · dsimp only [store]
    rw [taken,start]

-- One piece either completes the first line, which is executed, or leaves the
-- client waiting.
theorem handle_piece (waiting : Waiting stream c) (extra : Nat) (sent : Bool) :
    (handle (store c (piece c extra)) sent).1.received = c.received ++ piece c extra ∧
    ((Waiting stream (handle (store c (piece c extra)) sent).1 ∧ (handle (store c (piece c extra)) sent).2 = false) ∨
      ∃ line, Done stream line (handle (store c (piece c extra)) sent).1 ∧
        ((handle (store c (piece c extra)) sent).2 = true ∨
          (handle (store c (piece c extra)) sent).1.client.subscribed = true)) := by
  refine ⟨rfl,?_⟩
  have recorded := store_recorded waiting extra
  have buffered := store_buffered waiting extra
  have fits := store_fits waiting extra
  have terminated : ∀ index ∈ c.terminated ++ [(store c (piece c extra)).client.commandSize], index ≤ 127 := by
    intro index member
    rcases List.mem_append.mp member with earlier | last
    · exact waiting.terminated index earlier
    · rw [List.mem_singleton.mp last,buffered.size,List.length_append]
      exact fits
  by_cases complete : ∃ line, FirstLine (c.received ++ piece c extra) line
  · obtain ⟨line,first⟩ := complete
    obtain ⟨executed,ended⟩ := handleCommand_executes buffered first sent
    refine .inr ⟨line,⟨⟨recorded.whole,recorded.short,recorded.stored,terminated⟩,first,?_⟩,ended⟩
    have once : c.executed ++ (handleCommand (store c (piece c extra)).client sent).2.1.toList = [line] := by
      rw [executed,waiting.idle]
      rfl
    exact once
  · have nothing : ∀ line, ¬FirstLine (c.received ++ piece c extra) line := fun line first => complete ⟨line,first⟩
    have same := handleCommand_waits buffered nothing sent
    refine .inl ⟨⟨⟨recorded.whole,recorded.short,recorded.stored,terminated⟩,?_,nothing,?_,?_⟩,?_⟩
    · dsimp only [handle]
      rw [same]
      exact buffered.kept
    · dsimp only [handle]
      rw [same]
      exact waiting.unsubscribed
    · dsimp only [handle]
      rw [same]
      exact (List.append_nil _).trans waiting.idle
    · dsimp only [handle]
      rw [same]

end Piece

-- What a run of recv answers came to without a complete line or an end: every
-- delivery brought a byte, until nothing was left.
structure Passed (c next : Connection) (events : List Recv) : Prop where
  open' : ∀ event ∈ events, closes event = false
  grown : c.received.length ≤ next.received.length
  progress : next.stream = [] ∨ c.received.length + (events.filter delivers).length ≤ next.received.length

inductive Reached (stream : Bytes) (c : Connection) (events : List Recv) :
    Connection → Option Bool → List Recv → Prop where
  | pending {next : Connection} (waiting : Waiting stream next) (short : next.received.length < 127)
      (passed : Passed c next events) : Reached stream c events next none []
  | returned {next : Connection} {consumed rest : List Recv} (split : events = consumed ++ rest) (moved : consumed ≠ [])
      (waiting : Waiting stream next) (short : next.received.length < 127) (passed : Passed c next consumed) :
      Reached stream c events next (some true) rest
  | full {next : Connection} {rest : List Recv} (waiting : Waiting stream next) (full : next.received.length = 127) :
      Reached stream c events next (some false) rest
  | closed {next : Connection} {rest : List Recv} (waiting : Waiting stream next)
      (ended : ∃ event ∈ events, closes event = true) : Reached stream c events next (some false) rest
  | executed {next : Connection} {rest : List Recv} {line : Bytes} {verdict : Bool} (done : Done stream line next)
      (ended : verdict = true → next.client.subscribed = true) : Reached stream c events next (some verdict) rest

theorem Passed.cons {c middle next : Connection} {event : Recv} {events : List Recv} (passed : Passed middle next events)
    (open' : closes event = false) (gained : c.received.length + (delivers event).toNat ≤ middle.received.length) :
    Passed c next (event :: events) := by
  refine ⟨?_,(Nat.le_of_add_right_le gained).trans passed.grown,?_⟩
  · intro other member
    rcases List.mem_cons.mp member with rfl | later
    · exact open'
    · exact passed.open' other later
  · rcases passed.progress with empty | progress
    · exact .inl empty
    · right
      cases kind : delivers event with
      | true =>
        rw [kind,Bool.toNat_true] at gained
        rw [List.filter_cons_of_pos kind,List.length_cons]
        omega
      | false =>
        rw [kind,Bool.toNat_false] at gained
        rw [List.filter_cons_of_neg (by simp [kind])]
        omega

theorem Reached.cons {stream : Bytes} {c middle next : Connection} {event : Recv} {events rest : List Recv}
    {verdict : Option Bool} (reached : Reached stream middle events next verdict rest) (open' : closes event = false)
    (gained : c.received.length + (delivers event).toNat ≤ middle.received.length) :
    Reached stream c (event :: events) next verdict rest := by
  cases reached with
  | pending waiting short passed => exact .pending waiting short (passed.cons open' gained)
  | returned split moved waiting short passed =>
    exact .returned (by rw [split,List.cons_append]) (List.cons_ne_nil _ _) waiting short (passed.cons open' gained)
  | full waiting full => exact .full waiting full
  | closed waiting ended =>
    obtain ⟨other,member,closing⟩ := ended
    exact .closed waiting ⟨other,List.mem_cons_of_mem _ member,closing⟩
  | executed done ended => exact .executed done ended

theorem Passed.alone {c : Connection} (event : Recv) (open' : closes event = false)
    (idle : c.stream = [] ∨ delivers event = false) : Passed c c [event] := by
  refine ⟨?_,le_refl _,?_⟩
  · intro other member
    rw [List.mem_singleton.mp member]
    exact open'
  · rcases idle with empty | quiet
    · exact .inl empty
    · right
      rw [List.filter_cons_of_neg (by simp [quiet])]
      exact le_refl _

theorem readCommand_reached {stream : Bytes} {c : Connection} (waiting : Waiting stream c) (events : List Recv) :
    Reached stream c events (readCommand c events).1 (readCommand c events).2.1 (readCommand c events).2.2 := by
  induction events generalizing c with
  | nil =>
    unfold readCommand
    rw [if_neg (by simp [waiting.unsubscribed])]
    have size := waiting.buffered.size
    have short := waiting.short
    have capacity : commandCapacity - 1 = 127 := rfl
    split
    · have full : c.received.length = 127 := by omega
      exact .full waiting full
    · have short : c.received.length < 127 := by omega
      exact .pending waiting short ⟨fun event member => absurd member List.not_mem_nil,le_refl _,.inr (le_refl _)⟩
  | cons event rest ih =>
    have size := waiting.buffered.size
    have short := waiting.short
    have capacity : commandCapacity - 1 = 127 := rfl
    unfold readCommand
    rw [if_neg (by simp [waiting.unsubscribed])]
    split
    · have full : c.received.length = 127 := by omega
      exact .full waiting full
    have below : c.received.length < 127 := by omega
    cases event with
    | bytes extra sent =>
      dsimp only
      split
      · -- The stream has nothing left: there is room for a byte.
        rename_i nothing
        have empty : c.stream = [] := by
          rw [piece,List.take_eq_nil_iff] at nothing
          rcases nothing with none | empty
          · unfold room at none
            omega
          · exact empty
        exact .returned (List.singleton_append).symm (List.cons_ne_nil _ _) waiting below
          (.alone (.bytes extra sent) rfl (.inl empty))
      · rename_i something
        obtain ⟨received,handled⟩ := handle_piece waiting extra sent
        have gained : c.received.length + (delivers (.bytes extra sent)).toNat ≤
            (handle (store c (piece c extra)) sent).1.received.length := by
          have positive := List.length_pos_of_ne_nil something
          rw [received,List.length_append]
          exact Nat.add_le_add_left positive _
        rcases handled with ⟨still,kept⟩ | ⟨line,done,ended⟩
        · rw [kept]
          simp only [Bool.false_eq_true,if_false,still.unsubscribed]
          exact (ih still).cons rfl gained
        · cases closing : (handle (store c (piece c extra)) sent).2 with
          | true =>
            simp only [if_true]
            exact .executed done (fun other => by cases other)
          | false =>
            rw [closing] at ended
            have subscribed := ended.resolve_left (by decide)
            simp only [Bool.false_eq_true,if_false,subscribed,if_true]
            exact .executed done (fun _ => subscribed)
    | closed => exact .closed waiting ⟨.closed,List.mem_cons_self,rfl⟩
    | interrupted => exact (ih waiting).cons rfl (le_refl _)
    | wouldBlock =>
      exact .returned (List.singleton_append).symm (List.cons_ne_nil _ _) waiting below (.alone .wouldBlock rfl (.inr rfl))
    | failed => exact .closed waiting ⟨.failed,List.mem_cons_self,rfl⟩

inductive Settled (stream : Bytes) (c : Connection) (events : List Recv) : Connection → Bool → Prop where
  | waiting {next : Connection} (waiting : Waiting stream next) (short : next.received.length < 127)
      (passed : Passed c next events) : Settled stream c events next false
  | full {next : Connection} (waiting : Waiting stream next) (full : next.received.length = 127) :
      Settled stream c events next true
  | closed {next : Connection} (waiting : Waiting stream next) (ended : ∃ event ∈ events, closes event = true) :
      Settled stream c events next true
  | executed {next : Connection} {line : Bytes} {dropped : Bool} (done : Done stream line next) :
      Settled stream c events next dropped

-- A stream once used up stays so.
theorem Waiting.spent {stream : Bytes} {c next : Connection} (before : Waiting stream c) (after : Waiting stream next)
    (grown : c.received.length ≤ next.received.length) (empty : c.stream = []) : next.stream = [] := by
  have one := congrArg List.length before.whole
  have two := congrArg List.length after.whole
  rw [List.length_append] at one two
  rw [empty,List.length_nil] at one
  apply List.eq_nil_of_length_eq_zero
  omega

theorem Passed.append {stream : Bytes} {c middle next : Connection} {consumed rest : List Recv}
    (first : Passed c middle consumed) (later : Passed middle next rest) (between : Waiting stream middle)
    (after : Waiting stream next) : Passed c next (consumed ++ rest) := by
  refine ⟨?_,first.grown.trans later.grown,?_⟩
  · intro event member
    rcases List.mem_append.mp member with earlier | final
    · exact first.open' event earlier
    · exact later.open' event final
  · rcases first.progress with empty | gained
    · exact .inl (between.spent after later.grown empty)
    · rcases later.progress with empty | more
      · exact .inl empty
      · right
        rw [List.filter_append,List.length_append]
        omega

-- A subscriber is not read again.
theorem serve_subscribed {c : Connection} (subscribed : c.client.subscribed = true) (events : List Recv) :
    serve c events = (c,false) := by
  have returned : readCommand c events = (c,some true,events) := by
    unfold readCommand
    rw [if_pos subscribed]
  rw [serve,returned]
  exact if_neg (lt_irrefl _)

theorem serve_settled {stream : Bytes} {c : Connection} (waiting : Waiting stream c) (events : List Recv) :
    Settled stream c events (serve c events).1 (serve c events).2 := by
  induction size : events.length using Nat.strong_induction_on generalizing c events with
  | _ size' ih =>
    have reached := readCommand_reached waiting events
    rw [serve]
    generalize readCommand c events = result at reached ⊢
    obtain ⟨next,verdict,rest⟩ := result
    dsimp only at reached
    cases reached with
    | pending still short passed => exact .waiting still short passed
    | full still full => exact .full still full
    | closed still ended => exact .closed still ended
    | executed done ended =>
      rename_i line verdict
      cases verdict with
      | false => exact .executed done
      | true =>
        dsimp only
        split
        · rw [serve_subscribed (ended rfl)]
          exact .executed done
        · exact .executed done
    | returned split moved still short passed =>
      rename_i consumed
      have shorter : rest.length < events.length := by
        have positive := List.length_pos_of_ne_nil moved
        rw [split,List.length_append]
        omega
      dsimp only
      rw [if_pos shorter]
      have later := ih rest.length (size ▸ shorter) still rest rfl
      generalize serve next rest = result at later
      obtain ⟨final,dropped⟩ := result
      dsimp only at later ⊢
      cases later with
      | waiting final_still final_short more =>
        exact .waiting final_still final_short (split ▸ passed.append more still final_still)
      | full final_still full => exact .full final_still full
      | closed final_still ended =>
        obtain ⟨event,member,closing⟩ := ended
        exact .closed final_still ⟨event,split ▸ List.mem_append_right _ member,closing⟩
      | executed done => exact .executed done

-- The command a stream stands for.
def Commands (stream line : Bytes) : Prop := FirstLine stream line ∧ line.length ≤ 126

theorem Settled.recorded {stream : Bytes} {c next : Connection} {events : List Recv} {dropped : Bool}
    (settled : Settled stream c events next dropped) : Recorded stream next := by
  cases settled with
  | waiting still => exact still.toRecorded
  | full still => exact still.toRecorded
  | closed still => exact still.toRecorded
  | executed done => exact done.toRecorded

theorem Waiting.before {stream line : Bytes} {c : Connection} (waiting : Waiting stream c) (first : FirstLine stream line) :
    c.received.length ≤ line.length := by
  by_contra longer
  exact waiting.lineless line (first.within ⟨c.stream,waiting.whole⟩ (by omega))

theorem Done.commands {stream line : Bytes} {c : Connection} (done : Done stream line c) :
    Commands stream line ∧ line.length < c.received.length := by
  have ended := done.first.ended.length_le
  have short := done.short
  rw [List.length_append,List.length_singleton] at ended
  exact ⟨⟨done.first.mono ⟨c.stream,done.whole⟩,by omega⟩,ended⟩

theorem commands_whatever_pieces (fd : Nat) (stream : Bytes) (events : List Recv) :
    let c := (serve (connected fd stream) events).1
    let dropped := (serve (connected fd stream) events).2
    c.received <+: stream ∧ c.received.length ≤ 127 ∧
    (∀ line, Commands stream line →
      c.executed = (if line.length < c.received.length then [line] else []) ∧
      ((∀ event ∈ events, closes event = false) → line.length < (events.filter delivers).length → c.executed = [line])) ∧
    ((∀ line, ¬Commands stream line) →
      c.executed = [] ∧ (dropped = true ↔ c.received.length = 127 ∨ ∃ event ∈ events, closes event = true)) ∧
    (∀ index ∈ c.stored, index ≤ 126) ∧ ∀ index ∈ c.terminated, index ≤ 127 := by
  have settled := serve_settled (connected_waiting fd stream) events
  generalize serve (connected fd stream) events = result at settled
  obtain ⟨c,dropped⟩ := result
  dsimp only at settled ⊢
  have recorded := settled.recorded
  refine ⟨⟨c.stream,recorded.whole⟩,recorded.short,?_,?_,recorded.stored,recorded.terminated⟩
  · rintro line ⟨first,short⟩
    -- A client still waiting has not received the newline.
    have idle : Waiting stream c → c.executed = if line.length < c.received.length then [line] else [] := by
      intro still
      have before := still.before first
      rw [still.idle,if_neg (by omega)]
    cases settled with
    | waiting still below passed =>
      refine ⟨idle still,fun _ enough => ?_⟩
      have before := still.before first
      have none := congrArg List.length still.whole
      have ended := first.ended.length_le
      rw [List.length_append] at none
      rw [List.length_append,List.length_singleton] at ended
      rcases passed.progress with empty | gained
      · rw [empty,List.length_nil] at none
        omega
      · have start : (connected fd stream).received.length = 0 := rfl
        omega
    | full still full =>
      have before := still.before first
      omega
    | closed still ended =>
      refine ⟨idle still,fun open' => ?_⟩
      obtain ⟨event,member,closing⟩ := ended
      rw [open' event member] at closing
      cases closing
    | executed done =>
      obtain ⟨⟨other,_⟩,received⟩ := done.commands
      have same := other.unique first
      rw [same] at received
      exact ⟨by rw [done.once,same,if_pos received],fun _ _ => by rw [done.once,same]⟩
  · intro none
    cases settled with
    | waiting still below passed =>
      refine ⟨still.idle,iff_of_false (by decide) ?_⟩
      rintro (full | ⟨event,member,closing⟩)
      · omega
      · rw [passed.open' event member] at closing
        cases closing
    | full still full => exact ⟨still.idle,iff_of_true rfl (.inl full)⟩
    | closed still ended => exact ⟨still.idle,iff_of_true rfl (.inr ended)⟩
    | executed done => exact absurd done.commands.1 (none _)

end Hypringo.CommandReader

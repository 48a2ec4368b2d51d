import Hypringo.Control
import Hypringo.Runs
import Hypringo.SwapRemove

namespace Hypringo.ClientTable
open Hypringo.Lua Control SwapRemove

-- An entry of the clients array. `serial` is a record read by no code: it tells
-- connections apart whose descriptors have the same number.
structure Entry where
  serial : Nat
  client : Client
  deriving DecidableEq, Repr

structure Table where
  clients : List Entry
  serials : Nat
  deriving DecidableEq, Repr

def boot : Table := ⟨[],0⟩

-- `broken` stands for POLLERR, POLLHUP and POLLNVAL.
structure Revents where
  broken : Bool
  readable : Bool
  deriving DecidableEq, Repr

structure Pollfd where
  fd : Nat
  revents : Revents
  deriving DecidableEq, Repr

-- What read_command leaves in a client, and what it returns.
structure Reading where
  subscribed : Bool
  format : Format
  command : Bytes
  keep : Bool
  deriving DecidableEq, Repr

inductive Accepted where
  | interrupted
  | connection (fd : Nat) (configured : Bool)
  deriving DecidableEq, Repr

-- What the kernel and the calls of one turn answer: the flags in the order of
-- the poll array, the readings by index, the sends in the order they are tried.
structure Round where
  revents : List Revents
  reads : Nat → Reading
  listener : Bool
  accepts : List Accepted
  broadcasts : Bool
  sends : Nat → Bool

def pollfds (table : Table) (round : Round) : List Pollfd :=
  (table.clients.zip round.revents).map fun (entry,revents) => ⟨entry.client.fd,revents⟩

def readInto (entry : Entry) (reading : Reading) : Entry :=
  { entry with
    client :=
      { entry.client with subscribed := reading.subscribed, format := reading.format, command := reading.command } }

def polled (fds : List Pollfd) (index : Nat) : Pollfd := fds[index]?.getD ⟨0,⟨false,false⟩⟩

def examine (fds : List Pollfd) (reads : Nat → Reading) (index : Nat) (entry : Entry) : Entry × Bool :=
  if (polled fds index).revents.broken then (entry,false)
  else if (polled fds index).revents.readable then (readInto entry (reads index),(reads index).keep)
  else (entry,true)

-- A connection that cannot be configured or finds the table full is closed.
def acceptClient (table : Table) (fd : Nat) (configured : Bool) : Table :=
  if !configured || decide (maxClients ≤ table.clients.length) then table
  else ⟨table.clients ++ [⟨table.serials,⟨fd,false,.default,[]⟩⟩],table.serials + 1⟩

-- Until accept fails with another error than EINTR.
def acceptClients : Table → List Accepted → Table
  | table,[] => table
  | table,.interrupted :: rest => acceptClients table rest
  | table,.connection fd configured :: rest => acceptClients (acceptClient table fd configured) rest

def subscribed (entry : Entry) : Bool := entry.client.subscribed

-- What a turn did. `midway` is the table as the broadcast finds it, `attempts`
-- are its calls of send_snapshot.
structure Report where
  examined : List (Entry × Pollfd)
  midway : Table
  attempts : List (Entry × Bool)
  closed : List Entry
  after : Table

def failed (attempts : List (Entry × Bool)) : List Entry := (attempts.filter fun attempt => !attempt.2).map Prod.fst

def turn (table : Table) (round : Round) : Report :=
  let fds := pollfds table round
  let served := sweep (examine fds round.reads) table.clients table.clients.length
  let rest : Table := ⟨served.kept,table.serials⟩
  let midway := if round.listener then acceptClients rest round.accepts else rest
  let scanned := if round.broadcasts then scan subscribed round.sends midway.clients 0 0 else ⟨midway.clients,[]⟩
  { examined := served.visited.map fun (entry,index) => (entry,polled fds index)
    midway := midway
    attempts := scanned.tried
    closed := served.dropped ++ failed scanned.tried
    after := ⟨scanned.kept,midway.serials⟩ }

def apply (table : Table) (round : Round) : Table := (turn table round).after

def descriptors (clients : List Entry) : List Nat := clients.map fun entry => entry.client.fd

-- The kernel hands out no descriptor that is open.
def Fresh : Table → List Accepted → Prop
  | _,[] => True
  | table,.interrupted :: rest => Fresh table rest
  | table,.connection fd configured :: rest => fd ∉ descriptors table.clients ∧ Fresh (acceptClient table fd configured) rest

instance freshDecidable : ∀ table accepts, Decidable (Fresh table accepts)
  | _,[] => .isTrue trivial
  | table,.interrupted :: rest => freshDecidable table rest
  | table,.connection fd configured :: rest =>
    have := freshDecidable (acceptClient table fd configured) rest
    inferInstanceAs (Decidable (_ ∧ _))

def served (table : Table) (round : Round) : Table :=
  ⟨(sweep (examine (pollfds table round) round.reads) table.clients table.clients.length).kept,table.serials⟩

-- poll answers for every descriptor it was given.
def Possible (table : Table) (round : Round) : Prop :=
  round.revents.length = table.clients.length ∧ (round.listener = true → Fresh (served table round) round.accepts)

instance (table : Table) (round : Round) : Decidable (Possible table round) := inferInstanceAs (Decidable (_ ∧ _))

structure Sound (table : Table) : Prop where
  limit : table.clients.length ≤ maxClients
  distinct : (descriptors table.clients).Nodup
  serials : (table.clients.map Entry.serial).Nodup
  past : ∀ entry ∈ table.clients, entry.serial < table.serials

-- The clients that outlive the loop over the poll array, as their readings left
-- them, and those that do not.
def remaining (table : Table) (round : Round) : List Entry :=
  survivors (examine (pollfds table round) round.reads) table.clients

def leaving (table : Table) (round : Round) : List Entry :=
  casualties (examine (pollfds table round) round.reads) table.clients

structure Newcomer (table : Table) (entry : Entry) : Prop where
  blank : entry.client = ⟨entry.client.fd,false,.default,[]⟩
  later : table.serials ≤ entry.serial

-- Every client is looked at once with its own flags, and it is closed once or
-- stays once, with its state; so is every newcomer.
structure Accounted (table : Table) (round : Round) : Prop where
  examined : (turn table round).examined = (table.clients.zip (pollfds table round)).reverse
  once : (turn table round).examined.map Prod.fst = table.clients.reverse
  own : ∀ entry fd, (entry,fd) ∈ (turn table round).examined → fd.fd = entry.client.fd
  states : ∃ added : List Entry, (∀ entry ∈ added, Newcomer table entry) ∧
    (turn table round).midway.clients.Perm (remaining table round ++ added) ∧
    ((turn table round).after.clients ++ failed (turn table round).attempts).Perm (turn table round).midway.clients ∧
    (turn table round).closed = (leaving table round).reverse ++ failed (turn table round).attempts ∧
    (((turn table round).closed ++ (turn table round).after.clients).map Entry.serial).Perm
      ((table.clients ++ added).map Entry.serial)
  closed : (((turn table round).closed ++ (turn table round).after.clients).map Entry.serial).Nodup
  midway : Sound (turn table round).midway
  after : Sound (turn table round).after
  broadcast : round.broadcasts = true →
    ((turn table round).attempts.map Prod.fst).Perm ((turn table round).midway.clients.filter subscribed)
  quiet : round.broadcasts = false → (turn table round).attempts = []

theorem boot_sound : Sound boot := ⟨Nat.zero_le _,List.nodup_nil,List.nodup_nil,fun _ member => absurd member List.not_mem_nil⟩

theorem examine_keeps (fds : List Pollfd) (reads : Nat → Reading) (index : Nat) (entry : Entry) :
    (examine fds reads index entry).1.serial = entry.serial ∧
      (examine fds reads index entry).1.client.fd = entry.client.fd := by
  unfold examine
  split
  · exact ⟨rfl,rfl⟩
  split
  · exact ⟨rfl,rfl⟩
  · exact ⟨rfl,rfl⟩

-- A table whose entries are some of the entries of a sound one.
theorem Sound.part {table smaller : Table} (sound : Sound table) (serials : table.serials ≤ smaller.serials)
    (fds : (descriptors smaller.clients).Subperm (descriptors table.clients))
    (ids : (smaller.clients.map Entry.serial).Subperm (table.clients.map Entry.serial)) : Sound smaller := by
  refine ⟨?_,?_,?_,?_⟩
  · have shorter := fds.length_le
    rw [descriptors,descriptors,List.length_map,List.length_map] at shorter
    exact shorter.trans sound.limit
  · obtain ⟨_,perm,part⟩ := fds
    exact perm.nodup (sound.distinct.sublist part)
  · obtain ⟨_,perm,part⟩ := ids
    exact perm.nodup (sound.serials.sublist part)
  · intro entry member
    obtain ⟨older,listed,same⟩ := List.mem_map.mp (ids.subset (List.mem_map_of_mem member))
    have past := sound.past older listed
    omega

section Turn
variable {table : Table} {round : Round}

theorem served_perm (table : Table) (round : Round) : (served table round).clients.Perm (remaining table round) :=
  (sweep_all (examine (pollfds table round) round.reads) table.clients).2.2

theorem served_sound (sound : Sound table) (round : Round) : Sound (served table round) := by
  have perm := served_perm table round
  refine sound.part (le_refl _) ?_ ?_
  · refine (perm.map _).subperm.trans (survivors_sublist _ ?_ _).subperm
    exact fun index entry => (examine_keeps _ _ index entry).2
  · refine (perm.map _).subperm.trans (survivors_sublist _ ?_ _).subperm
    exact fun index entry => (examine_keeps _ _ index entry).1

theorem acceptClient_sound (sound : Sound table) {fd : Nat} (fresh : fd ∉ descriptors table.clients) (configured : Bool) :
    Sound (acceptClient table fd configured) ∧ ∃ added, (acceptClient table fd configured).clients = table.clients ++ added ∧
      table.serials ≤ (acceptClient table fd configured).serials ∧ ∀ entry ∈ added, Newcomer table entry := by
  unfold acceptClient
  split
  · exact ⟨sound,[],(List.append_nil _).symm,le_refl _,fun _ member => absurd member List.not_mem_nil⟩
  · rename_i taken
    simp only [Bool.or_eq_true,Bool.not_eq_true',decide_eq_true_eq,not_or,not_le] at taken
    refine ⟨⟨?_,?_,?_,?_⟩,[⟨table.serials,⟨fd,false,.default,[]⟩⟩],rfl,Nat.le_succ _,?_⟩
    · rw [List.length_append,List.length_singleton]
      exact taken.2
    · rw [descriptors,List.map_append,List.nodup_append']
      refine ⟨sound.distinct,List.nodup_singleton _,?_⟩
      intro other listed member
      rw [List.map_singleton,List.mem_singleton] at member
      dsimp only at member
      subst member
      exact fresh listed
    · rw [List.map_append,List.nodup_append']
      refine ⟨sound.serials,List.nodup_singleton _,?_⟩
      intro serial listed member
      rw [List.map_singleton,List.mem_singleton] at member
      obtain ⟨entry,present,rfl⟩ := List.mem_map.mp listed
      have past := sound.past entry present
      dsimp only at member
      omega
    · intro entry member
      rcases List.mem_append.mp member with older | last
      · exact Nat.lt_succ_of_lt (sound.past entry older)
      · rw [List.mem_singleton.mp last]
        exact Nat.lt_succ_self _
    · intro entry member
      rw [List.mem_singleton.mp member]
      exact ⟨rfl,le_refl _⟩

theorem acceptClients_sound {accepts : List Accepted} (sound : Sound table) (fresh : Fresh table accepts) :
    Sound (acceptClients table accepts) ∧ ∃ added, (acceptClients table accepts).clients = table.clients ++ added ∧
      ∀ entry ∈ added, Newcomer table entry := by
  induction accepts generalizing table with
  | nil => exact ⟨sound,[],(List.append_nil _).symm,fun _ member => absurd member List.not_mem_nil⟩
  | cons outcome rest ih =>
    cases outcome with
    | interrupted => exact ih sound fresh
    | connection fd configured =>
      obtain ⟨next,first,grown,serials,blank⟩ := acceptClient_sound sound fresh.1 configured
      obtain ⟨final,later,more,others⟩ := ih next fresh.2
      refine ⟨final,first ++ later,by rw [acceptClients,more,grown,List.append_assoc],?_⟩
      intro entry member
      rcases List.mem_append.mp member with early | late
      · exact blank entry early
      · exact ⟨(others entry late).blank,serials.trans (others entry late).later⟩

-- The accept phase, whether the listener was ready or not.
theorem midway_sound (sound : Sound table) (possible : Possible table round) :
    Sound (turn table round).midway ∧ ∃ added, (turn table round).midway.clients = (served table round).clients ++ added ∧
      ∀ entry ∈ added, Newcomer table entry := by
  have kept := served_sound sound round
  dsimp only [turn]
  cases listener : round.listener with
  | false => exact ⟨kept,[],(List.append_nil _).symm,fun _ member => absurd member List.not_mem_nil⟩
  | true =>
    obtain ⟨final,added,grown,others⟩ := acceptClients_sound kept (possible.2 listener)
    exact ⟨final,added,grown,fun entry member => ⟨(others entry member).blank,(others entry member).later⟩⟩

-- The broadcast phase, whether there was one or not.
theorem broadcast_served (table : Table) (round : Round) :
    ((turn table round).after.clients ++ failed (turn table round).attempts).Perm (turn table round).midway.clients ∧
      (round.broadcasts = true →
        ((turn table round).attempts.map Prod.fst).Perm ((turn table round).midway.clients.filter subscribed)) ∧
      (round.broadcasts = false → (turn table round).attempts = []) := by
  dsimp only [turn]
  cases broadcasts : round.broadcasts with
  | false =>
    refine ⟨?_,fun other => (by cases other),fun _ => rfl⟩
    simp [failed]
  | true =>
    have scanned := scan_served subscribed round.sends
      (if round.listener then acceptClients (served table round) round.accepts else served table round).clients
    exact ⟨scanned.kept,fun _ => scanned.tried,fun other => (by cases other)⟩

theorem pollfds_length (possible : Possible table round) : (pollfds table round).length = table.clients.length := by
  rw [pollfds,List.length_map,List.length_zip,possible.1,Nat.min_self]

theorem turn_examined (possible : Possible table round) :
    (turn table round).examined = (table.clients.zip (pollfds table round)).reverse := by
  have length := pollfds_length possible
  dsimp only [turn]
  rw [(sweep_all _ table.clients).1,List.map_reverse]
  congr 1
  apply List.ext_getElem
  · rw [List.length_map,List.length_zipIdx,List.length_zip,length,Nat.min_self]
  · intro index first second
    have inside : index < (pollfds table round).length := by
      rw [List.length_map,List.length_zipIdx] at first
      omega
    rw [List.getElem_map,List.getElem_zip,List.getElem_zipIdx]
    simp [polled,inside]

theorem turn_own (possible : Possible table round) {entry : Entry} {fd : Pollfd}
    (member : (entry,fd) ∈ (turn table round).examined) : fd.fd = entry.client.fd := by
  rw [turn_examined possible,List.mem_reverse] at member
  obtain ⟨index,inside,found⟩ := List.mem_iff_getElem.mp member
  rw [List.getElem_zip] at found
  obtain ⟨rfl,rfl⟩ := Prod.mk.inj found
  simp [pollfds]

theorem turn_accounted (sound : Sound table) (possible : Possible table round) : Accounted table round := by
  obtain ⟨midway,added,grown,newcomers⟩ := midway_sound sound possible
  obtain ⟨left,tried,quiet⟩ := broadcast_served table round
  have swept := sweep_all (examine (pollfds table round) round.reads) table.clients
  have closed : (turn table round).closed = (leaving table round).reverse ++ failed (turn table round).attempts := by
    dsimp only [turn]
    rw [swept.2.1]
    rfl
  have middle : (turn table round).midway.clients.Perm (remaining table round ++ added) := by
    rw [grown]
    exact (served_perm table round).append_right added
  -- Who is closed and who stays are together who was there and who came.
  have everyone : (((turn table round).closed ++ (turn table round).after.clients).map Entry.serial).Perm
      ((table.clients ++ added).map Entry.serial) := by
    have split := survivors_casualties (examine (pollfds table round) round.reads)
      (fun index entry => (examine_keeps _ _ index entry).1) table.clients
    have gathered : ((turn table round).closed ++ (turn table round).after.clients).Perm
        (leaving table round ++ remaining table round ++ added) := by
      rw [closed,List.append_assoc,List.append_assoc]
      refine List.Perm.append (List.reverse_perm _) ?_
      exact List.perm_append_comm.trans (left.trans middle)
    refine (gathered.map Entry.serial).trans ?_
    rw [List.map_append,List.map_append,List.map_append]
    exact (List.perm_append_comm.trans split).append_right _
  have unique : ((table.clients ++ added).map Entry.serial).Nodup := by
    have later : (added.map Entry.serial).Nodup := by
      have both := midway.serials
      rw [grown,List.map_append] at both
      exact (List.nodup_append'.mp both).2.1
    rw [List.map_append,List.nodup_append']
    refine ⟨sound.serials,later,?_⟩
    intro serial listed member
    obtain ⟨older,present,rfl⟩ := List.mem_map.mp listed
    obtain ⟨newer,arrived,same⟩ := List.mem_map.mp member
    have past := sound.past older present
    have future := (newcomers newer arrived).later
    omega
  have after : Sound (turn table round).after := by
    have kept : (turn table round).after.clients.Sublist
        ((turn table round).after.clients ++ failed (turn table round).attempts) := List.sublist_append_left _ _
    exact midway.part (le_refl _) ((kept.map _).subperm.trans (left.map _).subperm)
      ((kept.map _).subperm.trans (left.map _).subperm)
  refine ⟨turn_examined possible,?_,fun entry fd member => turn_own possible member,
    ⟨added,newcomers,middle,left,closed,everyone⟩,everyone.nodup_iff.mpr unique,midway,after,tried,quiet⟩
  rw [turn_examined possible,List.map_reverse,List.map_fst_zip]
  rw [pollfds_length possible]

end Turn

theorem rounds_accounted {rounds : List Round} (possible : Runs.Each apply Possible boot rounds) :
    Runs.Throughout apply Sound boot rounds ∧ Runs.Each apply Accounted boot rounds := by
  have step : ∀ table round, Sound table → Possible table round → Sound (apply table round) :=
    fun _ _ sound allowed => (turn_accounted sound allowed).after
  exact ⟨Runs.throughout_invariant step boot_sound possible,
    Runs.each_of_invariant step (fun _ _ sound allowed => turn_accounted sound allowed) boot_sound possible⟩

def subscribing : Reading := ⟨true,.default,text "subscribe\n",true⟩

def arrivals : Round where
  revents := []
  reads _ := subscribing
  listener := true
  accepts := [.connection 5 true,.interrupted,.connection 6 true,.connection 7 true]
  broadcasts := false
  sends _ := true

-- The middle client hangs up and its descriptor is handed out again at once; the
-- first send fails.
def hangup : Round where
  revents := [⟨false,true⟩,⟨true,true⟩,⟨false,true⟩]
  reads _ := subscribing
  listener := true
  accepts := [.connection 6 true]
  broadcasts := true
  sends n := n != 0

theorem rounds_accounted_hangup :
    (turn (apply boot arrivals) hangup).closed.map Entry.serial = [1,0] ∧
    (turn (apply boot arrivals) hangup).after.clients.map Entry.serial = [3,2] ∧
    Accounted (apply boot arrivals) hangup := by
  have possible : Runs.Each apply Possible boot [arrivals,hangup] := by decide
  exact ⟨by decide +kernel,by decide +kernel,(rounds_accounted possible).2.2.1⟩

end Hypringo.ClientTable

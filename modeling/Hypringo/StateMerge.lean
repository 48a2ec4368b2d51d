import Hypringo.Constructor
import Hypringo.JsonText
import Hypringo.State

namespace Hypringo.StateMerge
open Hypringo.Lua Hypringo.Configuration Json Document Constructor State

theorem equal_iff_same {room : Nat} {h : Heap} {left right : Value} (closed : h.Closed) (good : Good room h left) :
    (equal h (h.size+1) [] left right).1 = true ↔ Same h left right :=
  (equal_decides (h.size+1) (good.bounded closed) (by intro pair listed; simp at listed)).exact

structure Duplicate (room : Nat) (h : Heap) (v w : Value) (later : Heap) : Prop where
  grown : h.Extends later
  closed : later.Closed
  plain : later.Plain
  good : Good room later w
  present : v ≠ .nil → w ≠ .nil
  document : ∀ d, document h room v = .ok d → document later room w = .ok d

theorem copy_good {room : Nat} {h : Heap} {v : Value} (closed : h.Closed) (plain : h.Plain) (good : Good room h v) :
    ∃ w later, copy (h.size+1) [] h v = .ok (w,later) ∧ Duplicate room h v w later := by
  obtain ⟨d,found,ok⟩ := good.encodable
  obtain ⟨w,later,done,copied⟩ := copy_document closed plain found ⟨.refl h,closed,plain⟩ good.inside good.proper
    (.nil h v) (good.bounded closed)
  refine ⟨w,later,done,copied.grown,copied.working.closed,copied.working.plain,
    ⟨⟨d,copied.document,ok⟩,copied.inside,copied.proper⟩,?_,?_⟩
  · intro some absent
    exact some (copied.present absent)
  · intro e other
    rw [found] at other
    cases other
    exact copied.document

-- What a field holds once a patch value has been merged into it.
def Holds (h : Heap) (domain : Domain) (entry : Value × Value) (held : Value) : Prop :=
  if arrayField domain entry.1 && isEmptyTable h entry.2 then
    ∃ a < h.size, held = .table a ∧ (h.table a).marked = true ∧ (h.table a).entries = []
  else Same h held entry.2

theorem isEmptyTable_extends {h later : Heap} (grown : h.Extends later) {v : Value} (inside : v.Within h.size) :
    isEmptyTable later v = isEmptyTable h v := by
  cases v with
  | table a => simp only [isEmptyTable,grown.table a inside]
  | _ => rfl

theorem Holds.extends {h later : Heap} (closed : h.Closed) (grown : h.Extends later) {domain : Domain}
    {entry : Value × Value} {held : Value} (inside : entry.2.Within h.size) (heldInside : held.Within h.size) :
    Holds later domain entry held ↔ Holds h domain entry held := by
  unfold Holds
  rw [isEmptyTable_extends grown inside]
  split
  · constructor
    · intro found
      obtain ⟨a,_,rfl,marked,none⟩ := found
      have bound : a < h.size := heldInside
      rw [grown.table a bound] at marked none
      exact ⟨a,bound,rfl,marked,none⟩
    · intro found
      obtain ⟨a,bound,same,marked,none⟩ := found
      rw [← grown.table a bound] at marked none
      exact ⟨a,Nat.lt_of_lt_of_le bound grown.size,same,marked,none⟩
  · exact Same.extends closed grown heldInside inside

-- A patch entry as pairs yields it.
structure Incoming (h : Heap) (entry : Value × Value) : Prop where
  present : entry.2 ≠ .nil
  inside : entry.2.Within h.size
  proper : entry.2 ≠ .table h.null

theorem Incoming.extends {h later : Heap} {entry : Value × Value} (grown : h.Extends later) (incoming : Incoming h entry) :
    Incoming later entry :=
  ⟨incoming.present,incoming.inside.mono grown.size,by rw [grown.null]; exact incoming.proper⟩

structure Normalised (domain : Domain) (entry : Value × Value) (h : Heap) (v : Value) (later : Heap) : Prop where
  working : Working h later
  incoming : Incoming later (entry.1,v)
  encodable : ∀ room, Encodable h (room+1) entry.2 → Encodable later (room+1) v
  holds : ∀ final, later.Extends final → ∀ held, held.Within final.size →
    (Same final held v ↔ Holds final domain entry held)

theorem same_empty_array {h : Heap} {held : Value} {b : Address} (inside : held.Within h.size) (bound : b < h.size)
    (table : h.table b = .empty true) :
    Same h held (.table b) ↔ ∃ a < h.size, held = .table a ∧ (h.table a).marked = true ∧ (h.table a).entries = [] := by
  have marked : (h.table b).marked = true := by rw [table]; rfl
  have none : (h.table b).entries = [] := by rw [table]; rfl
  constructor
  · intro same
    cases same with
    | equal equal =>
      have identical := Value.rawEqual_table.mp equal
      subst identical
      exact ⟨b,bound,rfl,marked,none⟩
    | @table a _ marks each =>
      refine ⟨a,inside,rfl,marks.trans marked,?_⟩
      rw [Table.entries_nil_iff]
      intro key
      exact (each key).nil_iff.mpr (Table.entries_nil_iff.mp none key)
  · intro found
    obtain ⟨a,_,rfl,alike,vacant⟩ := found
    refine .table (alike.trans marked.symm) ?_
    intro key
    rw [Table.entries_nil_iff.mp vacant key,Table.entries_nil_iff.mp none key]
    exact .refl rfl

theorem normalise_spec (domain : Domain) {entry : Value × Value} {h : Heap} (closed : h.Closed)
    (plain : h.Plain) (incoming : Incoming h entry) :
    Normalised domain entry h (normalise domain entry.1 entry.2 h).1 (normalise domain entry.1 entry.2 h).2 := by
  unfold normalise
  cases list : arrayField domain entry.1 && isEmptyTable h entry.2 with
  | false =>
    simp only [Bool.false_eq_true,if_false]
    refine ⟨⟨.refl h,closed,plain⟩,incoming,fun _ encodable => encodable,?_⟩
    intro final grown held _
    have still : (arrayField domain entry.1 && isEmptyTable final entry.2) = false := by
      rw [isEmptyTable_extends grown incoming.inside]
      exact list
    simp [Holds,still]
  | true =>
    simp only [if_true]
    have step := h.alloc_extends (.empty true)
    have ready : (h.alloc (.empty true)).Closed := h.alloc_closed closed (by simp [Table.empty])
    have proper : h.size ≠ (h.alloc (.empty true)).null := Nat.ne_of_gt closed.null
    have none : ((h.alloc (.empty true)).table h.size).entries = [] := by rw [h.alloc_new]; rfl
    refine ⟨⟨step,ready,plain.alloc (by simp [Table.empty]) (by simp [Table.empty])⟩,
      ⟨by simp,Nat.lt_succ_self _,?_⟩,fun room _ => encodable_empty room proper none,?_⟩
    · intro null
      injection null with null
      exact proper null
    · intro final grown held inside
      have still : (arrayField domain entry.1 && isEmptyTable final entry.2) = true := by
        rw [isEmptyTable_extends (step.trans grown) incoming.inside]
        exact list
      have table : final.table h.size = .empty true := by
        rw [grown.table h.size (Nat.lt_succ_self _),h.alloc_new]
      rw [Holds,if_pos still]
      exact same_empty_array inside (Nat.lt_of_lt_of_le (Nat.lt_succ_self _) grown.size) table

theorem Normalised.decided {room : Nat} {domain : Domain} {entry : Value × Value} {h middle : Heap} {v : Value} {target : Table}
    (normal : Normalised domain entry h v middle) (closed : h.Closed) (formed : Formed room h target)
    (incoming : Incoming h entry) :
    (equal middle (middle.size+1) [] (target.get entry.1) v).1 = true ↔ Holds h domain entry (target.get entry.1) := by
  have before := formed.extends closed normal.working.grown
  rw [equal_iff_same normal.working.closed (before.get entry.1),
    normal.holds middle (.refl middle) _ (before.get entry.1).inside]
  exact Holds.extends closed normal.working.grown incoming.inside (formed.get entry.1).inside

-- One turn of the loop on a field that holds the value already.
theorem mergeFields_skip {room : Nat} {domain : Domain} {entry : Value × Value} {target : Table} {h : Heap}
    (closed : h.Closed) (plain : h.Plain) (formed : Formed room h target) (incoming : Incoming h entry)
    (settled : Holds h domain entry (target.get entry.1)) :
    ∃ middle, Working h middle ∧ ∀ rest changed,
      mergeFields domain (entry :: rest) changed target h = mergeFields domain rest changed target middle := by
  have normal := normalise_spec domain closed plain incoming
  refine ⟨_,normal.working,?_⟩
  intro rest changed
  have same := (normal.decided closed formed incoming).mpr settled
  obtain ⟨key,value⟩ := entry
  simp only [mergeFields]
  rw [if_pos same]

structure Stored (room : Nat) (domain : Domain) (entry : Value × Value) (target : Table) (h : Heap) (w : Value)
    (next : Heap) : Prop where
  working : Working h next
  good : Good room next w
  present : w ≠ .nil
  holds : Holds next domain entry w
  differs : ∀ later, next.Extends later → ∀ x y, document later room (target.get entry.1) = .ok x →
    document later room w = .ok y → x.canonical ≠ y.canonical

-- One turn on a field that differs and whose value can be written.
theorem mergeFields_store {room : Nat} {domain : Domain} {entry : Value × Value} {target : Table} {h : Heap}
    (closed : h.Closed) (plain : h.Plain) (formed : Formed (room+1) h target) (incoming : Incoming h entry)
    (unsettled : ¬Holds h domain entry (target.get entry.1)) (encodable : Encodable h (room+1) entry.2) :
    ∃ w next, Stored (room+1) domain entry target h w next ∧ ∀ rest changed,
      mergeFields domain (entry :: rest) changed target h = mergeFields domain rest true (target.set entry.1 w) next := by
  have normal := normalise_spec domain closed plain incoming
  have decided := normal.decided closed formed incoming
  have different : ¬(equal _ _ [] (target.get entry.1) _).1 = true := fun same => unsettled (decided.mp same)
  have middle := normal.working
  have good : Good (room+1) _ _ := ⟨normal.encodable room encodable,normal.incoming.inside,normal.incoming.proper⟩
  obtain ⟨w,next,copied,duplicate⟩ := copy_good middle.closed middle.plain good
  obtain ⟨d,found,_⟩ := good.encodable
  have written := duplicate.document d found
  have alike : Same next w _ := document_same duplicate.closed duplicate.plain written
    (document_extends middle.closed duplicate.grown good.inside found) rfl duplicate.good.inside
    (good.inside.mono duplicate.grown.size) duplicate.good.proper (by rw [duplicate.grown.null]; exact good.proper)
  refine ⟨w,next,⟨⟨middle.grown.trans duplicate.grown,duplicate.closed,duplicate.plain⟩,duplicate.good,
    duplicate.present normal.incoming.present,(normal.holds next duplicate.grown w duplicate.good.inside).mp alike,?_⟩,?_⟩
  · intro later grown x y first second canonical
    -- Both documents were fixed before the copy was made.
    have old := (formed.extends closed middle.grown).get entry.1
    obtain ⟨x',firstFound,_⟩ := old.encodable
    rw [document_extends middle.closed (duplicate.grown.trans grown) old.inside firstFound] at first
    rw [document_extends duplicate.closed grown duplicate.good.inside written] at second
    cases first
    cases second
    apply different
    rw [equal_iff_same middle.closed old]
    exact document_same middle.closed middle.plain firstFound found canonical old.inside good.inside old.proper good.proper
  · intro rest changed
    obtain ⟨key,value⟩ := entry
    simp only [mergeFields]
    rw [if_neg different,copied]

-- One turn on a field that differs and whose value is cyclic.
theorem mergeFields_refuse {room : Nat} {domain : Domain} {entry : Value × Value} {target : Table} {h : Heap}
    (closed : h.Closed) (plain : h.Plain) (formed : Formed room h target) (incoming : Incoming h entry)
    (unsettled : ¬Holds h domain entry (target.get entry.1)) (cyclic : ∀ n, ¬Bounded h n entry.2)
    (rest : List (Value × Value)) (changed : Bool) :
    ∃ message, mergeFields domain (entry :: rest) changed target h = (.error message,target,h) := by
  have decided := (normalise_spec domain closed plain incoming).decided closed formed incoming
  have full : isEmptyTable h entry.2 = false := by
    cases value : entry.2 with
    | table a =>
      cases held : (h.table a).entries with
      | nil =>
        refine absurd ?_ (cyclic 1)
        rw [value]
        intro member listed
        simp [held] at listed
      | cons head tail => simp [isEmptyTable,held]
    | _ => rfl
  have same : normalise domain entry.1 entry.2 h = (entry.2,h) := by simp [normalise,full]
  rw [same] at decided
  have different := fun equal => unsettled (decided.mp equal)
  obtain ⟨key,value⟩ := entry
  dsimp only at same different cyclic incoming
  cases copied : copy (h.size+1) [] h value with
  | error message =>
    refine ⟨message,?_⟩
    simp only [mergeFields,same]
    rw [if_neg different,copied]
  | ok result =>
    obtain ⟨w,later⟩ := result
    exact absurd (copy_bounded closed (h.size+1) (.refl h) incoming.inside copied).1 (cyclic _)

-- What a merge can take in: each field holds its value already, or can be
-- stored under its name.
structure Storable (room : Nat) (h : Heap) (entry : Value × Value) : Prop where
  name : ∃ name, entry.1 = .string name ∧ validUtf8 name = true
  encodable : Encodable h room entry.2

structure Admissible (room : Nat) (h : Heap) (domain : Domain) (target : Table) (fields : List (Value × Value)) : Prop where
  distinct : (fields.map Prod.fst).Nodup
  incoming : ∀ entry ∈ fields, Incoming h entry
  each : ∀ entry ∈ fields, Holds h domain entry (target.get entry.1) ∨ Storable room h entry

-- The fields behind the first, once it is dealt with.
theorem Admissible.tail {room : Nat} {h later : Heap} {domain : Domain} {target next : Table} {entry : Value × Value}
    {rest : List (Value × Value)} (closed : h.Closed) (grown : h.Extends later) (formed : Formed room h target)
    (kept : ∀ key, key ≠ entry.1 → next.get key = target.get key)
    (admissible : Admissible room h domain target (entry :: rest)) : Admissible room later domain next rest := by
  have split := List.nodup_cons.mp admissible.distinct
  refine ⟨split.2,fun entry member => (admissible.incoming entry (by simp [member])).extends grown,?_⟩
  intro other member
  have incoming := admissible.incoming other (by simp [member])
  have apart : other.1 ≠ entry.1 := fun same => split.1 (same ▸ List.mem_map_of_mem member)
  rcases admissible.each other (by simp [member]) with settled | storable
  · rw [kept _ apart]
    exact .inl ((Holds.extends closed grown incoming.inside (formed.get other.1).inside).mpr settled)
  · exact .inr ⟨storable.name,storable.encodable.extends closed grown incoming.inside⟩

-- One field of the table was written anew.
structure Moved (room : Nat) (later : Heap) (target final : Table) (entry : Value × Value) : Prop where
  name : ∃ name, entry.1 = .string name
  present : final.get entry.1 ≠ .nil
  differs : ∀ x y, document later room (target.get entry.1) = .ok x →
    document later room (final.get entry.1) = .ok y → x.canonical ≠ y.canonical

structure Merged (room : Nat) (domain : Domain) (fields : List (Value × Value)) (target : Table) (h : Heap)
    (changed : Bool) (final : Table) (later : Heap) : Prop where
  working : Working h later
  formed : Formed room later final
  others : ∀ key, key ∉ fields.map Prod.fst → final.get key = target.get key
  holds : ∀ entry ∈ fields, Holds later domain entry (final.get entry.1)
  kept : ∀ entry ∈ fields, Holds h domain entry (target.get entry.1) → final.get entry.1 = target.get entry.1
  idle : changed = false → final = target
  moved : changed = true → ∃ entry ∈ fields, Moved room later target final entry

theorem mergeFields_merged {room : Nat} (domain : Domain) {fields : List (Value × Value)} {target : Table} {h : Heap}
    (changed : Bool) (closed : h.Closed) (plain : h.Plain) (formed : Formed (room+1) h target)
    (admissible : Admissible (room+1) h domain target fields) :
    ∃ now final later, mergeFields domain fields changed target h = (.ok (changed || now),final,later) ∧
      Merged (room+1) domain fields target h now final later := by
  induction fields generalizing target h changed with
  | nil =>
    exact ⟨false,target,h,by simp [mergeFields],⟨.refl h,closed,plain⟩,formed,fun _ _ => rfl,by simp,by simp,
      fun _ => rfl,by simp⟩
  | cons entry rest ih =>
    have incoming := admissible.incoming entry (by simp)
    have apart : entry.1 ∉ rest.map Prod.fst := (List.nodup_cons.mp admissible.distinct).1
    by_cases settled : Holds h domain entry (target.get entry.1)
    · obtain ⟨middle,working,turn⟩ := mergeFields_skip closed plain formed incoming settled
      have before := formed.extends closed working.grown
      obtain ⟨now,final,later,done,merged⟩ := ih changed working.closed working.plain before
        (admissible.tail closed working.grown formed (fun _ _ => rfl))
      have grown := working.grown.trans merged.working.grown
      refine ⟨now,final,later,by rw [turn]; exact done,⟨grown,merged.working.closed,merged.working.plain⟩,merged.formed,
        ?_,?_,?_,merged.idle,?_⟩
      · intro key outside
        exact merged.others key (fun inside => outside (by simp [inside]))
      · intro other member
        rcases List.mem_cons.mp member with head | tail
        · subst head
          rw [merged.others _ apart,Holds.extends closed grown incoming.inside (formed.get _).inside]
          exact settled
        · exact merged.holds other tail
      · intro other member held
        rcases List.mem_cons.mp member with head | tail
        · subst head
          exact merged.others _ apart
        · apply merged.kept other tail
          rw [Holds.extends closed working.grown (admissible.incoming other member).inside (formed.get _).inside]
          exact held
      · intro now
        obtain ⟨other,member,moved⟩ := merged.moved now
        exact ⟨other,by simp [member],moved⟩
    · have storable : Storable (room+1) h entry := by
        rcases admissible.each entry (by simp) with held | storable
        · exact absurd held settled
        · exact storable
      obtain ⟨name,key,valid⟩ := storable.name
      have isKey : entry.1.isKey = true := by rw [key]; rfl
      obtain ⟨w,next,stored,turn⟩ := mergeFields_store closed plain formed incoming settled storable.encodable
      have working := stored.working
      have after : Formed (room+1) next (target.set entry.1 w) := by
        rw [key]
        exact (formed.extends closed working.grown).set valid stored.good
      obtain ⟨now,final,later,done,merged⟩ := ih true working.closed working.plain after
        (admissible.tail closed working.grown formed (fun _ different => Table.get_set_other different))
      have held : final.get entry.1 = w := (merged.others _ apart).trans (Table.get_set_same isKey stored.present)
      refine ⟨true,final,later,by rw [turn]; simpa using done,
        ⟨working.grown.trans merged.working.grown,merged.working.closed,merged.working.plain⟩,merged.formed,?_,?_,?_,by simp,?_⟩
      · intro key outside
        rw [merged.others key (fun inside => outside (by simp [inside]))]
        exact Table.get_set_other (fun equal => outside (by simp [equal]))
      · intro other member
        rcases List.mem_cons.mp member with head | tail
        · subst head
          rw [held,Holds.extends working.closed merged.working.grown (incoming.extends working.grown).inside stored.good.inside]
          exact stored.holds
        · exact merged.holds other tail
      · intro other member still
        rcases List.mem_cons.mp member with head | tail
        · subst head
          exact absurd still settled
        · have different : other.1 ≠ entry.1 := fun same => apart (same ▸ List.mem_map_of_mem tail)
          have unset : (target.set entry.1 w).get other.1 = target.get other.1 := Table.get_set_other different
          rw [← unset]
          apply merged.kept other tail
          rw [unset,Holds.extends closed working.grown (admissible.incoming other member).inside (formed.get _).inside]
          exact still
      · intro _
        refine ⟨entry,by simp,⟨name,key⟩,by rw [held]; exact stored.present,?_⟩
        rw [held]
        exact stored.differs later merged.working.grown

-- A patch whose values are held already changes nothing.
theorem mergeFields_settled {room : Nat} {domain : Domain} {fields : List (Value × Value)} {target : Table} {h : Heap}
    (changed : Bool) (closed : h.Closed) (plain : h.Plain) (formed : Formed room h target)
    (incoming : ∀ entry ∈ fields, Incoming h entry)
    (holds : ∀ entry ∈ fields, Holds h domain entry (target.get entry.1)) :
    ∃ later, Working h later ∧ ∀ rest,
      mergeFields domain (fields ++ rest) changed target h = mergeFields domain rest changed target later := by
  induction fields generalizing h with
  | nil => exact ⟨h,⟨.refl h,closed,plain⟩,fun _ => rfl⟩
  | cons entry fields ih =>
    obtain ⟨middle,working,turn⟩ := mergeFields_skip closed plain formed (incoming entry (by simp)) (holds entry (by simp))
    have still : ∀ entry ∈ fields, Holds middle domain entry (target.get entry.1) := by
      intro entry member
      rw [Holds.extends closed working.grown (incoming entry (by simp [member])).inside (formed.get _).inside]
      exact holds entry (by simp [member])
    obtain ⟨later,final,rest⟩ := ih working.closed working.plain (formed.extends closed working.grown)
      (fun entry member => (incoming entry (by simp [member])).extends working.grown) still
    refine ⟨later,⟨working.grown.trans final.grown,final.closed,final.plain⟩,?_⟩
    intro others
    rw [List.cons_append,turn,rest]

-- A cyclic value met before anything was stored: the loop ends where it began.
theorem mergeFields_cyclic {room : Nat} {domain : Domain} {before after : List (Value × Value)} {entry : Value × Value}
    {target : Table} {h : Heap} (closed : h.Closed) (plain : h.Plain) (formed : Formed room h target)
    (incoming : ∀ other ∈ before ++ entry :: after, Incoming h other)
    (holds : ∀ other ∈ before, Holds h domain other (target.get other.1))
    (unsettled : ¬Holds h domain entry (target.get entry.1)) (cyclic : ∀ n, ¬Bounded h n entry.2) :
    ∃ message later, Working h later ∧
      mergeFields domain (before ++ entry :: after) false target h = (.error message,target,later) := by
  obtain ⟨later,working,turn⟩ := mergeFields_settled false closed plain formed
    (fun other member => incoming other (by simp [member])) holds
  have arrived := incoming entry (by simp)
  have still : ¬Holds later domain entry (target.get entry.1) := by
    rw [Holds.extends closed working.grown arrived.inside (formed.get _).inside]
    exact unsettled
  obtain ⟨message,refused⟩ := mergeFields_refuse working.closed working.plain (formed.extends closed working.grown)
    (arrived.extends working.grown) still (fun n bounded => cyclic n ((Bounded.extends closed working.grown arrived.inside).mp bounded))
    after false
  exact ⟨message,later,working,by rw [turn]; exact refused⟩

-- snapshot.state: the table over the domain tables.
def domainFields (s : Snapshot) (domains : List Domain) : List (Bytes × Built) :=
  domains.map (fun domain => (domain.name,.table (s.state domain)))

def stateBuilt (s : Snapshot) : Built := .record (domainFields s Domain.all)

def stateValue (store : Store) : Value × Heap := (stateBuilt store.snapshot).realise store.heap

def encodeState (y : Yyjson) (store : Store) : Except Bytes Bytes := encodeBuilt y (stateBuilt store.snapshot) store.heap

-- What every merge keeps.
structure Tidy (room : Nat) (store : Store) : Prop where
  closed : store.heap.Closed
  plain : store.heap.Plain
  formed : ∀ domain, Formed room store.heap (store.snapshot.state domain)

structure Placed (s : Snapshot) (domains : List Domain) (h : Heap) (fields : List (Bytes × Value)) (later : Heap) : Prop where
  grown : h.Extends later
  closed : later.Closed
  names : fields.map Prod.fst = domains.map Domain.name
  tables : ∀ field ∈ fields, ∃ domain a, field = (domain.name,.table a) ∧ h.size ≤ a ∧ a < later.size ∧
    later.table a = s.state domain

-- The domain tables hold values of this heap only.
def Standing (h : Heap) (s : Snapshot) : Prop :=
  ∀ domain, ∀ entry ∈ (s.state domain).entries, entry.1.Within h.size ∧ entry.2.Within h.size

theorem Standing.extends {h later : Heap} {s : Snapshot} (grown : h.Extends later) (standing : Standing h s) :
    Standing later s := by
  intro domain entry member
  have inside := standing domain entry member
  exact ⟨inside.1.mono grown.size,inside.2.mono grown.size⟩

theorem domainFields_placed {s : Snapshot} (domains : List Domain) {h : Heap} (closed : h.Closed) (standing : Standing h s) :
    Placed s domains h (realiseFields (domainFields s domains) h).1 (realiseFields (domainFields s domains) h).2 := by
  induction domains generalizing h with
  | nil => exact ⟨.refl h,closed,rfl,by simp [domainFields,realiseFields]⟩
  | cons domain rest ih =>
    have step := h.alloc_extends (s.state domain)
    have ready := h.alloc_closed closed (standing domain)
    have later := ih ready (standing.extends step)
    simp only [domainFields,List.map_cons,realiseFields,Built.realise]
    refine ⟨step.trans later.grown,later.closed,?_,?_⟩
    · rw [List.map_cons,List.map_cons]
      exact congrArg (List.cons _) later.names
    intro field member
    rcases List.mem_cons.mp member with head | tail
    · have new : h.size < (h.alloc (s.state domain)).size := Nat.lt_succ_self _
      refine ⟨domain,h.size,head,Nat.le_refl _,Nat.lt_of_lt_of_le new later.grown.size,?_⟩
      exact (later.grown.table _ new).trans (h.alloc_new _)
    · obtain ⟨other,a,same,above,below,held⟩ := later.tables field tail
      exact ⟨other,a,same,Nat.le_of_succ_le above,below,held⟩

theorem Domain.names_nodup : (Domain.all.map Domain.name).Nodup := by decide
theorem Domain.name_valid (domain : Domain) : validUtf8 domain.name = true := by cases domain <;> decide

structure StateTable (store : Store) (a : Address) (h : Heap) : Prop where
  grown : store.heap.Extends h
  closed : h.Closed
  proper : a ≠ h.null
  domains : ∀ domain : Domain, ∃ b, (h.table a).get (.string domain.name) = .table b ∧ b ≠ h.null ∧
    h.table b = store.snapshot.state domain

theorem Tidy.standing {room : Nat} {store : Store} (tidy : Tidy room store) : Standing store.heap store.snapshot :=
  fun domain => (tidy.formed domain).entries_within

theorem stateValue_table {store : Store} (ready : store.heap.Closed) (standing : Standing store.heap store.snapshot) :
    ∃ a, (stateValue store).1 = .table a ∧ StateTable store a (stateValue store).2 := by
  have placed := domainFields_placed Domain.all ready standing
  simp only [stateValue,stateBuilt,Built.realise]
  generalize realiseFields (domainFields store.snapshot Domain.all) store.heap = both at placed ⊢
  obtain ⟨fields,h⟩ := both
  dsimp only at placed ⊢
  have distinct : (fields.map Prod.fst).Nodup := by rw [placed.names]; exact Domain.names_nodup
  have present : ∀ field ∈ fields, field.2 ≠ .nil := by
    intro field member
    obtain ⟨_,_,same,_⟩ := placed.tables field member
    simp [same]
  have step := h.alloc_extends (.record fields)
  have tables : ∀ field ∈ fields, ∃ domain b, field = (Domain.name domain,.table b) ∧ b ≠ (h.alloc (.record fields)).null ∧
      (h.alloc (.record fields)).table b = store.snapshot.state domain := by
    intro field member
    obtain ⟨domain,b,same,above,below,held⟩ := placed.tables field member
    refine ⟨domain,b,same,?_,by rw [h.alloc_old _ below]; exact held⟩
    have small := ready.null
    rw [h.alloc_null,placed.grown.null]
    exact Nat.ne_of_gt (Nat.lt_of_lt_of_le small above)
  refine ⟨h.size,rfl,placed.grown.trans step,?_,Nat.ne_of_gt placed.closed.null,?_⟩
  · apply h.alloc_closed placed.closed
    intro entry member
    obtain ⟨field,listed,rfl⟩ := Table.mem_of_mem_record member
    obtain ⟨_,b,same,_,below,_⟩ := placed.tables field listed
    refine ⟨trivial,?_⟩
    rw [same]
    exact below
  · intro domain
    have listed : domain.name ∈ fields.map Prod.fst := by
      rw [placed.names]
      exact List.mem_map.mpr ⟨domain,Domain.mem_all domain,rfl⟩
    obtain ⟨field,member,named⟩ := List.mem_map.mp listed
    obtain ⟨other,b,same,proper,held⟩ := tables field member
    subst same
    have which : other = domain := by
      have parsed := Domain.parse_name other
      dsimp only at named
      rw [named,Domain.parse_name] at parsed
      exact (Option.some.inj parsed).symm
    subst which
    refine ⟨b,?_,proper,held⟩
    rw [h.alloc_new]
    exact Table.record_get distinct present member

def leaf : Value → Bool
  | .boolean _ | .integer _ => true
  | .string s => validUtf8 s
  | _ => false

theorem leaf_good {v : Value} (ok : leaf v = true) (room : Nat) (h : Heap) : Good room h v := by
  cases v with
  | boolean b => exact ⟨encodable_boolean h room b,trivial,by simp⟩
  | integer i => exact ⟨encodable_integer h room i,trivial,by simp⟩
  | string s => exact ⟨encodable_string h room ok,trivial,by simp⟩
  | _ => simp [leaf] at ok

-- A record over leaves and the listed tables.
def recordOver (below : List Address) (fields : List (Bytes × Value)) : Bool :=
  fields.all (fun field => validUtf8 field.1 && (leaf field.2 || below.any (fun a => field.2 == .table a)))

theorem recordOver_entry {below : List Address} {fields : List (Bytes × Value)} (ok : recordOver below fields = true)
    {entry : Value × Value} (member : entry ∈ (Table.record fields).entries) :
    ∃ name, entry.1 = .string name ∧ validUtf8 name = true ∧ (leaf entry.2 = true ∨ ∃ a ∈ below, entry.2 = .table a) := by
  obtain ⟨field,listed,rfl⟩ := Table.mem_of_mem_record member
  have each := List.all_eq_true.mp ok field listed
  simp only [Bool.and_eq_true,Bool.or_eq_true,List.any_eq_true,beq_iff_eq] at each
  exact ⟨field.1,rfl,each⟩

theorem initialTable_marked {record : Option (List (Bytes × Value))} (marked : (initialTable record).marked = true) :
    (initialTable record).entries = [] := by
  cases record with
  | none => rfl
  | some fields =>
    rw [initialTable,Table.record,Table.build_marked] at marked
    cases marked

theorem initialTable_entry {below : List Address} {record : Option (List (Bytes × Value))}
    (ok : ∀ fields, record = some fields → recordOver below fields = true) {entry : Value × Value}
    (member : entry ∈ (initialTable record).entries) :
    ∃ name, entry.1 = .string name ∧ validUtf8 name = true ∧ (leaf entry.2 = true ∨ ∃ a ∈ below, entry.2 = .table a) := by
  cases record with
  | none => simp [initialTable,Table.empty] at member
  | some fields => exact recordOver_entry (ok fields rfl) member

theorem initial_records (config : Config) {fields : List (Bytes × Value)}
    (listed : some fields ∈ initialRecords config) : recordOver [2,11] fields = true := by
  have checked : (initialRecords config).all (fun record => match record with
      | some fields => recordOver [2,11] fields
      | none => true) = true := by rfl
  exact List.all_eq_true.mp checked _ listed

theorem initial_entry (config : Config) (a : Address) {entry : Value × Value}
    (member : entry ∈ ((initialHeap config).table a).entries) :
    ∃ name, entry.1 = .string name ∧ validUtf8 name = true ∧
      (leaf entry.2 = true ∨ ∃ b ∈ [2,11], entry.2 = .table b) := by
  refine initialTable_entry ?_ member
  intro fields found
  apply initial_records config
  rw [List.getD_eq_getElem?_getD] at found
  cases held : (initialRecords config)[a]? with
  | none => simp [held] at found
  | some record =>
    rw [held] at found
    have same : record = some fields := found
    exact same ▸ List.mem_of_getElem? held

theorem initial_leaves (config : Config) {b : Address} (which : b ∈ [2,11]) {entry : Value × Value}
    (member : entry ∈ ((initialHeap config).table b).entries) :
    ∃ name, entry.1 = .string name ∧ validUtf8 name = true ∧ leaf entry.2 = true := by
  have ok : ∀ fields, (initialRecords config).getD b none = some fields → recordOver [] fields = true := by
    intro fields found
    simp only [List.mem_cons,List.not_mem_nil,or_false] at which
    rcases which with two | eleven
    · subst two
      cases found
      rfl
    · subst eleven
      cases found
      rfl
  obtain ⟨name,key,valid,value⟩ := initialTable_entry ok member
  rcases value with flat | ⟨_,listed,_⟩
  · exact ⟨name,key,valid,flat⟩
  · simp at listed

theorem inner_table (config : Config) {b : Address} (which : b ∈ [2,11]) :
    b < 13 ∧ b ≠ 0 ∧ ((initialHeap config).table b).marked = false := by
  simp only [List.mem_cons,List.not_mem_nil,or_false] at which
  rcases which with two | eleven
  · subst two
    exact ⟨by decide,by decide,Table.build_marked _ _⟩
  · subst eleven
    exact ⟨by decide,by decide,Table.build_marked _ _⟩

theorem initial_closed (config : Config) : (initialHeap config).Closed := by
  refine ⟨Nat.zero_lt_succ 12,rfl,?_⟩
  intro a bound entry member
  obtain ⟨name,key,_,value⟩ := initial_entry config a member
  refine ⟨by rw [key]; trivial,?_⟩
  rcases value with ok | ⟨b,listed,same⟩
  · exact (leaf_good ok 0 (initialHeap config)).inside
  · rw [same]
    exact (inner_table config listed).1

theorem initial_plain (config : Config) : (initialHeap config).Plain := by
  refine ⟨fun a _ => initialTable_marked,?_⟩
  intro a bound entry member
  obtain ⟨name,key,_,value⟩ := initial_entry config a member
  refine ⟨by rw [key]; simp,?_⟩
  rcases value with ok | ⟨b,listed,same⟩
  · exact (leaf_good ok 0 (initialHeap config)).proper
  · rw [same]
    intro null
    injection null with null
    exact (inner_table config listed).2.1 null

theorem initial_good (config : Config) (room : Nat) {a : Address} (bound : a < 13) (proper : a ≠ 0) :
    Good (room+2) (initialHeap config) (.table a) := by
  have inner : ∀ b ∈ [2,11], Encodable (initialHeap config) (room+1) (.table b) := by
    intro b which
    obtain ⟨_,real,plain⟩ := inner_table config which
    apply encodable_object real plain
    intro entry member
    obtain ⟨name,key,valid,value⟩ := initial_leaves config which member
    exact ⟨name,key,valid,(leaf_good value room _).encodable⟩
  refine ⟨?_,bound,by simpa [initialHeap] using proper⟩
  cases marked : ((initialHeap config).table a).marked with
  | true => exact encodable_empty (room+1) proper (initialTable_marked marked)
  | false =>
    apply encodable_object proper marked
    intro entry member
    obtain ⟨name,key,valid,value⟩ := initial_entry config a member
    refine ⟨name,key,valid,?_⟩
    rcases value with ok | ⟨b,listed,same⟩
    · exact (leaf_good ok (room+1) _).encodable
    · rw [same]
      exact inner b listed

-- The two texts of the boot configuration that the state publishes.
structure Bootable (configPath : Bytes) (config : Config) : Prop where
  path : validUtf8 configPath = true
  socket : validUtf8 config.runtime.socketPath = true

theorem initial_fields {configPath : Bytes} {config : Config} (bootable : Bootable configPath config) (domain : Domain) :
    recordOver [1,3,4,5,6,7,8,9,10,12] (initialFields configPath config domain) = true := by
  cases domain with
  | runtime =>
    simp only [initialFields,recordOver,List.all_cons,leaf,bootable.path,bootable.socket,Bool.true_or,Bool.and_true]
    rfl
  | _ => rfl

theorem initial_tidy {configPath : Bytes} {config : Config} (bootable : Bootable configPath config) (room : Nat) :
    Tidy (room+2) (new configPath config) := by
  refine ⟨initial_closed config,initial_plain config,?_⟩
  intro domain
  have fields := initial_fields bootable domain
  refine ⟨Table.build_marked _ _,?_,?_⟩
  · intro entry member
    obtain ⟨name,key,valid,_⟩ := recordOver_entry fields member
    exact ⟨name,key,valid⟩
  · intro entry member
    obtain ⟨_,_,_,value⟩ := recordOver_entry fields member
    rcases value with ok | ⟨a,listed,same⟩
    · exact leaf_good ok _ _
    · rw [same]
      have places : ∀ a ∈ [1,3,4,5,6,7,8,9,10,12], a < 13 ∧ a ≠ 0 := by decide
      exact initial_good config room (places a listed).1 (places a listed).2

-- Field values sit two tables down in json.encode(snapshot.state).
def fieldRoom : Nat := maxDepth - 2

-- A patch as it comes out of ltask: fresh tables, so no marks and no json.null.
structure Arrived (before h : Heap) (p : Address) : Prop where
  grown : before.Extends h
  closed : h.Closed
  unmarked : ∀ a, before.size ≤ a → a < h.size → (h.table a).marked = false
  nulls : ∀ a, before.size ≤ a → a < h.size → ∀ entry ∈ (h.table a).entries,
    entry.1 ≠ .table h.null ∧ entry.2 ≠ .table h.null
  fresh : before.size ≤ p ∧ p < h.size

-- A heap grown by unmarked tables that hold no json.null.
structure Grown (before h : Heap) : Prop where
  grown : before.Extends h
  closed : h.Closed
  unmarked : ∀ a, before.size ≤ a → a < h.size → (h.table a).marked = false
  nulls : ∀ a, before.size ≤ a → a < h.size → ∀ entry ∈ (h.table a).entries,
    entry.1 ≠ .table h.null ∧ entry.2 ≠ .table h.null

theorem Grown.refl {h : Heap} (closed : h.Closed) : Grown h h :=
  ⟨.refl h,closed,fun _ above below => absurd below (by omega),fun _ above below => absurd below (by omega)⟩

theorem Grown.alloc {before h : Heap} {t : Table} (grown : Grown before h) (plain : t.marked = false)
    (inside : ∀ entry ∈ t.entries, entry.1.Within h.size ∧ entry.2.Within h.size)
    (nulls : ∀ entry ∈ t.entries, entry.1 ≠ .table h.null ∧ entry.2 ≠ .table h.null) : Grown before (h.alloc t) := by
  refine ⟨grown.grown.trans (h.alloc_extends t),h.alloc_closed grown.closed inside,?_,?_⟩
  · intro a above below
    rcases Nat.lt_succ_iff_lt_or_eq.mp below with old | new
    · rw [h.alloc_old t old]
      exact grown.unmarked a above old
    · subst new
      rw [h.alloc_new]
      exact plain
  · intro a above below
    rcases Nat.lt_succ_iff_lt_or_eq.mp below with old | new
    · rw [h.alloc_old t old]
      exact grown.nulls a above old
    · subst new
      rw [h.alloc_new]
      exact nulls

theorem Grown.formed {before h : Heap} {room : Nat} {t : Table} (grown : Grown before h) (formed : Formed room h t) :
    Grown before (h.alloc t) := by
  refine grown.alloc formed.unmarked formed.entries_within ?_
  intro entry member
  obtain ⟨name,key,_⟩ := formed.names entry member
  exact ⟨by simp [key],(formed.values entry member).proper⟩

theorem Grown.arrived {before h : Heap} {p : Address} (grown : Grown before h) (above : before.size ≤ p)
    (below : p < h.size) : Arrived before h p :=
  ⟨grown.grown,grown.closed,grown.unmarked,grown.nulls,⟨above,below⟩⟩

-- One whose keys are field names and whose values json.encode accepts in place.
structure Delivered (room : Nat) (before h : Heap) (p : Address) : Prop extends Arrived before h p where
  storable : ∀ entry ∈ (h.table p).entries, Storable room h entry

theorem Arrived.plain {before h : Heap} {p : Address} (arrived : Arrived before h p) (plain : before.Plain) : h.Plain := by
  constructor
  · intro a bound marked
    rcases Nat.lt_or_ge a before.size with old | new
    · rw [arrived.grown.table a old] at marked ⊢
      exact plain.marks a old marked
    · rw [arrived.unmarked a new bound] at marked
      cases marked
  · intro a bound
    rcases Nat.lt_or_ge a before.size with old | new
    · rw [arrived.grown.table a old,arrived.grown.null]
      exact plain.nulls a old
    · exact arrived.nulls a new bound

theorem Arrived.incoming {before h : Heap} {p : Address} (arrived : Arrived before h p) :
    ∀ entry ∈ (h.table p).entries, Incoming h entry := by
  intro entry member
  obtain ⟨above,below⟩ := arrived.fresh
  exact ⟨(h.table p).present entry member,(arrived.closed.entries p below entry member).2,
    (arrived.nulls p above below entry member).2⟩

theorem Delivered.admissible {room : Nat} {before h : Heap} {p : Address} (delivered : Delivered room before h p)
    (domain : Domain) (target : Table) : Admissible room h domain target (h.table p).entries :=
  ⟨(h.table p).distinct,delivered.incoming,fun entry member => .inr (delivered.storable entry member)⟩

theorem Tidy.arrived {room : Nat} {store : Store} {h : Heap} {p : Address} (tidy : Tidy room store)
    (arrived : Arrived store.heap h p) : Tidy room ⟨store.snapshot,h⟩ :=
  ⟨arrived.closed,arrived.plain tidy.plain,fun domain => (tidy.formed domain).extends tidy.closed arrived.grown⟩

-- The outcome of merging admissible fields into one domain.
structure Outcome (room : Nat) (store : Store) (domain : Domain) (fields : List (Value × Value)) (changed : Bool)
    (after : Store) : Prop where
  tidy : Tidy room after
  revision : after.snapshot.revision = store.snapshot.revision + if changed then 1 else 0
  domains : ∀ other, other ≠ domain → after.snapshot.state other = store.snapshot.state other
  merged : Merged room domain fields (store.snapshot.state domain) store.heap changed
    (after.snapshot.state domain) after.heap

theorem merge_outcome (room : Nat) {store : Store} (domain : Domain) {p : Address} (tidy : Tidy (room+1) store)
    (admissible : Admissible (room+1) store.heap domain (store.snapshot.state domain) (store.heap.table p).entries) :
    ∃ changed after, merge store domain.name (.table p) = (.ok (changed,after.snapshot.revision),after) ∧
      Outcome (room+1) store domain (store.heap.table p).entries changed after := by
  obtain ⟨changed,final,later,done,merged⟩ :=
    mergeFields_merged domain false tidy.closed tidy.plain (tidy.formed domain) admissible
  refine ⟨changed,⟨{ replace store.snapshot domain final with
    revision := if changed then store.snapshot.revision + 1 else store.snapshot.revision },later⟩,?_,?_⟩
  · simp only [merge,Domain.parse_name,done,Bool.false_or]
  · refine ⟨⟨merged.working.closed,merged.working.plain,?_⟩,?_,?_,?_⟩
    · intro other
      by_cases same : other = domain
      · subst same
        simpa [replace] using merged.formed
      · simpa [replace,same] using (tidy.formed other).extends tidy.closed merged.working.grown
    · cases changed <;> simp
    · intro other different
      simp [replace,different]
    · simpa [replace] using merged

theorem Outcome.idle {room : Nat} {store after : Store} {domain : Domain} {fields : List (Value × Value)}
    (outcome : Outcome room store domain fields false after) : after.snapshot = store.snapshot := by
  have state : after.snapshot.state = store.snapshot.state := by
    funext other
    by_cases here : other = domain
    · rw [here]
      exact outcome.merged.idle rfl
    · exact outcome.domains other here
  have revision := outcome.revision
  obtain ⟨⟨revisionAfter,stateAfter⟩,heap⟩ := after
  obtain ⟨⟨revisionBefore,stateBefore⟩,_⟩ := store
  simp_all

theorem encodeState_document {y : Yyjson} {store : Store} {s : Bytes} (tidy : Tidy fieldRoom store)
    (encoded : encodeState y store = .ok s) :
    ∃ a h d, StateTable store a h ∧ document h (fieldRoom+2) (.table a) = .ok d ∧ y.read s = .ok d.canonical := by
  obtain ⟨a,root,table⟩ := stateValue_table tidy.closed tidy.standing
  change encode y (stateValue store).2 (stateValue store).1 = .ok s at encoded
  rw [root] at encoded
  obtain ⟨d,value,written⟩ := encode_ok encoded
  exact ⟨a,_,d,table,(encode_iff_document table.closed).mp value,write_ok written⟩

-- A field in two stores that are written the same has one document.
theorem same_text_field {y : Yyjson} {before after : Store} {s : Bytes} (tidyBefore : Tidy fieldRoom before)
    (tidyAfter : Tidy fieldRoom after) (left : encodeState y before = .ok s) (right : encodeState y after = .ok s)
    {domain : Domain} {name : Bytes} (present : (after.snapshot.state domain).get (.string name) ≠ .nil) :
    (before.snapshot.state domain).get (.string name) ≠ .nil ∧
    ∃ x y, document before.heap fieldRoom ((before.snapshot.state domain).get (.string name)) = .ok x ∧
      document after.heap fieldRoom ((after.snapshot.state domain).get (.string name)) = .ok y ∧
      x.canonical = y.canonical := by
  obtain ⟨a,h,d,table,document,read⟩ := encodeState_document tidyBefore left
  obtain ⟨b,k,e,other,documentAfter,readAfter⟩ := encodeState_document tidyAfter right
  have canonical : e.canonical = d.canonical := by
    rw [read] at readAfter
    exact (Except.ok.inj readAfter).symm
  obtain ⟨domainBefore,fetched,proper,held⟩ := table.domains domain
  obtain ⟨domainAfter,fetchedAfter,properAfter,heldAfter⟩ := other.domains domain
  obtain ⟨_,x,z,first,second,docs⟩ := member_canonical other.proper table.proper documentAfter document canonical
    (by rw [fetchedAfter]; simp)
  rw [fetchedAfter] at first
  rw [fetched] at second
  obtain ⟨found,x,z,first,second,docs⟩ := member_canonical properAfter proper first second docs
    (by rw [heldAfter]; exact present)
  rw [heldAfter] at first
  rw [held] at found second
  refine ⟨found,z,x,?_,?_,docs.symm⟩
  · have good := (tidyBefore.formed domain).get (.string name)
    obtain ⟨x',original,_⟩ := good.encodable
    rw [document_extends tidyBefore.closed table.grown good.inside original] at second
    cases second
    exact original
  · have good := (tidyAfter.formed domain).get (.string name)
    obtain ⟨x',original,_⟩ := good.encodable
    rw [document_extends tidyAfter.closed other.grown good.inside original] at first
    cases first
    exact original

theorem domainFields_ok {room : Nat} {store : Store} (tidy : Tidy room store) (domains : List Domain) :
    FieldsOk store.heap (room+1) (domainFields store.snapshot domains) := by
  induction domains with
  | nil => simp [domainFields,FieldsOk]
  | cons domain rest ih =>
    simp only [domainFields,List.map_cons,FieldsOk,Built.Ok]
    exact ⟨Domain.name_valid domain,⟨room,rfl,tidy.formed domain⟩,ih⟩

theorem stateBuilt_ok {room : Nat} {store : Store} (tidy : Tidy room store) :
    (stateBuilt store.snapshot).Ok store.heap (room+2) := by
  simp only [stateBuilt,Built.Ok]
  refine ⟨room+1,rfl,?_,domainFields_ok tidy Domain.all⟩
  simpa [domainFields,Function.comp_def] using Domain.names_nodup

theorem encodeState_ok (y : Yyjson) {store : Store} (tidy : Tidy fieldRoom store) : ∃ s, encodeState y store = .ok s := by
  obtain ⟨s,all⟩ := encodeBuilt_text y tidy.closed (stateBuilt_ok tidy)
  exact ⟨s,all store.heap (.refl _) tidy.closed⟩

theorem same_state_text {y : Yyjson} {before after : Store} {s : Bytes} (tidy : Tidy fieldRoom before)
    (tidyAfter : Tidy fieldRoom after) (grown : before.heap.Extends after.heap)
    (same : after.snapshot.state = before.snapshot.state) (encoded : encodeState y before = .ok s) :
    encodeState y after = .ok s := by
  obtain ⟨t,all⟩ := encodeBuilt_text y tidy.closed (stateBuilt_ok tidy)
  have built : stateBuilt after.snapshot = stateBuilt before.snapshot := by simp only [stateBuilt,domainFields,same]
  rw [encodeState,all before.heap (.refl _) tidy.closed] at encoded
  rw [encodeState,built,all after.heap grown tidyAfter.closed]
  exact encoded

theorem changed_iff_text {y : Yyjson} {before after : Store} {domain : Domain} {fields : List (Value × Value)}
    {changed : Bool} {s t : Bytes} (tidy : Tidy fieldRoom before)
    (outcome : Outcome fieldRoom before domain fields changed after)
    (left : encodeState y before = .ok s) (right : encodeState y after = .ok t) : changed = true ↔ s ≠ t := by
  constructor
  · intro change same
    subst same
    obtain ⟨entry,_,moved⟩ := outcome.merged.moved change
    obtain ⟨name,key⟩ := moved.name
    have present := moved.present
    have differs := moved.differs
    rw [key] at present differs
    obtain ⟨_,x,z,first,second,canonical⟩ := same_text_field tidy outcome.tidy left right present
    have good := (tidy.formed domain).get (.string name)
    exact differs x z (document_extends tidy.closed outcome.merged.working.grown good.inside first) second canonical
  · intro different
    by_contra still
    rw [Bool.not_eq_true] at still
    subst still
    have same := congrArg Snapshot.state outcome.idle
    rw [same_state_text tidy outcome.tidy outcome.merged.working.grown same left] at right
    exact different (Except.ok.inj right)

-- Every store that merges can lead to, from a fresh one. A call that names no
-- domain raises and leaves the snapshot as it was.
inductive Reached (configPath : Bytes) (config : Config) : Store → Prop
  | start : Reached configPath config (new configPath config)
  | merge {store : Store} {h : Heap} {p : Address} (name : Bytes) (reached : Reached configPath config store)
      (delivered : Delivered fieldRoom store.heap h p) :
      Reached configPath config (merge ⟨store.snapshot,h⟩ name (.table p)).2

theorem merge_unknown {name : Bytes} (unknown : Domain.parse name = none) (store : Store) (patch : Value) :
    (merge store name patch).2 = store := by
  simp only [merge,unknown]

theorem reached_tidy {configPath : Bytes} {config : Config} {store : Store} (bootable : Bootable configPath config)
    (reached : Reached configPath config store) : Tidy fieldRoom store := by
  induction reached with
  | start => exact initial_tidy bootable 252
  | @merge store h p name _ delivered ih =>
    have ready := ih.arrived delivered.toArrived
    cases found : Domain.parse name with
    | none =>
      rw [merge_unknown found]
      exact ready
    | some domain =>
      obtain ⟨changed,after,done,outcome⟩ := merge_outcome 253 domain ready (delivered.admissible domain _)
      rw [Domain.name_of_parse found] at done
      rw [done]
      exact outcome.tidy

-- What one merge owes its caller.
structure Exact (y : Yyjson) (before : Store) (domain : Domain) (p : Address) (changed : Bool) (after : Store) : Prop where
  text : ∃ s t, encodeState y before = .ok s ∧ encodeState y after = .ok t ∧ (changed = true ↔ s ≠ t)
  revision : after.snapshot.revision = before.snapshot.revision + if changed then 1 else 0
  heap : before.heap.Extends after.heap
  domains : ∀ other, other ≠ domain → after.snapshot.state other = before.snapshot.state other
  others : ∀ key, key ∉ (before.heap.table p).entries.map Prod.fst →
    (after.snapshot.state domain).get key = (before.snapshot.state domain).get key
  holds : ∀ entry ∈ (before.heap.table p).entries,
    Holds after.heap domain entry ((after.snapshot.state domain).get entry.1)
  again : (merge after domain.name (.table p)).1 = .ok (false,after.snapshot.revision)

theorem merge_exact (y : Yyjson) {configPath : Bytes} {config : Config} {store : Store} {h : Heap} {p : Address}
    (domain : Domain) (bootable : Bootable configPath config) (reached : Reached configPath config store)
    (delivered : Delivered fieldRoom store.heap h p) :
    ∃ changed after, merge ⟨store.snapshot,h⟩ domain.name (.table p) = (.ok (changed,after.snapshot.revision),after) ∧
      Exact y ⟨store.snapshot,h⟩ domain p changed after := by
  have tidy := (reached_tidy bootable reached).arrived delivered.toArrived
  obtain ⟨changed,after,done,outcome⟩ := merge_outcome 253 domain tidy (delivered.admissible domain _)
  obtain ⟨s,left⟩ := encodeState_ok y tidy
  obtain ⟨t,right⟩ := encodeState_ok y outcome.tidy
  have grown := outcome.merged.working.grown
  refine ⟨changed,after,done,⟨s,t,left,right,changed_iff_text tidy outcome left right⟩,outcome.revision,grown,
    outcome.domains,outcome.merged.others,outcome.merged.holds,?_⟩
  have patch : after.heap.table p = h.table p := grown.table p delivered.fresh.2
  obtain ⟨later,_,settled⟩ := mergeFields_settled false outcome.tidy.closed outcome.tidy.plain (outcome.tidy.formed domain)
    (fun entry member => (delivered.incoming entry member).extends grown) outcome.merged.holds
  have loop := settled []
  rw [List.append_nil] at loop
  simp only [merge,Domain.parse_name,patch,loop,mergeFields]
  rfl

theorem formed_delivered {room : Nat} {before h : Heap} {t : Table} (grown : Grown before h) (formed : Formed room h t) :
    Delivered room before (h.alloc t) h.size := by
  refine ⟨(grown.formed formed).arrived grown.grown.size (Nat.lt_succ_self _),?_⟩
  intro entry member
  rw [h.alloc_new] at member
  exact ⟨formed.names entry member,((formed.values entry member).extends grown.closed (h.alloc_extends t)).encodable⟩

-- Setting runtime.ready, for the runs of the modules that follow.
def readyHeap : Heap := (initialHeap allSources).alloc (.record [(text "ready",flag true)])

-- Hyprland reports its one workspace; then another one is active and the list
-- arrives empty.
def workspace (id : Int64) (name : Bytes) : Table :=
  .record [(text "id",.integer id),(text "monitor",.string (text "DP-1")),(text "name",.string name)]

def shownHeap : Heap :=
  (((initialHeap allSources).alloc (workspace 2 (text "web"))).alloc (.build false [(arrayKey 0,.table 13)])).alloc
    (.record [(text "workspaces",.table 14)])

def shown : Store := (merge ⟨(new (text "config.lua") allSources).snapshot,shownHeap⟩ (text "hyprland") (.table 15)).2

def emptiedHeap : Heap :=
  ((shown.heap.alloc (workspace 3 (text "mail"))).alloc (.empty false)).alloc
    (.record [(text "active_workspace",.table 18),(text "workspaces",.table 19)])

theorem workspace_formed {id : Int64} {name : Bytes} (valid : validUtf8 name = true) (h : Heap) (room : Nat) :
    Formed room h (workspace id name) := by
  apply record_formed
  intro field listed
  simp only [List.mem_cons,List.not_mem_nil,or_false] at listed
  rcases listed with rfl | rfl | rfl
  · exact ⟨rfl,leaf_good rfl room h⟩
  · exact ⟨rfl,leaf_good rfl room h⟩
  · exact ⟨rfl,encodable_string h room valid,trivial,by simp⟩

theorem shown_delivered (room : Nat) : Delivered (room+2) (initialHeap allSources) shownHeap 15 := by
  have named : Grown (initialHeap allSources) ((initialHeap allSources).alloc (workspace 2 (text "web"))) :=
    (Grown.refl (initial_closed allSources)).formed (workspace_formed rfl _ 0)
  have only : ∀ entry ∈ (Table.build false [(arrayKey 0,.table 13)]).entries, entry = (arrayKey 0,.table 13) := by decide
  refine formed_delivered (named.alloc (t := .build false [(arrayKey 0,.table 13)]) rfl ?_ ?_) (record_formed ?_)
  · intro entry member
    rw [only entry member]
    exact ⟨trivial,Nat.lt_succ_self 13⟩
  · intro entry member
    rw [only entry member]
    exact ⟨by decide,by decide⟩
  · intro field member
    rw [List.mem_singleton.mp member]
    refine ⟨rfl,?_,Nat.lt_succ_self 14,by decide⟩
    refine (?_ : Encodable _ 2 _).le (Nat.le_add_left 2 room)
    exact ⟨_,rfl,by decide⟩

theorem shown_reached : Reached (text "config.lua") allSources shown := .merge _ .start (shown_delivered 252)

theorem emptied_delivered (room : Nat) : Delivered (room+2) shown.heap emptiedHeap 20 := by
  have closed := (reached_tidy ⟨by decide,by decide⟩ shown_reached).closed
  have mail : Formed (room+1) shown.heap (workspace 3 (text "mail")) := workspace_formed rfl _ _
  have named := (Grown.refl closed).formed mail
  have empty : Formed (room+1) (shown.heap.alloc (workspace 3 (text "mail"))) (.record []) := record_formed (by simp)
  refine formed_delivered (named.formed empty) (record_formed ?_)
  intro field member
  rcases List.mem_cons.mp member with rfl | rest
  · exact ⟨rfl,(mail.alloc closed).extends named.closed (Heap.alloc_extends _ _)⟩
  · rw [List.mem_singleton.mp rest]
    exact ⟨rfl,empty.alloc named.closed⟩

theorem emptied_merge_exact :
    (merge ⟨shown.snapshot,emptiedHeap⟩ (text "hyprland") (.table 20)).1 = .ok (true,2) ∧
    ∃ changed after, merge ⟨shown.snapshot,emptiedHeap⟩ (text "hyprland") (.table 20) =
        (.ok (changed,after.snapshot.revision),after) ∧
      Exact JsonText.reference ⟨shown.snapshot,emptiedHeap⟩ .hyprland 20 changed after :=
  ⟨rfl,merge_exact JsonText.reference .hyprland ⟨by decide,by decide⟩ shown_reached (emptied_delivered 252)⟩

end Hypringo.StateMerge

import Hypringo.StateDelivery

namespace Hypringo.StateChange
open Hypringo.Lua Json Document State StateMerge StateDelivery

def Reads (store : Store) (domain : Domain) (key : Value) (d : Doc) : Prop :=
  ∃ room, document store.heap room ((store.snapshot.state domain).get key) = .ok d

-- What is stored for a value: M.merge repairs an empty list.
def repaired (domain : Domain) (h : Heap) (entry : Value × Value) (d : Doc) : Doc :=
  if arrayField domain entry.1 && isEmptyTable h entry.2 then .array [] else d

structure Resolved (domain : Domain) (fields : List (Value × Value)) (target : Table) (h : Heap) (changed : Bool)
    (final : Table) (later : Heap) : Prop where
  working : Working h later
  changed : changed = true ↔ ∃ entry ∈ fields, ¬Holds h domain entry (target.get entry.1)
  kept : ∀ entry ∈ fields, Holds h domain entry (target.get entry.1) → final.get entry.1 = target.get entry.1
  moved : ∀ entry ∈ fields, ¬Holds h domain entry (target.get entry.1) → ∀ room d, document h room entry.2 = .ok d →
    ∃ room, document later room (final.get entry.1) = .ok (repaired domain h entry d)

theorem normalise_document (domain : Domain) {entry : Value × Value} {h : Heap} (closed : h.Closed) {room : Nat} {d : Doc}
    (found : document h room entry.2 = .ok d) :
    ∃ room, document (normalise domain entry.1 entry.2 h).2 room (normalise domain entry.1 entry.2 h).1 =
      .ok (repaired domain h entry d) := by
  simp only [normalise,repaired]
  split
  · have proper : h.size ≠ (h.alloc (.empty true)).null := Nat.ne_of_gt closed.null
    refine ⟨1,?_⟩
    rw [document_table proper,h.alloc_new]
    rfl
  · exact ⟨room,found⟩

-- One turn of the loop either passes the field by or stores a copy.
theorem mergeFields_decided (domain : Domain) {entry : Value × Value} {target : Table} {h : Heap} (closed : h.Closed)
    (plain : h.Plain) (documented : ∀ key, Documented h (target.get key)) (sent : Sent h entry) :
    ∃ now next middle, Resolved domain [entry] target h now next middle ∧ (∀ key, Documented middle (next.get key)) ∧
      (∀ key, key ≠ entry.1 → next.get key = target.get key) ∧ ∀ rest changed,
        mergeFields domain (entry :: rest) changed target h = mergeFields domain rest (changed || now) next middle := by
  have normal := normalise_spec domain closed plain sent.incoming
  have value := normalise_documented domain closed sent
  have stands : ∀ room d, document h room entry.2 = .ok d → ∃ room,
      document (normalise domain entry.1 entry.2 h).2 room (normalise domain entry.1 entry.2 h).1 =
        .ok (repaired domain h entry d) := fun _ _ found => normalise_document domain closed found
  have working := normal.working
  have before : ∀ key, Documented _ (target.get key) := fun key => (documented key).extends closed working.grown
  obtain ⟨key,v⟩ := entry
  have decided := equal_documented working.closed (before key) (normalise domain key v h).1
  have exact : Same (normalise domain key v h).2 (target.get key) (normalise domain key v h).1 ↔
      Holds h domain (key,v) (target.get key) :=
    (normal.holds _ (.refl _) _ (before key).inside).trans
      (Holds.extends closed working.grown sent.documented.inside (documented key).inside)
  by_cases same : Same (normalise domain key v h).2 (target.get key) (normalise domain key v h).1
  · have settled := exact.mp same
    refine ⟨false,target,_,⟨working,?_,?_,?_⟩,before,fun _ _ => rfl,?_⟩
    · simpa using settled
    · intro entry member _
      rfl
    · intro entry member unsettled
      rw [List.mem_singleton.mp member] at unsettled
      exact absurd settled unsettled
    · intro rest changed
      simp only [mergeFields]
      rw [if_pos (decided.mpr same),Bool.or_false]
  · have unsettled : ¬Holds h domain (key,v) (target.get key) := fun settled => same (exact.mpr settled)
    obtain ⟨room,d,found⟩ := value.document
    obtain ⟨w,later,copied,spec⟩ := copy_document working.closed working.plain found
      ⟨.refl _,working.closed,working.plain⟩ value.inside value.proper (.nil _ _) (value.bounded working.closed)
    have stored : w ≠ .nil := fun absent => normal.incoming.present (spec.present absent)
    have set : (target.set key w).get key = w := Table.get_set_same sent.key stored
    refine ⟨true,target.set key w,later,⟨⟨working.grown.trans spec.grown,spec.working.closed,spec.working.plain⟩,?_,?_,?_⟩,
      ?_,fun other different => Table.get_set_other different,?_⟩
    · simpa using unsettled
    · intro entry member settled
      rw [List.mem_singleton.mp member] at settled
      exact absurd settled unsettled
    · intro entry member _ size e origin
      rw [List.mem_singleton.mp member] at origin ⊢
      obtain ⟨room',normalised⟩ := stands size e origin
      have agreed : d = repaired domain h (key,v) e := by
        have one := document_le found (Nat.le_max_left room room')
        have two := document_le normalised (Nat.le_max_right room room')
        exact Except.ok.inj (one.symm.trans two)
      change ∃ room, document later room ((target.set key w).get key) = _
      rw [set,← agreed]
      exact ⟨room,spec.document⟩
    · intro other
      by_cases here : other = key
      · rw [here,set]
        exact ⟨⟨room,d,spec.document⟩,spec.inside,spec.proper⟩
      · rw [Table.get_set_other here]
        exact (before other).extends working.closed spec.grown
    · intro rest changed
      simp only [mergeFields]
      rw [if_neg (fun equal => same (decided.mp equal)),copied,Bool.or_true]

theorem repaired_extends {domain : Domain} {h later : Heap} (grown : h.Extends later) {entry : Value × Value}
    (inside : entry.2.Within h.size) (d : Doc) : repaired domain later entry d = repaired domain h entry d := by
  simp only [repaired,isEmptyTable_extends grown inside]

theorem mergeFields_resolved (domain : Domain) {fields : List (Value × Value)} {target : Table} {h : Heap}
    (closed : h.Closed) (plain : h.Plain) (documented : ∀ key, Documented h (target.get key))
    (distinct : (fields.map Prod.fst).Nodup) (sent : ∀ entry ∈ fields, Sent h entry) :
    ∃ now final later, Resolved domain fields target h now final later ∧
      (∀ key, key ∉ fields.map Prod.fst → final.get key = target.get key) ∧
      ∀ changed, mergeFields domain fields changed target h = (.ok (changed || now),final,later) := by
  induction fields generalizing target h with
  | nil => exact ⟨false,target,h,⟨⟨.refl h,closed,plain⟩,by simp,by simp,by simp⟩,fun _ _ => rfl,fun changed => by simp [mergeFields]⟩
  | cons entry rest ih =>
    have first := sent entry (by simp)
    have apart := List.nodup_cons.mp distinct
    obtain ⟨now,next,middle,turn,ready,others,stepped⟩ := mergeFields_decided domain closed plain documented first
    have working := turn.working
    have away : ∀ other ∈ rest, other.1 ≠ entry.1 := fun other member same =>
      apart.1 (same ▸ List.mem_map_of_mem member)
    -- The first turn decides nothing about the other fields.
    have still : ∀ other ∈ rest, (Holds middle domain other (next.get other.1) ↔
        Holds h domain other (target.get other.1)) := by
      intro other member
      rw [others _ (away other member)]
      exact Holds.extends closed working.grown (sent other (by simp [member])).documented.inside
        (documented other.1).inside
    obtain ⟨more,final,later,resolved,outside,done⟩ := ih working.closed working.plain ready apart.2
      (fun other member => (sent other (by simp [member])).extends closed working.grown)
    have head : final.get entry.1 = next.get entry.1 := outside _ apart.1
    refine ⟨now || more,final,later,⟨⟨working.grown.trans resolved.working.grown,resolved.working.closed,
      resolved.working.plain⟩,?_,?_,?_⟩,?_,?_⟩
    · rw [Bool.or_eq_true,turn.changed,resolved.changed]
      constructor
      · rintro (⟨other,member,unsettled⟩ | ⟨other,member,unsettled⟩)
        · rw [List.mem_singleton.mp member] at unsettled
          exact ⟨entry,by simp,unsettled⟩
        · exact ⟨other,by simp [member],fun settled => unsettled ((still other member).mpr settled)⟩
      · rintro ⟨other,member,unsettled⟩
        rcases List.mem_cons.mp member with rfl | tail
        · exact .inl ⟨other,by simp,unsettled⟩
        · exact .inr ⟨other,tail,fun settled => unsettled ((still other tail).mp settled)⟩
    · intro other member settled
      rcases List.mem_cons.mp member with rfl | tail
      · rw [head]
        exact turn.kept other (by simp) settled
      · rw [resolved.kept other tail ((still other tail).mpr settled),others _ (away other tail)]
    · intro other member unsettled room d found
      rcases List.mem_cons.mp member with rfl | tail
      · obtain ⟨size,stored⟩ := turn.moved other (by simp) unsettled room d found
        rw [head]
        exact ⟨size,document_extends working.closed resolved.working.grown (ready _).inside stored⟩
      · have inside := (sent other (by simp [tail])).documented.inside
        rw [← repaired_extends working.grown inside]
        exact resolved.moved other tail (fun settled => unsettled ((still other tail).mp settled)) room d
          (document_extends closed working.grown inside found)
    · intro key absent
      simp only [List.map_cons,List.mem_cons,not_or] at absent
      rw [outside key absent.2,others key absent.1]
    · intro changed
      rw [stepped,done,Bool.or_assoc]

theorem emptyObject_iff {d : Doc} : emptyObject d = true ↔ d = .object [] := by
  unfold emptyObject
  split <;> simp_all

theorem repaired_stored {domain : Domain} {name : Bytes} {h : Heap} {v : Value} {room : Nat} {d : Doc}
    (proper : v ≠ .table h.null) (found : document h room v = .ok (transit d)) :
    repaired domain h (.string name,v) (transit d) = stored domain name d := by
  have same : isEmptyTable h v = emptyObject (transit d) := by
    rw [Bool.eq_iff_iff,emptyObject_iff]
    constructor
    · intro empty
      rcases empty_table_document empty proper found with array | object
      · exact absurd array (transit_filled d)
      · exact object
    · intro object
      rw [object] at found
      exact empty_object_table found
  simp only [repaired,stored,same]

-- The field holds what the patch at `p` brings already.
def Settled (store : Store) (domain : Domain) (h : Heap) (p : Address) (field : Bytes × Doc) : Prop :=
  Holds h domain (.string field.1,(h.table p).get (.string field.1)) ((store.snapshot.state domain).get (.string field.1))

-- What M.merge does with a patch, field by field: a settled field is left as it
-- is, any other takes the document the patch brings.
structure Applied (store : Store) (domain : Domain) (h : Heap) (p : Address) (fields : List (Bytes × Doc)) (changed : Bool)
    (later : Store) : Prop extends Accepted store domain h p later where
  revision : later.snapshot.revision = store.snapshot.revision + if changed then 1 else 0
  changed : changed = true ↔ ∃ field ∈ fields, ¬Settled store domain h p field
  absent : ∀ key, (∀ field ∈ fields, key ≠ .string field.1) →
    (later.snapshot.state domain).get key = (store.snapshot.state domain).get key
  kept : ∀ field ∈ fields, Settled store domain h p field →
    (later.snapshot.state domain).get (.string field.1) = (store.snapshot.state domain).get (.string field.1)
  moved : ∀ field ∈ fields, ¬Settled store domain h p field →
    Reads later domain (.string field.1) (stored domain field.1 field.2)

theorem merge_applied {store : Store} {h : Heap} {p : Address} {fields : List (Bytes × Doc)} (orderly : Orderly store)
    (domain : Domain) (packed : Packed store.heap h p fields) :
    ∃ changed later, merge ⟨store.snapshot,h⟩ domain.name (.table p) = (.ok (changed,later.snapshot.revision),later) ∧
      Applied store domain h p fields changed later := by
  obtain ⟨result,later,merged,accepted⟩ := merge_accepted orderly domain packed.parcel
  have documented : ∀ key, Documented h ((store.snapshot.state domain).get key) :=
    fun key => (orderly.documented domain key).extends orderly.closed packed.grown
  obtain ⟨now,final,heap,resolved,_,done⟩ := mergeFields_resolved domain packed.closed (packed.plain orderly.plain)
    documented (Table.distinct _) packed.parcel.sent
  have exact := done false
  rw [Bool.false_or] at exact
  simp only [merge,Domain.parse_name,exact,Prod.mk.injEq] at merged
  obtain ⟨returned,same⟩ := merged
  have table : later.snapshot.state domain = final := by
    rw [← same]
    simp [replace]
  have revision : later.snapshot.revision = if now then store.snapshot.revision + 1 else store.snapshot.revision := by
    rw [← same]
  have place : later.heap = heap := by rw [← same]
  have entry : ∀ field ∈ fields, (Value.string field.1,(h.table p).get (.string field.1)) ∈ (h.table p).entries :=
    fun field listed => Table.mem_of_get (packed.present field listed)
  refine ⟨now,later,?_,accepted,?_,?_,?_,?_,?_⟩
  · simp only [merge,Domain.parse_name,exact]
    rw [Prod.mk.injEq,same,revision]
    exact ⟨rfl,rfl⟩
  · rw [revision]
    cases now <;> simp
  · rw [resolved.changed]
    constructor
    · rintro ⟨other,member,unsettled⟩
      obtain ⟨key,v⟩ := other
      have value := Table.get_of_mem member
      obtain ⟨field,listed,same⟩ := packed.only key (by rw [value]; exact Table.present _ _ member)
      refine ⟨field,listed,?_⟩
      rw [same] at value unsettled
      rw [Settled,value]
      exact unsettled
    · rintro ⟨field,listed,unsettled⟩
      exact ⟨_,entry field listed,unsettled⟩
  · intro key absent
    apply accepted.others
    by_contra held
    obtain ⟨field,listed,same⟩ := packed.only key held
    exact absent field listed same
  · intro field listed settled
    rw [table]
    exact resolved.kept _ (entry field listed) settled
  · intro field listed unsettled
    obtain ⟨room,found⟩ := packed.each field listed
    have proper := (packed.incoming _ (entry field listed)).proper
    obtain ⟨size,stored⟩ := resolved.moved _ (entry field listed) unsettled room _ found
    rw [repaired_stored proper found] at stored
    refine ⟨size,?_⟩
    rw [table,place]
    exact stored

theorem Reads.unique {store : Store} {domain : Domain} {key : Value} {d e : Doc} (one : Reads store domain key d)
    (two : Reads store domain key e) : d = e := by
  obtain ⟨room,left⟩ := one
  obtain ⟨other,right⟩ := two
  have first := document_le left (Nat.le_max_left room other)
  have second := document_le right (Nat.le_max_right room other)
  exact Except.ok.inj (first.symm.trans second)

theorem Reads.kept {store later : Store} {domain : Domain} {key : Value} {d : Doc} (reads : Reads store domain key d)
    (orderly : Orderly store) (grown : store.heap.Extends later.heap)
    (same : (later.snapshot.state domain).get key = (store.snapshot.state domain).get key) :
    Reads later domain key d := by
  obtain ⟨room,found⟩ := reads
  refine ⟨room,?_⟩
  rw [same]
  exact document_extends orderly.closed grown (orderly.documented domain key).inside found

theorem mergeFields_marked (domain : Domain) (fields : List (Value × Value)) (changed : Bool) (target : Table) (h : Heap) :
    (mergeFields domain fields changed target h).2.1.marked = target.marked := by
  induction fields generalizing changed target h with
  | nil => rfl
  | cons entry rest ih =>
    obtain ⟨key,v⟩ := entry
    simp only [mergeFields]
    split
    · exact ih _ _ _
    · split
      · rfl
      · rw [ih,Table.set_marked]

-- A domain table stays the kind of table it is.
theorem merge_marked (store : Store) (name : Bytes) (patch : Value) (domain : Domain) :
    ((merge store name patch).2.snapshot.state domain).marked = (store.snapshot.state domain).marked := by
  cases found : Domain.parse name with
  | none => simp only [merge,found]
  | some target =>
    cases patch with
    | table a =>
      have same := mergeFields_marked target (store.heap.table a).entries false (store.snapshot.state target) store.heap
      have kept : (if domain = target then (mergeFields target (store.heap.table a).entries false
            (store.snapshot.state target) store.heap).2.1 else store.snapshot.state domain).marked =
          (store.snapshot.state domain).marked := by
        split
        · rename_i here
          rw [same,here]
        · rfl
      simp only [merge,found]
      split <;> simp_all [replace]
    | _ => simp only [merge,found]

end Hypringo.StateChange

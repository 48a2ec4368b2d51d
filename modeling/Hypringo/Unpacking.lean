import Hypringo.StateDelivery

namespace Hypringo.Unpacking
open Hypringo.Lua Json Document StateMerge StateDelivery

-- Every patch a service can send does arrive: its documents are laid out as
-- fresh tables on any heap.
def sequence (values : List Value) : Table :=
  .build false (values.zipIdx.map (fun item => (arrayKey item.2,item.1)))

mutual
def unpack : Doc → Heap → Value × Heap
  | .boolean b,h => (.boolean b,h)
  | .sint i,h => (.integer (Int64.ofInt i),h)
  | .real f,h => (.float f,h)
  | .string s,h => (.string s,h)
  | .array items,h =>
    let (values,later) := unpackItems items h
    (.table later.size,later.alloc (sequence values))
  | .object members,h =>
    let (values,later) := unpackMembers members h
    (.table later.size,later.alloc (.record values))
  | .null,h | .uint _,h => (.nil,h)
def unpackItems : List Doc → Heap → List Value × Heap
  | [],h => ([],h)
  | item :: rest,h =>
    let (v,middle) := unpack item h
    let (values,later) := unpackItems rest middle
    (v :: values,later)
def unpackMembers : List (Bytes × Doc) → Heap → List (Bytes × Value) × Heap
  | [],h => ([],h)
  | (name,value) :: rest,h =>
    let (v,middle) := unpack value h
    let (values,later) := unpackMembers rest middle
    ((name,v) :: values,later)
end

-- The documents of Lua data: numbers in range, members by key, no null.
mutual
def layable : Doc → Bool
  | .boolean _ | .string _ => true
  | .sint i => decide (-2^63 ≤ i ∧ i < 2^63)
  | .real f => f.finite
  | .array items => decide (items.length < 2^63) && layableItems items
  | .object members =>
    decide ((members.map Prod.fst).Pairwise (fun left right => compareObjectKeys left right = .lt)) &&
      layableMembers members
  | .null | .uint _ => false
def layableItems : List Doc → Bool
  | [] => true
  | item :: rest => layable item && layableItems rest
def layableMembers : List (Bytes × Doc) → Bool
  | [] => true
  | (_,value) :: rest => layable value && layableMembers rest
end

structure Laid (h : Heap) (room : Nat) (v : Value) (d : Doc) : Prop where
  present : v ≠ .nil
  inside : v.Within h.size
  proper : v ≠ .table h.null
  document : document h room v = .ok (transit d)

theorem Laid.extends {h later : Heap} {room more : Nat} {v : Value} {d : Doc} (closed : h.Closed)
    (grown : h.Extends later) (le : room ≤ more) (laid : Laid h room v d) : Laid later more v d :=
  ⟨laid.present,laid.inside.mono grown.size,by rw [grown.null]; exact laid.proper,
    document_extends closed grown laid.inside (document_le laid.document le)⟩

theorem largest_sequence (values : List Value) (start : Nat) (small : start + values.length < 2^63) :
    ((values.zipIdx start).map (fun item => (arrayKey item.2,item.1))).foldl
      (fun maximum entry => largerKey maximum entry.1) start = start + values.length := by
  induction values generalizing start with
  | nil => simp
  | cons v rest ih =>
    simp only [List.length_cons] at small
    have key : largerKey start (arrayKey start) = start + 1 := by
      simp only [largerKey,arrayKey,arrayKey_toInt (show start + 1 < 2^63 by omega)]
      split <;> omega
    simp only [List.zipIdx_cons,List.map_cons,List.foldl_cons,key]
    rw [ih (start + 1) (by omega),List.length_cons]
    omega

theorem sequence_keys (values : List Value) (small : values.length < 2^63) :
    ((values.zipIdx.map (fun item => (arrayKey item.2,item.1))).map Prod.fst).Nodup := by
  have same : (values.zipIdx.map (fun item => (arrayKey item.2,item.1))).map Prod.fst =
      (List.range values.length).map arrayKey := by
    have indices : values.zipIdx.map Prod.snd = List.range values.length := by
      rw [List.zipIdx_map_snd,List.range_eq_range']
    rw [← indices,List.map_map,List.map_map]
    rfl
  rw [same]
  refine List.Nodup.map_on ?_ List.nodup_range
  intro left leftBound right rightBound equal
  rw [List.mem_range] at leftBound rightBound
  exact arrayKey_injective (by omega) (by omega) equal

theorem sequence_entries {values : List Value} (small : values.length < 2^63) (present : ∀ v ∈ values, v ≠ .nil) :
    (sequence values).entries = values.zipIdx.map (fun item => (arrayKey item.2,item.1)) := by
  refine Table.fold_set_entries (t := .empty false) (by simpa [Table.empty] using sequence_keys values small) ?_ ?_
  · intro field member
    obtain ⟨item,_,rfl⟩ := List.mem_map.mp member
    rfl
  · intro field member
    obtain ⟨item,listed,rfl⟩ := List.mem_map.mp member
    exact present item.1 (List.fst_mem_of_mem_zipIdx listed)

theorem sequence_get {values : List Value} (small : values.length < 2^63) (present : ∀ v ∈ values, v ≠ .nil)
    {index : Nat} {v : Value} (found : values[index]? = some v) : (sequence values).get (arrayKey index) = v := by
  apply Table.get_of_mem
  rw [sequence_entries small present,List.mem_map]
  exact ⟨(v,index),List.mem_zipIdx_iff_getElem?.mpr found,rfl⟩

theorem sequence_shape {values : List Value} (small : values.length < 2^63) (present : ∀ v ∈ values, v ≠ .nil)
    (some : values ≠ []) : tableShape (sequence values) = .ok (.array values.length) := by
  have largest := largest_sequence values 0 (by omega)
  have positive : (values.zipIdx.map (fun item => (arrayKey item.2,item.1))).all (fun entry => positiveKey entry.1) = true := by
    rw [List.all_eq_true]
    intro entry member
    obtain ⟨item,listed,rfl⟩ := List.mem_map.mp member
    have bound : item.2 < values.length := by
      obtain ⟨bound,_⟩ := List.getElem?_eq_some_iff.mp (List.mem_zipIdx_iff_getElem?.mp listed)
      exact bound
    simp only [positiveKey,arrayKey,arrayKey_toInt (show item.2 + 1 < 2^63 by omega)]
    exact decide_eq_true (by omega)
  have count : 0 < values.length := List.length_pos_iff.mpr some
  have plain : (sequence values).marked = false := Table.build_marked _ _
  rw [Nat.zero_add] at largest
  simp only [tableShape,plain,sequence_entries small present,largest,positive,List.length_map,List.length_zipIdx,
    Bool.false_and,Bool.false_eq_true,if_false,beq_self_eq_true,Bool.and_self,Bool.and_true,Bool.false_or,
    decide_eq_true_eq,count,if_true]

theorem transitItems_eq (items : List Doc) : transitItems items = items.map transit := by
  induction items with
  | nil => rfl
  | cons item rest ih => simp only [transitItems,ih,List.map_cons]

theorem transitMembers_eq (members : List (Bytes × Doc)) :
    transitMembers members = members.map (fun member => (member.1,transit member.2)) := by
  induction members with
  | nil => rfl
  | cons member rest ih =>
    obtain ⟨name,value⟩ := member
    simp only [transitMembers,ih,List.map_cons]

theorem sequence_document {h : Heap} {room : Nat} {values : List Value} {items : List Doc} (closed : h.Closed)
    (small : items.length < 2^63) (each : List.Forall₂ (Laid h room) values items) :
    document (h.alloc (sequence values)) (room+1) (.table h.size) = .ok (transit (.array items)) := by
  have lengths := each.length_eq
  have present : ∀ v ∈ values, v ≠ .nil := by
    intro v member
    obtain ⟨_,_,laid⟩ := Raise.forall₂_left each member
    exact laid.present
  have proper : h.size ≠ (h.alloc (sequence values)).null := Nat.ne_of_gt closed.null
  rw [document_table proper,h.alloc_new]
  cases items with
  | nil =>
    cases each
    rfl
  | cons item rest =>
    have some : values ≠ [] := by
      intro none
      rw [none] at lengths
      cases lengths
    have shape := sequence_shape (by omega) present some
    have read : (List.range values.length).mapM (fun index =>
        document (h.alloc (sequence values)) room ((sequence values).get (arrayKey index))) =
        .ok ((item :: rest).map transit) := by
      rw [Raise.mapM_ok,List.forall₂_iff_get]
      refine ⟨by simpa using lengths,?_⟩
      intro index bound other
      simp only [List.length_range] at bound
      have held := sequence_get (by omega) present (List.getElem?_eq_getElem bound)
      have laid := (List.forall₂_iff_get.mp each).2 index bound (by omega)
      simp only [List.get_eq_getElem] at laid
      simp only [List.get_eq_getElem,List.getElem_range,List.getElem_map,held]
      exact document_extends closed (h.alloc_extends _) laid.inside laid.document
    simp only [encodeTable,shape,encodeArray,read,bind,Except.bind]
    rw [List.map_cons,transit,transitItems_eq]
    rfl

theorem record_document {h : Heap} {room : Nat} {values : List (Bytes × Value)} {members : List (Bytes × Doc)}
    (closed : h.Closed)
    (sorted : (members.map Prod.fst).Pairwise (fun left right => compareObjectKeys left right = .lt))
    (each : List.Forall₂ (fun value member => value.1 = member.1 ∧ Laid h room value.2 member.2) values members) :
    document (h.alloc (.record values)) (room+1) (.table h.size) = .ok (transit (.object members)) := by
  have proper : h.size ≠ (h.alloc (.record values)).null := Nat.ne_of_gt closed.null
  have names : values.map Prod.fst = members.map Prod.fst :=
    (map_eq_of_forall₂ (each.imp (fun _ _ both => both.1.symm))).symm
  have present : ∀ field ∈ values, field.2 ≠ .nil := by
    intro field member
    obtain ⟨_,_,laid⟩ := Raise.forall₂_left each member
    exact laid.2.present
  have strict : (members.map Prod.fst).Nodup := by
    refine sorted.imp ?_
    intro left right less same
    subst same
    rw [(compareObjectKeys_compares left left).eq_lt] at less
    exact lt_irrefl _ less
  have distinct : (values.map Prod.fst).Nodup := names ▸ strict
  have entries := Table.record_entries distinct present
  have collected : collectObjectKeys (.record values) = .ok (members.map Prod.fst) := by
    have taken : (values.map (fun field => ((Value.string field.1,field.2) : Value × Value))).mapM objectKey =
        .ok (values.map Prod.fst) := by
      rw [Raise.mapM_ok,List.forall₂_map_left_iff,List.forall₂_map_right_iff]
      exact List.forall₂_same.mpr (fun _ _ => rfl)
    have ordered : (members.map Prod.fst).Pairwise (fun left right => compareObjectKeys left right ≠ .gt) :=
      sorted.imp (fun less => by rw [less]; decide)
    simp only [collectObjectKeys,entries,taken,names,bind,Except.bind]
    rw [ordered.insertionSort_eq]
    rfl
  have read : (members.map Prod.fst).mapM (encodeMember (.record values) (document (h.alloc (.record values)) room)) =
      .ok (members.map (fun member => (member.1,transit member.2))) := by
    rw [Raise.mapM_ok,List.forall₂_map_left_iff,List.forall₂_map_right_iff,List.forall₂_same]
    intro member listed
    obtain ⟨field,known,same,laid⟩ := Raise.forall₂_right each listed
    refine encodeMember_ok.mpr ⟨rfl,?_⟩
    rw [← same,Table.record_get distinct present known]
    exact document_extends closed (h.alloc_extends _) laid.inside laid.document
  have shape : tableShape (.record values) = .ok (.object (Table.record values).entries.length) := by
    apply tableShape_strings (Table.build_marked _ _)
    intro entry member
    obtain ⟨field,_,rfl⟩ := Table.mem_of_mem_record member
    exact ⟨field.1,rfl⟩
  rw [document_table proper,h.alloc_new]
  simp only [encodeTable,shape,encodeObject,collected,read,bind,Except.bind]
  rw [transit,transitMembers_eq]
  rfl

-- What unpacking a document, a list or the members of an object leaves behind.
mutual
theorem unpack_spec {before : Heap} : ∀ (d : Doc) (h : Heap), layable d = true → Grown before h →
    ∃ room, Grown before (unpack d h).2 ∧ h.Extends (unpack d h).2 ∧ Laid (unpack d h).2 room (unpack d h).1 d
  | .boolean b,h,_,grown => ⟨0,grown,.refl h,by simp [unpack],trivial,by simp [unpack],document_scalar rfl 0⟩
  | .string s,h,_,grown => ⟨0,grown,.refl h,by simp [unpack],trivial,by simp [unpack],document_scalar rfl 0⟩
  | .sint i,h,ok,grown => by
    refine ⟨0,grown,.refl h,by simp [unpack],trivial,by simp [unpack],?_⟩
    have range : -2^63 ≤ i ∧ i < 2^63 := by simpa [layable] using ok
    rw [unpack,document_scalar rfl,scalarDocument,Int64.toInt_ofInt_of_le range.1 range.2]
    rfl
  | .real f,h,ok,grown => by
    refine ⟨0,grown,.refl h,by simp [unpack],trivial,by simp [unpack],?_⟩
    have finite : f.finite = true := by simpa [layable] using ok
    rw [unpack,document_scalar rfl,scalarDocument,if_pos finite]
    rfl
  | .array items,h,ok,grown => by
    simp only [layable,Bool.and_eq_true,decide_eq_true_eq] at ok
    obtain ⟨room,later,extended,each⟩ := unpackItems_spec items h ok.2 grown
    have present : ∀ v ∈ (unpackItems items h).1, v ≠ .nil := by
      intro v member
      obtain ⟨_,_,laid⟩ := Raise.forall₂_left each member
      exact laid.present
    have lengths := each.length_eq
    have entry : ∀ entry ∈ (sequence (unpackItems items h).1).entries, entry.1.scalar = true ∧
        entry.2 ∈ (unpackItems items h).1 := by
      intro entry member
      rw [sequence_entries (by omega) present] at member
      obtain ⟨item,listed,rfl⟩ := List.mem_map.mp member
      exact ⟨rfl,List.fst_mem_of_mem_zipIdx listed⟩
    refine ⟨room+1,?_,extended.trans (Heap.alloc_extends _ _),by simp [unpack],Nat.lt_succ_self _,?_,?_⟩
    · refine later.alloc (Table.build_marked _ _) ?_ ?_
      · intro member listed
        obtain ⟨flat,known⟩ := entry member listed
        obtain ⟨_,_,laid⟩ := Raise.forall₂_left each known
        exact ⟨by cases key : member.1 <;> simp_all [Value.scalar,Value.Within],laid.inside⟩
      · intro member listed
        obtain ⟨flat,known⟩ := entry member listed
        obtain ⟨_,_,laid⟩ := Raise.forall₂_left each known
        exact ⟨by cases key : member.1 <;> simp_all [Value.scalar],laid.proper⟩
    · intro null
      injection null with null
      exact Nat.ne_of_gt later.closed.null null
    · exact sequence_document later.closed ok.1 each
  | .object members,h,ok,grown => by
    simp only [layable,Bool.and_eq_true,decide_eq_true_eq] at ok
    obtain ⟨room,later,extended,each⟩ := unpackMembers_spec members h ok.2 grown
    refine ⟨room+1,?_,extended.trans (Heap.alloc_extends _ _),by simp [unpack],Nat.lt_succ_self _,?_,?_⟩
    · refine later.alloc (Table.build_marked _ _) ?_ ?_
      · intro member listed
        obtain ⟨field,known,rfl⟩ := Table.mem_of_mem_record listed
        obtain ⟨_,_,_,laid⟩ := Raise.forall₂_left each known
        exact ⟨trivial,laid.inside⟩
      · intro member listed
        obtain ⟨field,known,rfl⟩ := Table.mem_of_mem_record listed
        obtain ⟨_,_,_,laid⟩ := Raise.forall₂_left each known
        exact ⟨by simp,laid.proper⟩
    · intro null
      injection null with null
      exact Nat.ne_of_gt later.closed.null null
    · exact record_document later.closed ok.1 each
  | .null,_,ok,_ => by cases ok
  | .uint _,_,ok,_ => by cases ok
theorem unpackItems_spec {before : Heap} : ∀ (items : List Doc) (h : Heap), layableItems items = true → Grown before h →
    ∃ room, Grown before (unpackItems items h).2 ∧ h.Extends (unpackItems items h).2 ∧
      List.Forall₂ (Laid (unpackItems items h).2 room) (unpackItems items h).1 items
  | [],h,_,grown => ⟨0,grown,.refl h,.nil⟩
  | item :: rest,h,ok,grown => by
    simp only [layableItems,Bool.and_eq_true] at ok
    obtain ⟨one,middle,first,laid⟩ := unpack_spec item h ok.1 grown
    obtain ⟨two,later,second,each⟩ := unpackItems_spec rest _ ok.2 middle
    refine ⟨max one two,later,first.trans second,.cons ?_ ?_⟩
    · exact laid.extends middle.closed second (Nat.le_max_left _ _)
    · exact each.imp (fun _ _ laid => laid.extends later.closed (.refl _) (Nat.le_max_right _ _))
theorem unpackMembers_spec {before : Heap} : ∀ (members : List (Bytes × Doc)) (h : Heap), layableMembers members = true →
    Grown before h →
    ∃ room, Grown before (unpackMembers members h).2 ∧ h.Extends (unpackMembers members h).2 ∧
      List.Forall₂ (fun value member => value.1 = member.1 ∧ Laid (unpackMembers members h).2 room value.2 member.2)
        (unpackMembers members h).1 members
  | [],h,_,grown => ⟨0,grown,.refl h,.nil⟩
  | (name,value) :: rest,h,ok,grown => by
    simp only [layableMembers,Bool.and_eq_true] at ok
    obtain ⟨one,middle,first,laid⟩ := unpack_spec value h ok.1 grown
    obtain ⟨two,later,second,each⟩ := unpackMembers_spec rest _ ok.2 middle
    refine ⟨max one two,later,first.trans second,.cons ⟨rfl,?_⟩ ?_⟩
    · exact laid.extends middle.closed second (Nat.le_max_left _ _)
    · exact each.imp (fun _ _ both => ⟨both.1,both.2.extends later.closed (.refl _) (Nat.le_max_right _ _)⟩)
end

-- Where a patch ends up when it is unpacked on a heap.
def unpackedHeap (fields : List (Bytes × Doc)) (h : Heap) : Heap :=
  (unpackMembers fields h).2.alloc (.record (unpackMembers fields h).1)

def unpackedAt (fields : List (Bytes × Doc)) (h : Heap) : Address := (unpackMembers fields h).2.size

theorem unpacked_packed {before : Heap} {fields : List (Bytes × Doc)} (closed : before.Closed)
    (distinct : (fields.map Prod.fst).Nodup) (ok : layableMembers fields = true) :
    Packed before (unpackedHeap fields before) (unpackedAt fields before) fields := by
  obtain ⟨room,later,extended,each⟩ := unpackMembers_spec fields before ok (.refl closed)
  have names : (unpackMembers fields before).1.map Prod.fst = fields.map Prod.fst :=
    (map_eq_of_forall₂ (each.imp (fun _ _ both => both.1.symm))).symm
  have present : ∀ field ∈ (unpackMembers fields before).1, field.2 ≠ .nil := by
    intro field member
    obtain ⟨_,_,_,laid⟩ := Raise.forall₂_left each member
    exact laid.present
  have get : ∀ field ∈ fields, ∃ v, (Table.record (unpackMembers fields before).1).get (.string field.1) = v ∧
      Laid (unpackMembers fields before).2 room v field.2 := by
    intro field listed
    obtain ⟨value,known,same,laid⟩ := Raise.forall₂_right each listed
    refine ⟨value.2,?_,laid⟩
    rw [← same]
    exact Table.record_get (names ▸ distinct) present known
  have final : Grown before (unpackedHeap fields before) := by
    refine later.alloc (Table.build_marked _ _) ?_ ?_
    · intro member listed
      obtain ⟨field,known,rfl⟩ := Table.mem_of_mem_record listed
      obtain ⟨_,_,_,laid⟩ := Raise.forall₂_left each known
      exact ⟨trivial,laid.inside⟩
    · intro member listed
      obtain ⟨field,known,rfl⟩ := Table.mem_of_mem_record listed
      obtain ⟨_,_,_,laid⟩ := Raise.forall₂_left each known
      exact ⟨by simp,laid.proper⟩
  have table : (unpackedHeap fields before).table (unpackedAt fields before) =
      .record (unpackMembers fields before).1 := Heap.alloc_new _ _
  refine ⟨final.arrived extended.size (Nat.lt_succ_self _),?_,?_,?_⟩
  · intro field listed
    obtain ⟨v,held,laid⟩ := get field listed
    refine ⟨room,?_⟩
    rw [table,held]
    exact document_extends later.closed (Heap.alloc_extends _ _) laid.inside laid.document
  · intro key held
    rw [table] at held
    obtain ⟨field,known,same⟩ := Table.mem_of_mem_record (Table.mem_of_get held)
    obtain ⟨original,listed,name,_⟩ := Raise.forall₂_left each known
    exact ⟨original,listed,by rw [← name]; exact (Prod.ext_iff.mp same).1⟩
  · intro field listed
    obtain ⟨v,held,laid⟩ := get field listed
    rw [table,held]
    exact laid.present

end Hypringo.Unpacking

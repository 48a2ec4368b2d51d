import Hypringo.Document

namespace Hypringo.Constructor
open Hypringo.Lua Json Document

-- A value json.encode accepts with `room` levels left, standing in the heap.
structure Good (room : Nat) (h : Heap) (v : Value) : Prop where
  encodable : Encodable h room v
  inside : v.Within h.size
  proper : v ≠ .table h.null

theorem Good.extends {room : Nat} {h later : Heap} {v : Value} (closed : h.Closed) (grown : h.Extends later)
    (good : Good room h v) : Good room later v :=
  ⟨good.encodable.extends closed grown good.inside,good.inside.mono grown.size,by rw [grown.null]; exact good.proper⟩

theorem Good.nil (room : Nat) (h : Heap) : Good room h .nil := ⟨encodable_nil h room,trivial,by simp⟩

theorem Good.bounded {room : Nat} {h : Heap} {v : Value} (closed : h.Closed) (good : Good room h v) :
    Bounded h (h.size+1) v := by
  obtain ⟨d,found,_⟩ := good.encodable
  exact ((document_bounded closed found).tight closed good.inside).succ

-- A domain table as merges leave it.
structure Formed (room : Nat) (h : Heap) (t : Table) : Prop where
  unmarked : t.marked = false
  names : ∀ entry ∈ t.entries, ∃ name, entry.1 = .string name ∧ validUtf8 name = true
  values : ∀ entry ∈ t.entries, Good room h entry.2

theorem Formed.extends {room : Nat} {h later : Heap} {t : Table} (closed : h.Closed) (grown : h.Extends later)
    (formed : Formed room h t) : Formed room later t :=
  ⟨formed.unmarked,formed.names,fun entry member => (formed.values entry member).extends closed grown⟩

theorem Formed.get {room : Nat} {h : Heap} {t : Table} (formed : Formed room h t) (key : Value) :
    Good room h (t.get key) := by
  by_cases absent : t.get key = .nil
  · rw [absent]
    exact .nil room h
  · exact formed.values _ (Table.mem_of_get absent)

theorem Formed.set {room : Nat} {h : Heap} {t : Table} {name : Bytes} {v : Value} (formed : Formed room h t)
    (valid : validUtf8 name = true) (good : Good room h v) : Formed room h (t.set (.string name) v) := by
  refine ⟨by rw [Table.set_marked]; exact formed.unmarked,?_,?_⟩
  · intro entry member
    rcases Table.mem_of_mem_set member with new | old
    · exact ⟨name,by rw [new],valid⟩
    · exact formed.names entry old
  · intro entry member
    rcases Table.mem_of_mem_set member with new | old
    · rw [new]
      exact good
    · exact formed.values entry old

theorem Formed.entries_within {room : Nat} {h : Heap} {t : Table} (formed : Formed room h t) :
    ∀ entry ∈ t.entries, entry.1.Within h.size ∧ entry.2.Within h.size := by
  intro entry member
  obtain ⟨name,key,_⟩ := formed.names entry member
  refine ⟨?_,(formed.values entry member).inside⟩
  rw [key]
  trivial

theorem Formed.encodable {room : Nat} {h : Heap} {a : Address} (formed : Formed room h (h.table a)) (proper : a ≠ h.null) :
    Encodable h (room+1) (.table a) := by
  apply encodable_object proper formed.unmarked
  intro entry member
  obtain ⟨name,key,valid⟩ := formed.names entry member
  exact ⟨name,key,valid,(formed.values entry member).encodable⟩

theorem Formed.alloc {room : Nat} {h : Heap} {t : Table} (formed : Formed room h t) (closed : h.Closed) :
    Good (room+1) (h.alloc t) (.table h.size) := by
  have proper : h.size ≠ (h.alloc t).null := Nat.ne_of_gt closed.null
  have placed : Formed room (h.alloc t) ((h.alloc t).table h.size) := by
    rw [h.alloc_new]
    exact formed.extends closed (h.alloc_extends t)
  exact ⟨placed.encodable proper,Nat.lt_succ_self _,fun null => proper (Value.table.inj null)⟩

theorem record_formed {room : Nat} {h : Heap} {fields : List (Bytes × Value)}
    (each : ∀ field ∈ fields, validUtf8 field.1 = true ∧ Good room h field.2) : Formed room h (.record fields) := by
  refine ⟨Table.build_marked _ _,?_,?_⟩
  · intro entry member
    obtain ⟨field,listed,rfl⟩ := Table.mem_of_mem_record member
    exact ⟨_,rfl,(each field listed).1⟩
  · intro entry member
    obtain ⟨field,listed,rfl⟩ := Table.mem_of_mem_record member
    exact (each field listed).2

-- A table constructor as the source writes it: values at hand, the contents of
-- a table held elsewhere, and records over these.
inductive Built where
  | value (v : Value)
  | table (t : Table)
  | record (fields : List (Bytes × Built))

mutual
def Built.realise : Built → Heap → Value × Heap
  | .value v,h => (v,h)
  | .table t,h => (.table h.size,h.alloc t)
  | .record fields,h =>
    let (values,later) := realiseFields fields h
    (.table later.size,later.alloc (.record values))
def realiseFields : List (Bytes × Built) → Heap → List (Bytes × Value) × Heap
  | [],h => ([],h)
  | (name,built) :: rest,h =>
    let (v,middle) := built.realise h
    let (values,later) := realiseFields rest middle
    ((name,v) :: values,later)
end

-- What json.encode accepts of it with `room` levels left.
mutual
def Built.Ok (g : Heap) : Nat → Built → Prop
  | room,.value v => Good room g v ∧ v ≠ .nil
  | room,.table t => ∃ r, room = r + 1 ∧ Formed r g t
  | room,.record fields => ∃ r, room = r + 1 ∧ (fields.map Prod.fst).Nodup ∧ FieldsOk g r fields
def FieldsOk (g : Heap) (room : Nat) : List (Bytes × Built) → Prop
  | [] => True
  | (name,built) :: rest => validUtf8 name = true ∧ built.Ok g room ∧ FieldsOk g room rest
end

theorem fieldsOk_iff {g : Heap} {room : Nat} {fields : List (Bytes × Built)} :
    FieldsOk g room fields ↔ ∀ field ∈ fields, validUtf8 field.1 = true ∧ field.2.Ok g room := by
  induction fields with
  | nil => simp [FieldsOk]
  | cons field rest ih => simp [FieldsOk,ih,and_assoc]

theorem fieldsOk_append {g : Heap} {room : Nat} {left right : List (Bytes × Built)}
    (first : FieldsOk g room left) (second : FieldsOk g room right) : FieldsOk g room (left ++ right) := by
  rw [fieldsOk_iff] at first second ⊢
  intro field member
  rcases List.mem_append.mp member with one | other
  · exact first field one
  · exact second field other

theorem fieldsOk_cons {g : Heap} {room : Nat} {name : Bytes} {built : Built} {rest : List (Bytes × Built)}
    (valid : validUtf8 name = true) (ok : built.Ok g room) (others : FieldsOk g room rest) :
    FieldsOk g room ((name,built) :: rest) := by
  simp only [FieldsOk]
  exact ⟨valid,ok,others⟩

theorem fieldsOk_nil (g : Heap) (room : Nat) : FieldsOk g room [] := by simp [FieldsOk]

theorem record_ok {g : Heap} {room : Nat} {fields : List (Bytes × Built)} (distinct : (fields.map Prod.fst).Nodup)
    (ok : FieldsOk g room fields) : (Built.record fields).Ok g (room+1) := by
  simp only [Built.Ok]
  exact ⟨room,rfl,distinct,ok⟩

theorem value_ok {g : Heap} {room : Nat} {v : Value} (good : Good room g v) (present : v ≠ .nil) :
    (Built.value v).Ok g room := by
  simp only [Built.Ok]
  exact ⟨good,present⟩

theorem Good.le {room more : Nat} {h : Heap} {v : Value} (good : Good room h v) (le : room ≤ more) : Good more h v :=
  ⟨good.encodable.le le,good.inside,good.proper⟩

theorem encodable_child {h : Heap} {a : Address} {room : Nat} (proper : a ≠ h.null)
    (encodable : Encodable h (room+1) (.table a)) (key : Value) : Encodable h room ((h.table a).get key) := by
  obtain ⟨d,found,writable⟩ := encodable
  rw [document_table proper] at found
  by_cases absent : (h.table a).get key = .nil
  · rw [absent]
    exact encodable_nil h room
  · cases encodeTable_written found with
    | array items dense _ each =>
      obtain ⟨index,bound,rfl⟩ := (dense.keys key).mp absent
      have item : items[index]? = some items[index] := List.getElem?_eq_getElem bound
      rw [Doc.writable,writableItems_iff] at writable
      exact ⟨_,each index _ item,writable _ (List.getElem_mem bound)⟩
    | object members _ _ fields each =>
      obtain ⟨member,listed,rfl⟩ := (fields key).mp absent
      rw [Doc.writable,writableMembers_iff] at writable
      exact ⟨_,each member listed,(writable member listed).2⟩

theorem Good.child {room : Nat} {h : Heap} {a : Address} (closed : h.Closed) (plain : h.Plain)
    (good : Good (room+1) h (.table a)) (key : Value) : Good room h ((h.table a).get key) := by
  have proper : a ≠ h.null := fun null => good.proper (by rw [null])
  exact ⟨encodable_child proper good.encodable key,Table.get_within key (closed.entries a good.inside),
    plain.get good.inside key⟩

structure Realised (room : Nat) (d : Doc) (h : Heap) (v : Value) (later : Heap) : Prop where
  grown : h.Extends later
  closed : later.Closed
  good : Good room later v
  present : v ≠ .nil
  document : document later room v = .ok d

structure Member (room : Nat) (h : Heap) (field : Bytes × Value) (member : Bytes × Doc) : Prop where
  name : field.1 = member.1
  good : Good room h field.2
  present : field.2 ≠ .nil
  document : document h room field.2 = .ok member.2

theorem Member.extends {room : Nat} {h later : Heap} {field : Bytes × Value} {member : Bytes × Doc} (closed : h.Closed)
    (grown : h.Extends later) (held : Member room h field member) : Member room later field member :=
  ⟨held.name,held.good.extends closed grown,held.present,document_extends closed grown held.good.inside held.document⟩

structure RealisedFields (room : Nat) (members : List (Bytes × Doc)) (h : Heap) (values : List (Bytes × Value))
    (later : Heap) : Prop where
  grown : h.Extends later
  closed : later.Closed
  members : List.Forall₂ (Member room later) values members

theorem RealisedFields.names {room : Nat} {members : List (Bytes × Doc)} {h later : Heap} {values : List (Bytes × Value)}
    (realised : RealisedFields room members h values later) : values.map Prod.fst = members.map Prod.fst :=
  (map_eq_of_forall₂ (realised.members.imp (fun _ _ held => held.name.symm))).symm

theorem RealisedFields.present {room : Nat} {members : List (Bytes × Doc)} {h later : Heap} {values : List (Bytes × Value)}
    (realised : RealisedFields room members h values later) : ∀ field ∈ values, field.2 ≠ .nil := by
  intro field listed
  obtain ⟨_,_,held⟩ := Raise.forall₂_left realised.members listed
  exact held.present

-- The record over realised fields, allocated.
theorem RealisedFields.record {room : Nat} {members : List (Bytes × Doc)} {h later : Heap} {values : List (Bytes × Value)}
    (realised : RealisedFields room members h values later)
    (valid : ∀ member ∈ members, validUtf8 member.1 = true) :
    (later.alloc (.record values)).Closed ∧ later.size ≠ (later.alloc (.record values)).null ∧
      Encodable (later.alloc (.record values)) (room+1) (.table later.size) := by
  have step := later.alloc_extends (.record values)
  have proper : later.size ≠ (later.alloc (.record values)).null := Nat.ne_of_gt realised.closed.null
  refine ⟨?_,proper,?_⟩
  · apply Heap.alloc_closed realised.closed
    intro entry listed
    obtain ⟨field,inside,rfl⟩ := Table.mem_of_mem_record listed
    obtain ⟨_,_,held⟩ := Raise.forall₂_left realised.members inside
    exact ⟨trivial,held.good.inside⟩
  · apply encodable_object proper
    · rw [later.alloc_new]
      exact Table.build_marked _ _
    · intro entry listed
      rw [later.alloc_new] at listed
      obtain ⟨field,inside,rfl⟩ := Table.mem_of_mem_record listed
      obtain ⟨member,known,held⟩ := Raise.forall₂_left realised.members inside
      exact ⟨field.1,rfl,held.name ▸ valid member known,(held.good.extends realised.closed step).encodable⟩

-- The same members give the same document, wherever the record stands.
theorem record_document {room : Nat} {members : List (Bytes × Doc)} {g h k l : Heap} {left right : List (Bytes × Value)}
    {d : Doc} (distinct : (members.map Prod.fst).Nodup)
    (first : RealisedFields room members g left h) (second : RealisedFields room members k right l)
    (found : document (h.alloc (.record left)) (room+1) (.table h.size) = .ok d) :
    document (l.alloc (.record right)) (room+1) (.table l.size) = .ok d := by
  have stepLeft := h.alloc_extends (.record left)
  have stepRight := l.alloc_extends (.record right)
  have properLeft : h.size ≠ (h.alloc (.record left)).null := Nat.ne_of_gt first.closed.null
  have properRight : l.size ≠ (l.alloc (.record right)).null := Nat.ne_of_gt second.closed.null
  have names : (left.map Prod.fst).Nodup ∧ (right.map Prod.fst).Nodup := by
    rw [first.names,second.names]
    exact ⟨distinct,distinct⟩
  rw [document_table properLeft,h.alloc_new] at found
  rw [document_table properRight,l.alloc_new]
  refine encodeTable_transfer ?_ ?_ ?_ found
  · rw [Table.record,Table.record,Table.build_marked,Table.build_marked]
  · rw [Table.record_entries names.1 first.present,Table.record_entries names.2 second.present]
    have same := congrArg (List.map Value.string) (second.names.trans first.names.symm)
    simpa [Function.comp_def] using same
  · intro key e held child
    obtain ⟨field,listed,entry⟩ := Table.mem_of_mem_record (Table.mem_of_get held)
    have parts := Prod.mk.inj entry
    obtain ⟨member,known,one⟩ := Raise.forall₂_left first.members listed
    obtain ⟨other,inside,two⟩ := Raise.forall₂_right second.members known
    have value : e = member.2 := by
      rw [parts.2,document_extends first.closed stepLeft one.good.inside one.document] at child
      exact (Except.ok.inj child).symm
    have fetched : (Table.record right).get key = other.2 := by
      rw [parts.1,one.name,← two.name]
      exact Table.record_get names.2 second.present inside
    rw [fetched,value]
    exact document_extends second.closed stepRight two.good.inside two.document

-- A good value keeps its one document in every heap over the one it stands in.
theorem Good.document_between {room : Nat} {g h k : Heap} {v : Value} {d : Doc} (good : Good room g v) (closed : g.Closed)
    (left : g.Extends h) (right : g.Extends k) (found : document h room v = .ok d) : document k room v = .ok d := by
  obtain ⟨original,here,_⟩ := good.encodable
  rw [document_extends closed left good.inside here] at found
  cases found
  exact document_extends closed right good.inside here

theorem Formed.document {room : Nat} {g : Heap} {t : Table} (formed : Formed room g t) (closed : g.Closed) :
    ∃ d, d.writable = true ∧ ∀ h, g.Extends h → h.Closed → Realised (room+1) d h (.table h.size) (h.alloc t) := by
  have inside := formed.entries_within
  have place : ∀ h, g.Extends h → h.Closed → (h.alloc t).Closed ∧ h.size ≠ (h.alloc t).null := by
    intro h grown ready
    refine ⟨h.alloc_closed ready ?_,Nat.ne_of_gt ready.null⟩
    intro entry member
    exact ⟨(inside entry member).1.mono grown.size,(inside entry member).2.mono grown.size⟩
  obtain ⟨_,proper⟩ := place g (.refl g) closed
  have base : Formed room (g.alloc t) ((g.alloc t).table g.size) := by
    rw [g.alloc_new]
    exact formed.extends closed (g.alloc_extends t)
  obtain ⟨d,found,writable⟩ := base.encodable proper
  refine ⟨d,writable,?_⟩
  intro h grown ready
  obtain ⟨final,distinct⟩ := place h grown ready
  have document : Document.document (h.alloc t) (room+1) (.table h.size) = .ok d := by
    rw [document_table proper,g.alloc_new] at found
    rw [document_table distinct,h.alloc_new]
    refine encodeTable_imp ?_ found
    intro key e _ child
    exact (formed.get key).document_between closed (g.alloc_extends t) (grown.trans (h.alloc_extends t)) child
  refine ⟨h.alloc_extends t,final,⟨⟨d,document,writable⟩,Nat.lt_succ_self _,?_⟩,by simp,document⟩
  intro null
  injection null with null
  exact distinct null

mutual
theorem realise_document {g : Heap} (closed : g.Closed) : (built : Built) → (room : Nat) → built.Ok g room →
    ∃ d, d.writable = true ∧ ∀ h, g.Extends h → h.Closed → Realised room d h (built.realise h).1 (built.realise h).2
  | .value v,room,ok => by
    simp only [Built.Ok] at ok
    obtain ⟨good,present⟩ := ok
    obtain ⟨d,found,writable⟩ := good.encodable
    refine ⟨d,writable,?_⟩
    intro h grown ready
    simp only [Built.realise]
    exact ⟨.refl h,ready,good.extends closed grown,present,document_extends closed grown good.inside found⟩
  | .table t,room,ok => by
    simp only [Built.Ok] at ok
    obtain ⟨r,rfl,formed⟩ := ok
    obtain ⟨d,writable,all⟩ := formed.document closed
    refine ⟨d,writable,?_⟩
    intro h grown ready
    simp only [Built.realise]
    exact all h grown ready
  | .record fields,room,ok => by
    simp only [Built.Ok] at ok
    obtain ⟨r,rfl,distinct,each⟩ := ok
    obtain ⟨members,valid,names,all⟩ := realiseFields_members closed fields r each
    have base := all g (.refl g) closed
    have unique : (members.map Prod.fst).Nodup := by rw [names]; exact distinct
    obtain ⟨_,_,d,found,writable⟩ := base.record valid
    refine ⟨d,writable,?_⟩
    intro h grown ready
    have here := all h grown ready
    obtain ⟨final,proper,_⟩ := here.record valid
    have document := record_document unique base here found
    simp only [Built.realise]
    refine ⟨here.grown.trans (Heap.alloc_extends _ _),final,⟨⟨d,document,writable⟩,Nat.lt_succ_self _,?_⟩,by simp,document⟩
    intro null
    injection null with null
    exact proper null
theorem realiseFields_members {g : Heap} (closed : g.Closed) : (fields : List (Bytes × Built)) → (room : Nat) →
    FieldsOk g room fields → ∃ members : List (Bytes × Doc), (∀ member ∈ members, validUtf8 member.1 = true) ∧
      members.map Prod.fst = fields.map Prod.fst ∧
      ∀ h, g.Extends h → h.Closed → RealisedFields room members h (realiseFields fields h).1 (realiseFields fields h).2
  | [],room,_ => by
    refine ⟨[],by simp,rfl,?_⟩
    intro h grown ready
    simp only [realiseFields]
    exact ⟨.refl h,ready,.nil⟩
  | (name,built) :: rest,room,ok => by
    simp only [FieldsOk] at ok
    obtain ⟨valid,first,others⟩ := ok
    obtain ⟨d,writable,one⟩ := realise_document closed built room first
    obtain ⟨members,legal,names,all⟩ := realiseFields_members closed rest room others
    refine ⟨(name,d) :: members,?_,by simp [names],?_⟩
    · intro member listed
      rcases List.mem_cons.mp listed with head | tail
      · rw [head]
        exact valid
      · exact legal member tail
    · intro h grown ready
      have head := one h grown ready
      have tail := all _ (grown.trans head.grown) head.closed
      simp only [realiseFields]
      refine ⟨head.grown.trans tail.grown,tail.closed,.cons ?_ tail.members⟩
      exact Member.extends head.closed tail.grown ⟨rfl,head.good,head.present,head.document⟩
end

def encodeBuilt (y : Yyjson) (built : Built) (h : Heap) : Except Bytes Bytes :=
  encode y (built.realise h).2 (built.realise h).1

-- The text of a constructor depends on the values it is over alone.
theorem encodeBuilt_text (y : Yyjson) {g : Heap} {built : Built} (closed : g.Closed) (ok : built.Ok g maxDepth) :
    ∃ s, ∀ h, g.Extends h → h.Closed → encodeBuilt y built h = .ok s := by
  obtain ⟨d,writable,all⟩ := realise_document closed built maxDepth ok
  obtain ⟨s,written,_⟩ := y.read_write d writable
  refine ⟨s,?_⟩
  intro h grown ready
  have realised := all h grown ready
  simp only [encodeBuilt,encode,(encode_iff_document realised.closed).mpr realised.document,written,bind,Except.bind]
  rfl

end Hypringo.Constructor

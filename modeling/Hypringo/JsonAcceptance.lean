import Hypringo.JsonRoundtrip
import Hypringo.Document

namespace Hypringo.JsonAcceptance
open Hypringo.Lua Json JsonRoundtrip Document

-- Exactly the keys 1..n, or string keys on a table that is not marked.
inductive Shaped (t : Table) : Prop
  | array (length : Nat) (dense : Dense t length) (classed : t.marked = true ∨ 0 < length) : Shaped t
  | object (plain : t.marked = false)
      (named : ∀ key, t.get key ≠ .nil → ∃ name, key = .string name ∧ validUtf8 name = true) : Shaped t

-- What is asked of everything `v` leads to; json.null is not looked into.
structure Acceptable (h : Heap) (room : Nat) (v : Value) : Prop where
  acyclic : ∀ levels a further, Nested h levels v (.table a) → ¬Nested h (further+1) (.table a) (.table a)
  shallow : ∀ levels a, Nested h levels v (.table a) → a ≠ h.null → levels < room
  shaped : ∀ levels a, Nested h levels v (.table a) → a ≠ h.null → Shaped (h.table a)
  finite : ∀ levels f, Nested h levels v (.float f) → f.finite = true
  valid : ∀ levels s, Nested h levels v (.string s) → validUtf8 s = true
  kinds : ∀ levels kind identity, ¬Nested h levels v (.other kind identity)

theorem Nested.trans {h : Heap} {first second : Nat} {u v w : Value} (outer : Nested h first u v)
    (inner : Nested h second v w) : Nested h (first + second) u w := by
  induction outer with
  | here v => simpa using inner
  | inside proper entry deeper ih =>
    rw [Nat.add_right_comm]
    exact .inside proper entry (ih inner)

theorem Nested.child {h : Heap} {levels : Nat} {a : Address} {v key child : Value}
    (outer : Nested h levels v (.table a)) (proper : a ≠ h.null) (entry : (key,child) ∈ (h.table a).entries) :
    Nested h (levels+1) v child :=
  Nested.trans outer (.inside proper entry (.here child))

-- A cycle can be gone round until any level is passed.
theorem Nested.around {h : Heap} {a : Address} {further : Nat} (cycle : Nested h (further+1) (.table a) (.table a))
    (turns : Nat) : ∃ levels, turns ≤ levels ∧ Nested h levels (.table a) (.table a) := by
  induction turns with
  | zero => exact ⟨0,Nat.le_refl 0,.here _⟩
  | succ turns ih =>
    obtain ⟨levels,enough,path⟩ := ih
    exact ⟨levels + (further+1),by omega,Nested.trans path cycle⟩

theorem Nested.proper {h : Heap} {levels : Nat} {a : Address} {w : Value}
    (nested : Nested h (levels+1) (.table a) w) : a ≠ h.null := by
  cases nested with
  | inside proper _ _ => exact proper

theorem acyclic_of_shallow {h : Heap} {room : Nat} {v : Value}
    (shallow : ∀ levels a, Nested h levels v (.table a) → a ≠ h.null → levels < room) {levels : Nat} {a : Address}
    {further : Nat} (reached : Nested h levels v (.table a)) : ¬Nested h (further+1) (.table a) (.table a) := by
  intro cycle
  obtain ⟨round,enough,path⟩ := Nested.around cycle room
  have bound := shallow _ a (Nested.trans reached path) (Nested.proper cycle)
  omega

theorem Acceptable.child {h : Heap} {room : Nat} {a : Address} {key child : Value}
    (accepted : Acceptable h (room+1) (.table a)) (proper : a ≠ h.null) (entry : (key,child) ∈ (h.table a).entries) :
    Acceptable h room child where
  acyclic := fun _ b further path => accepted.acyclic _ b further (.inside proper entry path)
  shallow := fun _ b path other => Nat.lt_of_succ_lt_succ (accepted.shallow _ b (.inside proper entry path) other)
  shaped := fun _ b path => accepted.shaped _ b (.inside proper entry path)
  finite := fun _ f path => accepted.finite _ f (.inside proper entry path)
  valid := fun _ s path => accepted.valid _ s (.inside proper entry path)
  kinds := fun _ kind identity path => accepted.kinds _ kind identity (.inside proper entry path)

-- Scalars and json.null lead to themselves only.
theorem acceptable_flat {h : Heap} {room : Nat} {v : Value} (flat : v.scalar = true ∨ v = .table h.null)
    (finite : ∀ f, v = .float f → f.finite = true) (valid : ∀ s, v = .string s → validUtf8 s = true)
    (kinds : ∀ kind identity, v ≠ .other kind identity) : Acceptable h room v := by
  have only : ∀ levels w, Nested h levels v w → w = v := by
    intro levels w path
    cases levels with
    | zero =>
      cases path
      rfl
    | succ levels => exact absurd path (not_nested_scalar flat)
  have null : ∀ levels a, Nested h levels v (.table a) → a = h.null := by
    intro levels a path
    rcases flat with scalar | null
    · rw [← only levels _ path] at scalar
      simp [Value.scalar] at scalar
    · simpa using (only levels _ path).trans null
  refine ⟨?_,?_,?_,?_,?_,?_⟩
  · intro levels a further path cycle
    exact Nested.proper cycle (null levels a path)
  · intro levels a path proper
    exact absurd (null levels a path) proper
  · intro levels a path proper
    exact absurd (null levels a path) proper
  · intro levels f path
    exact finite f (only levels _ path).symm
  · intro levels s path
    exact valid s (only levels _ path).symm
  · intro levels kind identity path
    exact kinds kind identity (only levels _ path).symm

-- A table over what its values lead to.
theorem acceptable_table {h : Heap} {room : Nat} {a : Address} (shaped : Shaped (h.table a))
    (children : ∀ entry ∈ (h.table a).entries, Acceptable h room entry.2) : Acceptable h (room+1) (.table a) := by
  have shallow : ∀ levels b, Nested h levels (.table a) (.table b) → b ≠ h.null → levels < room + 1 := by
    intro levels b path other
    cases path with
    | here => omega
    | inside _ entry deeper => exact Nat.succ_lt_succ ((children _ entry).shallow _ b deeper other)
  refine ⟨fun _ b further path => acyclic_of_shallow shallow path,shallow,?_,?_,?_,?_⟩
  · intro levels b path other
    cases path with
    | here => exact shaped
    | inside _ entry deeper => exact (children _ entry).shaped _ b deeper other
  · intro levels f path
    cases path with
    | inside _ entry deeper => exact (children _ entry).finite _ f deeper
  · intro levels s path
    cases path with
    | inside _ entry deeper => exact (children _ entry).valid _ s deeper
  · intro levels kind identity path
    cases path with
    | inside _ entry deeper => exact (children _ entry).kinds _ kind identity deeper

theorem largest_le {entries : List (Value × Value)} {bound start : Nat} (first : start ≤ bound)
    (each : ∀ entry ∈ entries, ∃ index < bound, entry.1 = arrayKey index) (small : bound < 2^63) :
    entries.foldl (fun maximum entry => largerKey maximum entry.1) start ≤ bound := by
  induction entries generalizing start with
  | nil => exact first
  | cons entry rest ih =>
    rw [List.foldl_cons]
    refine ih ?_ (fun other member => each other (by simp [member]))
    obtain ⟨index,inside,key⟩ := each entry (by simp)
    rw [key,arrayKey,largerKey,arrayKey_toInt (by omega)]
    split <;> omega

-- Keys exactly 1..length: the count and the largest key agree.
theorem tableShape_dense {t : Table} {length : Nat} (dense : Dense t length) (classed : t.marked = true ∨ 0 < length) :
    tableShape t = .ok (.array length) := by
  have keys : ∀ entry ∈ t.entries, ∃ index < length, entry.1 = arrayKey index := by
    intro entry member
    exact (dense.keys entry.1).mp (by rw [Table.get_of_mem member]; exact t.present entry member)
  have positive : ∀ entry ∈ t.entries, positiveKey entry.1 = true := by
    intro entry member
    obtain ⟨index,inside,key⟩ := keys entry member
    have bound := dense.bound
    rw [key,arrayKey,positiveKey,arrayKey_toInt (by omega)]
    simp
  have range : (List.range length).map arrayKey ⊆ t.entries.map Prod.fst := by
    intro key member
    obtain ⟨index,inside,rfl⟩ := List.mem_map.mp member
    exact Table.get_ne_nil_iff.mp ((dense.keys _).mpr ⟨index,List.mem_range.mp inside,rfl⟩)
  have covered : t.entries.map Prod.fst ⊆ (List.range length).map arrayKey := by
    intro key member
    obtain ⟨entry,present,rfl⟩ := List.mem_map.mp member
    obtain ⟨index,inside,same⟩ := keys entry present
    exact List.mem_map.mpr ⟨index,List.mem_range.mpr inside,same.symm⟩
  have distinct : ((List.range length).map arrayKey).Nodup := by
    refine List.Nodup.map_on ?_ List.nodup_range
    intro left leftInside right rightInside same
    have bound := dense.bound
    have leftSmall := List.mem_range.mp leftInside
    have rightSmall := List.mem_range.mp rightInside
    exact arrayKey_injective (by omega) (by omega) same
  have count : t.entries.length = length := by
    have up := (List.subperm_of_subset t.distinct covered).length_le
    have down := (List.subperm_of_subset distinct range).length_le
    simp only [List.length_map,List.length_range] at up down
    omega
  have largest : t.entries.foldl (fun maximum entry => largerKey maximum entry.1) 0 = length := by
    have top := largest_le (Nat.zero_le length) keys dense.bound
    obtain ⟨_,_,inside⟩ := largest_bounds positive 0 (by decide)
    rcases Nat.eq_zero_or_pos length with none | some
    · omega
    · obtain ⟨entry,member,same⟩ := List.mem_map.mp (range (List.mem_map.mpr ⟨length - 1,List.mem_range.mpr (by omega),rfl⟩))
      obtain ⟨index,below,key⟩ := inside entry member
      have bound := dense.bound
      have last := arrayKey_injective (by omega) (by omega) (same.symm.trans key)
      omega
  have full : (t.entries.all (fun entry => positiveKey entry.1) && t.entries.length == length) = true := by
    rw [count]
    simpa using fun key value member => positive (key,value) member
  simp only [tableShape,largest,full]
  rcases classed with marked | some
  · simp [marked]
  · simp [count,some]

theorem encodeTable_array {t : Table} {child : Value → Except Bytes Doc} {length : Nat} (dense : Dense t length)
    (classed : t.marked = true ∨ 0 < length) (each : ∀ entry ∈ t.entries, ∃ d, child entry.2 = .ok d) :
    ∃ items, encodeTable t child = .ok (.array items) := by
  obtain ⟨items,stored⟩ : ∃ items, (List.range length).mapM (fun index => child (t.get (arrayKey index))) = .ok items := by
    apply Raise.mapM_returns
    intro index inside
    exact each _ (Table.mem_of_get ((dense.keys _).mpr ⟨index,List.mem_range.mp inside,rfl⟩))
  refine ⟨items,?_⟩
  simp only [encodeTable,tableShape_dense dense classed,encodeArray,stored,bind,Except.bind]
  rfl

theorem written_shaped {t : Table} {child : Value → Except Bytes Doc} {d : Doc} (written : Written t child d)
    (ok : d.writable = true) : Shaped t := by
  cases written with
  | array items dense classed _ => exact .array items.length dense classed
  | object members plain _ fields _ =>
    refine .object plain ?_
    intro key present
    obtain ⟨member,listed,rfl⟩ := (fields key).mp present
    rw [Doc.writable,writableMembers_iff] at ok
    exact ⟨member.1,rfl,(ok member listed).1⟩

theorem written_entry {t : Table} {child : Value → Except Bytes Doc} {d : Doc} (written : Written t child d)
    (ok : d.writable = true) {entry : Value × Value} (member : entry ∈ t.entries) :
    ∃ e, child entry.2 = .ok e ∧ e.writable = true := by
  have value := Table.get_of_mem member
  have present : t.get entry.1 ≠ .nil := by rw [value]; exact t.present entry member
  rw [← value]
  cases written with
  | array items dense _ each =>
    obtain ⟨index,bound,same⟩ := (dense.keys _).mp present
    rw [Doc.writable,writableItems_iff] at ok
    rw [same]
    exact ⟨_,each index _ (List.getElem?_eq_getElem bound),ok _ (List.getElem_mem bound)⟩
  | object members _ _ fields each =>
    obtain ⟨name,listed,same⟩ := (fields _).mp present
    rw [Doc.writable,writableMembers_iff] at ok
    rw [same]
    exact ⟨_,each name listed,(ok name listed).2⟩

theorem acceptable_scalar {h : Heap} {room : Nat} {v : Value} {d : Doc} (flat : v.scalar = true)
    (found : scalarDocument v = .ok d) (ok : d.writable = true) : Acceptable h room v := by
  refine acceptable_flat (.inl flat) ?_ ?_ ?_
  · intro f float
    subst float
    exact scalarDocument_finite found
  · intro s stored
    subst stored
    cases found
    exact ok
  · intro kind identity other
    subst other
    cases found

theorem flat_or_table (h : Heap) (v : Value) :
    (v.scalar = true ∨ v = .table h.null) ∨ ∃ a, v = .table a ∧ a ≠ h.null := by
  cases v with
  | table a =>
    by_cases null : a = h.null
    · exact .inl (.inr (by rw [null]))
    · exact .inr ⟨a,rfl,null⟩
  | _ => exact .inl (.inl rfl)

theorem encodeValue_null (h : Heap) (room : Nat) (path : List Address) :
    encodeValue h room path (.table h.null) = .ok .null := by
  rw [encodeValue.eq_def]
  simp

theorem acceptable_of_flat {h : Heap} {room : Nat} {path : List Address} {v : Value} {d : Doc}
    (flat : v.scalar = true ∨ v = .table h.null) (encoded : encodeValue h room path v = .ok d) (ok : d.writable = true) :
    Acceptable h room v := by
  rcases flat with scalar | null
  · rw [encodeValue_scalar scalar] at encoded
    exact acceptable_scalar scalar encoded ok
  · rw [null]
    exact acceptable_flat (.inr rfl) (fun _ => by simp) (fun _ => by simp) (fun _ _ => by simp)

theorem encodes_table {h : Heap} {room : Nat} {path : List Address} {a : Address} {d : Doc} (proper : a ≠ h.null)
    (encoded : encodeValue h room path (.table a) = .ok d) :
    ∃ less, room = less + 1 ∧ encodeTable (h.table a) (encodeValue h less (a :: path)) = .ok d := by
  cases room with
  | zero =>
    rw [encodeValue,if_neg proper] at encoded
    cases encoded
  | succ room =>
    simp only [encodeValue,if_neg proper] at encoded
    split at encoded
    · cases encoded
    · exact ⟨room,rfl,encoded⟩

theorem acceptable_of_encodes {h : Heap} (room : Nat) {path : List Address} {v : Value} {d : Doc}
    (encoded : encodeValue h room path v = .ok d) (ok : d.writable = true) : Acceptable h room v := by
  induction room generalizing path v d with
  | zero =>
    rcases flat_or_table h v with flat | ⟨a,rfl,proper⟩
    · exact acceptable_of_flat flat encoded ok
    · obtain ⟨less,impossible,_⟩ := encodes_table proper encoded
      omega
  | succ room ih =>
    rcases flat_or_table h v with flat | ⟨a,rfl,proper⟩
    · exact acceptable_of_flat flat encoded ok
    · obtain ⟨less,same,inner⟩ := encodes_table proper encoded
      cases same
      have written := encodeTable_written inner
      refine acceptable_table (written_shaped written ok) ?_
      intro entry member
      obtain ⟨e,child,valid⟩ := written_entry written ok member
      exact ih child valid

theorem encodes_of_flat {h : Heap} {room : Nat} (path : List Address) {v : Value}
    (flat : v.scalar = true ∨ v = .table h.null) (accepted : Acceptable h room v) :
    ∃ d, encodeValue h room path v = .ok d ∧ d.writable = true := by
  rcases flat with scalar | null
  · rw [encodeValue_scalar scalar]
    cases v with
    | table a => simp [Value.scalar] at scalar
    | nil => exact ⟨.null,rfl,rfl⟩
    | boolean b => exact ⟨.boolean b,rfl,rfl⟩
    | integer i =>
      have low := i.le_toInt
      have high := i.toInt_lt
      exact ⟨.sint i.toInt,rfl,by simp only [Doc.writable,decide_eq_true_eq]; omega⟩
    | float f =>
      have finite := accepted.finite 0 f (.here _)
      exact ⟨.real f,by rw [scalarDocument,if_pos finite],finite⟩
    | string s => exact ⟨.string s,rfl,accepted.valid 0 s (.here _)⟩
    | other kind identity => exact absurd (.here _) (accepted.kinds 0 kind identity)
  · rw [null,encodeValue_null]
    exact ⟨.null,rfl,rfl⟩

theorem shaped_encodes {t : Table} {child : Value → Except Bytes Doc} (shaped : Shaped t)
    (children : ∀ entry ∈ t.entries, ∃ d, child entry.2 = .ok d ∧ d.writable = true) :
    ∃ d, encodeTable t child = .ok d ∧ d.writable = true := by
  cases shaped with
  | array length dense classed =>
    obtain ⟨items,encoded⟩ := encodeTable_array dense classed
      (fun entry member => (children entry member).imp (fun _ both => both.1))
    refine ⟨_,encoded,?_⟩
    cases encodeTable_written encoded with
    | array _ filled _ each =>
      rw [Doc.writable,writableItems_iff]
      intro item listed
      obtain ⟨index,found⟩ := List.mem_iff_getElem?.mp listed
      obtain ⟨bound,_⟩ := List.getElem?_eq_some_iff.mp found
      obtain ⟨e,stored,valid⟩ := children _ (Table.mem_of_get ((filled.keys _).mpr ⟨index,bound,rfl⟩))
      rw [each index item found] at stored
      cases stored
      exact valid
  | object plain named =>
    have members : ∀ entry ∈ t.entries, ∃ name, entry.1 = .string name ∧ validUtf8 name = true := by
      intro entry member
      exact named entry.1 (by rw [Table.get_of_mem member]; exact t.present entry member)
    obtain ⟨docs,encoded⟩ := encodeTable_object plain (fun entry member => by
      obtain ⟨name,key,_⟩ := members entry member
      obtain ⟨d,stored,_⟩ := children entry member
      exact ⟨name,key,d,stored⟩)
    refine ⟨_,encoded,?_⟩
    cases encodeTable_written encoded with
    | object _ _ _ fields each =>
      rw [Doc.writable,writableMembers_iff]
      intro member listed
      have present := Table.mem_of_get ((fields _).mpr ⟨member,listed,rfl⟩)
      obtain ⟨name,same,valid⟩ := members _ present
      obtain ⟨d,stored,ok⟩ := children _ present
      injection same with same
      rw [each member listed] at stored
      cases stored
      exact ⟨same ▸ valid,ok⟩

-- `path` holds tables `v` lies in: none of them is `v`, or there is a cycle.
theorem encodes_of_acceptable {h : Heap} (room : Nat) {path : List Address} {v : Value}
    (accepted : Acceptable h room v) (above : ∀ a ∈ path, ∃ levels, Nested h (levels+1) (.table a) v) :
    ∃ d, encodeValue h room path v = .ok d ∧ d.writable = true := by
  induction room generalizing path v with
  | zero =>
    rcases flat_or_table h v with flat | ⟨a,rfl,proper⟩
    · exact encodes_of_flat path flat accepted
    · exact absurd (accepted.shallow 0 a (.here _) proper) (Nat.not_lt_zero 0)
  | succ room ih =>
    rcases flat_or_table h v with flat | ⟨a,rfl,proper⟩
    · exact encodes_of_flat path flat accepted
    · have fresh : a ∉ path := by
        intro seen
        obtain ⟨levels,cycle⟩ := above a seen
        exact accepted.acyclic 0 a levels (.here _) cycle
      rw [encodeValue_table proper fresh]
      refine shaped_encodes (accepted.shaped 0 a (.here _) proper) ?_
      intro entry member
      refine ih (accepted.child proper member) ?_
      intro b seen
      rcases List.mem_cons.mp seen with same | older
      · subst same
        exact ⟨0,.inside proper member (.here _)⟩
      · obtain ⟨levels,outer⟩ := above b older
        exact ⟨levels+1,Nested.child outer proper member⟩

theorem encode_accepts (y : Yyjson) (h : Heap) (v : Value) :
    (∃ s, encode y h v = .ok s) ↔ Acceptable h maxDepth v := by
  constructor
  · intro succeeds
    obtain ⟨s,encoded⟩ := succeeds
    obtain ⟨d,root,written⟩ := encode_ok encoded
    cases ok : d.writable with
    | true => exact acceptable_of_encodes maxDepth root ok
    | false =>
      obtain ⟨message,refused⟩ := y.write_refuses d ok
      rw [written] at refused
      cases refused
  · intro accepted
    obtain ⟨d,root,ok⟩ : ∃ d, encodeValue h maxDepth [] v = .ok d ∧ d.writable = true :=
      encodes_of_acceptable maxDepth accepted (by simp)
    obtain ⟨s,written,_⟩ := y.read_write d ok
    refine ⟨s,?_⟩
    simp only [encode,root,written,bind,Except.bind]
    rfl

-- The document is the value's own: an array has as many items as its table has
-- keys, in their order, and null stands for json.null only.
inductive Image (h : Heap) : Value → Doc → Prop
  | nothing : Image h .nil .null
  | null : Image h (.table h.null) .null
  | boolean (b : Bool) : Image h (.boolean b) (.boolean b)
  | integer (i : Int64) : Image h (.integer i) (.sint i.toInt)
  | float (f : Float64) : Image h (.float f) (.real f)
  | string (s : Bytes) : Image h (.string s) (.string s)
  | array (a : Address) (items : List Doc) (proper : a ≠ h.null) (dense : Dense (h.table a) items.length)
      (classed : (h.table a).marked = true ∨ 0 < items.length)
      (each : ∀ index item, items[index]? = some item → Image h ((h.table a).get (arrayKey index)) item)
      (nulls : ∀ index : Nat, items[index]? = some .null → (h.table a).get (arrayKey index) = .table h.null) :
      Image h (.table a) (.array items)
  | object (a : Address) (members : List (Bytes × Doc)) (proper : a ≠ h.null) (plain : (h.table a).marked = false)
      (sorted : members.Pairwise (fun left right => ordinal left.1 < ordinal right.1))
      (fields : ∀ key, (h.table a).get key ≠ .nil ↔ ∃ member ∈ members, key = .string member.1)
      (each : ∀ member ∈ members, Image h ((h.table a).get (.string member.1)) member.2) :
      Image h (.table a) (.object members)

theorem image_null {h : Heap} {v : Value} (image : Image h v .null) (present : v ≠ .nil) : v = .table h.null := by
  cases image with
  | nothing => exact absurd rfl present
  | null => rfl

theorem written_image {h : Heap} {a : Address} {child : Value → Except Bytes Doc} {d : Doc} (proper : a ≠ h.null)
    (written : Written (h.table a) child d) (children : ∀ w e, child w = .ok e → Image h w e) :
    Image h (.table a) d := by
  cases written with
  | array items dense classed each =>
    have images : ∀ index item, items[index]? = some item → Image h ((h.table a).get (arrayKey index)) item :=
      fun index item found => children _ _ (each index item found)
    refine .array a items proper dense classed images ?_
    intro index found
    obtain ⟨bound,_⟩ := List.getElem?_eq_some_iff.mp found
    exact image_null (images index _ found) ((dense.keys _).mpr ⟨index,bound,rfl⟩)
  | object members plain sorted fields each =>
    exact .object a members proper plain sorted fields (fun member listed => children _ _ (each member listed))

theorem scalar_image {h : Heap} {v : Value} {d : Doc} (found : scalarDocument v = .ok d) : Image h v d := by
  cases v with
  | nil => cases found; exact .nothing
  | boolean b => cases found; exact .boolean b
  | integer i => cases found; exact .integer i
  | string s => cases found; exact .string s
  | float f =>
    rw [scalarDocument] at found
    split at found
    · cases found
      exact .float f
    · cases found
  | table a => cases found
  | other kind identity => cases found

theorem encodeValue_image {h : Heap} (room : Nat) {path : List Address} {v : Value} {d : Doc}
    (encoded : encodeValue h room path v = .ok d) : Image h v d := by
  induction room generalizing path v d with
  | zero =>
    rcases flat_or_table h v with (scalar | rfl) | ⟨a,rfl,proper⟩
    · rw [encodeValue_scalar scalar] at encoded
      exact scalar_image encoded
    · rw [encodeValue_null] at encoded
      cases encoded
      exact .null
    · obtain ⟨less,impossible,_⟩ := encodes_table proper encoded
      omega
  | succ room ih =>
    rcases flat_or_table h v with (scalar | rfl) | ⟨a,rfl,proper⟩
    · rw [encodeValue_scalar scalar] at encoded
      exact scalar_image encoded
    · rw [encodeValue_null] at encoded
      cases encoded
      exact .null
    · obtain ⟨less,same,inner⟩ := encodes_table proper encoded
      cases same
      exact written_image proper (encodeTable_written inner) (fun _ _ child => ih child)

theorem encode_accepts_exactly (y : Yyjson) (h : Heap) (v : Value) :
    ((∃ s, encode y h v = .ok s) ↔ Acceptable h maxDepth v) ∧
      ∀ s, encode y h v = .ok s → ∃ d, Image h v d ∧ y.write d = .ok s ∧ y.read s = .ok d.canonical := by
  refine ⟨encode_accepts y h v,?_⟩
  intro s encoded
  obtain ⟨d,root,written⟩ := encode_ok encoded
  exact ⟨d,encodeValue_image maxDepth root,written,write_ok written⟩

-- One table held twice is no cycle.
def sharing : Heap where
  size := 3
  table := fun (a : Nat) =>
    if a = 0 then .build true [(.integer 1,.table 1),(.integer 2,.table 1),(.integer 3,.table 2)]
    else if a = 1 then .record [(text "level",.integer 7)] else .empty false
  null := 2

theorem sharing_accepted : Acceptable sharing maxDepth (.table 0) ∧ ∃ d, Image sharing (.table 0) d ∧
    JsonText.reference.write d = .ok (text "[\x7b\"level\":7\x7d,\x7b\"level\":7\x7d,null]") := by
  have encoded : encode JsonText.reference sharing (.table 0) =
      .ok (text "[\x7b\"level\":7\x7d,\x7b\"level\":7\x7d,null]") := by rfl
  obtain ⟨accepts,described⟩ := encode_accepts_exactly JsonText.reference sharing (.table 0)
  obtain ⟨d,image,written,_⟩ := described _ encoded
  exact ⟨accepts.mp ⟨_,encoded⟩,d,image,written⟩

end Hypringo.JsonAcceptance

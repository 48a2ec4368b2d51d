import Hypringo.JsonCanonical

namespace Hypringo.JsonRecode
open Hypringo.Lua Json JsonRoundtrip JsonAcceptance JsonCanonical Document Numeral

-- The tables decode_value builds. They are fresh, so which addresses they get
-- is the allocator's business.
def listed (values : List Value) : Table :=
  .build true (values.zipIdx.map (fun item => (arrayKey item.2,item.1)))

mutual
def lay : Tree → Heap → Value × Heap
  | .null,h => (.table h.null,h)
  | .boolean b,h => (.boolean b,h)
  | .integer i,h => (.integer i,h)
  | .float f,h => (.float f,h)
  | .string s,h => (.string s,h)
  | .array items,h =>
    let (values,later) := layItems items h
    (.table later.size,later.alloc (listed values))
  | .object members,h =>
    let (values,later) := layMembers members h
    (.table later.size,later.alloc (.record values))
def layItems : List Tree → Heap → List Value × Heap
  | [],h => ([],h)
  | item :: rest,h =>
    let (v,middle) := lay item h
    let (values,later) := layItems rest middle
    (v :: values,later)
def layMembers : List (Bytes × Tree) → Heap → List (Bytes × Value) × Heap
  | [],h => ([],h)
  | (name,value) :: rest,h =>
    let (v,middle) := lay value h
    let (values,later) := layMembers rest middle
    ((name,v) :: values,later)
end

def ldecode (y : Yyjson) (source : Bytes) (h : Heap) : Except Bytes (Value × Heap) := do
  let t ← decode y source
  return lay t h

-- The reader is the writer's inverse: what it returns can be written. An item
-- of an array takes at least one byte of the text.
structure Reader (y : Yyjson) (source : Bytes) : Prop where
  writable : ∀ d, y.read source = .ok d → d.writable = true
  items : ∀ d items, y.read source = .ok d → Inside (.array items) d → items.length ≤ source.length

-- What decoding leaves of a document: finite numbers, valid strings, members
-- in key order, and a level of room for every value.
inductive Fit : Nat → Tree → Prop
  | null (room : Nat) : Fit (room+1) .null
  | boolean (room : Nat) (b : Bool) : Fit (room+1) (.boolean b)
  | integer (room : Nat) (i : Int64) : Fit (room+1) (.integer i)
  | float (room : Nat) (f : Float64) (finite : f.finite = true) : Fit (room+1) (.float f)
  | string (room : Nat) (s : Bytes) (valid : validUtf8 s = true) : Fit (room+1) (.string s)
  | array (room : Nat) (items : List Tree) (small : items.length < 2^63) (each : ∀ item ∈ items, Fit room item) :
      Fit (room+1) (.array items)
  | object (room : Nat) (members : List (Bytes × Tree))
      (sorted : members.Pairwise (fun left right => ordinal left.1 < ordinal right.1))
      (valid : ∀ member ∈ members, validUtf8 member.1 = true) (each : ∀ member ∈ members, Fit room member.2) :
      Fit (room+1) (.object members)

theorem mem_setMember {key name : Bytes} {value t : Tree} {held : List (Bytes × Tree)}
    (member : (name,t) ∈ setMember key value held) : (name,t) = (key,value) ∨ (name,t) ∈ held := by
  induction held with
  | nil => exact .inl (by simpa [setMember] using member)
  | cons head rest ih =>
    rw [setMember] at member
    split at member
    · simpa using member
    · rcases List.mem_cons.mp member with new | old
      · exact .inl new
      · exact .inr (by simp [old])
    · rcases List.mem_cons.mp member with first | later
      · exact .inr (by simp [first])
      · rcases ih later with new | old
        · exact .inl new
        · exact .inr (by simp [old])

theorem setMember_ordered {key : Bytes} {value : Tree} {held : List (Bytes × Tree)}
    (sorted : held.Pairwise (fun left right => ordinal left.1 < ordinal right.1)) :
    (setMember key value held).Pairwise (fun left right => ordinal left.1 < ordinal right.1) := by
  induction held with
  | nil => simp [setMember]
  | cons head rest ih =>
    have parts := List.pairwise_cons.mp sorted
    have order := compareObjectKeys_compares key head.1
    rw [setMember]
    split
    · rename_i less
      rw [less] at order
      refine List.pairwise_cons.mpr ⟨?_,sorted⟩
      intro member listed
      rcases List.mem_cons.mp listed with same | later
      · rw [same]
        exact order
      · exact lt_trans order (parts.1 member later)
    · rename_i equal
      rw [equal] at order
      refine List.pairwise_cons.mpr ⟨?_,parts.2⟩
      intro member listed
      have below := parts.1 member listed
      rwa [← show ordinal key = ordinal head.1 from order] at below
    · rename_i greater
      rw [greater] at order
      refine List.pairwise_cons.mpr ⟨?_,ih parts.2⟩
      intro member listed
      rcases mem_setMember listed with new | old
      · have name : member.1 = key := congrArg Prod.fst new
        rw [name]
        exact order
      · exact parts.1 member old

theorem kept_ordered (members : List (Bytes × Tree)) {held : List (Bytes × Tree)}
    (sorted : held.Pairwise (fun left right => ordinal left.1 < ordinal right.1)) :
    (members.foldl (fun held member => setMember member.1 member.2 held) held).Pairwise
      (fun left right => ordinal left.1 < ordinal right.1) := by
  induction members generalizing held with
  | nil => exact sorted
  | cons member rest ih => exact ih (setMember_ordered sorted)

theorem mem_kept (members : List (Bytes × Tree)) {held : List (Bytes × Tree)} {member : Bytes × Tree}
    (listed : member ∈ members.foldl (fun held member => setMember member.1 member.2 held) held) :
    member ∈ held ∨ member ∈ members := by
  induction members generalizing held with
  | nil => exact .inl listed
  | cons first rest ih =>
    rcases ih listed with placed | later
    · rcases mem_setMember placed with new | old
      · exact .inr (by simp [show member = first from new])
      · exact .inl old
    · exact .inr (by simp [later])

theorem mem_setMember_iff {key name : Bytes} {value t : Tree} {held : List (Bytes × Tree)}
    (sorted : held.Pairwise (fun left right => ordinal left.1 < ordinal right.1)) :
    (name,t) ∈ setMember key value held ↔ (name = key ∧ t = value) ∨ (name ≠ key ∧ (name,t) ∈ held) := by
  induction held with
  | nil => simp [setMember]
  | cons head rest ih =>
    have parts := List.pairwise_cons.mp sorted
    have order := compareObjectKeys_compares key head.1
    -- The members from a point on have keys above the one there.
    have above : ∀ bound, ordinal key < ordinal bound ∨ key = bound → bound = head.1 →
        (name,t) ∈ rest → name ≠ key := by
      intro bound low same known equal
      have greater := parts.1 _ known
      rw [equal,← same] at greater
      rcases low with less | rfl
      · exact lt_irrefl _ (less.trans greater)
      · exact lt_irrefl _ greater
    rw [setMember]
    split
    · rename_i less
      rw [less] at order
      have first : (name,t) = head → name ≠ key := by
        rintro rfl same
        subst same
        exact lt_irrefl _ order
      simp only [List.mem_cons,Prod.mk.injEq]
      constructor
      · rintro (new | old | later)
        · exact .inl new
        · exact .inr ⟨first old,.inl old⟩
        · exact .inr ⟨above head.1 (.inl order) rfl later,.inr later⟩
      · rintro (new | ⟨_,old⟩)
        · exact .inl new
        · exact .inr old
    · rename_i equal
      rw [equal] at order
      have same : key = head.1 := ordinal_injective order
      simp only [List.mem_cons,Prod.mk.injEq]
      constructor
      · rintro (new | later)
        · exact .inl new
        · exact .inr ⟨above head.1 (.inr same) rfl later,.inr later⟩
      · rintro (new | ⟨other,old | later⟩)
        · exact .inl new
        · exact absurd ((congrArg Prod.fst old).trans same.symm) other
        · exact .inr later
    · rename_i greater
      rw [greater] at order
      simp only [List.mem_cons,ih parts.2]
      constructor
      · rintro (old | new | ⟨other,later⟩)
        · refine .inr ⟨?_,.inl old⟩
          intro same
          rw [← same,show name = head.1 from congrArg Prod.fst old] at order
          exact lt_irrefl _ order
        · exact .inl new
        · exact .inr ⟨other,.inr later⟩
      · rintro (new | ⟨other,old | later⟩)
        · exact .inr (.inl new)
        · exact .inl old
        · exact .inr (.inr ⟨other,later⟩)

def last (members : List (Bytes × α)) (name : Bytes) : Option α :=
  (members.reverse.find? (fun member => member.1 == name)).map Prod.snd

theorem last_append (members : List (Bytes × α)) (member : Bytes × α) (name : Bytes) :
    last (members ++ [member]) name = if member.1 = name then some member.2 else last members name := by
  unfold last
  rw [List.reverse_append,List.reverse_singleton,List.singleton_append,List.find?_cons]
  by_cases same : member.1 = name
  · simp [same]
  · have other : (member.1 == name) = false := by simpa using same
    simp [same,other]

-- Of members with one key the last is kept.
theorem mem_kept_iff (members : List (Bytes × Tree)) (name : Bytes) (t : Tree) :
    (name,t) ∈ members.foldl (fun held member => setMember member.1 member.2 held) [] ↔ last members name = some t := by
  induction members using List.reverseRecOn with
  | nil => simp [last]
  | append_singleton members member ih =>
    rw [List.foldl_append,List.foldl_cons,List.foldl_nil,mem_setMember_iff (kept_ordered members .nil),ih,last_append]
    by_cases same : member.1 = name
    · simp [same,eq_comm]
    · have other : name ≠ member.1 := fun equal => same equal.symm
      simp [same,other]

theorem last_mem {members : List (Bytes × α)} {name : Bytes} {value : α} (found : last members name = some value) :
    (name,value) ∈ members := by
  obtain ⟨member,search,rfl⟩ := Option.map_eq_some_iff.mp found
  have same : member.1 = name := by simpa using List.find?_some search
  have listed := List.mem_of_find?_eq_some search
  rw [← same]
  simpa using listed

theorem last_some {members : List (Bytes × α)} {name : Bytes} {value : α} (listed : (name,value) ∈ members) :
    ∃ kept, last members name = some kept := by
  unfold last
  cases search : members.reverse.find? (fun member => member.1 == name) with
  | some member => exact ⟨member.2,rfl⟩
  | none =>
    have absent := List.find?_eq_none.mp search (name,value) (by simpa using listed)
    simp at absent

theorem last_related {R : α → β → Prop} {members : List (Bytes × α)} {trees : List (Bytes × β)}
    (paired : List.Forall₂ (fun member tree => tree.1 = member.1 ∧ R member.2 tree.2) members trees) {name : Bytes}
    {t : β} (found : last trees name = some t) : ∃ d, last members name = some d ∧ R d t := by
  have reversed := List.forall₂_reverse_iff.mpr paired
  unfold last at found ⊢
  generalize members.reverse = left at reversed ⊢
  generalize trees.reverse = right at reversed found
  induction reversed with
  | nil => simp at found
  | @cons member tree left right first _ ih =>
    rw [List.find?_cons] at found ⊢
    rw [← first.1]
    by_cases same : tree.1 = name
    · simp only [same,beq_self_eq_true,Option.map_some,Option.some.injEq] at found ⊢
      exact ⟨member.2,rfl,found ▸ first.2⟩
    · have other : (tree.1 == name) = false := by simpa using same
      simp only [other] at found ⊢
      exact ih found

-- What the tree of a document is: sorted members, the last of each key, and
-- integers past the signed range as reals.
inductive Settles : Doc → Tree → Prop
  | null : Settles .null .null
  | boolean (b : Bool) : Settles (.boolean b) (.boolean b)
  | sint (i : Int) : Settles (.sint i) (.integer (Int64.ofInt i))
  | uint (n : Nat) (small : n < 2^63) : Settles (.uint n) (.integer (Int64.ofInt n))
  | large (n : Nat) (large : 2^63 ≤ n) : Settles (.uint n) (.float (nearest false n))
  | real (f : Float64) : Settles (.real f) (.float f)
  | string (s : Bytes) : Settles (.string s) (.string s)
  | array (items : List Doc) (trees : List Tree) (lengths : trees.length = items.length)
      (each : ∀ (index : Nat) item tree, items[index]? = some item → trees[index]? = some tree → Settles item tree) :
      Settles (.array items) (.array trees)
  | object (members : List (Bytes × Doc)) (held : List (Bytes × Tree))
      (sorted : held.Pairwise (fun left right => ordinal left.1 < ordinal right.1))
      (names : ∀ name, (∃ t, (name,t) ∈ held) ↔ ∃ d, (name,d) ∈ members)
      (each : ∀ name d t, last members name = some d → (name,t) ∈ held → Settles d t) :
      Settles (.object members) (.object held)

theorem decodeValue_settles (room : Nat) {d : Doc} {t : Tree} (decoded : decodeValue room d = .ok t) : Settles d t := by
  induction room generalizing d t with
  | zero => cases decoded
  | succ room ih =>
    cases d with
    | null => cases decoded; exact .null
    | boolean b => cases decoded; exact .boolean b
    | sint i => cases decoded; exact .sint i
    | uint n =>
      rw [decodeValue] at decoded
      split at decoded
      · cases decoded
        exact .uint n (by omega)
      · cases decoded
        exact .large n (by omega)
    | real f => cases decoded; exact .real f
    | string s => cases decoded; exact .string s
    | array items =>
      rw [decodeValue] at decoded
      obtain ⟨trees,each,final⟩ := Raise.bind_ok.mp decoded
      cases final
      have paired := Raise.mapM_ok.mp each
      refine .array items trees paired.length_eq.symm ?_
      intro index item tree known found
      obtain ⟨bound,rfl⟩ := List.getElem?_eq_some_iff.mp known
      obtain ⟨other,rfl⟩ := List.getElem?_eq_some_iff.mp found
      exact ih ((List.forall₂_iff_get.mp paired).2 index bound other)
    | object members =>
      rw [decodeValue] at decoded
      obtain ⟨trees,each,final⟩ := Raise.bind_ok.mp decoded
      cases final
      have paired := (Raise.mapM_ok.mp each).imp (fun _ _ read => decodeMember_ok.mp read)
      refine .object members _ (kept_ordered trees .nil) ?_ ?_
      · intro name
        constructor
        · intro found
          obtain ⟨t,held⟩ := found
          obtain ⟨d,kept,_⟩ := last_related (R := fun d t => decodeValue room d = .ok t) paired ((mem_kept_iff trees name t).mp held)
          exact ⟨d,last_mem kept⟩
        · intro found
          obtain ⟨d,known⟩ := found
          obtain ⟨tree,listed,same,_⟩ := Raise.forall₂_left paired known
          have present : (name,tree.2) ∈ trees := by
            rw [← show tree.1 = name from same]
            exact listed
          obtain ⟨t,kept⟩ := last_some present
          exact ⟨t,(mem_kept_iff trees name t).mpr kept⟩
      · intro name d t kept held
        obtain ⟨e,same,read⟩ := last_related (R := fun d t => decodeValue room d = .ok t) paired ((mem_kept_iff trees name t).mp held)
        cases kept.symm.trans same
        exact ih read

-- Integers of up to 64 bits have a finite nearest float.
theorem nearest_finite {n : Nat} (small : n < 2^64) : (nearest false n).finite = true := by
  have field : ∃ bits : Nat, nearest false n = ⟨UInt64.ofNat bits⟩ ∧ bits < 2047 * 2^52 := by
    unfold nearest
    by_cases none : n = 0
    · exact ⟨0,by simp [none],by decide⟩
    · have low : Nat.log2 n ≤ 63 := Nat.lt_succ_iff.mp ((Nat.log2_lt none).mpr small)
      have high : n < 2^(Nat.log2 n + 1) := Nat.lt_log2_self
      simp only [if_neg none,Bool.false_eq_true,if_false,Nat.zero_add]
      split
      · rename_i short
        refine ⟨_,rfl,?_⟩
        have scaled : n * 2^(52 - Nat.log2 n) < 2^53 := by
          calc n * 2^(52 - Nat.log2 n) < 2^(Nat.log2 n + 1) * 2^(52 - Nat.log2 n) :=
                Nat.mul_lt_mul_of_pos_right high (Nat.two_pow_pos _)
            _ = 2^53 := by rw [← Nat.pow_add]; congr 1; omega
        omega
      · rename_i long
        refine ⟨_,rfl,?_⟩
        have quotient : n / 2^(Nat.log2 n - 52) < 2^53 := by
          refine Nat.div_lt_of_lt_mul ?_
          rw [← Nat.pow_add]
          have exponent : Nat.log2 n - 52 + 53 = Nat.log2 n + 1 := by omega
          rw [exponent]
          exact high
        split <;> omega
  obtain ⟨bits,same,bound⟩ := field
  have value : (nearest false n).bits.toNat = bits := by
    rw [same]
    exact UInt64.toNat_ofNat_of_lt' (by have size : UInt64.size = 2^64 := rfl; omega)
  simp only [Float64.finite,Float64.exponent,value,bne_iff_ne,ne_eq]
  omega

theorem decodeValue_fit (room : Nat) {d : Doc} {t : Tree} (decoded : decodeValue room d = .ok t) (ok : d.writable = true)
    (short : ∀ items, Inside (.array items) d → items.length < 2^63) : Fit room t := by
  induction room generalizing d t with
  | zero => cases decoded
  | succ room ih =>
    cases d with
    | null => cases decoded; exact .null room
    | boolean b => cases decoded; exact .boolean room b
    | sint i => cases decoded; exact .integer room _
    | uint n =>
      rw [decodeValue] at decoded
      split at decoded
      · cases decoded
        exact .integer room _
      · cases decoded
        exact .float room _ (nearest_finite (by simpa [Doc.writable] using ok))
    | real f => cases decoded; exact .float room f ok
    | string s => cases decoded; exact .string room s ok
    | array items =>
      rw [decodeValue] at decoded
      obtain ⟨trees,each,last⟩ := Raise.bind_ok.mp decoded
      cases last
      have paired := Raise.mapM_ok.mp each
      rw [Doc.writable,writableItems_iff] at ok
      refine .array room trees ?_ ?_
      · rw [← paired.length_eq]
        exact short items (.here _)
      · intro tree member
        obtain ⟨item,known,read⟩ := Raise.forall₂_right paired member
        exact ih read (ok item known) (fun others inside => short others (.item known inside))
    | object members =>
      rw [decodeValue] at decoded
      obtain ⟨trees,each,last⟩ := Raise.bind_ok.mp decoded
      cases last
      have paired := Raise.mapM_ok.mp each
      rw [Doc.writable,writableMembers_iff] at ok
      have origin : ∀ tree ∈ trees.foldl (fun held member => setMember member.1 member.2 held) [],
          ∃ member ∈ members, tree.1 = member.1 ∧ decodeValue room member.2 = .ok tree.2 := by
        intro tree listed
        rcases mem_kept trees listed with impossible | found
        · cases impossible
        · obtain ⟨member,known,read⟩ := Raise.forall₂_right paired found
          exact ⟨member,known,decodeMember_ok.mp read⟩
      refine .object room _ (kept_ordered trees .nil) ?_ ?_
      · intro tree listed
        obtain ⟨member,known,same,_⟩ := origin tree listed
        rw [same]
        exact (ok member known).1
      · intro tree listed
        obtain ⟨member,known,_,read⟩ := origin tree listed
        exact ih read (ok member known).2 (fun others inside => short others (.member known inside))

-- What laying a tree out leaves in a heap: as `Reads`, with every array marked
-- and every table allocated.
inductive Built (h : Heap) : Value → Tree → Prop
  | null : Built h (.table h.null) .null
  | boolean (b : Bool) : Built h (.boolean b) (.boolean b)
  | integer (i : Int64) : Built h (.integer i) (.integer i)
  | float (f : Float64) : Built h (.float f) (.float f)
  | string (s : Bytes) : Built h (.string s) (.string s)
  | array (a : Address) (items : List Tree) (inside : a < h.size) (proper : a ≠ h.null)
      (dense : Dense (h.table a) items.length) (marked : (h.table a).marked = true)
      (each : ∀ index item, items[index]? = some item → Built h ((h.table a).get (arrayKey index)) item) :
      Built h (.table a) (.array items)
  | object (a : Address) (members : List (Bytes × Tree)) (inside : a < h.size) (proper : a ≠ h.null)
      (plain : (h.table a).marked = false)
      (sorted : members.Pairwise (fun left right => ordinal left.1 < ordinal right.1))
      (fields : ∀ key, (h.table a).get key ≠ .nil ↔ ∃ member ∈ members, key = .string member.1)
      (each : ∀ member ∈ members, Built h ((h.table a).get (.string member.1)) member.2) :
      Built h (.table a) (.object members)

theorem Built.extends {h later : Heap} {v : Value} {t : Tree} (grown : h.Extends later) (built : Built h v t) :
    Built later v t := by
  induction built with
  | null =>
    rw [← grown.null]
    exact .null
  | boolean b => exact .boolean b
  | integer i => exact .integer i
  | float f => exact .float f
  | string s => exact .string s
  | array a items inside proper dense marked each ih =>
    have same := grown.table a inside
    refine .array a items (Nat.lt_of_lt_of_le inside grown.size) (by rwa [grown.null]) (by rwa [same]) (by rwa [same]) ?_
    intro index item found
    rw [same]
    exact ih index item found
  | object a members inside proper plain sorted fields each ih =>
    have same := grown.table a inside
    refine .object a members (Nat.lt_of_lt_of_le inside grown.size) (by rwa [grown.null]) (by rwa [same]) sorted
      (by rwa [same]) ?_
    intro member listed
    rw [same]
    exact ih member listed

theorem Built.present {h : Heap} {v : Value} {t : Tree} (built : Built h v t) : v ≠ .nil := by
  cases built <;> simp

theorem Built.reads {h : Heap} {v : Value} {t : Tree} (built : Built h v t) : Reads h v t := by
  induction built with
  | null => exact .null
  | boolean b => exact .boolean b
  | integer i => exact .integer i
  | float f => exact .float f
  | string s => exact .string s
  | array a items _ proper dense marked _ ih => exact .array a items proper dense (.inl marked) ih
  | object a members _ proper plain sorted fields _ ih => exact .object a members proper plain sorted fields ih

section Listed
variable {values : List Value} (small : values.length < 2^63) (present : ∀ v ∈ values, v ≠ .nil)
include small

theorem listed_keys : ((values.zipIdx.map (fun item => (arrayKey item.2,item.1))).map Prod.fst).Nodup := by
  have same : (values.zipIdx.map (fun item => (arrayKey item.2,item.1))).map Prod.fst =
      (List.range values.length).map arrayKey := by
    have indices : values.zipIdx.map Prod.snd = List.range values.length := by
      rw [List.zipIdx_map_snd,List.range_eq_range']
    rw [← indices,List.map_map,List.map_map]
    rfl
  rw [same]
  refine List.Nodup.map_on ?_ List.nodup_range
  intro left leftBound right rightBound equal
  rw [List.mem_range] at leftBound rightBound
  exact arrayKey_injective (by omega) (by omega) equal

include present

theorem listed_entries : (listed values).entries = values.zipIdx.map (fun item => (arrayKey item.2,item.1)) := by
  refine Table.fold_set_entries (t := .empty true) (by simpa [Table.empty] using listed_keys small) ?_ ?_
  · intro field member
    obtain ⟨item,_,rfl⟩ := List.mem_map.mp member
    rfl
  · intro field member
    obtain ⟨item,known,rfl⟩ := List.mem_map.mp member
    exact present item.1 (List.fst_mem_of_mem_zipIdx known)

theorem listed_get {index : Nat} {v : Value} (found : values[index]? = some v) :
    (listed values).get (arrayKey index) = v := by
  apply Table.get_of_mem
  rw [listed_entries small present,List.mem_map]
  exact ⟨(v,index),List.mem_zipIdx_iff_getElem?.mpr found,rfl⟩

theorem listed_dense : Dense (listed values) values.length := by
  refine ⟨small,?_⟩
  intro key
  constructor
  · intro held
    have member := Table.mem_of_get held
    rw [listed_entries small present] at member
    obtain ⟨item,known,same⟩ := List.mem_map.mp member
    obtain ⟨bound,_⟩ := List.getElem?_eq_some_iff.mp (List.mem_zipIdx_iff_getElem?.mp known)
    exact ⟨item.2,bound,(congrArg Prod.fst same).symm⟩
  · intro found
    obtain ⟨index,bound,rfl⟩ := found
    rw [listed_get small present (List.getElem?_eq_getElem bound)]
    exact present _ (List.getElem_mem bound)

end Listed

theorem array_built {h : Heap} {values : List Value} {items : List Tree} (null : h.null < h.size)
    (small : items.length < 2^63) (each : List.Forall₂ (Built h) values items) :
    Built (h.alloc (listed values)) (.table h.size) (.array items) := by
  have lengths := each.length_eq
  have present : ∀ v ∈ values, v ≠ .nil := by
    intro v member
    obtain ⟨_,_,built⟩ := Raise.forall₂_left each member
    exact built.present
  have proper : h.size ≠ (h.alloc (listed values)).null := Nat.ne_of_gt null
  refine .array h.size items (Nat.lt_succ_self _) proper ?_ ?_ ?_
  · rw [h.alloc_new,← lengths]
    exact listed_dense (by omega) present
  · rw [h.alloc_new]
    exact Table.build_marked _ _
  · intro index item found
    obtain ⟨bound,same⟩ := List.getElem?_eq_some_iff.mp found
    have built := (List.forall₂_iff_get.mp each).2 index (by omega) bound
    simp only [List.get_eq_getElem,same] at built
    rw [h.alloc_new,listed_get (by omega) present (List.getElem?_eq_getElem (by omega))]
    exact built.extends (h.alloc_extends _)

theorem object_built {h : Heap} {values : List (Bytes × Value)} {members : List (Bytes × Tree)} (null : h.null < h.size)
    (sorted : members.Pairwise (fun left right => ordinal left.1 < ordinal right.1))
    (each : List.Forall₂ (fun value member => value.1 = member.1 ∧ Built h value.2 member.2) values members) :
    Built (h.alloc (.record values)) (.table h.size) (.object members) := by
  have names : values.map Prod.fst = members.map Prod.fst :=
    (map_eq_of_forall₂ (each.imp (fun _ _ both => both.1.symm))).symm
  have present : ∀ field ∈ values, field.2 ≠ .nil := by
    intro field member
    obtain ⟨_,_,built⟩ := Raise.forall₂_left each member
    exact built.2.present
  have distinct : (values.map Prod.fst).Nodup := by
    rw [names]
    have keys : (members.map Prod.fst).Pairwise (fun left right => ordinal left < ordinal right) :=
      List.pairwise_map.mpr sorted
    refine keys.imp ?_
    intro left right less same
    exact lt_irrefl _ (same ▸ less)
  have proper : h.size ≠ (h.alloc (.record values)).null := Nat.ne_of_gt null
  refine .object h.size members (Nat.lt_succ_self _) proper ?_ sorted ?_ ?_
  · rw [h.alloc_new]
    exact Table.build_marked _ _
  · intro key
    rw [h.alloc_new,Table.get_ne_nil_iff,Table.record_entries distinct present,List.map_map]
    constructor
    · intro found
      obtain ⟨field,known,rfl⟩ := List.mem_map.mp found
      obtain ⟨member,listed,same,_⟩ := Raise.forall₂_left each known
      exact ⟨member,listed,congrArg Value.string same⟩
    · intro found
      obtain ⟨member,listed,rfl⟩ := found
      obtain ⟨field,known,same,_⟩ := Raise.forall₂_right each listed
      exact List.mem_map.mpr ⟨field,known,congrArg Value.string same⟩
  · intro member listed
    obtain ⟨field,known,same,built⟩ := Raise.forall₂_right each listed
    rw [h.alloc_new,← same,Table.record_get distinct present known]
    exact built.extends (h.alloc_extends _)

mutual
theorem lay_built : ∀ (t : Tree) (h : Heap) (room : Nat), h.null < h.size → Fit room t →
    h.Extends (lay t h).2 ∧ Built (lay t h).2 (lay t h).1 t
  | .null,h,_,_,_ => ⟨.refl h,.null⟩
  | .boolean b,h,_,_,_ => ⟨.refl h,.boolean b⟩
  | .integer i,h,_,_,_ => ⟨.refl h,.integer i⟩
  | .float f,h,_,_,_ => ⟨.refl h,.float f⟩
  | .string s,h,_,_,_ => ⟨.refl h,.string s⟩
  | .array items,h,_,null,.array room _ small fit => by
    obtain ⟨extended,each⟩ := layItems_built items h room null fit
    have later : (layItems items h).2.null < (layItems items h).2.size := by
      rw [extended.null]
      exact Nat.lt_of_lt_of_le null extended.size
    exact ⟨extended.trans (Heap.alloc_extends _ _),array_built later small each⟩
  | .object members,h,_,null,.object room _ sorted _ fit => by
    obtain ⟨extended,each⟩ := layMembers_built members h room null fit
    have later : (layMembers members h).2.null < (layMembers members h).2.size := by
      rw [extended.null]
      exact Nat.lt_of_lt_of_le null extended.size
    exact ⟨extended.trans (Heap.alloc_extends _ _),object_built later sorted each⟩
theorem layItems_built : ∀ (items : List Tree) (h : Heap) (room : Nat), h.null < h.size →
    (∀ item ∈ items, Fit room item) →
    h.Extends (layItems items h).2 ∧ List.Forall₂ (Built (layItems items h).2) (layItems items h).1 items
  | [],h,_,_,_ => ⟨.refl h,.nil⟩
  | item :: rest,h,room,null,fit => by
    obtain ⟨first,built⟩ := lay_built item h room null (fit item (by simp))
    have middle : (lay item h).2.null < (lay item h).2.size := by
      rw [first.null]
      exact Nat.lt_of_lt_of_le null first.size
    obtain ⟨second,each⟩ := layItems_built rest (lay item h).2 room middle (fun item member => fit item (by simp [member]))
    exact ⟨first.trans second,.cons (built.extends second) each⟩
theorem layMembers_built : ∀ (members : List (Bytes × Tree)) (h : Heap) (room : Nat), h.null < h.size →
    (∀ member ∈ members, Fit room member.2) →
    h.Extends (layMembers members h).2 ∧ List.Forall₂ (fun value member => value.1 = member.1 ∧
      Built (layMembers members h).2 value.2 member.2) (layMembers members h).1 members
  | [],h,_,_,_ => ⟨.refl h,.nil⟩
  | (name,value) :: rest,h,room,null,fit => by
    obtain ⟨first,built⟩ := lay_built value h room null (fit (name,value) (by simp))
    have middle : (lay value h).2.null < (lay value h).2.size := by
      rw [first.null]
      exact Nat.lt_of_lt_of_le null first.size
    obtain ⟨second,each⟩ := layMembers_built rest (lay value h).2 room middle
      (fun member listed => fit member (by simp [listed]))
    exact ⟨first.trans second,.cons ⟨rfl,built.extends second⟩ each⟩
end

theorem array_entry {t : Table} {items : List Tree} (dense : Dense t items.length) {entry : Value × Value}
    (member : entry ∈ t.entries) :
    ∃ (index : Nat) (item : Tree), items[index]? = some item ∧ t.get (arrayKey index) = entry.2 ∧ entry.1 = arrayKey index := by
  have value := Table.get_of_mem member
  obtain ⟨index,bound,key⟩ := (dense.keys entry.1).mp (by rw [value]; exact t.present entry member)
  exact ⟨index,items[index],List.getElem?_eq_getElem bound,by rw [← key,value],key⟩

theorem object_entry {t : Table} {members : List (Bytes × Tree)}
    (fields : ∀ key, t.get key ≠ .nil ↔ ∃ member ∈ members, key = .string member.1) {entry : Value × Value}
    (listed : entry ∈ t.entries) :
    ∃ member ∈ members, t.get (.string member.1) = entry.2 ∧ entry.1 = .string member.1 := by
  have value := Table.get_of_mem listed
  obtain ⟨member,known,key⟩ := (fields entry.1).mp (by rw [value]; exact t.present entry listed)
  exact ⟨member,known,by rw [← key,value],key⟩

-- What fits is accepted by the encoder, with every value of it above the limit
-- the decoder has.
theorem built_accepted {h : Heap} {room : Nat} {v : Value} {t : Tree} (fit : Fit room t) (built : Built h v t) :
    Acceptable h room v ∧ ∀ w, ¬Nested h room v w := by
  induction fit generalizing v with
  | null room =>
    cases built
    exact ⟨acceptable_flat (.inr rfl) (by simp) (by simp) (by simp),fun w => not_nested_scalar (.inr rfl)⟩
  | boolean room b =>
    cases built
    exact ⟨acceptable_flat (.inl rfl) (by simp) (by simp) (by simp),fun w => not_nested_scalar (.inl rfl)⟩
  | integer room i =>
    cases built
    exact ⟨acceptable_flat (.inl rfl) (by simp) (by simp) (by simp),fun w => not_nested_scalar (.inl rfl)⟩
  | float room f finite =>
    cases built
    exact ⟨acceptable_flat (.inl rfl) (by simpa using finite) (by simp) (by simp),fun w => not_nested_scalar (.inl rfl)⟩
  | string room s valid =>
    cases built
    exact ⟨acceptable_flat (.inl rfl) (by simp) (by simpa using valid) (by simp),fun w => not_nested_scalar (.inl rfl)⟩
  | array room items small fit ih =>
    cases built with
    | array a _ inside proper dense marked each =>
      have children : ∀ entry ∈ (h.table a).entries, Acceptable h room entry.2 ∧ ∀ w, ¬Nested h room entry.2 w := by
        intro entry member
        obtain ⟨index,item,found,value,_⟩ := array_entry dense member
        rw [← value]
        exact ih item (List.mem_of_getElem? found) (each index item found)
      refine ⟨acceptable_table (.array items.length dense (.inl marked)) (fun entry member => (children entry member).1),?_⟩
      intro w nested
      cases nested with
      | inside _ entry deeper => exact (children _ entry).2 w deeper
  | object room members sorted valid fit ih =>
    cases built with
    | object a _ inside proper plain _ fields each =>
      have children : ∀ entry ∈ (h.table a).entries, Acceptable h room entry.2 ∧ ∀ w, ¬Nested h room entry.2 w := by
        intro entry listed
        obtain ⟨member,known,value,_⟩ := object_entry fields listed
        rw [← value]
        exact ih member known (each member known)
      have named : ∀ key, (h.table a).get key ≠ .nil → ∃ name, key = .string name ∧ validUtf8 name = true := by
        intro key present
        obtain ⟨member,known,same⟩ := (fields key).mp present
        exact ⟨member.1,same,valid member known⟩
      refine ⟨acceptable_table (.object plain named) (fun entry member => (children entry member).1),?_⟩
      intro w nested
      cases nested with
      | inside _ entry deeper => exact (children _ entry).2 w deeper

-- A value reads as one tree only.
theorem built_reads_unique {h : Heap} {v : Value} {t u : Tree} (built : Built h v t) (reads : Reads h v u) : t = u := by
  induction built generalizing u with
  | null =>
    cases reads with
    | null => rfl
    | array _ _ proper => exact absurd rfl proper
    | object _ _ proper => exact absurd rfl proper
  | boolean b => cases reads; rfl
  | integer i => cases reads; rfl
  | float f => cases reads; rfl
  | string s => cases reads; rfl
  | array a items inside proper dense marked each ih =>
    cases reads with
    | null => exact absurd rfl proper
    | object _ _ _ plain =>
      rw [marked] at plain
      cases plain
    | array _ others _ otherDense _ otherEach =>
      congr 1
      apply List.ext_getElem (dense_unique dense otherDense)
      intro index bound otherBound
      exact ih index _ (List.getElem?_eq_getElem bound) (otherEach index _ (List.getElem?_eq_getElem otherBound))
  | object a members inside proper plain sorted fields each ih =>
    cases reads with
    | null => exact absurd rfl proper
    | array _ items _ dense classed =>
      have some : 0 < items.length := by
        rcases classed with marked | some
        · rw [plain] at marked
          cases marked
        · exact some
      obtain ⟨member,_,same⟩ := (fields (arrayKey 0)).mp ((dense.keys _).mpr ⟨0,some,rfl⟩)
      cases same
    | object _ others _ _ otherSorted otherFields otherEach =>
      congr 1
      have known : ∀ key, key ∈ members.map Prod.fst ↔ key ∈ others.map Prod.fst := by
        intro key
        have same := (fields (.string key)).symm.trans (otherFields (.string key))
        simpa [eq_comm] using same
      refine members_unique (sorted_keys_unique (List.pairwise_map.mpr sorted) (List.pairwise_map.mpr otherSorted) known) ?_
      intro name d e left right
      exact ih (name,d) left (otherEach (name,e) right)

theorem built_table_null {h g : Heap} {a b : Address} {t : Tree} (left : Built h (.table a) t)
    (right : Built g (.table b) t) : a = h.null ↔ b = g.null := by
  cases left with
  | null => cases right; simp
  | array _ _ _ proper =>
    cases right with
    | array _ _ _ other => simp [proper,other]
  | object _ _ _ proper =>
    cases right with
    | object _ _ _ other => simp [proper,other]

theorem built_entries {h g : Heap} {a b : Address} {t : Tree} (left : Built h (.table a) t)
    (right : Built g (.table b) t) (proper : a ≠ h.null) {entry : Value × Value} (known : entry ∈ (h.table a).entries) :
    ∃ other ∈ (g.table b).entries, other.1 = entry.1 ∧ (∃ u, Built h entry.1 u ∧ Built g entry.1 u) ∧
      ∃ u, Built h entry.2 u ∧ Built g other.2 u := by
  cases left with
  | null => exact absurd rfl proper
  | array _ items _ _ dense _ each =>
    cases right with
    | array _ _ _ _ other _ otherEach =>
      obtain ⟨index,item,found,value,key⟩ := array_entry dense known
      obtain ⟨bound,_⟩ := List.getElem?_eq_some_iff.mp found
      rw [key,← value]
      exact ⟨_,Table.mem_of_get ((other.keys _).mpr ⟨index,bound,rfl⟩),rfl,⟨_,.integer _,.integer _⟩,item,
        each index item found,otherEach index item found⟩
  | object _ members _ _ _ _ fields each =>
    cases right with
    | object _ _ _ _ _ _ other otherEach =>
      obtain ⟨member,listed,value,key⟩ := object_entry fields known
      rw [key,← value]
      exact ⟨_,Table.mem_of_get ((other _).mpr ⟨member,listed,rfl⟩),rfl,⟨_,.string _,.string _⟩,member.2,
        each member listed,otherEach member listed⟩

-- Wherever a tree is laid out, its content is the same.
theorem built_content (h g : Heap) : Content h g (fun v w => ∃ t, Built h v t ∧ Built g w t) := by
  refine ⟨?_,?_,?_,?_,?_⟩
  · intro v w related flat
    obtain ⟨t,left,right⟩ := related
    cases left <;> cases right <;> simp [Value.scalar] at flat ⊢
  · intro a b related
    obtain ⟨t,left,right⟩ := related
    exact built_table_null left right
  · intro a b related proper
    obtain ⟨t,left,right⟩ := related
    cases left with
    | null => exact absurd rfl proper
    | array _ _ _ _ _ marked =>
      cases right with
      | array _ _ _ _ _ other => rw [marked,other]
    | object _ _ _ _ plain =>
      cases right with
      | object _ _ _ _ other => rw [plain,other]
  · intro a b related proper entry known
    obtain ⟨t,left,right⟩ := related
    obtain ⟨other,listed,same,⟨u,one,two⟩,value⟩ := built_entries left right proper known
    exact ⟨other,listed,⟨u,one,by rwa [same]⟩,value⟩
  · intro a b related proper other known
    obtain ⟨t,left,right⟩ := related
    have distinct : b ≠ g.null := fun null => proper ((built_table_null left right).mpr null)
    obtain ⟨entry,listed,same,⟨u,one,two⟩,v,first,second⟩ := built_entries right left distinct known
    exact ⟨entry,listed,⟨u,by rwa [same],one⟩,v,second,first⟩

theorem ldecode_ok {y : Yyjson} {source : Bytes} {h : Heap} {v : Value} {g : Heap}
    (decoded : ldecode y source h = .ok (v,g)) : ∃ t, decode y source = .ok t ∧ lay t h = (v,g) := by
  obtain ⟨t,read,laid⟩ := Raise.bind_ok.mp decoded
  injection laid with laid
  exact ⟨t,read,laid⟩

theorem decode_ok {y : Yyjson} {source : Bytes} {t : Tree} (decoded : decode y source = .ok t) :
    ∃ d, y.read source = .ok d ∧ decodeValue maxDepth d = .ok t := by
  unfold decode at decoded
  cases read : y.read source with
  | error failure =>
    rw [read] at decoded
    cases decoded
  | ok d =>
    rw [read] at decoded
    exact ⟨d,rfl,decoded⟩

theorem decode_fit {y : Yyjson} {source : Bytes} (reader : Reader y source) (short : source.length < 2^63) {t : Tree}
    (decoded : decode y source = .ok t) : Fit maxDepth t := by
  obtain ⟨d,read,settled⟩ := decode_ok decoded
  refine decodeValue_fit maxDepth settled (reader.writable d read) ?_
  intro items inside
  have bound := reader.items d items read inside
  omega

-- Encoding what was decoded gives one text for the tree, which decodes to it.
theorem encode_of_fit (y : Yyjson) {t : Tree} (fit : Fit maxDepth t) :
    ∃ s d, decode y s = .ok t ∧ y.write d = .ok s ∧ Ordered d ∧ ∀ h v, Built h v t → encode y h v = .ok s := by
  let h : Heap := ⟨1,fun _ => .empty false,0⟩
  obtain ⟨_,built⟩ := lay_built t h maxDepth (by decide) fit
  obtain ⟨accepted,shallow⟩ := built_accepted fit built
  obtain ⟨s,encoded⟩ := (encode_accepts y _ _).mpr accepted
  obtain ⟨u,decoded,reads⟩ := (decode_encode_iff encoded).mpr (fun ⟨w,deep⟩ => shallow w deep)
  obtain ⟨d,root,written⟩ := encode_ok encoded
  cases built_reads_unique built reads
  refine ⟨s,d,decoded,written,image_ordered (encodeValue_image maxDepth root),?_⟩
  intro g v other
  rcases encode_canonical y ⟨_,built_content _ g,t,built,other⟩ with ⟨⟨message,raised⟩,_⟩ | ⟨s',d,left,right,_⟩
  · rw [encoded] at raised
    cases raised
  · cases encoded.symm.trans left
    exact right

theorem recode_canonical (y : Yyjson) {source : Bytes} (reader : Reader y source) (short : source.length < 2^63) {h g : Heap}
    (null : h.null < h.size) {v : Value} (decoded : ldecode y source h = .ok (v,g)) :
    ∃ s, encode y g v = .ok s ∧ decode y s = decode y source ∧
      (∀ k, k.null < k.size → ∃ w later, ldecode y s k = .ok (w,later) ∧ encode y later w = .ok s) ∧
        ∃ d t e, y.read source = .ok d ∧ decode y source = .ok t ∧ Settles d t ∧ y.write e = .ok s ∧ Ordered e := by
  obtain ⟨t,read,laid⟩ := ldecode_ok decoded
  have fit := decode_fit reader short read
  obtain ⟨s,e,again,written,ordered,encodes⟩ := encode_of_fit y fit
  obtain ⟨d,document,settled⟩ := decode_ok read
  have built := (lay_built t h maxDepth null fit).2
  rw [laid] at built
  refine ⟨s,encodes g v built,again.trans read.symm,?_,d,t,e,document,read,decodeValue_settles maxDepth settled,
    written,ordered⟩
  intro k present
  refine ⟨(lay t k).1,(lay t k).2,?_,encodes _ _ (lay_built t k maxDepth present fit).2⟩
  simp only [ldecode,again,bind,Except.bind]
  rfl

def duplicates : Doc := .object [(text "b",.array []),(text "a",.object []),(text "b",.array [.uint 1])]
def duplicatesText : Bytes := text "\x7b\"b\":[],\"a\":\x7b\x7d,\"b\":[1]\x7d"

theorem duplicates_read : JsonText.reference.read duplicatesText = .ok duplicates := by
  have written : JsonText.reference.write duplicates = .ok duplicatesText := by rfl
  exact write_ok written

theorem duplicates_reader : Reader JsonText.reference duplicatesText := by
  constructor
  · intro d found
    cases duplicates_read.symm.trans found
    decide
  · intro d items found inside
    cases duplicates_read.symm.trans found
    cases inside with
    | member listed deeper =>
      simp only [List.mem_cons,List.not_mem_nil,or_false] at listed
      rcases listed with rfl | rfl | rfl
      · cases deeper with
        | here => decide
        | item known _ => cases known
      · cases deeper with
        | member known _ => cases known
      · cases deeper with
        | here => decide
        | item known inner =>
          simp only [List.mem_singleton] at known
          subst known
          cases inner

theorem duplicates_recoded : ∃ v g s,
    ldecode JsonText.reference duplicatesText ⟨1,fun _ => .empty false,0⟩ = .ok (v,g) ∧
      encode JsonText.reference g v = .ok s ∧ decode JsonText.reference s = decode JsonText.reference duplicatesText := by
  obtain ⟨t,settled⟩ : ∃ t, decodeValue maxDepth duplicates = .ok t := ⟨_,rfl⟩
  have decoded : ldecode JsonText.reference duplicatesText ⟨1,fun _ => .empty false,0⟩ =
      .ok (lay t ⟨1,fun _ => .empty false,0⟩) := by
    simp only [ldecode,decode,duplicates_read,settled,bind,Except.bind]
    rfl
  obtain ⟨s,encoded,again,_⟩ := recode_canonical JsonText.reference duplicates_reader (by decide) (by decide) decoded
  exact ⟨_,_,s,decoded,encoded,again⟩

end Hypringo.JsonRecode

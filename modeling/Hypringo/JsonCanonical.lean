import Hypringo.JsonAcceptance

namespace Hypringo.JsonCanonical
open Hypringo.Lua Json JsonRoundtrip JsonAcceptance

-- The same content: what is related has the same scalars, marks, keys and
-- values all the way down, in whatever order the entries are enumerated and
-- however much of it is shared. Cycles are allowed.
structure Content (h g : Heap) (R : Value → Value → Prop) : Prop where
  flat : ∀ v w, R v w → v.scalar = true ∨ w.scalar = true → v = w
  null : ∀ a b, R (.table a) (.table b) → (a = h.null ↔ b = g.null)
  marks : ∀ a b, R (.table a) (.table b) → a ≠ h.null → (h.table a).marked = (g.table b).marked
  forth : ∀ a b, R (.table a) (.table b) → a ≠ h.null → ∀ entry ∈ (h.table a).entries,
    ∃ other ∈ (g.table b).entries, R entry.1 other.1 ∧ R entry.2 other.2
  back : ∀ a b, R (.table a) (.table b) → a ≠ h.null → ∀ other ∈ (g.table b).entries,
    ∃ entry ∈ (h.table a).entries, R entry.1 other.1 ∧ R entry.2 other.2

def SameContent (h g : Heap) (v w : Value) : Prop := ∃ R, Content h g R ∧ R v w

section Related
variable {h g : Heap} {R : Value → Value → Prop}

theorem Content.symm (content : Content h g R) : Content g h (fun w v => R v w) where
  flat := fun w v related scalar => (content.flat v w related scalar.symm).symm
  null := fun b a related => (content.null a b related).symm
  marks := fun b a related proper =>
    (content.marks a b related (fun null => proper ((content.null a b related).mp null))).symm
  forth := fun b a related proper => content.back a b related (fun null => proper ((content.null a b related).mp null))
  back := fun b a related proper => content.forth a b related (fun null => proper ((content.null a b related).mp null))

theorem Content.table (content : Content h g R) {a : Address} {w : Value} (related : R (.table a) w) :
    ∃ b, w = .table b := by
  cases w with
  | table b => exact ⟨b,rfl⟩
  | _ => cases content.flat _ _ related (.inr rfl)

theorem Content.nested (content : Content h g R) {levels : Nat} {v w x : Value} (related : R v w)
    (path : Nested h levels v x) : ∃ y, Nested g levels w y ∧ R x y := by
  induction path generalizing w with
  | here v => exact ⟨w,.here w,related⟩
  | inside proper entry _ ih =>
    obtain ⟨b,rfl⟩ := content.table related
    obtain ⟨other,listed,_,value⟩ := content.forth _ b related proper _ entry
    obtain ⟨y,deeper,found⟩ := ih value
    exact ⟨y,.inside (fun null => proper ((content.null _ b related).mpr null)) listed deeper,found⟩

theorem Content.get (content : Content h g R) {a b : Address} (related : R (.table a) (.table b)) (proper : a ≠ h.null)
    {key : Value} (scalar : key.scalar = true) (present : (h.table a).get key ≠ .nil) :
    (g.table b).get key ≠ .nil ∧ R ((h.table a).get key) ((g.table b).get key) := by
  obtain ⟨other,listed,same,value⟩ := content.forth a b related proper _ (Table.mem_of_get present)
  have key_same : key = other.1 := content.flat _ _ same (.inl scalar)
  have found : (g.table b).get key = other.2 := by
    rw [key_same]
    exact Table.get_of_mem listed
  rw [found]
  exact ⟨(g.table b).present other listed,value⟩

theorem Content.dense (content : Content h g R) {a b : Address} (related : R (.table a) (.table b)) (proper : a ≠ h.null)
    {length : Nat} (dense : Dense (h.table a) length) : Dense (g.table b) length := by
  refine ⟨dense.bound,?_⟩
  intro key
  constructor
  · intro present
    obtain ⟨entry,listed,same,_⟩ := content.back a b related proper _ (Table.mem_of_get present)
    obtain ⟨index,inside,known⟩ := (dense.keys entry.1).mp
      (by rw [Table.get_of_mem listed]; exact (h.table a).present entry listed)
    have key_same : entry.1 = key := content.flat _ _ same (.inl (by rw [known]; rfl))
    exact ⟨index,inside,key_same.symm.trans known⟩
  · intro found
    obtain ⟨index,inside,rfl⟩ := found
    exact (content.get related proper rfl ((dense.keys _).mpr ⟨index,inside,rfl⟩)).1

theorem Content.shaped (content : Content h g R) {a b : Address} (related : R (.table a) (.table b)) (proper : a ≠ h.null)
    (shaped : Shaped (h.table a)) : Shaped (g.table b) := by
  have marks := content.marks a b related proper
  cases shaped with
  | array length dense classed => exact .array length (content.dense related proper dense) (marks ▸ classed)
  | object plain named =>
    refine .object (marks ▸ plain) ?_
    intro key present
    obtain ⟨entry,listed,same,_⟩ := content.back a b related proper _ (Table.mem_of_get present)
    obtain ⟨name,known,valid⟩ := named entry.1
      (by rw [Table.get_of_mem listed]; exact (h.table a).present entry listed)
    have key_same : entry.1 = key := content.flat _ _ same (.inl (by rw [known]; rfl))
    exact ⟨name,key_same.symm.trans known,valid⟩

theorem Content.acceptable (content : Content h g R) {room : Nat} {v w : Value} (related : R v w)
    (accepted : Acceptable h room v) : Acceptable g room w := by
  have tables : ∀ levels b, Nested g levels w (.table b) → b ≠ g.null →
      ∃ a, Nested h levels v (.table a) ∧ R (.table a) (.table b) ∧ a ≠ h.null := by
    intro levels b path proper
    obtain ⟨x,found,same⟩ := content.symm.nested related path
    obtain ⟨a,rfl⟩ := content.symm.table same
    exact ⟨a,found,same,fun null => proper ((content.null a b same).mp null)⟩
  have scalars : ∀ levels y, Nested g levels w y → y.scalar = true → Nested h levels v y := by
    intro levels y path scalar
    obtain ⟨x,found,same⟩ := content.symm.nested related path
    rwa [content.flat x y same (.inr scalar)] at found
  have shallow : ∀ levels b, Nested g levels w (.table b) → b ≠ g.null → levels < room := by
    intro levels b path proper
    obtain ⟨a,found,_,other⟩ := tables levels b path proper
    exact accepted.shallow levels a found other
  refine ⟨fun _ b further path => acyclic_of_shallow shallow path,shallow,?_,?_,?_,?_⟩
  · intro levels b path proper
    obtain ⟨a,found,same,other⟩ := tables levels b path proper
    exact content.shaped same other (accepted.shaped levels a found other)
  · intro levels f path
    exact accepted.finite levels f (scalars levels _ path rfl)
  · intro levels s path
    exact accepted.valid levels s (scalars levels _ path rfl)
  · intro levels kind identity path
    exact accepted.kinds levels kind identity (scalars levels _ path rfl)

theorem dense_unique {t : Table} {first second : Nat} (left : Dense t first) (right : Dense t second) : first = second := by
  have le : ∀ {m n : Nat}, Dense t m → Dense t n → m ≤ n := by
    intro m n one two
    by_contra beyond
    have present := (one.keys (arrayKey n)).mpr ⟨n,by omega,rfl⟩
    obtain ⟨index,inside,same⟩ := (two.keys _).mp present
    have bound := one.bound
    have equal := arrayKey_injective (by omega) (by omega) same
    omega
  exact Nat.le_antisymm (le left right) (le right left)

-- Keys in increasing order are determined by which keys there are.
theorem sorted_keys_unique {left right : List Bytes} (first : left.Pairwise (fun a b => ordinal a < ordinal b))
    (second : right.Pairwise (fun a b => ordinal a < ordinal b)) (same : ∀ key, key ∈ left ↔ key ∈ right) :
    left = right := by
  have distinct : ∀ {keys : List Bytes}, keys.Pairwise (fun a b => ordinal a < ordinal b) → keys.Nodup := by
    intro keys sorted
    exact sorted.imp (fun less equal => absurd (equal ▸ less) (lt_irrefl _))
  refine List.Perm.eq_of_pairwise ?_ first second ((List.perm_ext_iff_of_nodup (distinct first) (distinct second)).mpr same)
  intro a b _ _ less greater
  exact absurd (less.trans greater) (lt_irrefl _)

theorem members_unique {left right : List (Bytes × α)} (names : left.map Prod.fst = right.map Prod.fst)
    (values : ∀ name d e, (name,d) ∈ left → (name,e) ∈ right → d = e) : left = right := by
  induction left generalizing right with
  | nil =>
    cases right with
    | nil => rfl
    | cons other rest => simp at names
  | cons member left ih =>
    cases right with
    | nil => simp at names
    | cons other right =>
      obtain ⟨name,d⟩ := member
      obtain ⟨name',e⟩ := other
      simp only [List.map_cons,List.cons.injEq] at names
      obtain ⟨rfl,rest⟩ := names
      rw [values name d e (by simp) (by simp),
        ih rest (fun name d e left right => values name d e (by simp [left]) (by simp [right]))]

theorem Content.image (content : Content h g R) {v w : Value} {d e : Doc} (related : R v w) (left : Image h v d)
    (right : Image g w e) : d = e := by
  induction left generalizing w e with
  | nothing =>
    cases content.flat _ _ related (.inl rfl)
    cases right
    rfl
  | boolean b =>
    cases content.flat _ _ related (.inl rfl)
    cases right
    rfl
  | integer i =>
    cases content.flat _ _ related (.inl rfl)
    cases right
    rfl
  | float f =>
    cases content.flat _ _ related (.inl rfl)
    cases right
    rfl
  | string s =>
    cases content.flat _ _ related (.inl rfl)
    cases right
    rfl
  | null =>
    obtain ⟨b,rfl⟩ := content.table related
    cases right with
    | null => rfl
    | array _ _ proper => exact absurd ((content.null _ b related).mp rfl) proper
    | object _ _ proper => exact absurd ((content.null _ b related).mp rfl) proper
  | array a items proper dense classed each nulls ih =>
    obtain ⟨b,rfl⟩ := content.table related
    have filled := content.dense related proper dense
    have marks := content.marks a b related proper
    cases right with
    | null => exact absurd ((content.null a _ related).mpr rfl) proper
    | array _ others _ otherDense _ otherEach =>
      have count : items.length = others.length := dense_unique filled otherDense
      congr 1
      apply List.ext_getElem count
      intro index bound otherBound
      have present := (dense.keys (arrayKey index)).mpr ⟨index,bound,rfl⟩
      exact ih index _ (List.getElem?_eq_getElem bound) (content.get related proper rfl present).2
        (otherEach index _ (List.getElem?_eq_getElem otherBound))
    | object _ members _ plain _ fields _ =>
      have some : 0 < items.length := by
        rcases classed with marked | some
        · rw [marks,plain] at marked
          cases marked
        · exact some
      obtain ⟨member,_,same⟩ := (fields (arrayKey 0)).mp ((filled.keys _).mpr ⟨0,some,rfl⟩)
      cases same
  | object a members proper plain sorted fields each ih =>
    obtain ⟨b,rfl⟩ := content.table related
    have marks := content.marks a b related proper
    have keys : ∀ key, (g.table b).get key ≠ .nil ↔ ∃ member ∈ members, key = .string member.1 := by
      intro key
      constructor
      · intro present
        obtain ⟨entry,listed,same,_⟩ := content.back a b related proper _ (Table.mem_of_get present)
        obtain ⟨member,inside,known⟩ := (fields entry.1).mp
          (by rw [Table.get_of_mem listed]; exact (h.table a).present entry listed)
        have key_same : entry.1 = key := content.flat _ _ same (.inl (by rw [known]; rfl))
        exact ⟨member,inside,key_same.symm.trans known⟩
      · intro found
        obtain ⟨member,inside,rfl⟩ := found
        exact (content.get related proper rfl ((fields _).mpr ⟨member,inside,rfl⟩)).1
    cases right with
    | null => exact absurd ((content.null a _ related).mpr rfl) proper
    | array _ items _ dense classed =>
      have some : 0 < items.length := by
        rcases classed with marked | some
        · rw [← marks,plain] at marked
          cases marked
        · exact some
      obtain ⟨member,_,same⟩ := (keys (arrayKey 0)).mp ((dense.keys _).mpr ⟨0,some,rfl⟩)
      cases same
    | object _ others _ _ otherSorted otherFields otherEach =>
      congr 1
      have listed : ∀ key, key ∈ members.map Prod.fst ↔ key ∈ others.map Prod.fst := by
        intro key
        have same := (keys (.string key)).symm.trans (otherFields (.string key))
        simpa [eq_comm] using same
      refine members_unique (sorted_keys_unique (List.pairwise_map.mpr sorted) (List.pairwise_map.mpr otherSorted) listed) ?_
      intro name d e left right
      exact ih (name,d) left (content.get related proper rfl ((fields _).mpr ⟨_,left,rfl⟩)).2 (otherEach (name,e) right)

end Related

-- Everything a document holds, itself included.
inductive Inside : Doc → Doc → Prop
  | here (d : Doc) : Inside d d
  | item {part item : Doc} {items : List Doc} (listed : item ∈ items) (deeper : Inside part item) : Inside part (.array items)
  | member {part : Doc} {member : Bytes × Doc} {members : List (Bytes × Doc)} (listed : member ∈ members)
      (deeper : Inside part member.2) : Inside part (.object members)

def Ordered (d : Doc) : Prop :=
  ∀ members, Inside (.object members) d → members.Pairwise (fun left right => ordinal left.1 < ordinal right.1)

theorem image_ordered {h : Heap} {v : Value} {d : Doc} (image : Image h v d) : Ordered d := by
  induction image with
  | array a items proper dense classed each nulls ih =>
    intro members inside
    cases inside with
    | item listed deeper =>
      obtain ⟨index,found⟩ := List.mem_iff_getElem?.mp listed
      exact ih index _ found members deeper
  | object a members proper plain sorted fields each ih =>
    intro others inside
    cases inside with
    | here => exact sorted
    | member listed deeper => exact ih _ listed others deeper
  | _ =>
    intro members inside
    cases inside

theorem encode_error {y : Yyjson} {h : Heap} {v : Value} (refused : ¬Acceptable h maxDepth v) :
    ∃ message, encode y h v = .error message := by
  cases outcome : encode y h v with
  | error message => exact ⟨message,rfl⟩
  | ok s => exact absurd ((encode_accepts y h v).mp ⟨s,outcome⟩) refused

theorem encode_canonical (y : Yyjson) {h g : Heap} {v w : Value} (same : SameContent h g v w) :
    ((∃ message, encode y h v = .error message) ∧ ∃ message, encode y g w = .error message) ∨
      ∃ s d, encode y h v = .ok s ∧ encode y g w = .ok s ∧ y.write d = .ok s ∧ Ordered d := by
  obtain ⟨R,content,related⟩ := same
  by_cases accepted : Acceptable h maxDepth v
  · obtain ⟨s,left⟩ := (encode_accepts y h v).mpr accepted
    obtain ⟨s',right⟩ := (encode_accepts y g w).mpr (content.acceptable related accepted)
    obtain ⟨d,root,written⟩ := encode_ok left
    obtain ⟨e,otherRoot,otherWritten⟩ := encode_ok right
    have image := encodeValue_image maxDepth root
    cases content.image related image (encodeValue_image maxDepth otherRoot)
    cases written.symm.trans otherWritten
    exact .inr ⟨s,d,left,right,written,image_ordered image⟩
  · refine .inl ⟨encode_error accepted,encode_error ?_⟩
    intro other
    exact accepted (content.symm.acceptable related other)

-- Two tables of one content, filled in opposite orders.
def reordered : Heap where
  size := 3
  table := fun (a : Nat) =>
    if a = 0 then .record [(text "b",.integer 2),(text "a",.integer 1)]
    else if a = 1 then .record [(text "a",.integer 1),(text "b",.integer 2)] else .empty false
  null := 2

def paired (v w : Value) : Prop := (v = w ∧ v.scalar = true) ∨ (v = .table 0 ∧ w = .table 1)

theorem paired_tables {a b : Address} (related : paired (.table a) (.table b)) : a = 0 ∧ b = 1 := by
  rcases related with ⟨_,scalar⟩ | ⟨left,right⟩
  · simp [Value.scalar] at scalar
  · cases left
    cases right
    exact ⟨rfl,rfl⟩

theorem reordered_same : SameContent reordered reordered (.table 0) (.table 1) := by
  have first : (reordered.table 0).entries = [(.string (text "b"),.integer 2),(.string (text "a"),.integer 1)] := by decide
  have second : (reordered.table 1).entries = [(.string (text "a"),.integer 1),(.string (text "b"),.integer 2)] := by decide
  refine ⟨paired,⟨?_,?_,?_,?_,?_⟩,.inr ⟨rfl,rfl⟩⟩
  · intro v w related flat
    rcases related with ⟨same,_⟩ | ⟨rfl,rfl⟩
    · exact same
    · simp [Value.scalar] at flat
  · intro a b related
    obtain ⟨rfl,rfl⟩ := paired_tables related
    decide
  · intro a b related _
    obtain ⟨rfl,rfl⟩ := paired_tables related
    rfl
  · intro a b related _ entry listed
    obtain ⟨rfl,rfl⟩ := paired_tables related
    rw [first] at listed
    rw [second]
    exact ⟨entry,by simpa [or_comm] using listed,by rcases List.mem_pair.mp listed with rfl | rfl <;> simp [paired,Value.scalar]⟩
  · intro a b related _ entry listed
    obtain ⟨rfl,rfl⟩ := paired_tables related
    rw [second] at listed
    rw [first]
    exact ⟨entry,by simpa [or_comm] using listed,by rcases List.mem_pair.mp listed with rfl | rfl <;> simp [paired,Value.scalar]⟩

theorem reordered_canonical : ∃ s d, encode JsonText.reference reordered (.table 0) = .ok s ∧
    encode JsonText.reference reordered (.table 1) = .ok s ∧ JsonText.reference.write d = .ok s ∧ Ordered d := by
  rcases encode_canonical JsonText.reference reordered_same with ⟨⟨message,raised⟩,_⟩ | found
  · have encoded : encode JsonText.reference reordered (.table 0) = .ok (text "\x7b\"a\":1,\"b\":2\x7d") := by rfl
    rw [encoded] at raised
    cases raised
  · exact found

end Hypringo.JsonCanonical

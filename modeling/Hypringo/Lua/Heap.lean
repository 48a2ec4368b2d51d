import Hypringo.Lua.Value

namespace Hypringo.Lua

-- Allocated tables are those below `size`. `null` is one distinguished table
-- whose identity alone carries meaning.
structure Heap where
  size : Nat
  table : Address → Table
  null : Address

namespace Heap

def alloc (h : Heap) (t : Table) : Heap where
  size := h.size + 1
  table := fun a => if a = h.size then t else h.table a
  null := h.null

@[simp] theorem alloc_size (h : Heap) (t : Table) : (h.alloc t).size = h.size + 1 := rfl
@[simp] theorem alloc_null (h : Heap) (t : Table) : (h.alloc t).null = h.null := rfl
@[simp] theorem alloc_new (h : Heap) (t : Table) : (h.alloc t).table h.size = t := by simp [alloc]

theorem alloc_old (h : Heap) (t : Table) {a : Address} (old : a < h.size) :
    (h.alloc t).table a = h.table a := by
  have different : a ≠ h.size := Nat.ne_of_lt old
  simp [alloc,different]

end Heap

def Value.Within (v : Value) (size : Nat) : Prop :=
  match v with
  | .table a => a < size
  | _ => True

theorem Value.Within.mono {v : Value} {m n : Nat} (inside : v.Within m) (le : m ≤ n) : v.Within n := by
  cases v with
  | table a => exact Nat.lt_of_lt_of_le inside le
  | _ => trivial

-- No allocated table refers outside the allocated part, and nothing was ever
-- stored in the null table.
structure Heap.Closed (h : Heap) : Prop where
  null : h.null < h.size
  vacant : (h.table h.null).entries = []
  entries : ∀ a < h.size, ∀ entry ∈ (h.table a).entries, entry.1.Within h.size ∧ entry.2.Within h.size

-- Growth: tables that were allocated are never written again.
structure Heap.Extends (h later : Heap) : Prop where
  size : h.size ≤ later.size
  table : ∀ a < h.size, later.table a = h.table a
  null : later.null = h.null

theorem Heap.Extends.refl (h : Heap) : h.Extends h := ⟨Nat.le_refl _,fun _ _ => rfl,rfl⟩

theorem Heap.Extends.trans {h middle later : Heap} (left : h.Extends middle) (right : middle.Extends later) :
    h.Extends later := by
  refine ⟨Nat.le_trans left.size right.size,?_,right.null.trans left.null⟩
  intro a old
  exact (right.table a (Nat.lt_of_lt_of_le old left.size)).trans (left.table a old)

theorem Heap.alloc_extends (h : Heap) (t : Table) : h.Extends (h.alloc t) :=
  ⟨Nat.le_succ _,fun _ old => h.alloc_old t old,rfl⟩

theorem Heap.alloc_closed {h : Heap} {t : Table} (closed : h.Closed)
    (inside : ∀ entry ∈ t.entries, entry.1.Within h.size ∧ entry.2.Within h.size) : (h.alloc t).Closed := by
  refine ⟨Nat.lt_succ_of_lt closed.null,?_,?_⟩
  · rw [h.alloc_null,h.alloc_old t closed.null]
    exact closed.vacant
  intro a bound entry member
  rcases Nat.lt_succ_iff_lt_or_eq.mp bound with old | new
  · rw [h.alloc_old t old] at member
    have parts := closed.entries a old entry member
    exact ⟨parts.1.mono (Nat.le_succ _),parts.2.mono (Nat.le_succ _)⟩
  · subst a
    rw [h.alloc_new t] at member
    have parts := inside entry member
    exact ⟨parts.1.mono (Nat.le_succ _),parts.2.mono (Nat.le_succ _)⟩

theorem Table.get_within {t : Table} {n : Nat} (key : Value)
    (inside : ∀ entry ∈ t.entries, entry.1.Within n ∧ entry.2.Within n) : (t.get key).Within n := by
  by_cases found : t.get key = .nil
  · rw [found]; trivial
  · exact (inside _ (Table.mem_of_get found)).2

-- Finite unfolding: `v` has at most `n` levels of tables below and at it. A
-- value is acyclic exactly when some bound exists.
def Bounded (h : Heap) : Nat → Value → Prop
  | 0,v => v.scalar = true
  | n+1,v => match v with
    | .table a => ∀ entry ∈ (h.table a).entries, Bounded h n entry.1 ∧ Bounded h n entry.2
    | _ => True

theorem Bounded.of_scalar {h : Heap} {v : Value} (scalar : v.scalar = true) (n : Nat) : Bounded h n v := by
  cases n with
  | zero => exact scalar
  | succ n =>
    cases v with
    | table a => simp [Value.scalar] at scalar
    | _ => trivial

theorem Bounded.succ {h : Heap} {n : Nat} {v : Value} (bounded : Bounded h n v) : Bounded h (n+1) v := by
  induction n generalizing v with
  | zero => exact Bounded.of_scalar bounded 1
  | succ n ih =>
    cases v with
    | table a =>
      intro entry member
      have parts := bounded entry member
      exact ⟨ih parts.1,ih parts.2⟩
    | _ => trivial

theorem Bounded.mono {h : Heap} {m n : Nat} {v : Value} (bounded : Bounded h m v) (le : m ≤ n) :
    Bounded h n v := by
  induction le with
  | refl => exact bounded
  | step _ ih => exact ih.succ

theorem Bounded.extends {h later : Heap} (closed : h.Closed) (grown : h.Extends later) {n : Nat} {v : Value}
    (inside : v.Within h.size) : Bounded later n v ↔ Bounded h n v := by
  induction n generalizing v with
  | zero => exact Iff.rfl
  | succ n ih =>
    cases v with
    | table a =>
      simp only [Bounded,grown.table a inside]
      constructor
      · intro all entry member
        have bounds := closed.entries a inside entry member
        exact ⟨(ih bounds.1).mp (all entry member).1,(ih bounds.2).mp (all entry member).2⟩
      · intro all entry member
        have bounds := closed.entries a inside entry member
        exact ⟨(ih bounds.1).mpr (all entry member).1,(ih bounds.2).mpr (all entry member).2⟩
    | _ => exact Iff.rfl

theorem Bounded.child {h : Heap} {n : Nat} {a : Address} {entry : Value × Value} (bounded : Bounded h n (.table a))
    (member : entry ∈ (h.table a).entries) : ∃ m, n = m + 1 ∧ Bounded h m entry.1 ∧ Bounded h m entry.2 := by
  cases n with
  | zero => simp [Bounded,Value.scalar] at bounded
  | succ m => exact ⟨m,rfl,bounded entry member⟩

-- Exactly `n + 1` levels.
def Ranked (h : Heap) (n : Nat) (v : Value) : Prop := Bounded h (n+1) v ∧ ¬Bounded h n v

theorem Ranked.unique {h : Heap} {m n : Nat} {v : Value} (left : Ranked h m v) (right : Ranked h n v) : m = n := by
  rcases Nat.lt_trichotomy m n with less | same | greater
  · exact absurd (left.1.mono less) right.2
  · exact same
  · exact absurd (right.1.mono greater) left.2

theorem Ranked.table {h : Heap} {n : Nat} {v : Value} (ranked : Ranked h n v) : ∃ a, v = .table a := by
  cases v with
  | table a => exact ⟨a,rfl⟩
  | _ => exact absurd (Bounded.of_scalar rfl n) ranked.2

theorem Ranked.child {h : Heap} (closed : h.Closed) {n : Nat} {v : Value} (inside : v.Within h.size)
    (ranked : Ranked h (n+1) v) : ∃ w, Ranked h n w ∧ w.Within h.size := by
  obtain ⟨a,rfl⟩ := ranked.table
  have deep := ranked.2
  simp only [Bounded,not_forall] at deep
  obtain ⟨entry,member,short⟩ := deep
  have below := ranked.1 entry member
  have bounds := closed.entries a inside entry member
  by_cases key : Bounded h n entry.1
  · exact ⟨entry.2,⟨below.2,fun value => short ⟨key,value⟩⟩,bounds.2⟩
  · exact ⟨entry.1,⟨below.1,key⟩,bounds.1⟩

-- Every rank up to that of a value is taken by some table.
theorem Ranked.below {h : Heap} (closed : h.Closed) {n : Nat} {v : Value} (inside : v.Within h.size)
    (ranked : Ranked h n v) : ∀ m ≤ n, ∃ a < h.size, Ranked h m (.table a) := by
  induction n generalizing v with
  | zero =>
    intro m bound
    obtain ⟨a,rfl⟩ := ranked.table
    exact ⟨a,inside,Nat.le_zero.mp bound ▸ ranked⟩
  | succ n ih =>
    intro m bound
    rcases Nat.lt_or_eq_of_le bound with less | same
    · obtain ⟨w,smaller,within⟩ := ranked.child closed inside
      exact ih within smaller m (Nat.lt_succ_iff.mp less)
    · obtain ⟨a,rfl⟩ := ranked.table
      exact ⟨a,inside,same ▸ ranked⟩

theorem Ranked.lt_size {h : Heap} (closed : h.Closed) {n : Nat} {v : Value} (inside : v.Within h.size)
    (ranked : Ranked h n v) : n < h.size := by
  have taken : ∀ m : Fin (n+1), ∃ a : Fin h.size, Ranked h m (.table a) := by
    intro m
    obtain ⟨a,bound,found⟩ := ranked.below closed inside m (Nat.lt_succ_iff.mp m.isLt)
    exact ⟨⟨a,bound⟩,found⟩
  choose place found using taken
  have injective : Function.Injective place := by
    intro left right same
    have shared := found right
    rw [← same] at shared
    exact Fin.ext ((found left).unique shared)
  simpa using Fintype.card_le_of_injective place injective

-- A finite unfolding never needs more levels than there are tables.
theorem Bounded.tight {h : Heap} (closed : h.Closed) {n : Nat} {v : Value} (inside : v.Within h.size)
    (bounded : Bounded h n v) : Bounded h h.size v := by
  induction n with
  | zero => exact bounded.mono (Nat.zero_le _)
  | succ n ih =>
    by_cases smaller : Bounded h n v
    · exact ih smaller
    · have ranked : Ranked h n v := ⟨bounded,smaller⟩
      exact bounded.mono (ranked.lt_size closed inside)

-- `v` hangs below every table of the path.
def Below (h : Heap) (path : List Address) (v : Value) : Prop :=
  ∀ a ∈ path, ∀ n, Bounded h (n+1) (.table a) → Bounded h n v

theorem Below.nil (h : Heap) (v : Value) : Below h [] v := by
  intro a member
  simp at member

-- A path back to one of its own tables has no finite unfolding.
theorem Below.fresh {h : Heap} {path : List Address} {a : Address} {n : Nat} (below : Below h path (.table a))
    (bounded : Bounded h n (.table a)) : a ∉ path := by
  intro member
  induction n with
  | zero => simp [Bounded,Value.scalar] at bounded
  | succ n ih => exact ih (below a member n bounded)

theorem Below.entry {h : Heap} {path : List Address} {a : Address} {entry : Value × Value}
    (below : Below h path (.table a)) (member : entry ∈ (h.table a).entries) :
    Below h (a :: path) entry.1 ∧ Below h (a :: path) entry.2 := by
  have step : ∀ b ∈ a :: path, ∀ n, Bounded h (n+1) (.table b) → Bounded h n entry.1 ∧ Bounded h n entry.2 := by
    intro b listed n bounded
    rcases List.mem_cons.mp listed with same | older
    · subst same
      exact bounded entry member
    · obtain ⟨m,rfl,key,value⟩ := (below b older n bounded).child member
      exact ⟨key.succ,value.succ⟩
  exact ⟨fun b listed n bounded => (step b listed n bounded).1,fun b listed n bounded => (step b listed n bounded).2⟩

end Hypringo.Lua

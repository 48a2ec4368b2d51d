import Hypringo.Lua.Heap

namespace Hypringo.Lua

-- Structural equality: language equality, or two tables with the same mark
-- that agree at every key.
inductive Same (h : Heap) : Value → Value → Prop
  | equal {v w : Value} (equal : v.rawEqual w = true) : Same h v w
  | table {a b : Address} (marks : (h.table a).marked = (h.table b).marked)
      (each : ∀ key, Same h ((h.table a).get key) ((h.table b).get key)) : Same h (.table a) (.table b)

theorem Same.refl {h : Heap} {v : Value} (finite : v.isFinite = true) : Same h v v :=
  .equal (Value.rawEqual_self finite)

theorem Same.scalar {h : Heap} {v w : Value} (same : Same h v w) (flat : v.scalar = true ∨ w.scalar = true) :
    v.rawEqual w = true := by
  cases same with
  | equal equal => exact equal
  | table _ _ => simp [Value.scalar] at flat

theorem Same.nil_iff {h : Heap} {v w : Value} (same : Same h v w) : v = .nil ↔ w = .nil := by
  cases same with
  | equal equal =>
    constructor
    · intro absent
      subst absent
      cases w <;> simp [Value.rawEqual] at equal ⊢
    · intro absent
      subst absent
      cases v <;> simp [Value.rawEqual] at equal ⊢
  | table _ _ => simp

theorem Same.extends {h later : Heap} (closed : h.Closed) (grown : h.Extends later) {v w : Value}
    (left : v.Within h.size) (right : w.Within h.size) : Same later v w ↔ Same h v w := by
  constructor
  · intro same
    induction same with
    | equal equal => exact .equal equal
    | @table a b marks each ih =>
      have first := grown.table a left
      have second := grown.table b right
      rw [first,second] at marks
      refine .table marks ?_
      intro key
      have inner := ih key
      rw [first,second] at inner
      exact inner (Table.get_within key (closed.entries a left)) (Table.get_within key (closed.entries b right))
  · intro same
    induction same with
    | equal equal => exact .equal equal
    | @table a b marks each ih =>
      have first := grown.table a left
      have second := grown.table b right
      refine .table (by rw [first,second]; exact marks) ?_
      intro key
      rw [first,second]
      exact ih key (Table.get_within key (closed.entries a left)) (Table.get_within key (closed.entries b right))

-- Marks stand on empty tables only, and null is stored nowhere.
structure Heap.Plain (h : Heap) : Prop where
  marks : ∀ a < h.size, (h.table a).marked = true → (h.table a).entries = []
  nulls : ∀ a < h.size, ∀ entry ∈ (h.table a).entries, entry.1 ≠ .table h.null ∧ entry.2 ≠ .table h.null

theorem Heap.Plain.get {h : Heap} (plain : h.Plain) {a : Address} (inside : a < h.size) (key : Value) :
    (h.table a).get key ≠ .table h.null := by
  by_cases present : (h.table a).get key = .nil
  · rw [present]
    simp
  · exact (plain.nulls a inside _ (Table.mem_of_get present)).2

theorem Heap.Plain.alloc {h : Heap} (plain : h.Plain) {t : Table} (marks : t.marked = true → t.entries = [])
    (nulls : ∀ entry ∈ t.entries, entry.1 ≠ .table h.null ∧ entry.2 ≠ .table h.null) : (h.alloc t).Plain := by
  constructor
  · intro a bound marked
    rcases Nat.lt_succ_iff_lt_or_eq.mp bound with old | new
    · rw [h.alloc_old t old] at marked ⊢
      exact plain.marks a old marked
    · subst new
      rw [h.alloc_new t] at marked ⊢
      exact marks marked
  · intro a bound entry member
    rcases Nat.lt_succ_iff_lt_or_eq.mp bound with old | new
    · rw [h.alloc_old t old] at member
      exact plain.nulls a old entry member
    · subst new
      rw [h.alloc_new t] at member
      exact nulls entry member

end Hypringo.Lua

import Hypringo.Lua.Structural

namespace Hypringo.Lua

-- Two values of two heaps that are built the same: equal scalars, or tables
-- with the same mark whose members are built the same.
inductive Alike (h g : Heap) : Value → Value → Prop
  | scalar {v : Value} (flat : v.scalar = true) (finite : v.isFinite = true) : Alike h g v v
  | table {a b : Address} (marks : (h.table a).marked = (g.table b).marked)
      (each : ∀ key, Alike h g ((h.table a).get key) ((g.table b).get key)) : Alike h g (.table a) (.table b)

namespace Alike

variable {h g : Heap} {v w other : Value}

theorem symm (alike : Alike h g v w) : Alike g h w v := by
  induction alike with
  | scalar flat finite => exact .scalar flat finite
  | table marks _ ih => exact .table marks.symm ih

theorem same (alike : Alike h h v w) : Same h v w := by
  induction alike with
  | scalar _ finite => exact .refl finite
  | table marks _ ih => exact .table marks ih

theorem nil_iff (alike : Alike h g v w) : v = .nil ↔ w = .nil := by
  cases alike with
  | scalar _ _ => exact Iff.rfl
  | table _ _ => simp

-- Two values built like a third one.
theorem join (left : Alike h g v w) (right : Alike h g v other) : Same g w other := by
  induction left generalizing other with
  | scalar flat finite =>
    cases right with
    | scalar _ _ => exact .refl finite
    | table _ _ => simp [Value.scalar] at flat
  | table marks _ ih =>
    cases right with
    | scalar flat _ => simp [Value.scalar] at flat
    | table others each => exact .table (marks.symm.trans others) (fun key => ih key (each key))

-- Structural equality does not depend on where the values lie.
theorem transfer {left right : Value} (equal : Same h v w) (one : Alike h g v left) (two : Alike h g w right) :
    Same g left right := by
  induction equal generalizing left right with
  | @equal v w equal =>
    cases one with
    | scalar flat finite =>
      cases two with
      | scalar _ _ => exact .equal equal
      | table _ _ =>
        rw [Value.rawEqual_table.mp equal] at flat
        simp [Value.scalar] at flat
    | @table a b marks each =>
      rw [Value.table_rawEqual.mp equal] at two
      exact join (.table marks each) two
  | table marks _ ih =>
    cases one with
    | scalar flat _ => simp [Value.scalar] at flat
    | table first eachFirst =>
      cases two with
      | scalar flat _ => simp [Value.scalar] at flat
      | table second eachSecond =>
        exact .table (first.symm.trans (marks.trans second)) (fun key => ih key (eachFirst key) (eachSecond key))

end Alike

end Hypringo.Lua

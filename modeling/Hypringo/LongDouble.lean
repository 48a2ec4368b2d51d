import Mathlib

-- Arithmetic rounded after every operation, known by what rounding keeps.
namespace Hypringo.LongDouble

-- Order is kept, and the halves up to 128 are representable.
structure Rounding where
  round : ℚ → ℚ
  monotone : Monotone round
  halves : ∀ n : Nat, n ≤ 256 → round (n / 2) = n / 2

def exact : Rounding := ⟨id,monotone_id,fun _ _ => rfl⟩

@[simp] theorem exact_round (x : ℚ) : exact.round x = x := rfl

-- Conversion to an integer type drops the fraction.
def truncate (x : ℚ) : Int := if 0 ≤ x then ⌊x⌋ else ⌈x⌉

def clamp (bound x : ℚ) : ℚ := if x < 0 then 0 else if bound < x then bound else x

theorem clamp_range {bound : ℚ} (nonnegative : 0 ≤ bound) (x : ℚ) : 0 ≤ clamp bound x ∧ clamp bound x ≤ bound := by
  unfold clamp
  split
  · exact ⟨le_refl _,nonnegative⟩
  · rename_i above
    split
    · exact ⟨nonnegative,le_refl _⟩
    · rename_i below
      exact ⟨not_lt.mp above,not_lt.mp below⟩

section Machine
variable (m : Rounding)

-- (int)(x + 0.5L)
def halfUp (x : ℚ) : Int := truncate (m.round (x + 1 / 2))

theorem halfUp_range {x : ℚ} {bound : Nat} (small : bound ≤ 127) (above : 0 ≤ x) (below : x ≤ bound) :
    0 ≤ halfUp m x ∧ halfUp m x ≤ bound := by
  have least : (1 / 2 : ℚ) ≤ m.round (x + 1 / 2) := by
    have half := m.halves 1 (by omega)
    have ordered : m.round ((1 : Nat) / 2) ≤ m.round (x + 1 / 2) := m.monotone (by push_cast; linarith)
    rw [half] at ordered
    exact_mod_cast ordered
  have most : m.round (x + 1 / 2) ≤ bound + 1 / 2 := by
    have half := m.halves (2 * bound + 1) (by omega)
    have ordered : m.round (x + 1 / 2) ≤ m.round ((2 * bound + 1 : Nat) / 2) := m.monotone (by push_cast; linarith)
    rw [half] at ordered
    push_cast at ordered
    linarith
  have sign : (0 : ℚ) ≤ m.round (x + 1 / 2) := by linarith
  rw [halfUp,truncate,if_pos sign]
  refine ⟨Int.floor_nonneg.mpr sign,?_⟩
  have under : ⌊m.round (x + 1 / 2)⌋ < (bound : Int) + 1 := by
    rw [Int.floor_lt]
    push_cast
    linarith
  omega

end Machine

-- Exact arithmetic is integer division.
theorem halfUp_exact {a b : Int} (nonnegative : 0 ≤ a) (positive : 0 < b) :
    halfUp exact (a / b) = (2 * a + b) / (2 * b) := by
  obtain ⟨n,rfl⟩ := Int.eq_ofNat_of_zero_le positive.le
  have nonzero : (n : ℚ) ≠ 0 := by
    have : (0 : ℚ) < n := by exact_mod_cast positive
    exact this.ne'
  have sum : (a / (n : Int) + 1 / 2 : ℚ) = ((2 * a + n : Int) : ℚ) / ((2 * n : Nat) : ℚ) := by
    push_cast
    field_simp
  have sign : (0 : ℚ) ≤ ((2 * a + n : Int) : ℚ) / ((2 * n : Nat) : ℚ) :=
    div_nonneg (by exact_mod_cast (by omega : 0 ≤ 2 * a + (n : Int))) (by positivity)
  rw [halfUp,exact_round,sum,truncate,if_pos sign,Rat.floor_intCast_div_natCast]
  push_cast
  rfl

end Hypringo.LongDouble

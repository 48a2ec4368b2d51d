import Mathlib

namespace Hypringo.Raise

-- Raising computations: a call either raises or returns.
theorem bind_ok {x : Except ε α} {f : α → Except ε β} {result : β} :
    (x >>= f) = .ok result ↔ ∃ value, x = .ok value ∧ f value = .ok result := by
  cases x with
  | error e => simp [bind,Except.bind]
  | ok value => simp [bind,Except.bind]

theorem bind_error {x : Except ε α} {f : α → Except ε β} {e : ε} :
    (x >>= f) = .error e ↔ x = .error e ∨ ∃ value, x = .ok value ∧ f value = .error e := by
  cases x with
  | error e => simp [bind,Except.bind]
  | ok value => simp [bind,Except.bind]

theorem mapM_ok {f : α → Except ε β} {xs : List α} {ys : List β} :
    xs.mapM f = .ok ys ↔ List.Forall₂ (fun x y => f x = .ok y) xs ys := by
  induction xs generalizing ys with
  | nil =>
    rw [List.mapM_nil]
    constructor
    · intro done
      cases done
      exact .nil
    · intro all
      cases all
      rfl
  | cons x xs ih =>
    rw [List.mapM_cons]
    constructor
    · intro done
      obtain ⟨y,first,rest⟩ := bind_ok.mp done
      obtain ⟨tail,others,last⟩ := bind_ok.mp rest
      cases last
      exact .cons first (ih.mp others)
    · intro all
      cases all with
      | cons first others => exact bind_ok.mpr ⟨_,first,bind_ok.mpr ⟨_,ih.mpr others,rfl⟩⟩

-- The first element that raises decides; up to it every element returned.
theorem mapM_error {f : α → Except ε β} {xs : List α} {e : ε} (failed : xs.mapM f = .error e) :
    ∃ x ∈ xs, f x = .error e := by
  induction xs with
  | nil => cases failed
  | cons x xs ih =>
    rw [List.mapM_cons] at failed
    rcases bind_error.mp failed with first | ⟨y,_,rest⟩
    · exact ⟨x,by simp,first⟩
    · rcases bind_error.mp rest with others | ⟨_,_,impossible⟩
      · obtain ⟨found,member,raised⟩ := ih others
        exact ⟨found,by simp [member],raised⟩
      · cases impossible

theorem forall₂_left {R : α → β → Prop} {xs : List α} {ys : List β} (all : List.Forall₂ R xs ys)
    {x : α} (member : x ∈ xs) : ∃ y ∈ ys, R x y := by
  induction all with
  | nil => simp at member
  | cons first _ ih =>
    rcases List.mem_cons.mp member with same | later
    · subst same
      exact ⟨_,by simp,first⟩
    · obtain ⟨y,inside,found⟩ := ih later
      exact ⟨y,by simp [inside],found⟩

theorem forall₂_right {R : α → β → Prop} {xs : List α} {ys : List β} (all : List.Forall₂ R xs ys)
    {y : β} (member : y ∈ ys) : ∃ x ∈ xs, R x y :=
  forall₂_left all.flip member

theorem mapM_returns {f : α → Except ε β} {xs : List α} (all : ∀ x ∈ xs, ∃ y, f x = .ok y) :
    ∃ ys, xs.mapM f = .ok ys := by
  cases result : xs.mapM f with
  | ok ys => exact ⟨ys,rfl⟩
  | error e =>
    obtain ⟨x,member,raised⟩ := mapM_error result
    obtain ⟨y,returned⟩ := all x member
    rw [raised] at returned
    cases returned

end Hypringo.Raise

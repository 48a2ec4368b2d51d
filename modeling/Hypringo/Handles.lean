import Mathlib

namespace Hypringo.Handles

-- What is done to the handles a system gives out: memory, descriptors, locks.
inductive Op (α : Type*) where
  | opens (handle : α)
  | uses (handle : α)
  | closes (handle : α)
  deriving DecidableEq

variable {α : Type*} [DecidableEq α]

-- Nothing comes of an operation on a handle that is not held, nor of opening
-- one that is.
def step (held : Finset α) : Op α → Option (Finset α)
  | .opens handle => if handle ∈ held then none else some (insert handle held)
  | .uses handle => if handle ∈ held then some held else none
  | .closes handle => if handle ∈ held then some (held.erase handle) else none

def after : Finset α → List (Op α) → Option (Finset α)
  | held,[] => some held
  | held,op :: rest => match step held op with
    | some next => after next rest
    | none => none

variable {held middle later : Finset α} {handle : α} {ops more : List (Op α)}

theorem after_append (one : after held ops = some middle) (two : after middle more = some later) :
    after held (ops ++ more) = some later := by
  induction ops generalizing held with
  | nil =>
    cases one
    exact two
  | cons op rest ih =>
    simp only [List.cons_append,after] at one ⊢
    split at one
    · exact ih one
    · cases one

theorem after_opens (fresh : handle ∉ held) : after held [.opens handle] = some (insert handle held) := by
  simp [after,step,fresh]

theorem after_closes (present : handle ∈ held) : after held [.closes handle] = some (held.erase handle) := by
  simp [after,step,present]

theorem after_uses (present : handle ∈ held) (only : ∀ op ∈ ops, op = .uses handle) : after held ops = some held := by
  induction ops with
  | nil => rfl
  | cons op rest ih =>
    rw [only op (by simp),after,step,if_pos present]
    exact ih fun other listed => only other (by simp [listed])

-- Opened, used and kept.
theorem after_keeps (ops : List (Op α)) (fresh : handle ∉ held) (only : ∀ op ∈ ops, op = .uses handle) :
    after held (.opens handle :: ops) = some (insert handle held) :=
  after_append (after_opens fresh) (after_uses (Finset.mem_insert_self handle held) only)

-- Opened, used and closed: what was held before is held after.
theorem after_borrows (ops : List (Op α)) (fresh : handle ∉ held) (only : ∀ op ∈ ops, op = .uses handle) :
    after held (.opens handle :: ops ++ [.closes handle]) = some held := by
  refine after_append (after_keeps ops fresh only) ?_
  rw [after_closes (Finset.mem_insert_self handle held),Finset.erase_insert fresh]

-- What is held as a list without repetitions, and what operations make of it.
-- The rules compose as the code does.
structure Moves (before : List α) (ops : List (Op α)) (afterwards : List α) : Prop where
  holds : before.Nodup → after before.toFinset ops = some afterwards.toFinset ∧ afterwards.Nodup

variable {a b c l : List α}

theorem Moves.perm (same : a.Perm b) : Moves a [] b :=
  ⟨fun distinct => ⟨congrArg some (List.toFinset_eq_of_perm _ _ same),same.nodup_iff.mp distinct⟩⟩

theorem Moves.refl (l : List α) : Moves l [] l := .perm (.refl l)

theorem Moves.trans (one : Moves a ops b) (two : Moves b more c) : Moves a (ops ++ more) c where
  holds distinct := by
    obtain ⟨first,between⟩ := one.holds distinct
    obtain ⟨second,distinct⟩ := two.holds between
    exact ⟨after_append first second,distinct⟩

theorem Moves.shuffled (one : Moves a ops b) (same : b.Perm c) : Moves a ops c := by
  have whole := one.trans (.perm same)
  rwa [List.append_nil] at whole

theorem Moves.arranged (same : a.Perm b) (two : Moves b ops c) : Moves a ops c := (Moves.perm same).trans two

theorem Moves.opens (fresh : handle ∉ l) : Moves l [.opens handle] (handle :: l) where
  holds distinct := by
    refine ⟨?_,List.nodup_cons.mpr ⟨fresh,distinct⟩⟩
    rw [after_opens (by simpa using fresh),List.toFinset_cons]

theorem Moves.closes : Moves (handle :: l) [.closes handle] l where
  holds distinct := by
    obtain ⟨outside,rest⟩ := List.nodup_cons.mp distinct
    refine ⟨?_,rest⟩
    rw [after_closes (by simp),List.toFinset_cons,Finset.erase_insert (by simpa using outside)]

theorem Moves.drops (front : List α) : Moves (front ++ handle :: l) [.closes handle] (front ++ l) :=
  .arranged List.perm_middle .closes

theorem Moves.uses (used : ∀ op ∈ ops, ∃ handle ∈ l, op = .uses handle) : Moves l ops l where
  holds distinct := by
    refine ⟨?_,distinct⟩
    induction ops with
    | nil => rfl
    | cons op rest ih =>
      obtain ⟨handle,held,rfl⟩ := used op List.mem_cons_self
      rw [after,step,if_pos (by simpa using held)]
      exact ih fun other listed => used other (List.mem_cons_of_mem _ listed)

theorem Moves.opens_all (new : List α) (fresh : ∀ handle ∈ new, handle ∉ l) (distinct : new.Nodup) :
    Moves l (new.map .opens) (new ++ l) := by
  induction new using List.reverseRecOn with
  | nil => exact .refl l
  | append_singleton rest handle ih =>
    obtain ⟨earlier,-,apart⟩ := List.nodup_append.mp distinct
    have outside : handle ∉ rest ++ l := by
      intro held
      rcases List.mem_append.mp held with among | below
      · exact apart handle among handle (by simp) rfl
      · exact fresh handle (by simp) below
    have opened := (ih (fun other listed => fresh other (by simp [listed])) earlier).trans (Moves.opens outside)
    rw [List.map_append,List.map_singleton]
    exact opened.shuffled (by simpa using List.perm_middle.symm)

theorem Moves.closes_all (old : List α) : Moves (old ++ l) (old.map .closes) l := by
  induction old with
  | nil => exact .refl l
  | cons handle rest ih => exact Moves.closes.trans ih

end Hypringo.Handles

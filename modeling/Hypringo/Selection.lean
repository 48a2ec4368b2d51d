import Mathlib

-- One pass over a list that keeps what it prefers.
namespace Hypringo.Selection
variable {α β : Type}

def pick (prefers : α → α → Bool) (selected : Option α) (candidate : α) : Option α :=
  match selected with
  | none => some candidate
  | some chosen => if prefers candidate chosen then some candidate else selected

def select (prefers : α → α → Bool) (items : List α) : Option α := items.foldl (pick prefers) none

-- A strict order that tells any two of the items apart.
structure Total (prefers : α → α → Bool) (items : List α) : Prop where
  asymmetric : ∀ a b, prefers a b = true → prefers b a = false
  transitive : ∀ a b c, prefers a b = true → prefers b c = true → prefers a c = true
  decides : ∀ a ∈ items, ∀ b ∈ items, a ≠ b → prefers a b = true ∨ prefers b a = true

structure Best (prefers : α → α → Bool) (items : List α) (a : α) : Prop where
  member : a ∈ items
  beats : ∀ b ∈ items, b ≠ a → prefers a b = true

section Pass
variable {prefers : α → α → Bool} {items shuffled : List α}

theorem Total.perm (total : Total prefers items) (same : shuffled ⊆ items) : Total prefers shuffled :=
  ⟨total.asymmetric,total.transitive,fun a left b right => total.decides a (same left) b (same right)⟩

theorem Best.perm {a : α} (best : Best prefers items a) (perm : items.Perm shuffled) : Best prefers shuffled a :=
  ⟨perm.mem_iff.mp best.member,fun b member => best.beats b (perm.mem_iff.mpr member)⟩

theorem Best.unique (total : Total prefers items) {a b : α} (one : Best prefers items a) (two : Best prefers items b) : a = b := by
  by_contra different
  have forward := one.beats b two.member (fun same => different same.symm)
  have backward := two.beats a one.member different
  rw [total.asymmetric a b forward] at backward
  cases backward

theorem fold_best {chosen : α} {rest : List α} (total : Total prefers (chosen :: rest)) :
    ∃ a, rest.foldl (pick prefers) (some chosen) = some a ∧ Best prefers (chosen :: rest) a := by
  induction rest generalizing chosen with
  | nil =>
    refine ⟨chosen,rfl,List.mem_cons_self,?_⟩
    intro b member different
    exact absurd (List.mem_singleton.mp member) different
  | cons next rest ih =>
    rw [List.foldl_cons,pick]
    by_cases better : prefers next chosen = true
    · -- What beats the newcomer, or is it, beats what it replaced.
      rw [if_pos better]
      obtain ⟨a,picked,best⟩ := ih (total.perm (List.subset_cons_self _ _))
      refine ⟨a,picked,List.mem_cons_of_mem _ best.member,?_⟩
      intro b member different
      rcases List.mem_cons.mp member with rfl | later
      · by_cases same : next = a
        · exact same ▸ better
        · exact total.transitive a next b (best.beats next List.mem_cons_self same) better
      · exact best.beats b later different
    · rw [if_neg better]
      have others : chosen :: rest ⊆ chosen :: next :: rest := by
        intro b member
        rcases List.mem_cons.mp member with rfl | later
        · exact List.mem_cons_self
        · exact List.mem_cons_of_mem _ (List.mem_cons_of_mem _ later)
      obtain ⟨a,picked,best⟩ := ih (total.perm others)
      refine ⟨a,picked,others best.member,?_⟩
      intro b member different
      rcases List.mem_cons.mp member with rfl | later
      · exact best.beats b List.mem_cons_self different
      rcases List.mem_cons.mp later with rfl | older
      · by_cases same : chosen = b
        · subst same
          exact best.beats chosen List.mem_cons_self different
        · have wins := (total.decides chosen List.mem_cons_self b (by simp) same).resolve_right better
          by_cases top : chosen = a
          · exact top ▸ wins
          · exact total.transitive a chosen b (best.beats chosen List.mem_cons_self top) wins
      · exact best.beats b (List.mem_cons_of_mem _ older) different

theorem select_best (total : Total prefers items) :
    (select prefers items = none ∧ items = []) ∨ ∃ a, select prefers items = some a ∧ Best prefers items a := by
  cases items with
  | nil => exact .inl ⟨rfl,rfl⟩
  | cons first rest => exact .inr (fold_best total)

theorem select_perm (total : Total prefers items) (perm : items.Perm shuffled) :
    select prefers shuffled = select prefers items := by
  have again := total.perm perm.symm.subset
  rcases select_best total with ⟨nothing,rfl⟩ | ⟨a,picked,best⟩
  · rw [perm.nil_eq]
  · rcases select_best again with ⟨_,rfl⟩ | ⟨b,other,better⟩
    · exact absurd (perm.mem_iff.mp best.member) List.not_mem_nil
    · rw [picked,other,Best.unique again (best.perm perm) better]

end Pass

-- Items that do not qualify are passed over.
theorem fold_candidates {prefers : β → β → Bool} {candidate : α → Option β} {consider : Option β → α → Option β}
    {items : List α}
    (skips : ∀ selected, ∀ item ∈ items, candidate item = none → consider selected item = selected)
    (picks : ∀ selected, ∀ item ∈ items, ∀ found, candidate item = some found →
      consider selected item = pick prefers selected found) :
    items.foldl consider none = select prefers (items.filterMap candidate) := by
  rw [select,List.foldl_filterMap]
  apply List.foldl_ext
  intro selected item member
  cases found : candidate item with
  | none => exact skips selected item member found
  | some result => exact picks selected item member result found

-- Distinct items stay distinct under the names they are known by.
theorem candidates_distinct {γ : Type} {candidate : α → Option β} {key : α → γ} {name : β → γ} {items : List α}
    (keeps : ∀ item ∈ items, ∀ found, candidate item = some found → name found = key item)
    (distinct : (items.map key).Nodup) : ((items.filterMap candidate).map name).Nodup := by
  have listed : ((items.filterMap candidate).map name).Sublist (items.map key) := by
    clear distinct
    induction items with
    | nil => exact .slnil
    | cons item rest ih =>
      have later := ih fun other member => keeps other (List.mem_cons_of_mem _ member)
      rw [List.map_cons]
      cases found : candidate item with
      | none =>
        rw [List.filterMap_cons_none found]
        exact later.cons _
      | some result =>
        rw [List.filterMap_cons_some found,List.map_cons,keeps item List.mem_cons_self result found]
        exact later.cons_cons _
  exact distinct.sublist listed

-- Higher rank first, then the bytewise smaller name.
def ranked (rank : α → Nat) (name : α → List UInt8) (candidate chosen : α) : Bool :=
  if rank candidate ≠ rank chosen then decide (rank chosen < rank candidate) else decide (name candidate < name chosen)

section Ranked
variable {rank : α → Nat} {name : α → List UInt8}

theorem ranked_iff {a b : α} :
    ranked rank name a b = true ↔ rank b < rank a ∨ rank a = rank b ∧ name a < name b := by
  unfold ranked
  by_cases same : rank a = rank b
  · simp [same]
  · simp only [ne_eq,same,not_false_eq_true,if_true,decide_eq_true_eq,false_and,or_false]

theorem ranked_total {items : List α} (distinct : (items.map name).Nodup) :
    Total (ranked rank name) items := by
  refine ⟨?_,?_,?_⟩
  · intro a b forward
    rw [← Bool.not_eq_true,ranked_iff]
    rcases ranked_iff.mp forward with higher | ⟨level,smaller⟩
    · rintro (lower | ⟨level,_⟩)
      · omega
      · omega
    · rintro (lower | ⟨_,larger⟩)
      · omega
      · exact List.lt_asymm smaller larger
  · intro a b c first second
    rw [ranked_iff]
    rcases ranked_iff.mp first with higher | ⟨level,smaller⟩
    · rcases ranked_iff.mp second with more | ⟨flat,_⟩
      · exact .inl (by omega)
      · exact .inl (by omega)
    · rcases ranked_iff.mp second with more | ⟨flat,less⟩
      · exact .inl (by omega)
      · exact .inr ⟨level.trans flat,List.lt_trans smaller less⟩
  · intro a left b right different
    have names : name a ≠ name b := fun same => different (List.inj_on_of_nodup_map distinct left right same)
    rw [ranked_iff,ranked_iff]
    rcases Nat.lt_trichotomy (rank a) (rank b) with lower | level | higher
    · exact .inr (.inl lower)
    · by_cases smaller : name a < name b
      · exact .inl (.inr ⟨level,smaller⟩)
      · by_cases larger : name b < name a
        · exact .inr (.inr ⟨level.symm,larger⟩)
        · exact absurd (List.le_antisymm larger smaller) names
    · exact .inl (.inl higher)

theorem ranked_best {items : List α} {a : α} (best : Best (ranked rank name) items a) :
    (∀ b ∈ items, rank b ≤ rank a) ∧ ∀ b ∈ items, rank b = rank a → b ≠ a → name a < name b := by
  refine ⟨?_,?_⟩
  · intro b member
    by_cases same : b = a
    · rw [same]
    · rcases ranked_iff.mp (best.beats b member same) with higher | ⟨level,_⟩
      · exact Nat.le_of_lt higher
      · exact Nat.le_of_eq level.symm
  · intro b member level different
    rcases ranked_iff.mp (best.beats b member different) with higher | ⟨_,smaller⟩
    · omega
    · exact smaller

end Ranked
end Hypringo.Selection

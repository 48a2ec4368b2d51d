import Mathlib

-- Programs over blocks of memory, and rules for what they own. A program says
-- what it needs; whatever else is held is left alone.
namespace Hypringo.Blocks

-- Every request takes the next number, granted or not, so that no number is
-- given out twice.
structure Memory (β : Type) where
  grants : Nat → Bool
  next : Nat
  cells : Nat → Option β

abbrev Pointer := Option Nat

-- A program ends in `none` when it touches a block that is not there.
abbrev Program (β : Type) := StateT (Memory β) Option

variable {β α γ : Type}

def boot (grants : Nat → Bool) : Memory β := ⟨grants,0,fun _ => none⟩

def malloc (value : β) : Program β Pointer := fun m =>
  if m.grants m.next then
    some (some m.next,{ m with next := m.next+1, cells := Function.update m.cells m.next (some value) })
  else some (none,{ m with next := m.next+1 })

def load : Pointer → Program β β
  | none => fun _ => none
  | some n => fun m => (m.cells n).map fun value => (value,m)

def store (pointer : Pointer) (value : β) : Program β Unit :=
  match pointer with
  | none => fun _ => none
  | some n => fun m => (m.cells n).map fun _ => ((),{ m with cells := Function.update m.cells n (some value) })

def free : Pointer → Program β Unit
  | none => pure ()
  | some n => fun m => (m.cells n).map fun _ => ((),{ m with cells := Function.update m.cells n none })

def touch (pointer : Pointer) : Program β Unit := do
  let _ ← load pointer
  pure ()

-- A block that grows is copied and given back, unless the request is refused.
def realloc (pointer : Pointer) (grown : Option β → β) : Program β Pointer :=
  match pointer with
  | none => malloc (grown none)
  | some n => do
    let old ← load (some n)
    let fresh ← malloc (grown (some old))
    if fresh.isSome then do
      free (some n)
      pure fresh
    else pure none

-- Exactly these blocks are there.
structure Memory.Holds (m : Memory β) (owned : Multiset (Nat × β)) : Prop where
  distinct : (owned.map Prod.fst).Nodup
  cells : ∀ n value, m.cells n = some value ↔ (n,value) ∈ owned
  fresh : ∀ block ∈ owned, block.1 < m.next

-- What a pointer points to.
abbrev Slot (β : Type) := Option (Nat × β)

def Slot.pointer (slot : Slot β) : Pointer := slot.map Prod.fst
def Slot.value (slot : Slot β) : Option β := slot.map Prod.snd
def Slot.blocks (slot : Slot β) : Multiset (Nat × β) := slot.elim 0 fun block => {block}

-- Run from the blocks it needs, with any others beside them, a program ends, and
-- leaves the others as they are.
def Spec (grants : Nat → Bool) (needs : Multiset (Nat × β)) (program : Program β α)
    (post : α → Multiset (Nat × β) → Prop) : Prop :=
  ∀ (m : Memory β) (others : Multiset (Nat × β)), m.grants = grants → m.Holds (needs+others) →
    ∃ result later, program m = some (result,later) ∧ later.grants = grants ∧
      ∃ leaves, post result leaves ∧ later.Holds (leaves+others)

variable {grants : Nat → Bool} {needs owned own others : Multiset (Nat × β)} {program : Program β α}
variable {post : α → Multiset (Nat × β) → Prop} {m : Memory β}

theorem boot_holds (grants : Nat → Bool) : (boot grants : Memory β).Holds 0 :=
  ⟨Multiset.nodup_zero,fun n value => by simp [boot],by simp⟩

theorem Spec.pure {result : α} (holds : post result needs) : Spec grants needs (pure result) post :=
  fun m _ same held => ⟨result,m,rfl,same,needs,holds,held⟩

-- A step takes its part of what is owned and gives back what it leaves.
theorem Spec.step {first : Program β γ} {rest : γ → Program β α} {middle : γ → Multiset (Nat × β) → Prop}
    (part : owned = needs+others) (runs : Spec grants needs first middle)
    (follows : ∀ result leaves, middle result leaves → Spec grants (leaves+others) (rest result) post) :
    Spec grants owned (first >>= rest) post := by
  intro m beside same held
  rw [part,add_assoc] at held
  obtain ⟨result,between,ran,kept,leaves,reached,holds⟩ := runs m _ same held
  rw [← add_assoc] at holds
  obtain ⟨final,later,ended,rest⟩ := follows result leaves reached between beside kept holds
  exact ⟨final,later,by simpa [bind,StateT.bind,ran] using ended,rest⟩

theorem Spec.weaken {other : α → Multiset (Nat × β) → Prop} (runs : Spec grants needs program post)
    (implies : ∀ result leaves, post result leaves → other result leaves) : Spec grants needs program other := by
  intro m beside same held
  obtain ⟨result,later,ran,kept,leaves,reached,holds⟩ := runs m beside same held
  exact ⟨result,later,ran,kept,leaves,implies _ _ reached,holds⟩

-- The last call of a function.
theorem Spec.ends {middle : α → Multiset (Nat × β) → Prop} (part : owned = needs+others)
    (runs : Spec grants needs program middle)
    (implies : ∀ result leaves, middle result leaves → post result (leaves+others)) : Spec grants owned program post := by
  rw [← bind_pure program]
  exact .step part runs fun result leaves reached => .pure (implies result leaves reached)

theorem Memory.Holds.beyond (held : m.Holds owned) : m.cells m.next = none := by
  cases found : m.cells m.next with
  | none => rfl
  | some value => exact absurd (held.fresh _ ((held.cells _ _).mp found)) (lt_irrefl _)

theorem Memory.Holds.skip (held : m.Holds owned) : ({ m with next := m.next+1 } : Memory β).Holds owned :=
  ⟨held.distinct,held.cells,fun block mem => Nat.lt_succ_of_lt (held.fresh block mem)⟩

theorem Memory.Holds.alloc (held : m.Holds owned) (value : β) :
    ({ m with next := m.next+1, cells := Function.update m.cells m.next (some value) } : Memory β).Holds
      ({(m.next,value)}+owned) := by
  refine ⟨?_,?_,?_⟩
  · rw [Multiset.map_add,Multiset.map_singleton,Multiset.singleton_add,Multiset.nodup_cons]
    refine ⟨?_,held.distinct⟩
    intro taken
    obtain ⟨block,mem,same⟩ := Multiset.mem_map.mp taken
    exact absurd (held.fresh block mem) (by rw [same]; exact lt_irrefl _)
  · intro n other
    by_cases here : n = m.next
    · subst here
      have absent : (m.next,other) ∉ owned := fun mem => absurd (held.fresh _ mem) (lt_irrefl _)
      simp [absent,eq_comm]
    · simp [here,held.cells]
  · intro block mem
    rcases Multiset.mem_add.mp mem with new | old
    · rw [Multiset.mem_singleton.mp new]
      exact Nat.lt_succ_self _
    · exact Nat.lt_succ_of_lt (held.fresh block old)

theorem Memory.Holds.erase {n : Nat} {value : β} (held : m.Holds ({(n,value)}+owned)) :
    ({ m with cells := Function.update m.cells n none } : Memory β).Holds owned := by
  have distinct := held.distinct
  rw [Multiset.map_add,Multiset.map_singleton,Multiset.singleton_add,Multiset.nodup_cons] at distinct
  refine ⟨distinct.2,?_,fun block mem => held.fresh block (by simp [mem])⟩
  intro k other
  by_cases here : k = n
  · subst here
    have absent : (k,other) ∉ owned := fun mem => distinct.1 (Multiset.mem_map.mpr ⟨_,mem,rfl⟩)
    simp [absent]
  · simp [here,held.cells]

theorem Memory.Holds.replace {n : Nat} {value : β} (held : m.Holds ({(n,value)}+owned)) (new : β) :
    ({ m with cells := Function.update m.cells n (some new) } : Memory β).Holds ({(n,new)}+owned) := by
  have erased := held.erase
  refine ⟨by simpa using held.distinct,?_,?_⟩
  · intro k other
    by_cases here : k = n
    · subst here
      have absent : (k,other) ∉ owned := fun mem => by simpa using (erased.cells k other).mpr mem
      simp [absent,eq_comm]
    · have cells := erased.cells k other
      simp only [Function.update_of_ne here] at cells ⊢
      simp [here,cells]
  · intro block mem
    rcases Multiset.mem_add.mp mem with new | old
    · rw [Multiset.mem_singleton.mp new]
      exact held.fresh (n,value) (by simp)
    · exact held.fresh block (by simp [old])

-- Every request is granted.
def Plenty (grants : Nat → Bool) : Prop := ∀ n, grants n = true

-- What a request for a block with this value brings.
structure Answers (grants : Nat → Bool) (value : β) (slot : Slot β) : Prop where
  value : ∀ block ∈ slot, block.2 = value
  granted : Plenty grants → slot.isSome

theorem malloc_spec (value : β) :
    Spec grants 0 (malloc value) fun pointer leaves =>
      ∃ slot : Slot β, pointer = slot.pointer ∧ leaves = slot.blocks ∧ Answers grants value slot := by
  intro m others same held
  rw [zero_add] at held
  by_cases granted : m.grants m.next = true
  · refine ⟨some m.next,_,if_pos granted,same,_,⟨some (m.next,value),rfl,rfl,?_,fun _ => rfl⟩,held.alloc value⟩
    intro block mem
    cases mem
    rfl
  · refine ⟨none,_,if_neg granted,same,_,⟨none,rfl,rfl,by simp,?_⟩,by simpa [Slot.blocks] using held.skip⟩
    intro plenty
    exact absurd (same ▸ plenty m.next) granted

theorem load_spec (n : Nat) (value : β) :
    Spec grants {(n,value)} (load (some n)) fun result leaves => result = value ∧ leaves = {(n,value)} := by
  intro m others same held
  have found : m.cells n = some value := (held.cells n value).mpr (by simp)
  exact ⟨value,m,by simp [load,found],same,_,⟨rfl,rfl⟩,held⟩

theorem store_spec (n : Nat) (value new : β) :
    Spec grants {(n,value)} (store (some n) new) fun _ leaves => leaves = {(n,new)} := by
  intro m others same held
  have found : m.cells n = some value := (held.cells n value).mpr (by simp)
  exact ⟨(),{ m with cells := Function.update m.cells n (some new) },by simp [store,found],same,_,rfl,held.replace new⟩

theorem free_spec (slot : Slot β) : Spec grants slot.blocks (free slot.pointer) fun _ leaves => leaves = 0 := by
  cases slot with
  | none => exact .pure rfl
  | some block =>
    intro m others same held
    have found : m.cells block.1 = some block.2 := (held.cells _ _).mpr (by simp [Slot.blocks])
    refine ⟨(),{ m with cells := Function.update m.cells block.1 none },by simp [Slot.pointer,free,found],same,_,rfl,?_⟩
    rw [zero_add]
    exact held.erase

theorem Spec.frees {slot : Slot β} {rest : Program β α} (part : owned = slot.blocks+others)
    (follows : Spec grants others rest post) : Spec grants owned (free slot.pointer >>= fun _ => rest) post := by
  refine .step part (free_spec slot) fun _ leaves freed => ?_
  rwa [freed,zero_add]

theorem touch_spec (n : Nat) (value : β) :
    Spec grants {(n,value)} (touch (some n)) fun _ leaves => leaves = {(n,value)} :=
  .step (add_zero _).symm (load_spec n value) fun _ _ loaded => .pure (by rw [loaded.2,add_zero])

theorem realloc_spec (slot : Slot β) (grown : Option β → β) :
    Spec grants slot.blocks (realloc slot.pointer grown) fun pointer leaves =>
      ∃ fresh : Slot β, pointer = fresh.pointer ∧ leaves = Slot.blocks (fresh.or slot) ∧
        Answers grants (grown slot.value) fresh := by
  cases slot with
  | none =>
    refine (malloc_spec (grown none)).weaken fun pointer leaves answered => ?_
    obtain ⟨fresh,rfl,rfl,answers⟩ := answered
    exact ⟨fresh,rfl,by rw [Option.or_none],answers⟩
  | some block =>
    refine .step (add_zero _).symm (load_spec block.1 block.2) fun old leaves loaded => ?_
    obtain ⟨rfl,rfl⟩ := loaded
    refine .step (add_comm _ _) (malloc_spec _) fun pointer leaves answered => ?_
    obtain ⟨fresh,rfl,rfl,answers⟩ := answered
    cases fresh with
    | none => exact .pure ⟨none,rfl,by simp [Slot.blocks],answers⟩
    | some new =>
      refine .step (add_comm _ _) (free_spec (some block)) fun _ leaves freed => ?_
      exact .pure ⟨some new,rfl,by simp [freed],answers⟩

theorem Spec.touches {n : Nat} {value : β} {rest : Program β α} (part : owned = {(n,value)}+others)
    (follows : Spec grants owned rest post) : Spec grants owned (touch (some n) >>= fun _ => rest) post := by
  refine .step part (touch_spec n value) fun _ leaves touched => ?_
  rwa [touched,← part]

end Hypringo.Blocks

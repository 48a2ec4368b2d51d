import Mathlib

namespace Hypringo.Circular

-- n slots, the oldest entry at head, count entries from there on, indices
-- taken modulo n.
structure Buffer (α : Type*) (n : Nat) where
  slots : Fin n → α
  head : Nat
  count : Nat

variable {α : Type*} {n : Nat} [NeZero n]

def Buffer.index (ring : Buffer α n) (offset : Nat) : Fin n := Fin.ofNat n (ring.head + offset)

def Buffer.contents (ring : Buffer α n) : List α :=
  (List.range ring.count).map (fun offset => ring.slots (ring.index offset))

def Buffer.push (ring : Buffer α n) (value : α) : Buffer α n :=
  { ring with slots := Function.update ring.slots (ring.index ring.count) value, count := ring.count + 1 }

def Buffer.oldest (ring : Buffer α n) : α := ring.slots (ring.index 0)

def Buffer.pop (ring : Buffer α n) : Buffer α n :=
  { ring with head := (ring.head + 1) % n, count := ring.count - 1 }

def Buffer.clear (ring : Buffer α n) : Buffer α n := { ring with head := 0, count := 0 }

@[simp] theorem contents_length (ring : Buffer α n) : ring.contents.length = ring.count := by
  simp [Buffer.contents]

@[simp] theorem contents_clear (ring : Buffer α n) : ring.clear.contents = [] := rfl

-- Two offsets within one turn of the ring meet only when they are equal.
theorem index_injective (ring : Buffer α n) {i j : Nat} (left : i < n) (right : j < n)
    (same : ring.index i = ring.index j) : i = j := by
  have modulo : ring.head + i ≡ ring.head + j [MOD n] := congrArg Fin.val same
  exact (modulo.add_left_cancel' ring.head).eq_of_lt_of_lt left right

theorem contents_push (ring : Buffer α n) (value : α) (room : ring.count < n) :
    (ring.push value).contents = ring.contents ++ [value] := by
  have index : ∀ i, (ring.push value).index i = ring.index i := fun _ => rfl
  have older : ∀ i ∈ List.range ring.count,
      (ring.push value).slots (ring.index i) = ring.slots (ring.index i) := by
    intro i member
    have below : i < ring.count := List.mem_range.mp member
    have other : ring.index i ≠ ring.index ring.count :=
      fun same => absurd (index_injective ring (below.trans room) room same) below.ne
    exact Function.update_of_ne other value ring.slots
  calc (ring.push value).contents
      = (List.range (ring.count + 1)).map (fun i => (ring.push value).slots (ring.index i)) := rfl
    _ = (List.range ring.count).map (fun i => (ring.push value).slots (ring.index i)) ++
          [(ring.push value).slots (ring.index ring.count)] := by
        rw [List.range_succ,List.map_append,List.map_singleton]
    _ = ring.contents ++ [value] := by
        rw [List.map_congr_left older]
        congr 2
        exact Function.update_self (ring.index ring.count) value ring.slots

theorem index_pop (ring : Buffer α n) (i : Nat) : ring.pop.index i = ring.index (i + 1) := by
  apply Fin.ext
  show ((ring.head + 1) % n + i) % n = (ring.head + (i + 1)) % n
  rw [Nat.mod_add_mod]
  congr 1
  omega

theorem contents_pop (ring : Buffer α n) (some : 0 < ring.count) :
    ring.contents = ring.oldest :: ring.pop.contents := by
  obtain ⟨rest,count⟩ : ∃ rest, ring.count = rest + 1 := ⟨ring.count - 1,by omega⟩
  have remaining : ring.pop.count = rest := by
    show ring.count - 1 = rest
    omega
  simp only [Buffer.contents,Buffer.oldest,count,remaining,List.range_succ_eq_map,List.map_cons,List.map_map]
  congr 1
  apply List.map_congr_left
  intro i _
  show ring.slots (ring.index (i + 1)) = ring.pop.slots (ring.pop.index i)
  rw [index_pop]
  rfl

end Hypringo.Circular

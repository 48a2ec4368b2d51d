import Hypringo.Lua.World
import Hypringo.Settling

namespace Hypringo.Lua

theorem Value.Within.of_scalar {v : Value} (scalar : v.scalar = true) (n : Nat) : v.Within n := by
  cases v with
  | table a => cases scalar
  | _ => trivial

-- What a program leaves alone: the metatables, and every field but the named.
structure Keeps (written : List String) (w later : World) : Prop where
  size : w.size ≤ later.size
  metatable : ∀ v : Value, v.Within w.size → later.metatable v = w.metatable v
  get : ∀ a < w.size, ∀ key, (∀ name ∈ written, key ≠ .string (text name)) → later.get a key = w.get a key
  closed : later.Closed

namespace Keeps
variable {written more : List String} {w middle later : World}

theorem refl (closed : w.Closed) : Keeps written w w :=
  ⟨Nat.le_refl _,fun _ _ => rfl,fun _ _ _ _ => rfl,closed⟩

theorem trans (first : Keeps written w middle) (second : Keeps written middle later) : Keeps written w later := by
  refine ⟨Nat.le_trans first.size second.size,?_,?_,second.closed⟩
  · intro v old
    exact (second.metatable v (old.mono first.size)).trans (first.metatable v old)
  · intro a old key other
    exact (second.get a (Nat.lt_of_lt_of_le old first.size) key other).trans (first.get a old key other)

theorem mono (keeps : Keeps written w later) (subset : written ⊆ more) : Keeps more w later :=
  ⟨keeps.size,keeps.metatable,fun a old key other => keeps.get a old key (fun name listed => other name (subset listed)),
    keeps.closed⟩

theorem rawSet (closed : w.Closed) (a : Address) {name : String} {value : Value} (inside : value.Within w.size) :
    Keeps [name] w (w.rawSet a (.string (text name)) value) := by
  refine ⟨Nat.le_refl _,fun _ _ => rfl,?_,World.rawSet_closed closed trivial inside⟩
  intro b _ key other
  exact World.get_rawSet_other (.inr (other name (by simp)))

theorem alloc (closed : w.Closed) : Keeps written w w.alloc := by
  refine ⟨Nat.le_succ _,fun v old => World.alloc_metatable old,?_,World.alloc_closed closed⟩
  intro a old key _
  rw [World.get,World.get,World.alloc_old old]

end Keeps

-- `inside` says that a result refers to nothing unallocated.
def Program.Writes {α : Type} (written : List String) (n : Nat) (inside : α → Nat → Prop) (p : Program α) : Prop :=
  ∀ w x later, w.Closed → n ≤ w.size → p w = .ok (x,later) → Keeps written w later ∧ inside x later.size

def Closing {α : Type} (_ : α) (_ : Nat) : Prop := True

open Settling (bind_ok pure_ok)

namespace Program.Writes
variable {α β : Type} {written more : List String} {n : Nat} {inside : α → Nat → Prop} {within : β → Nat → Prop}

theorem mono {p : Program α} (writes : p.Writes written n inside) (subset : written ⊆ more) : p.Writes more n inside := by
  intro w x later closed size done
  obtain ⟨keeps,held⟩ := writes w x later closed size done
  exact ⟨keeps.mono subset,held⟩

theorem pure {x : α} (held : ∀ m ≥ n, inside x m) : Writes written n inside (Pure.pure x : Program α) := by
  intro w y later closed size done
  obtain ⟨rfl,rfl⟩ := pure_ok.mp done
  exact ⟨.refl closed,held _ size⟩

theorem raise (message : Bytes) : Writes written n inside (Program.raise message : Program α) := nofun

theorem lift {result : Except Bytes α} (held : ∀ x, result = .ok x → ∀ m ≥ n, inside x m) :
    Writes written n inside (Program.lift result) := by
  intro w x later closed size done
  obtain ⟨returned,rfl⟩ := lift_ok.mp done
  exact ⟨.refl closed,held x returned _ size⟩

theorem newTable : Program.newTable.Writes written n Value.Within := by
  intro w x later closed _ done
  cases done
  exact ⟨.alloc closed,Nat.lt_succ_self _⟩

theorem bind {p : Program α} {q : α → Program β} (first : p.Writes written n inside)
    (second : ∀ x m, n ≤ m → inside x m → (q x).Writes written m within) : Writes written n within (p >>= q) := by
  intro w y later closed size done
  obtain ⟨x,middle,one,two⟩ := bind_ok.mp done
  obtain ⟨before,held⟩ := first w x middle closed size one
  obtain ⟨after,result⟩ := second x middle.size (Nat.le_trans size before.size) held middle y later before.closed
    (Nat.le_refl _) two
  exact ⟨before.trans after,result⟩

theorem ite {condition : Prop} [Decidable condition] {p q : Program α} (yes : condition → p.Writes written n inside)
    (no : ¬condition → q.Writes written n inside) : Writes written n inside (if condition then p else q) := by
  split
  · exact yes ‹_›
  · exact no ‹_›

-- A call whose result is only looked at.
theorem map {p : Program α} (writes : p.Writes written n inside) (f : α → β) :
    Writes written n Closing (fun w => (p w).map (fun result => (f result.1,result.2))) := by
  intro w y later closed size done
  cases called : p w with
  | error message =>
    simp only [called,Except.map] at done
    cases done
  | ok result =>
    simp only [called,Except.map] at done
    cases done
    exact ⟨(writes w result.1 result.2 closed size called).1,trivial⟩

end Program.Writes

-- Metamethods that change no table and no metatable.
structure Foreign.Inert (foreign : Foreign) : Prop where
  call : ∀ n f arguments, f.Within n → (∀ argument ∈ arguments, argument.Within n) →
    (foreign.call f arguments).Writes [] n Value.Within

section Access
variable {foreign : Foreign} (inert : foreign.Inert)
include inert

theorem call_pair {n : Nat} {f v w : Value} (callee : f.Within n) (first : v.Within n) (second : w.Within n) :
    (foreign.call f [v,w]).Writes [] n Value.Within := by
  refine inert.call n f [v,w] callee ?_
  intro argument member
  rcases List.mem_cons.mp member with rfl | last
  · exact first
  · exact List.mem_singleton.mp last ▸ second

theorem indexLoop_writes {key : Value} (name : ∀ n, key.Within n) {n : Nat} (steps : Nat) {v : Value} (inside : v.Within n) :
    (indexLoop foreign key steps v).Writes [] n Value.Within := by
  induction steps generalizing v n with
  | zero => exact .raise _
  | succ steps ih =>
    intro w x later closed size done
    have held := inside.mono size
    simp only [indexLoop] at done
    have handled : (w.handler (text "__index") v key).Within w.size := by
      unfold World.handler
      split
      · exact closed.metamethod held _
      · trivial
    split at done
    · cases v with
      | table a =>
        cases done
        exact ⟨.refl closed,closed.get held key⟩
      | _ => cases done
    · exact call_pair inert (.of_scalar rfl _) held (name _) w x later closed (Nat.le_refl _) done
    · exact ih handled w x later closed (Nat.le_refl _) done

theorem index_writes {n : Nat} {v : Value} (inside : v.Within n) (name : String) :
    (index foreign v name).Writes [] n Value.Within := indexLoop_writes inert (.of_scalar rfl) _ inside

theorem assignLoop_writes {name : String} {value : Value} {n : Nat} (steps : Nat) {v : Value} (inside : v.Within n)
    (held : value.Within n) : (assignLoop foreign (.string (text name)) value steps v).Writes [name] n Closing := by
  induction steps generalizing v n with
  | zero => exact .raise _
  | succ steps ih =>
    intro w x later closed size done
    have here := inside.mono size
    have value := held.mono size
    simp only [assignLoop] at done
    have handled : (w.handler (text "__newindex") v (.string (text name))).Within w.size := by
      unfold World.handler
      split
      · exact closed.metamethod here _
      · trivial
    split at done
    · cases v with
      | table a =>
        cases done
        exact ⟨.rawSet closed a value,trivial⟩
      | _ => cases done
    · refine Program.Writes.map ((inert.call w.size _ _ (.of_scalar rfl _) ?_).mono (List.nil_subset _)) (fun _ => ()) w x later
        closed (Nat.le_refl _) done
      intro argument member
      rcases List.mem_cons.mp member with rfl | rest
      · exact here
      rcases List.mem_cons.mp rest with rfl | last
      · trivial
      · exact List.mem_singleton.mp last ▸ value
    · exact ih handled value w x later closed (Nat.le_refl _) done

theorem assign_writes {n : Nat} {v value : Value} (inside : v.Within n) (name : String) (held : value.Within n) :
    (assign foreign v name value).Writes [name] n Closing := assignLoop_writes inert _ inside held

theorem binary_call {n : Nat} {event : Bytes} {left right : Value} (first : left.Within n) (second : right.Within n) {w : World}
    (closed : w.Closed) (size : n ≤ w.size) {x : Bool} {later : World}
    (done : (foreign.call (w.binary event left right) [left,right] w).map (fun result => (result.1.truthy,result.2)) =
      .ok (x,later)) : Keeps [] w later ∧ Closing x later.size := by
  have callee : (w.binary event left right).Within w.size := by
    unfold World.binary
    split
    · exact closed.metamethod (second.mono size) _
    · exact closed.metamethod (first.mono size) _
  exact Program.Writes.map (call_pair inert callee (first.mono size) (second.mono size)) Value.truthy w x later closed
    (Nat.le_refl _) done

theorem compare_writes {n : Nat} (order : Order) {left right : Value} (first : left.Within n) (second : right.Within n) :
    (compare foreign order left right).Writes [] n Closing := by
  intro w x later closed size done
  unfold compare at done
  split at done
  · cases done
    exact ⟨.refl closed,trivial⟩
  · cases done
    exact ⟨.refl closed,trivial⟩
  split at done
  · cases done
    exact ⟨.refl closed,trivial⟩
  split at done
  · cases done
  · exact binary_call inert first second closed size done

theorem equals_writes {n : Nat} {left right : Value} (first : left.Within n) (second : right.Within n) :
    (equals foreign left right).Writes [] n Closing := by
  intro w x later closed size done
  unfold equals at done
  split at done
  · cases done
    exact ⟨.refl closed,trivial⟩
  split at done
  · split at done
    · cases done
      exact ⟨.refl closed,trivial⟩
    · exact binary_call inert first second closed size done
  · split at done
    · cases done
      exact ⟨.refl closed,trivial⟩
    · exact binary_call inert first second closed size done
  · cases done
    exact ⟨.refl closed,trivial⟩

end Access

section Raw
variable {foreign : Foreign} {w : World} {a : Address}

theorem handler_plain {v : Value} (plain : w.metatable v = none) (event : Bytes) (key : Value) : w.handler event v key = .nil := by
  simp [World.handler,World.metamethod,plain]

theorem index_plain (plain : w.metatable (.table a) = none) (name : String) :
    index foreign (.table a) name w = .ok (w.get a (.string (text name)),w) := by
  simp only [index,maxTagLoop,indexLoop,handler_plain plain,fetch]

theorem assign_plain (plain : w.metatable (.table a) = none) (name : String) (value : Value) :
    assign foreign (.table a) name value w = .ok ((),w.rawSet a (.string (text name)) value) := by
  simp only [assign,maxTagLoop,assignLoop,handler_plain plain,store]

end Raw
end Hypringo.Lua

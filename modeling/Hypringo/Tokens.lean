import Hypringo.Lua.Pattern

namespace Hypringo.Tokens
open Hypringo.Lua Pattern

-- Reading a text token by token: blanks, punctuation, names, and lists in
-- braces whose last item may have its comma.
def comma : UInt8 := 44
def openBrace : UInt8 := 123
def closeBrace : UInt8 := 125

def space : Pattern.Class := fun b => b == 32 || decide (9 ≤ b.toNat ∧ b.toNat ≤ 13)
def identifier : Pattern.Class := fun b => alphanumeric b || b == 95

def skip (bytes : Bytes) : Bytes := bytes.dropWhile space

def symbol (c : UInt8) (bytes : Bytes) : Option Bytes :=
  match skip bytes with
  | [] => none
  | b :: rest => if b = c then some rest else none

def word (bytes : Bytes) : Option (Bytes × Bytes) :=
  let found := (skip bytes).takeWhile identifier
  if found.isEmpty then none else some (found,(skip bytes).dropWhile identifier)

def keyword (expected bytes : Bytes) : Option Bytes := do
  let (found,rest) ← word bytes
  if found = expected then some rest else none

def fixed (expected bytes : Bytes) : Option Bytes :=
  if expected <+: bytes then some (bytes.drop expected.length) else none

variable {α : Type}

def braced (item : Bytes → Option (α × Bytes)) : Nat → Bytes → Option (List α × Bytes)
  | 0,_ => none
  | room+1,bytes => match symbol closeBrace bytes with
    | some rest => some ([],rest)
    | none => do
      let (value,rest) ← item bytes
      match symbol closeBrace rest with
      | some rest => some ([value],rest)
      | none => do
        let (values,rest) ← braced item room (← symbol comma rest)
        return (value :: values,rest)

theorem fixed_read (expected tail : Bytes) : fixed expected (expected ++ tail) = some tail := by
  simp [fixed]

theorem identifier_visible {b : UInt8} (named : identifier b = true) : space b = false := by
  simp only [identifier,alphanumeric,digit,letter,Bool.or_eq_true,decide_eq_true_eq,beq_iff_eq] at named
  have low : 48 ≤ b.toNat := by
    rcases named with (decimal | alphabetic) | rfl
    · exact decimal.1
    · omega
    · decide
  have visible : b ≠ 32 := by
    rintro rfl
    exact absurd low (by decide)
  simp only [space,Bool.or_eq_false_iff,beq_eq_false_iff_ne,decide_eq_false_iff_not]
  exact ⟨visible,by omega⟩

theorem skip_visible {bytes : Bytes} (visible : ∀ b ∈ bytes.head?, space b = false) : skip bytes = bytes := by
  cases bytes with
  | nil => rfl
  | cons b rest => rw [skip,List.dropWhile_cons_of_neg (by simp [visible b rfl])]

theorem skip_blank {blank : Bytes} (blanks : ∀ b ∈ blank, space b = true) (bytes : Bytes) :
    skip (blank ++ bytes) = skip bytes := List.dropWhile_append_of_pos blanks

theorem word_read {blank name tail : Bytes} (blanks : ∀ b ∈ blank, space b = true) (nonempty : name ≠ [])
    (named : ∀ b ∈ name, identifier b = true) (ended : ∀ b ∈ tail.head?, identifier b = false) :
    word (blank ++ (name ++ tail)) = some (name,tail) := by
  have start : skip (blank ++ (name ++ tail)) = name ++ tail := by
    rw [skip_blank blanks]
    refine skip_visible fun b first => ?_
    cases name with
    | nil => exact absurd rfl nonempty
    | cons c rest =>
      cases first
      exact identifier_visible (named b List.mem_cons_self)
  have stop : tail.takeWhile identifier = [] ∧ tail.dropWhile identifier = tail := by
    cases tail with
    | nil => exact ⟨rfl,rfl⟩
    | cons b rest => simp [ended b rfl]
  simp only [word,start]
  rw [List.takeWhile_append_of_pos named,List.dropWhile_append_of_pos named,stop.1,stop.2,List.append_nil,if_neg]
  simpa using nonempty

-- A list whose every item is written with a comma after it: each item reads back
-- before the comma, and none begins like the closing brace.
structure Readable (item : Bytes → Option (α × Bytes)) (value : α) (written : Bytes) : Prop where
  reads : ∀ tail, item (written ++ comma :: tail) = some (value,comma :: tail)
  opens : ∀ tail, symbol closeBrace (written ++ tail) = none

theorem braced_read {item : Bytes → Option (α × Bytes)} {ending tail : Bytes} (closes : symbol closeBrace ending = some tail)
    (pieces : List (α × Bytes)) (readable : ∀ piece ∈ pieces, Readable item piece.1 piece.2) :
    ∀ {room : Nat}, pieces.length < room →
      braced item room (pieces.flatMap (fun piece => piece.2 ++ [comma]) ++ ending) = some (pieces.map Prod.fst,tail) := by
  induction pieces with
  | nil =>
    intro room positive
    obtain ⟨less,rfl⟩ := Nat.exists_eq_succ_of_ne_zero positive.ne'
    simp [braced,closes]
  | cons piece rest ih =>
    intro room larger
    obtain ⟨less,rfl⟩ := Nat.exists_eq_succ_of_ne_zero (Nat.ne_zero_of_lt larger)
    have own := readable piece List.mem_cons_self
    have others := ih (fun other listed => readable other (List.mem_cons_of_mem _ listed)) (Nat.lt_of_succ_lt_succ larger)
    have shape : (piece :: rest).flatMap (fun piece => piece.2 ++ [comma]) ++ ending =
        piece.2 ++ comma :: (rest.flatMap (fun piece => piece.2 ++ [comma]) ++ ending) := by simp
    have separated : ∀ bytes, symbol closeBrace (comma :: bytes) = none ∧ symbol comma (comma :: bytes) = some bytes :=
      fun bytes => ⟨rfl,rfl⟩
    rw [shape,Nat.succ_eq_add_one,braced,own.opens]
    simp [own.reads,separated,others]

-- The text of a list is long enough to read it.
theorem braced_text {item : Bytes → Option (α × Bytes)} {ending tail : Bytes} (closes : symbol closeBrace ending = some tail)
    (pieces : List (α × Bytes)) (readable : ∀ piece ∈ pieces, Readable item piece.1 piece.2) {bytes : Bytes}
    (written : bytes = pieces.flatMap (fun piece => piece.2 ++ [comma]) ++ ending) :
    braced item (bytes.length+1) bytes = some (pieces.map Prod.fst,tail) := by
  have long : pieces.length ≤ (pieces.flatMap (fun piece => piece.2 ++ [comma])).length := by
    rw [List.length_flatMap]
    have positive : ∀ n ∈ pieces.map (fun piece => (piece.2 ++ [comma]).length), 1 ≤ n := by
      intro n listed
      obtain ⟨piece,_,rfl⟩ := List.mem_map.mp listed
      simp
    have sum := List.length_le_sum_of_one_le _ positive
    rwa [List.length_map] at sum
  subst written
  refine braced_read closes pieces readable ?_
  rw [List.length_append]
  omega

end Hypringo.Tokens

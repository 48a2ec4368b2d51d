import Hypringo.Lua.Value

namespace Hypringo.Lua.Pattern
open Hypringo.Lua

abbrev Class := UInt8 → Bool

def digit : Class := fun b => decide (48 ≤ b.toNat ∧ b.toNat ≤ 57)
def letter : Class := fun b => decide (65 ≤ b.toNat ∧ b.toNat ≤ 90 ∨ 97 ≤ b.toNat ∧ b.toNat ≤ 122)
def alphanumeric : Class := fun b => digit b || letter b
def byte (c : UInt8) : Class := fun b => b == c
def either (left right : Class) : Class := fun b => left b || right b

inductive Atom where
  | one (c : Class)
  | optional (c : Class)
  | plus (c : Class)

-- Greedy repetition: the longest run of the class is tried first, then ever
-- shorter ones, as the matcher's max_expand does.
def expand (c : Class) (s : Bytes) (next : Bytes → Option α) : Option α :=
  match s with
  | [] => next []
  | b :: rest => if c b then (expand c rest next).orElse (fun _ => next (b :: rest)) else next (b :: rest)

def run : List Atom → Bytes → (Bytes → Option α) → Option α
  | [],s,next => next s
  | .one c :: atoms,s,next => match s with
    | [] => none
    | b :: rest => if c b then run atoms rest next else none
  | .optional c :: atoms,s,next => match s with
    | [] => run atoms [] next
    | b :: rest =>
      if c b then (run atoms rest next).orElse (fun _ => run atoms (b :: rest) next)
      else run atoms (b :: rest) next
  | .plus c :: atoms,s,next => match s with
    | [] => none
    | b :: rest => if c b then expand c rest (fun tail => run atoms tail next) else none

def literal (s : Bytes) : List Atom := s.map (fun c => .one (byte c))

-- An anchored pattern ^lead(group)rest, with a final $ when `toEnd` is set.
-- string.match returns the text of the group.
structure Anchored where
  lead : List Atom
  group : List Atom
  rest : List Atom
  toEnd : Bool

def Anchored.matches (p : Anchored) (s : Bytes) : Option Bytes :=
  run p.lead s fun inner => run p.group inner fun tail => run p.rest tail fun left =>
    if p.toEnd && !left.isEmpty then none else some (inner.take (inner.length - tail.length))

theorem run_literal (lit s : Bytes) (next : Bytes → Option α) :
    run (literal lit) s next = if lit.isPrefixOf s then next (s.drop lit.length) else none := by
  induction lit generalizing s with
  | nil => simp [literal,run]
  | cons c lit ih =>
    cases s with
    | nil => simp [literal,run,List.isPrefixOf]
    | cons b s =>
      have tail := ih s
      by_cases same : b = c
      · subst b
        simpa [literal,run,byte,List.isPrefixOf] using tail
      · have other : ¬ c = b := fun equal => same equal.symm
        simp [literal,run,byte,List.isPrefixOf,same,other]

theorem run_append (first second : List Atom) (s : Bytes) (next : Bytes → Option α) :
    run (first ++ second) s next = run first s (fun rest => run second rest next) := by
  induction first generalizing s with
  | nil => rfl
  | cons atom atoms ih =>
    cases atom with
    | one c => cases s <;> simp only [List.cons_append,run,ih]
    | optional c => cases s <;> simp only [List.cons_append,run,ih]
    | plus c => cases s <;> simp only [List.cons_append,run,ih]

theorem literal_isSome {lit s : Bytes} {next : Bytes → Option α} :
    (run (literal lit) s next).isSome = true ↔ ∃ rest, s = lit ++ rest ∧ (next rest).isSome = true := by
  rw [run_literal]
  constructor
  · intro matched
    split at matched
    · rename_i leads
      obtain ⟨rest,rfl⟩ := List.isPrefixOf_iff_prefix.mp leads
      rw [List.drop_left] at matched
      exact ⟨rest,rfl,matched⟩
    · cases matched
  · rintro ⟨rest,rfl,matched⟩
    rw [if_pos (List.isPrefixOf_iff_prefix.mpr (List.prefix_append lit rest)),List.drop_left]
    exact matched

theorem optional_isSome {c : Class} {atoms : List Atom} {s : Bytes} {next : Bytes → Option α} :
    (run (.optional c :: atoms) s next).isSome = true ↔
      (∃ b rest, s = b :: rest ∧ c b = true ∧ (run atoms rest next).isSome = true) ∨ (run atoms s next).isSome = true := by
  cases s with
  | nil => simp [run]
  | cons b rest =>
    by_cases inside : c b = true
    · cases taken : run atoms rest next <;> simp [run,inside,taken]
    · simp [run,inside]

-- With nothing allowed after the repetition, greediness and backtracking
-- collapse: the whole text has to be of the class.
theorem expand_end (c : Class) (s : Bytes) (result : Bytes → α) :
    expand c s (fun tail => if tail.isEmpty then some (result tail) else none) =
      if s.all c then some (result []) else none := by
  induction s with
  | nil => simp [expand]
  | cons b rest ih =>
    simp only [expand,ih]
    by_cases ok : c b = true
    · by_cases all : rest.all c = true <;> simp [ok,all]
    · simp [ok]

-- Where what follows the repetition cannot start within the class, it takes the
-- longest run.
theorem expand_stop {c : Class} {next : Bytes → Option α} (stops : ∀ b rest, c b = true → next (b :: rest) = none)
    (s : Bytes) : expand c s next = next (s.dropWhile c) := by
  induction s with
  | nil => rfl
  | cons b rest ih =>
    rw [expand]
    by_cases inside : c b = true
    · rw [if_pos inside,ih,stops b rest inside,List.dropWhile_cons_of_pos inside]
      cases next (rest.dropWhile c) <;> rfl
    · rw [if_neg inside,List.dropWhile_cons_of_neg inside]

def plusText (c : Class) (s : Bytes) : Bool := !s.isEmpty && s.all c

theorem run_plus_end (c : Class) (s : Bytes) (result : Bytes → α) :
    run [.plus c] s (fun tail => if tail.isEmpty then some (result tail) else none) =
      if plusText c s then some (result []) else none := by
  cases s with
  | nil => simp [run,plusText]
  | cons b rest =>
    by_cases ok : c b = true
    · simp only [run,ok,if_true,expand_end]
      simp [plusText,ok]
    · simp [run,ok,plusText]

-- Optional sign: the reading that takes the sign is preferred, and the one that
-- does not take it cannot succeed on the same text, as the sign is no digit.
def signedText (sign : UInt8) (c : Class) : Bytes → Bool
  | [] => false
  | b :: rest => if b = sign then plusText c rest else plusText c (b :: rest)

theorem run_signed_end (sign : UInt8) (c : Class) (apart : c sign = false) (s : Bytes)
    (result : Bytes → α) :
    run [.optional (byte sign),.plus c] s
        (fun tail => if tail.isEmpty then some (result tail) else none) =
      if signedText sign c s then some (result []) else none := by
  cases s with
  | nil => simp [run,signedText]
  | cons b rest =>
    have taken := run_plus_end c rest result
    have kept := run_plus_end c (b :: rest) result
    rw [run]
    by_cases minus : b = sign
    · subst b
      have refused : plusText c (sign :: rest) = false := by simp [plusText,apart]
      simp only [byte,beq_self_eq_true,if_true,taken,kept,refused,signedText]
      by_cases all : plusText c rest = true <;> simp [all]
    · have other : (b == sign) = false := by simpa using minus
      simp only [byte,other,signedText,minus,if_false,Bool.false_eq_true]
      exact kept

-- ^lead(group)$ where the group can only succeed by reaching the end.
theorem group_matches (lead s : Bytes) (group : List Atom) (whole : Bytes → Bool)
    (ends : ∀ (s : Bytes) (result : Bytes → Bytes), run group s
        (fun tail => if tail.isEmpty then some (result tail) else none) =
      if whole s then some (result []) else none) :
    (Anchored.mk (literal lead) group [] true).matches s =
      if lead.isPrefixOf s && whole (s.drop lead.length) then some (s.drop lead.length) else none := by
  have shape : ∀ inner tail : Bytes,
      (if !tail.isEmpty then none else some (inner.take (inner.length - tail.length))) =
      if tail.isEmpty then some (inner.take (inner.length - tail.length)) else none := by
    intro inner tail
    cases tail <;> simp
  simp only [Anchored.matches,run_literal]
  by_cases start : lead.isPrefixOf s = true
  · simp only [start,if_true,Bool.true_and,run,shape]
    rw [ends _ (fun tail => (s.drop lead.length).take ((s.drop lead.length).length - tail.length))]
    simp only [List.length_nil,Nat.sub_zero,List.take_length]
  · simp [start]

-- ^lead(c+)$
theorem plus_matches (lead s : Bytes) (c : Class) :
    (Anchored.mk (literal lead) [.plus c] [] true).matches s =
      if lead.isPrefixOf s && plusText c (s.drop lead.length) then some (s.drop lead.length) else none :=
  group_matches lead s _ _ (fun s result => run_plus_end c s result)

-- ^lead(sign?c+)$
theorem signed_matches (lead s : Bytes) (sign : UInt8) (c : Class) (apart : c sign = false) :
    (Anchored.mk (literal lead) [.optional (byte sign),.plus c] [] true).matches s =
      if lead.isPrefixOf s && signedText sign c (s.drop lead.length) then some (s.drop lead.length) else none :=
  group_matches lead s _ _ (fun s result => run_signed_end sign c apart s result)

-- The same statements read as: the text is the literal followed by the group.
theorem prefix_split {lead s : Bytes} {whole : Bytes → Bool} {group : Bytes} :
    (if lead.isPrefixOf s && whole (s.drop lead.length) then some (s.drop lead.length) else none) = some group ↔
      s = lead ++ group ∧ whole group = true := by
  constructor
  · intro found
    split at found
    · rename_i ok
      simp only [Bool.and_eq_true,List.isPrefixOf_iff_prefix] at ok
      obtain ⟨tail,rfl⟩ := ok.1
      simp only [List.drop_left,Option.some.injEq] at found ok
      subst found
      exact ⟨rfl,ok.2⟩
    · cases found
  · rintro ⟨rfl,ok⟩
    have start : lead.isPrefixOf (lead ++ group) = true := by simp
    simp [start,ok]

theorem plus_matches_iff {lead s group : Bytes} {c : Class} :
    (Anchored.mk (literal lead) [.plus c] [] true).matches s = some group ↔
      s = lead ++ group ∧ plusText c group = true := by
  rw [plus_matches]; exact prefix_split

theorem signed_matches_iff {lead s group : Bytes} {sign : UInt8} {c : Class} (apart : c sign = false) :
    (Anchored.mk (literal lead) [.optional (byte sign),.plus c] [] true).matches s = some group ↔
      s = lead ++ group ∧ signedText sign c group = true := by
  rw [signed_matches lead s sign c apart]; exact prefix_split

end Hypringo.Lua.Pattern

import Hypringo.Lua.Pattern

namespace Hypringo.Lua.Numeral
open Hypringo.Lua Pattern

inductive Number where
  | integer (i : Int64)
  | float (f : Float64)
  deriving DecidableEq, Repr

def minus : UInt8 := 45
def digitValue (b : UInt8) : Nat := b.toNat - 48

-- The unbounded reading of a digit string.
def decimal (digits : Bytes) : Nat := digits.foldl (fun a b => a * 10 + digitValue b) 0

def signedValue : Bytes → Int
  | [] => 0
  | b :: rest => if b = minus then -(decimal rest : Int) else (decimal (b :: rest) : Int)

def maxByTen : Nat := (2^63 - 1) / 10
def maxLastDigit : Nat := (2^63 - 1) % 10

-- The digit loop of the language's string-to-integer conversion: it refuses at
-- the digit that would leave the signed 64-bit range, one further for a minus.
def accumulate (negative : Bool) : Nat → Bytes → Option Nat
  | a,[] => some a
  | a,b :: rest =>
    if maxByTen ≤ a ∧ (maxByTen < a ∨ maxLastDigit + negative.toNat < digitValue b) then none
    else accumulate negative (a * 10 + digitValue b) rest

-- Round to nearest, ties to even; a significand that rounds up to 2^53 carries
-- into the exponent field by itself, and past the range the result is infinite.
def nearest (negative : Bool) (n : Nat) : Float64 :=
  let sign := if negative then 2^63 else 0
  if n = 0 then ⟨UInt64.ofNat sign⟩
  else
    let e := Nat.log2 n
    if e ≤ 52 then ⟨UInt64.ofNat (sign + (e + 1023) * 2^52 + (n * 2^(52 - e) - 2^52))⟩
    else
      let unit := 2^(e - 52)
      let q := n / unit
      let r := n % unit
      let q' := if unit < 2 * r ∨ (2 * r = unit ∧ q % 2 = 1) then q + 1 else q
      let field := (e + 1023) * 2^52 + (q' - 2^52)
      ⟨UInt64.ofNat (sign + min field (2047 * 2^52))⟩

-- tonumber on the numerals that reach it, an optional minus and digits: an
-- integer when it fits, else the nearest float.
def tonumber (s : Bytes) : Option Number :=
  if signedText minus digit s then
    let negative := s.head? == some minus
    let digits := if negative then s.tail else s
    match accumulate negative 0 digits with
    | some a => some (.integer (Int64.ofInt (if negative then -(a : Int) else a)))
    | none => some (.float (nearest negative (decimal digits)))
  else none

def Integral (i : Int) : Prop := -2^63 ≤ i ∧ i < 2^63

instance (i : Int) : Decidable (Integral i) := inferInstanceAs (Decidable (_ ∧ _))

theorem digit_minus : digit minus = false := by decide

theorem digitValue_lt {b : UInt8} (ok : digit b = true) : digitValue b < 10 := by
  simp only [digit,decide_eq_true_eq] at ok
  simp only [digitValue]
  omega

theorem fold_ge (digits : Bytes) (a : Nat) :
    a ≤ digits.foldl (fun a b => a * 10 + digitValue b) a := by
  induction digits generalizing a with
  | nil => exact Nat.le_refl _
  | cons b rest ih =>
    have later := ih (a * 10 + digitValue b)
    simp only [List.foldl_cons]
    omega

-- The overflow test looks one digit ahead; as long as it never fires, the
-- accumulator is the value read so far.
theorem accumulate_exact (negative : Bool) (digits : Bytes) (ok : digits.all digit = true) (a : Nat)
    (bound : a ≤ 2^63 - 1 + negative.toNat) :
    accumulate negative a digits =
      if digits.foldl (fun a b => a * 10 + digitValue b) a ≤ 2^63 - 1 + negative.toNat
      then some (digits.foldl (fun a b => a * 10 + digitValue b) a) else none := by
  induction digits generalizing a with
  | nil => rw [accumulate,List.foldl_nil,if_pos bound]
  | cons b rest ih =>
    simp only [List.all_cons,Bool.and_eq_true] at ok
    have small := digitValue_lt ok.1
    have sign : negative.toNat ≤ 1 := by cases negative <;> decide
    rw [accumulate,List.foldl_cons]
    by_cases fits : a * 10 + digitValue b ≤ 2^63 - 1 + negative.toNat
    · have passes : ¬ (maxByTen ≤ a ∧ (maxByTen < a ∨ maxLastDigit + negative.toNat < digitValue b)) := by
        simp only [maxByTen,maxLastDigit]
        omega
      rw [if_neg passes]
      exact ih ok.2 _ fits
    · have stops : maxByTen ≤ a ∧ (maxByTen < a ∨ maxLastDigit + negative.toNat < digitValue b) := by
        simp only [maxByTen,maxLastDigit]
        omega
      have beyond := fold_ge rest (a * 10 + digitValue b)
      rw [if_pos stops,if_neg (by omega)]

theorem accumulate_integral (negative : Bool) (digits : Bytes) (ok : digits.all digit = true) :
    accumulate negative 0 digits =
      if Integral (if negative then -(decimal digits : Int) else decimal digits)
      then some (decimal digits) else none := by
  have exact := accumulate_exact negative digits ok 0 (by omega)
  simp only [← decimal.eq_def] at exact
  have range : decimal digits ≤ 2^63 - 1 + negative.toNat ↔
      Integral (if negative then -(decimal digits : Int) else decimal digits) := by
    cases negative
    · simp only [Bool.toNat_false,Integral,Bool.false_eq_true,if_false]
      omega
    · simp only [Bool.toNat_true,Integral,if_true]
      omega
  rw [exact]
  simp only [range]

theorem plus_signed {digits : Bytes} (ok : plusText digit digits = true) :
    signedText minus digit digits = true ∧ signedValue digits = decimal digits := by
  cases digits with
  | nil => simp [plusText] at ok
  | cons b rest =>
    have other : b ≠ minus := by
      rintro rfl
      simp [plusText,digit_minus] at ok
    simp [signedText,signedValue,other,ok]

theorem tonumber_exact {s : Bytes} (ok : signedText minus digit s = true) :
    tonumber s = if Integral (signedValue s) then some (.integer (Int64.ofInt (signedValue s)))
      else some (.float (nearest (s.head? == some minus)
        (decimal (if s.head? == some minus then s.tail else s)))) := by
  cases s with
  | nil => simp [signedText] at ok
  | cons b rest =>
    have shape := ok
    simp only [signedText] at shape
    by_cases sign : b = minus
    · subst b
      simp only [if_true,plusText,Bool.and_eq_true] at shape
      have converted := accumulate_integral true rest shape.2
      simp only [if_true] at converted
      simp only [tonumber,ok,if_true,List.head?_cons,List.tail_cons,beq_self_eq_true,signedValue,converted]
      by_cases inside : Integral (-(decimal rest : Int)) <;> simp [inside]
    · simp only [if_neg sign,plusText,Bool.and_eq_true] at shape
      have converted := accumulate_integral false (b :: rest) shape.2
      have other : (some b == some minus) = false := by simpa using sign
      simp only [Bool.false_eq_true,if_false] at converted
      simp only [tonumber,ok,if_true,List.head?_cons,other,Bool.false_eq_true,if_false,signedValue,
        if_neg sign,converted]
      by_cases inside : Integral (decimal (b :: rest) : Int) <;> simp [inside]

-- The decimal text of a number.
def digits (n : Nat) : Bytes :=
  if n = 0 then [48] else (Nat.digits 10 n).reverse.map (fun d => UInt8.ofNat (48 + d))

example : digits 9070 = text "9070" := by decide

-- tostring on an integer.
def integerText (i : Int64) : Bytes :=
  if i.toInt < 0 then minus :: digits i.toInt.natAbs else digits i.toInt.toNat

def point : UInt8 := 46
def zeroDigit : UInt8 := 48

-- Round to nearest, ties to even.
def roundQuotient (n d : Nat) : Nat :=
  if 2 * (n % d) < d ∨ (2 * (n % d) = d ∧ n / d % 2 = 0) then n / d else n / d + 1

-- The greatest k with 10^k at most n/d.
def magnitude (n d : Nat) : Int :=
  if d ≤ n then Nat.log 10 (n / d) else -(Nat.clog 10 ((d + n - 1) / n) : Int)

-- The digits of n/d to the given precision, and the power of ten of the first.
def significand (precision n d : Nat) : Nat × Int :=
  let k := magnitude n d
  let shift := (precision : Int) - 1 - k
  let rounded :=
    if 0 ≤ shift then roundQuotient (n * 10^shift.toNat) d else roundQuotient n (d * 10^(-shift).toNat)
  if rounded = 10^precision then (10^(precision - 1),k + 1) else (rounded,k)

def dropZeros (s : Bytes) : Bytes := (s.reverse.dropWhile (· == zeroDigit)).reverse

def fractionText (s : Bytes) : Bytes := if dropZeros s = [] then [] else point :: dropZeros s

def exponentText (k : Int) : Bytes :=
  let ds := digits k.natAbs
  text (if k < 0 then "e-" else "e+") ++ (if ds.length < 2 then zeroDigit :: ds else ds)

-- printf's %.*g on a positive n/d.
def generalText (precision n d : Nat) : Bytes :=
  let (value,k) := significand precision n d
  let ds := digits value
  if k < -4 ∨ (precision : Int) ≤ k then ds.take 1 ++ fractionText (ds.drop 1) ++ exponentText k
  else if k < 0 then [zeroDigit] ++ fractionText (List.replicate (-k - 1).toNat zeroDigit ++ ds)
  else ds.take (k.toNat + 1) ++ fractionText (ds.drop (k.toNat + 1))

-- strtod on a positive n/d, in multiples of 2^-1074. What rounds past the
-- greatest float equals none.
def nearestScaled (n d : Nat) : Nat :=
  let unit := 2^(Nat.log2 (n * 2^1074 / d) - 52)
  roundQuotient (n * 2^1074) (d * unit) * unit

-- What the text of this precision reads back as.
def readBack (precision n d : Nat) : Nat :=
  let (value,k) := significand precision n d
  let shift := k - ((precision : Int) - 1)
  if 0 ≤ shift then nearestScaled (value * 10^shift.toNat) 1 else nearestScaled value (10^(-shift).toNat)

-- %.15g, and %.17g where that is not the same float again.
def positiveText (scaled : Nat) : Bytes :=
  generalText (if readBack 15 scaled (2^1074) = scaled then 15 else 17) scaled (2^1074)

-- tostring on a float: a text that looks like an integer gets ".0".
def floatText (f : Float64) : Bytes :=
  if f.nan then text (if f.negative then "-nan" else "nan")
  else
    let sign := if f.negative then [minus] else []
    if !f.finite then sign ++ text "inf"
    else
      let body := if f.scaled = 0 then [zeroDigit] else positiveText f.scaled.natAbs
      if body.all digit then sign ++ body ++ text ".0" else sign ++ body

example : floatText ⟨0x3FD3333333333334⟩ = text "0.30000000000000004" := by decide +kernel
example : floatText ⟨0x4340000000000000⟩ = text "9007199254740992.0" := by decide +kernel

theorem digit_byte {d : Nat} (small : d < 10) : digit (UInt8.ofNat (48 + d)) = true ∧ digitValue (UInt8.ofNat (48 + d)) = d := by
  have value : (UInt8.ofNat (48 + d)).toNat = 48 + d := by
    rw [UInt8.toNat_ofNat']
    omega
  simp only [digit,digitValue,value,decide_eq_true_eq]
  omega

theorem digits_text (n : Nat) : plusText digit (digits n) = true := by
  unfold digits
  split
  · decide
  · rename_i positive
    have some : Nat.digits 10 n ≠ [] := Nat.digits_ne_nil_iff_ne_zero.mpr positive
    simp only [plusText,Bool.and_eq_true,List.all_eq_true]
    refine ⟨by simpa using some,?_⟩
    intro b member
    obtain ⟨d,listed,rfl⟩ := List.mem_map.mp member
    exact (digit_byte (Nat.digits_lt_base (by decide) (List.mem_reverse.mp listed))).1

theorem decimal_digits (n : Nat) : decimal (digits n) = n := by
  unfold digits
  split
  · rename_i zero
    subst zero
    decide
  · have fold : ∀ ds : List Nat, (∀ d ∈ ds, d < 10) →
        decimal (ds.reverse.map (fun d => UInt8.ofNat (48 + d))) = Nat.ofDigits 10 ds := by
      intro ds small
      induction ds with
      | nil => rfl
      | cons d rest ih =>
        have others := ih (fun d member => small d (by simp [member]))
        have last := (digit_byte (small d (by simp))).2
        simp only [decimal] at others
        simp only [decimal,List.reverse_cons,List.map_append,List.foldl_append,List.map_cons,List.map_nil,
          List.foldl_cons,List.foldl_nil,others,last,Nat.ofDigits_cons]
        ring
    rw [fold _ (fun d member => Nat.digits_lt_base (by decide) member),Nat.ofDigits_digits]

-- An integer's decimal text: its shape, its value and its length.
theorem plus_of_minus {digits : Bytes} (shape : plusText digit digits = true) :
    signedText minus digit (minus :: digits) = true ∧ signedValue (minus :: digits) = -(decimal digits : Int) := by
  simp [signedText,signedValue,shape]

theorem integerText_signed (i : Int64) :
    signedText minus digit (integerText i) = true ∧ signedValue (integerText i) = i.toInt := by
  unfold integerText
  split
  · rename_i negative
    obtain ⟨shape,value⟩ := plus_of_minus (digits_text i.toInt.natAbs)
    refine ⟨shape,?_⟩
    rw [value,decimal_digits]
    omega
  · rename_i nonnegative
    obtain ⟨shape,value⟩ := plus_signed (digits_text i.toInt.toNat)
    refine ⟨shape,?_⟩
    rw [value,decimal_digits]
    omega

theorem integerText_plus {i : Int64} (nonnegative : 0 ≤ i.toInt) :
    plusText digit (integerText i) = true ∧ (decimal (integerText i) : Int) = i.toInt := by
  have sign : ¬i.toInt < 0 := by omega
  rw [integerText,if_neg sign]
  refine ⟨digits_text _,?_⟩
  rw [decimal_digits]
  omega

theorem digits_length {n : Nat} (small : n < 10^19) : (digits n).length ≤ 19 := by
  unfold digits
  split
  · decide
  · rw [List.length_map,List.length_reverse]
    exact (Nat.digits_length_le_iff (by decide) n).mpr small

theorem integerText_length (i : Int64) : (integerText i).length ≤ 20 := by
  have low := i.le_toInt
  have high := i.toInt_lt
  unfold integerText
  split
  · have short := digits_length (n := i.toInt.natAbs) (by omega)
    rw [List.length_cons]
    omega
  · have short := digits_length (n := i.toInt.toNat) (by omega)
    omega

end Hypringo.Lua.Numeral

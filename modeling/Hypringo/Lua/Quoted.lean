import Hypringo.Lua.Numeral
import Hypringo.Tokens

namespace Hypringo.Lua.Quoted
open Numeral Pattern Tokens

def quote : UInt8 := 34
def apostrophe : UInt8 := 39
def backslash : UInt8 := 92
def newline : UInt8 := 10
def carriageReturn : UInt8 := 13

def control : Pattern.Class := fun b => decide (b.toNat < 32) || b == 127
def hexadecimal : Pattern.Class := fun b => digit b || decide (65 ≤ b.toNat ∧ b.toNat ≤ 70 ∨ 97 ≤ b.toNat ∧ b.toNat ≤ 102)

def hexValue (b : UInt8) : Nat :=
  if digit b then b.toNat - 48 else if b.toNat < 97 then b.toNat - 55 else b.toNat - 87

def hexNumber (bytes : Bytes) : Nat := bytes.foldl (fun n b => n * 16 + hexValue b) 0

-- string.format("%q"). The byte after the one written decides whether its
-- decimal escape is padded; after the last one stands the terminating zero.
def padded (n : Nat) : Bytes := List.replicate (3 - (digits n).length) zeroDigit ++ digits n

def quoteByte (b next : UInt8) : Bytes :=
  if b = quote ∨ b = backslash ∨ b = newline then [backslash,b]
  else if control b then backslash :: (if digit next then padded b.toNat else digits b.toNat)
  else [b]

def quoteBody : Bytes → Bytes
  | [] => []
  | b :: rest => quoteByte b (rest.headD 0) ++ quoteBody rest

def quoted (s : Bytes) : Bytes := quote :: (quoteBody s ++ [quote])

example : quoted [97,10,0,49,7] = text "\"a\\\n\\0001\\7\"" := by decide

-- The escapes of a string literal, after their backslash.
def letterEscape (b : UInt8) : Option UInt8 :=
  ([(97,7),(98,8),(102,12),(110,10),(114,13),(116,9),(118,11)] : List (UInt8 × UInt8)).lookup b

def readDecimal (bytes : Bytes) : Option (Bytes × Bytes) :=
  let found := (bytes.take 3).takeWhile digit
  if found = [] ∨ 255 < decimal found then none
  else some ([UInt8.ofNat (decimal found)],bytes.drop found.length)

def readHex : Bytes → Option (Bytes × Bytes)
  | high :: low :: rest =>
    if hexadecimal high && hexadecimal low then some ([UInt8.ofNat (hexNumber [high,low])],rest) else none
  | _ => none

-- The leading byte has room for fewer bits with every byte that follows it.
def utf8Bytes : Nat → Nat → Bytes → Bytes
  | 0,_,bytes => bytes
  | bits+1,n,bytes =>
    let longer := UInt8.ofNat (128 + n % 64) :: bytes
    if n / 64 < 2^bits then UInt8.ofNat (256 - 2^(bits+1) + n / 64) :: longer else utf8Bytes bits (n / 64) longer

def utf8 (n : Nat) : Bytes := if n < 128 then [UInt8.ofNat n] else utf8Bytes 6 n []

def readUnicode : Bytes → Option (Bytes × Bytes)
  | [] => none
  | opening :: rest =>
    let found := rest.takeWhile hexadecimal
    if opening ≠ openBrace ∨ found = [] ∨ 2^31 ≤ hexNumber found then none
    else match rest.drop found.length with
      | [] => none
      | closing :: after => if closing = closeBrace then some (utf8 (hexNumber found),after) else none

-- A line break is a newline, a carriage return, or both in either order.
def skipBreak (b : UInt8) : Bytes → Bytes
  | [] => []
  | c :: rest => if (c = newline ∨ c = carriageReturn) ∧ c ≠ b then rest else c :: rest

def readEscape : Bytes → Option (Bytes × Bytes)
  | [] => none
  | b :: rest =>
    if b = newline ∨ b = carriageReturn then some ([newline],skipBreak b rest)
    else if b = quote ∨ b = backslash ∨ b = apostrophe then some ([b],rest)
    else match letterEscape b with
      | some value => some ([value],rest)
      | none =>
        if b = 120 then readHex rest
        else if b = 117 then readUnicode rest
        else if b = 122 then some ([],rest.dropWhile space)
        else readDecimal (b :: rest)

-- read_string after the opening delimiter, a turn for each byte or escape.
def readBody (delimiter : UInt8) : Nat → Bytes → Option (Bytes × Bytes)
  | 0,_ => none
  | _+1,[] => none
  | room+1,b :: rest =>
    if b = delimiter then some ([],rest)
    else if b = newline ∨ b = carriageReturn then none
    else do
      let (saved,after) ← if b = backslash then readEscape rest else some ([b],rest)
      let (s,tail) ← readBody delimiter room after
      return (saved ++ s,tail)

def readString : Bytes → Option (Bytes × Bytes)
  | [] => none
  | b :: rest => if b = quote ∨ b = apostrophe then readBody b (rest.length+1) rest else none

-- What the reader may find after a written byte: never a bare line break, and
-- a digit only where the writer saw one.
structure Follows (next : UInt8) (tail : Bytes) : Prop where
  broken : ∀ b ∈ tail.head?, b ≠ newline ∧ b ≠ carriageReturn
  digits : digit next = false → ∀ b ∈ tail.head?, digit b = false

theorem quoteByte_head (b next : UInt8) (tail : Bytes) :
    ∃ head rest, quoteByte b next ++ tail = head :: rest ∧ head ≠ newline ∧ head ≠ carriageReturn ∧
      (digit b = false → digit head = false) := by
  unfold quoteByte
  split
  · exact ⟨backslash,b :: tail,rfl,by decide,by decide,fun _ => by decide⟩
  split
  · exact ⟨backslash,_,rfl,by decide,by decide,fun _ => by decide⟩
  · rename_i plain unescaped
    refine ⟨b,tail,rfl,fun same => plain (.inr (.inr same)),fun same => unescaped ?_,id⟩
    subst same
    decide

theorem body_follows (s suffix : Bytes) : Follows (s.headD 0) (quoteBody s ++ quote :: suffix) := by
  cases s with
  | nil =>
    constructor
    · intro b first
      cases first
      decide
    · intro _ b first
      cases first
      decide
  | cons c rest =>
    obtain ⟨head,_,shape,unbroken,uncarried,undigit⟩ := quoteByte_head c (rest.headD 0) (quoteBody rest ++ quote :: suffix)
    rw [quoteBody,List.append_assoc,shape]
    constructor
    · intro b first
      cases first
      exact ⟨unbroken,uncarried⟩
    · intro other b first
      cases first
      exact undigit other

theorem decimal_zeros (k : Nat) (s : Bytes) : decimal (List.replicate k zeroDigit ++ s) = decimal s := by
  induction k with
  | zero => rfl
  | succ k ih =>
    rw [List.replicate_succ,List.cons_append,decimal,List.foldl_cons]
    exact ih

theorem digits_short {n : Nat} (small : n < 256) : (digits n).length ≤ 3 := by
  unfold digits
  split
  · decide
  · rename_i positive
    rw [List.length_map,List.length_reverse,Nat.digits_length_le_iff (by decide)]
    omega

-- A digit run is read whole when it fills the escape or when no digit follows.
theorem decimal_taken {found tail : Bytes} (all : ∀ b ∈ found, digit b = true)
    (ended : found.length = 3 ∨ found.length ≤ 3 ∧ ∀ b ∈ tail.head?, digit b = false) :
    ((found ++ tail).take 3).takeWhile digit = found := by
  have short : found.length ≤ 3 := by
    rcases ended with full | free
    · exact full.le
    · exact free.1
  rw [List.take_append,List.take_of_length_le short,List.takeWhile_append_of_pos all]
  rcases ended with full | ⟨_,free⟩
  · simp [full]
  · cases tail with
    | nil => simp
    | cons b rest =>
      cases room : 3 - found.length with
      | zero => simp
      | succ k => simp [free b rfl]

theorem readDecimal_found {found tail : Bytes} {b : UInt8} (all : ∀ b ∈ found, digit b = true) (nonempty : found ≠ [])
    (value : decimal found = b.toNat)
    (ended : found.length = 3 ∨ found.length ≤ 3 ∧ ∀ b ∈ tail.head?, digit b = false) :
    readDecimal (found ++ tail) = some ([b],tail) := by
  have small := b.toNat_lt
  have fits : ¬(found = [] ∨ 255 < b.toNat) := by
    rintro (none | large)
    · exact nonempty none
    · omega
  simp only [readDecimal,decimal_taken all ended,value,if_neg fits,List.drop_left,UInt8.ofNat_toNat]

theorem readEscape_digit {b : UInt8} {rest : Bytes} (isDigit : digit b = true) :
    readEscape (b :: rest) = readDecimal (b :: rest) := by
  have range : 48 ≤ b.toNat ∧ b.toNat ≤ 57 := by simpa [digit] using isDigit
  have other : ∀ c : UInt8, (c.toNat < 48 ∨ 57 < c.toNat) → b ≠ c := by
    rintro c outside rfl
    omega
  have letters : letterEscape b = none := by
    rw [letterEscape,List.lookup_eq_none_iff]
    intro pair listed
    simp only [List.mem_cons,List.not_mem_nil,or_false] at listed
    rcases listed with rfl | rfl | rfl | rfl | rfl | rfl | rfl <;> simpa using other _ (by decide)
  simp only [readEscape,letters]
  rw [if_neg (by simp [other newline (by decide),other carriageReturn (by decide)]),
    if_neg (by simp [other quote (by decide),other backslash (by decide),other apostrophe (by decide)]),
    if_neg (other _ (by decide)),if_neg (other _ (by decide)),if_neg (other _ (by decide))]

theorem digits_shape (n : Nat) : digits n ≠ [] ∧ ∀ b ∈ digits n, digit b = true := by
  have shape := digits_text n
  simp only [plusText,Bool.and_eq_true,List.all_eq_true,Bool.not_eq_true',List.isEmpty_eq_false_iff] at shape
  exact shape

theorem readEscape_found {found tail : Bytes} {b : UInt8} (all : ∀ b ∈ found, digit b = true) (nonempty : found ≠ [])
    (value : decimal found = b.toNat)
    (ended : found.length = 3 ∨ found.length ≤ 3 ∧ ∀ b ∈ tail.head?, digit b = false) :
    readEscape (found ++ tail) = some ([b],tail) := by
  have read := readDecimal_found all nonempty value ended
  cases found with
  | nil => exact absurd rfl nonempty
  | cons c rest =>
    rw [List.cons_append] at read ⊢
    rw [readEscape_digit (all c List.mem_cons_self)]
    exact read

theorem control_read {b next : UInt8} {tail : Bytes} (follows : Follows next tail) :
    readEscape ((if digit next then padded b.toNat else digits b.toNat) ++ tail) = some ([b],tail) := by
  obtain ⟨nonempty,all⟩ := digits_shape b.toNat
  have short := digits_short b.toNat_lt
  cases isDigit : digit next with
  | false => exact readEscape_found all nonempty (decimal_digits _) (.inr ⟨short,follows.digits isDigit⟩)
  | true =>
    rw [if_pos rfl]
    refine readEscape_found ?_ ?_ ?_ (.inl ?_)
    · intro c listed
      rcases List.mem_append.mp listed with zero | kept
      · rw [List.eq_of_mem_replicate zero]
        decide
      · exact all c kept
    · simp [padded,nonempty]
    · rw [padded,decimal_zeros,decimal_digits]
    · rw [padded,List.length_append,List.length_replicate]
      omega

theorem skipBreak_kept {b : UInt8} {tail : Bytes} (unbroken : ∀ c ∈ tail.head?, c ≠ newline ∧ c ≠ carriageReturn) :
    skipBreak b tail = tail := by
  cases tail with
  | nil => rfl
  | cons c rest =>
    obtain ⟨line,carriage⟩ := unbroken c rfl
    rw [skipBreak,if_neg (by simp [line,carriage])]

-- One written byte is one turn of the reader.
theorem byte_roundtrip {b next : UInt8} {tail s after : Bytes} {room : Nat} (follows : Follows next tail)
    (read : readBody quote room tail = some (s,after)) :
    readBody quote (room+1) (quoteByte b next ++ tail) = some (b :: s,after) := by
  have marks : ¬backslash = quote ∧ ¬(backslash = newline ∨ backslash = carriageReturn) := by decide
  unfold quoteByte
  split
  · rename_i special
    have escape : readEscape (b :: tail) = some ([b],tail) := by
      rcases special with rfl | rfl | rfl
      · rfl
      · rfl
      · rw [readEscape,if_pos (.inl rfl),skipBreak_kept follows.broken]
    simp only [List.cons_append,List.nil_append,readBody,if_neg marks.1,if_neg marks.2,if_true,escape]
    simp [read]
  split
  · have escape := control_read (b := b) follows
    simp only [List.cons_append,readBody,if_neg marks.1,if_neg marks.2,if_true,escape]
    simp [read]
  · rename_i plain unescaped
    simp only [not_or] at plain
    have uncarried : b ≠ carriageReturn := by
      rintro rfl
      exact unescaped (by decide)
    simp only [List.cons_append,List.nil_append,readBody,if_neg plain.1,if_neg plain.2.1,
      if_neg (show ¬(b = newline ∨ b = carriageReturn) by simp [plain.2.2,uncarried])]
    simp [read]

theorem body_roundtrip (s suffix : Bytes) : ∀ {room : Nat}, s.length < room →
    readBody quote room (quoteBody s ++ quote :: suffix) = some (s,suffix) := by
  induction s with
  | nil =>
    intro room positive
    obtain ⟨less,rfl⟩ := Nat.exists_eq_succ_of_ne_zero positive.ne'
    rfl
  | cons b rest ih =>
    intro room larger
    obtain ⟨less,rfl⟩ := Nat.exists_eq_succ_of_ne_zero (Nat.ne_zero_of_lt larger)
    rw [quoteBody,List.append_assoc]
    exact byte_roundtrip (body_follows rest suffix) (ih (Nat.lt_of_succ_lt_succ larger))

theorem quoteByte_length (b next : UInt8) : 1 ≤ (quoteByte b next).length := by
  unfold quoteByte
  split
  · exact Nat.le_add_left _ _
  split
  · exact Nat.le_add_left _ _
  · exact le_rfl

theorem quoteBody_length (s : Bytes) : s.length ≤ (quoteBody s).length := by
  induction s with
  | nil => exact Nat.zero_le _
  | cons b rest ih =>
    have one := quoteByte_length b (rest.headD 0)
    rw [quoteBody,List.length_append,List.length_cons]
    omega

theorem string_roundtrip (s suffix : Bytes) : readString (quoted s ++ suffix) = some (s,suffix) := by
  have shape : quoted s ++ suffix = quote :: (quoteBody s ++ quote :: suffix) := by simp [quoted]
  have long := quoteBody_length s
  rw [shape,readString,if_pos (.inl rfl)]
  refine body_roundtrip s suffix ?_
  rw [List.length_append]
  omega

end Hypringo.Lua.Quoted

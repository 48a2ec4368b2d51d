import Hypringo.Json

namespace Hypringo.JsonText
open Hypringo.Lua Json Numeral Pattern

-- One JSON text codec that meets the laws asked of the library. A real's bit
-- pattern stands in its text for the shortest digits the library would print.
def quote : UInt8 := 34
def comma : UInt8 := 44
def dot : UInt8 := 46
def colon : UInt8 := 58
def openBracket : UInt8 := 91
def backslash : UInt8 := 92
def closeBracket : UInt8 := 93
def openBrace : UInt8 := 123
def closeBrace : UInt8 := 125

def hexDigit (n : Nat) : UInt8 := UInt8.ofNat (if n < 10 then 48 + n else 87 + n)
def hexValue (b : UInt8) : Nat := if b.toNat < 58 then b.toNat - 48 else b.toNat - 87

def escaped (b : UInt8) : Bool := b.toNat < 32 || b == quote || b == backslash

def writeByte (b : UInt8) : Bytes :=
  if escaped b then text "\\u00" ++ [hexDigit (b.toNat / 16),hexDigit (b.toNat % 16)] else [b]

def writeString (s : Bytes) : Bytes := quote :: (s.flatMap writeByte ++ [quote])

mutual
def writeDoc : Doc → Bytes
  | .null => text "null"
  | .boolean true => text "true"
  | .boolean false => text "false"
  | .sint i => if 0 ≤ i then digits i.toNat else minus :: digits i.natAbs
  | .uint n => digits n
  | .real f => digits f.bits.toNat ++ text ".0"
  | .string s => writeString s
  | .array items => openBracket :: writeItems true items
  | .object members => openBrace :: writeMembers true members
def writeItems (first : Bool) : List Doc → Bytes
  | [] => [closeBracket]
  | item :: rest => (if first then [] else [comma]) ++ writeDoc item ++ writeItems false rest
def writeMembers (first : Bool) : List (Bytes × Doc) → Bytes
  | [] => [closeBrace]
  | (key,value) :: rest =>
    (if first then [] else [comma]) ++ writeString key ++ colon :: writeDoc value ++ writeMembers false rest
end

def readString : Bytes → Option (Bytes × Bytes)
  | [] => none
  | b :: rest =>
    if b = quote then some ([],rest)
    else if b = backslash then match rest with
      | _ :: _ :: _ :: high :: low :: tail => do
        let (s,after) ← readString tail
        return (UInt8.ofNat (hexValue high * 16 + hexValue low) :: s,after)
      | _ => none
    else do
      let (s,after) ← readString rest
      return (b :: s,after)

def readNumber (bytes : Bytes) : Option (Nat × Bytes) :=
  let found := bytes.takeWhile digit
  if found.isEmpty then none else some (decimal found,bytes.dropWhile digit)

def readUnsigned (bytes : Bytes) : Option (Doc × Bytes) := do
  let (n,after) ← readNumber bytes
  match after with
  | point :: zero :: tail => if point = dot then some (.real ⟨UInt64.ofNat n⟩,tail) else some (.uint n,point :: zero :: tail)
  | _ => some (.uint n,after)

def readWord (word : Bytes) (doc : Doc) (bytes : Bytes) : Option (Doc × Bytes) :=
  if word <+: bytes then some (doc,bytes.drop word.length) else none

mutual
def readDoc : Nat → Bytes → Option (Doc × Bytes)
  | 0,_ => none
  | fuel+1,bytes => match bytes with
    | [] => none
    | b :: rest =>
      if b = quote then do let (s,tail) ← readString rest; return (.string s,tail)
      else if b = openBracket then do let (items,tail) ← readItems fuel true rest; return (.array items,tail)
      else if b = openBrace then do let (members,tail) ← readMembers fuel true rest; return (.object members,tail)
      else if b = minus then do let (n,tail) ← readNumber rest; return (.sint (-(n : Int)),tail)
      else (readUnsigned bytes <|> readWord (text "null") .null bytes <|>
        readWord (text "true") (.boolean true) bytes <|> readWord (text "false") (.boolean false) bytes)
def readItems : Nat → Bool → Bytes → Option (List Doc × Bytes)
  | 0,_,_ => none
  | fuel+1,first,bytes => match bytes with
    | [] => none
    | b :: rest =>
      if b = closeBracket then some ([],rest)
      else if first || b == comma then do
        let (item,tail) ← readDoc fuel (if first then bytes else rest)
        let (items,after) ← readItems fuel false tail
        return (item :: items,after)
      else none
def readMembers : Nat → Bool → Bytes → Option (List (Bytes × Doc) × Bytes)
  | 0,_,_ => none
  | fuel+1,first,bytes => match bytes with
    | [] => none
    | b :: rest =>
      if b = closeBrace then some ([],rest)
      else if first || b == comma then
        match if first then bytes else rest with
        | [] => none
        | start :: body =>
          if start = quote then do
            let (key,tail) ← readString body
            match tail with
            | [] => none
            | separator :: tail =>
              if separator = colon then do
                let (value,tail) ← readDoc fuel tail
                let (members,after) ← readMembers fuel false tail
                return ((key,value) :: members,after)
              else none
          else none
      else none
end

theorem hex_roundtrip {n : Nat} (small : n < 16) : hexValue (hexDigit n) = n := by
  interval_cases n <;> decide

theorem byte_roundtrip (b : UInt8) {s after tail : Bytes} (read : readString tail = some (s,after)) :
    readString (writeByte b ++ tail) = some (b :: s,after) := by
  unfold writeByte
  split
  · have high : hexValue (hexDigit (b.toNat / 16)) = b.toNat / 16 :=
      hex_roundtrip (by have := b.toNat_lt; omega)
    have low : hexValue (hexDigit (b.toNat % 16)) = b.toNat % 16 := hex_roundtrip (by omega)
    have value : UInt8.ofNat (b.toNat / 16 * 16 + b.toNat % 16) = b := by
      rw [Nat.div_add_mod']
      exact UInt8.ofNat_toNat
    have shape : text "\\u00" = [backslash,117,48,48] := by decide
    simp only [shape,List.cons_append,List.nil_append]
    rw [readString.eq_def]
    simp only [if_neg (show ¬backslash = quote by decide),if_true,read,high,low,value]
    rfl
  · rename_i plain
    simp only [escaped,Bool.not_eq_true,Bool.or_eq_false_iff,beq_eq_false_iff_ne] at plain
    rw [List.singleton_append,readString.eq_def]
    simp only [if_neg plain.1.2,if_neg plain.2,read]
    rfl

theorem string_roundtrip (s suffix : Bytes) :
    readString (s.flatMap writeByte ++ quote :: suffix) = some (s,suffix) := by
  induction s with
  | nil =>
    rw [List.flatMap_nil,List.nil_append,readString.eq_def]
    simp
  | cons b rest ih =>
    rw [List.flatMap_cons,List.append_assoc]
    exact byte_roundtrip b ih

-- What may follow a document inside a larger text: numerals end there.
def Delimited (suffix : Bytes) : Prop :=
  ∀ b ∈ suffix.head?, b = comma ∨ b = closeBracket ∨ b = closeBrace

theorem number_roundtrip (n : Nat) {suffix : Bytes} (ended : ∀ b ∈ suffix.head?, digit b = false) :
    readNumber (digits n ++ suffix) = some (n,suffix) := by
  have shape := digits_text n
  simp only [plusText,Bool.and_eq_true,List.all_eq_true,Bool.not_eq_true',List.isEmpty_eq_false_iff] at shape
  have stop : suffix.takeWhile digit = [] ∧ suffix.dropWhile digit = suffix := by
    cases suffix with
    | nil => exact ⟨rfl,rfl⟩
    | cons b rest =>
      have last := ended b (by simp)
      simp [last]
  have taken : (digits n ++ suffix).takeWhile digit = digits n := by
    rw [List.takeWhile_append_of_pos shape.2,stop.1,List.append_nil]
  have dropped : (digits n ++ suffix).dropWhile digit = suffix := by
    rw [List.dropWhile_append_of_pos shape.2,stop.2]
  simp [readNumber,taken,dropped,shape.1,decimal_digits]

theorem Delimited.ended {suffix : Bytes} (delimited : Delimited suffix) : ∀ b ∈ suffix.head?, digit b = false := by
  intro b first
  rcases delimited b first with same | same | same <;> subst same <;> decide

theorem unsigned_roundtrip (n : Nat) {suffix : Bytes} (delimited : Delimited suffix) :
    readUnsigned (digits n ++ suffix) = some (.uint n,suffix) := by
  simp only [readUnsigned,number_roundtrip n delimited.ended,Option.bind_eq_bind,Option.bind_some]
  split
  · rename_i point zero tail
    have other : point ≠ dot := by
      rcases delimited point (by simp) with same | same | same <;> subst same <;> decide
    rw [if_neg other]
  · rfl

theorem real_roundtrip (f : Float64) (suffix : Bytes) :
    readUnsigned (digits f.bits.toNat ++ (text ".0" ++ suffix)) = some (.real f,suffix) := by
  have shape : text ".0" = [dot,48] := by decide
  have ended : ∀ b ∈ (text ".0" ++ suffix).head?, digit b = false := by
    intro b first
    rw [shape] at first
    cases first
    decide
  simp only [readUnsigned,number_roundtrip _ ended,Option.bind_eq_bind,Option.bind_some]
  simp [shape]

theorem digits_head (n : Nat) : ∃ b rest, digits n = b :: rest ∧ digit b = true := by
  have shape := digits_text n
  cases found : digits n with
  | nil => simp [found,plusText] at shape
  | cons b rest =>
    simp only [found,plusText,List.all_cons,Bool.and_eq_true] at shape
    exact ⟨b,rest,rfl,shape.2.1⟩

-- A numeral is told from the other forms by its first byte.
theorem numeral_first {b : UInt8} (numeral : digit b = true) (rest : Bytes) (fuel : Nat)
    {result : Doc × Bytes} (read : readUnsigned (b :: rest) = some result) :
    readDoc (fuel+1) (b :: rest) = some result := by
  have apart : b ≠ quote ∧ b ≠ openBracket ∧ b ≠ openBrace ∧ b ≠ minus := by
    refine ⟨?_,?_,?_,?_⟩ <;> (intro same; subst same; revert numeral; decide)
  rw [readDoc.eq_def]
  simp only [if_neg apart.1,if_neg apart.2.1,if_neg apart.2.2.1,if_neg apart.2.2.2,read]
  rfl

theorem digits_read (n : Nat) (suffix : Bytes) (fuel : Nat) {result : Doc × Bytes}
    (read : readUnsigned (digits n ++ suffix) = some result) :
    readDoc (fuel+1) (digits n ++ suffix) = some result := by
  obtain ⟨b,rest,shape,numeral⟩ := digits_head n
  rw [shape,List.cons_append] at read ⊢
  exact numeral_first numeral _ fuel read

theorem writeDoc_head (d : Doc) : ∃ b rest, writeDoc d = b :: rest ∧ b ≠ closeBracket := by
  have numeral : ∀ n tail, ∃ b rest, digits n ++ tail = b :: rest ∧ b ≠ closeBracket := by
    intro n tail
    obtain ⟨b,rest,shape,first⟩ := digits_head n
    refine ⟨b,rest ++ tail,by rw [shape]; rfl,?_⟩
    intro same
    subst same
    revert first
    decide
  cases d with
  | null => exact ⟨_,_,rfl,by decide⟩
  | boolean b => cases b <;> exact ⟨_,_,rfl,by decide⟩
  | sint i =>
    simp only [writeDoc]
    split
    · simpa using numeral i.toNat []
    · exact ⟨_,_,rfl,by decide⟩
  | uint n => simpa [writeDoc] using numeral n []
  | real f => exact numeral f.bits.toNat _
  | string s => exact ⟨_,_,rfl,by decide⟩
  | array items => exact ⟨_,_,rfl,by decide⟩
  | object members => exact ⟨_,_,rfl,by decide⟩

mutual
def docCost : Doc → Nat
  | .array items => 1 + itemsCost items
  | .object members => 1 + membersCost members
  | _ => 1
def itemsCost : List Doc → Nat
  | [] => 1
  | item :: rest => 1 + max (docCost item) (itemsCost rest)
def membersCost : List (Bytes × Doc) → Nat
  | [] => 1
  | (_,value) :: rest => 1 + max (docCost value) (membersCost rest)
end

theorem writeDoc_length (d : Doc) : 1 ≤ (writeDoc d).length := by
  obtain ⟨b,rest,shape,_⟩ := writeDoc_head d
  rw [shape]
  simp

theorem writeItems_length (first : Bool) (items : List Doc) : 1 ≤ (writeItems first items).length := by
  induction items generalizing first with
  | nil => simp [writeItems]
  | cons item rest ih =>
    have later := ih false
    simp only [writeItems,List.length_append]
    omega

-- Every level of a document costs at least one byte of its text.
mutual
theorem docCost_le : (d : Doc) → docCost d ≤ (writeDoc d).length
  | .array items => by
    have inner := itemsCost_le true items
    simp only [docCost,writeDoc,List.length_cons]
    omega
  | .object members => by
    have inner := membersCost_le true members
    simp only [docCost,writeDoc,List.length_cons]
    omega
  | .null => writeDoc_length .null
  | .boolean b => writeDoc_length (.boolean b)
  | .sint i => writeDoc_length (.sint i)
  | .uint n => writeDoc_length (.uint n)
  | .real f => writeDoc_length (.real f)
  | .string s => writeDoc_length (.string s)
theorem itemsCost_le (first : Bool) : (items : List Doc) → itemsCost items ≤ (writeItems first items).length
  | [] => by simp [itemsCost,writeItems]
  | item :: rest => by
    have head := docCost_le item
    have tail := itemsCost_le false rest
    have some := writeItems_length false rest
    have length := writeDoc_length item
    simp only [itemsCost,writeItems,List.length_append]
    omega
theorem membersCost_le (first : Bool) :
    (members : List (Bytes × Doc)) → membersCost members ≤ (writeMembers first members).length
  | [] => by simp [membersCost,writeMembers]
  | (key,value) :: rest => by
    have head := docCost_le value
    have tail := membersCost_le false rest
    simp only [membersCost,writeMembers,List.length_append,List.length_cons]
    omega
end

theorem readItems_end (fuel : Nat) (first : Bool) (suffix : Bytes) :
    readItems (fuel+1) first (closeBracket :: suffix) = some ([],suffix) := by
  rw [readItems.eq_def]
  simp

theorem readMembers_end (fuel : Nat) (first : Bool) (suffix : Bytes) :
    readMembers (fuel+1) first (closeBrace :: suffix) = some ([],suffix) := by
  rw [readMembers.eq_def]
  simp

theorem readItems_item {fuel : Nat} {first : Bool} {text tail after : Bytes} {item : Doc} {items : List Doc}
    (head : ∃ b rest, text = b :: rest ∧ b ≠ closeBracket)
    (read : readDoc fuel text = some (item,tail)) (others : readItems fuel false tail = some (items,after)) :
    readItems (fuel+1) first ((if first then [] else [comma]) ++ text) = some (item :: items,after) := by
  obtain ⟨b,rest,rfl,other⟩ := head
  rw [readItems.eq_def]
  cases first with
  | true => simp [other,read,others]
  | false => simp [show ¬comma = closeBracket by decide,read,others]

theorem readMembers_member {fuel : Nat} {first : Bool} {key body tail after : Bytes} {value : Doc}
    {members : List (Bytes × Doc)} (read : readDoc fuel body = some (value,tail))
    (others : readMembers fuel false tail = some (members,after)) :
    readMembers (fuel+1) first ((if first then [] else [comma]) ++ (writeString key ++ colon :: body)) =
      some ((key,value) :: members,after) := by
  have name := string_roundtrip key (colon :: body)
  rw [readMembers.eq_def]
  cases first with
  | true => simp [writeString,show ¬quote = closeBrace by decide,name,read,others]
  | false => simp [writeString,show ¬comma = closeBrace by decide,name,read,others]

theorem roundtrips (fuel : Nat) :
    (∀ d suffix, docCost d ≤ fuel → Delimited suffix →
      readDoc fuel (writeDoc d ++ suffix) = some (d.canonical,suffix)) ∧
    (∀ first items suffix, itemsCost items ≤ fuel →
      readItems fuel first (writeItems first items ++ suffix) = some (canonicalItems items,suffix)) ∧
    (∀ first members suffix, membersCost members ≤ fuel →
      readMembers fuel first (writeMembers first members ++ suffix) = some (canonicalMembers members,suffix)) := by
  induction fuel with
  | zero =>
    refine ⟨?_,?_,?_⟩
    · intro d suffix fits
      cases d <;> simp [docCost] at fits
    · intro first items suffix fits
      cases items <;> simp [itemsCost] at fits
    · intro first members suffix fits
      cases members <;> simp [membersCost] at fits
  | succ fuel ih =>
    obtain ⟨single,many,named⟩ := ih
    refine ⟨?_,?_,?_⟩
    · intro d suffix fits delimited
      cases d with
      | null => rw [readDoc.eq_def]; rfl
      | boolean b => cases b <;> (rw [readDoc.eq_def]; rfl)
      | sint i =>
        simp only [writeDoc,Doc.canonical]
        split
        · exact digits_read _ _ fuel (unsigned_roundtrip _ delimited)
        · rename_i negative
          have value : -(i.natAbs : Int) = i := by omega
          have read := number_roundtrip i.natAbs delimited.ended
          rw [List.cons_append,readDoc.eq_def]
          simp only [if_neg (show ¬minus = quote by decide),if_neg (show ¬minus = openBracket by decide),
            if_neg (show ¬minus = openBrace by decide),if_true,read,Option.bind_eq_bind,Option.bind_some,value]
          rfl
      | uint n => exact digits_read _ _ fuel (unsigned_roundtrip _ delimited)
      | real f =>
        simp only [writeDoc,List.append_assoc]
        exact digits_read _ _ fuel (real_roundtrip f suffix)
      | string s =>
        have read := string_roundtrip s suffix
        simp only [writeDoc,writeString,List.cons_append,List.append_assoc,List.nil_append]
        rw [readDoc.eq_def]
        simp only [if_true,read]
        rfl
      | array items =>
        have read := many true items suffix (by simp only [docCost] at fits; omega)
        simp only [writeDoc,List.cons_append]
        rw [readDoc.eq_def]
        simp only [if_neg (show ¬openBracket = quote by decide),if_true,read]
        rfl
      | object members =>
        have read := named true members suffix (by simp only [docCost] at fits; omega)
        simp only [writeDoc,List.cons_append]
        rw [readDoc.eq_def]
        simp only [if_neg (show ¬openBrace = quote by decide),if_neg (show ¬openBrace = openBracket by decide),
          if_true,read]
        rfl
    · intro first items suffix fits
      cases items with
      | nil => exact readItems_end fuel first suffix
      | cons item rest =>
        have itemBound : docCost item ≤ fuel := by simp only [itemsCost] at fits; omega
        have restBound : itemsCost rest ≤ fuel := by simp only [itemsCost] at fits; omega
        have others := many false rest suffix restBound
        have delimited : Delimited (writeItems false rest ++ suffix) := by
          intro b start
          cases rest <;> simp [writeItems] at start <;> simp [← start]
        have read := single item (writeItems false rest ++ suffix) itemBound delimited
        obtain ⟨b,tail,shape,other⟩ := writeDoc_head item
        simp only [writeItems,List.append_assoc]
        exact readItems_item ⟨b,tail ++ (writeItems false rest ++ suffix),by rw [shape]; rfl,other⟩ read others
    · intro first members suffix fits
      cases members with
      | nil => exact readMembers_end fuel first suffix
      | cons member rest =>
        obtain ⟨key,value⟩ := member
        have valueBound : docCost value ≤ fuel := by simp only [membersCost] at fits; omega
        have restBound : membersCost rest ≤ fuel := by simp only [membersCost] at fits; omega
        have others := named false rest suffix restBound
        have delimited : Delimited (writeMembers false rest ++ suffix) := by
          intro b start
          cases rest <;> simp [writeMembers] at start <;> simp [← start]
        have read := single value (writeMembers false rest ++ suffix) valueBound delimited
        simp only [writeMembers,List.append_assoc,List.cons_append]
        exact readMembers_member read others

def write (d : Doc) : Except Bytes Bytes :=
  if d.writable then .ok (writeDoc d) else .error (text "invalid utf-8 encoding in string")

def read (source : Bytes) : Except (Nat × Bytes) Doc :=
  match readDoc (source.length + 1) source with
  | some (d,[]) => .ok d
  | some (_,tail) => .error (source.length - tail.length,text "unexpected content after document")
  | none => .error (0,text "unexpected character")

def reference : Yyjson where
  write := write
  read := read
  read_write := by
    intro d ok
    have fits := docCost_le d
    have found := (roundtrips ((writeDoc d).length + 1)).1 d [] (by omega) (by intro b first; cases first)
    rw [List.append_nil] at found
    refine ⟨writeDoc d,by simp [write,ok],?_⟩
    simp [read,found]
  write_refuses := by
    intro d bad
    exact ⟨_,by simp [write,bad]; rfl⟩

end Hypringo.JsonText

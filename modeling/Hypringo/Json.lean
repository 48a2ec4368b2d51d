import Hypringo.Lua.Heap
import Hypringo.Lua.Numeral
import Hypringo.Lua.Raise

namespace Hypringo.Json
open Hypringo.Lua

def maxDepth : Nat := 256

-- yyjson's document model: what its writer is given and its reader returns.
inductive Doc where
  | null
  | boolean (b : Bool)
  | sint (i : Int)
  | uint (n : Nat)
  | real (f : Float64)
  | string (s : Bytes)
  | array (items : List Doc)
  | object (members : List (Bytes × Doc))

-- RFC 3629: `owed` continuation bytes are still due, the next one of them
-- within `low` and `high`.
def utf8 (owed low high : Nat) : Bytes → Bool
  | [] => owed == 0
  | b :: rest =>
    let n := b.toNat
    if owed = 0 then
      if n ≤ 0x7F then utf8 0 0x80 0xBF rest
      else if 0xC2 ≤ n ∧ n ≤ 0xDF then utf8 1 0x80 0xBF rest
      else if n = 0xE0 then utf8 2 0xA0 0xBF rest
      else if n = 0xED then utf8 2 0x80 0x9F rest
      else if 0xE1 ≤ n ∧ n ≤ 0xEF then utf8 2 0x80 0xBF rest
      else if n = 0xF0 then utf8 3 0x90 0xBF rest
      else if 0xF1 ≤ n ∧ n ≤ 0xF3 then utf8 3 0x80 0xBF rest
      else if n = 0xF4 then utf8 3 0x80 0x8F rest
      else false
    else if low ≤ n ∧ n ≤ high then utf8 (owed - 1) 0x80 0xBF rest
    else false

def validUtf8 (s : Bytes) : Bool := utf8 0 0x80 0xBF s

mutual
def Doc.writable : Doc → Bool
  | .null | .boolean _ => true
  | .sint i => decide (-2^63 ≤ i ∧ i < 2^63)
  | .uint n => decide (n < 2^64)
  | .real f => f.finite
  | .string s => validUtf8 s
  | .array items => writableItems items
  | .object members => writableMembers members
def writableItems : List Doc → Bool
  | [] => true
  | item :: rest => item.writable && writableItems rest
def writableMembers : List (Bytes × Doc) → Bool
  | [] => true
  | (key,value) :: rest => validUtf8 key && value.writable && writableMembers rest
end

-- Text carries no integer subtype: the reader takes a numeral without a minus
-- for unsigned.
mutual
def Doc.canonical : Doc → Doc
  | .sint i => if 0 ≤ i then .uint i.toNat else .sint i
  | .array items => .array (canonicalItems items)
  | .object members => .object (canonicalMembers members)
  | d => d
def canonicalItems : List Doc → List Doc
  | [] => []
  | item :: rest => item.canonical :: canonicalItems rest
def canonicalMembers : List (Bytes × Doc) → List (Bytes × Doc)
  | [] => []
  | (key,value) :: rest => (key,value.canonical) :: canonicalMembers rest
end

-- The vendored library is not part of the tree. The laws are its documented
-- behaviour: the writer refuses what is not JSON (invalid UTF-8, a number that
-- is not finite), and the reader inverts the writer.
structure Yyjson where
  write : Doc → Except Bytes Bytes
  read : Bytes → Except (Nat × Bytes) Doc
  read_write : ∀ d, d.writable = true → ∃ s, write d = .ok s ∧ read s = .ok d.canonical
  write_refuses : ∀ d, d.writable = false → ∃ message, write d = .error message

def memcmp : Bytes → Bytes → Ordering
  | a :: left,b :: right => (compare a.toNat b.toNat).then (memcmp left right)
  | _,_ => .eq

def compareObjectKeys (left right : Bytes) : Ordering :=
  let shared := min left.length right.length
  (memcmp (left.take shared) (right.take shared)).then (compare left.length right.length)

inductive Shape where
  | array (length : Nat)
  | object (count : Nat)
  deriving DecidableEq, Repr

def positiveKey : Value → Bool
  | .integer i => decide (1 ≤ i.toInt)
  | _ => false

def largerKey (maximum : Nat) : Value → Nat
  | .integer i => if 1 ≤ i.toInt ∧ maximum < i.toInt.toNat then i.toInt.toNat else maximum
  | _ => maximum

def tableShape (t : Table) : Except Bytes Shape :=
  let count := t.entries.length
  let maximum := t.entries.foldl (fun maximum entry => largerKey maximum entry.1) 0
  let dense := t.entries.all (fun entry => positiveKey entry.1) && count == maximum
  if t.marked && !dense then .error (text "JSON arrays must use dense integer keys starting at 1")
  else if t.marked || (decide (0 < count) && dense) then .ok (.array maximum)
  else .ok (.object count)

def objectKey (entry : Value × Value) : Except Bytes Bytes :=
  match entry.1 with
  | .string s => .ok s
  | _ => .error (text "JSON object keys must be strings")

def collectObjectKeys (t : Table) : Except Bytes (List Bytes) := do
  let keys ← t.entries.mapM objectKey
  return keys.insertionSort (fun left right => compareObjectKeys left right ≠ .gt)

def arrayKey (index : Nat) : Value := .integer (Int64.ofInt (index + 1))

def encodeArray (t : Table) (length : Nat) (child : Value → Except Bytes Doc) : Except Bytes Doc := do
  let items ← (List.range length).mapM (fun index => child (t.get (arrayKey index)))
  return .array items

def encodeMember (t : Table) (child : Value → Except Bytes Doc) (key : Bytes) : Except Bytes (Bytes × Doc) := do
  let value ← child (t.get (.string key))
  return (key,value)

def encodeObject (t : Table) (child : Value → Except Bytes Doc) : Except Bytes Doc := do
  let keys ← collectObjectKeys t
  let members ← keys.mapM (encodeMember t child)
  return .object members

def encodeTable (t : Table) (child : Value → Except Bytes Doc) : Except Bytes Doc := do
  match ← tableShape t with
  | .array length => encodeArray t length child
  | .object _ => encodeObject t child

-- `room` is HYPRINGO_JSON_MAX_DEPTH - depth: the limit is met by tables only.
-- `visiting` holds the tables on the path, entered and left around each one.
def encodeValue (h : Heap) (room : Nat) (visiting : List Address) (v : Value) : Except Bytes Doc :=
  match v with
  | .nil => .ok .null
  | .boolean b => .ok (.boolean b)
  | .integer i => .ok (.sint i.toInt)
  | .float f => if f.finite then .ok (.real f) else .error (text "cannot encode a non-finite number")
  | .string s => .ok (.string s)
  | .table a =>
    if a = h.null then .ok .null
    else match room with
      | 0 => .error (text "JSON nesting exceeds 256 levels")
      | room+1 =>
        if a ∈ visiting then .error (text "cannot encode a circular table")
        else encodeTable (h.table a) (encodeValue h room (a :: visiting))
  | .other kind identity => .error (text "cannot encode " ++ (Value.other kind identity).typeName)

def encode (y : Yyjson) (h : Heap) (v : Value) : Except Bytes Bytes := do
  let root ← encodeValue h maxDepth [] v
  match y.write root with
  | .ok encoded => return encoded
  | .error message => .error (text "cannot encode JSON: " ++ message)

-- What decode builds: fresh tables, so a tree. An `array` is a table marked by
-- mark_array; an object's members are kept in key order, as a Lua table has none.
inductive Tree where
  | null
  | boolean (b : Bool)
  | integer (i : Int64)
  | float (f : Float64)
  | string (s : Bytes)
  | array (items : List Tree)
  | object (members : List (Bytes × Tree))

-- lua_rawset: a later duplicate of a key replaces the earlier value.
def setMember (key : Bytes) (value : Tree) : List (Bytes × Tree) → List (Bytes × Tree)
  | [] => [(key,value)]
  | head :: rest => match compareObjectKeys key head.1 with
    | .lt => (key,value) :: head :: rest
    | .eq => (key,value) :: rest
    | .gt => head :: setMember key value rest

def decodeMember (child : Doc → Except Bytes Tree) (member : Bytes × Doc) : Except Bytes (Bytes × Tree) := do
  let value ← child member.2
  return (member.1,value)

-- Here the limit is met by every value, tables and scalars alike.
def decodeValue : Nat → Doc → Except Bytes Tree
  | 0,_ => .error (text "JSON nesting exceeds 256 levels")
  | _+1,.null => .ok .null
  | _+1,.boolean b => .ok (.boolean b)
  | _+1,.sint i => .ok (.integer (Int64.ofInt i))
  | _+1,.uint n => if n ≤ 2^63 - 1 then .ok (.integer (Int64.ofInt n)) else .ok (.float (Numeral.nearest false n))
  | _+1,.real f => .ok (.float f)
  | _+1,.string s => .ok (.string s)
  | room+1,.array items => do
    let items ← items.mapM (decodeValue room)
    return .array items
  | room+1,.object members => do
    let members ← members.mapM (decodeMember (decodeValue room))
    return .object (members.foldl (fun held member => setMember member.1 member.2 held) [])

def decode (y : Yyjson) (source : Bytes) : Except Bytes Tree :=
  match y.read source with
  | .ok doc => decodeValue maxDepth doc
  | .error (position,message) =>
    .error (text "invalid JSON at byte " ++ text (toString (position + 1)) ++ text ": " ++ message)

theorem memcmp_cons (a b : UInt8) (left right : Bytes) :
    memcmp (a :: left) (b :: right) = (compare a.toNat b.toNat).then (memcmp left right) := rfl

theorem compareObjectKeys_cons (a b : UInt8) (left right : Bytes) :
    compareObjectKeys (a :: left) (b :: right) = (compare a.toNat b.toNat).then (compareObjectKeys left right) := by
  have lengths : compare (left.length + 1) (right.length + 1) = compare left.length right.length := by
    simp only [compare,compareOfLessAndEq,Nat.add_lt_add_iff_right,Nat.add_right_cancel_iff]
  simp only [compareObjectKeys,List.length_cons,Nat.add_min_add_right,List.take_succ_cons,memcmp_cons,lengths]
  cases compare a.toNat b.toNat <;> rfl

-- The comparison qsort is given is the lexicographic order on the bytes.
def ordinal (key : Bytes) : List Nat := key.map UInt8.toNat

theorem ordinal_injective {left right : Bytes} (same : ordinal left = ordinal right) : left = right :=
  List.map_injective_iff.mpr (fun _ _ equal => UInt8.toNat_inj.mp equal) same

theorem compareObjectKeys_compares (left right : Bytes) :
    (compareObjectKeys left right).Compares (ordinal left) (ordinal right) := by
  induction left generalizing right with
  | nil =>
    cases right with
    | nil => rfl
    | cons b right => exact List.nil_lt_cons b.toNat (ordinal right)
  | cons a left ih =>
    cases right with
    | nil => exact List.nil_lt_cons a.toNat (ordinal left)
    | cons b right =>
      rw [compareObjectKeys_cons]
      rcases lt_trichotomy a.toNat b.toNat with less | same | greater
      · rw [compare_lt_iff_lt.mpr less]
        exact List.cons_lt_cons_iff.mpr (.inl less)
      · rw [compare_eq_iff_eq.mpr same]
        have rest := ih right
        change (compareObjectKeys left right).Compares _ _
        cases order : compareObjectKeys left right with
        | lt => rw [order] at rest; exact List.cons_lt_cons_iff.mpr (.inr ⟨same,rest⟩)
        | eq => rw [order] at rest; exact congrArg₂ List.cons same rest
        | gt => rw [order] at rest; exact List.cons_lt_cons_iff.mpr (.inr ⟨same.symm,rest⟩)
      · rw [compare_gt_iff_gt.mpr greater]
        exact List.cons_lt_cons_iff.mpr (.inl greater)

theorem setMember_last {key : Bytes} {value : Tree} {held : List (Bytes × Tree)}
    (below : ∀ member ∈ held, ordinal member.1 < ordinal key) : setMember key value held = held ++ [(key,value)] := by
  induction held with
  | nil => rfl
  | cons head rest ih =>
    have after : compareObjectKeys key head.1 = .gt :=
      (compareObjectKeys_compares key head.1).eq_gt.mpr (below head (by simp))
    have others := ih (fun member inside => below member (by simp [inside]))
    simp [setMember,after,others]

-- Members that arrive in increasing key order are kept as they come.
theorem setMember_sorted {held members : List (Bytes × Tree)}
    (sorted : (held ++ members).Pairwise (fun left right => ordinal left.1 < ordinal right.1)) :
    members.foldl (fun held member => setMember member.1 member.2 held) held = held ++ members := by
  induction members generalizing held with
  | nil => simp
  | cons member members ih =>
    have parts := List.pairwise_append.mp sorted
    have placed : setMember member.1 member.2 held = held ++ [member] :=
      setMember_last (fun other inside => parts.2.2 other inside member (by simp))
    rw [List.foldl_cons,placed,ih (by simpa using sorted)]
    simp

theorem canonicalItems_eq (items : List Doc) : canonicalItems items = items.map Doc.canonical := by
  induction items with
  | nil => rfl
  | cons item rest ih => rw [canonicalItems,ih]; rfl

theorem canonicalMembers_eq (members : List (Bytes × Doc)) :
    canonicalMembers members = members.map (fun member => (member.1,member.2.canonical)) := by
  induction members with
  | nil => rfl
  | cons member rest ih => rw [canonicalMembers,ih]; rfl

-- Keys exactly 1..length: the density the shape test is after.
structure Dense (t : Table) (length : Nat) : Prop where
  bound : length < 2^63
  keys : ∀ key, t.get key ≠ .nil ↔ ∃ index < length, key = arrayKey index

theorem arrayKey_toInt {index : Nat} (bound : index + 1 < 2^63) :
    (Int64.ofInt (index + 1)).toInt = index + 1 :=
  Int64.toInt_ofInt_of_le (by omega) (by omega)

theorem arrayKey_injective {left right : Nat} (leftBound : left + 1 < 2^63) (rightBound : right + 1 < 2^63)
    (same : arrayKey left = arrayKey right) : left = right := by
  have integers : Int64.ofInt (left + 1) = Int64.ofInt (right + 1) := by simpa [arrayKey] using same
  have values := congrArg Int64.toInt integers
  rw [arrayKey_toInt leftBound,arrayKey_toInt rightBound] at values
  omega

theorem positiveKey_arrayKey {key : Value} (positive : positiveKey key = true) :
    ∃ index, key = arrayKey index ∧ index + 1 < 2^63 ∧ ∀ maximum, largerKey maximum key = max maximum (index + 1) := by
  cases key with
  | integer i =>
    have low : 1 ≤ i.toInt := by simpa [positiveKey] using positive
    have high := i.toInt_lt
    refine ⟨i.toInt.toNat - 1,?_,by omega,?_⟩
    · have value : ((i.toInt.toNat - 1 : Nat) : Int) + 1 = i.toInt := by omega
      rw [arrayKey,value,Int64.ofInt_toInt]
    · intro maximum
      simp only [largerKey,low,true_and]
      split <;> omega
  | _ => simp [positiveKey] at positive

theorem largest_bounds {entries : List (Value × Value)} (positive : ∀ entry ∈ entries, positiveKey entry.1 = true)
    (start : Nat) (startBound : start < 2^63) :
    let maximum := entries.foldl (fun maximum entry => largerKey maximum entry.1) start
    start ≤ maximum ∧ maximum < 2^63 ∧ ∀ entry ∈ entries, ∃ index < maximum, entry.1 = arrayKey index := by
  induction entries generalizing start with
  | nil => exact ⟨Nat.le_refl _,startBound,by simp⟩
  | cons head rest ih =>
    obtain ⟨index,isKey,indexBound,larger⟩ := positiveKey_arrayKey (positive head (by simp))
    have next : max start (index + 1) < 2^63 := by omega
    have later := ih (fun entry member => positive entry (by simp [member])) _ next
    simp only [List.foldl_cons,larger]
    obtain ⟨above,below,inside⟩ := later
    refine ⟨by omega,below,?_⟩
    intro entry member
    rcases List.mem_cons.mp member with same | older
    · subst same
      exact ⟨index,by omega,isKey⟩
    · exact inside entry older

-- As many distinct keys as the largest of them leaves no gap.
theorem dense_of_shape {t : Table} (positive : ∀ entry ∈ t.entries, positiveKey entry.1 = true)
    (full : t.entries.length = t.entries.foldl (fun maximum entry => largerKey maximum entry.1) 0) :
    Dense t t.entries.length := by
  obtain ⟨_,below,inside⟩ := largest_bounds positive 0 (by decide)
  rw [← full] at below inside
  have covered : t.entries.map Prod.fst ⊆ (List.range t.entries.length).map arrayKey := by
    intro key member
    obtain ⟨entry,present,rfl⟩ := List.mem_map.mp member
    obtain ⟨index,bound,same⟩ := inside entry present
    exact List.mem_map.mpr ⟨index,List.mem_range.mpr bound,same.symm⟩
  have permuted := (List.subperm_of_subset t.distinct covered).perm_of_length_le (by simp)
  refine ⟨below,?_⟩
  intro key
  rw [Table.get_ne_nil_iff,permuted.mem_iff,List.mem_map]
  constructor
  · intro found
    obtain ⟨index,member,same⟩ := found
    exact ⟨index,List.mem_range.mp member,same.symm⟩
  · intro found
    obtain ⟨index,bound,same⟩ := found
    exact ⟨index,List.mem_range.mpr bound,same.symm⟩

theorem tableShape_array {t : Table} {length : Nat} (shape : tableShape t = .ok (.array length)) :
    Dense t length ∧ (t.marked = true ∨ 0 < length) := by
  simp only [tableShape] at shape
  generalize large : t.entries.foldl (fun maximum entry => largerKey maximum entry.1) 0 = maximum at shape
  cases dense : t.entries.all (fun entry => positiveKey entry.1) && t.entries.length == maximum with
  | false =>
    cases marked : t.marked <;> simp [dense,marked] at shape
  | true =>
    have parts : (∀ entry ∈ t.entries, positiveKey entry.1 = true) ∧ t.entries.length = maximum := by
      simpa only [Bool.and_eq_true,List.all_eq_true,beq_iff_eq] using dense
    have filled : Dense t maximum := by
      rw [← parts.2]
      exact dense_of_shape parts.1 (parts.2.trans large.symm)
    cases marked : t.marked with
    | true =>
      simp only [dense,marked,Bool.not_true,Bool.and_false,Bool.false_eq_true,if_false,Bool.true_or,if_true] at shape
      injection shape with shape
      injection shape with shape
      exact ⟨shape ▸ filled,.inl rfl⟩
    | false =>
      by_cases some : 0 < t.entries.length
      · simp only [dense,marked,some,Bool.not_true,Bool.and_false,Bool.false_eq_true,if_false,decide_true,
          Bool.and_true,Bool.or_true,if_true] at shape
        injection shape with shape
        injection shape with shape
        exact ⟨shape ▸ filled,.inr (by omega)⟩
      · simp [dense,marked,some] at shape

theorem tableShape_object {t : Table} {count : Nat} (shape : tableShape t = .ok (.object count)) :
    t.marked = false := by
  simp only [tableShape] at shape
  split at shape
  · cases shape
  · split at shape
    · cases shape
    · rename_i classed
      cases marked : t.marked with
      | true => simp [marked] at classed
      | false => rfl

theorem objectKey_ok {entry : Value × Value} {key : Bytes} (taken : objectKey entry = .ok key) :
    entry.1 = .string key := by
  unfold objectKey at taken
  split at taken
  · rename_i s stored
    injection taken with taken
    rw [stored,taken]
  · cases taken

theorem stringKeys {entries : List (Value × Value)} {keys : List Bytes} (taken : entries.mapM objectKey = .ok keys) :
    entries.map Prod.fst = keys.map Value.string := by
  have all := Raise.mapM_ok.mp taken
  clear taken
  induction all with
  | nil => rfl
  | cons first _ ih => simp [objectKey_ok first,ih]

theorem keyOrder_iff (left right : Bytes) :
    compareObjectKeys left right ≠ .gt ↔ ordinal left ≤ ordinal right := by
  rw [Ne,(compareObjectKeys_compares left right).eq_gt,not_lt]

theorem collectObjectKeys_ok {t : Table} {keys : List Bytes} (collected : collectObjectKeys t = .ok keys) :
    keys.Pairwise (fun left right => ordinal left < ordinal right) ∧
      ∀ key, t.get key ≠ .nil ↔ ∃ name ∈ keys, key = .string name := by
  obtain ⟨taken,stored,sorted⟩ := Raise.bind_ok.mp collected
  injection sorted with sorted
  have names := stringKeys stored
  have permuted : keys.Perm taken := sorted ▸ List.perm_insertionSort _ taken
  have ordered : keys.Pairwise (fun left right => compareObjectKeys left right ≠ .gt) := by
    have total : Std.Total (fun left right : Bytes => compareObjectKeys left right ≠ .gt) := by
      constructor
      intro left right
      rw [keyOrder_iff,keyOrder_iff]
      exact le_total _ _
    have transitive : IsTrans Bytes (fun left right => compareObjectKeys left right ≠ .gt) := by
      constructor
      intro left middle right
      rw [keyOrder_iff,keyOrder_iff,keyOrder_iff]
      exact le_trans
    exact sorted ▸ List.pairwise_insertionSort _ taken
  have unique : keys.Nodup := by
    rw [permuted.nodup_iff]
    have distinct := t.distinct
    rw [names] at distinct
    exact List.Nodup.of_map _ distinct
  constructor
  · apply (ordered.and unique).imp
    intro left right both
    exact lt_of_le_of_ne ((keyOrder_iff left right).mp both.1) (fun same => both.2 (ordinal_injective same))
  · intro key
    rw [Table.get_ne_nil_iff,names,List.mem_map]
    constructor
    · intro found
      obtain ⟨name,member,same⟩ := found
      exact ⟨name,permuted.mem_iff.mpr member,same.symm⟩
    · intro found
      obtain ⟨name,member,same⟩ := found
      exact ⟨name,permuted.mem_iff.mp member,same.symm⟩

theorem encodeMember_ok {t : Table} {child : Value → Except Bytes Doc} {key : Bytes} {result : Bytes × Doc} :
    encodeMember t child key = .ok result ↔ result.1 = key ∧ child (t.get (.string key)) = .ok result.2 := by
  unfold encodeMember
  rw [Raise.bind_ok]
  constructor
  · intro found
    obtain ⟨value,read,last⟩ := found
    cases last
    exact ⟨rfl,read⟩
  · intro found
    obtain ⟨name,value⟩ := result
    obtain ⟨same,read⟩ := found
    subst same
    exact ⟨value,read,rfl⟩

theorem map_eq_of_forall₂ {f : α → γ} {g : β → γ} {xs : List α} {ys : List β}
    (all : List.Forall₂ (fun x y => g y = f x) xs ys) : ys.map g = xs.map f := by
  induction all with
  | nil => rfl
  | cons first _ ih => simp [first,ih]


-- What a table is written as, read off from its document.
inductive Written (t : Table) (child : Value → Except Bytes Doc) : Doc → Prop
  | array (items : List Doc) (dense : Dense t items.length) (classed : t.marked = true ∨ 0 < items.length)
      (each : ∀ index item, items[index]? = some item → child (t.get (arrayKey index)) = .ok item) :
      Written t child (.array items)
  | object (members : List (Bytes × Doc)) (plain : t.marked = false)
      (sorted : members.Pairwise (fun left right => ordinal left.1 < ordinal right.1))
      (fields : ∀ key, t.get key ≠ .nil ↔ ∃ member ∈ members, key = .string member.1)
      (each : ∀ member ∈ members, child (t.get (.string member.1)) = .ok member.2) :
      Written t child (.object members)

theorem encodeTable_written {t : Table} {child : Value → Except Bytes Doc} {d : Doc}
    (encoded : encodeTable t child = .ok d) : Written t child d := by
  obtain ⟨shape,shaped,body⟩ := Raise.bind_ok.mp encoded
  cases shape with
  | array length =>
    obtain ⟨dense,classed⟩ := tableShape_array shaped
    obtain ⟨items,each,last⟩ := Raise.bind_ok.mp body
    cases last
    have paired := Raise.mapM_ok.mp each
    have count : items.length = length := by simpa using paired.length_eq.symm
    refine .array items (count ▸ dense) (count ▸ classed) ?_
    intro index item found
    obtain ⟨bound,same⟩ := List.getElem?_eq_some_iff.mp found
    have stored := (List.forall₂_iff_get.mp paired).2 index (by simpa [← count] using bound) bound
    simpa [same] using stored
  | object count =>
    obtain ⟨keys,collected,rest⟩ := Raise.bind_ok.mp body
    obtain ⟨members,each,last⟩ := Raise.bind_ok.mp rest
    cases last
    obtain ⟨sorted,fields⟩ := collectObjectKeys_ok collected
    have paired := Raise.mapM_ok.mp each
    have names : members.map Prod.fst = keys := by
      have same := map_eq_of_forall₂ (f := id) (paired.imp (fun _ _ stored => (encodeMember_ok.mp stored).1))
      simpa using same
    refine .object members (tableShape_object shaped) ?_ ?_ ?_
    · rw [← names,List.pairwise_map] at sorted
      exact sorted
    · intro key
      rw [fields key,← names]
      simp
    · intro member listed
      obtain ⟨key,_,stored⟩ := Raise.forall₂_right paired listed
      obtain ⟨same,value⟩ := encodeMember_ok.mp stored
      rwa [same]

theorem write_ok {y : Yyjson} {d : Doc} {s : Bytes} (written : y.write d = .ok s) : y.read s = .ok d.canonical := by
  cases ok : d.writable with
  | true =>
    obtain ⟨text,same,read⟩ := y.read_write d ok
    rw [written] at same
    cases same
    exact read
  | false =>
    obtain ⟨message,refused⟩ := y.write_refuses d ok
    rw [written] at refused
    cases refused

theorem encode_ok {y : Yyjson} {h : Heap} {v : Value} {s : Bytes} (encoded : encode y h v = .ok s) :
    ∃ d, encodeValue h maxDepth [] v = .ok d ∧ y.write d = .ok s := by
  obtain ⟨d,root,rest⟩ := Raise.bind_ok.mp encoded
  cases written : y.write d with
  | ok text =>
    rw [written] at rest
    cases rest
    exact ⟨d,root,written⟩
  | error message =>
    rw [written] at rest
    cases rest

end Hypringo.Json

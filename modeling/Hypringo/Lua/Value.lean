import Mathlib

namespace Hypringo.Lua

-- A Lua string is a byte sequence, not text. Source literals are ASCII, so
-- `text` is only ever applied to strings whose characters are single bytes.
abbrev Bytes := List UInt8

def text (s : String) : Bytes := s.toList.map (fun c => UInt8.ofNat c.toNat)

-- IEEE binary64 by its bit pattern. Only what the modelled code observes is
-- defined: finiteness, exact comparison and comparison with an integer.
structure Float64 where
  bits : UInt64
  deriving DecidableEq, Repr

namespace Float64

def negative (f : Float64) : Bool := decide (2^63 ≤ f.bits.toNat)
def exponent (f : Float64) : Nat := f.bits.toNat / 2^52 % 2048
def fraction (f : Float64) : Nat := f.bits.toNat % 2^52
def finite (f : Float64) : Bool := f.exponent != 2047
def nan (f : Float64) : Bool := f.exponent == 2047 && f.fraction != 0

-- A finite value times 2^1074 is an integer, the subnormal unit being 2^-1074.
-- Comparing these integers is the exact comparison lua_Number == performs.
def scaled (f : Float64) : Int :=
  let significand : Nat := if f.exponent = 0 then f.fraction else 2^52 + f.fraction
  let magnitude : Int := significand * 2^(f.exponent - 1)
  if f.negative then -magnitude else magnitude

def equal (f g : Float64) : Bool :=
  if f.nan || g.nan then false
  else if f.finite && g.finite then decide (f.scaled = g.scaled)
  else decide (f = g)

def equalInteger (f : Float64) (i : Int) : Bool :=
  f.finite && decide (f.scaled = i * 2^1074)

theorem finite_not_nan {f : Float64} (ok : f.finite = true) : f.nan = false := by
  simp only [finite,bne_iff_ne,ne_eq] at ok
  simp [nan,ok]

theorem equal_self {f : Float64} (ok : f.finite = true) : f.equal f = true := by
  simp [equal,finite_not_nan ok,ok]

-- A float with an integral value in range never stands as a table key: Lua
-- stores the integer key instead, and NaN is refused.
def key (f : Float64) : Bool :=
  !f.nan && !(f.finite && decide (f.scaled % 2^1074 = 0 ∧
    -2^63 ≤ f.scaled / 2^1074 ∧ f.scaled / 2^1074 < 2^63))

end Float64

abbrev Address := Nat

inductive Kind where
  | function
  | userdata
  | thread
  deriving DecidableEq, Repr

-- Tables are held by address: identity, sharing and cycles are those of the
-- heap. `other` covers the types no modelled function looks into.
inductive Value where
  | nil
  | boolean (b : Bool)
  | integer (i : Int64)
  | float (f : Float64)
  | string (s : Bytes)
  | table (a : Address)
  | other (kind : Kind) (identity : Nat)
  deriving DecidableEq, Repr

namespace Value

def truthy : Value → Bool
  | .nil | .boolean false => false
  | _ => true

def typeName : Value → Bytes
  | .nil => text "nil"
  | .boolean _ => text "boolean"
  | .integer _ | .float _ => text "number"
  | .string _ => text "string"
  | .table _ => text "table"
  | .other .function _ => text "function"
  | .other .userdata _ => text "userdata"
  | .other .thread _ => text "thread"

-- Lua's == without metamethods: numbers by exact value across the two
-- subtypes, tables and the other reference types by identity.
def rawEqual : Value → Value → Bool
  | .float f,.float g => f.equal g
  | .integer i,.float f | .float f,.integer i => f.equalInteger i.toInt
  | v,w => decide (v = w)

def isKey : Value → Bool
  | .nil => false
  | .float f => f.key
  | _ => true

def scalar : Value → Bool
  | .table _ => false
  | _ => true

def isFinite : Value → Bool
  | .float f => f.finite
  | _ => true

theorem rawEqual_self {v : Value} (ok : v.isFinite = true) : v.rawEqual v = true := by
  cases v with
  | float f => exact Float64.equal_self ok
  | _ => simp [rawEqual]

-- Two tables compare by identity only; everything structural is left to the
-- callers.
theorem rawEqual_table {v : Value} {a : Address} :
    v.rawEqual (.table a) = true ↔ v = .table a := by
  cases v <;> simp [rawEqual]

theorem table_rawEqual {v : Value} {a : Address} :
    (Value.table a).rawEqual v = true ↔ v = .table a := by
  cases v <;> simp [rawEqual,eq_comm]

end Value

-- `marked` is membership in a registry keyed by table identity. Entries stand
-- in the order lua_next enumerates them, which the language leaves open: no
-- definition may choose it.
structure Table where
  marked : Bool
  entries : List (Value × Value)
  distinct : (entries.map Prod.fst).Nodup
  present : ∀ entry ∈ entries, entry.2 ≠ .nil
  keys : ∀ entry ∈ entries, entry.1.isKey = true

namespace Table

def empty (marked : Bool) : Table := ⟨marked,[],by simp,by simp,by simp⟩

def get (t : Table) (key : Value) : Value :=
  match t.entries.find? (fun entry => entry.1 == key) with
  | some entry => entry.2
  | none => .nil

theorem get_of_mem {t : Table} {key value : Value} (present : (key,value) ∈ t.entries) :
    t.get key = value := by
  obtain ⟨marked,entries,distinct,_,_⟩ := t
  simp only [get]
  dsimp only at present distinct
  clear * - present distinct
  induction entries with
  | nil => simp at present
  | cons head rest ih =>
    simp only [List.map_cons,List.nodup_cons,List.mem_map,not_exists,not_and] at distinct
    rcases List.mem_cons.mp present with rfl | later
    · simp
    · have other : head.1 ≠ key := fun same => distinct.1 _ later same.symm
      have skipped : (head.1 == key) = false := by simpa using other
      rw [List.find?_cons,skipped]
      exact ih distinct.2 later

theorem mem_of_get {t : Table} {key : Value} (found : t.get key ≠ .nil) :
    (key,t.get key) ∈ t.entries := by
  unfold get at found ⊢
  cases search : t.entries.find? (fun entry => entry.1 == key) with
  | none => simp [search] at found
  | some entry =>
    have same : entry.1 = key := by simpa using List.find?_some search
    have member := List.mem_of_find?_eq_some search
    simpa only [← same] using member

theorem get_ne_nil_iff {t : Table} {key : Value} :
    t.get key ≠ .nil ↔ key ∈ t.entries.map Prod.fst := by
  constructor
  · intro found
    exact List.mem_map.mpr ⟨_,mem_of_get found,rfl⟩
  · intro member
    obtain ⟨⟨k,v⟩,present,rfl⟩ := List.mem_map.mp member
    rw [get_of_mem present]
    exact t.present _ present

theorem entries_nil_iff {t : Table} : t.entries = [] ↔ ∀ key, t.get key = .nil := by
  constructor
  · intro none key
    simp [get,none]
  · intro absent
    cases held : t.entries with
    | nil => rfl
    | cons entry rest =>
      have member : entry ∈ t.entries := by simp [held]
      have value : t.get entry.1 = entry.2 := get_of_mem member
      exact absurd (value.symm.trans (absent entry.1)) (t.present entry member)

-- t[key] = value for a value that is not nil and a key the language accepts;
-- the modelled code performs no other assignment, so the rest is left alone.
def set (t : Table) (key value : Value) : Table :=
  if ok : key.isKey = true ∧ value ≠ .nil then
    if held : key ∈ t.entries.map Prod.fst then
      { marked := t.marked
        entries := t.entries.map (fun entry => if entry.1 = key then (key,value) else entry)
        distinct := by
          have same : (t.entries.map (fun entry => if entry.1 = key then (key,value) else entry)).map Prod.fst =
              t.entries.map Prod.fst := by
            rw [List.map_map]
            apply List.map_congr_left
            intro entry _
            by_cases equal : entry.1 = key <;> simp [equal]
          rw [same]; exact t.distinct
        present := by
          intro entry member
          obtain ⟨old,was,rfl⟩ := List.mem_map.mp member
          by_cases equal : old.1 = key
          · simpa [equal] using ok.2
          · simpa [equal] using t.present old was
        keys := by
          intro entry member
          obtain ⟨old,was,rfl⟩ := List.mem_map.mp member
          by_cases equal : old.1 = key
          · simpa [equal] using ok.1
          · simpa [equal] using t.keys old was }
    else
      { marked := t.marked
        entries := t.entries ++ [(key,value)]
        distinct := by
          rw [List.map_append,List.nodup_append]
          refine ⟨t.distinct,by simp,?_⟩
          intro a member b single same
          simp only [List.map_cons,List.map_nil,List.mem_singleton] at single
          exact held (single ▸ same ▸ member)
        present := by
          intro entry member
          rcases List.mem_append.mp member with old | new
          · exact t.present entry old
          · simp only [List.mem_singleton] at new
            subst new; exact ok.2
        keys := by
          intro entry member
          rcases List.mem_append.mp member with old | new
          · exact t.keys entry old
          · simp only [List.mem_singleton] at new
            subst new; exact ok.1 }
  else t

@[simp] theorem set_marked (t : Table) (key value : Value) : (t.set key value).marked = t.marked := by
  unfold set
  split
  · split <;> rfl
  · rfl

theorem mem_set {t : Table} {key value : Value} (ok : key.isKey = true) (some : value ≠ .nil)
    {entry : Value × Value} : entry ∈ (t.set key value).entries ↔
      entry = (key,value) ∨ (entry.1 ≠ key ∧ entry ∈ t.entries) := by
  unfold set
  rw [dif_pos ⟨ok,some⟩]
  split
  · rename_i held
    constructor
    · intro member
      obtain ⟨old,was,rfl⟩ := List.mem_map.mp member
      by_cases equal : old.1 = key
      · exact .inl (by simp [equal])
      · exact .inr (by simpa [equal] using was)
    · rintro (rfl | ⟨other,was⟩)
      · obtain ⟨old,was,same⟩ := List.mem_map.mp held
        exact List.mem_map.mpr ⟨old,was,by simp [same]⟩
      · exact List.mem_map.mpr ⟨entry,was,by simp [other]⟩
  · rename_i held
    constructor
    · intro member
      rcases List.mem_append.mp member with old | new
      · refine .inr ⟨?_,old⟩
        intro same
        exact held (List.mem_map.mpr ⟨entry,old,same⟩)
      · exact .inl (by simpa using new)
    · rintro (rfl | ⟨_,was⟩)
      · exact List.mem_append.mpr (.inr (by simp))
      · exact List.mem_append.mpr (.inl was)

theorem get_set_same {t : Table} {key value : Value} (ok : key.isKey = true) (some : value ≠ .nil) :
    (t.set key value).get key = value :=
  get_of_mem ((mem_set ok some).mpr (.inl rfl))

theorem get_set_other {t : Table} {key other value : Value} (different : other ≠ key) :
    (t.set key value).get other = t.get other := by
  by_cases ok : key.isKey = true ∧ value ≠ .nil
  · by_cases found : t.get other = .nil
    · rw [found]
      by_contra present
      have member := (mem_set ok.1 ok.2).mp (mem_of_get present)
      rcases member with same | ⟨_,was⟩
      · exact different (congrArg Prod.fst same)
      · exact t.present _ was ((get_of_mem was).symm.trans found)
    · exact get_of_mem ((mem_set ok.1 ok.2).mpr (.inr ⟨different,mem_of_get found⟩))
  · unfold set
    rw [dif_neg ok]

theorem mem_of_mem_set {t : Table} {key value : Value} {entry : Value × Value}
    (member : entry ∈ (t.set key value).entries) : entry = (key,value) ∨ entry ∈ t.entries := by
  by_cases ok : key.isKey = true ∧ value ≠ .nil
  · rcases (mem_set ok.1 ok.2).mp member with new | ⟨_,old⟩
    · exact .inl new
    · exact .inr old
  · unfold set at member
    rw [dif_neg ok] at member
    exact .inr member

theorem set_fresh {t : Table} {key value : Value} (ok : key.isKey = true) (some : value ≠ .nil)
    (fresh : key ∉ t.entries.map Prod.fst) : (t.set key value).entries = t.entries ++ [(key,value)] := by
  unfold set
  rw [dif_pos ⟨ok,some⟩,dif_neg fresh]

theorem set_idle {t : Table} {key value : Value} (held : t.get key = value) (some : value ≠ .nil) :
    t.set key value = t := by
  have found : t.get key ≠ .nil := held ▸ some
  have member := mem_of_get found
  have same : t.entries.map (fun entry => if entry.1 = key then (key,value) else entry) = t.entries := by
    refine (List.map_congr_left ?_).trans (List.map_id _)
    intro entry listed
    by_cases equal : entry.1 = key
    · have kept : t.get key = entry.2 := equal ▸ get_of_mem listed
      rw [if_pos equal,← held,kept,← equal]
      rfl
    · rw [if_neg equal]
      rfl
  unfold set
  rw [dif_pos ⟨t.keys _ member,some⟩,dif_pos (get_ne_nil_iff.mp found)]
  simp only [same]

-- A table constructor: the listed fields assigned in turn.
def build (marked : Bool) (fields : List (Value × Value)) : Table :=
  fields.foldl (fun t field => t.set field.1 field.2) (empty marked)

theorem fold_set_marked (fields : List (Value × Value)) (t : Table) :
    (fields.foldl (fun t field => t.set field.1 field.2) t).marked = t.marked := by
  induction fields generalizing t with
  | nil => rfl
  | cons field rest ih => rw [List.foldl_cons,ih,set_marked]

theorem mem_of_mem_fold (fields : List (Value × Value)) {t : Table} {entry : Value × Value}
    (member : entry ∈ (fields.foldl (fun t field => t.set field.1 field.2) t).entries) :
    entry ∈ t.entries ∨ entry ∈ fields := by
  induction fields generalizing t with
  | nil => exact .inl member
  | cons field rest ih =>
    rcases ih member with held | later
    · rcases mem_of_mem_set held with new | old
      · exact .inr (by simp [new])
      · exact .inl old
    · exact .inr (by simp [later])

@[simp] theorem build_marked (marked : Bool) (fields : List (Value × Value)) : (build marked fields).marked = marked :=
  fold_set_marked fields (empty marked)

theorem mem_of_mem_build {marked : Bool} {fields : List (Value × Value)} {entry : Value × Value}
    (member : entry ∈ (build marked fields).entries) : entry ∈ fields := by
  rcases mem_of_mem_fold fields member with old | listed
  · simp [empty] at old
  · exact listed

-- A record constructor: string keys.
def record (fields : List (Bytes × Value)) : Table :=
  build false (fields.map (fun field => (.string field.1,field.2)))

theorem fold_set_entries {fields : List (Value × Value)} {t : Table}
    (distinct : (t.entries.map Prod.fst ++ fields.map Prod.fst).Nodup)
    (keys : ∀ field ∈ fields, field.1.isKey = true) (present : ∀ field ∈ fields, field.2 ≠ .nil) :
    (fields.foldl (fun t field => t.set field.1 field.2) t).entries = t.entries ++ fields := by
  induction fields generalizing t with
  | nil => simp
  | cons field rest ih =>
    have fresh : field.1 ∉ t.entries.map Prod.fst := by
      intro member
      exact (List.nodup_append.mp distinct).2.2 field.1 member field.1 (by simp) rfl
    have placed := set_fresh (keys field (by simp)) (present field (by simp)) fresh
    rw [List.foldl_cons,ih (by rw [placed]; simpa using distinct)
      (fun field member => keys field (by simp [member])) (fun field member => present field (by simp [member])),placed]
    simp

theorem record_entries {fields : List (Bytes × Value)} (distinct : (fields.map Prod.fst).Nodup)
    (present : ∀ field ∈ fields, field.2 ≠ .nil) :
    (record fields).entries = fields.map (fun field => (.string field.1,field.2)) := by
  have names : ((fields.map (fun field => (Value.string field.1,field.2))).map Prod.fst).Nodup := by
    rw [List.map_map]
    have same : Prod.fst ∘ (fun field : Bytes × Value => (Value.string field.1,field.2)) = Value.string ∘ Prod.fst := rfl
    rw [same,← List.map_map]
    exact distinct.map (fun _ _ equal => by injection equal)
  apply fold_set_entries (t := empty false) names
  · intro field member
    obtain ⟨_,_,rfl⟩ := List.mem_map.mp member
    rfl
  · intro field member
    obtain ⟨original,listed,rfl⟩ := List.mem_map.mp member
    exact present original listed

theorem record_get {fields : List (Bytes × Value)} (distinct : (fields.map Prod.fst).Nodup)
    (present : ∀ field ∈ fields, field.2 ≠ .nil) {name : Bytes} {value : Value} (member : (name,value) ∈ fields) :
    (record fields).get (.string name) = value := by
  apply get_of_mem
  rw [record_entries distinct present]
  exact List.mem_map.mpr ⟨(name,value),member,rfl⟩

theorem mem_of_mem_record {fields : List (Bytes × Value)} {entry : Value × Value}
    (member : entry ∈ (record fields).entries) : ∃ field ∈ fields, entry = (.string field.1,field.2) := by
  obtain ⟨field,listed,rfl⟩ := List.mem_map.mp (mem_of_mem_build member)
  exact ⟨field,listed,rfl⟩

end Table

end Hypringo.Lua

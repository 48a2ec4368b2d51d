import Hypringo.JsonAcceptance

namespace Hypringo.JsonStack
open Hypringo.Lua JsonRoundtrip
open Json (Doc maxDepth)
open Document (composite)

-- Values on the Lua stack above the argument of the running C function: how
-- many there are, and how many there were at most.
structure Slots where
  top : Nat
  peak : Nat
  deriving DecidableEq, Repr

namespace Slots

def empty : Slots := ⟨0,0⟩
def push (s : Slots) : Slots := ⟨s.top + 1,max s.peak (s.top + 1)⟩
def pop (s : Slots) (n : Nat) : Slots := ⟨s.top - n,s.peak⟩

@[simp] theorem push_top (s : Slots) : s.push.top = s.top + 1 := rfl
@[simp] theorem push_peak (s : Slots) : s.push.peak = max s.peak (s.top + 1) := rfl
@[simp] theorem pop_top (s : Slots) (n : Nat) : (s.pop n).top = s.top - n := rfl
@[simp] theorem pop_peak (s : Slots) (n : Nat) : (s.pop n).peak = s.peak := rfl

end Slots

def minStack : Nat := 20

-- Where it is, what it is: two strings, and their concatenation is raised.
def luaLError (s : Slots) : Slots := s.push.push.pop 1

-- The registry, the table and true; lua_rawset takes two of them.
def markArray (s : Slots) : Slots := ((s.push.push.push).pop 2).pop 1

-- lua_rawseti takes the value, and a failure takes the table off.
def decodeItems (child : Doc → Slots → Bool × Slots) : List Doc → Slots → Bool × Slots
  | [],s => (true,s)
  | item :: rest,s => match child item s with
    | (true,s) => decodeItems child rest (s.pop 1)
    | (false,s) => (false,s.pop 1)

-- lua_rawset takes key and value, and a failure takes key and table off.
def decodeMembers (child : Doc → Slots → Bool × Slots) : List (Bytes × Doc) → Slots → Bool × Slots
  | [],s => (true,s)
  | member :: rest,s => match child member.2 s.push with
    | (true,s) => decodeMembers child rest (s.pop 2)
    | (false,s) => (false,s.pop 2)

def decodeValue : Nat → Doc → Slots → Bool × Slots
  | 0,_,s => (false,s)
  | room+1,.array items,s => decodeItems (decodeValue room) items (markArray s.push)
  | room+1,.object members,s => decodeMembers (decodeValue room) members s.push
  | _+1,_,s => (true,s.push)

def ldecode (root : Doc) : Slots :=
  match decodeValue maxDepth root .empty with
  | (true,s) => s
  | (false,s) => luaLError s

-- `part` lies in so many arrays and objects of a document.
inductive Under : Nat → Nat → Doc → Doc → Prop
  | here (d : Doc) : Under 0 0 d d
  | item {arrays objects : Nat} {part item : Doc} {items : List Doc} (listed : item ∈ items)
      (deeper : Under arrays objects part item) : Under (arrays+1) objects part (.array items)
  | member {arrays objects : Nat} {part : Doc} {member : Bytes × Doc} {members : List (Bytes × Doc)}
      (listed : member ∈ members) (deeper : Under arrays objects part member.2) :
      Under arrays (objects+1) part (.object members)

-- An array stands with the three values that mark it.
def own : Doc → Nat
  | .array _ => 4
  | _ => 1

def Needs (base n : Nat) (d : Doc) : Prop :=
  ∀ arrays objects part, Under arrays objects part d → base + arrays + 2 * objects + own part ≤ n

theorem needs_array {base n : Nat} {items : List Doc} :
    Needs base n (.array items) ↔ base + 4 ≤ n ∧ ∀ item ∈ items, Needs (base+1) n item := by
  constructor
  · intro needs
    refine ⟨needs 0 0 _ (.here _),?_⟩
    intro item listed arrays objects part deeper
    have bound := needs _ _ part (.item listed deeper)
    omega
  · intro both arrays objects part under
    cases under with
    | here => exact both.1
    | item listed deeper =>
      have bound := both.2 _ listed _ _ part deeper
      omega

theorem needs_object {base n : Nat} {members : List (Bytes × Doc)} :
    Needs base n (.object members) ↔ base + 1 ≤ n ∧ ∀ member ∈ members, Needs (base+2) n member.2 := by
  constructor
  · intro needs
    refine ⟨needs 0 0 _ (.here _),?_⟩
    intro member listed arrays objects part deeper
    have bound := needs _ _ part (.member listed deeper)
    omega
  · intro both arrays objects part under
    cases under with
    | here => exact both.1
    | member listed deeper =>
      have bound := both.2 _ listed _ _ part deeper
      omega

theorem needs_scalar {base n : Nat} {d : Doc} (flat : composite d = false) : Needs base n d ↔ base + 1 ≤ n := by
  constructor
  · intro needs
    have bound := needs 0 0 d (.here d)
    cases d <;> first | exact bound | simp [composite] at flat
  · intro bound arrays objects part under
    cases under with
    | here => cases d <;> first | exact bound | simp [composite] at flat
    | item => simp [composite] at flat
    | member => simp [composite] at flat

-- What a call does to the stack: it leaves what it returns, or nothing.
structure Done (s : Slots) (need : Nat → Prop) (left : Nat) (result : Bool × Slots) : Prop where
  returned : result.1 = true
  top : result.2.top = s.top + left
  peak : ∀ n, result.2.peak ≤ n ↔ s.peak ≤ n ∧ need n

theorem decodeItems_done {child : Doc → Slots → Bool × Slots} {items : List Doc}
    (each : ∀ item ∈ items, ∀ s, Done s (fun n => Needs s.top n item) 1 (child item s)) (s : Slots) :
    Done s (fun n => ∀ item ∈ items, Needs s.top n item) 0 (decodeItems child items s) := by
  induction items generalizing s with
  | nil => exact ⟨rfl,rfl,by simp [decodeItems]⟩
  | cons item rest ih =>
    obtain ⟨returned,top,peak⟩ := each item (by simp) s
    rw [decodeItems]
    cases outcome : child item s with
    | mk ok after =>
      rw [outcome] at returned top peak
      cases returned
      dsimp only at top peak ⊢
      have later := ih (fun item member => each item (by simp [member])) (after.pop 1)
      have same : (after.pop 1).top = s.top := by rw [Slots.pop_top,top]; omega
      rw [same] at later
      refine ⟨later.returned,later.top.trans (by rw [same]),?_⟩
      intro n
      rw [later.peak,Slots.pop_peak,peak,List.forall_mem_cons,and_assoc]

theorem decodeMembers_done {child : Doc → Slots → Bool × Slots} {members : List (Bytes × Doc)}
    (each : ∀ member ∈ members, ∀ s, Done s (fun n => Needs s.top n member.2) 1 (child member.2 s)) (s : Slots) :
    Done s (fun n => ∀ member ∈ members, s.top + 1 ≤ n ∧ Needs (s.top+1) n member.2) 0
      (decodeMembers child members s) := by
  induction members generalizing s with
  | nil => exact ⟨rfl,rfl,by simp [decodeMembers]⟩
  | cons member rest ih =>
    obtain ⟨returned,top,peak⟩ := each member (by simp) s.push
    rw [decodeMembers]
    cases outcome : child member.2 s.push with
    | mk ok after =>
      rw [outcome] at returned top peak
      cases returned
      dsimp only at top peak ⊢
      have later := ih (fun member listed => each member (by simp [listed])) (after.pop 2)
      have same : (after.pop 2).top = s.top := by rw [Slots.pop_top,top,Slots.push_top]; omega
      rw [same] at later
      refine ⟨later.returned,later.top.trans (by rw [same]),?_⟩
      intro n
      rw [later.peak,Slots.pop_peak,peak,Slots.push_peak,Slots.push_top,List.forall_mem_cons,Nat.max_le]
      simp only [and_assoc]

theorem scalar_done {d : Doc} (flat : composite d = false) (s : Slots) : Done s (fun n => Needs s.top n d) 1 (true,s.push) := by
  refine ⟨rfl,rfl,?_⟩
  intro n
  rw [needs_scalar flat,Slots.push_peak,Nat.max_le]

-- Every value that is decoded was on the stack, above the tables it lies in and
-- the keys it is to be stored under.
theorem decodeValue_done (room : Nat) {d : Doc} {t : Json.Tree} (decoded : Json.decodeValue room d = .ok t) (s : Slots) :
    Done s (fun n => Needs s.top n d) 1 (decodeValue room d s) := by
  induction room generalizing d t s with
  | zero => cases decoded
  | succ room ih =>
    cases d with
    | array items =>
      rw [Json.decodeValue] at decoded
      obtain ⟨trees,each,_⟩ := Raise.bind_ok.mp decoded
      have paired := Raise.mapM_ok.mp each
      have children : ∀ item ∈ items, ∀ s, Done s (fun n => Needs s.top n item) 1 (decodeValue room item s) := by
        intro item listed s
        obtain ⟨tree,_,read⟩ := Raise.forall₂_left paired listed
        exact ih read s
      have items_done := decodeItems_done children (markArray s.push)
      refine ⟨items_done.returned,items_done.top,?_⟩
      intro n
      rw [decodeValue,items_done.peak,needs_array]
      simp only [markArray,Slots.pop_peak,Slots.push_peak,Slots.push_top,Slots.pop_top,Nat.max_le]
      constructor
      · rintro ⟨bounds,each⟩
        exact ⟨by omega,by omega,each⟩
      · rintro ⟨before,own,each⟩
        exact ⟨by omega,each⟩
    | object members =>
      rw [Json.decodeValue] at decoded
      obtain ⟨trees,each,_⟩ := Raise.bind_ok.mp decoded
      have paired := Raise.mapM_ok.mp each
      have children : ∀ member ∈ members, ∀ s, Done s (fun n => Needs s.top n member.2) 1 (decodeValue room member.2 s) := by
        intro member listed s
        obtain ⟨tree,_,read⟩ := Raise.forall₂_left paired listed
        exact ih (decodeMember_ok.mp read).2 s
      have members_done := decodeMembers_done children s.push
      refine ⟨members_done.returned,members_done.top,?_⟩
      intro n
      rw [decodeValue,members_done.peak,needs_object,Slots.push_peak,Slots.push_top,Nat.max_le]
      constructor
      · rintro ⟨⟨before,own⟩,each⟩
        exact ⟨before,own,fun member listed => (each member listed).2⟩
      · rintro ⟨before,own,each⟩
        refine ⟨⟨before,own⟩,?_⟩
        intro member listed
        have needs := each member listed
        exact ⟨by have bound := needs 0 0 _ (.here _); omega,needs⟩
    | _ => exact scalar_done rfl s

theorem ldecode_peak {root : Doc} {t : Json.Tree} (decoded : Json.decodeValue maxDepth root = .ok t) (n : Nat) :
    (ldecode root).peak ≤ n ↔ Needs 0 n root := by
  have done := decodeValue_done maxDepth decoded .empty
  unfold ldecode
  cases outcome : decodeValue maxDepth root .empty with
  | mk ok after =>
    have returned := done.returned
    have peak := done.peak n
    rw [outcome] at returned peak
    cases returned
    rw [show ((true,after) : Bool × Slots).2 = after from rfl] at peak
    rw [peak]
    simp [Slots.empty]

-- is_null: json.null is pushed and compared.
def isNull (s : Slots) : Slots := s.push.pop 1

def isMarkedArray (s : Slots) : Slots := s.push.push.pop 2

-- A walk with lua_next over the entries from the key on the stack on: it leaves
-- key and value, and takes the key off at the end. It stops where `go` says so.
def walk (go : Value → Bool) : List (Value × Value) → Slots → Bool × Slots
  | [],s => (true,s.pop 1)
  | entry :: rest,s => if go entry.1 then walk go rest (s.push.pop 1) else (false,s.push.pop 2)

def tableShape (t : Table) (s : Slots) : Slots := (walk (fun _ => true) t.entries (isMarkedArray s).push).2

def nameKey : Value → Bool
  | .string _ => true
  | _ => false

def collectObjectKeys (t : Table) (s : Slots) : Slots := (walk nameKey t.entries s.push).2

-- The members in turn: each one is pushed, encoded and taken off.
def encodeEach (child : Value → Slots → Bool × Slots) : List Value → Slots → Bool × Slots
  | [],s => (true,s)
  | v :: rest,s => match child v s.push with
    | (true,s) => encodeEach child rest (s.pop 1)
    | (false,s) => (false,s.pop 1)

def arrayValues (t : Table) (length : Nat) : List Value := (List.range length).map (fun index => t.get (Json.arrayKey index))
def objectValues (t : Table) (keys : List Bytes) : List Value := keys.map (fun key => t.get (.string key))

def encodeBody (t : Table) (child : Value → Slots → Bool × Slots) (s : Slots) : Bool × Slots :=
  match Json.tableShape t with
  | .error _ => (false,tableShape t s)
  | .ok (.array length) => encodeEach child (arrayValues t length) (tableShape t s)
  | .ok (.object _) => match Json.collectObjectKeys t with
    | .error _ => (false,collectObjectKeys t (tableShape t s))
    | .ok keys => encodeEach child (objectValues t keys) (collectObjectKeys t (tableShape t s))

-- The lookup in the tables being visited; lua_rawset then takes table and value.
def enterTable (s : Slots) : Slots := (s.push.pop 1).push.push.pop 2
def leaveTable (s : Slots) : Slots := s.push.push.pop 2

def encodeValue (h : Heap) (room : Nat) (visiting : List Address) (v : Value) (s : Slots) : Bool × Slots :=
  match v with
  | .nil | .boolean _ | .integer _ | .string _ => (true,isNull s)
  | .float f => (f.finite,isNull s)
  | .other _ _ => (false,isNull s)
  | .table a =>
    if a = h.null then (true,isNull s)
    else match room with
      | 0 => (false,isNull s)
      | room+1 =>
        if a ∈ visiting then (false,(isNull s).push.pop 1)
        else
          let (ok,s) := encodeBody (h.table a) (encodeValue h room (a :: visiting)) (enterTable (isNull s))
          (ok,leaveTable s)

-- The table of tables being visited lies under everything; the text is pushed
-- in its place.
def lencode (h : Heap) (v : Value) : Slots :=
  match encodeValue h maxDepth [] v Slots.empty.push with
  | (true,s) => (s.pop 1).push
  | (false,s) => luaLError (s.pop 1)

theorem walk_top (go : Value → Bool) (entries : List (Value × Value)) (s : Slots) (key : 0 < s.top) :
    (walk go entries s).2.top = s.top - 1 := by
  induction entries generalizing s with
  | nil => rfl
  | cons entry rest ih =>
    rw [walk]
    split
    · exact ih _ (by simpa using key)
    · simp only [Slots.pop_top,Slots.push_top]
      omega

theorem walk_peak (go : Value → Bool) (entries : List (Value × Value)) (s : Slots) :
    s.peak ≤ (walk go entries s).2.peak ∧ (walk go entries s).2.peak ≤ max s.peak (s.top + 1) := by
  induction entries generalizing s with
  | nil => exact ⟨Nat.le_refl _,Nat.le_max_left _ _⟩
  | cons entry rest ih =>
    rw [walk]
    split
    · obtain ⟨low,high⟩ := ih (s.push.pop 1)
      simp only [Slots.pop_peak,Slots.push_peak,Slots.pop_top,Slots.push_top] at low high
      omega
    · simp only [Slots.pop_peak,Slots.push_peak]
      omega

-- Looking into a table takes two values above it, which the caller had there
-- already when it entered the table.
theorem tableShape_slots (t : Table) (s : Slots) :
    (tableShape t s).top = s.top ∧ s.peak ≤ (tableShape t s).peak ∧ (tableShape t s).peak ≤ max s.peak (s.top + 2) := by
  have top := walk_top (fun _ => true) t.entries (isMarkedArray s).push (by simp)
  obtain ⟨low,high⟩ := walk_peak (fun _ => true) t.entries (isMarkedArray s).push
  unfold tableShape
  simp only [isMarkedArray,Slots.push_top,Slots.push_peak,Slots.pop_top,Slots.pop_peak] at top low high ⊢
  omega

theorem collectObjectKeys_slots (t : Table) (s : Slots) :
    (collectObjectKeys t s).top = s.top ∧ s.peak ≤ (collectObjectKeys t s).peak ∧
      (collectObjectKeys t s).peak ≤ max s.peak (s.top + 2) := by
  have top := walk_top nameKey t.entries s.push (by simp)
  obtain ⟨low,high⟩ := walk_peak nameKey t.entries s.push
  unfold collectObjectKeys
  simp only [Slots.push_top,Slots.push_peak] at top low high ⊢
  omega

-- Every value is compared with json.null, and every table entered.
def Takes (h : Heap) (base n : Nat) (v : Value) : Prop :=
  base + 1 ≤ n ∧ ∀ levels a, Nested h levels v (.table a) → a ≠ h.null → base + levels + 2 ≤ n

theorem takes_table {h : Heap} {base n : Nat} {a : Address} (proper : a ≠ h.null) :
    Takes h base n (.table a) ↔ base + 2 ≤ n ∧ ∀ entry ∈ (h.table a).entries, Takes h (base+1) n entry.2 := by
  constructor
  · rintro ⟨_,tables⟩
    have own := tables 0 a (.here _) proper
    refine ⟨own,?_⟩
    intro entry member
    refine ⟨by omega,?_⟩
    intro levels b path other
    have bound := tables (levels+1) b (.inside proper member path) other
    omega
  · rintro ⟨own,each⟩
    refine ⟨by omega,?_⟩
    intro levels b path other
    cases path with
    | here => exact own
    | inside _ entry deeper =>
      have bound := (each _ entry).2 _ b deeper other
      omega

theorem takes_flat {h : Heap} {base n : Nat} {v : Value} (flat : v.scalar = true ∨ v = .table h.null) :
    Takes h base n v ↔ base + 1 ≤ n := by
  refine ⟨fun takes => takes.1,fun bound => ⟨bound,?_⟩⟩
  intro levels a path proper
  cases levels with
  | zero =>
    cases path
    rcases flat with scalar | null
    · simp [Value.scalar] at scalar
    · exact absurd (by simpa using null) proper
  | succ levels => exact absurd path (not_nested_scalar flat)

theorem encodeEach_done {h : Heap} {child : Value → Slots → Bool × Slots} {values : List Value}
    (each : ∀ v ∈ values, ∀ s, Done s (fun n => Takes h s.top n v) 0 (child v s)) (s : Slots) :
    Done s (fun n => ∀ v ∈ values, Takes h (s.top+1) n v) 0 (encodeEach child values s) := by
  induction values generalizing s with
  | nil => exact ⟨rfl,rfl,by simp [encodeEach]⟩
  | cons v rest ih =>
    obtain ⟨returned,top,peak⟩ := each v (by simp) s.push
    rw [encodeEach]
    cases outcome : child v s.push with
    | mk ok after =>
      rw [outcome] at returned top peak
      cases returned
      dsimp only at top peak ⊢
      have later := ih (fun v member => each v (by simp [member])) (after.pop 1)
      have same : (after.pop 1).top = s.top := by rw [Slots.pop_top,top,Slots.push_top]; omega
      rw [same] at later
      refine ⟨later.returned,later.top.trans (by rw [same]),?_⟩
      intro n
      rw [later.peak,Slots.pop_peak,peak,Slots.push_peak,Slots.push_top,List.forall_mem_cons,Nat.max_le]
      constructor
      · rintro ⟨⟨⟨before,_⟩,own⟩,others⟩
        exact ⟨before,own,others⟩
      · rintro ⟨before,own,others⟩
        exact ⟨⟨⟨before,by have bound := own.1; omega⟩,own⟩,others⟩

-- The members that are encoded are the values of the table.
theorem encodeTable_values {t : Table} {child : Value → Except Bytes Doc} {d : Doc}
    (encoded : Json.encodeTable t child = .ok d) : ∃ values, (∀ P : Value → Prop,
      (∀ v ∈ values, P v) ↔ ∀ entry ∈ t.entries, P entry.2) ∧ (∀ v ∈ values, ∃ e, child v = .ok e) ∧
        ∀ (each : Value → Slots → Bool × Slots) (s : Slots), ∃ after, encodeBody t each s = encodeEach each values after ∧
          after.top = s.top ∧ s.peak ≤ after.peak ∧ after.peak ≤ max s.peak (s.top + 2) := by
  obtain ⟨shape,shaped,body⟩ := Raise.bind_ok.mp encoded
  cases shape with
  | array length =>
    obtain ⟨dense,_⟩ := Json.tableShape_array shaped
    obtain ⟨items,stored,_⟩ := Raise.bind_ok.mp body
    refine ⟨arrayValues t length,?_,?_,?_⟩
    · intro P
      constructor
      · intro all entry member
        have value := Table.get_of_mem member
        obtain ⟨index,inside,key⟩ := (dense.keys entry.1).mp (by rw [value]; exact t.present entry member)
        refine all _ (List.mem_map.mpr ⟨index,List.mem_range.mpr inside,?_⟩)
        rw [← key,value]
      · intro all v member
        obtain ⟨index,inside,rfl⟩ := List.mem_map.mp member
        exact all _ (Table.mem_of_get ((dense.keys _).mpr ⟨index,List.mem_range.mp inside,rfl⟩))
    · intro v member
      obtain ⟨index,inside,rfl⟩ := List.mem_map.mp member
      obtain ⟨e,_,found⟩ := Raise.forall₂_left (Raise.mapM_ok.mp stored) inside
      exact ⟨e,found⟩
    · intro each s
      refine ⟨_,?_,tableShape_slots t s⟩
      simp only [encodeBody,shaped]
  | object count =>
    obtain ⟨keys,collected,rest⟩ := Raise.bind_ok.mp body
    obtain ⟨members,stored,_⟩ := Raise.bind_ok.mp rest
    obtain ⟨_,fields⟩ := Json.collectObjectKeys_ok collected
    refine ⟨objectValues t keys,?_,?_,?_⟩
    · intro P
      constructor
      · intro all entry member
        have value := Table.get_of_mem member
        obtain ⟨name,known,key⟩ := (fields entry.1).mp (by rw [value]; exact t.present entry member)
        refine all _ (List.mem_map.mpr ⟨name,known,?_⟩)
        rw [← key,value]
      · intro all v member
        obtain ⟨name,known,rfl⟩ := List.mem_map.mp member
        exact all _ (Table.mem_of_get ((fields _).mpr ⟨name,known,rfl⟩))
    · intro v member
      obtain ⟨name,known,rfl⟩ := List.mem_map.mp member
      obtain ⟨e,_,found⟩ := Raise.forall₂_left (Raise.mapM_ok.mp stored) known
      exact ⟨e.2,(Json.encodeMember_ok.mp found).2⟩
    · intro each s
      obtain ⟨top,low,high⟩ := tableShape_slots t s
      obtain ⟨top',low',high'⟩ := collectObjectKeys_slots t (tableShape t s)
      refine ⟨_,?_,top'.trans top,low.trans low',by omega⟩
      simp only [encodeBody,shaped,collected]

theorem flat_done {h : Heap} {room : Nat} {path : List Address} {v : Value} {d : Doc}
    (flat : v.scalar = true ∨ v = .table h.null) (encoded : Json.encodeValue h room path v = .ok d) (s : Slots) :
    Done s (fun n => Takes h s.top n v) 0 (encodeValue h room path v s) := by
  have result : encodeValue h room path v s = (true,isNull s) := by
    rcases flat with scalar | rfl
    · rw [Document.encodeValue_scalar scalar] at encoded
      cases v with
      | table a => simp [Value.scalar] at scalar
      | float f =>
        have finite := Document.scalarDocument_finite encoded
        rw [encodeValue.eq_def]
        exact congrArg (·,isNull s) finite
      | other kind identity => cases encoded
      | _ => rw [encodeValue.eq_def]
    · rw [encodeValue.eq_def]
      simp
  rw [result]
  refine ⟨rfl,by simp [isNull],?_⟩
  intro n
  rw [takes_flat flat]
  simp [isNull]

theorem encodeValue_done {h : Heap} (room : Nat) {path : List Address} {v : Value} {d : Doc}
    (encoded : Json.encodeValue h room path v = .ok d) (s : Slots) :
    Done s (fun n => Takes h s.top n v) 0 (encodeValue h room path v s) := by
  induction room generalizing path v d s with
  | zero =>
    rcases JsonAcceptance.flat_or_table h v with flat | ⟨a,rfl,proper⟩
    · exact flat_done flat encoded s
    · obtain ⟨less,impossible,_⟩ := JsonAcceptance.encodes_table proper encoded
      omega
  | succ room ih =>
    rcases JsonAcceptance.flat_or_table h v with flat | ⟨a,rfl,proper⟩
    · exact flat_done flat encoded s
    · have fresh : a ∉ path := by
        intro seen
        simp only [Json.encodeValue,if_neg proper,if_pos seen] at encoded
        cases encoded
      rw [Document.encodeValue_table proper fresh] at encoded
      obtain ⟨values,same,children,body⟩ := encodeTable_values encoded
      obtain ⟨after,shape,top,low,high⟩ := body (encodeValue h room (a :: path)) (enterTable (isNull s))
      have entered : (enterTable (isNull s)).top = s.top ∧ (enterTable (isNull s)).peak = max s.peak (s.top + 2) := by
        simp only [enterTable,isNull,Slots.pop_top,Slots.push_top,Slots.pop_peak,Slots.push_peak]
        omega
      have each : ∀ v ∈ values, ∀ s, Done s (fun n => Takes h s.top n v) 0 (encodeValue h room (a :: path) v s) := by
        intro v member s
        obtain ⟨e,found⟩ := children v member
        exact ih found s
      have done := encodeEach_done each after
      have result : encodeValue h (room+1) path (.table a) s =
          ((encodeEach (encodeValue h room (a :: path)) values after).1,
            leaveTable (encodeEach (encodeValue h room (a :: path)) values after).2) := by
        simp only [encodeValue,if_neg proper,if_neg fresh,shape]
      rw [result]
      refine ⟨done.returned,?_,?_⟩
      · simp only [leaveTable,Slots.pop_top,Slots.push_top,done.top,top,entered.1]
        omega
      · intro n
        have peak := done.peak n
        rw [top,entered.1,same] at peak
        rw [entered.1] at top
        rw [entered.1,entered.2] at high
        rw [entered.2] at low
        have kept := done.top
        simp only [leaveTable,Slots.pop_peak,Slots.push_peak,Slots.push_top,Nat.max_le,kept,top,peak,takes_table proper]
        constructor
        · rintro ⟨⟨⟨before,members⟩,_⟩,own⟩
          exact ⟨by omega,by omega,members⟩
        · rintro ⟨before,own,members⟩
          exact ⟨⟨⟨by omega,members⟩,by omega⟩,by omega⟩

theorem lencode_peak {h : Heap} {v : Value} {d : Doc} (encoded : Json.encodeValue h maxDepth [] v = .ok d) (n : Nat)
    (two : 2 ≤ n) : (lencode h v).peak ≤ n ↔ ∀ levels a, Nested h levels v (.table a) → a ≠ h.null → levels + 3 ≤ n := by
  have done := encodeValue_done maxDepth encoded Slots.empty.push
  unfold lencode
  cases outcome : encodeValue h maxDepth [] v Slots.empty.push with
  | mk ok after =>
    have returned := done.returned
    have peak := done.peak n
    have top := done.top
    rw [outcome] at returned peak top
    cases returned
    dsimp only at peak top ⊢
    simp only [Slots.push_peak,Slots.pop_peak,Slots.pop_top,Nat.max_le,peak,top,Slots.push_top,Slots.empty,Takes]
    constructor
    · rintro ⟨⟨_,_,tables⟩,_⟩ levels a path proper
      have bound := tables levels a path proper
      omega
    · intro tables
      refine ⟨⟨by omega,by omega,?_⟩,by omega⟩
      intro levels a path proper
      have bound := tables levels a path proper
      omega

-- Within LUA_MINSTACK: an array in a arrays and o objects stands with a + 2o at
-- most 16, another value with a + 2o at most 19, and no table is encoded deeper
-- than the seventeenth level.
theorem slots_within_minimum (y : Json.Yyjson) :
    (∀ source root t, y.read source = .ok root → Json.decode y source = .ok t →
      ((ldecode root).peak ≤ minStack ↔
        ∀ arrays objects part, Under arrays objects part root → arrays + 2 * objects + own part ≤ minStack)) ∧
      ∀ h v s, Json.encode y h v = .ok s →
        ((lencode h v).peak ≤ minStack ↔ ∀ levels a, Nested h levels v (.table a) → a ≠ h.null → levels < 18) := by
  constructor
  · intro source root t read decoded
    simp only [Json.decode,read] at decoded
    rw [ldecode_peak decoded]
    simp only [Needs,Nat.zero_add]
  · intro h v s encoded
    obtain ⟨d,root,_⟩ := Json.encode_ok encoded
    rw [lencode_peak root minStack (by decide)]
    constructor
    · intro tables levels a path proper
      have bound : levels + 3 ≤ 20 := tables levels a path proper
      omega
    · intro tables levels a path proper
      have bound := tables levels a path proper
      change levels + 3 ≤ 20
      omega

theorem small_document_within : (ldecode (.array [.boolean true])).peak ≤ minStack := by
  have written : JsonText.reference.write (.array [.boolean true]) = .ok (text "[true]") := by rfl
  have read := Json.write_ok written
  have decoded : Json.decode JsonText.reference (text "[true]") = .ok (.array [.boolean true]) := by
    simp only [Json.decode,read]
    rfl
  refine ((slots_within_minimum JsonText.reference).1 _ _ _ read decoded).mpr ?_
  intro arrays objects part under
  cases under with
  | here => decide
  | item listed deeper =>
    rw [List.mem_singleton.mp (show _ ∈ [Doc.boolean true] from listed)] at deeper
    cases deeper
    decide

def brackets : Nat → Doc
  | 0 => .array []
  | n+1 => .array [brackets n]

theorem brackets_decode (n : Nat) {room : Nat} (below : n < room) : ∃ t, Json.decodeValue room (brackets n) = .ok t := by
  induction n generalizing room with
  | zero =>
    obtain ⟨less,rfl⟩ := Nat.exists_eq_succ_of_ne_zero (by omega : room ≠ 0)
    exact ⟨_,rfl⟩
  | succ n ih =>
    obtain ⟨less,rfl⟩ := Nat.exists_eq_succ_of_ne_zero (by omega : room ≠ 0)
    obtain ⟨t,inner⟩ := ih (by omega : n < less)
    refine ⟨.array [t],?_⟩
    simp only [brackets,Json.decodeValue,List.mapM_cons,List.mapM_nil,inner,bind,Except.bind,pure,Except.pure]

theorem brackets_under (n : Nat) : Under n 0 (.array []) (brackets n) := by
  induction n with
  | zero => exact .here _
  | succ n ih => exact .item (by simp) ih

theorem nested_parent {h : Heap} {levels : Nat} {v w : Value} (path : Nested h (levels+1) v w) :
    ∃ a, Nested h levels v (.table a) ∧ a ≠ h.null := by
  induction levels generalizing v with
  | zero =>
    cases path with
    | inside proper _ _ => exact ⟨_,.here _,proper⟩
  | succ levels ih =>
    cases path with
    | inside proper entry deeper =>
      obtain ⟨a,above,other⟩ := ih deeper
      exact ⟨a,.inside proper entry above,other⟩

-- Eighteen arrays within each other decode, and nineteen tables encode.
theorem deep_documents_beyond : (∃ t, Json.decodeValue maxDepth (brackets 17) = .ok t) ∧
    ¬(ldecode (brackets 17)).peak ≤ minStack ∧ (∃ s, Json.encode JsonText.reference (chain 19) (.table 0) = .ok s) ∧
      ¬(lencode (chain 19) (.table 0)).peak ≤ minStack := by
  obtain ⟨t,decoded⟩ := brackets_decode 17 (by decide : 17 < maxDepth)
  obtain ⟨d,encoded,ok⟩ : ∃ d, Json.encodeValue (chain 19) 19 [] (.table 0) = .ok d ∧ d.writable = true :=
    chain_encodes rfl (by decide) (by simp)
  have small := JsonAcceptance.acceptable_of_encodes 19 encoded ok
  have accepted : JsonAcceptance.Acceptable (chain 19) maxDepth (.table 0) :=
    { small with shallow := fun levels a path proper => (small.shallow levels a path proper).trans (by decide) }
  obtain ⟨s,written⟩ := (JsonAcceptance.encode_accepts JsonText.reference _ _).mpr accepted
  obtain ⟨root,encodes,_⟩ := Json.encode_ok written
  refine ⟨⟨t,decoded⟩,?_,⟨s,written⟩,?_⟩
  · rw [ldecode_peak decoded]
    intro needs
    have bound : 0 + 17 + 2 * 0 + 4 ≤ 20 := needs 17 0 _ (brackets_under 17)
    omega
  · rw [lencode_peak encodes minStack (by decide)]
    intro tables
    have path : Nested (chain 19) (18+1) (.table 0) (.integer 7) := chain_nested rfl (by decide)
    obtain ⟨a,above,proper⟩ := nested_parent path
    have bound : 18 + 3 ≤ 20 := tables 18 a above proper
    omega

end Hypringo.JsonStack

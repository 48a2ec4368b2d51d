import Hypringo.Lua.Heap

namespace Hypringo.Lua

-- Tables written in place. Tables and userdata have a metatable each, the other
-- types share one for each type. Upvalues are what the chunk's functions keep
-- between calls; no table reaches them.
structure World where
  size : Nat
  table : Address → Table
  metatable : Value → Option Address
  upvalue : Nat → Value

instance (v : Value) (n : Nat) : Decidable (v.Within n) :=
  match v with
  | .table a => inferInstanceAs (Decidable (a < n))
  | .nil | .boolean _ | .integer _ | .float _ | .string _ | .other _ _ => .isTrue trivial

namespace World

def get (w : World) (a : Address) (key : Value) : Value := (w.table a).get key

def rawSet (w : World) (a : Address) (key value : Value) : World :=
  { w with table := fun b => if b = a then (w.table a).set key value else w.table b }

def alloc (w : World) : World where
  size := w.size + 1
  table := fun a => if a = w.size then .empty false else w.table a
  metatable := fun v => if v = .table w.size then none else w.metatable v
  upvalue := w.upvalue

def raw (w : World) (v key : Value) : Value :=
  match v with
  | .table a => w.get a key
  | _ => .nil

def metamethod (w : World) (v : Value) (event : Bytes) : Value :=
  match w.metatable v with
  | some m => w.get m (.string event)
  | none => .nil

-- A field that is there hides the metatable.
def handler (w : World) (event : Bytes) (v key : Value) : Value :=
  if w.raw v key = .nil then w.metamethod v event else .nil

-- The first operand decides, then the second.
def binary (w : World) (event : Bytes) (left right : Value) : Value :=
  match w.metamethod left event with
  | .nil => w.metamethod right event
  | f => f

-- No allocated table and no upvalue refers outside the allocated part.
structure Closed (w : World) : Prop where
  entries : ∀ a < w.size, ∀ entry ∈ (w.table a).entries, entry.1.Within w.size ∧ entry.2.Within w.size
  metatables : ∀ v : Value, v.Within w.size → ∀ m, w.metatable v = some m → m < w.size
  upvalues : ∀ n, (w.upvalue n).Within w.size

theorem Closed.get {w : World} (closed : w.Closed) {a : Address} (allocated : a < w.size) (key : Value) :
    (w.get a key).Within w.size := Table.get_within key (closed.entries a allocated)

theorem Closed.raw {w : World} (closed : w.Closed) {v : Value} (inside : v.Within w.size) (key : Value) :
    (w.raw v key).Within w.size := by
  cases v with
  | table a => exact closed.get inside key
  | _ => trivial

theorem Closed.metamethod {w : World} (closed : w.Closed) {v : Value} (inside : v.Within w.size) (event : Bytes) :
    (w.metamethod v event).Within w.size := by
  unfold World.metamethod
  split
  · rename_i m held
    exact closed.get (closed.metatables v inside m held) _
  · trivial

theorem get_rawSet_same {w : World} {a : Address} {key value : Value} (ok : key.isKey = true) (some : value ≠ .nil) :
    (w.rawSet a key value).get a key = value := by
  simp only [get,rawSet,if_true]
  exact Table.get_set_same ok some

theorem get_rawSet_other {w : World} {a b : Address} {key other value : Value} (apart : b ≠ a ∨ other ≠ key) :
    (w.rawSet a key value).get b other = w.get b other := by
  simp only [get,rawSet]
  split
  · rename_i same
    subst same
    exact Table.get_set_other (apart.resolve_left fun different => different rfl)
  · rfl

theorem rawSet_idle {w : World} {a : Address} {key value : Value} (held : w.get a key = value) (some : value ≠ .nil) :
    w.rawSet a key value = w := by
  have same : (fun b => if b = a then (w.table a).set key value else w.table b) = w.table := by
    funext b
    split
    · rename_i here
      subst here
      exact Table.set_idle held some
    · rfl
  simp only [rawSet,same]

theorem alloc_old {w : World} {a : Address} (old : a < w.size) : w.alloc.table a = w.table a := by
  have different : a ≠ w.size := Nat.ne_of_lt old
  simp [alloc,different]

theorem alloc_metatable {w : World} {v : Value} (old : v.Within w.size) : w.alloc.metatable v = w.metatable v := by
  have different : v ≠ .table w.size := by
    rintro rfl
    exact Nat.lt_irrefl _ old
  simp [alloc,different]

theorem rawSet_closed {w : World} (closed : w.Closed) {a : Address} {key value : Value} (name : key.Within w.size)
    (inside : value.Within w.size) : (w.rawSet a key value).Closed := by
  refine ⟨?_,closed.metatables,closed.upvalues⟩
  intro b bound entry member
  by_cases same : b = a
  · subst same
    simp only [rawSet,if_true] at member
    rcases Table.mem_of_mem_set member with rfl | old
    · exact ⟨name,inside⟩
    · exact closed.entries b bound entry old
  · simp only [rawSet,if_neg same] at member
    exact closed.entries b bound entry member

theorem alloc_closed {w : World} (closed : w.Closed) : w.alloc.Closed := by
  refine ⟨?_,?_,fun n => (closed.upvalues n).mono (Nat.le_succ _)⟩
  · intro a bound entry member
    rcases Nat.lt_succ_iff_lt_or_eq.mp bound with old | rfl
    · rw [alloc_old old] at member
      obtain ⟨key,value⟩ := closed.entries a old entry member
      exact ⟨key.mono (Nat.le_succ _),value.mono (Nat.le_succ _)⟩
    · simp [alloc,Table.empty] at member
  · intro v bound m held
    by_cases new : v = .table w.size
    · subst new
      simp [alloc] at held
    · have old : v.Within w.size := by
        cases v with
        | table a =>
          rcases Nat.lt_succ_iff_lt_or_eq.mp bound with old | rfl
          · exact old
          · exact absurd rfl new
        | _ => trivial
      rw [alloc_metatable old] at held
      exact Nat.lt_succ_of_lt (closed.metatables v old m held)

-- Tables written out field by field, none with a metatable.
def listed (tables : List (List (Value × Value))) : World where
  size := tables.length
  table := fun a => .build false (tables.getD a [])
  metatable := fun _ => none
  upvalue := fun _ => .nil

theorem listed_closed {tables : List (List (Value × Value))}
    (inside : ∀ fields ∈ tables, ∀ field ∈ fields, field.1.Within tables.length ∧ field.2.Within tables.length) :
    (listed tables).Closed := by
  refine ⟨?_,nofun,fun _ => trivial⟩
  intro a bound entry member
  rcases Table.mem_of_mem_fold _ member with old | field
  · cases old
  · rw [List.getD_eq_getElem?_getD,List.getElem?_eq_getElem bound] at field
    exact inside _ (List.getElem_mem bound) entry field

end World

-- A Lua function raises, or returns and leaves the tables and upvalues as it
-- does.
abbrev Program (α : Type) := StateT World (Except Bytes) α

namespace Program
variable {α : Type}

def raise (message : Bytes) : Program α := fun _ => .error message

def newTable : Program Value := fun w => .ok (.table w.size,w.alloc)

-- A computation that looks at no table.
def lift (result : Except Bytes α) : Program α := fun w => result.map (fun x => (x,w))

theorem lift_ok {result : Except Bytes α} {x : α} {w later : World} :
    lift result w = .ok (x,later) ↔ result = .ok x ∧ later = w := by
  cases result with
  | error message => simp [lift,Except.map]
  | ok y => simp [lift,Except.map,eq_comm]

end Program

-- What a call runs is the chunk's own code: it may change the tables and the
-- upvalues, and answer by both.
structure Foreign where
  call : Value → List Value → Program Value

-- The number of metatables an access goes through.
def maxTagLoop : Nat := 2000

namespace Value

def isNumber : Value → Bool
  | .integer _ | .float _ => true
  | _ => false

-- Numbers in units of 2^-1074, the infinities beyond every finite one.
def ordinal : Value → Option Int
  | .integer i => some (i.toInt * 2^1074)
  | .float f =>
    if f.nan then none
    else if f.finite then some f.scaled
    else some (if f.negative then -2^2200 else 2^2200)
  | _ => none

end Value

inductive Order where
  | less
  | lessEqual
  deriving DecidableEq, Repr

namespace Order

def event : Order → Bytes
  | .less => text "__lt"
  | .lessEqual => text "__le"

def holds : Order → Int → Int → Bool
  | .less,m,n => decide (m < n)
  | .lessEqual,m,n => decide (m ≤ n)

def texts : Order → Bytes → Bytes → Bool
  | .less,s,t => decide (s < t)
  | .lessEqual,s,t => !decide (t < s)

end Order

def orderError (left right : Value) : Bytes :=
  if left.typeName = right.typeName then text "attempt to compare two " ++ left.typeName ++ text " values"
  else text "attempt to compare " ++ left.typeName ++ text " with " ++ right.typeName

section Access
variable (foreign : Foreign)

-- Messages leave out the name of what was indexed.
def fetch (key : Value) : Value → Program Value
  | .table a => fun w => .ok (w.get a key,w)
  | v => .raise (text "attempt to index a " ++ v.typeName ++ text " value")

def store (key value : Value) : Value → Program Unit
  | .table a => fun w => .ok ((),w.rawSet a key value)
  | v => .raise (text "attempt to index a " ++ v.typeName ++ text " value")

def indexLoop (key : Value) : Nat → Value → Program Value
  | 0,_ => .raise (text "'__index' chain too long; possibly a loop")
  | n+1,v => fun w =>
    match w.handler (text "__index") v key with
    | .nil => fetch key v w
    | .other .function f => foreign.call (.other .function f) [v,key] w
    | next => indexLoop key n next w

def assignLoop (key value : Value) : Nat → Value → Program Unit
  | 0,_ => .raise (text "'__newindex' chain too long; possibly a loop")
  | n+1,v => fun w =>
    match w.handler (text "__newindex") v key with
    | .nil => store key value v w
    | .other .function f => (foreign.call (.other .function f) [v,key,value] w).map (fun result => ((),result.2))
    | next => assignLoop key value n next w

def index (v : Value) (name : String) : Program Value := indexLoop foreign (.string (text name)) maxTagLoop v

def assign (v : Value) (name : String) (value : Value) : Program Unit :=
  assignLoop foreign (.string (text name)) value maxTagLoop v

def compare (order : Order) (left right : Value) : Program Bool := fun w =>
  match left,right with
  | .integer i,.integer j => .ok (order.holds i.toInt j.toInt,w)
  | .string s,.string t => .ok (order.texts s t,w)
  | left,right =>
    if left.isNumber && right.isNumber then
      .ok (match left.ordinal,right.ordinal with
        | some m,some n => order.holds m n
        | _,_ => false,w)
    else match w.binary order.event left right with
      | .nil => .error (orderError left right)
      | f => (foreign.call f [left,right] w).map (fun result => (result.1.truthy,result.2))

-- Only two tables, or two userdata, are compared by a metamethod.
def equals (left right : Value) : Program Bool := fun w =>
  if left.rawEqual right then .ok (true,w)
  else match left,right with
    | .table _,.table _ | .other .userdata _,.other .userdata _ =>
      match w.binary (text "__eq") left right with
      | .nil => .ok (false,w)
      | f => (foreign.call f [left,right] w).map (fun result => (result.1.truthy,result.2))
    | _,_ => .ok (false,w)

end Access
end Hypringo.Lua

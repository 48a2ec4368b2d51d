import Hypringo.JsonText

namespace Hypringo.JsonRoundtrip
open Hypringo.Lua Json

-- What a decoded tree may be of a value: the value unfolded, nil read as null,
-- dense tables as arrays.
inductive Reads (h : Heap) : Value → Tree → Prop
  | nothing : Reads h .nil .null
  | null : Reads h (.table h.null) .null
  | boolean (b : Bool) : Reads h (.boolean b) (.boolean b)
  | integer (i : Int64) : Reads h (.integer i) (.integer i)
  | float (f : Float64) : Reads h (.float f) (.float f)
  | string (s : Bytes) : Reads h (.string s) (.string s)
  | array (a : Address) (items : List Tree) (proper : a ≠ h.null) (dense : Dense (h.table a) items.length)
      (classed : (h.table a).marked = true ∨ 0 < items.length)
      (each : ∀ index item, items[index]? = some item → Reads h ((h.table a).get (arrayKey index)) item) :
      Reads h (.table a) (.array items)
  | object (a : Address) (members : List (Bytes × Tree)) (proper : a ≠ h.null)
      (plain : (h.table a).marked = false)
      (sorted : members.Pairwise (fun left right => ordinal left.1 < ordinal right.1))
      (fields : ∀ key, (h.table a).get key ≠ .nil ↔ ∃ member ∈ members, key = .string member.1)
      (each : ∀ member ∈ members, Reads h ((h.table a).get (.string member.1)) member.2) :
      Reads h (.table a) (.object members)

-- `w` lies inside `levels` tables of `v`, one within the other.
inductive Nested (h : Heap) : Nat → Value → Value → Prop
  | here (v : Value) : Nested h 0 v v
  | inside {levels : Nat} {a : Address} {key child w : Value} (proper : a ≠ h.null)
      (entry : (key,child) ∈ (h.table a).entries) (deeper : Nested h levels child w) :
      Nested h (levels+1) (.table a) w

theorem not_nested_scalar {h : Heap} {levels : Nat} {v w : Value} (flat : v.scalar = true ∨ v = .table h.null) :
    ¬Nested h (levels+1) v w := by
  intro nested
  cases nested with
  | inside proper _ _ =>
    rcases flat with scalar | null
    · simp [Value.scalar] at scalar
    · injection null with same
      exact proper same

-- The outcome of reading back what stands for `v`, with `room` levels left.
def Outcome (h : Heap) (room : Nat) (v : Value) : Except Bytes Tree → Prop
  | .ok t => Reads h v t ∧ ∀ w, ¬Nested h room v w
  | .error _ => ∃ w, Nested h room v w

theorem integer_outcome (room : Nat) (i : Int64) :
    decodeValue (room+1) (Doc.sint i.toInt).canonical = .ok (.integer i) := by
  have high := i.toInt_lt
  simp only [Doc.canonical]
  split
  · rename_i positive
    have small : i.toInt.toNat ≤ 2^63 - 1 := by omega
    have value : ((i.toInt.toNat : Nat) : Int) = i.toInt := by omega
    simp only [decodeValue,small,if_true,value,Int64.ofInt_toInt]
  · simp only [decodeValue,Int64.ofInt_toInt]

theorem array_outcome {h : Heap} {room : Nat} {a : Address} {child : Value → Except Bytes Doc} {items : List Doc}
    (proper : a ≠ h.null) (dense : Dense (h.table a) items.length)
    (classed : (h.table a).marked = true ∨ 0 < items.length)
    (each : ∀ index item, items[index]? = some item → child ((h.table a).get (arrayKey index)) = .ok item)
    (children : ∀ w e, child w = .ok e → Outcome h room w (decodeValue room e.canonical)) :
    Outcome h (room+1) (.table a) (decodeValue (room+1) (Doc.array items).canonical) := by
  rw [Doc.canonical,canonicalItems_eq,decodeValue]
  cases result : (items.map Doc.canonical).mapM (decodeValue room) with
  | error e =>
    obtain ⟨doc,member,failed⟩ := Raise.mapM_error result
    obtain ⟨item,listed,rfl⟩ := List.mem_map.mp member
    obtain ⟨index,found⟩ := List.mem_iff_getElem?.mp listed
    have deep := children _ _ (each index item found)
    rw [failed] at deep
    obtain ⟨w,nested⟩ := deep
    obtain ⟨bound,_⟩ := List.getElem?_eq_some_iff.mp found
    have held := (dense.keys (arrayKey index)).mpr ⟨index,bound,rfl⟩
    exact ⟨w,.inside proper (Table.mem_of_get held) nested⟩
  | ok trees =>
    have decoded := Raise.mapM_ok.mp result
    have sizes : trees.length = items.length := by simpa using decoded.length_eq.symm
    have element : ∀ index tree, trees[index]? = some tree →
        Outcome h room ((h.table a).get (arrayKey index)) (.ok tree) := by
      intro index tree found
      obtain ⟨bound,same⟩ := List.getElem?_eq_some_iff.mp found
      have listed : items[index]? = some (items[index]) := List.getElem?_eq_getElem (by omega)
      have read := (List.forall₂_iff_get.mp decoded).2 index (by simp; omega) bound
      simp only [List.get_eq_getElem,List.getElem_map,same] at read
      have outcome := children _ _ (each index _ listed)
      rwa [read] at outcome
    refine ⟨.array a trees proper (sizes ▸ dense) (sizes ▸ classed) ?_,?_⟩
    · intro index tree found
      exact (element index tree found).1
    · intro w nested
      cases nested with
      | inside _ entry deeper =>
        have value := Table.get_of_mem entry
        obtain ⟨index,bound,rfl⟩ := (dense.keys _).mp (by rw [value]; exact (h.table a).present _ entry)
        have listed : trees[index]? = some trees[index] := List.getElem?_eq_getElem (by omega)
        have outcome := element index _ listed
        rw [value] at outcome
        exact outcome.2 w deeper

theorem decodeMember_ok {child : Doc → Except Bytes Tree} {member : Bytes × Doc} {result : Bytes × Tree} :
    decodeMember child member = .ok result ↔ result.1 = member.1 ∧ child member.2 = .ok result.2 := by
  unfold decodeMember
  rw [Raise.bind_ok]
  constructor
  · intro found
    obtain ⟨value,read,last⟩ := found
    cases last
    exact ⟨rfl,read⟩
  · intro found
    obtain ⟨key,value⟩ := result
    obtain ⟨same,read⟩ := found
    subst same
    exact ⟨value,read,rfl⟩

theorem decodeMember_error {child : Doc → Except Bytes Tree} {member : Bytes × Doc} {e : Bytes}
    (failed : decodeMember child member = .error e) : child member.2 = .error e := by
  unfold decodeMember at failed
  rcases Raise.bind_error.mp failed with raised | ⟨_,_,impossible⟩
  · exact raised
  · cases impossible

theorem object_outcome {h : Heap} {room : Nat} {a : Address} {child : Value → Except Bytes Doc}
    {members : List (Bytes × Doc)} (proper : a ≠ h.null) (plain : (h.table a).marked = false)
    (sorted : members.Pairwise (fun left right => ordinal left.1 < ordinal right.1))
    (fields : ∀ key, (h.table a).get key ≠ .nil ↔ ∃ member ∈ members, key = .string member.1)
    (each : ∀ member ∈ members, child ((h.table a).get (.string member.1)) = .ok member.2)
    (children : ∀ w e, child w = .ok e → Outcome h room w (decodeValue room e.canonical)) :
    Outcome h (room+1) (.table a) (decodeValue (room+1) (Doc.object members).canonical) := by
  rw [Doc.canonical,canonicalMembers_eq,decodeValue]
  cases result : (members.map (fun member => (member.1,member.2.canonical))).mapM (decodeMember (decodeValue room)) with
  | error e =>
    obtain ⟨renamed,member,failed⟩ := Raise.mapM_error result
    obtain ⟨stored,listed,rfl⟩ := List.mem_map.mp member
    have deep := children _ _ (each stored listed)
    rw [decodeMember_error failed] at deep
    obtain ⟨w,nested⟩ := deep
    have held := (fields (.string stored.1)).mpr ⟨stored,listed,rfl⟩
    exact ⟨w,.inside proper (Table.mem_of_get held) nested⟩
  | ok trees =>
    have decoded := Raise.mapM_ok.mp result
    have names : trees.map Prod.fst = members.map Prod.fst := by
      have same := map_eq_of_forall₂ (f := Prod.fst) (g := Prod.fst) (decoded.imp (fun _ _ read => (decodeMember_ok.mp read).1))
      rw [same,List.map_map]
      rfl
    have ordered : trees.Pairwise (fun left right => ordinal left.1 < ordinal right.1) := by
      have keys : (members.map Prod.fst).Pairwise (fun left right => ordinal left < ordinal right) :=
        List.pairwise_map.mpr sorted
      rw [← names,List.pairwise_map] at keys
      exact keys
    have element : ∀ tree ∈ trees, Outcome h room ((h.table a).get (.string tree.1)) (.ok tree.2) := by
      intro tree listed
      obtain ⟨renamed,member,read⟩ := Raise.forall₂_right decoded listed
      obtain ⟨stored,present,rfl⟩ := List.mem_map.mp member
      obtain ⟨sameKey,readValue⟩ := decodeMember_ok.mp read
      have outcome := children _ _ (each stored present)
      rw [readValue] at outcome
      rw [sameKey]
      exact outcome
    have kept : trees.foldl (fun held member => setMember member.1 member.2 held) [] = [] ++ trees :=
      setMember_sorted ordered
    change Outcome h (room+1) (.table a)
      (.ok (.object (trees.foldl (fun held member => setMember member.1 member.2 held) [])))
    rw [kept,List.nil_append]
    have known : ∀ name, (∃ member ∈ members, name = Value.string member.1) ↔ ∃ tree ∈ trees, name = Value.string tree.1 := by
      intro name
      have same : (∃ key ∈ members.map Prod.fst, name = Value.string key) ↔ ∃ key ∈ trees.map Prod.fst, name = Value.string key := by
        rw [names]
      simpa using same
    refine ⟨.object a trees proper plain ordered (fun key => (fields key).trans (known key)) ?_,?_⟩
    · intro tree listed
      exact (element tree listed).1
    · intro w nested
      cases nested with
      | inside _ entry deeper =>
        have value := Table.get_of_mem entry
        have present := (fields _).mp (by rw [value]; exact (h.table a).present _ entry)
        obtain ⟨tree,listed,rfl⟩ := (known _).mp present
        have outcome := element tree listed
        rw [value] at outcome
        exact outcome.2 w deeper

-- Induction on the room left: the decoder has one level less for every level
-- the encoder went down, and meets the limit exactly where a value lies below
-- the last table.
theorem encodeValue_outcome {h : Heap} (room : Nat) (visiting : List Address) {v : Value} {d : Doc}
    (encoded : encodeValue h room visiting v = .ok d) : Outcome h room v (decodeValue room d.canonical) := by
  induction room generalizing visiting v d with
  | zero => exact ⟨v,.here v⟩
  | succ room ih =>
    cases v with
    | nil =>
      cases encoded
      exact ⟨.nothing,fun w => not_nested_scalar (.inl rfl)⟩
    | boolean b =>
      cases encoded
      exact ⟨.boolean b,fun w => not_nested_scalar (.inl rfl)⟩
    | integer i =>
      cases encoded
      rw [integer_outcome room i]
      exact ⟨.integer i,fun w => not_nested_scalar (.inl rfl)⟩
    | float f =>
      simp only [encodeValue] at encoded
      split at encoded
      · cases encoded
        exact ⟨.float f,fun w => not_nested_scalar (.inl rfl)⟩
      · cases encoded
    | string s =>
      cases encoded
      exact ⟨.string s,fun w => not_nested_scalar (.inl rfl)⟩
    | other kind identity => cases encoded
    | table a =>
      simp only [encodeValue] at encoded
      split at encoded
      · rename_i null
        cases encoded
        subst null
        exact ⟨.null,fun w => not_nested_scalar (.inr rfl)⟩
      · rename_i proper
        split at encoded
        · cases encoded
        · cases encodeTable_written encoded with
          | array items dense classed each =>
            exact array_outcome proper dense classed each (fun _ _ child => ih _ child)
          | object members plain sorted fields each =>
            exact object_outcome proper plain sorted fields each (fun _ _ child => ih _ child)

-- Whatever was encoded decodes to itself, unless a value lies inside as many
-- tables as the limit allows.
theorem decode_encode_iff {y : Yyjson} {h : Heap} {v : Value} {s : Bytes} (encoded : encode y h v = .ok s) :
    (∃ t, decode y s = .ok t ∧ Reads h v t) ↔ ¬∃ w, Nested h maxDepth v w := by
  obtain ⟨d,root,written⟩ := encode_ok encoded
  have outcome := encodeValue_outcome maxDepth [] root
  simp only [decode,write_ok written]
  cases decoded : decodeValue maxDepth d.canonical with
  | ok t =>
    rw [decoded] at outcome
    constructor
    · intro _ deep
      obtain ⟨w,nested⟩ := deep
      exact outcome.2 w nested
    · intro _
      exact ⟨t,rfl,outcome.1⟩
  | error e =>
    rw [decoded] at outcome
    constructor
    · intro read
      obtain ⟨t,impossible,_⟩ := read
      cases impossible
    · intro shallow
      exact absurd outcome shallow

-- Tables 0, 1, 2, ... each holding the next; from `levels` on they hold 7.
def chain (levels : Nat) : Heap where
  size := levels
  table := fun (a : Nat) => .build false [(.integer 1,if a + 1 < levels then .table (a + 1) else .integer 7)]
  null := levels

theorem chain_shape (levels a : Nat) : tableShape ((chain levels).table a) = .ok (.array 1) := by
  unfold chain
  dsimp only
  split <;> rfl

theorem chain_get (levels a : Nat) :
    ((chain levels).table a).get (arrayKey 0) = if a + 1 < levels then .table (a + 1) else .integer 7 := by
  unfold chain
  dsimp only
  split <;> rfl

theorem chain_entries (levels a : Nat) : ((chain levels).table a).entries =
    [(.integer 1,if a + 1 < levels then .table (a + 1) else .integer 7)] := by
  unfold chain
  dsimp only
  split <;> rfl

theorem chain_shallow {levels depth a : Nat} {w : Value} (nested : Nested (chain levels) depth (.table a) w) :
    depth ≤ max 1 (levels - a) := by
  induction depth generalizing a with
  | zero => omega
  | succ depth ih =>
    cases nested with
    | inside _ entry deeper =>
      rw [chain_entries,List.mem_singleton] at entry
      have child := congrArg Prod.snd entry
      dsimp only at child
      subst child
      split at deeper
      · have bound := ih deeper
        omega
      · cases depth with
        | zero => omega
        | succ depth => exact absurd deeper (not_nested_scalar (.inl rfl))

theorem chain_nested {levels room a : Nat} (place : a + room = levels) (below : 0 < room) :
    Nested (chain levels) room (.table a) (.integer 7) := by
  induction room generalizing a with
  | zero => omega
  | succ room ih =>
    have proper : a ≠ (chain levels).null := by simp only [chain]; omega
    have child := chain_get levels a
    have entry : (arrayKey 0,((chain levels).table a).get (arrayKey 0)) ∈ ((chain levels).table a).entries := by
      apply Table.mem_of_get
      rw [child]
      split <;> simp
    cases room with
    | zero =>
      rw [child,if_neg (by omega)] at entry
      exact .inside proper entry (.here _)
    | succ room =>
      rw [child,if_pos (by omega)] at entry
      exact .inside proper entry (ih (by omega) (by omega))

theorem chain_encodes {levels room a : Nat} {visiting : List Address} (place : a + room = levels)
    (below : 0 < room) (fresh : ∀ seen ∈ visiting, seen < a) :
    ∃ d, encodeValue (chain levels) room visiting (.table a) = .ok d ∧ d.writable = true := by
  induction room generalizing a visiting with
  | zero => omega
  | succ room ih =>
    have proper : a ≠ (chain levels).null := by simp only [chain]; omega
    have unseen : a ∉ visiting := fun seen => Nat.lt_irrefl a (fresh a seen)
    have child : ∃ d, encodeValue (chain levels) room (a :: visiting) (((chain levels).table a).get (arrayKey 0)) = .ok d ∧
        d.writable = true := by
      rw [chain_get]
      cases room with
      | zero =>
        rw [if_neg (by omega)]
        exact ⟨.sint 7,rfl,by decide⟩
      | succ room =>
        rw [if_pos (by omega)]
        apply ih (by omega) (by omega)
        intro seen member
        rcases List.mem_cons.mp member with same | older
        · exact same ▸ Nat.lt_succ_self a
        · exact Nat.lt_succ_of_lt (fresh seen older)
    obtain ⟨d,encoded,ok⟩ := child
    refine ⟨.array [d],?_,by simp [Doc.writable,writableItems,ok]⟩
    simp only [encodeValue,if_neg proper,if_neg unseen,encodeTable,chain_shape,encodeArray]
    simp [List.range_succ,encoded,bind,Except.bind,pure,Except.pure]

-- A small value reads back as the theorem says.
theorem chain_decodes : ∃ s, encode JsonText.reference (chain 2) (.table 0) = .ok s ∧
    ∃ t, decode JsonText.reference s = .ok t ∧ Reads (chain 2) (.table 0) t := by
  have encoded : encode JsonText.reference (chain 2) (.table 0) = .ok (text "[[7]]") := by
    rfl
  refine ⟨_,encoded,(decode_encode_iff encoded).mpr ?_⟩
  intro deep
  obtain ⟨w,nested⟩ := deep
  have bound := chain_shallow nested
  simp [maxDepth] at bound

theorem limit_encodes_undecodable : ∃ s, encode JsonText.reference (chain 256) (.table 0) = .ok s ∧
    ¬∃ t, decode JsonText.reference s = .ok t := by
  have encodes : ∃ d, encodeValue (chain 256) 256 [] (.table 0) = .ok d ∧ d.writable = true :=
    chain_encodes rfl (by decide) (by simp)
  obtain ⟨d,encoded,ok⟩ := encodes
  obtain ⟨s,written,_⟩ := JsonText.reference.read_write d ok
  have whole : encode JsonText.reference (chain 256) (.table 0) = .ok s := by
    simp only [encode,maxDepth,encoded,bind,Except.bind,written]
    rfl
  refine ⟨s,whole,?_⟩
  have outcome := encodeValue_outcome 256 [] encoded
  intro read
  obtain ⟨t,decoded⟩ := read
  simp only [decode,write_ok written,maxDepth] at decoded
  rw [decoded] at outcome
  exact outcome.2 _ (chain_nested rfl (by decide))

end Hypringo.JsonRoundtrip

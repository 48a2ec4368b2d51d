import Hypringo.Json
import Hypringo.Lua.Alike

namespace Hypringo.Document
open Hypringo.Lua Json

def scalarDocument : Value → Except Bytes Doc
  | .nil => .ok .null
  | .boolean b => .ok (.boolean b)
  | .integer i => .ok (.sint i.toInt)
  | .float f => if f.finite then .ok (.real f) else .error (text "cannot encode a non-finite number")
  | .string s => .ok (.string s)
  | v => .error (text "cannot encode " ++ v.typeName)

-- The document a value stands for, whatever path led to it.
def document (h : Heap) (room : Nat) (v : Value) : Except Bytes Doc :=
  match v with
  | .table a =>
    if a = h.null then .ok .null
    else match room with
      | 0 => .error (text "JSON nesting exceeds 256 levels")
      | room+1 => encodeTable (h.table a) (document h room)
  | v => scalarDocument v

theorem document_scalar {h : Heap} {v : Value} (scalar : v.scalar = true) (room : Nat) :
    document h room v = scalarDocument v := by
  cases v with
  | table a => simp [Value.scalar] at scalar
  | _ => unfold document; rfl

theorem encodeValue_scalar {h : Heap} {v : Value} (scalar : v.scalar = true) (room : Nat) (path : List Address) :
    encodeValue h room path v = scalarDocument v := by
  cases v with
  | table a => simp [Value.scalar] at scalar
  | _ => unfold encodeValue; rfl

theorem document_null (h : Heap) (room : Nat) : document h room (.table h.null) = .ok .null := by
  unfold document
  simp

theorem document_table {h : Heap} {a : Address} (proper : a ≠ h.null) (room : Nat) :
    document h (room+1) (.table a) = encodeTable (h.table a) (document h room) := by
  rw [document]
  simp [proper]

theorem encodeValue_table {h : Heap} {a : Address} {path : List Address} (proper : a ≠ h.null) (fresh : a ∉ path)
    (room : Nat) : encodeValue h (room+1) path (.table a) = encodeTable (h.table a) (encodeValue h room (a :: path)) := by
  rw [encodeValue]
  simp [proper,fresh]

theorem tableShape_congr {t u : Table} (marks : u.marked = t.marked)
    (keys : u.entries.map Prod.fst = t.entries.map Prod.fst) : tableShape u = tableShape t := by
  have counts : u.entries.length = t.entries.length := by simpa using congrArg List.length keys
  have largest : u.entries.foldl (fun maximum entry => largerKey maximum entry.1) 0 =
      t.entries.foldl (fun maximum entry => largerKey maximum entry.1) 0 := by
    have folded := congrArg (List.foldl largerKey 0) keys
    rwa [List.foldl_map,List.foldl_map] at folded
  have positive : u.entries.all (fun entry => positiveKey entry.1) = t.entries.all (fun entry => positiveKey entry.1) := by
    have all := congrArg (List.all · positiveKey) keys
    simpa only [List.all_map,Function.comp_def] using all
  simp only [tableShape,marks,counts,largest,positive]

theorem collectObjectKeys_congr {t u : Table} (keys : u.entries.map Prod.fst = t.entries.map Prod.fst) :
    collectObjectKeys u = collectObjectKeys t := by
  have taken : ∀ entries : List (Value × Value),
      entries.mapM objectKey = (entries.map Prod.fst).mapM (fun key => objectKey (key,.nil)) := by
    intro entries
    rw [List.mapM_map]
    congr 1
  simp only [collectObjectKeys,taken,keys]

theorem mapM_transfer {f g : α → Except ε β} {xs : List α} {ys : List β}
    (same : ∀ x ∈ xs, ∀ y, f x = .ok y → g x = .ok y) (done : xs.mapM f = .ok ys) : xs.mapM g = .ok ys := by
  rw [Raise.mapM_ok] at done ⊢
  induction done with
  | nil => exact .nil
  | cons first _ ih =>
    exact .cons (same _ (by simp) _ first) (ih (fun x member y => same x (by simp [member]) y))

-- A table document can be taken over to another table with the same marks and
-- keys as soon as the members can.
theorem encodeTable_transfer {t u : Table} {child other : Value → Except Bytes Doc} {d : Doc}
    (marks : u.marked = t.marked) (keys : u.entries.map Prod.fst = t.entries.map Prod.fst)
    (members : ∀ key e, t.get key ≠ .nil → child (t.get key) = .ok e → other (u.get key) = .ok e)
    (encoded : encodeTable t child = .ok d) : encodeTable u other = .ok d := by
  obtain ⟨shape,shaped,body⟩ := Raise.bind_ok.mp encoded
  refine Raise.bind_ok.mpr ⟨shape,(tableShape_congr marks keys).trans shaped,?_⟩
  cases shape with
  | array length =>
    obtain ⟨dense,_⟩ := tableShape_array shaped
    obtain ⟨items,each,last⟩ := Raise.bind_ok.mp body
    refine Raise.bind_ok.mpr ⟨items,mapM_transfer ?_ each,last⟩
    intro index ranged item
    exact members (arrayKey index) item ((dense.keys _).mpr ⟨index,List.mem_range.mp ranged,rfl⟩)
  | object count =>
    obtain ⟨names,collected,rest⟩ := Raise.bind_ok.mp body
    obtain ⟨_,fields⟩ := collectObjectKeys_ok collected
    obtain ⟨docs,each,last⟩ := Raise.bind_ok.mp rest
    refine Raise.bind_ok.mpr ⟨names,(collectObjectKeys_congr keys).trans collected,?_⟩
    refine Raise.bind_ok.mpr ⟨docs,mapM_transfer ?_ each,last⟩
    intro name known doc stored
    obtain ⟨same,value⟩ := encodeMember_ok.mp stored
    exact encodeMember_ok.mpr ⟨same,members (.string name) _ ((fields _).mpr ⟨name,known,rfl⟩) value⟩

theorem encodeTable_imp {t : Table} {child other : Value → Except Bytes Doc} {d : Doc}
    (members : ∀ key e, t.get key ≠ .nil → child (t.get key) = .ok e → other (t.get key) = .ok e)
    (encoded : encodeTable t child = .ok d) : encodeTable t other = .ok d :=
  encodeTable_transfer rfl rfl members encoded

theorem written_scalar_keys {t : Table} {child : Value → Except Bytes Doc} {d : Doc} (written : Written t child d)
    {entry : Value × Value} (member : entry ∈ t.entries) : entry.1.scalar = true := by
  have value := Table.get_of_mem member
  have present : t.get entry.1 ≠ .nil := by rw [value]; exact t.present entry member
  cases written with
  | array items dense _ _ =>
    obtain ⟨index,_,same⟩ := (dense.keys _).mp present
    rw [same]
    rfl
  | object members _ _ fields _ =>
    obtain ⟨name,_,same⟩ := (fields _).mp present
    rw [same]
    rfl

theorem written_child {t : Table} {child : Value → Except Bytes Doc} {d : Doc} (written : Written t child d)
    {entry : Value × Value} (member : entry ∈ t.entries) : ∃ e, child entry.2 = .ok e := by
  have value := Table.get_of_mem member
  have present : t.get entry.1 ≠ .nil := by rw [value]; exact t.present entry member
  rw [← value]
  cases written with
  | array items dense _ each =>
    obtain ⟨index,bound,same⟩ := (dense.keys _).mp present
    rw [same]
    exact ⟨_,each index _ (List.getElem?_eq_getElem bound)⟩
  | object members _ _ fields each =>
    obtain ⟨name,listed,same⟩ := (fields _).mp present
    rw [same]
    exact ⟨_,each name listed⟩

-- Induction rule over documents: scalars and null, and tables whose members
-- have documents with one level less.
theorem document_induction {h : Heap} {motive : Nat → Value → Doc → Prop}
    (scalar : ∀ room v d, v.scalar = true → document h room v = .ok d → motive room v d)
    (null : ∀ room, motive room (.table h.null) .null)
    (table : ∀ room a d, a ≠ h.null → encodeTable (h.table a) (document h room) = .ok d →
      (∀ w e, document h room w = .ok e → motive room w e) → motive (room+1) (.table a) d)
    {room : Nat} {v : Value} {d : Doc} (found : document h room v = .ok d) : motive room v d := by
  induction room generalizing v d with
  | zero =>
    cases v with
    | table a =>
      by_cases isNull : a = h.null
      · subst isNull
        rw [document_null] at found
        cases found
        exact null 0
      · unfold document at found
        simp [isNull] at found
    | _ => exact scalar 0 _ d rfl found
  | succ room ih =>
    cases v with
    | table a =>
      by_cases isNull : a = h.null
      · subst isNull
        rw [document_null] at found
        cases found
        exact null (room+1)
      · rw [document_table isNull] at found
        exact table room a d isNull found (fun w e below => ih below)
    | _ => exact scalar (room+1) _ d rfl found

theorem document_bounded {h : Heap} (closed : h.Closed) {room : Nat} {v : Value} {d : Doc}
    (found : document h room v = .ok d) : Bounded h (room+1) v := by
  refine document_induction (motive := fun room v _ => Bounded h (room+1) v) ?_ ?_ ?_ found
  · intro room v d flat _
    exact Bounded.of_scalar flat _
  · intro room entry member
    rw [closed.vacant] at member
    simp at member
  · intro room a d _ encoded ih entry member
    have written := encodeTable_written encoded
    obtain ⟨e,child⟩ := written_child written member
    exact ⟨Bounded.of_scalar (written_scalar_keys written member) _,ih _ e child⟩

theorem document_mono {h : Heap} {room : Nat} {v : Value} {d : Doc} (found : document h room v = .ok d) :
    document h (room+1) v = .ok d := by
  refine document_induction (motive := fun room v d => document h (room+1) v = .ok d) ?_ ?_ ?_ found
  · intro room v d flat found
    rwa [document_scalar flat] at found ⊢
  · intro room
    exact document_null h _
  · intro room a d proper encoded ih
    rw [document_table proper]
    exact encodeTable_imp (fun key e _ child => ih _ e child) encoded

theorem document_le {h : Heap} {room more : Nat} {v : Value} {d : Doc} (found : document h room v = .ok d)
    (le : room ≤ more) : document h more v = .ok d := by
  induction le with
  | refl => exact found
  | step _ ih => exact document_mono ih

theorem document_of_encodeValue {h : Heap} (room : Nat) {path : List Address} {v : Value} {d : Doc}
    (encoded : encodeValue h room path v = .ok d) : document h room v = .ok d := by
  induction room generalizing path v d with
  | zero =>
    cases v with
    | table a =>
      unfold encodeValue at encoded
      unfold document
      exact encoded
    | _ =>
      rw [encodeValue_scalar rfl] at encoded
      rwa [document_scalar rfl]
  | succ room ih =>
    cases v with
    | table a =>
      by_cases isNull : a = h.null
      · subst isNull
        unfold encodeValue at encoded
        rw [document_null]
        simpa using encoded
      · by_cases seen : a ∈ path
        · unfold encodeValue at encoded
          simp [isNull,seen] at encoded
        · rw [encodeValue_table isNull seen] at encoded
          rw [document_table isNull]
          exact encodeTable_imp (fun key e _ child => ih child) encoded
    | _ =>
      rw [encodeValue_scalar rfl] at encoded
      rwa [document_scalar rfl]

-- The cycle check never fires on a value that has a document.
theorem encodeValue_of_document {h : Heap} (closed : h.Closed) {room : Nat} {path : List Address} {v : Value} {d : Doc}
    (below : Below h path v) (found : document h room v = .ok d) : encodeValue h room path v = .ok d := by
  refine document_induction (motive := fun room v d => ∀ path, Below h path v → encodeValue h room path v = .ok d)
    ?_ ?_ ?_ found path below
  · intro room v d flat found path _
    rw [encodeValue_scalar flat]
    rwa [document_scalar flat] at found
  · intro room path _
    unfold encodeValue
    simp
  · intro room a d proper encoded ih path below
    have whole : document h (room+1) (.table a) = .ok d := by rw [document_table proper]; exact encoded
    rw [encodeValue_table proper (below.fresh (document_bounded closed whole))]
    refine encodeTable_imp ?_ encoded
    intro key e present child
    exact ih _ e child _ (below.entry (Table.mem_of_get present)).2

theorem encode_iff_document {h : Heap} (closed : h.Closed) {room : Nat} {v : Value} {d : Doc} :
    encodeValue h room [] v = .ok d ↔ document h room v = .ok d :=
  ⟨document_of_encodeValue room,encodeValue_of_document closed (.nil h v)⟩

theorem document_extends {h later : Heap} (closed : h.Closed) (grown : h.Extends later) {room : Nat} {v : Value} {d : Doc}
    (inside : v.Within h.size) (found : document h room v = .ok d) : document later room v = .ok d := by
  refine document_induction (motive := fun room v d => v.Within h.size → document later room v = .ok d)
    ?_ ?_ ?_ found inside
  · intro room v d flat found _
    rwa [document_scalar flat] at found ⊢
  · intro room _
    rw [← grown.null]
    exact document_null later room
  · intro room a d proper encoded ih inside
    rw [document_table (by rw [grown.null]; exact proper),grown.table a inside]
    refine encodeTable_imp ?_ encoded
    intro key e present child
    exact ih _ e child (closed.entries a inside _ (Table.mem_of_get present)).2

def composite : Doc → Bool
  | .array _ | .object _ => true
  | _ => false

theorem canonical_composite (d : Doc) : composite d.canonical = composite d := by
  cases d with
  | sint i =>
    simp only [Doc.canonical]
    split <;> rfl
  | _ => rfl

theorem scalarDocument_flat {v : Value} {d : Doc} (found : scalarDocument v = .ok d) : composite d = false := by
  cases v with
  | float f =>
    simp only [scalarDocument] at found
    split at found <;> cases found
    rfl
  | _ => cases found <;> rfl

theorem written_composite {t : Table} {child : Value → Except Bytes Doc} {d : Doc} (written : Written t child d) :
    composite d = true := by
  cases written <;> rfl

theorem scalarDocument_finite {v : Value} {d : Doc} (found : scalarDocument v = .ok d) : v.isFinite = true := by
  cases v with
  | float f =>
    simp only [scalarDocument] at found
    split at found
    · assumption
    · cases found
  | _ => rfl

-- The scalar a canonical document was written for.
def scalarOf : Doc → Value
  | .boolean b => .boolean b
  | .sint i => .integer (Int64.ofInt i)
  | .uint n => .integer (Int64.ofInt n)
  | .real f => .float f
  | .string s => .string s
  | _ => .nil

theorem scalarOf_document {v : Value} {d : Doc} (found : scalarDocument v = .ok d) : scalarOf d.canonical = v := by
  cases v with
  | integer i =>
    cases found
    simp only [Doc.canonical]
    split
    · have value : ((i.toInt.toNat : Nat) : Int) = i.toInt := by omega
      simp only [scalarOf,value,Int64.ofInt_toInt]
    · simp only [scalarOf,Int64.ofInt_toInt]
  | float f =>
    simp only [scalarDocument] at found
    split at found <;> cases found
    rfl
  | _ => cases found <;> rfl

theorem scalarDocument_injective {v w : Value} {d e : Doc} (left : scalarDocument v = .ok d)
    (right : scalarDocument w = .ok e) (same : d.canonical = e.canonical) : v = w := by
  rw [← scalarOf_document left,← scalarOf_document right,same]

theorem canonicalItems_get {left right : List Doc} (same : canonicalItems left = canonicalItems right) :
    left.length = right.length ∧ ∀ (index : Nat) (item other : Doc), left[index]? = some item → right[index]? = some other →
      item.canonical = other.canonical := by
  rw [canonicalItems_eq,canonicalItems_eq] at same
  refine ⟨by simpa using congrArg List.length same,?_⟩
  intro index item other first second
  have entry := congrArg (·[index]?) same
  simpa [first,second] using entry

theorem canonicalMembers_find {left right : List (Bytes × Doc)} (same : canonicalMembers left = canonicalMembers right)
    {member : Bytes × Doc} (listed : member ∈ left) :
    ∃ other ∈ right, other.1 = member.1 ∧ member.2.canonical = other.2.canonical := by
  rw [canonicalMembers_eq,canonicalMembers_eq] at same
  have image : (member.1,member.2.canonical) ∈ right.map (fun member => (member.1,member.2.canonical)) := by
    rw [← same]
    exact List.mem_map.mpr ⟨member,listed,rfl⟩
  obtain ⟨other,found,equal⟩ := List.mem_map.mp image
  have parts := Prod.mk.inj equal
  exact ⟨other,found,parts.1,parts.2.symm⟩

theorem canonical_array {items : List Doc} {e : Doc} (same : (Doc.array items).canonical = e.canonical) :
    ∃ others, e = .array others ∧ canonicalItems items = canonicalItems others := by
  cases e with
  | array others => exact ⟨others,rfl,by simpa [Doc.canonical] using same⟩
  | sint i =>
    simp only [Doc.canonical] at same
    split at same <;> cases same
  | _ => simp [Doc.canonical] at same

theorem canonical_object {members : List (Bytes × Doc)} {e : Doc} (same : (Doc.object members).canonical = e.canonical) :
    ∃ others, e = .object others ∧ canonicalMembers members = canonicalMembers others := by
  cases e with
  | object others => exact ⟨others,rfl,by simpa [Doc.canonical] using same⟩
  | sint i =>
    simp only [Doc.canonical] at same
    split at same <;> cases same
  | _ => simp [Doc.canonical] at same

theorem filled_unmarked {h : Heap} (plain : h.Plain) {a : Address} (inside : a < h.size) {key : Value}
    (present : (h.table a).get key ≠ .nil) : (h.table a).marked = false := by
  cases marked : (h.table a).marked with
  | false => rfl
  | true =>
    have member := Table.mem_of_get present
    rw [plain.marks a inside marked] at member
    simp at member

theorem written_alike {h g : Heap} {a b : Address} {left right : Value → Except Bytes Doc} {d e : Doc}
    (plainLeft : h.Plain) (plainRight : g.Plain) (insideLeft : a < h.size) (insideRight : b < g.size)
    (first : Written (h.table a) left d) (second : Written (g.table b) right e)
    (same : d.canonical = e.canonical)
    (children : ∀ key d e, left ((h.table a).get key) = .ok d → right ((g.table b).get key) = .ok e →
      d.canonical = e.canonical → Alike h g ((h.table a).get key) ((g.table b).get key)) :
    Alike h g (.table a) (.table b) := by
  have absent : ∀ key, (h.table a).get key = .nil → (g.table b).get key = .nil →
      Alike h g ((h.table a).get key) ((g.table b).get key) := by
    intro key one other
    rw [one,other]
    exact .scalar rfl rfl
  cases first with
  | array items dense classed each =>
    obtain ⟨others,rfl,equal⟩ := canonical_array same
    obtain ⟨lengths,pairs⟩ := canonicalItems_get equal
    cases second with
    | array _ denseRight classedRight eachRight =>
      refine .table ?_ ?_
      · rcases Nat.eq_zero_or_pos items.length with none | some
        · rcases classed with marked | impossible
          · rcases classedRight with alike | impossible
            · rw [marked,alike]
            · omega
          · omega
        · rw [filled_unmarked plainLeft insideLeft ((dense.keys _).mpr ⟨0,some,rfl⟩),
            filled_unmarked plainRight insideRight ((denseRight.keys _).mpr ⟨0,by omega,rfl⟩)]
      · intro key
        by_cases present : ∃ index < items.length, key = arrayKey index
        · obtain ⟨index,bound,rfl⟩ := present
          have one : items[index]? = some items[index] := List.getElem?_eq_getElem bound
          have other : others[index]? = some others[index] := List.getElem?_eq_getElem (by omega)
          exact children _ _ _ (each index _ one) (eachRight index _ other) (pairs index _ _ one other)
        · apply absent
          · exact not_not.mp (fun held => present ((dense.keys key).mp held))
          · exact not_not.mp (fun held => present (lengths ▸ (denseRight.keys key).mp held))
  | object members flat sorted fields each =>
    obtain ⟨others,rfl,equal⟩ := canonical_object same
    cases second with
    | object _ flatRight sortedRight fieldsRight eachRight =>
      refine .table (flat.trans flatRight.symm) ?_
      intro key
      by_cases present : (h.table a).get key = .nil
      · apply absent key present
        by_contra held
        obtain ⟨member,listed,rfl⟩ := (fieldsRight key).mp held
        obtain ⟨other,found,name,_⟩ := canonicalMembers_find equal.symm listed
        exact (fields (.string member.1)).mpr ⟨other,found,by rw [name]⟩ present
      · obtain ⟨member,listed,rfl⟩ := (fields key).mp present
        obtain ⟨other,found,name,docs⟩ := canonicalMembers_find equal listed
        have stored := eachRight other found
        rw [name] at stored
        exact children _ _ _ (each member listed) stored docs

-- Values written the same are built the same, wherever they lie.
theorem document_alike {h g : Heap} (closedLeft : h.Closed) (plainLeft : h.Plain) (closedRight : g.Closed)
    (plainRight : g.Plain) {room other : Nat} {v w : Value} {d e : Doc}
    (left : document h room v = .ok d) (right : document g other w = .ok e) (same : d.canonical = e.canonical)
    (insideLeft : v.Within h.size) (insideRight : w.Within g.size)
    (properLeft : v ≠ .table h.null) (properRight : w ≠ .table g.null) : Alike h g v w := by
  refine document_induction (motive := fun room v d => v.Within h.size → v ≠ .table h.null →
    ∀ other w e, document g other w = .ok e → d.canonical = e.canonical → w.Within g.size → w ≠ .table g.null →
      Alike h g v w) ?_ ?_ ?_ left insideLeft properLeft other w e right same insideRight properRight
  · intro room v d flat found _ _ other w e right same _ proper
    rw [document_scalar flat] at found
    cases w with
    | table b =>
      have distinct : b ≠ g.null := fun null => proper (by rw [null])
      cases other with
      | zero =>
        unfold document at right
        simp [distinct] at right
      | succ other =>
        rw [document_table distinct] at right
        have kinds := congrArg composite same
        rw [canonical_composite,canonical_composite,scalarDocument_flat found,
          written_composite (encodeTable_written right)] at kinds
        cases kinds
    | _ =>
      rw [document_scalar rfl] at right
      rw [scalarDocument_injective found right same]
      exact .scalar rfl (scalarDocument_finite right)
  · intro room _ proper
    exact absurd rfl proper
  · intro room a d proper encoded ih inside _ other w e right same insideRight properRight
    have written := encodeTable_written encoded
    cases w with
    | table b =>
      have distinct : b ≠ g.null := fun null => properRight (by rw [null])
      cases other with
      | zero =>
        unfold document at right
        simp [distinct] at right
      | succ other =>
        rw [document_table distinct] at right
        refine written_alike plainLeft plainRight inside insideRight written (encodeTable_written right) same ?_
        intro key d e one two docs
        exact ih _ d one (Table.get_within key (closedLeft.entries a inside)) (plainLeft.get inside key) other _ e two docs
          (Table.get_within key (closedRight.entries b insideRight)) (plainRight.get insideRight key)
    | _ =>
      rw [document_scalar rfl] at right
      have kinds := congrArg composite same
      rw [canonical_composite,canonical_composite,scalarDocument_flat right,written_composite written] at kinds
      cases kinds

theorem document_same {h : Heap} (closed : h.Closed) (plain : h.Plain) {room other : Nat} {v w : Value} {d e : Doc}
    (left : document h room v = .ok d) (right : document h other w = .ok e) (same : d.canonical = e.canonical)
    (insideLeft : v.Within h.size) (insideRight : w.Within h.size)
    (properLeft : v ≠ .table h.null) (properRight : w ≠ .table h.null) : Same h v w :=
  (document_alike closed plain closed plain left right same insideLeft insideRight properLeft properRight).same

-- Two objects written the same agree member by member.
theorem member_canonical {h later : Heap} {a b : Address} {room other : Nat} {d e : Doc}
    (properLeft : a ≠ h.null) (properRight : b ≠ later.null)
    (left : document h (room+1) (.table a) = .ok d) (right : document later (other+1) (.table b) = .ok e)
    (same : d.canonical = e.canonical) {name : Bytes} (present : (h.table a).get (.string name) ≠ .nil) :
    (later.table b).get (.string name) ≠ .nil ∧ ∃ x y, document h room ((h.table a).get (.string name)) = .ok x ∧
      document later other ((later.table b).get (.string name)) = .ok y ∧ x.canonical = y.canonical := by
  rw [document_table properLeft] at left
  rw [document_table properRight] at right
  cases encodeTable_written left with
  | array items dense _ _ =>
    obtain ⟨index,_,impossible⟩ := (dense.keys _).mp present
    simp [arrayKey] at impossible
  | object members _ _ fields each =>
    obtain ⟨others,rfl,equal⟩ := canonical_object same
    obtain ⟨member,listed,key⟩ := (fields _).mp present
    injection key with key
    subst key
    obtain ⟨found,inside,names,docs⟩ := canonicalMembers_find equal listed
    cases encodeTable_written right with
    | object _ _ _ fieldsRight eachRight =>
      have stored := eachRight found inside
      rw [names] at stored
      exact ⟨(fieldsRight _).mpr ⟨found,inside,by rw [names]⟩,member.2,found.2,each member listed,stored,docs⟩

theorem writableItems_iff (items : List Doc) : writableItems items = true ↔ ∀ item ∈ items, item.writable = true := by
  induction items with
  | nil => simp [writableItems]
  | cons item rest ih => simp [writableItems,ih]

theorem writableMembers_iff (members : List (Bytes × Doc)) :
    writableMembers members = true ↔ ∀ member ∈ members, validUtf8 member.1 = true ∧ member.2.writable = true := by
  induction members with
  | nil => simp [writableMembers]
  | cons member rest ih => simp [writableMembers,ih,and_assoc]

-- Every string and every key of the document is UTF-8.
mutual
def legible : Doc → Bool
  | .string s => validUtf8 s
  | .array items => legibleItems items
  | .object members => legibleMembers members
  | _ => true
def legibleItems : List Doc → Bool
  | [] => true
  | item :: rest => legible item && legibleItems rest
def legibleMembers : List (Bytes × Doc) → Bool
  | [] => true
  | (key,value) :: rest => validUtf8 key && legible value && legibleMembers rest
end

theorem legibleItems_iff (items : List Doc) : legibleItems items = true ↔ ∀ item ∈ items, legible item = true := by
  induction items with
  | nil => simp [legibleItems]
  | cons item rest ih => simp [legibleItems,ih]

theorem legibleMembers_iff (members : List (Bytes × Doc)) :
    legibleMembers members = true ↔ ∀ member ∈ members, validUtf8 member.1 = true ∧ legible member.2 = true := by
  induction members with
  | nil => simp [legibleMembers]
  | cons member rest ih => simp [legibleMembers,ih,and_assoc]

theorem scalarDocument_writable {v : Value} {d : Doc} (found : scalarDocument v = .ok d) (ok : legible d = true) :
    d.writable = true := by
  cases v with
  | integer i =>
    cases found
    have low := i.le_toInt
    have high := i.toInt_lt
    simp only [Doc.writable,decide_eq_true_eq]
    omega
  | float f =>
    simp only [scalarDocument] at found
    split at found
    · rename_i finite
      cases found
      exact finite
    · cases found
  | string s =>
    cases found
    simpa only [legible,Doc.writable] using ok
  | _ => cases found <;> rfl

-- Lua's numbers are always in range, so only strings can keep a document from
-- being written.
theorem document_writable {h : Heap} {room : Nat} {v : Value} {d : Doc} (found : document h room v = .ok d)
    (ok : legible d = true) : d.writable = true := by
  refine document_induction (motive := fun _ _ d => legible d = true → d.writable = true) ?_ ?_ ?_ found ok
  · intro room v d scalar found
    rw [document_scalar scalar] at found
    exact scalarDocument_writable found
  · exact fun _ _ => rfl
  · intro room a d proper encoded ih ok
    cases encodeTable_written encoded with
    | array items _ _ each =>
      rw [legible,legibleItems_iff] at ok
      rw [Doc.writable,writableItems_iff]
      intro item listed
      obtain ⟨index,bound,rfl⟩ := List.mem_iff_getElem.mp listed
      exact ih _ _ (each index _ (List.getElem?_eq_getElem bound)) (ok _ listed)
    | object members _ _ _ each =>
      rw [legible,legibleMembers_iff] at ok
      rw [Doc.writable,writableMembers_iff]
      exact fun member listed => ⟨(ok member listed).1,ih _ _ (each member listed) (ok member listed).2⟩

mutual
theorem legible_of_writable : (d : Doc) → d.writable = true → legible d = true
  | .null,_ | .boolean _,_ | .sint _,_ | .uint _,_ | .real _,_ => rfl
  | .string s,ok => by simpa only [legible,Doc.writable] using ok
  | .array items,ok => by
    rw [Doc.writable] at ok
    rw [legible]
    exact legibleItems_of_writable items ok
  | .object members,ok => by
    rw [Doc.writable] at ok
    rw [legible]
    exact legibleMembers_of_writable members ok
theorem legibleItems_of_writable : (items : List Doc) → writableItems items = true → legibleItems items = true
  | [],_ => rfl
  | item :: rest,ok => by
    simp only [writableItems,Bool.and_eq_true] at ok
    simp only [legibleItems,legible_of_writable item ok.1,legibleItems_of_writable rest ok.2,Bool.and_self]
theorem legibleMembers_of_writable : (members : List (Bytes × Doc)) → writableMembers members = true →
    legibleMembers members = true
  | [],_ => rfl
  | (key,value) :: rest,ok => by
    simp only [writableMembers,Bool.and_eq_true] at ok
    simp only [legibleMembers,ok.1.1,legible_of_writable value ok.1.2,legibleMembers_of_writable rest ok.2,Bool.and_self]
end

-- What json.encode accepts at a given depth.
def Encodable (h : Heap) (room : Nat) (v : Value) : Prop := ∃ d, document h room v = .ok d ∧ d.writable = true

theorem Encodable.le {h : Heap} {room more : Nat} {v : Value} (encodable : Encodable h room v) (le : room ≤ more) :
    Encodable h more v := by
  obtain ⟨d,found,ok⟩ := encodable
  exact ⟨d,document_le found le,ok⟩

theorem Encodable.extends {h later : Heap} (closed : h.Closed) (grown : h.Extends later) {room : Nat} {v : Value}
    (inside : v.Within h.size) (encodable : Encodable h room v) : Encodable later room v := by
  obtain ⟨d,found,ok⟩ := encodable
  exact ⟨d,document_extends closed grown inside found,ok⟩

theorem encodable_nil (h : Heap) (room : Nat) : Encodable h room .nil :=
  ⟨.null,document_scalar rfl room,rfl⟩

theorem encodable_boolean (h : Heap) (room : Nat) (b : Bool) : Encodable h room (.boolean b) :=
  ⟨.boolean b,document_scalar rfl room,rfl⟩

theorem encodable_integer (h : Heap) (room : Nat) (i : Int64) : Encodable h room (.integer i) := by
  refine ⟨.sint i.toInt,document_scalar rfl room,?_⟩
  have low := i.le_toInt
  have high := i.toInt_lt
  simp only [Doc.writable,decide_eq_true_eq]
  omega

theorem encodable_string (h : Heap) (room : Nat) {s : Bytes} (valid : validUtf8 s = true) :
    Encodable h room (.string s) :=
  ⟨.string s,document_scalar rfl room,valid⟩

theorem encodable_empty {h : Heap} {a : Address} (room : Nat) (proper : a ≠ h.null) (none : (h.table a).entries = []) :
    Encodable h (room+1) (.table a) := by
  rw [Encodable,document_table proper]
  cases marked : (h.table a).marked with
  | true =>
    refine ⟨.array [],?_,rfl⟩
    simp [encodeTable,tableShape,none,marked,encodeArray,bind,Except.bind,pure,Except.pure]
  | false =>
    refine ⟨.object [],?_,rfl⟩
    simp [encodeTable,tableShape,none,marked,encodeObject,collectObjectKeys,bind,Except.bind,pure,Except.pure]

theorem tableShape_strings {t : Table} (plain : t.marked = false)
    (strings : ∀ entry ∈ t.entries, ∃ name, entry.1 = .string name) : tableShape t = .ok (.object t.entries.length) := by
  simp only [tableShape,plain]
  cases held : t.entries with
  | nil => simp
  | cons entry rest =>
    obtain ⟨name,key⟩ := strings entry (by simp [held])
    simp [key,positiveKey]

-- Unmarked tables with string keys encode as soon as their values do.
theorem encodeTable_object {t : Table} {child : Value → Except Bytes Doc} (plain : t.marked = false)
    (members : ∀ entry ∈ t.entries, ∃ name, entry.1 = .string name ∧ ∃ d, child entry.2 = .ok d) :
    ∃ docs, encodeTable t child = .ok (.object docs) := by
  have strings : ∀ entry ∈ t.entries, ∃ name, entry.1 = .string name := by
    intro entry member
    obtain ⟨name,key,_⟩ := members entry member
    exact ⟨name,key⟩
  obtain ⟨names,stored⟩ : ∃ names, t.entries.mapM objectKey = .ok names := by
    apply Raise.mapM_returns
    intro entry member
    obtain ⟨name,key⟩ := strings entry member
    exact ⟨name,by simp [objectKey,key]⟩
  obtain ⟨keys,collected⟩ : ∃ keys, collectObjectKeys t = .ok keys :=
    ⟨_,by simp only [collectObjectKeys,stored]; rfl⟩
  obtain ⟨_,fields⟩ := collectObjectKeys_ok collected
  obtain ⟨docs,each⟩ : ∃ docs, keys.mapM (encodeMember t child) = .ok docs := by
    apply Raise.mapM_returns
    intro key known
    obtain ⟨_,_,d,found⟩ := members _ (Table.mem_of_get ((fields (.string key)).mpr ⟨key,known,rfl⟩))
    exact ⟨(key,d),encodeMember_ok.mpr ⟨rfl,found⟩⟩
  refine ⟨docs,?_⟩
  simp only [encodeTable,tableShape_strings plain strings,encodeObject,collected,each,bind,Except.bind]
  rfl

theorem encodable_object {h : Heap} {a : Address} {room : Nat} (proper : a ≠ h.null) (plain : (h.table a).marked = false)
    (members : ∀ entry ∈ (h.table a).entries, ∃ name, entry.1 = .string name ∧ validUtf8 name = true ∧
      Encodable h room entry.2) : Encodable h (room+1) (.table a) := by
  obtain ⟨docs,encoded⟩ : ∃ docs, encodeTable (h.table a) (document h room) = .ok (.object docs) := by
    apply encodeTable_object plain
    intro entry member
    obtain ⟨name,key,_,d,found,_⟩ := members entry member
    exact ⟨name,key,d,found⟩
  refine ⟨.object docs,by rw [document_table proper]; exact encoded,?_⟩
  rw [Doc.writable,writableMembers_iff]
  intro member listed
  cases encodeTable_written encoded with
  | object _ _ _ fields each =>
    obtain ⟨name,same,valid,d,found,ok⟩ := members _ (Table.mem_of_get ((fields _).mpr ⟨member,listed,rfl⟩))
    injection same with same
    rw [each member listed] at found
    cases found
    exact ⟨same ▸ valid,ok⟩

end Hypringo.Document

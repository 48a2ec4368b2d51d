import Hypringo.StateChange

namespace Hypringo.Schema
open Hypringo.Lua Json Document StateDelivery

-- The JSON type at every path of a document, and the keys of every object.
inductive Layout where
  | boolean
  | number
  | string
  | object (members : List (Bytes × Layout))
  | array (items : Layout)

mutual
def conforms : Layout → Doc → Bool
  | .boolean,.boolean _ => true
  | .number,.sint _ => true
  | .number,.uint _ => true
  | .number,.real _ => true
  | .string,.string _ => true
  | .object schemas,.object members => conformsMembers schemas members
  | .array schema,.array items => conformsItems schema items
  | _,_ => false
def conformsMembers : List (Bytes × Layout) → List (Bytes × Doc) → Bool
  | [],[] => true
  | (name,schema) :: schemas,(other,d) :: members => name == other && conforms schema d && conformsMembers schemas members
  | _,_ => false
def conformsItems : Layout → List Doc → Bool
  | _,[] => true
  | schema,item :: rest => conforms schema item && conformsItems schema rest
end

theorem conforms_null (layout : Layout) : conforms layout .null = false := by
  cases layout <;> rfl

-- No list inside, so nothing a lost mark could change.
mutual
def flat : Layout → Bool
  | .array _ => false
  | .object schemas => flatMembers schemas
  | _ => true
def flatMembers : List (Bytes × Layout) → Bool
  | [] => true
  | (_,schema) :: rest => flat schema && flatMembers rest
end

mutual
theorem transit_flat : (schema : Layout) → (d : Doc) → flat schema = true → conforms schema d = true → transit d = d
  | .boolean,.boolean b,_,_ => rfl
  | .number,.sint i,_,_ => rfl
  | .number,.uint n,_,_ => rfl
  | .number,.real f,_,_ => rfl
  | .string,.string s,_,_ => rfl
  | .object schemas,.object members,plain,fits => by
    simp only [flat] at plain
    simp only [conforms] at fits
    simp only [transit,transitMembers_flat schemas members plain fits]
theorem transitMembers_flat : (schemas : List (Bytes × Layout)) → (members : List (Bytes × Doc)) →
    flatMembers schemas = true → conformsMembers schemas members = true → transitMembers members = members
  | [],[],_,_ => rfl
  | (name,schema) :: schemas,(other,d) :: members,plain,fits => by
    simp only [flatMembers,Bool.and_eq_true] at plain
    simp only [conformsMembers,Bool.and_eq_true] at fits
    simp only [transitMembers,transit_flat schema d plain.1 fits.1.2,transitMembers_flat schemas members plain.2 fits.2]
end

theorem transitItems_flat {schema : Layout} (plain : flat schema = true) {items : List Doc}
    (fits : conformsItems schema items = true) : transitItems items = items := by
  induction items with
  | nil => rfl
  | cons item rest ih =>
    simp only [conformsItems,Bool.and_eq_true] at fits
    simp only [transitItems,transit_flat schema item plain fits.1,ih fits.2]

theorem conformsMembers_iff {schemas : List (Bytes × Layout)} {members : List (Bytes × Doc)} :
    conformsMembers schemas members = true ↔
      List.Forall₂ (fun schema member => schema.1 = member.1 ∧ conforms schema.2 member.2 = true) schemas members := by
  induction schemas generalizing members with
  | nil => cases members <;> simp [conformsMembers]
  | cons schema schemas ih =>
    cases members with
    | nil => simp [conformsMembers]
    | cons member members => simp [conformsMembers,ih]

theorem conformsItems_iff {schema : Layout} {items : List Doc} :
    conformsItems schema items = true ↔ ∀ item ∈ items, conforms schema item = true := by
  induction items with
  | nil => simp [conformsItems]
  | cons item rest ih => simp [conformsItems,ih]

-- A table with exactly the keys of the layout is written as an object with
-- these keys.
theorem written_conforms {t : Table} {child : Value → Except Bytes Doc} {d : Doc} (written : Written t child d)
    {layouts : List (Bytes × Layout)} (some : layouts ≠ [])
    (sorted : (layouts.map Prod.fst).Pairwise (fun left right => ordinal left < ordinal right))
    (keys : ∀ key, t.get key ≠ .nil ↔ ∃ layout ∈ layouts, key = .string layout.1)
    (each : ∀ layout ∈ layouts, ∀ d, child (t.get (.string layout.1)) = .ok d → conforms layout.2 d = true) :
    conforms (.object layouts) d = true := by
  cases written with
  | array items dense _ _ =>
    obtain ⟨layout,listed⟩ := List.exists_mem_of_ne_nil layouts some
    obtain ⟨index,_,same⟩ := (dense.keys _).mp ((keys (.string layout.1)).mpr ⟨layout,listed,rfl⟩)
    cases same
  | object members _ ordered fields stored =>
    have names : layouts.map Prod.fst = members.map Prod.fst := by
      have : Std.Irrefl (fun left right : Bytes => ordinal left < ordinal right) := ⟨fun _ => lt_irrefl _⟩
      have : Std.Antisymm (fun left right : Bytes => ordinal left < ordinal right) :=
        ⟨fun _ _ one other => absurd other (lt_asymm one)⟩
      refine sorted.eq_of_mem_iff (List.pairwise_map.mpr ordered) ?_
      intro name
      constructor
      · intro known
        obtain ⟨layout,listed,rfl⟩ := List.mem_map.mp known
        obtain ⟨member,found,same⟩ := (fields _).mp ((keys (.string layout.1)).mpr ⟨layout,listed,rfl⟩)
        injection same with same
        exact same ▸ List.mem_map_of_mem found
      · intro known
        obtain ⟨member,listed,rfl⟩ := List.mem_map.mp known
        obtain ⟨layout,found,same⟩ := (keys _).mp ((fields (.string member.1)).mpr ⟨member,listed,rfl⟩)
        injection same with same
        exact same ▸ List.mem_map_of_mem found
    simp only [conforms]
    rw [conformsMembers_iff,List.forall₂_iff_get]
    have lengths : layouts.length = members.length := by simpa using congrArg List.length names
    refine ⟨lengths,?_⟩
    intro index left right
    have name : (layouts.get ⟨index,left⟩).1 = (members.get ⟨index,right⟩).1 := by
      have same := congrArg (fun names => names[index]?) names
      simpa [left,right] using same
    refine ⟨name,each _ (List.get_mem _ _) _ ?_⟩
    rw [name]
    exact stored _ (List.get_mem _ _)

mutual
def depth : Layout → Nat
  | .object schemas => depthMembers schemas + 1
  | .array schema => depth schema + 1
  | _ => 0
def depthMembers : List (Bytes × Layout) → Nat
  | [] => 0
  | (_,schema) :: rest => max (depth schema) (depthMembers rest)
end

theorem depthMembers_le {schemas : List (Bytes × Layout)} {schema : Bytes × Layout} (listed : schema ∈ schemas) :
    depth schema.2 ≤ depthMembers schemas := by
  induction schemas with
  | nil => cases listed
  | cons first rest ih =>
    obtain ⟨name,inner⟩ := first
    simp only [depthMembers]
    rcases List.mem_cons.mp listed with rfl | tail
    · exact Nat.le_max_left _ _
    · exact Nat.le_trans (ih tail) (Nat.le_max_right _ _)

-- A document nests no deeper than its layout.
theorem document_depth {h : Heap} {room : Nat} {v : Value} {d : Doc} (found : document h room v = .ok d)
    (layout : Layout) (fits : conforms layout d = true) : document h (depth layout) v = .ok d := by
  refine document_induction (motive := fun _ v d => ∀ layout, conforms layout d = true →
    document h (depth layout) v = .ok d) ?_ ?_ ?_ found layout fits
  · intro room v d plain found layout _
    rwa [document_scalar plain] at found ⊢
  · intro room layout _
    exact document_null h _
  · intro room a d proper encoded ih layout fits
    cases encodeTable_written encoded with
    | array items dense _ each =>
      cases layout with
      | array schema =>
        simp only [conforms,conformsItems_iff] at fits
        rw [depth,document_table proper]
        refine encodeTable_imp ?_ encoded
        intro key e present child
        obtain ⟨index,bound,rfl⟩ := (dense.keys key).mp present
        have item := each index _ (List.getElem?_eq_getElem bound)
        rw [child] at item
        cases item
        exact ih _ _ child schema (fits _ (List.getElem_mem bound))
      | _ => simp [conforms] at fits
    | object members _ _ fields each =>
      cases layout with
      | object schemas =>
        simp only [conforms,conformsMembers_iff] at fits
        rw [depth,document_table proper]
        refine encodeTable_imp ?_ encoded
        intro key e present child
        obtain ⟨member,listed,rfl⟩ := (fields key).mp present
        obtain ⟨schema,known,_,inner⟩ := Raise.forall₂_right fits listed
        have value := each member listed
        rw [child] at value
        cases value
        exact document_le (ih _ _ child schema.2 inner) (depthMembers_le known)
      | _ => simp [conforms] at fits

mutual
theorem conforms_canonical : (layout : Layout) → (d : Doc) → conforms layout d = true → conforms layout d.canonical = true
  | .boolean,.boolean b,_ => rfl
  | .number,.sint i,_ => by
    simp only [Doc.canonical]
    split <;> rfl
  | .number,.uint n,_ => rfl
  | .number,.real f,_ => rfl
  | .string,.string s,_ => rfl
  | .object schemas,.object members,fits => by
    simp only [conforms] at fits
    simp only [Doc.canonical,conforms,conformsMembers_canonical schemas members fits]
  | .array schema,.array items,fits => by
    simp only [conforms] at fits
    simp only [Doc.canonical,conforms]
    exact conformsItems_canonical schema items fits
theorem conformsMembers_canonical : (schemas : List (Bytes × Layout)) → (members : List (Bytes × Doc)) →
    conformsMembers schemas members = true → conformsMembers schemas (canonicalMembers members) = true
  | [],[],_ => rfl
  | (name,schema) :: schemas,(other,d) :: members,fits => by
    simp only [conformsMembers,Bool.and_eq_true] at fits
    simp only [canonicalMembers,conformsMembers,Bool.and_eq_true]
    exact ⟨⟨fits.1.1,conforms_canonical schema d fits.1.2⟩,conformsMembers_canonical schemas members fits.2⟩
theorem conformsItems_canonical : (schema : Layout) → (items : List Doc) → conformsItems schema items = true →
    conformsItems schema (canonicalItems items) = true
  | _,[],_ => rfl
  | schema,item :: rest,fits => by
    simp only [conformsItems,Bool.and_eq_true] at fits
    simp only [canonicalItems,conformsItems,Bool.and_eq_true]
    exact ⟨conforms_canonical schema item fits.1,conformsItems_canonical schema rest fits.2⟩
end

-- What json.encode makes of a table whose keys and values are those of the
-- layout.
theorem encodeTable_conforms {t : Table} {child : Value → Except Bytes Doc} {layouts : List (Bytes × Layout)}
    (plain : t.marked = false) (some : layouts ≠ [])
    (sorted : (layouts.map Prod.fst).Pairwise (fun left right => ordinal left < ordinal right))
    (keys : ∀ key, t.get key ≠ .nil ↔ ∃ layout ∈ layouts, key = .string layout.1)
    (each : ∀ layout ∈ layouts, ∃ d, child (t.get (.string layout.1)) = .ok d ∧ conforms layout.2 d = true) :
    ∃ d, encodeTable t child = .ok d ∧ conforms (.object layouts) d = true := by
  obtain ⟨members,encoded⟩ : ∃ members, encodeTable t child = .ok (.object members) := by
    apply encodeTable_object plain
    intro entry member
    have value := Table.get_of_mem member
    obtain ⟨layout,listed,key⟩ := (keys entry.1).mp (by rw [value]; exact t.present entry member)
    obtain ⟨d,found,_⟩ := each layout listed
    rw [← key,value] at found
    exact ⟨layout.1,key,d,found⟩
  refine ⟨.object members,encoded,written_conforms (encodeTable_written encoded) some sorted keys ?_⟩
  intro layout listed d found
  obtain ⟨e,other,fits⟩ := each layout listed
  rw [found] at other
  cases other
  exact fits

theorem record_conforms {fields : List (Bytes × Value)} {child : Value → Except Bytes Doc} {layouts : List (Bytes × Layout)}
    (some : layouts ≠ [])
    (sorted : (layouts.map Prod.fst).Pairwise (fun left right => ordinal left < ordinal right))
    (each : List.Forall₂ (fun layout field => field.1 = layout.1 ∧ field.2 ≠ .nil ∧
      ∃ d, child field.2 = .ok d ∧ conforms layout.2 d = true) layouts fields) :
    ∃ d, encodeTable (Table.record fields) child = .ok d ∧ conforms (.object layouts) d = true := by
  have names : fields.map Prod.fst = layouts.map Prod.fst := map_eq_of_forall₂ (each.imp (fun _ _ held => held.1))
  have distinct : (fields.map Prod.fst).Nodup := by
    rw [names]
    refine sorted.imp ?_
    intro left right below same
    rw [same] at below
    exact lt_irrefl _ below
  have present : ∀ field ∈ fields, field.2 ≠ .nil := by
    intro field listed
    obtain ⟨_,_,_,present,_⟩ := Raise.forall₂_right each listed
    exact present
  have get : ∀ field ∈ fields, (Table.record fields).get (.string field.1) = field.2 :=
    fun field listed => Table.record_get distinct present listed
  refine encodeTable_conforms (Table.build_marked _ _) some sorted ?_ ?_
  · intro key
    constructor
    · intro held
      obtain ⟨field,listed,same⟩ := Table.mem_of_mem_record (Table.mem_of_get held)
      obtain ⟨layout,known,name,_⟩ := Raise.forall₂_right each listed
      exact ⟨layout,known,by rw [← name]; exact (Prod.ext_iff.mp same).1⟩
    · rintro ⟨layout,known,rfl⟩
      obtain ⟨field,listed,name,held,_⟩ := Raise.forall₂_left each known
      rw [← name,get field listed]
      exact held
  · intro layout known
    obtain ⟨field,listed,name,_,found⟩ := Raise.forall₂_left each known
    rw [← name,get field listed]
    exact found

end Hypringo.Schema

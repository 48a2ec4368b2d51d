import Hypringo.StateMerge

namespace Hypringo.StateDelivery
open Hypringo.Lua Hypringo.Configuration Json Document State StateMerge

-- A value json.encode could lay out as a document. Its strings need not be
-- UTF-8: merging does not look into them, only publishing does.
structure Documented (h : Heap) (v : Value) : Prop where
  document : ∃ room d, document h room v = .ok d
  inside : v.Within h.size
  proper : v ≠ .table h.null

theorem Documented.extends {h later : Heap} {v : Value} (closed : h.Closed) (grown : h.Extends later)
    (documented : Documented h v) : Documented later v := by
  obtain ⟨room,d,found⟩ := documented.document
  exact ⟨⟨room,d,document_extends closed grown documented.inside found⟩,documented.inside.mono grown.size,
    by rw [grown.null]; exact documented.proper⟩

theorem Documented.bounded {h : Heap} {v : Value} (closed : h.Closed) (documented : Documented h v) :
    Bounded h (h.size+1) v := by
  obtain ⟨room,d,found⟩ := documented.document
  exact ((document_bounded closed found).tight closed documented.inside).succ

theorem equal_documented {h : Heap} {left : Value} (closed : h.Closed) (documented : Documented h left) (right : Value) :
    (equal h (h.size+1) [] left right).1 = true ↔ Same h left right :=
  (equal_decides (h.size+1) (documented.bounded closed) (by intro pair listed; simp at listed)).exact

-- The copy stands for the same document, so it is structurally equal.
theorem copy_documented {h : Heap} {v : Value} (closed : h.Closed) (plain : h.Plain) (documented : Documented h v) :
    ∃ w later, copy (h.size+1) [] h v = .ok (w,later) ∧ Working h later ∧ Documented later w ∧
      (v ≠ .nil → w ≠ .nil) ∧ Same later w v := by
  obtain ⟨room,d,found⟩ := documented.document
  obtain ⟨w,later,done,copied⟩ := copy_document closed plain found ⟨.refl h,closed,plain⟩ documented.inside
    documented.proper (.nil h v) (documented.bounded closed)
  have original := documented.extends closed copied.grown
  refine ⟨w,later,done,copied.working,⟨⟨room,d,copied.document⟩,copied.inside,copied.proper⟩,?_,?_⟩
  · intro some absent
    exact some (copied.present absent)
  · exact document_same copied.working.closed copied.working.plain copied.document
      (document_extends closed copied.grown documented.inside found) rfl copied.inside original.inside
      copied.proper original.proper

-- An entry of a patch that has arrived.
structure Sent (h : Heap) (entry : Value × Value) : Prop where
  key : entry.1.isKey = true
  present : entry.2 ≠ .nil
  documented : Documented h entry.2

theorem Sent.extends {h later : Heap} {entry : Value × Value} (closed : h.Closed) (grown : h.Extends later)
    (sent : Sent h entry) : Sent later entry :=
  ⟨sent.key,sent.present,sent.documented.extends closed grown⟩

theorem Sent.incoming {h : Heap} {entry : Value × Value} (sent : Sent h entry) : Incoming h entry :=
  ⟨sent.present,sent.documented.inside,sent.documented.proper⟩

theorem normalise_documented (domain : Domain) {entry : Value × Value} {h : Heap} (closed : h.Closed)
    (sent : Sent h entry) :
    Documented (normalise domain entry.1 entry.2 h).2 (normalise domain entry.1 entry.2 h).1 := by
  simp only [normalise]
  split
  · have proper : h.size ≠ (h.alloc (.empty true)).null := Nat.ne_of_gt closed.null
    obtain ⟨d,found,_⟩ := encodable_empty (h := h.alloc (.empty true)) 0 proper (by rw [h.alloc_new]; rfl)
    refine ⟨⟨_,d,found⟩,Nat.lt_succ_self _,?_⟩
    intro null
    injection null with null
    exact proper null
  · exact sent.documented

structure Taken (domain : Domain) (fields : List (Value × Value)) (target : Table) (h : Heap) (final : Table)
    (later : Heap) : Prop where
  working : Working h later
  documented : ∀ key, Documented later (final.get key)
  others : ∀ key, key ∉ fields.map Prod.fst → final.get key = target.get key
  holds : ∀ entry ∈ fields, Holds later domain entry (final.get entry.1)

-- One turn of the loop: the field holds the value afterwards, whether it was
-- left alone or written.
theorem mergeFields_turn (domain : Domain) {entry : Value × Value} {target : Table} {h : Heap} (closed : h.Closed)
    (plain : h.Plain) (documented : ∀ key, Documented h (target.get key)) (sent : Sent h entry) :
    ∃ now next middle, Taken domain [entry] target h next middle ∧ ∀ rest changed,
      mergeFields domain (entry :: rest) changed target h = mergeFields domain rest (changed || now) next middle := by
  have normal := normalise_spec domain closed plain sent.incoming
  have value := normalise_documented domain closed sent
  have working := normal.working
  have before : ∀ key, Documented _ (target.get key) := fun key => (documented key).extends closed working.grown
  obtain ⟨key,v⟩ := entry
  have decided := equal_documented working.closed (before key) (normalise domain key v h).1
  by_cases same : Same (normalise domain key v h).2 (target.get key) (normalise domain key v h).1
  · refine ⟨false,target,_,⟨working,before,fun _ _ => rfl,?_⟩,?_⟩
    · intro other member
      rw [List.mem_singleton.mp member]
      exact (normal.holds _ (.refl _) _ (before key).inside).mp same
    · intro rest changed
      simp only [mergeFields]
      rw [if_pos (decided.mpr same),Bool.or_false]
  · obtain ⟨w,later,copied,grown,held,present,alike⟩ := copy_documented working.closed working.plain value
    have stored : w ≠ .nil := present normal.incoming.present
    have set : (target.set key w).get key = w := Table.get_set_same sent.key stored
    refine ⟨true,target.set key w,later,⟨⟨working.grown.trans grown.grown,grown.closed,grown.plain⟩,?_,?_,?_⟩,?_⟩
    · intro other
      by_cases here : other = key
      · rw [here,set]
        exact held
      · rw [Table.get_set_other here]
        exact (before other).extends working.closed grown.grown
    · intro other outside
      exact Table.get_set_other (fun here => outside (by simp [here]))
    · intro other member
      rw [List.mem_singleton.mp member]
      change Holds later domain (key,v) ((target.set key w).get key)
      rw [set]
      exact (normal.holds _ grown.grown w held.inside).mp alike
    · intro rest changed
      simp only [mergeFields]
      rw [if_neg (fun equal => same (decided.mp equal)),copied,Bool.or_true]

theorem mergeFields_taken (domain : Domain) {fields : List (Value × Value)} {target : Table} {h : Heap} (changed : Bool)
    (closed : h.Closed) (plain : h.Plain) (documented : ∀ key, Documented h (target.get key))
    (distinct : (fields.map Prod.fst).Nodup) (sent : ∀ entry ∈ fields, Sent h entry) :
    ∃ now final later, mergeFields domain fields changed target h = (.ok now,final,later) ∧
      Taken domain fields target h final later := by
  induction fields generalizing target h changed with
  | nil => exact ⟨changed,target,h,rfl,⟨.refl h,closed,plain⟩,documented,fun _ _ => rfl,by simp⟩
  | cons entry rest ih =>
    have first := sent entry (by simp)
    have apart := List.nodup_cons.mp distinct
    obtain ⟨now,next,middle,turn,stepped⟩ := mergeFields_turn domain closed plain documented first
    have working := turn.working
    obtain ⟨changed,final,later,done,taken⟩ := ih (changed || now) working.closed working.plain turn.documented apart.2
      (fun entry member => (sent entry (by simp [member])).extends closed working.grown)
    refine ⟨changed,final,later,by rw [stepped]; exact done,
      ⟨working.grown.trans taken.working.grown,taken.working.closed,taken.working.plain⟩,taken.documented,?_,?_⟩
    · intro key outside
      rw [taken.others key (fun inside => outside (by simp [inside]))]
      exact turn.others key (fun inside => outside (by simp_all))
    · intro other member
      rcases List.mem_cons.mp member with head | tail
      · subst head
        rw [taken.others _ apart.1,Holds.extends working.closed taken.working.grown
          (first.extends closed working.grown).documented.inside (turn.documented _).inside]
        exact turn.holds other (by simp)
      · exact taken.holds other tail

-- What holds of the store whatever documents it has taken in.
structure Orderly (store : Store) : Prop where
  closed : store.heap.Closed
  plain : store.heap.Plain
  documented : ∀ domain key, Documented store.heap ((store.snapshot.state domain).get key)

theorem Tidy.orderly {room : Nat} {store : Store} (tidy : Tidy room store) : Orderly store := by
  refine ⟨tidy.closed,tidy.plain,?_⟩
  intro domain key
  have good := (tidy.formed domain).get key
  obtain ⟨d,found,_⟩ := good.encodable
  exact ⟨⟨room,d,found⟩,good.inside,good.proper⟩

def simple : Value → Bool
  | .boolean _ | .integer _ | .string _ => true
  | _ => false

theorem simple_documented {v : Value} (ok : simple v = true) (h : Heap) : Documented h v := by
  cases v with
  | boolean b => exact ⟨⟨0,_,document_scalar rfl 0⟩,trivial,by simp⟩
  | integer i => exact ⟨⟨0,_,document_scalar rfl 0⟩,trivial,by simp⟩
  | string s => exact ⟨⟨0,_,document_scalar rfl 0⟩,trivial,by simp⟩
  | _ => cases ok

theorem nil_documented (h : Heap) : Documented h .nil := ⟨⟨0,.null,document_scalar rfl 0⟩,trivial,by simp⟩

theorem new_orderly (configPath : Bytes) (config : Config) : Orderly (new configPath config) := by
  refine ⟨initial_closed config,initial_plain config,?_⟩
  intro domain key
  by_cases absent : ((new configPath config).snapshot.state domain).get key = .nil
  · rw [absent]
    exact nil_documented _
  · obtain ⟨field,listed,same⟩ := Table.mem_of_mem_record (Table.mem_of_get absent)
    have value : ((new configPath config).snapshot.state domain).get key = field.2 := (Prod.ext_iff.mp same).2
    have all : (initialFields configPath config domain).all (fun field => simple field.2 ||
        [1,3,4,5,6,7,8,9,10,12].any (fun a => field.2 == .table a)) = true := by
      cases domain <;> rfl
    have places : ∀ a ∈ [1,3,4,5,6,7,8,9,10,12], a < 13 ∧ a ≠ 0 := by decide
    rw [value]
    have kind := List.all_eq_true.mp all field listed
    rw [Bool.or_eq_true,List.any_eq_true] at kind
    rcases kind with ok | ⟨a,member,table⟩
    · exact simple_documented ok _
    · have good := initial_good config 0 (places a member).1 (places a member).2
      obtain ⟨d,found,_⟩ := good.encodable
      rw [eq_of_beq table]
      exact ⟨⟨_,d,found⟩,good.inside,good.proper⟩

-- A patch as ltask delivers it, of any values that stand for documents.
structure Parcel (before h : Heap) (p : Address) : Prop extends Arrived before h p where
  documents : ∀ entry ∈ (h.table p).entries, ∃ room d, document h room entry.2 = .ok d

theorem Parcel.sent {before h : Heap} {p : Address} (parcel : Parcel before h p) :
    ∀ entry ∈ (h.table p).entries, Sent h entry := by
  intro entry member
  have incoming := parcel.incoming entry member
  exact ⟨(h.table p).keys entry member,incoming.present,parcel.documents entry member,incoming.inside,incoming.proper⟩

structure Accepted (store : Store) (domain : Domain) (h : Heap) (p : Address) (after : Store) : Prop where
  orderly : Orderly after
  grown : h.Extends after.heap
  domains : ∀ other, other ≠ domain → after.snapshot.state other = store.snapshot.state other
  others : ∀ key, (h.table p).get key = .nil →
    (after.snapshot.state domain).get key = (store.snapshot.state domain).get key
  holds : ∀ entry ∈ (h.table p).entries, Holds after.heap domain entry ((after.snapshot.state domain).get entry.1)

-- M.merge never raises on a parcel.
theorem merge_accepted {store : Store} (orderly : Orderly store) (domain : Domain) {h : Heap} {p : Address}
    (parcel : Parcel store.heap h p) :
    ∃ result after, merge ⟨store.snapshot,h⟩ domain.name (.table p) = (.ok result,after) ∧
      Accepted store domain h p after := by
  have documented : ∀ domain key, Documented h ((store.snapshot.state domain).get key) :=
    fun domain key => (orderly.documented domain key).extends orderly.closed parcel.grown
  obtain ⟨changed,final,later,done,taken⟩ := mergeFields_taken domain false
    parcel.closed (parcel.plain orderly.plain) (documented domain) (h.table p).distinct parcel.sent
  refine ⟨(changed,if changed then store.snapshot.revision+1 else store.snapshot.revision),
    ⟨{ replace store.snapshot domain final with
      revision := if changed then store.snapshot.revision+1 else store.snapshot.revision },later⟩,?_,?_⟩
  · simp only [merge,Domain.parse_name,done]
  · refine ⟨⟨taken.working.closed,taken.working.plain,?_⟩,taken.working.grown,?_,?_,?_⟩
    · intro other key
      by_cases same : other = domain
      · subst same
        simpa [replace] using taken.documented key
      · simpa [replace,same] using (documented other key).extends parcel.closed taken.working.grown
    · intro other different
      simp [replace,different]
    · intro key absent
      have outside : key ∉ (h.table p).entries.map Prod.fst := by
        rw [← Table.get_ne_nil_iff]
        exact fun found => found absent
      simpa [replace] using taken.others key outside
    · intro entry member
      simpa [replace] using taken.holds entry member

-- A value that equals, in the language's sense and member by member, one that
-- stands for the document.
structure Shows (h : Heap) (v : Value) (d : Doc) : Prop where
  inside : v.Within h.size
  like : ∃ w room, w.Within h.size ∧ Same h v w ∧ document h room w = .ok d

theorem Shows.extends {h later : Heap} {v : Value} {d : Doc} (closed : h.Closed) (grown : h.Extends later)
    (seen : Shows h v d) : Shows later v d := by
  obtain ⟨w,room,inside,same,found⟩ := seen.like
  exact ⟨seen.inside.mono grown.size,w,room,inside.mono grown.size,
    (Same.extends closed grown seen.inside inside).mpr same,document_extends closed grown inside found⟩

theorem Shows.of_document {h : Heap} {v : Value} {d : Doc} {room : Nat} (inside : v.Within h.size)
    (finite : v.isFinite = true) (found : document h room v = .ok d) : Shows h v d :=
  ⟨inside,v,room,inside,.refl finite,found⟩

-- Only scalars stand for scalar documents, json.null aside.
theorem document_of_table {h : Heap} {room : Nat} {a : Address} {d : Doc} (found : document h room (.table a) = .ok d) :
    d = .null ∨ (∃ items, d = .array items) ∨ ∃ members, d = .object members := by
  by_cases null : a = h.null
  · rw [null,document_null] at found
    cases found
    exact .inl rfl
  · cases room with
    | zero =>
      unfold document at found
      simp [null] at found
    | succ room =>
      rw [document_table null] at found
      cases encodeTable_written found with
      | array items => exact .inr (.inl ⟨items,rfl⟩)
      | object members => exact .inr (.inr ⟨members,rfl⟩)

theorem Shows.boolean {h : Heap} {v : Value} {b : Bool} (seen : Shows h v (.boolean b)) : v = .boolean b := by
  obtain ⟨w,room,_,same,found⟩ := seen.like
  have exact : w = .boolean b := by
    cases w with
    | table a => simpa using document_of_table found
    | float f =>
      rw [document_scalar rfl,scalarDocument] at found
      split at found <;> cases found
    | _ => rw [document_scalar rfl] at found; cases found <;> rfl
  subst exact
  have equal := same.scalar (.inr rfl)
  cases v <;> simp_all [Value.rawEqual]

theorem Shows.string {h : Heap} {v : Value} {s : Bytes} (seen : Shows h v (.string s)) : v = .string s := by
  obtain ⟨w,room,_,same,found⟩ := seen.like
  have exact : w = .string s := by
    cases w with
    | table a => simpa using document_of_table found
    | float f =>
      rw [document_scalar rfl,scalarDocument] at found
      split at found <;> cases found
    | _ => rw [document_scalar rfl] at found; cases found <;> rfl
  subst exact
  have equal := same.scalar (.inr rfl)
  cases v <;> simp_all [Value.rawEqual]

theorem Shows.integer {h : Heap} {v : Value} {i : Int64} (seen : Shows h v (.sint i.toInt)) :
    v.rawEqual (.integer i) = true := by
  obtain ⟨w,room,_,same,found⟩ := seen.like
  have exact : w = .integer i := by
    cases w with
    | table a => simpa using document_of_table found
    | float f =>
      rw [document_scalar rfl,scalarDocument] at found
      split at found <;> cases found
    | integer j =>
      rw [document_scalar rfl,scalarDocument] at found
      injection found with found
      injection found with found
      rw [Int64.toInt_inj.mp found]
    | _ => rw [document_scalar rfl] at found; cases found
  subst exact
  exact same.scalar (.inr rfl)

-- Marks are lost between services, so an empty array arrives as an empty table.
mutual
def transit : Doc → Doc
  | .array [] => .object []
  | .array (item :: rest) => .array (transit item :: transitItems rest)
  | .object members => .object (transitMembers members)
  | d => d
def transitItems : List Doc → List Doc
  | [] => []
  | item :: rest => transit item :: transitItems rest
def transitMembers : List (Bytes × Doc) → List (Bytes × Doc)
  | [] => []
  | (key,value) :: rest => (key,transit value) :: transitMembers rest
end

-- What M.merge makes of a field that arrives: the empty table in place of a
-- list is an array again.
def emptyObject : Doc → Bool
  | .object [] => true
  | _ => false

def stored (domain : Domain) (name : Bytes) (d : Doc) : Doc :=
  if arrayField domain (.string name) && emptyObject (transit d) then .array [] else transit d

theorem transit_filled (d : Doc) : transit d ≠ .array [] := by
  cases d with
  | array items => cases items <;> simp [transit]
  | _ => simp [transit]

-- A patch with these fields, unpacked at `p`.
structure Packed (before h : Heap) (p : Address) (fields : List (Bytes × Doc)) : Prop extends Arrived before h p where
  each : ∀ field ∈ fields, ∃ room, document h room ((h.table p).get (.string field.1)) = .ok (transit field.2)
  only : ∀ key, (h.table p).get key ≠ .nil → ∃ field ∈ fields, key = .string field.1
  present : ∀ field ∈ fields, (h.table p).get (.string field.1) ≠ .nil

theorem Packed.parcel {before h : Heap} {p : Address} {fields : List (Bytes × Doc)}
    (packed : Packed before h p fields) : Parcel before h p := by
  refine ⟨packed.toArrived,?_⟩
  intro entry member
  have value := Table.get_of_mem member
  have found : (h.table p).get entry.1 ≠ .nil := by
    rw [value]
    exact (h.table p).present entry member
  obtain ⟨field,listed,key⟩ := packed.only entry.1 found
  obtain ⟨room,document⟩ := packed.each field listed
  rw [← key,value] at document
  exact ⟨room,_,document⟩

theorem empty_table_document {h : Heap} {room : Nat} {v : Value} {d : Doc} (empty : isEmptyTable h v = true)
    (proper : v ≠ .table h.null) (found : document h room v = .ok d) : d = .array [] ∨ d = .object [] := by
  cases v with
  | table a =>
    have apart : a ≠ h.null := fun same => proper (by rw [same])
    have none : (h.table a).entries = [] := by simpa [isEmptyTable] using empty
    cases room with
    | zero =>
      unfold document at found
      simp [apart] at found
    | succ room =>
      rw [document_table apart] at found
      cases encodeTable_written found with
      | array items dense _ _ =>
        left
        cases items with
        | nil => rfl
        | cons item rest =>
          have full := (dense.keys (arrayKey 0)).mpr ⟨0,by simp,rfl⟩
          exact absurd (Table.entries_nil_iff.mp none _) full
      | object members _ _ fields _ =>
        right
        cases members with
        | nil => rfl
        | cons member rest =>
          have full := (fields (.string member.1)).mpr ⟨member,by simp,rfl⟩
          exact absurd (Table.entries_nil_iff.mp none _) full
  | _ => simp [isEmptyTable] at empty

theorem empty_object_table {h : Heap} {room : Nat} {v : Value} (found : document h room v = .ok (.object [])) :
    isEmptyTable h v = true := by
  cases v with
  | table a =>
    by_cases null : a = h.null
    · rw [null,document_null] at found
      cases found
    · cases room with
      | zero =>
        unfold document at found
        simp [null] at found
      | succ room =>
        rw [document_table null] at found
        generalize same : Doc.object [] = d at found
        cases encodeTable_written found with
        | array items => cases same
        | object members _ _ fields _ =>
          cases same
          have none : (h.table a).entries = [] := by
            rw [Table.entries_nil_iff]
            intro key
            by_contra held
            obtain ⟨member,listed,_⟩ := (fields key).mp held
            cases listed
          simp [isEmptyTable,none]
  | float f =>
    rw [document_scalar rfl,scalarDocument] at found
    split at found <;> cases found
  | _ => rw [document_scalar rfl] at found; cases found

theorem marked_empty_shows {h : Heap} {a : Address} (inside : a < h.size) (proper : a ≠ h.null)
    (marked : (h.table a).marked = true) (none : (h.table a).entries = []) : Shows h (.table a) (.array []) := by
  have found : document h 1 (.table a) = .ok (.array []) := by
    rw [document_table proper]
    simp [encodeTable,tableShape,none,marked,encodeArray,bind,Except.bind,pure,Except.pure]
  exact .of_document inside rfl found

theorem Accepted.shows {store after : Store} {domain : Domain} {h : Heap} {p : Address} {fields : List (Bytes × Doc)}
    (accepted : Accepted store domain h p after) (packed : Packed store.heap h p fields) {field : Bytes × Doc}
    (listed : field ∈ fields) :
    Shows after.heap ((after.snapshot.state domain).get (.string field.1)) (stored domain field.1 field.2) := by
  have held := accepted.holds _ (Table.mem_of_get (packed.present field listed))
  obtain ⟨room,document⟩ := packed.each field listed
  have incoming := packed.incoming _ (Table.mem_of_get (packed.present field listed))
  have inside := (accepted.orderly.documented domain (.string field.1)).inside
  have later := document_extends packed.closed accepted.grown incoming.inside document
  have proper := (incoming.extends accepted.grown).proper
  generalize (h.table p).get (.string field.1) = v at *
  unfold Holds at held
  cases list : arrayField domain (.string field.1) && isEmptyTable after.heap v with
  | true =>
    simp only [list,if_true] at held
    obtain ⟨a,bound,same,marked,none⟩ := held
    rw [Bool.and_eq_true] at list
    have empty : transit field.2 = .object [] := by
      rcases empty_table_document list.2 proper later with array | object
      · exact absurd array (transit_filled _)
      · exact object
    have apart : a ≠ after.heap.null := by
      intro null
      refine (accepted.orderly.documented domain (.string field.1)).proper ?_
      rw [same,null]
    simp only [stored,list.1,empty,emptyObject,Bool.and_self,if_true,same]
    exact marked_empty_shows bound apart marked none
  | false =>
    simp only [list,Bool.false_eq_true,if_false] at held
    have full : (arrayField domain (.string field.1) && emptyObject (transit field.2)) = false := by
      cases kind : arrayField domain (.string field.1) with
      | false => rfl
      | true =>
        simp only [kind,Bool.true_and] at list ⊢
        cases shape : emptyObject (transit field.2) with
        | false => rfl
        | true =>
          have object : transit field.2 = .object [] := by
            generalize transit field.2 = d at shape
            unfold emptyObject at shape
            split at shape
            · rfl
            · cases shape
          rw [object] at later
          rw [empty_object_table later] at list
          cases list
    simp only [stored,full,Bool.false_eq_true,if_false]
    exact ⟨inside,v,room,incoming.inside.mono accepted.grown.size,held,later⟩

theorem Accepted.kept {store after : Store} {domain : Domain} {h : Heap} {p : Address} {fields : List (Bytes × Doc)}
    (accepted : Accepted store domain h p after) (packed : Packed store.heap h p fields) {name : Bytes}
    (outside : name ∉ fields.map Prod.fst) :
    (after.snapshot.state domain).get (.string name) = (store.snapshot.state domain).get (.string name) := by
  apply accepted.others
  by_contra held
  obtain ⟨field,listed,same⟩ := packed.only _ held
  injection same with same
  exact outside (same ▸ List.mem_map_of_mem listed)

end Hypringo.StateDelivery

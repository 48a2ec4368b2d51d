import Hypringo.Runs
import Hypringo.StateChange
import Hypringo.Unpacking

namespace Hypringo.Interleaving
open Hypringo.Lua Json Document State StateMerge StateDelivery StateChange Unpacking Runs

-- A patch as a source sends it: fields by name, each of them JSON-like data.
structure Patch where
  domain : Domain
  fields : List (Bytes × Doc)

def Patch.Sendable (patch : Patch) : Prop :=
  (patch.fields.map Prod.fst).Nodup ∧ layableMembers patch.fields = true

-- The patch is unpacked as fresh tables and merged.
def deliver (store : Store) (patch : Patch) : Except Bytes (Bool × Int) × Store :=
  merge ⟨store.snapshot,unpackedHeap patch.fields store.heap⟩ patch.domain.name
    (.table (unpackedAt patch.fields store.heap))

def after (store : Store) (patch : Patch) : Store := (deliver store patch).2

def changes (store : Store) (patch : Patch) : Bool :=
  match (deliver store patch).1 with
  | .ok (changed,_) => changed
  | .error _ => false

def effective : Store → List Patch → Nat
  | _,[] => 0
  | store,patch :: rest => (if changes store patch then 1 else 0) + effective (after store patch) rest

def own (domain : Domain) (patches : List Patch) : List Patch := patches.filter (fun patch => patch.domain = domain)

-- The domain holds the same document in both stores, field by field.
def Agree (domain : Domain) (one two : Store) : Prop :=
  ∀ key, ∃ d, Reads one domain key d ∧ Reads two domain key d

-- What delivering a patch does.
structure Delivered (store : Store) (patch : Patch) (changed : Bool) (later : Store) : Prop extends
    Applied store patch.domain (unpackedHeap patch.fields store.heap) (unpackedAt patch.fields store.heap) patch.fields
      changed later where
  growth : store.heap.Extends later.heap

theorem deliver_delivered {store : Store} {patch : Patch} (orderly : Orderly store) (sendable : patch.Sendable) :
    ∃ changed later, deliver store patch = (.ok (changed,later.snapshot.revision),later) ∧
      Delivered store patch changed later := by
  have packed := unpacked_packed orderly.closed sendable.1 sendable.2
  obtain ⟨changed,later,merged,applied⟩ := merge_applied orderly patch.domain packed
  exact ⟨changed,later,merged,applied,packed.grown.trans applied.grown⟩

def Settling (store : Store) (patch : Patch) (field : Bytes × Doc) : Prop :=
  Settled store patch.domain (unpackedHeap patch.fields store.heap) (unpackedAt patch.fields store.heap) field

theorem holds_transfer {h g : Heap} {domain : Domain} {key v w held other : Value} (inside : other.Within g.size)
    (values : Alike h g v w) (fields : Alike h g held other) (holds : Holds h domain (key,v) held) :
    Holds g domain (key,w) other := by
  have empty : isEmptyTable g w = isEmptyTable h v := by
    cases values with
    | scalar flat _ => cases v <;> simp_all [Value.scalar,isEmptyTable]
    | table _ each =>
      simp only [isEmptyTable]
      rw [Bool.eq_iff_iff,List.isEmpty_iff,List.isEmpty_iff,Table.entries_nil_iff,Table.entries_nil_iff]
      exact forall_congr' (fun key => (each key).nil_iff.symm)
  unfold Holds at holds ⊢
  simp only [empty]
  split at holds
  · rename_i list
    rw [if_pos list]
    obtain ⟨a,_,rfl,marked,none⟩ := holds
    cases fields with
    | scalar flat _ => simp [Value.scalar] at flat
    | @table _ b marks each =>
      refine ⟨b,inside,rfl,marks ▸ marked,?_⟩
      rw [Table.entries_nil_iff] at none ⊢
      exact fun key => (each key).nil_iff.mp (none key)
  · rename_i list
    rw [if_neg list]
    exact fields.transfer holds values

theorem Agree.symm {domain : Domain} {one two : Store} (agree : Agree domain one two) : Agree domain two one := by
  intro key
  obtain ⟨d,left,right⟩ := agree key
  exact ⟨d,right,left⟩

theorem documented_alike {h g : Heap} (closedLeft : h.Closed) (plainLeft : h.Plain) (closedRight : g.Closed)
    (plainRight : g.Plain) {v w : Value} (left : Documented h v) (right : Documented g w) {room other : Nat} {d : Doc}
    (one : document h room v = .ok d) (two : document g other w = .ok d) : Alike h g v w :=
  document_alike closedLeft plainLeft closedRight plainRight one two rfl left.inside right.inside left.proper right.proper

-- Whether a field is settled is told from the domain alone.
theorem settled_transfer {patch : Patch} {one two : Store} (orderlyOne : Orderly one) (orderlyTwo : Orderly two)
    (sendable : patch.Sendable) (agree : Agree patch.domain one two) {field : Bytes × Doc} (listed : field ∈ patch.fields)
    (settled : Settling one patch field) : Settling two patch field := by
  have left := unpacked_packed orderlyOne.closed sendable.1 sendable.2
  have right := unpacked_packed orderlyTwo.closed sendable.1 sendable.2
  have plainLeft := left.plain orderlyOne.plain
  have plainRight := right.plain orderlyTwo.plain
  have heldLeft := (orderlyOne.documented patch.domain (.string field.1)).extends orderlyOne.closed left.grown
  have heldRight := (orderlyTwo.documented patch.domain (.string field.1)).extends orderlyTwo.closed right.grown
  obtain ⟨d,⟨room,readOne⟩,⟨other,readTwo⟩⟩ := agree (.string field.1)
  have fields := documented_alike left.closed plainLeft right.closed plainRight heldLeft heldRight
    (document_extends orderlyOne.closed left.grown (orderlyOne.documented _ _).inside readOne)
    (document_extends orderlyTwo.closed right.grown (orderlyTwo.documented _ _).inside readTwo)
  have sentLeft := left.parcel.sent _ (Table.mem_of_get (left.present field listed))
  have sentRight := right.parcel.sent _ (Table.mem_of_get (right.present field listed))
  obtain ⟨size,foundLeft⟩ := left.each field listed
  obtain ⟨more,foundRight⟩ := right.each field listed
  have values := documented_alike left.closed plainLeft right.closed plainRight sentLeft.documented sentRight.documented
    foundLeft foundRight
  exact holds_transfer heldRight.inside values fields settled

theorem settled_iff {patch : Patch} {one two : Store} (orderlyOne : Orderly one) (orderlyTwo : Orderly two)
    (sendable : patch.Sendable) (agree : Agree patch.domain one two) {field : Bytes × Doc} (listed : field ∈ patch.fields) :
    Settling one patch field ↔ Settling two patch field :=
  ⟨settled_transfer orderlyOne orderlyTwo sendable agree listed,
    settled_transfer orderlyTwo orderlyOne sendable agree.symm listed⟩

-- Whatever a delivery found, the next one of the same fields finds them settled.
theorem settled_again {store later : Store} {domain : Domain} {h g : Heap} {p q : Address} {fields : List (Bytes × Doc)}
    (accepted : Accepted store domain h p later) (first : Packed store.heap h p fields) (second : Packed later.heap g q fields)
    {field : Bytes × Doc} (listed : field ∈ fields) : Settled later domain g q field := by
  have orderly := accepted.orderly
  have plainAgain := second.plain orderly.plain
  have kept := orderly.documented domain (.string field.1)
  obtain ⟨⟨room,d,read⟩,inside,_⟩ := orderly.documented domain (.string field.1)
  have held := documented_alike orderly.closed orderly.plain second.closed plainAgain kept (kept.extends orderly.closed second.grown)
    read (document_extends orderly.closed second.grown inside read)
  have member := Table.mem_of_get (first.present field listed)
  have sent := first.parcel.sent _ member
  obtain ⟨size,found⟩ := first.each field listed
  obtain ⟨more,again⟩ := second.each field listed
  have values := documented_alike orderly.closed orderly.plain second.closed plainAgain
    (sent.documented.extends first.closed accepted.grown)
    (second.parcel.sent _ (Table.mem_of_get (second.present field listed))).documented
    (document_extends first.closed accepted.grown sent.documented.inside found) again
  exact holds_transfer (kept.extends orderly.closed second.grown).inside values held (accepted.holds _ member)

theorem merge_again {store later : Store} {domain : Domain} {h g : Heap} {p q : Address} {fields : List (Bytes × Doc)}
    {result : Bool × Int} (orderly : Orderly store) (first : Packed store.heap h p fields)
    (merged : merge ⟨store.snapshot,h⟩ domain.name (.table p) = (.ok result,later)) (second : Packed later.heap g q fields) :
    ∃ again, merge ⟨later.snapshot,g⟩ domain.name (.table q) = (.ok (false,later.snapshot.revision),again) := by
  obtain ⟨_,after,done,accepted⟩ := merge_accepted orderly domain first.parcel
  obtain ⟨_,rfl⟩ := Prod.mk.inj (merged.symm.trans done)
  obtain ⟨changed,again,repeated,applied⟩ := merge_applied accepted.orderly domain second
  have unchanged : changed = false := by
    rw [Bool.eq_false_iff,ne_eq,applied.changed]
    rintro ⟨field,listed,unsettled⟩
    exact unsettled (settled_again accepted first second listed)
  have revision := applied.revision
  subst unchanged
  rw [if_neg Bool.false_ne_true,add_zero] at revision
  exact ⟨again,by rw [repeated,revision]⟩

theorem after_orderly {store : Store} {patch : Patch} (orderly : Orderly store) (sendable : patch.Sendable) :
    Orderly (after store patch) := by
  obtain ⟨_,later,done,delivered⟩ := deliver_delivered orderly sendable
  rw [after,done]
  exact delivered.orderly

-- A patch of the domain does the same to both stores.
theorem agree_own {patch : Patch} {one two : Store} (orderlyOne : Orderly one) (orderlyTwo : Orderly two)
    (sendable : patch.Sendable) (agree : Agree patch.domain one two) :
    changes one patch = changes two patch ∧ Agree patch.domain (after one patch) (after two patch) := by
  obtain ⟨first,left,doneLeft,deliveredLeft⟩ := deliver_delivered orderlyOne sendable
  obtain ⟨second,right,doneRight,deliveredRight⟩ := deliver_delivered orderlyTwo sendable
  have decided : ∀ field ∈ patch.fields, (Settling one patch field ↔ Settling two patch field) :=
    fun field listed => settled_iff orderlyOne orderlyTwo sendable agree listed
  simp only [changes,after,doneLeft,doneRight]
  constructor
  · rw [Bool.eq_iff_iff,deliveredLeft.changed,deliveredRight.changed]
    constructor
    · rintro ⟨field,listed,unsettled⟩
      exact ⟨field,listed,fun settled => unsettled ((decided field listed).mpr settled)⟩
    · rintro ⟨field,listed,unsettled⟩
      exact ⟨field,listed,fun settled => unsettled ((decided field listed).mp settled)⟩
  · intro key
    by_cases named : ∃ field ∈ patch.fields, key = .string field.1
    · obtain ⟨field,listed,rfl⟩ := named
      by_cases settled : Settling one patch field
      · obtain ⟨d,readOne,readTwo⟩ := agree (.string field.1)
        exact ⟨d,readOne.kept orderlyOne deliveredLeft.growth (deliveredLeft.kept field listed settled),
          readTwo.kept orderlyTwo deliveredRight.growth
            (deliveredRight.kept field listed ((decided field listed).mp settled))⟩
      · exact ⟨_,deliveredLeft.moved field listed settled,
          deliveredRight.moved field listed (fun other => settled ((decided field listed).mpr other))⟩
    · have absent : ∀ field ∈ patch.fields, key ≠ .string field.1 := fun field listed same => named ⟨field,listed,same⟩
      obtain ⟨d,readOne,readTwo⟩ := agree key
      exact ⟨d,readOne.kept orderlyOne deliveredLeft.growth (deliveredLeft.absent key absent),
        readTwo.kept orderlyTwo deliveredRight.growth (deliveredRight.absent key absent)⟩

-- A patch of another domain does nothing to this one.
theorem agree_other {domain : Domain} {patch : Patch} {one two : Store} (orderly : Orderly one)
    (sendable : patch.Sendable) (elsewhere : patch.domain ≠ domain) (agree : Agree domain one two) :
    Agree domain (after one patch) two := by
  obtain ⟨_,later,done,delivered⟩ := deliver_delivered orderly sendable
  intro key
  obtain ⟨d,readOne,readTwo⟩ := agree key
  refine ⟨d,?_,readTwo⟩
  rw [after,done]
  refine readOne.kept orderly delivered.growth ?_
  rw [delivered.domains domain (fun same => elsewhere same.symm)]

-- The effective patches of one domain in a run of all of them.
def effectiveOf (domain : Domain) : Store → List Patch → Nat
  | _,[] => 0
  | store,patch :: rest =>
    (if patch.domain = domain ∧ changes store patch = true then 1 else 0) + effectiveOf domain (after store patch) rest

-- In any interleaving a domain fares as if only its own patches had come.
theorem run_own {domain : Domain} {patches : List Patch} {one two : Store} (orderlyOne : Orderly one)
    (orderlyTwo : Orderly two) (sendable : ∀ patch ∈ patches, patch.Sendable) (agree : Agree domain one two) :
    Agree domain (final after one patches) (final after two (own domain patches)) ∧
      effectiveOf domain one patches = effective two (own domain patches) := by
  induction patches generalizing one two with
  | nil => exact ⟨agree,rfl⟩
  | cons patch rest ih =>
    have first := sendable patch (by simp)
    have others : ∀ patch ∈ rest, patch.Sendable := fun patch listed => sendable patch (by simp [listed])
    by_cases here : patch.domain = domain
    · subst here
      have listed : own patch.domain (patch :: rest) = patch :: own patch.domain rest := by simp [own]
      obtain ⟨same,still⟩ := agree_own orderlyOne orderlyTwo first agree
      obtain ⟨agreed,counted⟩ := ih (after_orderly orderlyOne first) (after_orderly orderlyTwo first) others still
      rw [listed]
      refine ⟨agreed,?_⟩
      simp only [effectiveOf,effective,counted,same,true_and]
    · have skipped : own domain (patch :: rest) = own domain rest := by simp [own,here]
      obtain ⟨agreed,counted⟩ := ih (after_orderly orderlyOne first) orderlyTwo others
        (agree_other orderlyOne first here agree)
      rw [skipped]
      refine ⟨agreed,?_⟩
      simp only [effectiveOf,counted,here,false_and,if_false,Nat.zero_add]

theorem changes_once (domain : Domain) (changed : Bool) :
    (Domain.all.map (fun other => if domain = other ∧ changed = true then 1 else 0)).sum = if changed then 1 else 0 := by
  cases changed <;> cases domain <;> decide

theorem revision_counts {patches : List Patch} {store : Store} (orderly : Orderly store)
    (sendable : ∀ patch ∈ patches, patch.Sendable) :
    (final after store patches).snapshot.revision = store.snapshot.revision +
      ((Domain.all.map (fun domain => effectiveOf domain store patches)).sum : Nat) := by
  induction patches generalizing store with
  | nil => simp [final,effectiveOf]
  | cons patch rest ih =>
    have first := sendable patch (by simp)
    have later := ih (after_orderly orderly first) (fun patch listed => sendable patch (by simp [listed]))
    have step : (after store patch).snapshot.revision = store.snapshot.revision +
        ((if changes store patch then 1 else 0 : Nat) : Int) := by
      obtain ⟨changed,_,done,delivered⟩ := deliver_delivered orderly first
      simp only [after,changes,done,delivered.revision]
      cases changed <;> simp
    simp only [final,effectiveOf,List.sum_map_add,changes_once,later,step]
    omega

theorem Agree.trans {domain : Domain} {one two three : Store} (left : Agree domain one two) (right : Agree domain two three) :
    Agree domain one three := by
  intro key
  obtain ⟨d,first,middle⟩ := left key
  obtain ⟨e,other,last⟩ := right key
  rw [middle.unique other] at first
  exact ⟨e,first,last⟩

theorem agree_refl {store : Store} (orderly : Orderly store) (domain : Domain) : Agree domain store store := by
  intro key
  obtain ⟨room,d,found⟩ := (orderly.documented domain key).document
  exact ⟨d,⟨room,found⟩,⟨room,found⟩⟩

-- However the sources' patches interleave, the same store comes out, and every
-- effective patch counts once.
theorem interleavings_agree {start : Store} (one two : List Patch) (orderly : Orderly start)
    (sendable : ∀ patch ∈ one, patch.Sendable) (orders : ∀ domain, own domain one = own domain two) :
    (∀ domain, Agree domain (final after start one) (final after start two)) ∧
    (final after start one).snapshot.revision = (final after start two).snapshot.revision ∧
    (final after start one).snapshot.revision = start.snapshot.revision +
      ((Domain.all.map (fun domain => effective start (own domain one))).sum : Nat) := by
  have sendableTwo : ∀ patch ∈ two, patch.Sendable := by
    intro patch listed
    have mine : patch ∈ own patch.domain one := by
      rw [orders]
      exact List.mem_filter.mpr ⟨listed,by simp⟩
    exact sendable patch (List.mem_filter.mp mine).1
  have first := fun domain => run_own orderly orderly sendable (agree_refl orderly domain)
  have second := fun domain => run_own orderly orderly sendableTwo (agree_refl orderly domain)
  have counted : (final after start one).snapshot.revision = start.snapshot.revision +
      ((Domain.all.map (fun domain => effective start (own domain one))).sum : Nat) := by
    rw [revision_counts orderly sendable]
    simp only [(first _).2]
  have other : (final after start two).snapshot.revision = start.snapshot.revision +
      ((Domain.all.map (fun domain => effective start (own domain one))).sum : Nat) := by
    rw [revision_counts orderly sendableTwo]
    simp only [(second _).2,orders]
  refine ⟨?_,counted.trans other.symm,counted⟩
  intro domain
  have alone := (second domain).1
  rw [← orders] at alone
  exact (first domain).1.trans alone.symm

def muted : Patch := ⟨.audio,[(text "muted",.boolean true)]⟩
def unmuted : Patch := ⟨.audio,[(text "muted",.boolean false)]⟩
def noNotifications : Patch := ⟨.github,[(text "notifications",.array [])]⟩

theorem notifications_between_agree :
    (∀ domain, Agree domain (final after (new (text "config.lua") Configuration.allSources) [muted,unmuted,noNotifications])
      (final after (new (text "config.lua") Configuration.allSources) [muted,noNotifications,unmuted])) ∧
    (final after (new (text "config.lua") Configuration.allSources) [muted,unmuted,noNotifications]).snapshot.revision =
      (final after (new (text "config.lua") Configuration.allSources) [muted,noNotifications,unmuted]).snapshot.revision := by
  have agreed := interleavings_agree [muted,unmuted,noNotifications] [muted,noNotifications,unmuted]
    (new_orderly (text "config.lua") Configuration.allSources)
    (by
      intro patch listed
      fin_cases listed <;> exact ⟨by decide,by decide⟩)
    (by
      intro domain
      cases domain <;> rfl)
  exact ⟨agreed.1,agreed.2.1⟩

end Hypringo.Interleaving

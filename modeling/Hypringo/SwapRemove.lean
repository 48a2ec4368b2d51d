import Mathlib

-- An array that fills the hole of a removed element with its last one, and the
-- two loops over such an array that remove as they go.
namespace Hypringo.SwapRemove
variable {α : Type}

def removeAt (items : List α) (index : Nat) : List α :=
  match items.getLast? with
  | none => []
  | some last => (items.set index last).dropLast

-- The last element takes the place of the removed one; those before it stay.
theorem removeAt_place {items : List α} {index new : Nat} {item : α} (found : (removeAt items index)[new]? = some item) :
    new < items.length - 1 ∧ items[if new = index then items.length - 1 else new]? = some item := by
  unfold removeAt at found
  split at found
  · simp at found
  · rename_i last final
    rw [List.getLast?_eq_getElem?] at final
    rw [List.getElem?_dropLast,List.length_set] at found
    split at found
    · rename_i below
      refine ⟨below,?_⟩
      by_cases here : index = new
      · subst here
        rw [List.getElem?_set_self (by omega)] at found
        rw [if_pos rfl,final]
        exact found
      · rw [List.getElem?_set_ne here] at found
        rw [if_neg (Ne.symm here)]
        exact found
    · cases found

-- What follows the hole is kept in another order.
theorem removeAt_split (front rest : List α) (item : α) :
    ∃ moved, removeAt (front ++ item :: rest) front.length = front ++ moved ∧ moved.Perm rest := by
  rcases List.eq_nil_or_concat' rest with rfl | ⟨middle,last,rfl⟩
  · refine ⟨[],?_,.nil⟩
    rw [removeAt,List.getLast?_append_cons,List.getLast?_singleton]
    dsimp only
    rw [List.set_append_right _ _ (le_refl _),Nat.sub_self,List.set_cons_zero,List.dropLast_concat,List.append_nil]
  · refine ⟨last :: middle,?_,List.perm_append_singleton last middle |>.symm⟩
    have final : (front ++ item :: (middle ++ [last])).getLast? = some last := by
      rw [← List.cons_append,← List.append_assoc,List.getLast?_concat]
    rw [removeAt,final]
    dsimp only
    rw [List.set_append_right _ _ (le_refl _),Nat.sub_self,List.set_cons_zero,← List.cons_append,← List.append_assoc,
      List.dropLast_concat]

theorem split_at {items : List α} {index : Nat} (inside : index < items.length) :
    items = items.take index ++ items[index] :: items.drop (index + 1) := by
  rw [List.getElem_cons_drop,List.take_append_drop]

theorem removeAt_length {items : List α} {index : Nat} (inside : index < items.length) :
    (removeAt items index).length + 1 = items.length := by
  unfold removeAt
  cases final : items.getLast? with
  | none =>
    rw [List.getLast?_eq_none_iff.mp final] at inside
    exact absurd inside (Nat.not_lt_zero _)
  | some last =>
    dsimp only
    rw [List.length_dropLast,List.length_set]
    omega

-- What a loop leaves behind: the elements kept, those it looked at and where,
-- and those it dropped, both in order.
structure Passed (α : Type) where
  kept : List α
  visited : List (α × Nat)
  dropped : List α

section Backwards
variable (examine : Nat → α → α × Bool)

-- From the highest index below `count` down, as they stood at the start.
def sweep : List α → Nat → Passed α
  | items,0 => ⟨items,[],[]⟩
  | items,index + 1 =>
    match items[index]? with
    | none => sweep items index
    | some item =>
      let (changed,keep) := examine index item
      let later := sweep (if keep then items.set index changed else removeAt items index) index
      ⟨later.kept,(item,index) :: later.visited,if keep then later.dropped else item :: later.dropped⟩

def survivors (items : List α) : List α :=
  items.zipIdx.filterMap fun (item,index) => if (examine index item).2 then some (examine index item).1 else none

def casualties (items : List α) : List α :=
  items.zipIdx.filterMap fun (item,index) => if (examine index item).2 then none else some item

-- The loop meets every element of the front once, last first, and leaves what
-- lay behind it in some order.
theorem sweep_exact (front rest : List α) :
    (sweep examine (front ++ rest) front.length).visited = front.zipIdx.reverse ∧
      (sweep examine (front ++ rest) front.length).dropped = (casualties examine front).reverse ∧
      (sweep examine (front ++ rest) front.length).kept.Perm (survivors examine front ++ rest) := by
  induction front using List.reverseRecOn generalizing rest with
  | nil => exact ⟨rfl,rfl,.refl _⟩
  | append_singleton front item ih =>
    have found : (front ++ [item] ++ rest)[front.length]? = some item := by
      rw [List.append_assoc,List.getElem?_append_right (le_refl _),Nat.sub_self]
      rfl
    have zipped : (front ++ [item]).zipIdx = front.zipIdx ++ [(item,front.length)] := by
      rw [List.zipIdx_append,Nat.zero_add]
      rfl
    rw [List.length_append,List.length_singleton,sweep,found]
    dsimp only
    cases keep : (examine front.length item).2 with
    | true =>
      have stored : (front ++ [item] ++ rest).set front.length (examine front.length item).1 =
          front ++ (examine front.length item).1 :: rest := by
        rw [List.append_assoc,List.set_append_right _ _ (le_refl _),Nat.sub_self]
        rfl
      obtain ⟨visited,dropped,kept⟩ := ih ((examine front.length item).1 :: rest)
      rw [if_pos rfl,if_pos rfl,stored]
      refine ⟨?_,?_,?_⟩
      · rw [visited,zipped,List.reverse_append]
        rfl
      · rw [dropped,casualties,casualties,zipped,List.filterMap_append]
        simp [keep]
      · rw [survivors,zipped,List.filterMap_append]
        simpa [survivors,keep] using kept
    | false =>
      obtain ⟨moved,removed,same⟩ := removeAt_split front rest item
      obtain ⟨visited,dropped,kept⟩ := ih moved
      have joined : front ++ [item] ++ rest = front ++ item :: rest := by rw [List.append_assoc]; rfl
      rw [if_neg (by decide),if_neg (by decide),joined,removed]
      refine ⟨?_,?_,?_⟩
      · rw [visited,zipped,List.reverse_append]
        rfl
      · rw [dropped,casualties,casualties,zipped,List.filterMap_append]
        simp [keep]
      · rw [survivors,zipped,List.filterMap_append]
        simpa [survivors,keep] using kept.trans (same.append_left _)

theorem sweep_all (items : List α) :
    (sweep examine items items.length).visited = items.zipIdx.reverse ∧
      (sweep examine items items.length).dropped = (casualties examine items).reverse ∧
      (sweep examine items items.length).kept.Perm (survivors examine items) := by
  have exact' := sweep_exact examine items []
  rwa [List.append_nil,List.append_nil] at exact'

theorem survivors_sublist {β : Type} {key : α → β} (keeps : ∀ index item, key (examine index item).1 = key item)
    (items : List α) : ((survivors examine items).map key).Sublist (items.map key) := by
  induction items using List.reverseRecOn with
  | nil => exact .slnil
  | append_singleton items item ih =>
    have zipped : (items ++ [item]).zipIdx = items.zipIdx ++ [(item,items.length)] := by
      rw [List.zipIdx_append,Nat.zero_add]
      rfl
    rw [survivors,zipped,List.filterMap_append,List.map_append,List.map_append]
    apply List.Sublist.append ih
    cases keep : (examine items.length item).2 with
    | true => simp [keep,keeps]
    | false => simp [keep]

-- Nobody is lost or doubled: an element survives or is a casualty.
theorem survivors_casualties {β : Type} {key : α → β} (keeps : ∀ index item, key (examine index item).1 = key item)
    (items : List α) :
    ((survivors examine items).map key ++ (casualties examine items).map key).Perm (items.map key) := by
  induction items using List.reverseRecOn with
  | nil => exact .refl _
  | append_singleton items item ih =>
    have zipped : (items ++ [item]).zipIdx = items.zipIdx ++ [(item,items.length)] := by
      rw [List.zipIdx_append,Nat.zero_add]
      rfl
    cases keep : (examine items.length item).2 with
    | true =>
      have left : survivors examine (items ++ [item]) = survivors examine items ++ [(examine items.length item).1] := by
        rw [survivors,zipped,List.filterMap_append]
        simp [survivors,keep]
      have right : casualties examine (items ++ [item]) = casualties examine items := by
        rw [casualties,zipped,List.filterMap_append]
        simp [casualties,keep]
      rw [left,right,List.map_append,List.map_append,List.map_singleton,List.map_singleton,keeps,List.append_assoc]
      refine List.Perm.trans (List.Perm.append_left _ List.perm_append_comm) ?_
      rw [← List.append_assoc]
      exact ih.append_right _
    | false =>
      have left : survivors examine (items ++ [item]) = survivors examine items := by
        rw [survivors,zipped,List.filterMap_append]
        simp [survivors,keep]
      have right : casualties examine (items ++ [item]) = casualties examine items ++ [item] := by
        rw [casualties,zipped,List.filterMap_append]
        simp [casualties,keep]
      rw [left,right,List.map_append,List.map_append,← List.append_assoc]
      exact ih.append_right _

end Backwards

section Forwards
variable (due : α → Bool) (answers : Nat → Bool)

structure Scanned (α : Type) where
  kept : List α
  tried : List (α × Bool)

-- From an index on, without advancing when an element is removed. `answers` are
-- the outcomes of the tries, in order.
def scan (items : List α) (index tries : Nat) : Scanned α :=
  if inside : index < items.length then
    if due items[index] = false then scan items (index + 1) tries
    else if answers tries then
      let later := scan items (index + 1) (tries + 1)
      ⟨later.kept,(items[index],true) :: later.tried⟩
    else
      let later := scan (removeAt items index) index (tries + 1)
      ⟨later.kept,(items[index],false) :: later.tried⟩
  else ⟨items,[]⟩
termination_by items.length - index
decreasing_by
  · omega
  · omega
  · have shorter := removeAt_length inside
    omega

-- Every element due is tried once, and those that fail are gone.
structure Served (items : List α) (scanned : Scanned α) : Prop where
  tried : (scanned.tried.map Prod.fst).Perm (items.filter due)
  kept : (scanned.kept ++ (scanned.tried.filter fun entry => !entry.2).map Prod.fst).Perm items

theorem scan_exact (front rest : List α) (tries : Nat) :
    ((scan due answers (front ++ rest) front.length tries).tried.map Prod.fst).Perm (rest.filter due) ∧
      ((scan due answers (front ++ rest) front.length tries).kept ++
        ((scan due answers (front ++ rest) front.length tries).tried.filter fun entry => !entry.2).map Prod.fst).Perm
          (front ++ rest) := by
  induction size : rest.length using Nat.strong_induction_on generalizing front rest tries with
  | _ size' ih =>
    cases rest with
    | nil =>
      rw [scan,dif_neg (by simp)]
      exact ⟨.refl _,by simp⟩
    | cons item rest =>
      have inside : front.length < (front ++ item :: rest).length := by
        rw [List.length_append,List.length_cons]
        omega
      have here : (front ++ item :: rest)[front.length] = item := by
        rw [List.getElem_append_right (le_refl _)]
        simp
      have shorter : rest.length < size' := by
        rw [← size,List.length_cons]
        omega
      -- Going on behind an element that stays.
      have further : ∀ tries, scan due answers (front ++ item :: rest) (front.length + 1) tries =
          scan due answers (front ++ [item] ++ rest) (front ++ [item]).length tries := by
        intro tries
        rw [List.append_assoc,List.length_append]
        rfl
      have joined : front ++ item :: rest = front ++ [item] ++ rest := by rw [List.append_assoc]; rfl
      rw [scan,dif_pos inside,here]
      cases waits : due item with
      | false =>
        obtain ⟨tried,kept⟩ := ih rest.length shorter (front ++ [item]) rest tries rfl
        rw [if_pos rfl,further,List.filter_cons_of_neg (by simp [waits]),joined]
        exact ⟨tried,kept⟩
      | true =>
        rw [if_neg (by decide),List.filter_cons_of_pos waits]
        cases answer : answers tries with
        | true =>
          obtain ⟨tried,kept⟩ := ih rest.length shorter (front ++ [item]) rest (tries + 1) rfl
          rw [if_pos rfl,further]
          dsimp only
          refine ⟨tried.cons _,?_⟩
          rw [List.filter_cons_of_neg (by simp),joined]
          exact kept
        | false =>
          obtain ⟨moved,removed,same⟩ := removeAt_split front rest item
          obtain ⟨tried,kept⟩ := ih rest.length shorter front moved (tries + 1) same.length_eq
          rw [if_neg (by decide),removed]
          dsimp only
          refine ⟨(tried.trans (same.filter due)).cons _,?_⟩
          rw [List.filter_cons_of_pos (by simp),List.map_cons]
          refine List.perm_middle.trans ?_
          refine List.Perm.trans ?_ List.perm_middle.symm
          exact ((kept.trans (same.append_left _)).cons _)

theorem scan_served (items : List α) : Served due items (scan due answers items 0 0) := by
  obtain ⟨tried,kept⟩ := scan_exact due answers [] items 0
  exact ⟨tried,kept⟩

end Forwards
end Hypringo.SwapRemove

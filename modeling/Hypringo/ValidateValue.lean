import Hypringo.ConfigLoad
import Hypringo.Lua.Raise

namespace Hypringo.ValidateValue
open Hypringo.Lua ConfigLoad
open Relation (ReflTransGen TransGen)

section Graph
variable (w : World)

def Contains (v child : Value) : Prop := ∃ a, v = .table a ∧ ∃ entry ∈ (w.table a).entries, child = entry.2

def Reaches : Value → Value → Prop := ReflTransGen (Contains w)

def keyed : Value → Prop
  | .string _ | .integer _ | .float _ => True
  | _ => False

-- What one value has to be, apart from what it contains.
def Sound : Value → Prop
  | .table a => w.metatable (.table a) = none ∧ ∀ entry ∈ (w.table a).entries, keyed entry.1
  | .other _ _ => False
  | _ => True

structure Serialisable (v : Value) : Prop where
  sound : ∀ u, Reaches w v u → Sound w u
  acyclic : ∀ a, Reaches w v (.table a) → ¬TransGen (Contains w) (.table a) (.table a)

-- The same by construction: a table comes after everything it contains.
inductive Data : Value → Prop where
  | made (v : Value) (sound : Sound w v) (below : ∀ child, Contains w v child → Data child) : Data v

end Graph

section Finished
variable {w : World} {v u : Value}

theorem Serialisable.child (good : Serialisable w v) (edge : Contains w v u) : Serialisable w u :=
  ⟨fun x reached => good.sound x (.head edge reached),fun a reached => good.acyclic a (.head edge reached)⟩

theorem Data.reaches (data : Data w v) (reached : Reaches w v u) : Data w u := by
  induction reached with
  | refl => exact data
  | tail _ edge ih =>
    cases ih with
    | made _ _ below => exact below _ edge

theorem Data.sound (data : Data w v) : Sound w v := by
  cases data with
  | made _ sound _ => exact sound

-- A cycle would pass through a child that is on it too.
theorem Data.acyclic (data : Data w v) : ¬TransGen (Contains w) v v := by
  induction data with
  | made v _ _ ih =>
    intro cycle
    obtain ⟨child,edge,back⟩ := TransGen.head'_iff.mp cycle
    exact ih child edge (TransGen.tail' back edge)

theorem Data.serialisable (data : Data w v) : Serialisable w v :=
  ⟨fun _ reached => (data.reaches reached).sound,fun _ reached => (data.reaches reached).acyclic⟩

theorem validateEntry_ok {validate : Value → Bytes → List Address → Except Bytes (List Address)} {path : Bytes}
    {validated found : List Address} {entry : Value × Value} (done : validateEntry validate path validated entry = .ok found) :
    keyed entry.1 ∧ validate entry.2 (path ++ text "[" ++ keyText entry.1 ++ text "]") validated = .ok found := by
  obtain ⟨key,child⟩ := entry
  cases key with
  | string | integer | float => exact ⟨trivial,done⟩
  | _ => cases done

-- Tables are registered once all they contain was checked, so a registered
-- table vouches for itself wherever it is met again.
theorem validateValue_data (depth : Nat) {path : Bytes} {visiting validated found : List Address}
    (known : ∀ a ∈ validated, Data w (.table a)) (done : validateValue w depth v path visiting validated = .ok found) :
    Data w v ∧ ∀ a ∈ found, Data w (.table a) := by
  induction depth generalizing v path visiting validated found with
  | zero => cases done
  | succ depth ih =>
    have scalar : v.scalar = true → Sound w v → Data w v := by
      intro leaf sound
      refine .made v sound ?_
      rintro child ⟨a,rfl,_⟩
      cases leaf
    cases v with
    | other => cases done
    | table a =>
      simp only [validateValue] at done
      split at done
      · cases done
      rename_i plain
      split at done
      · cases done
      split at done
      · rename_i registered
        cases done
        exact ⟨known a registered,known⟩
      · have entries : ∀ (entries : List (Value × Value)) (validated found : List Address),
            (∀ a ∈ validated, Data w (.table a)) →
            entries.foldlM (validateEntry (fun child path validated =>
              validateValue w depth child path (a :: visiting) validated) path) validated = .ok found →
            (∀ entry ∈ entries, keyed entry.1 ∧ Data w entry.2) ∧ ∀ a ∈ found, Data w (.table a) := by
          intro entries
          induction entries with
          | nil =>
            intro validated found known done
            cases done
            exact ⟨nofun,known⟩
          | cons entry rest next =>
            intro validated found known done
            rw [List.foldlM_cons] at done
            obtain ⟨middle,first,later⟩ := Raise.bind_ok.mp done
            obtain ⟨key,checked⟩ := validateEntry_ok first
            obtain ⟨child,more⟩ := ih known checked
            obtain ⟨others,all⟩ := next middle found more later
            refine ⟨?_,all⟩
            intro other member
            rcases List.mem_cons.mp member with rfl | later
            · exact ⟨key,child⟩
            · exact others other later
        cases folded : (w.table a).entries.foldlM (validateEntry (fun child path validated =>
            validateValue w depth child path (a :: visiting) validated) path) validated with
        | error message =>
          rw [folded] at done
          cases done
        | ok all =>
          rw [folded] at done
          cases done
          obtain ⟨each,rest⟩ := entries _ _ _ known folded
          have data : Data w (.table a) := by
            refine .made _ ⟨not_not.mp plain,fun entry member => (each entry member).1⟩ ?_
            rintro child ⟨_,same,entry,member,rfl⟩
            cases same
            exact (each entry member).2
          refine ⟨data,?_⟩
          intro b member
          rcases List.mem_cons.mp member with rfl | registered
          · exact data
          · exact rest b registered
    | _ =>
      cases done
      exact ⟨scalar rfl trivial,known⟩

-- The tables being visited, each above the next.
structure Trail (w : World) (visiting : List Address) (v : Value) : Prop where
  nodup : visiting.Nodup
  allocated : ∀ a ∈ visiting, a < w.size
  above : ∀ a ∈ visiting, TransGen (Contains w) (.table a) v

theorem Trail.nil : Trail w [] v := ⟨.nil,nofun,nofun⟩

theorem Trail.child {visiting : List Address} {a : Address} (trail : Trail w visiting (.table a)) (allocated : a < w.size)
    (fresh : a ∉ visiting) {entry : Value × Value} (member : entry ∈ (w.table a).entries) :
    Trail w (a :: visiting) entry.2 := by
  have edge : Contains w (.table a) entry.2 := ⟨a,rfl,entry,member,rfl⟩
  refine ⟨List.nodup_cons.mpr ⟨fresh,trail.nodup⟩,?_,?_⟩
  · intro b listed
    rcases List.mem_cons.mp listed with rfl | older
    · exact allocated
    · exact trail.allocated b older
  · intro b listed
    rcases List.mem_cons.mp listed with rfl | older
    · exact .single edge
    · exact (trail.above b older).tail edge

theorem Trail.length_le {visiting : List Address} (trail : Trail w visiting v) : visiting.length ≤ w.size := by
  have subset : visiting ⊆ List.range w.size := fun a member => List.mem_range.mpr (trail.allocated a member)
  simpa using (trail.nodup.subperm subset).length_le

theorem validateValue_serialisable {path : Bytes} {depth : Nat} {found : List Address}
    (done : validateValue w depth v path [] [] = .ok found) : Serialisable w v :=
  (validateValue_data depth (fun _ never => (List.not_mem_nil never).elim) done).1.serialisable

end Finished

-- One table held under two names.
def shared : World := .listed [[(.string (text "left"),.table 1),(.string (text "right"),.table 1)],[]]

end Hypringo.ValidateValue

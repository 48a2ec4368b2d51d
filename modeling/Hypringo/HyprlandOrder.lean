import Hypringo.Hyprland
import Hypringo.Interleaving

namespace Hypringo.HyprlandOrder
open Hypringo.Lua Json Hyprland

-- A strict weak order, by what sorting needs of it.
structure Weak (less : α → α → Bool) : Prop where
  asymmetric : ∀ a b, less a b = true → less b a = false
  transitive : ∀ a b c, less b a = false → less c b = false → less c a = false

theorem Weak.strict {less : α → α → Bool} (weak : Weak less) : IsStrictWeakOrder α (fun a b => less a b = true) where
  irrefl a below := by
    have above := weak.asymmetric a a below
    rw [below] at above
    cases above
  trans a b c first second := by
    by_contra not
    have back := weak.transitive b c a (weak.asymmetric b c second) (Bool.eq_false_iff.mpr not)
    rw [first] at back
    cases back
  incomp_trans a b c first second := by
    simp only [Bool.not_eq_true] at first second ⊢
    exact ⟨weak.transitive c b a second.1 first.1,weak.transitive a b c first.2 second.2⟩

theorem weak_names (name : α → Bytes) : Weak (fun a b => decide (name a < name b)) := by
  refine ⟨?_,?_⟩
  · intro a b below
    simp only [decide_eq_true_eq,decide_eq_false_iff_not] at below ⊢
    exact List.lt_asymm below
  · intro a b c first second
    simp only [decide_eq_false_iff_not] at first second ⊢
    exact fun below => (List.le_trans first second) below

-- One key decides first, the rest only where it is equal.
theorem weak_first (key : α → Int) {rest : α → α → Bool} (weak : Weak rest) :
    Weak (fun a b => if decide (key a ≠ key b) then decide (key a < key b) else rest a b) := by
  refine ⟨?_,?_⟩
  · intro a b below
    by_cases same : key a = key b
    · simp only [same,ne_eq,not_true_eq_false,decide_false,Bool.false_eq_true,if_false] at below ⊢
      exact weak.asymmetric a b below
    · simp only [ne_eq,same,not_false_eq_true,decide_true,if_true,decide_eq_true_eq,Ne.symm same,
        decide_eq_false_iff_not] at below ⊢
      omega
  · intro a b c first second
    by_cases left : key a = key b
    · by_cases right : key b = key c
      · simp only [left,right,ne_eq,not_true_eq_false,decide_false,Bool.false_eq_true,if_false] at first second ⊢
        exact weak.transitive a b c first second
      · have apart : ¬key c = key b := fun same => right same.symm
        simp only [left,ne_eq,apart,not_false_eq_true,decide_true,if_true] at second ⊢
        exact second
    · have apart : ¬key b = key a := fun same => left same.symm
      by_cases right : key b = key c
      · simp only [← right,ne_eq,apart,not_false_eq_true,decide_true,if_true] at first ⊢
        exact first
      · have other : ¬key c = key b := fun same => right same.symm
        simp only [ne_eq,apart,other,not_false_eq_true,decide_true,if_true,decide_eq_false_iff_not] at first second
        have far : ¬key c = key a := by omega
        simp only [ne_eq,far,not_false_eq_true,decide_true,if_true,decide_eq_false_iff_not]
        omega

theorem compareMonitors_weak : Weak compareMonitors :=
  weak_first (fun monitor : Monitor => monitor.x.magnitude)
    (weak_first (fun monitor : Monitor => monitor.y.magnitude) (weak_names Monitor.name))

theorem compareWorkspaces_weak : Weak compareWorkspaces :=
  weak_first (fun workspace : Workspace => workspace.id.magnitude) (weak_names Workspace.name)

-- What the comparisons look at. Numbers are the same when == says so, whichever
-- their subtypes.
def monitorKey (monitor : Monitor) : Int × Int × Bytes := (monitor.x.magnitude,monitor.y.magnitude,monitor.name)

def workspaceKey (workspace : Workspace) : Int × Bytes := (workspace.id.magnitude,workspace.name)

theorem monitors_apart {left right : Monitor} (forward : compareMonitors left right = false)
    (backward : compareMonitors right left = false) : monitorKey left = monitorKey right := by
  simp only [compareMonitors,Number.differs,Number.less,monitorKey] at forward backward ⊢
  by_cases x : left.x.magnitude = right.x.magnitude
  · by_cases y : left.y.magnitude = right.y.magnitude
    · simp only [x,y,ne_eq,not_true_eq_false,decide_false,Bool.false_eq_true,if_false,decide_eq_false_iff_not]
        at forward backward
      rw [x,y,List.le_antisymm backward forward]
    · have other : ¬right.y.magnitude = left.y.magnitude := fun same => y same.symm
      simp only [x,y,other,ne_eq,not_true_eq_false,not_false_eq_true,decide_false,decide_true,Bool.false_eq_true,if_false,
        if_true,decide_eq_false_iff_not] at forward backward
      omega
  · have other : ¬right.x.magnitude = left.x.magnitude := fun same => x same.symm
    simp only [x,other,ne_eq,not_false_eq_true,decide_true,if_true,decide_eq_false_iff_not] at forward backward
    omega

theorem workspaces_apart {left right : Workspace} (forward : compareWorkspaces left right = false)
    (backward : compareWorkspaces right left = false) : workspaceKey left = workspaceKey right := by
  simp only [compareWorkspaces,Number.differs,Number.less,workspaceKey] at forward backward ⊢
  by_cases id : left.id.magnitude = right.id.magnitude
  · simp only [id,ne_eq,not_true_eq_false,decide_false,Bool.false_eq_true,if_false,decide_eq_false_iff_not]
      at forward backward
    rw [id,List.le_antisymm backward forward]
  · have other : ¬right.id.magnitude = left.id.magnitude := fun same => id same.symm
    simp only [id,other,ne_eq,not_false_eq_true,decide_true,if_true,decide_eq_false_iff_not] at forward backward
    omega

section Sorting
variable {less : α → α → Bool} {key : α → κ} (weak : Weak less)
  (apart : ∀ {a b}, less a b = false → less b a = false → key a = key b)
include weak apart

-- With distinct keys the sorted list is strictly ascending, so there is but one.
theorem sorted_ascends (sorting : Sorting) {items : List α} (distinct : items.Pairwise fun a b => key a ≠ key b) :
    (sorting.sort less items).Pairwise fun a b => less a b = true := by
  have perm := sorting.permutes less items
  have separate := (perm.pairwise_iff (R := fun a b => key a ≠ key b) (fun different => different.symm)).mpr distinct
  refine (List.pairwise_and_iff.mpr ⟨sorting.sorted less items weak.asymmetric weak.transitive,separate⟩).imp ?_
  rintro a b ⟨ordered,different⟩
  by_contra not
  exact different (apart (Bool.eq_false_iff.mpr not) ordered)

theorem sort_unique (sorting other : Sorting) {items shuffled : List α} (perm : items.Perm shuffled)
    (distinct : items.Pairwise fun a b => key a ≠ key b) : sorting.sort less items = other.sort less shuffled := by
  have again := (perm.pairwise_iff (R := fun a b => key a ≠ key b) (fun different => different.symm)).mp distinct
  have one := sorted_ascends weak apart sorting distinct
  have two := sorted_ascends weak apart other again
  refine List.Perm.eq_of_pairwise ?_ one two
    ((sorting.permutes less items).trans (perm.trans (other.permutes less shuffled).symm))
  intro a b _ _ forward backward
  rw [weak.asymmetric a b forward] at backward
  cases backward

end Sorting

theorem normalised_perm {items shuffled : List Tree} (perm : items.Perm shuffled) (normalize : Tree → α) :
    ((items.filter isTable).map normalize).Perm ((shuffled.filter isTable).map normalize) :=
  (perm.filter isTable).map normalize

-- The first focused monitor, or nothing when none is.
theorem activeWorkspace_first (monitors : List Monitor) :
    (∃ before monitor after, monitors = before ++ monitor :: after ∧ monitor.focused = true ∧
      (∀ earlier ∈ before, earlier.focused = false) ∧
      activeWorkspace monitors = ⟨monitor.activeWorkspace.id,monitor.name,monitor.activeWorkspace.name⟩) ∨
    (∀ monitor ∈ monitors, monitor.focused = false) ∧ activeWorkspace monitors = .cleared := by
  unfold activeWorkspace
  cases found : monitors.find? Monitor.focused with
  | none =>
    refine .inr ⟨?_,rfl⟩
    intro monitor member
    simpa using List.find?_eq_none.mp found monitor member
  | some monitor =>
    obtain ⟨focused,before,after,split,earlier⟩ := List.find?_eq_some_iff_append.mp found
    exact .inl ⟨before,monitor,after,split,focused,fun other member => by simpa using earlier other member,rfl⟩

def normalisedMonitors (monitors : List Tree) : List Monitor := (monitors.filter isTable).map normalizeMonitor

def normalisedWorkspaces (workspaces : List Tree) : List Workspace := (workspaces.filter isTable).map normalizeWorkspace

-- What a snapshot holds of an answer: its tables, normalised, in ascending order.
structure Ordered (monitors workspaces : List Tree) (patch : Patch) : Prop where
  monitors : patch.monitors.Perm (normalisedMonitors monitors)
  workspaces : patch.workspaces.Perm (normalisedWorkspaces workspaces)
  monitorsAscend : patch.monitors.Pairwise fun left right => compareMonitors left right = true
  workspacesAscend : patch.workspaces.Pairwise fun left right => compareWorkspaces left right = true
  active : (∃ before monitor after, patch.monitors = before ++ monitor :: after ∧ monitor.focused = true ∧
      (∀ earlier ∈ before, earlier.focused = false) ∧
      patch.activeWorkspace = ⟨monitor.activeWorkspace.id,monitor.name,monitor.activeWorkspace.name⟩) ∨
    (∀ monitor ∈ patch.monitors, monitor.focused = false) ∧ patch.activeWorkspace = .cleared

theorem snapshot_ordered (sorting : Sorting) {monitors workspaces : List Tree} (window : Tree)
    (distinctMonitors : (normalisedMonitors monitors).Pairwise fun a b => monitorKey a ≠ monitorKey b)
    (distinctWorkspaces : (normalisedWorkspaces workspaces).Pairwise fun a b => workspaceKey a ≠ workspaceKey b) :
    Ordered monitors workspaces (snapshot sorting (.array monitors) (.array workspaces) window) where
  monitors := sorting.permutes compareMonitors _
  workspaces := sorting.permutes compareWorkspaces _
  monitorsAscend := sorted_ascends compareMonitors_weak monitors_apart sorting distinctMonitors
  workspacesAscend := sorted_ascends compareWorkspaces_weak workspaces_apart sorting distinctWorkspaces
  active := activeWorkspace_first _

theorem snapshot_shuffled (sorting other : Sorting) {monitors workspaces monitors' workspaces' : List Tree} (window : Tree)
    (monitorsPerm : monitors.Perm monitors') (workspacesPerm : workspaces.Perm workspaces')
    (distinctMonitors : (normalisedMonitors monitors).Pairwise fun a b => monitorKey a ≠ monitorKey b)
    (distinctWorkspaces : (normalisedWorkspaces workspaces).Pairwise fun a b => workspaceKey a ≠ workspaceKey b) :
    snapshot sorting (.array monitors) (.array workspaces) window =
      snapshot other (.array monitors') (.array workspaces') window := by
  have first : sortedArray sorting (.array monitors) normalizeMonitor compareMonitors =
      sortedArray other (.array monitors') normalizeMonitor compareMonitors :=
    sort_unique compareMonitors_weak monitors_apart sorting other (normalised_perm monitorsPerm normalizeMonitor)
      distinctMonitors
  have second : sortedArray sorting (.array workspaces) normalizeWorkspace compareWorkspaces =
      sortedArray other (.array workspaces') normalizeWorkspace compareWorkspaces :=
    sort_unique compareWorkspaces_weak workspaces_apart sorting other (normalised_perm workspacesPerm normalizeWorkspace)
      distinctWorkspaces
  simp only [snapshot,first,second]

-- Two answers that list the same in different orders, sorted by whatever
-- table.sort does with them, give the same table; reported after one another the
-- second makes no revision.
theorem snapshot_reordered (sorting other : Sorting) {monitors workspaces monitors' workspaces' : List Tree} (window : Tree)
    (monitorsPerm : monitors.Perm monitors') (workspacesPerm : workspaces.Perm workspaces')
    (distinctMonitors : (normalisedMonitors monitors).Pairwise fun a b => monitorKey a ≠ monitorKey b)
    (distinctWorkspaces : (normalisedWorkspaces workspaces).Pairwise fun a b => workspaceKey a ≠ workspaceKey b) :
    IsStrictWeakOrder Monitor (fun left right => compareMonitors left right = true) ∧
      IsStrictWeakOrder Workspace (fun left right => compareWorkspaces left right = true) ∧
      snapshot sorting (.array monitors) (.array workspaces) window =
        snapshot other (.array monitors') (.array workspaces') window ∧
      Ordered monitors workspaces (snapshot sorting (.array monitors) (.array workspaces) window) ∧
      ∀ (store later : State.Store) (h g : Heap) (p q : Address) (result : Bool × Int), StateDelivery.Orderly store →
        StateDelivery.Packed store.heap h p (snapshot sorting (.array monitors) (.array workspaces) window).fields →
        State.merge ⟨store.snapshot,h⟩ State.Domain.hyprland.name (.table p) = (.ok result,later) →
        StateDelivery.Packed later.heap g q (snapshot other (.array monitors') (.array workspaces') window).fields →
        ∃ again, State.merge ⟨later.snapshot,g⟩ State.Domain.hyprland.name (.table q) =
          (.ok (false,later.snapshot.revision),again) := by
  have same := snapshot_shuffled sorting other window monitorsPerm workspacesPerm distinctMonitors distinctWorkspaces
  refine ⟨compareMonitors_weak.strict,compareWorkspaces_weak.strict,same,
    snapshot_ordered sorting window distinctMonitors distinctWorkspaces,?_⟩
  intro store later h g p q result orderly first merged second
  exact Interleaving.merge_again orderly first merged (same ▸ second)

def primary : Tree := .object [(text "x",.integer 0),(text "name",.string (text "DP-1")),(text "focused",.boolean true)]

-- 2560.5 as a binary64.
def secondary : Tree := .object [(text "x",.float ⟨0x40A4010000000000⟩),(text "name",.integer 7)]

def monitorAnswer : List Tree := [.null,secondary,.boolean true,primary]

def workspaceAnswer : List Tree := [.object [(text "id",.integer 2)],.array [],.string (text "none")]

theorem snapshot_reordered_answers :
    IsStrictWeakOrder Monitor (fun left right => compareMonitors left right = true) ∧
      IsStrictWeakOrder Workspace (fun left right => compareWorkspaces left right = true) ∧
      snapshot mergesort (.array monitorAnswer) (.array workspaceAnswer) .null =
        snapshot mergesort (.array monitorAnswer.reverse) (.array workspaceAnswer.reverse) .null ∧
      Ordered monitorAnswer workspaceAnswer (snapshot mergesort (.array monitorAnswer) (.array workspaceAnswer) .null) ∧
      ∀ (store later : State.Store) (h g : Heap) (p q : Address) (result : Bool × Int), StateDelivery.Orderly store →
        StateDelivery.Packed store.heap h p (snapshot mergesort (.array monitorAnswer) (.array workspaceAnswer) .null).fields →
        State.merge ⟨store.snapshot,h⟩ State.Domain.hyprland.name (.table p) = (.ok result,later) →
        StateDelivery.Packed later.heap g q
          (snapshot mergesort (.array monitorAnswer.reverse) (.array workspaceAnswer.reverse) .null).fields →
        ∃ again, State.merge ⟨later.snapshot,g⟩ State.Domain.hyprland.name (.table q) =
          (.ok (false,later.snapshot.revision),again) :=
  snapshot_reordered mergesort mergesort .null (List.reverse_perm _).symm (List.reverse_perm _).symm (by decide +kernel)
    (by decide +kernel)

end Hypringo.HyprlandOrder

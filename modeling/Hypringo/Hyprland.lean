import Hypringo.Remote

namespace Hypringo.Hyprland
open Hypringo.Lua Json Remote

inductive Number where
  | integer (i : Int64)
  | float (f : Float64)
  deriving DecidableEq, Repr

namespace Number

def document : Number → Doc
  | .integer i => .sint i.toInt
  | .float f => .real f

-- JSON holds no NaN, so two numbers compare by their multiples of 2^-1074.
def magnitude : Number → Int
  | .integer i => i.toInt * 2^1074
  | .float f => f.scaled

def less (left right : Number) : Bool := decide (left.magnitude < right.magnitude)

def differs (left right : Number) : Bool := decide (left.magnitude ≠ right.magnitude)

end Number

-- table.sort: the items in an order the comparison allows. It is not stable, so
-- nothing is said of items it does not tell apart.
structure Sorting where
  sort : {α : Type} → (α → α → Bool) → List α → List α
  permutes : ∀ {α : Type} (less : α → α → Bool) (items : List α), (sort less items).Perm items
  sorted : ∀ {α : Type} (less : α → α → Bool) (items : List α), (∀ a b, less a b = true → less b a = false) →
    (∀ a b c, less b a = false → less c b = false → less c a = false) →
    (sort less items).Pairwise (fun left right => less right left = false)

-- One table.sort that could be.
def mergesort : Sorting where
  sort less items := items.mergeSort (fun left right => !less right left)
  permutes _ items := items.mergeSort_perm _
  sorted less items asymmetric transitive := by
    have transits : ∀ a b c, (!less b a) = true → (!less c b) = true → (!less c a) = true := by
      intro a b c first second
      simp only [Bool.not_eq_true'] at first second ⊢
      exact transitive a b c first second
    have total : ∀ a b, (!less b a || !less a b) = true := by
      intro a b
      cases forward : less b a with
      | false => rfl
      | true => simp [asymmetric b a forward]
    refine (List.pairwise_mergeSort transits total items).imp ?_
    intro left right below
    simpa using below

def numberOr (value : Option Tree) (fallback : Number) : Number :=
  match value with
  | some (.integer i) => .integer i
  | some (.float f) => .float f
  | _ => fallback

def stringOr (value : Option Tree) (fallback : Bytes) : Bytes :=
  match value with
  | some (.string s) => s
  | _ => fallback

def booleanOr (value : Option Tree) (fallback : Bool) : Bool :=
  match value with
  | some (.boolean b) => b
  | _ => fallback

-- A member of table_or_empty(value). A list has no member by a name.
def member (value : Option Tree) (name : String) : Option Tree :=
  match value with
  | some (.object members) => Tree.field members (text name)
  | _ => none

structure WorkspaceReference where
  id : Number
  name : Bytes
  deriving DecidableEq, Repr

def normalizeWorkspaceReference (workspace : Option Tree) : WorkspaceReference where
  id := numberOr (member workspace "id") (.integer 0)
  name := stringOr (member workspace "name") []

def WorkspaceReference.document (workspace : WorkspaceReference) : Doc :=
  .object [(text "id",workspace.id.document),(text "name",.string workspace.name)]

structure Monitor where
  activeWorkspace : WorkspaceReference
  description : Bytes
  dpms : Bool
  focused : Bool
  height : Number
  id : Number
  name : Bytes
  refreshRate : Number
  scale : Number
  transform : Number
  width : Number
  x : Number
  y : Number
  deriving DecidableEq, Repr

def normalizeMonitor (monitor : Tree) : Monitor where
  activeWorkspace := normalizeWorkspaceReference (member monitor "activeWorkspace")
  description := stringOr (member monitor "description") []
  dpms := booleanOr (member monitor "dpmsStatus") true
  focused := booleanOr (member monitor "focused") false
  height := numberOr (member monitor "height") (.integer 0)
  id := numberOr (member monitor "id") (.integer (-1))
  name := stringOr (member monitor "name") []
  refreshRate := numberOr (member monitor "refreshRate") (.integer 0)
  scale := numberOr (member monitor "scale") (.integer 1)
  transform := numberOr (member monitor "transform") (.integer 0)
  width := numberOr (member monitor "width") (.integer 0)
  x := numberOr (member monitor "x") (.integer 0)
  y := numberOr (member monitor "y") (.integer 0)

def Monitor.document (monitor : Monitor) : Doc :=
  .object
    [(text "active_workspace",monitor.activeWorkspace.document),
     (text "description",.string monitor.description),
     (text "dpms",.boolean monitor.dpms),
     (text "focused",.boolean monitor.focused),
     (text "height",monitor.height.document),
     (text "id",monitor.id.document),
     (text "name",.string monitor.name),
     (text "refresh_rate",monitor.refreshRate.document),
     (text "scale",monitor.scale.document),
     (text "transform",monitor.transform.document),
     (text "width",monitor.width.document),
     (text "x",monitor.x.document),
     (text "y",monitor.y.document)]

structure Workspace where
  fullscreen : Bool
  id : Number
  lastWindow : Bytes
  lastWindowTitle : Bytes
  monitor : Bytes
  monitorId : Number
  name : Bytes
  persistent : Bool
  windows : Number
  deriving DecidableEq, Repr

def normalizeWorkspace (workspace : Tree) : Workspace where
  fullscreen := booleanOr (member workspace "hasfullscreen") false
  id := numberOr (member workspace "id") (.integer 0)
  lastWindow := stringOr (member workspace "lastwindow") []
  lastWindowTitle := stringOr (member workspace "lastwindowtitle") []
  monitor := stringOr (member workspace "monitor") []
  monitorId := numberOr (member workspace "monitorID") (.integer (-1))
  name := stringOr (member workspace "name") []
  persistent := booleanOr (member workspace "ispersistent") false
  windows := numberOr (member workspace "windows") (.integer 0)

def Workspace.document (workspace : Workspace) : Doc :=
  .object
    [(text "fullscreen",.boolean workspace.fullscreen),
     (text "id",workspace.id.document),
     (text "last_window",.string workspace.lastWindow),
     (text "last_window_title",.string workspace.lastWindowTitle),
     (text "monitor",.string workspace.monitor),
     (text "monitor_id",workspace.monitorId.document),
     (text "name",.string workspace.name),
     (text "persistent",.boolean workspace.persistent),
     (text "windows",workspace.windows.document)]

structure Window where
  address : Bytes
  windowClass : Bytes
  floating : Bool
  fullscreen : Number
  initialClass : Bytes
  initialTitle : Bytes
  pid : Number
  title : Bytes
  workspace : WorkspaceReference
  xwayland : Bool
  deriving DecidableEq, Repr

def normalizeActiveWindow (window : Option Tree) : Window where
  address := stringOr (member window "address") []
  windowClass := stringOr (member window "class") []
  floating := booleanOr (member window "floating") false
  fullscreen := numberOr (member window "fullscreen") (.integer 0)
  initialClass := stringOr (member window "initialClass") []
  initialTitle := stringOr (member window "initialTitle") []
  pid := numberOr (member window "pid") (.integer 0)
  title := stringOr (member window "title") []
  workspace := normalizeWorkspaceReference (member window "workspace")
  xwayland := booleanOr (member window "xwayland") false

def Window.document (window : Window) : Doc :=
  .object
    [(text "address",.string window.address),
     (text "class",.string window.windowClass),
     (text "floating",.boolean window.floating),
     (text "fullscreen",window.fullscreen.document),
     (text "initial_class",.string window.initialClass),
     (text "initial_title",.string window.initialTitle),
     (text "pid",window.pid.document),
     (text "title",.string window.title),
     (text "workspace",window.workspace.document),
     (text "xwayland",.boolean window.xwayland)]

def isTable : Tree → Bool
  | .array _ | .object _ => true
  | _ => false

-- ipairs sees the items of a list and nothing of an object; json.null inside a
-- list does not end it.
def items : Tree → List Tree
  | .array items => items
  | _ => []

def sortedArray (sorting : Sorting) (source : Tree) (normalize : Tree → α) (compare : α → α → Bool) : List α :=
  sorting.sort compare (((items source).filter isTable).map normalize)

def compareMonitors (left right : Monitor) : Bool :=
  if left.x.differs right.x then left.x.less right.x
  else if left.y.differs right.y then left.y.less right.y
  else decide (left.name < right.name)

def compareWorkspaces (left right : Workspace) : Bool :=
  if left.id.differs right.id then left.id.less right.id else decide (left.name < right.name)

structure ActiveWorkspace where
  id : Number
  monitor : Bytes
  name : Bytes
  deriving DecidableEq, Repr

def ActiveWorkspace.cleared : ActiveWorkspace := ⟨.integer 0,[],[]⟩

def ActiveWorkspace.document (workspace : ActiveWorkspace) : Doc :=
  .object
    [(text "id",workspace.id.document),(text "monitor",.string workspace.monitor),(text "name",.string workspace.name)]

def activeWorkspace (monitors : List Monitor) : ActiveWorkspace :=
  match monitors.find? Monitor.focused with
  | some monitor => ⟨monitor.activeWorkspace.id,monitor.name,monitor.activeWorkspace.name⟩
  | none => .cleared

-- The tables M.snapshot and M.unavailable return. Their capabilities are
-- always the one.
structure Patch where
  activeWindow : Window
  activeWorkspace : ActiveWorkspace
  available : Bool
  error : Bytes
  monitors : List Monitor
  workspaces : List Workspace
  deriving DecidableEq, Repr

def snapshot (sorting : Sorting) (monitors workspaces activeWindow : Tree) : Patch :=
  let normalized := sortedArray sorting monitors normalizeMonitor compareMonitors
  { activeWindow := normalizeActiveWindow activeWindow
    activeWorkspace := Hyprland.activeWorkspace normalized
    available := true
    error := []
    monitors := normalized
    workspaces := sortedArray sorting workspaces normalizeWorkspace compareWorkspaces }

def unavailable (message : Option Bytes) : Patch where
  activeWindow := normalizeActiveWindow (some (.object []))
  activeWorkspace := .cleared
  available := false
  error := message.getD []
  monitors := []
  workspaces := []

def Patch.fields (patch : Patch) : List (Bytes × Doc) :=
  [(text "active_window",patch.activeWindow.document),
   (text "active_workspace",patch.activeWorkspace.document),
   (text "available",.boolean patch.available),
   (text "capabilities",.object [(text "switch_workspace",.boolean true)]),
   (text "error",.string patch.error),
   (text "monitors",.array (patch.monitors.map Monitor.document)),
   (text "workspaces",.array (patch.workspaces.map Workspace.document))]

end Hypringo.Hyprland

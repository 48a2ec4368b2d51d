import Hypringo.SchemaStability

namespace Hypringo.Clearing
open Hypringo.Lua Hypringo.Configuration Json Document State StateMerge StateDelivery StateChange Runs Reports SchemaStability

-- The sources whose patches carry their whole domain.
def whole : Domain → Bool
  | .hyprland | .media | .system => true
  | _ => false

-- The domain is structurally equal to the patch: its keys, and under each of
-- them a value that equals the one sent.
structure Mirrors (store : Store) (domain : Domain) (fields : List (Bytes × Doc)) : Prop where
  keys : ∀ key, (store.snapshot.state domain).get key ≠ .nil ↔ ∃ field ∈ fields, key = .string field.1
  values : ∀ field ∈ fields, Shows store.heap ((store.snapshot.state domain).get (.string field.1)) field.2

def clearedWindow : Hyprland.Window :=
  ⟨[],[],false,.integer 0,[],[],.integer 0,[],⟨.integer 0,[]⟩,false⟩

def field (store : Store) (domain : Domain) (name : String) : Value := (store.snapshot.state domain).get (.string (text name))

def noCapabilities : Mpris.Capabilities := ⟨false,false,false,false,false⟩

-- Nothing that has gone is still shown.
structure Cleared (store : Store) : Prop where
  hyprland : field store .hyprland "available" = .boolean false →
    Shows store.heap (field store .hyprland "monitors") (.array []) ∧
    Shows store.heap (field store .hyprland "workspaces") (.array []) ∧
    Shows store.heap (field store .hyprland "active_window") clearedWindow.document ∧
    Shows store.heap (field store .hyprland "active_workspace") Hyprland.ActiveWorkspace.cleared.document
  media : field store .media "available" = .boolean false →
    field store .media "album" = .string [] ∧ field store .media "art" = .string [] ∧
    field store .media "artist" = .string [] ∧ field store .media "player" = .string [] ∧
    field store .media "title" = .string [] ∧ field store .media "status" = .string (text "stopped") ∧
    Shows store.heap (field store .media "capabilities") (Reports.capabilities noCapabilities)
  battery : ∀ b, field store .system "battery" = .table b →
    (store.heap.table b).get (.string (text "available")) = .boolean false →
    Shows store.heap (.table b) Devices.BatteryTable.cleared.document
  brightness : ∀ b, field store .system "brightness" = .table b →
    (store.heap.table b).get (.string (text "available")) = .boolean false →
    Shows store.heap (.table b) Devices.BrightnessTable.cleared.document

-- The same of the fields of a patch.
def Clears : Domain → List (Bytes × Doc) → Prop
  | .hyprland,fields =>
    ∃ available, (text "available",.boolean available) ∈ fields ∧
      (available = false →
        (text "monitors",.array []) ∈ fields ∧ (text "workspaces",.array []) ∈ fields ∧
        (text "active_window",clearedWindow.document) ∈ fields ∧
        (text "active_workspace",Hyprland.ActiveWorkspace.cleared.document) ∈ fields)
  | .media,fields =>
    ∃ media : Mpris.Media, (∃ connected, fields = mediaFields connected media) ∧
      (media.available = false → media = Mpris.pushUnavailable media.error)
  | .system,fields =>
    ∃ battery : Devices.BatteryTable, ∃ brightness : Devices.BrightnessTable,
      (text "battery",battery.document) ∈ fields ∧ (text "brightness",brightness.document) ∈ fields ∧
      (battery.available = false → battery = .cleared) ∧ (brightness.available = false → brightness = .cleared)
  | _,_ => True

theorem media_cleared (source : Mpris.Source) (listing : Mpris.Listing)
    (absent : (Mpris.snapshot source listing).2.available = false) :
    (Mpris.snapshot source listing).2 = Mpris.pushUnavailable (Mpris.snapshot source listing).2.error := by
  unfold Mpris.snapshot at absent ⊢
  split
  · rfl
  · rename_i bus
    rw [if_neg bus] at absent
    split
    · rfl
    · rfl
    · rename_i selected
      rw [selected] at absent
      cases absent

theorem system_clears {patch : Devices.Patch} (battery : patch.battery.available = false → patch.battery = .cleared)
    (brightness : patch.brightness.available = false → patch.brightness = .cleared) : Clears .system patch.fields :=
  ⟨patch.battery,patch.brightness,by simp [Devices.Patch.fields],by simp [Devices.Patch.fields],battery,brightness⟩

theorem hyprland_clears {patch : Hyprland.Patch} (cleared : patch.available = false → patch.monitors = [] ∧
    patch.workspaces = [] ∧ patch.activeWindow = clearedWindow ∧ patch.activeWorkspace = .cleared) :
    Clears .hyprland patch.fields := by
  refine ⟨patch.available,by simp [Hyprland.Patch.fields],?_⟩
  intro absent
  obtain ⟨monitors,workspaces,window,workspace⟩ := cleared absent
  refine ⟨?_,?_,?_,?_⟩
  · simp [Hyprland.Patch.fields,monitors]
  · simp [Hyprland.Patch.fields,workspaces]
  · simp [Hyprland.Patch.fields,window]
  · simp [Hyprland.Patch.fields,workspace]

theorem initial_clears (configPath : Bytes) (config : Config) (domain : Domain) :
    Clears domain (initialDocuments configPath config domain) := by
  cases domain with
  | hyprland =>
    refine ⟨false,by simp [initialDocuments],fun _ => ⟨by simp [initialDocuments],by simp [initialDocuments],?_,
      by simp [initialDocuments]⟩⟩
    exact List.mem_cons_self
  | media => exact ⟨Mpris.pushUnavailable [],⟨false,rfl⟩,fun _ => rfl⟩
  | system => exact system_clears (fun _ => rfl) (fun _ => rfl)
  | _ => trivial

theorem report_clears (environment : Environment) (report : Report) :
    Clears report.domain (report.fields environment) := by
  cases report with
  | hyprland monitors workspaces activeWindow => exact hyprland_clears (fun absent => by cases absent)
  | hyprlandLost message => exact hyprland_clears (fun _ => ⟨rfl,rfl,rfl,rfl⟩)
  | media source listing => exact ⟨_,⟨true,rfl⟩,media_cleared source listing⟩
  | mediaLost message => exact ⟨_,⟨false,rfl⟩,fun _ => rfl⟩
  | system scan => exact system_clears Devices.battery_cleared Devices.brightness_cleared
  | systemFailed message => exact system_clears (fun _ => rfl) (fun _ => rfl)
  | _ => trivial

theorem document_member {h : Heap} {room : Nat} {b : Address} {members : List (Bytes × Doc)}
    (found : document h room (.table b) = .ok (.object members)) {member : Bytes × Doc} (listed : member ∈ members) :
    ∃ room, document h room ((h.table b).get (.string member.1)) = .ok member.2 := by
  have proper : b ≠ h.null := by
    intro null
    rw [null,document_null] at found
    cases found
  cases room with
  | zero =>
    unfold document at found
    simp [proper] at found
  | succ room =>
    rw [document_table proper] at found
    cases encodeTable_written found with
    | object _ _ _ _ each => exact ⟨room,each member listed⟩

theorem document_finite {h : Heap} {room : Nat} {v : Value} {d : Doc} (found : document h room v = .ok d) :
    v.isFinite = true := by
  cases v with
  | table a => rfl
  | _ =>
    rw [document_scalar rfl] at found
    exact scalarDocument_finite found

-- A member of a shown object is shown.
theorem shows_member {h : Heap} (closed : h.Closed) {a : Address} {members : List (Bytes × Doc)}
    (seen : Shows h (.table a) (.object members)) {member : Bytes × Doc} (listed : member ∈ members) :
    Shows h ((h.table a).get (.string member.1)) member.2 := by
  obtain ⟨w,room,bound,same,found⟩ := seen.like
  have inside : ∀ {b}, b < h.size → ((h.table b).get (.string member.1)).Within h.size :=
    fun below => Table.get_within _ (closed.entries _ below)
  cases same with
  | equal equal =>
    rw [Value.table_rawEqual.mp equal] at found
    obtain ⟨room,value⟩ := document_member found listed
    exact .of_document (inside seen.inside) (document_finite value) value
  | @table _ b marks each =>
    obtain ⟨room,value⟩ := document_member found listed
    exact ⟨inside seen.inside,_,room,inside bound,each _,value⟩

theorem Mirrors.boolean {store : Store} {domain : Domain} {fields : List (Bytes × Doc)} (mirrors : Mirrors store domain fields)
    {name : String} {b : Bool} (listed : (text name,.boolean b) ∈ fields) : field store domain name = .boolean b :=
  (mirrors.values _ listed).boolean

theorem Mirrors.string {store : Store} {domain : Domain} {fields : List (Bytes × Doc)} (mirrors : Mirrors store domain fields)
    {name : String} {s : Bytes} (listed : (text name,.string s) ∈ fields) : field store domain name = .string s :=
  (mirrors.values _ listed).string

theorem available_member {h : Heap} (closed : h.Closed) {b : Address} {available : Bool} {rest : List (Bytes × Doc)}
    (seen : Shows h (.table b) (.object ((text "available",.boolean available) :: rest)))
    (absent : (h.table b).get (.string (text "available")) = .boolean false) : available = false := by
  have member := (shows_member closed seen List.mem_cons_self).boolean
  rw [absent] at member
  injection member with member
  exact member.symm

theorem cleared_of_mirrors {store : Store} (closed : store.heap.Closed) {current : Domain → List (Bytes × Doc)}
    (mirrors : ∀ domain, whole domain = true → Mirrors store domain (current domain))
    (clears : ∀ domain, Clears domain (current domain)) : Cleared store := by
  refine ⟨?_,?_,?_,?_⟩
  · intro absent
    have mirrors := mirrors .hyprland rfl
    obtain ⟨available,listed,cleared⟩ := clears .hyprland
    rw [mirrors.boolean listed] at absent
    injection absent with absent
    obtain ⟨monitors,workspaces,window,workspace⟩ := cleared absent
    exact ⟨mirrors.values _ monitors,mirrors.values _ workspaces,mirrors.values _ window,mirrors.values _ workspace⟩
  · intro absent
    have mirrors := mirrors .media rfl
    obtain ⟨media,⟨connected,same⟩,cleared⟩ := clears .media
    rw [same] at mirrors
    rw [mirrors.boolean (b := media.available) (by simp [mediaFields])] at absent
    injection absent with absent
    rw [cleared absent] at mirrors
    refine ⟨mirrors.string ?_,mirrors.string ?_,mirrors.string ?_,mirrors.string ?_,mirrors.string ?_,mirrors.string ?_,
      mirrors.values (text "capabilities",_) ?_⟩ <;>
        simp [mediaFields,Mpris.pushUnavailable,noCapabilities,Reports.capabilities]
  · intro b held absent
    have mirrors := mirrors .system rfl
    obtain ⟨battery,brightness,listed,_,cleared,_⟩ := clears .system
    have seen := mirrors.values _ listed
    change Shows store.heap (field store .system "battery") battery.document at seen
    rw [held] at seen
    rw [cleared (available_member closed seen absent)] at seen
    exact seen
  · intro b held absent
    have mirrors := mirrors .system rfl
    obtain ⟨battery,brightness,_,listed,_,cleared⟩ := clears .system
    have seen := mirrors.values _ listed
    change Shows store.heap (field store .system "brightness") brightness.document at seen
    rw [held] at seen
    rw [cleared (available_member closed seen absent)] at seen
    exact seen

-- The patch a domain stands by: the last one, or what M.new starts with.
def current (configPath : Bytes) (config : Config) (system : Reports.System) (domain : Domain) : List (Bytes × Doc) :=
  (system.last domain).getD (initialDocuments configPath config domain)

structure Showing (configPath : Bytes) (config : Config) (system : Reports.System) : Prop where
  stable : Stable (fun _ => True) system.store
  mirrors : ∀ domain, whole domain = true → Mirrors system.store domain (current configPath config system domain)
  clears : ∀ domain, Clears domain (current configPath config system domain)

theorem whole_conforms (environment : Environment) (report : Report) (full : whole report.domain = true) :
    Schema.conformsMembers (schema report.domain) (report.fields environment) = true := by
  cases report with
  | hyprland monitors workspaces activeWindow => exact hyprland_conforms _
  | hyprlandLost message => exact hyprland_conforms _
  | media source listing => exact media_conforms _ _
  | mediaLost message => exact media_conforms _ _
  | system scan => exact system_conforms _
  | systemFailed message => exact system_conforms _
  | _ => cases full

theorem mirrors_keys {store : Store} (stable : Stable (fun _ => True) store) {domain : Domain} {fields : List (Bytes × Doc)}
    (fit : Schema.conformsMembers (schema domain) fields = true) (key : Value) :
    (store.snapshot.state domain).get key ≠ .nil ↔ ∃ field ∈ fields, key = .string field.1 := by
  have paired := Schema.conformsMembers_iff.mp fit
  rw [stable.keys domain key]
  constructor
  · rintro ⟨entry,known,rfl⟩
    obtain ⟨field,listed,name,_⟩ := Raise.forall₂_left paired known
    exact ⟨field,listed,by rw [name]⟩
  · rintro ⟨field,listed,rfl⟩
    obtain ⟨entry,known,name,_⟩ := Raise.forall₂_right paired listed
    exact ⟨entry,known,by rw [name]⟩

theorem boot_showing (configPath : Bytes) (config : Config) : Showing configPath config (boot configPath config) := by
  have stable : Stable (fun _ => True) (new configPath config) := new_stable configPath config fun _ _ _ => trivial
  refine ⟨stable,?_,initial_clears configPath config⟩
  intro domain _
  refine ⟨mirrors_keys stable (initial_conforms configPath config domain),?_⟩
  intro field listed
  obtain ⟨room,found⟩ := initial_reads configPath config domain field listed
  exact .of_document ((new_orderly configPath config).documented domain _).inside (document_finite found) found

theorem step_showing {environment : Environment} {configPath : Bytes} {config : Config} {system : Reports.System} {event : Event}
    (showing : Showing configPath config system) (possible : Possible environment system event) :
    Showing configPath config (Reports.apply environment system event) := by
  have orderly := showing.stable.orderly
  have stable := merge_stable showing.stable possible fun field listed =>
    ⟨report_fits environment event.report field listed,trivial⟩
  obtain ⟨result,later,merged,accepted⟩ := merge_accepted orderly event.report.domain possible.parcel
  have store : (Reports.apply environment system event).store = later := by
    simp only [Reports.apply,merged]
  have here : current configPath config (Reports.apply environment system event) event.report.domain =
      event.report.fields environment := by simp [current,Reports.apply]
  have away : ∀ domain, domain ≠ event.report.domain →
      current configPath config (Reports.apply environment system event) domain = current configPath config system domain := by
    intro domain other
    simp [current,Reports.apply,other]
  refine ⟨stable,?_,?_⟩
  · intro domain full
    by_cases same : domain = event.report.domain
    · subst same
      rw [here]
      refine ⟨mirrors_keys stable (whole_conforms environment event.report full),?_⟩
      intro field listed
      obtain ⟨layout,known,fits⟩ := report_fits environment event.report field listed
      have seen := accepted.shows possible listed
      rw [stored_fitting known fits] at seen
      rw [store]
      exact seen
    · have before := showing.mirrors domain full
      rw [away domain same,store]
      refine ⟨?_,?_⟩
      · intro key
        rw [accepted.domains domain same]
        exact before.keys key
      · intro field listed
        rw [accepted.domains domain same]
        exact (before.values field listed).extends orderly.closed (possible.grown.trans accepted.grown)
  · intro domain
    by_cases same : domain = event.report.domain
    · subst same
      rw [here]
      exact report_clears environment event.report
    · rw [away domain same]
      exact showing.clears domain

-- A domain that has had a patch is equal to its last one, and what is absent is
-- cleared, in every state of every run.
theorem sources_leave_nothing_behind (environment : Environment) (configPath : Bytes) (config : Config) (events : List Event)
    (possible : Each (Reports.apply environment) (Possible environment) (boot configPath config) events) :
    Throughout (Reports.apply environment)
      (fun system => (∀ domain fields, whole domain = true → system.last domain = some fields →
        Mirrors system.store domain fields) ∧ Cleared system.store)
      (boot configPath config) events := by
  refine throughout_imp ?_ (throughout_invariant (fun _ _ => step_showing) (boot_showing configPath config) possible)
  intro system showing
  refine ⟨?_,cleared_of_mirrors showing.stable.orderly.closed showing.mirrors showing.clears⟩
  intro domain fields full last
  have mirrors := showing.mirrors domain full
  simp only [current,last,Option.getD_some] at mirrors
  exact mirrors

-- A player, a battery and a monitor come and go.
def battery : Devices.Device :=
  ⟨text "BAT0",fun name => if name = text "type" then some (text "Battery\n") else if name = text "capacity" then
    some (text "80\n") else none,false⟩

def comings : List Report :=
  [.media Mpris.opened Mpris.playing,.system ⟨some [battery],none⟩,.mediaLost (some (text "disconnected")),
   .system ⟨some [],none⟩,.hyprland (.array [laptop]) (.array [firstWorkspace]) .null,
   .hyprlandLost (some (text "connection refused"))]

theorem comings_sent : ∀ report ∈ comings, Sendable observed report ∧ Sends observed (legible · = true) report := by
  simp only [comings,List.forall_mem_cons]
  refine ⟨?_,?_,?_,?_,?_,?_,by simp⟩
  · exact checked rfl (by decide +kernel)
  · exact checked rfl (by decide +kernel)
  · exact checked rfl (by decide +kernel)
  · exact checked rfl (by decide +kernel)
  · exact checked (congrArg Hyprland.Patch.fields laptop_seen) (by decide +kernel)
  · exact checked rfl (by decide +kernel)

def booted : Reports.System := boot StateService.bootConfig allSources

def goings : List Event := deliveries observed booted comings

theorem goings_leave_nothing_behind :
    field (final (Reports.apply observed) booted (goings.take 2)).store .media "title" = .string (text "Song") ∧
    field (final (Reports.apply observed) booted (goings.take 3)).store .media "title" = .string [] ∧
    Throughout (Reports.apply observed)
      (fun system => (∀ domain fields, whole domain = true → system.last domain = some fields →
        Mirrors system.store domain fields) ∧ Cleared system.store)
      booted goings := by
  refine ⟨by decide +kernel,by decide +kernel,?_⟩
  have stable : Stable (fun _ => True) booted.store := new_stable StateService.bootConfig allSources fun _ _ _ => trivial
  exact sources_leave_nothing_behind observed StateService.bootConfig allSources goings
    (deliveries_possible observed stable fun report listed => (comings_sent report listed).1)

end Hypringo.Clearing

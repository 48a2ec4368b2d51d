import Hypringo.RemoteStore
import Hypringo.Reports
import Hypringo.Schema
import Hypringo.StateService
import Hypringo.Unpacking

namespace Hypringo.SchemaStability
open Hypringo.Lua Hypringo.Configuration Json Document Constructor State StateMerge StateService StateDelivery StateChange
  Runs Schema Reports Unpacking

-- The published schema, domain by domain, keys in the order they are written.
def flags (names : List String) : Layout := .object (names.map (fun name => (text name,.boolean)))

def reference : Layout := .object [(text "id",.number),(text "name",.string)]

def window : Layout :=
  .object
    [(text "address",.string),(text "class",.string),(text "floating",.boolean),(text "fullscreen",.number),
     (text "initial_class",.string),(text "initial_title",.string),(text "pid",.number),(text "title",.string),
     (text "workspace",reference),(text "xwayland",.boolean)]

def monitor : Layout :=
  .object
    [(text "active_workspace",reference),(text "description",.string),(text "dpms",.boolean),(text "focused",.boolean),
     (text "height",.number),(text "id",.number),(text "name",.string),(text "refresh_rate",.number),
     (text "scale",.number),(text "transform",.number),(text "width",.number),(text "x",.number),(text "y",.number)]

def workspace : Layout :=
  .object
    [(text "fullscreen",.boolean),(text "id",.number),(text "last_window",.string),(text "last_window_title",.string),
     (text "monitor",.string),(text "monitor_id",.number),(text "name",.string),(text "persistent",.boolean),
     (text "windows",.number)]

def notification : Layout :=
  .object
    [(text "id",.string),(text "reason",.string),
     (text "repository",.object [(text "full_name",.string),(text "html_url",.string)]),
     (text "subject",.object [(text "latest_comment_url",.string),(text "title",.string),(text "type",.string),(text "url",.string)]),
     (text "unread",.boolean),(text "updated_at",.string)]

def schema : Domain → List (Bytes × Layout)
  | .audio =>
    [(text "available",.boolean),(text "capabilities",flags ["set_mute","set_volume","toggle_mute"]),
     (text "connected",.boolean),(text "error",.string),(text "muted",.boolean),(text "sink",.string),
     (text "volume",.number)]
  | .github =>
    [(text "available",.boolean),(text "error",.string),(text "failures",.number),(text "last_attempt_at",.number),
     (text "last_success_at",.number),(text "notifications",.array notification),(text "refresh_in_ms",.number),
     (text "stale",.boolean)]
  | .hyprland =>
    [(text "active_window",window),
     (text "active_workspace",.object [(text "id",.number),(text "monitor",.string),(text "name",.string)]),
     (text "available",.boolean),(text "capabilities",flags ["switch_workspace"]),(text "error",.string),
     (text "monitors",.array monitor),(text "workspaces",.array workspace)]
  | .media =>
    [(text "album",.string),(text "art",.string),(text "artist",.string),(text "available",.boolean),
     (text "capabilities",flags ["next","pause","play","play_pause","previous"]),(text "connected",.boolean),
     (text "error",.string),(text "player",.string),(text "status",.string),(text "title",.string)]
  | .runtime =>
    [(text "config_generation",.number),(text "config_path",.string),(text "last_reload_error",.string),
     (text "ready",.boolean),(text "socket_path",.string),(text "workers",.number)]
  | .system =>
    [(text "available",.boolean),
     (text "battery",.object
       [(text "available",.boolean),(text "capacity",.number),(text "device",.string),(text "status",.string)]),
     (text "brightness",.object
       [(text "available",.boolean),(text "capabilities",flags ["set"]),(text "device",.string),(text "percent",.number)]),
     (text "error",.string)]
  | .weather =>
    [(text "available",.boolean),(text "condition",.string),(text "error",.string),(text "failures",.number),
     (text "feels_like",.string),(text "last_attempt_at",.number),(text "last_success_at",.number),
     (text "location",.string),(text "precipitation",.string),(text "pressure",.string),(text "refresh_in_ms",.number),
     (text "stale",.boolean),(text "temperature",.string),(text "wind",.string)]

def stateSchema : Layout := .object (Domain.all.map (fun domain => (domain.name,.object (schema domain))))

-- A field the schema has, with a document it allows.
def Fits (domain : Domain) (field : Bytes × Doc) : Prop :=
  ∃ layout, (field.1,layout) ∈ schema domain ∧ conforms layout field.2 = true

theorem number_conforms (n : Hyprland.Number) : conforms .number n.document = true := by
  cases n <;> rfl

theorem reference_conforms (workspace : Hyprland.WorkspaceReference) : conforms reference workspace.document = true := by
  simp [reference,Hyprland.WorkspaceReference.document,conforms,conformsMembers,number_conforms]

theorem window_conforms (held : Hyprland.Window) : conforms window held.document = true := by
  simp [window,Hyprland.Window.document,conforms,conformsMembers,number_conforms,reference_conforms]

theorem monitor_conforms (held : Hyprland.Monitor) : conforms monitor held.document = true := by
  simp [monitor,Hyprland.Monitor.document,conforms,conformsMembers,number_conforms,reference_conforms]

theorem workspace_conforms (held : Hyprland.Workspace) : conforms workspace held.document = true := by
  simp [workspace,Hyprland.Workspace.document,conforms,conformsMembers,number_conforms]

theorem notification_conforms (held : Remote.Notification) : conforms notification held.document = true := by
  simp [notification,Remote.Notification.document,conforms,conformsMembers]

theorem list_conforms {α : Type} {layout : Layout} {document : α → Doc} (each : ∀ item, conforms layout (document item) = true)
    (items : List α) : conforms (.array layout) (.array (items.map document)) = true := by
  simp only [conforms]
  rw [conformsItems_iff]
  intro d member
  obtain ⟨item,_,rfl⟩ := List.mem_map.mp member
  exact each item

theorem fits_of_conforms {domain : Domain} {layouts : List (Bytes × Layout)} {fields : List (Bytes × Doc)}
    (part : layouts ⊆ schema domain) (fit : conformsMembers layouts fields = true) : ∀ field ∈ fields, Fits domain field := by
  intro field listed
  obtain ⟨layout,known,name,fits⟩ := Raise.forall₂_right (conformsMembers_iff.mp fit) listed
  obtain ⟨title,layout⟩ := layout
  cases name
  exact ⟨layout,part known,fits⟩

theorem audio_fits {patch : AudioService.Patch} (full : patch.capabilities = AudioService.capabilities) :
    ∀ field ∈ audioFields patch, Fits .audio field := by
  apply fits_of_conforms (List.Subset.refl _)
  simp [schema,flags,audioFields,full,AudioService.capabilities,conforms,conformsMembers]

theorem hyprland_conforms (patch : Hyprland.Patch) : conformsMembers (schema .hyprland) patch.fields = true := by
  have monitors := list_conforms monitor_conforms patch.monitors
  have workspaces := list_conforms workspace_conforms patch.workspaces
  simp [schema,flags,Hyprland.Patch.fields,Hyprland.ActiveWorkspace.document,conformsMembers,window_conforms,monitors,
    workspaces]
  simp [conforms,conformsMembers,number_conforms]

theorem media_conforms (connected : Bool) (media : Mpris.Media) :
    conformsMembers (schema .media) (mediaFields connected media) = true := by
  simp [schema,flags,mediaFields,Reports.capabilities,conforms,conformsMembers]

theorem system_conforms (patch : Devices.Patch) : conformsMembers (schema .system) patch.fields = true := by
  simp [schema,flags,Devices.Patch.fields,Devices.BatteryTable.document,Devices.BrightnessTable.document,conforms,
    conformsMembers]

def weatherLayouts : List (Bytes × Layout) :=
  [(text "condition",.string),(text "feels_like",.string),(text "location",.string),(text "precipitation",.string),
   (text "pressure",.string),(text "temperature",.string),(text "wind",.string)]

theorem weather_fits (weather : Remote.Weather) : ∀ field ∈ weather.fields, Fits .weather field := by
  have part : weatherLayouts ⊆ schema .weather := by simp [weatherLayouts,schema]
  apply fits_of_conforms part
  simp [weatherLayouts,Remote.Weather.fields,conforms,conformsMembers]

-- The metadata of both remote sources are the same fields.
def failureLayouts : List (Bytes × Layout) :=
  [(text "error",.string),(text "failures",.number),(text "last_attempt_at",.number),(text "refresh_in_ms",.number),
   (text "stale",.boolean)]

def successLayouts : List (Bytes × Layout) :=
  [(text "available",.boolean),(text "error",.string),(text "failures",.number),(text "last_attempt_at",.number),
   (text "last_success_at",.number),(text "refresh_in_ms",.number),(text "stale",.boolean)]

theorem failure_fits {domain : Domain} (part : failureLayouts ⊆ schema domain) (message : Bytes)
    (failures lastSuccessAt delayMs now : Int64) :
    ∀ field ∈ Remote.failurePatch message failures lastSuccessAt delayMs now, Fits domain field := by
  apply fits_of_conforms part
  simp [failureLayouts,Remote.failurePatch,conforms,conformsMembers]

theorem success_fits {domain : Domain} (part : successLayouts ⊆ schema domain) (delayMs now : Int64) :
    ∀ field ∈ Remote.successMetadata delayMs now, Fits domain field := by
  apply fits_of_conforms part
  simp [successLayouts,Remote.successMetadata,conforms,conformsMembers]

theorem weather_failure (message : Bytes) (failures lastSuccessAt delayMs now : Int64) :
    ∀ field ∈ Remote.failurePatch message failures lastSuccessAt delayMs now, Fits .weather field :=
  failure_fits (by simp [failureLayouts,schema]) message failures lastSuccessAt delayMs now

theorem github_failure (message : Bytes) (failures lastSuccessAt delayMs now : Int64) :
    ∀ field ∈ Remote.failurePatch message failures lastSuccessAt delayMs now, Fits .github field :=
  failure_fits (by simp [failureLayouts,schema]) message failures lastSuccessAt delayMs now

theorem refreshWeather_fits (y : Yyjson) (service : RemoteServices.WeatherService) (clock : RemoteServices.Clock)
    (reply : RemoteServices.Reply) : ∀ field ∈ (service.refresh y clock reply).2, Fits .weather field := by
  unfold RemoteServices.WeatherService.refresh
  split
  · exact weather_failure _ _ _ _ _
  · exact weather_failure _ _ _ _ _
  · split
    · exact weather_failure _ _ _ _ _
    · split
      · exact weather_failure _ _ _ _ _
      · intro field listed
        rcases List.mem_append.mp listed with own | metadata
        · exact weather_fits _ field own
        · exact success_fits (by simp [successLayouts,schema]) _ _ field metadata

theorem refreshGithub_fits (y : Yyjson) (getenv : Bytes → Option Bytes) (service : RemoteServices.GithubService)
    (clock : RemoteServices.Clock) (reply : RemoteServices.Reply) :
    ∀ field ∈ (service.refresh y getenv clock reply).2, Fits .github field := by
  have metadata : ∀ delay now, ∀ field ∈ Remote.successMetadata delay now, Fits .github field :=
    success_fits (by simp [successLayouts,schema])
  unfold RemoteServices.GithubService.refresh
  split
  · exact github_failure _ _ _ _ _
  · split
    · exact github_failure _ _ _ _ _
    · exact github_failure _ _ _ _ _
    · unfold RemoteServices.GithubService.accept
      split
      · split
        · exact github_failure _ _ _ _ _
        · exact metadata _ _
      · split
        · exact github_failure _ _ _ _ _
        · split
          · exact github_failure _ _ _ _ _
          · intro field listed
            rcases List.mem_cons.mp listed with rfl | rest
            · exact ⟨.array notification,by simp [Remote.notificationsField,schema],
                list_conforms notification_conforms _⟩
            · exact metadata _ _ field rest

-- Whatever the sources read, what they send has the fields of the schema.
theorem report_fits (environment : Environment) (report : Report) :
    ∀ field ∈ report.fields environment, Fits report.domain field := by
  cases report with
  | audio source => exact audio_fits rfl
  | audioLost message => exact audio_fits rfl
  | github service clock reply => exact refreshGithub_fits _ _ service clock reply
  | hyprland monitors workspaces activeWindow => exact fits_of_conforms (List.Subset.refl _) (hyprland_conforms _)
  | hyprlandLost message => exact fits_of_conforms (List.Subset.refl _) (hyprland_conforms _)
  | media source listing => exact fits_of_conforms (List.Subset.refl _) (media_conforms _ _)
  | mediaLost message => exact fits_of_conforms (List.Subset.refl _) (media_conforms _ _)
  | system scan => exact fits_of_conforms (List.Subset.refl _) (system_conforms _)
  | systemFailed message => exact fits_of_conforms (List.Subset.refl _) (system_conforms _)
  | weather service clock reply => exact refreshWeather_fits _ service clock reply
  | ready =>
    intro field listed
    rw [List.mem_singleton.mp listed]
    exact ⟨.boolean,by simp [Report.domain,schema],rfl⟩
  | reloadFailed message =>
    intro field listed
    rw [List.mem_singleton.mp listed]
    exact ⟨.string,by simp [Report.domain,schema],rfl⟩
  | reloaded generation =>
    intro field listed
    rcases List.mem_cons.mp listed with rfl | rest
    · exact ⟨.number,by simp [Report.domain,schema],rfl⟩
    · rw [List.mem_singleton.mp rest]
      exact ⟨.string,by simp [Report.domain,schema],rfl⟩

-- Lists stand in the three fields M.merge repairs and nowhere else.
def arranged (domain : Domain) (entry : Bytes × Layout) : Bool :=
  match entry.2 with
  | .array items => arrayField domain (.string entry.1) && flat items
  | layout => !arrayField domain (.string entry.1) && flat layout

theorem schema_arranged (domain : Domain) : (schema domain).all (arranged domain) = true := by
  cases domain <;> decide

theorem stored_fitting {domain : Domain} {field : Bytes × Doc} {layout : Layout} (known : (field.1,layout) ∈ schema domain)
    (fits : conforms layout field.2 = true) : stored domain field.1 field.2 = field.2 := by
  have place := List.all_eq_true.mp (schema_arranged domain) _ known
  obtain ⟨name,d⟩ := field
  unfold arranged at place
  split at place
  · rename_i items shape
    change layout = .array items at shape
    subst shape
    rw [Bool.and_eq_true] at place
    cases d with
    | array docs =>
      simp only [conforms] at fits
      have same := transitItems_flat place.2 fits
      cases docs with
      | nil => simp only [stored,place.1,transit,emptyObject,Bool.and_self,if_true]
      | cons item rest =>
        simp only [transitItems,List.cons.injEq] at same
        simp only [stored,transit,same.1,same.2,emptyObject,Bool.and_false,Bool.false_eq_true,if_false]
    | _ => simp [conforms] at fits
  · rw [Bool.and_eq_true,Bool.not_eq_true'] at place
    have same := transit_flat layout d place.2 fits
    simp only [stored,place.1,Bool.false_and,Bool.false_eq_true,if_false,same]

-- The store holds the schema: the keys of every domain, each with a document of
-- its layout, and of these whatever else is asked of what the sources send.
structure Stable (asked : Doc → Prop) (store : Store) : Prop where
  orderly : Orderly store
  unmarked : ∀ domain, (store.snapshot.state domain).marked = false
  only : ∀ domain key, (store.snapshot.state domain).get key ≠ .nil → ∃ entry ∈ schema domain, key = .string entry.1
  each : ∀ domain, ∀ entry ∈ schema domain, ∃ d, Reads store domain (.string entry.1) d ∧ conforms entry.2 d = true ∧ asked d

variable {asked : Doc → Prop}

theorem schema_unique {domain : Domain} {name : Bytes} {one other : Layout} (left : (name,one) ∈ schema domain)
    (right : (name,other) ∈ schema domain) : one = other := by
  have distinct : ((schema domain).map Prod.fst).Nodup := by cases domain <;> decide
  exact congrArg Prod.snd (List.inj_on_of_nodup_map distinct left right rfl)

theorem initial_conforms (configPath : Bytes) (config : Config) (domain : Domain) :
    conformsMembers (schema domain) (initialDocuments configPath config domain) = true := by
  cases domain <;>
    simp [schema,flags,reference,window,initialDocuments,mediaFields,Reports.capabilities,Mpris.pushUnavailable,
      Hyprland.unavailable,Hyprland.Window.document,Hyprland.WorkspaceReference.document,Hyprland.ActiveWorkspace.document,
      Devices.Patch.fields,Devices.BatteryTable.document,Devices.BrightnessTable.document,conforms,conformsMembers,
      conformsItems,number_conforms]

theorem new_stable (configPath : Bytes) (config : Config)
    (held : ∀ domain, ∀ field ∈ initialDocuments configPath config domain, asked field.2) :
    Stable asked (new configPath config) := by
  have fit := fun domain => conformsMembers_iff.mp (initial_conforms configPath config domain)
  refine ⟨new_orderly configPath config,?_,?_,?_⟩
  · intro domain
    exact Table.build_marked _ _
  · intro domain key held
    obtain ⟨field,listed,same⟩ := initial_names configPath config domain key held
    obtain ⟨entry,known,name,_⟩ := Raise.forall₂_right (fit domain) listed
    exact ⟨entry,known,by rw [same,name]⟩
  · intro domain entry known
    obtain ⟨field,listed,name,fits⟩ := Raise.forall₂_left (fit domain) known
    exact ⟨field.2,name ▸ initial_reads configPath config domain field listed,fits,held domain field listed⟩

-- A patch of the schema leaves the store with the schema.
theorem merge_stable {store : Store} (stable : Stable asked store) {domain : Domain} {h : Heap} {p : Address}
    {fields : List (Bytes × Doc)} (packed : Packed store.heap h p fields)
    (fit : ∀ field ∈ fields, Fits domain field ∧ asked field.2) :
    Stable asked (merge ⟨store.snapshot,h⟩ domain.name (.table p)).2 := by
  obtain ⟨changed,later,merged,applied⟩ := merge_applied stable.orderly domain packed
  have marks := merge_marked ⟨store.snapshot,h⟩ domain.name (.table p)
  rw [merged] at marks ⊢
  have grown := packed.grown.trans applied.grown
  refine ⟨applied.orderly,fun other => (marks other).trans (stable.unmarked other),?_,?_⟩
  · intro other key held
    by_cases here : other = domain
    · subst here
      by_cases sent : ∃ field ∈ fields, key = .string field.1
      · obtain ⟨field,listed,same⟩ := sent
        obtain ⟨layout,known,_⟩ := (fit field listed).1
        exact ⟨_,known,same⟩
      · rw [applied.absent key (fun field listed same => sent ⟨field,listed,same⟩)] at held
        exact stable.only other key held
    · rw [applied.domains other here] at held
      exact stable.only other key held
  · intro other entry known
    obtain ⟨d,reads,fits⟩ := stable.each other entry known
    by_cases here : other = domain
    · subst here
      by_cases sent : ∃ field ∈ fields, Value.string entry.1 = .string field.1
      · obtain ⟨field,listed,same⟩ := sent
        injection same with same
        by_cases settled : Settled store other h p field
        · have held := applied.kept field listed settled
          rw [← same] at held
          exact ⟨d,reads.kept stable.orderly grown held,fits⟩
        · obtain ⟨⟨layout,named,conforming⟩,held⟩ := fit field listed
          have moved := applied.moved field listed settled
          rw [stored_fitting named conforming,← same] at moved
          rw [← same] at named
          exact ⟨field.2,moved,schema_unique known named ▸ conforming,held⟩
      · exact ⟨d,reads.kept stable.orderly grown
          (applied.absent _ (fun field listed same => sent ⟨field,listed,same⟩)),fits⟩
    · exact ⟨d,reads.kept stable.orderly grown (by rw [applied.domains other here]),fits⟩

def Sends (environment : Environment) (asked : Doc → Prop) (report : Report) : Prop :=
  ∀ field ∈ report.fields environment, asked field.2

theorem run_stable {environment : Environment} {configPath : Bytes} {config : Config} {events : List Event}
    (possible : Each (Reports.apply environment) (Possible environment) (boot configPath config) events)
    (held : ∀ domain, ∀ field ∈ initialDocuments configPath config domain, asked field.2)
    (sent : Each (Reports.apply environment) (fun _ event => Sends environment asked event.report) (boot configPath config)
      events) :
    Throughout (Reports.apply environment) (fun system => Stable asked system.store) (boot configPath config) events := by
  refine throughout_invariant ?_ (new_stable configPath config held) (each_and possible sent)
  intro system event stable allowed
  exact merge_stable stable allowed.1 fun field listed => ⟨report_fits environment event.report field listed,allowed.2 field listed⟩

-- A report whose fields are data that Lua can hold, each of them once.
def Sendable (environment : Environment) (report : Report) : Prop :=
  ((report.fields environment).map Prod.fst).Nodup ∧ layableMembers (report.fields environment) = true

-- The patch of a report, unpacked in the state service.
def delivery (environment : Environment) (system : Reports.System) (report : Report) : Event where
  report := report
  h := unpackedHeap (report.fields environment) system.store.heap
  p := unpackedAt (report.fields environment) system.store.heap

def deliveries (environment : Environment) : Reports.System → List Report → List Event
  | _,[] => []
  | system,report :: rest =>
    delivery environment system report ::
      deliveries environment (Reports.apply environment system (delivery environment system report)) rest

-- Whatever the sources report does arrive.
theorem deliveries_possible (environment : Environment) {system : Reports.System} (stable : Stable (fun _ => True) system.store)
    {reports : List Report} (sendable : ∀ report ∈ reports, Sendable environment report) :
    Each (Reports.apply environment) (Possible environment) system (deliveries environment system reports) := by
  induction reports generalizing system with
  | nil => trivial
  | cons report rest ih =>
    obtain ⟨distinct,layable⟩ := sendable report (by simp)
    have packed : Possible environment system (delivery environment system report) :=
      unpacked_packed stable.orderly.closed distinct layable
    refine ⟨packed,ih ?_ fun other listed => sendable other (by simp [listed])⟩
    exact merge_stable stable packed fun field listed => ⟨report_fits environment report field listed,trivial⟩

theorem deliveries_send {environment : Environment} {system : Reports.System} {reports : List Report}
    (sent : ∀ report ∈ reports, Sends environment asked report) :
    Each (Reports.apply environment) (fun _ event => Sends environment asked event.report) system
      (deliveries environment system reports) := by
  induction reports generalizing system with
  | nil => trivial
  | cons report rest ih => exact ⟨sent report (by simp),ih fun other listed => sent other (by simp [listed])⟩

def snapshotSchema : Layout := .object [(text "revision",.number),(text "state",stateSchema),(text "type",.string)]

-- json.encode lays the value out as a document of the layout. It writes it when
-- the strings are UTF-8, and what is read back has the layout too.
def Publishes (y : Yyjson) (layout : Layout) (built : Built) (h : Heap) : Prop :=
  ∃ d, document (built.realise h).2 maxDepth (built.realise h).1 = .ok d ∧ conforms layout d = true ∧
    if legible d then ∃ s, encodeBuilt y built h = .ok s ∧ y.read s = .ok d.canonical ∧ conforms layout d.canonical = true
    else ∃ message, encodeBuilt y built h = .error message

theorem Stable.standing {store : Store} (stable : Stable asked store) : Standing store.heap store.snapshot := by
  intro domain entry member
  have value := Table.get_of_mem member
  have present : (store.snapshot.state domain).get entry.1 ≠ .nil := by
    rw [value]
    exact (store.snapshot.state domain).present entry member
  obtain ⟨layout,_,key⟩ := stable.only domain entry.1 present
  refine ⟨by rw [key]; trivial,?_⟩
  rw [← value]
  exact (stable.orderly.documented domain entry.1).inside

theorem Stable.keys {store : Store} (stable : Stable asked store) (domain : Domain) (key : Value) :
    (store.snapshot.state domain).get key ≠ .nil ↔ ∃ entry ∈ schema domain, key = .string entry.1 := by
  constructor
  · exact stable.only domain key
  · rintro ⟨entry,known,rfl⟩ absent
    obtain ⟨d,⟨room,found⟩,fits,_⟩ := stable.each domain entry known
    rw [absent,document_scalar rfl] at found
    cases found
    rw [conforms_null] at fits
    cases fits

-- No field of the schema nests deeper than this.
def fieldDepth : Nat := 3

theorem schema_shallow (domain : Domain) : (schema domain).all (fun entry => depth entry.2 ≤ fieldDepth) = true := by
  cases domain <;> decide

theorem schema_sorted (domain : Domain) :
    ((schema domain).map Prod.fst).Pairwise (fun left right => ordinal left < ordinal right) := by
  cases domain <;> decide

-- What a field holds, read without more depth than its layout has.
theorem Stable.field {store : Store} (stable : Stable asked store) {domain : Domain} {entry : Bytes × Layout}
    (known : entry ∈ schema domain) :
    ∃ d, document store.heap fieldDepth ((store.snapshot.state domain).get (.string entry.1)) = .ok d ∧
      conforms entry.2 d = true ∧ asked d := by
  obtain ⟨d,⟨room,found⟩,fits,held⟩ := stable.each domain entry known
  have shallow := List.all_eq_true.mp (schema_shallow domain) entry known
  exact ⟨d,document_le (document_depth found entry.2 fits) (of_decide_eq_true shallow),fits,held⟩

theorem domain_document {store : Store} (stable : Stable asked store) {h : Heap} (grown : store.heap.Extends h) {b : Address}
    (proper : b ≠ h.null) {domain : Domain} (held : h.table b = store.snapshot.state domain) :
    ∃ d, document h (fieldDepth+1) (.table b) = .ok d ∧ conforms (.object (schema domain)) d = true := by
  rw [document_table proper,held]
  refine encodeTable_conforms (stable.unmarked domain) (by cases domain <;> simp [schema]) (schema_sorted domain)
    (stable.keys domain) ?_
  intro entry known
  obtain ⟨d,found,fits,_⟩ := stable.field known
  exact ⟨d,document_extends stable.orderly.closed grown (stable.orderly.documented domain _).inside found,fits⟩

-- The constructor of snapshot.state has the domains for keys and no others.
structure Root (h : Heap) (a : Address) : Prop where
  inside : a < h.size
  plain : (h.table a).marked = false
  only : ∀ key, (h.table a).get key ≠ .nil → ∃ domain : Domain, key = .string domain.name

theorem stateValue_root {store : Store} {a : Address} (root : (stateValue store).1 = .table a) :
    Root (stateValue store).2 a := by
  have names : ∀ domains h, ((realiseFields (domainFields store.snapshot domains) h).1.map Prod.fst) =
      domains.map Domain.name := by
    intro domains
    induction domains with
    | nil => exact fun _ => rfl
    | cons domain rest ih => exact fun h => congrArg (List.cons domain.name) (ih _)
  simp only [stateValue,stateBuilt,Built.realise] at root ⊢
  cases root
  refine ⟨Nat.lt_succ_self _,?_,?_⟩
  · rw [Heap.alloc_new]
    exact Table.build_marked _ _
  · intro key held
    rw [Heap.alloc_new] at held
    obtain ⟨field,listed,same⟩ := Table.mem_of_mem_record (Table.mem_of_get held)
    have known : field.1 ∈ (realiseFields (domainFields store.snapshot Domain.all) store.heap).1.map Prod.fst :=
      List.mem_map_of_mem listed
    rw [names] at known
    obtain ⟨domain,_,name⟩ := List.mem_map.mp known
    exact ⟨domain,by rw [name]; exact (Prod.ext_iff.mp same).1⟩

theorem state_document {store : Store} (stable : Stable asked store) :
    ∃ a d, (stateValue store).1 = .table a ∧ StateTable store a (stateValue store).2 ∧
      document (stateValue store).2 (fieldDepth+2) (.table a) = .ok d ∧ conforms stateSchema d = true := by
  obtain ⟨a,root,table⟩ := stateValue_table stable.orderly.closed stable.standing
  have top := stateValue_root root
  obtain ⟨d,encoded,fits⟩ : ∃ d, encodeTable ((stateValue store).2.table a) (document (stateValue store).2 (fieldDepth+1)) =
      .ok d ∧ conforms stateSchema d = true := by
    refine encodeTable_conforms top.plain (by simp [Domain.all]) ?_ ?_ ?_
    · rw [List.map_map]
      decide
    · intro key
      constructor
      · intro held
        obtain ⟨domain,rfl⟩ := top.only key held
        exact ⟨_,List.mem_map_of_mem (Domain.mem_all domain),rfl⟩
      · rintro ⟨entry,known,rfl⟩
        obtain ⟨domain,_,rfl⟩ := List.mem_map.mp known
        obtain ⟨b,fetched,_⟩ := table.domains domain
        rw [fetched]
        simp
    · intro entry known
      obtain ⟨domain,_,rfl⟩ := List.mem_map.mp known
      obtain ⟨b,fetched,proper,held⟩ := table.domains domain
      dsimp only
      rw [fetched]
      exact domain_document stable table.grown proper held
  exact ⟨a,d,root,table,by rw [document_table table.proper]; exact encoded,fits⟩

theorem built_publishes {y : Yyjson} {layout : Layout} {built : Built} {h : Heap} (d : Doc)
    (closed : (built.realise h).2.Closed) (found : document (built.realise h).2 maxDepth (built.realise h).1 = .ok d)
    (fits : conforms layout d = true) : Publishes y layout built h := by
  have root := (encode_iff_document closed).mpr found
  refine ⟨d,found,fits,?_⟩
  split
  · rename_i ok
    obtain ⟨s,written,read⟩ := y.read_write d (document_writable found ok)
    refine ⟨s,?_,read,conforms_canonical layout d fits⟩
    simp only [encodeBuilt,encode,root,written,bind,Except.bind]
    rfl
  · rename_i garbled
    have unwritable : d.writable = false := by
      rw [Bool.eq_false_iff]
      exact fun ok => garbled (legible_of_writable d ok)
    obtain ⟨message,refused⟩ := y.write_refuses d unwritable
    refine ⟨text "cannot encode JSON: " ++ message,?_⟩
    simp only [encodeBuilt,encode,root,refused,bind,Except.bind]

theorem state_publishes (y : Yyjson) {store : Store} (stable : Stable asked store) :
    Publishes y stateSchema (stateBuilt store.snapshot) store.heap := by
  obtain ⟨a,d,root,table,found,fits⟩ := state_document stable
  rw [← root] at found
  exact built_publishes d table.closed (document_le found (by decide)) fits

theorem snapshot_publishes (y : Yyjson) {store : Store} (stable : Stable asked store) :
    Publishes y snapshotSchema (snapshotBuilt store.snapshot) store.heap := by
  obtain ⟨a,d,root,table,found,fits⟩ := state_document stable
  let fields := [(text "revision",Value.integer (Int64.ofInt store.snapshot.revision)),(text "state",Value.table a),
    (text "type",.string (text "snapshot"))]
  let h := (stateValue store).2.alloc (.record fields)
  have built : (snapshotBuilt store.snapshot).realise store.heap = (.table (stateValue store).2.size,h) := by
    simp only [h,fields,← root]
    rfl
  have base := table.closed
  have step := (stateValue store).2.alloc_extends (.record fields)
  have inside := (stateValue_root root).inside
  have closed : h.Closed := by
    apply Heap.alloc_closed base
    intro entry member
    obtain ⟨field,listed,rfl⟩ := Table.mem_of_mem_record member
    refine ⟨trivial,?_⟩
    simp only [fields,List.mem_cons,List.not_mem_nil,or_false] at listed
    rcases listed with rfl | rfl | rfl
    · trivial
    · exact inside
    · trivial
  have proper : (stateValue store).2.size ≠ h.null := Nat.ne_of_gt base.null
  obtain ⟨e,encoded,conforming⟩ : ∃ e, encodeTable (Table.record fields) (document h (fieldDepth+2)) = .ok e ∧
      conforms snapshotSchema e = true := by
    refine record_conforms (by simp) (by decide) (.cons ⟨rfl,by simp,?_⟩ (.cons ⟨rfl,by simp,?_⟩ (.cons ⟨rfl,by simp,?_⟩ .nil)))
    · exact ⟨_,document_scalar rfl _,rfl⟩
    · exact ⟨d,document_extends base step inside found,fits⟩
    · exact ⟨_,document_scalar rfl _,rfl⟩
  have whole : document h (fieldDepth+3) (.table (stateValue store).2.size) = .ok e := by
    rw [document_table proper,Heap.alloc_new]
    exact encoded
  refine built_publishes e ?_ ?_ conforming
  · rw [built]
    exact closed
  · rw [built]
    exact document_le whole (by decide)

-- A store whose strings are UTF-8 is one that json.encode takes.
theorem Stable.tidy {store : Store} (stable : Stable (legible · = true) store) : Tidy payloadRoom store := by
  refine ⟨stable.orderly.closed,stable.orderly.plain,fun domain => ⟨stable.unmarked domain,?_,?_⟩⟩
  · intro entry member
    have value := Table.get_of_mem member
    obtain ⟨layout,known,key⟩ := stable.only domain entry.1 (by rw [value]; exact Table.present _ _ member)
    have valid : (schema domain).all (fun entry => validUtf8 entry.1) = true := by cases domain <;> decide
    exact ⟨_,key,List.all_eq_true.mp valid layout known⟩
  · intro entry member
    have value := Table.get_of_mem member
    obtain ⟨layout,known,key⟩ := stable.only domain entry.1 (by rw [value]; exact Table.present _ _ member)
    obtain ⟨d,found,_,ok⟩ := stable.field known
    have documented := stable.orderly.documented domain entry.1
    rw [← key,value] at found
    rw [value] at documented
    exact ⟨⟨d,document_le found (by decide),document_writable found ok⟩,documented.inside,documented.proper⟩

theorem tidy_encodes (y : Yyjson) {store : Store} (tidy : Tidy payloadRoom store) :
    (∃ s, encodeBuilt y (snapshotBuilt store.snapshot) store.heap = .ok s) ∧ ∃ s, encodeState y store = .ok s := by
  obtain ⟨s,written⟩ := encodeBuilt_text y tidy.closed (snapshotBuilt_ok tidy)
  refine ⟨⟨s,written _ (.refl _) tidy.closed⟩,encodeState_ok y ?_⟩
  exact Tidy.le tidy (by decide)

theorem initial_legible {configPath : Bytes} {config : Config} (bootable : Bootable configPath config) (domain : Domain) :
    ∀ field ∈ initialDocuments configPath config domain, legible field.2 = true := by
  have all : legibleMembers (initialDocuments configPath config domain) = true := by
    cases domain with
    | runtime => simp only [initialDocuments,legibleMembers,legible,bootable.path,bootable.socket]; rfl
    | _ => rfl
  exact fun field listed => ((legibleMembers_iff _).mp all field listed).2

-- In every state of every run the snapshot has one layout, in both of its
-- encodings. They are written whenever the strings of the configuration and of
-- what the sources send are UTF-8.
theorem published_schema_stable (environment : Environment) (configPath : Bytes) (config : Config) (events : List Event)
    (possible : Each (Reports.apply environment) (Possible environment) (boot configPath config) events) :
    Throughout (Reports.apply environment)
      (fun system =>
        Publishes environment.yyjson snapshotSchema (snapshotBuilt system.store.snapshot) system.store.heap ∧
        Publishes environment.yyjson stateSchema (stateBuilt system.store.snapshot) system.store.heap)
      (boot configPath config) events ∧
    (Bootable configPath config →
      Each (Reports.apply environment) (fun _ event => Sends environment (legible · = true) event.report)
        (boot configPath config) events →
      Throughout (Reports.apply environment)
        (fun system =>
          (∃ s, encodeBuilt environment.yyjson (snapshotBuilt system.store.snapshot) system.store.heap = .ok s) ∧
          ∃ s, encodeState environment.yyjson system.store = .ok s)
        (boot configPath config) events) := by
  constructor
  · have all : Throughout (Reports.apply environment) (fun system => Stable (fun _ => True) system.store)
        (boot configPath config) events :=
      run_stable possible (fun _ _ _ => trivial) (each_always fun _ _ _ _ => trivial)
    exact throughout_imp (fun _ stable => ⟨snapshot_publishes _ stable,state_publishes _ stable⟩) all
  · intro bootable sent
    exact throughout_imp (fun _ stable => tidy_encodes _ stable.tidy) (run_stable possible (initial_legible bootable) sent)

def observed : Environment := { bare with getenv := RemoteStore.token }

def laptop : Tree :=
  .object
    [(text "activeWorkspace",.object [(text "id",.integer 1),(text "name",.string (text "1"))]),
     (text "focused",.boolean true),(text "name",.string (text "eDP-1")),(text "scale",.float ⟨0x3FF8000000000000⟩)]

def firstWorkspace : Tree := .object [(text "id",.integer 1),(text "monitor",.string (text "eDP-1"))]

def seenPatch : Hyprland.Patch where
  activeWindow := Hyprland.normalizeActiveWindow (some .null)
  activeWorkspace := ⟨.integer 1,text "eDP-1",text "1"⟩
  available := true
  error := []
  monitors := [Hyprland.normalizeMonitor laptop]
  workspaces := [Hyprland.normalizeWorkspace firstWorkspace]

theorem sorted_single (sorting : Hyprland.Sorting) {α : Type} (less : α → α → Bool) (item : α) :
    sorting.sort less [item] = [item] := List.perm_singleton.mp (sorting.permutes less [item])

theorem laptop_seen : Hyprland.snapshot observed.sorting (.array [laptop]) (.array [firstWorkspace]) .null = seenPatch := by
  have monitors : Hyprland.sortedArray observed.sorting (.array [laptop]) Hyprland.normalizeMonitor Hyprland.compareMonitors =
      [Hyprland.normalizeMonitor laptop] := sorted_single _ _ _
  have workspaces : Hyprland.sortedArray observed.sorting (.array [firstWorkspace]) Hyprland.normalizeWorkspace
      Hyprland.compareWorkspaces = [Hyprland.normalizeWorkspace firstWorkspace] := sorted_single _ _ _
  simp only [Hyprland.snapshot,monitors,workspaces]
  rfl

def noIssues : RemoteServices.Response := ⟨200,⟨none,none,none,none,none⟩,JsonText.writeDoc (.array [])⟩

def noPatch : Remote.Patch := Remote.notificationsField [] :: Remote.successMetadata 60000 43260

theorem none_listed :
    (RemoteStore.refreshed.refresh JsonText.reference RemoteStore.token RemoteStore.later (.response noIssues)).2 = noPatch := by
  have read : JsonText.reference.read noIssues.body = .ok (.array []) := RemoteStore.body_read (by decide)
  have parsed : Remote.parseGithub JsonText.reference noIssues.body RemoteStore.refreshed.sourceConfig.maxItems = .ok [] := by
    simp only [Remote.parseGithub,decode,read]
    rfl
  simp only [RemoteServices.GithubService.refresh,RemoteServices.GithubService.accept,parsed]
  rfl

-- Everything is there, and then all of it goes away again.
def evening : List Report :=
  [.ready,.hyprland (.array [laptop]) (.array [firstWorkspace]) .null,
   .github (RemoteStore.start bootConfig RemoteStore.watched).github RemoteStore.noon (.response RemoteStore.full),
   .media Mpris.opened Mpris.playing,.hyprlandLost (some (text "connection refused")),.mediaLost (some (text "disconnected")),
   .github RemoteStore.refreshed RemoteStore.later (.response noIssues),
   .github RemoteStore.refreshed RemoteStore.later (.failed RemoteStore.unresolvedHost),
   .audioLost (text "audio server connection failed"),.systemFailed (some (text "not enough memory")),
   .hyprland (.array []) (.array []) .null]

theorem checked {report : Report} {fields : List (Bytes × Doc)} (same : report.fields observed = fields)
    (ok : (fields.map Prod.fst).Nodup ∧ layableMembers fields = true ∧ legibleMembers fields = true) :
    Sendable observed report ∧ Sends observed (legible · = true) report := by
  subst same
  exact ⟨⟨ok.1,ok.2.1⟩,fun field listed => ((legibleMembers_iff _).mp ok.2.2 field listed).2⟩

theorem evening_sent : ∀ report ∈ evening, Sendable observed report ∧ Sends observed (legible · = true) report := by
  simp only [evening,List.forall_mem_cons]
  refine ⟨?_,?_,?_,?_,?_,?_,?_,?_,?_,?_,?_,by simp⟩
  · exact checked rfl (by decide +kernel)
  · exact checked (congrArg Hyprland.Patch.fields laptop_seen) (by decide +kernel)
  · exact checked (congrArg Prod.snd RemoteStore.full_refreshed) (by decide +kernel)
  · exact checked rfl (by decide +kernel)
  · exact checked rfl (by decide +kernel)
  · exact checked rfl (by decide +kernel)
  · exact checked none_listed (by decide +kernel)
  · exact checked rfl (by decide +kernel)
  · exact checked rfl (by decide +kernel)
  · exact checked rfl (by decide +kernel)
  · have none : Hyprland.snapshot observed.sorting (.array []) (.array []) .null =
        { Hyprland.unavailable none with available := true } := by
      have sorted {α : Type} (less : α → α → Bool) : observed.sorting.sort less [] = [] :=
        List.perm_nil.mp (observed.sorting.permutes less [])
      simp only [Hyprland.snapshot,Hyprland.sortedArray,Hyprland.items,List.filter_nil,List.map_nil,sorted]
      rfl
    exact checked (congrArg Hyprland.Patch.fields none) (by decide +kernel)

-- Lists come and go, sources are found and lost.
theorem emptied_schema_stable :
    Throughout (Reports.apply observed)
      (fun system =>
        Publishes JsonText.reference snapshotSchema (snapshotBuilt system.store.snapshot) system.store.heap ∧
        Publishes JsonText.reference stateSchema (stateBuilt system.store.snapshot) system.store.heap)
      (boot bootConfig RemoteStore.watched) (deliveries observed (boot bootConfig RemoteStore.watched) evening) ∧
    Throughout (Reports.apply observed)
      (fun system =>
        (∃ s, encodeBuilt JsonText.reference (snapshotBuilt system.store.snapshot) system.store.heap = .ok s) ∧
        ∃ s, encodeState JsonText.reference system.store = .ok s)
      (boot bootConfig RemoteStore.watched) (deliveries observed (boot bootConfig RemoteStore.watched) evening) := by
  obtain ⟨published,written⟩ := published_schema_stable observed bootConfig RemoteStore.watched
    (deliveries observed (boot bootConfig RemoteStore.watched) evening)
    (deliveries_possible observed (new_stable bootConfig RemoteStore.watched fun _ _ _ => trivial)
      fun report listed => (evening_sent report listed).1)
  exact ⟨published,written ⟨by decide,by decide⟩ (deliveries_send fun report listed => (evening_sent report listed).2)⟩

end Hypringo.SchemaStability

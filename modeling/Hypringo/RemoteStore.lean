import Hypringo.Doctor
import Hypringo.RemoteServices
import Hypringo.Runs
import Hypringo.Unpacking

namespace Hypringo.RemoteStore
open Hypringo.Lua Hypringo.Configuration Json Document State StateMerge StateDelivery Doctor Remote RemoteServices
  Unpacking

-- The two remote services and the store their patches go to. A service is the
-- only sender of its domain and its patches arrive in order, so one still on
-- its way only delays what the store shows: an attempt and the merge of its
-- patch are one step. The attempts are a record, read by no code.
structure System where
  weather : WeatherService
  github : GithubService
  store : Store
  weatherAttempts : List (Verdict Weather)
  githubAttempts : List (Verdict (List Notification))

def start (configPath : Bytes) (config : Config) : System where
  weather := ⟨config.sources.weather,Poll.initial⟩
  github := ⟨config.sources.github,Poll.initial,none⟩
  store := new configPath config
  weatherAttempts := []
  githubAttempts := []

-- `h` and `p` say where a patch, if one is sent, has been unpacked.
inductive Event where
  | weather (clock : Clock) (wakeup : Wakeup) (reply : Reply) (h : Heap) (p : Address)
  | github (clock : Clock) (wakeup : Wakeup) (reply : Reply) (h : Heap) (p : Address)
  | reloadWeather (config : Configuration.Remote) (clock : Clock)
  | reloadGithub (config : Configuration.Github) (clock : Clock)
  | quit
  | other (domain : Domain) (h : Heap) (p : Address)

def deliver (store : Store) (domain : Domain) (h : Heap) (p : Address) : Store :=
  (merge ⟨store.snapshot,h⟩ domain.name (.table p)).2

section

variable (y : Yyjson) (getenv : Bytes → Option Bytes)

def applyWeather (system : System) (clock : Clock) (wakeup : Wakeup) (reply : Reply) (h : Heap) (p : Address) : System :=
  match system.weather.idle y clock wakeup reply with
  | (service,none) => { system with weather := service }
  | (service,some _) =>
    { system with
      weather := service
      store := deliver system.store .weather h p
      weatherAttempts := system.weatherAttempts ++ [weatherVerdict y clock reply] }

def applyGithub (system : System) (clock : Clock) (wakeup : Wakeup) (reply : Reply) (h : Heap) (p : Address) : System :=
  match system.github.idle y getenv clock wakeup reply with
  | (service,none) => { system with github := service }
  | (service,some _) =>
    { system with
      github := service
      store := deliver system.store .github h p
      githubAttempts := system.githubAttempts ++
        [githubVerdict y getenv system.github (Verdict.anySuccess system.githubAttempts) clock reply] }

def apply (system : System) : Event → System
  | .weather clock wakeup reply h p => applyWeather y system clock wakeup reply h p
  | .github clock wakeup reply h p => applyGithub y getenv system clock wakeup reply h p
  | .reloadWeather config clock => { system with weather := system.weather.reload config clock }
  | .reloadGithub config clock => { system with github := system.github.reload config clock }
  | .quit =>
    { system with
      weather := { system.weather with poll := { system.weather.poll with stopping := true } }
      github := { system.github with poll := { system.github.poll with stopping := true } } }
  | .other domain h p => { system with store := deliver system.store domain h p }

def Possible (system : System) : Event → Prop
  | .weather clock wakeup reply h p => 0 < clock.now ∧
      ∀ patch, (system.weather.idle y clock wakeup reply).2 = some patch → Packed system.store.heap h p patch
  | .github clock wakeup reply h p => 0 < clock.now ∧
      ∀ patch, (system.github.idle y getenv clock wakeup reply).2 = some patch → Packed system.store.heap h p patch
  | .reloadWeather _ _ => True
  | .reloadGithub _ _ => True
  | .quit => True
  | .other domain h p => domain ≠ .weather ∧ domain ≠ .github ∧ Parcel system.store.heap h p

end

def held (store : Store) (domain : Domain) (name : String) : Value :=
  (store.snapshot.state domain).get (.string (text name))

-- What the store and the doctor say of a source, against the attempts made.
structure Reports {α : Type} (store : Store) (source : Doctor.Source) (fields : α → Patch) (initial : α)
    (attempts : List (Verdict α)) : Prop where
  available : held store source.domain "available" = .boolean (Verdict.anySuccess attempts)
  failures : (held store source.domain "failures").rawEqual (.integer (Int64.ofNat (Verdict.failures attempts))) = true
  stale : held store source.domain "stale" =
    .boolean (Verdict.anySuccess attempts && decide (0 < Verdict.failures attempts))
  lastSuccess : (held store source.domain "last_success_at").rawEqual (.integer (Verdict.lastSuccess attempts)) = true
  data : ∀ field ∈ fields (Verdict.latest Verdict.body initial attempts),
    Shows store.heap ((store.snapshot.state source.domain).get (.string field.1)) field.2
  health : ∀ config, source.enabled config = true → ∀ latest, attempts.getLast? = some latest →
    ∃ health, sourceHealth config store.heap store.snapshot.state source = .ok health ∧
      health.status = if latest.success then .ready else .degraded

def metadataNames : List Bytes := (successMetadata 0 0).map Prod.fst

theorem successMetadata_names (delay now : Int64) : (successMetadata delay now).map Prod.fst = metadataNames := rfl

theorem failurePatch_names (message : Bytes) (failures lastSuccessAt delay now : Int64) :
    ((failurePatch message failures lastSuccessAt delay now).map Prod.fst) ⊆ metadataNames := by
  simp only [failurePatch,List.map_cons,List.map_nil]
  decide

-- What a source's data fields have to be for the patches to be merged as sent.
structure Neat {α : Type} (domain : Domain) (fields : α → Patch) : Prop where
  whole : ∀ data, ∀ field ∈ fields data, stored domain field.1 field.2 = field.2
  apart : ∀ data, ∀ field ∈ fields data, field.1 ∉ metadataNames

theorem stored_boolean (domain : Domain) (name : Bytes) (b : Bool) : stored domain name (.boolean b) = .boolean b := by
  simp [stored,transit,emptyObject]

theorem stored_sint (domain : Domain) (name : Bytes) (i : Int) : stored domain name (.sint i) = .sint i := by
  simp [stored,transit,emptyObject]

theorem stored_string (domain : Domain) (name s : Bytes) : stored domain name (.string s) = .string s := by
  simp [stored,transit,emptyObject]

section

variable {store after : Store} {domain : Domain} {h : Heap} {p : Address} {patch : Patch}

theorem sent_boolean (accepted : Accepted store domain h p after) (packed : Packed store.heap h p patch) {name : String}
    {b : Bool} (listed : (text name,Doc.boolean b) ∈ patch) : held after domain name = .boolean b := by
  have seen := accepted.shows packed listed
  rw [stored_boolean] at seen
  exact seen.boolean

theorem sent_integer (accepted : Accepted store domain h p after) (packed : Packed store.heap h p patch) {name : String}
    {i : Int64} (listed : (text name,Doc.sint i.toInt) ∈ patch) : (held after domain name).rawEqual (.integer i) = true := by
  have seen := accepted.shows packed listed
  rw [stored_sint] at seen
  exact seen.integer

theorem data_sent {α : Type} {fields : α → Patch} (neat : Neat domain fields)
    (accepted : Accepted store domain h p after) (packed : Packed store.heap h p patch) {data : α}
    (sent : ∀ field ∈ fields data, field ∈ patch) :
    ∀ field ∈ fields data, Shows after.heap ((after.snapshot.state domain).get (.string field.1)) field.2 := by
  intro field member
  have seen := accepted.shows packed (sent field member)
  rwa [neat.whole data field member] at seen

theorem data_kept {α : Type} {fields : α → Patch} (neat : Neat domain fields) (orderly : Orderly store)
    (accepted : Accepted store domain h p after) (packed : Packed store.heap h p patch)
    (metadata : patch.map Prod.fst ⊆ metadataNames) {data : α}
    (before : ∀ field ∈ fields data, Shows store.heap ((store.snapshot.state domain).get (.string field.1)) field.2) :
    ∀ field ∈ fields data, Shows after.heap ((after.snapshot.state domain).get (.string field.1)) field.2 := by
  intro field member
  rw [accepted.kept packed (fun listed => neat.apart data field member (metadata listed))]
  exact (before field member).extends orderly.closed (packed.grown.trans accepted.grown)

end

def IsRemote (source : Doctor.Source) : Prop := source = .weather ∨ source = .github

theorem remote_health {store : Store} {source : Doctor.Source} (remote : IsRemote source) {config : Config}
    (enabled : source.enabled config = true) {available stale : Bool}
    (isAvailable : held store source.domain "available" = .boolean available)
    (isStale : held store source.domain "stale" = .boolean stale) :
    ∃ health, sourceHealth config store.heap store.snapshot.state source = .ok health ∧
      health.status = if available && !stale then .ready else .degraded := by
  have row : sourceHealth config store.heap store.snapshot.state source =
      .ok (remoteHealth true (store.snapshot.state source.domain)) := by
    rcases remote with rfl | rfl <;> simp only [sourceHealth,enabled]
  refine ⟨_,row,?_⟩
  unfold held at isAvailable isStale
  simp only [remoteHealth,isAvailable,isStale,status]
  cases available <;> cases stale <;> rfl

theorem reports_success {α : Type} {store after : Store} {source : Doctor.Source} {fields : α → Patch} {initial : α}
    {h : Heap} {p : Address} {patch : Patch} (remote : IsRemote source)
    (packed : Packed store.heap h p patch) (accepted : Accepted store source.domain h p after)
    (attempts : List (Verdict α)) {delay now : Int64} (body : Option α)
    (metadata : ∀ field ∈ successMetadata delay now, field ∈ patch)
    (data : ∀ field ∈ fields (Verdict.latest Verdict.body initial (attempts ++ [.succeeded now body])),
      Shows after.heap ((after.snapshot.state source.domain).get (.string field.1)) field.2) :
    Reports after source fields initial (attempts ++ [.succeeded now body]) := by
  have any : Verdict.anySuccess (attempts ++ [.succeeded now body]) = true := by
    simp [Verdict.anySuccess_append,Verdict.success]
  have none : Verdict.failures (attempts ++ [.succeeded now body]) = 0 := by
    simp [Verdict.failures_append,Verdict.success]
  have last : Verdict.lastSuccess (attempts ++ [.succeeded now body]) = now := Verdict.latest_append _ _ _ _
  have available : held after source.domain "available" = .boolean true :=
    sent_boolean accepted packed (metadata _ (by simp [successMetadata]))
  have stale : held after source.domain "stale" = .boolean false :=
    sent_boolean accepted packed (metadata _ (by simp [successMetadata]))
  have failures : (held after source.domain "failures").rawEqual (.integer 0) = true :=
    sent_integer accepted packed (metadata _ (by simp [successMetadata]))
  have lastSuccess : (held after source.domain "last_success_at").rawEqual (.integer now) = true :=
    sent_integer accepted packed (metadata _ (by simp [successMetadata]))
  refine ⟨by rw [any]; exact available,by rw [none]; exact failures,by rw [any,none]; exact stale,
    by rw [last]; exact lastSuccess,data,?_⟩
  intro config enabled latest isLast
  obtain ⟨health,row,status⟩ := remote_health remote enabled available stale
  refine ⟨health,row,?_⟩
  rw [status]
  simp only [List.getLast?_concat,Option.some.injEq] at isLast
  subst isLast
  rfl

-- One attempt, whatever came of it, moves the report on by one.
theorem Reports.attempt {α : Type} {store after : Store} {source : Doctor.Source} {fields : α → Patch} {initial : α}
    {attempts : List (Verdict α)} {verdict : Verdict α} {h : Heap} {p : Address} {patch : Patch}
    (reports : Reports store source fields initial attempts) (remote : IsRemote source)
    (neat : Neat source.domain fields) (orderly : Orderly store)
    (clock : 0 < Verdict.lastSuccess attempts ↔ Verdict.anySuccess attempts = true)
    (describes : Describes fields attempts verdict patch) (packed : Packed store.heap h p patch)
    (accepted : Accepted store source.domain h p after) :
    Reports after source fields initial (attempts ++ [verdict]) := by
  have flag : ∀ {name : String} {b : Bool}, (text name,Doc.boolean b) ∈ patch → held after source.domain name = .boolean b :=
    fun listed => sent_boolean accepted packed listed
  have number : ∀ {name : String} {i : Int64}, (text name,Doc.sint i.toInt) ∈ patch →
      (held after source.domain name).rawEqual (.integer i) = true :=
    fun listed => sent_integer accepted packed listed
  have keeps : ∀ name, text name ∉ patch.map Prod.fst → held after source.domain name = held store source.domain name :=
    fun _ outside => accepted.kept packed outside
  cases describes with
  | failed message delay now =>
    have any : Verdict.anySuccess (attempts ++ [Verdict.failed]) = Verdict.anySuccess attempts := by
      simp [Verdict.anySuccess_append,Verdict.success]
    have some : 0 < Verdict.failures (attempts ++ [Verdict.failed]) := by
      simp [Verdict.failures_append,Verdict.success]
    have last : Verdict.lastSuccess (attempts ++ [Verdict.failed]) = Verdict.lastSuccess attempts :=
      Verdict.latest_append _ _ _ _
    have body : Verdict.latest Verdict.body initial (attempts ++ [Verdict.failed]) =
        Verdict.latest Verdict.body initial attempts := Verdict.latest_append _ _ _ _
    have available : held after source.domain "available" = .boolean (Verdict.anySuccess (attempts ++ [.failed])) := by
      rw [keeps "available" (by simp only [failurePatch,List.map_cons,List.map_nil]; decide),any]
      exact reports.available
    have stale : held after source.domain "stale" =
        .boolean (Verdict.anySuccess (attempts ++ [.failed]) && decide (0 < Verdict.failures (attempts ++ [.failed]))) := by
      have sent : held after source.domain "stale" = .boolean (decide (0 < Verdict.lastSuccess attempts)) :=
        flag (by simp [failurePatch])
      have clocked : decide (0 < Verdict.lastSuccess attempts) = Verdict.anySuccess attempts := by
        rw [Bool.eq_iff_iff,decide_eq_true_iff]
        exact clock
      simp only [sent,clocked,any,some,decide_true,Bool.and_true]
    refine ⟨available,number (by simp [failurePatch]),stale,?_,?_,?_⟩
    · rw [keeps "last_success_at" (by simp only [failurePatch,List.map_cons,List.map_nil]; decide),last]
      exact reports.lastSuccess
    · rw [body]
      exact data_kept neat orderly accepted packed (failurePatch_names _ _ _ _ _) reports.data
    · intro config enabled latest isLast
      obtain ⟨health,row,status⟩ := remote_health remote enabled available stale
      refine ⟨health,row,?_⟩
      rw [status]
      simp only [List.getLast?_concat,Option.some.injEq] at isLast
      subst isLast
      simp [some,Verdict.success]
  | body data delay now =>
    have body : Verdict.latest Verdict.body initial (attempts ++ [.succeeded now (some data)]) = data :=
      Verdict.latest_append _ _ _ _
    refine reports_success remote packed accepted attempts (some data)
      (fun _ member => List.mem_append_right (fields data) member) ?_
    rw [body]
    exact data_sent neat accepted packed (fun _ member => List.mem_append_left _ member)
  | unchanged delay now earlier =>
    have body : Verdict.latest Verdict.body initial (attempts ++ [.succeeded now none]) =
        Verdict.latest Verdict.body initial attempts := Verdict.latest_append _ _ _ _
    refine reports_success remote packed accepted attempts none (fun field member => member) ?_
    rw [body]
    exact data_kept neat orderly accepted packed (by rw [successMetadata_names]; exact fun _ member => member) reports.data

-- A merge into another domain leaves the report as it is.
theorem Reports.frame {α : Type} {store after : Store} {source : Doctor.Source} {fields : α → Patch} {initial : α}
    {attempts : List (Verdict α)} (reports : Reports store source fields initial attempts) (remote : IsRemote source)
    (closed : store.heap.Closed) (grown : store.heap.Extends after.heap)
    (same : after.snapshot.state source.domain = store.snapshot.state source.domain) :
    Reports after source fields initial attempts := by
  have fixed : ∀ name, held after source.domain name = held store source.domain name := by
    intro name
    simp only [held,same]
  refine ⟨?_,?_,?_,?_,?_,?_⟩
  · rw [fixed]
    exact reports.available
  · rw [fixed]
    exact reports.failures
  · rw [fixed]
    exact reports.stale
  · rw [fixed]
    exact reports.lastSuccess
  · intro field member
    rw [same]
    exact (reports.data field member).extends closed grown
  · intro config enabled latest isLast
    obtain ⟨health,row,status⟩ := reports.health config enabled latest isLast
    refine ⟨health,?_,status⟩
    rw [← row]
    rcases remote with rfl | rfl <;> simp only [sourceHealth,same]

theorem weather_neat : Neat .weather Weather.fields := by
  constructor
  · intro data field member
    simp only [Weather.fields,List.mem_cons,List.not_mem_nil,or_false] at member
    rcases member with rfl | rfl | rfl | rfl | rfl | rfl | rfl <;> exact stored_string _ _ _
  · intro data field member
    have names : ∀ name ∈ (Weather.fields ⟨[],[],[],[],[],[],[]⟩).map Prod.fst, name ∉ metadataNames := by decide
    exact names field.1 (List.mem_map_of_mem (f := Prod.fst) (l := Weather.fields data) member)

theorem transit_notification (notification : Notification) :
    transit notification.document = notification.document := by
  simp [Notification.document,transit,transitMembers]

theorem transit_notifications (notifications : List Notification) :
    transitItems (notifications.map Notification.document) = notifications.map Notification.document := by
  induction notifications with
  | nil => rfl
  | cons notification rest ih => simp only [List.map_cons,transitItems,transit_notification,ih]

theorem github_neat : Neat .github githubFields := by
  constructor
  · intro data field member
    simp only [githubFields,List.mem_singleton] at member
    subst member
    cases data with
    | nil => rfl
    | cons notification rest =>
      simp only [notificationsField,List.map_cons,stored,transit,emptyObject,Bool.and_false,Bool.false_eq_true,if_false,
        transit_notification,transit_notifications]
  · intro data field member
    simp only [githubFields,List.mem_singleton] at member
    subst member
    change text "notifications" ∉ metadataNames
    decide

def noWeather : Weather := ⟨[],[],[],[],[],[],[]⟩

structure Invariant (system : System) : Prop where
  orderly : Orderly system.store
  weatherCounts : Counts system.weather.poll system.weatherAttempts
  githubCounts : Counts system.github.poll system.githubAttempts
  weather : Reports system.store .weather Weather.fields noWeather system.weatherAttempts
  github : Reports system.store .github githubFields [] system.githubAttempts

theorem deliver_accepted {store : Store} (orderly : Orderly store) (domain : Domain) {h : Heap} {p : Address}
    (parcel : Parcel store.heap h p) : Accepted store domain h p (deliver store domain h p) := by
  obtain ⟨result,after,merged,accepted⟩ := merge_accepted orderly domain parcel
  rw [deliver,merged]
  exact accepted

theorem weather_invariant {y : Yyjson} {system : System} (invariant : Invariant system) {clock : Clock} {wakeup : Wakeup}
    {reply : Reply} {h : Heap} {p : Address} (positive : 0 < clock.now)
    (arrives : ∀ patch, (system.weather.idle y clock wakeup reply).2 = some patch → Packed system.store.heap h p patch) :
    Invariant (applyWeather y system clock wakeup reply h p) := by
  unfold applyWeather
  cases due : system.weather.poll.due clock with
  | false =>
    simp only [WeatherService.idle,due,Bool.false_eq_true,if_false]
    exact ⟨invariant.orderly,invariant.weatherCounts.waited clock wakeup,invariant.githubCounts,invariant.weather,
      invariant.github⟩
  | true =>
    simp only [WeatherService.idle,due,if_true] at arrives ⊢
    have packed := arrives _ rfl
    have accepted := deliver_accepted invariant.orderly .weather packed.parcel
    obtain ⟨counts,describes⟩ := weather_refresh y invariant.weatherCounts positive reply
    refine ⟨accepted.orderly,counts,invariant.githubCounts,?_,?_⟩
    · exact invariant.weather.attempt (.inl rfl) weather_neat invariant.orderly invariant.weatherCounts.clock
        describes packed accepted
    · exact invariant.github.frame (.inr rfl) invariant.orderly.closed (packed.grown.trans accepted.grown)
        (accepted.domains .github (by decide))

theorem github_invariant {y : Yyjson} {getenv : Bytes → Option Bytes} {system : System} (invariant : Invariant system)
    {clock : Clock} {wakeup : Wakeup} {reply : Reply} {h : Heap} {p : Address} (positive : 0 < clock.now)
    (arrives : ∀ patch, (system.github.idle y getenv clock wakeup reply).2 = some patch →
      Packed system.store.heap h p patch) :
    Invariant (applyGithub y getenv system clock wakeup reply h p) := by
  unfold applyGithub
  cases due : system.github.poll.due clock with
  | false =>
    simp only [GithubService.idle,due,Bool.false_eq_true,if_false]
    exact ⟨invariant.orderly,invariant.weatherCounts,invariant.githubCounts.waited clock wakeup,invariant.weather,
      invariant.github⟩
  | true =>
    simp only [GithubService.idle,due,if_true] at arrives ⊢
    have packed := arrives _ rfl
    have accepted := deliver_accepted invariant.orderly .github packed.parcel
    obtain ⟨counts,describes⟩ := github_refresh y getenv invariant.githubCounts positive reply
    refine ⟨accepted.orderly,invariant.weatherCounts,counts,?_,?_⟩
    · exact invariant.weather.frame (.inl rfl) invariant.orderly.closed (packed.grown.trans accepted.grown)
        (accepted.domains .weather (by decide))
    · exact invariant.github.attempt (.inr rfl) github_neat invariant.orderly invariant.githubCounts.clock
        describes packed accepted

theorem apply_invariant (y : Yyjson) (getenv : Bytes → Option Bytes) (system : System) (event : Event)
    (invariant : Invariant system) (possible : Possible y getenv system event) :
    Invariant (apply y getenv system event) := by
  cases event with
  | weather clock wakeup reply h p => exact weather_invariant invariant possible.1 possible.2
  | github clock wakeup reply h p => exact github_invariant invariant possible.1 possible.2
  | reloadWeather config clock =>
    exact ⟨invariant.orderly,invariant.weatherCounts.same rfl rfl,invariant.githubCounts,invariant.weather,invariant.github⟩
  | reloadGithub config clock =>
    exact ⟨invariant.orderly,invariant.weatherCounts,invariant.githubCounts.same rfl rfl,invariant.weather,invariant.github⟩
  | quit =>
    exact ⟨invariant.orderly,invariant.weatherCounts.same rfl rfl,invariant.githubCounts.same rfl rfl,invariant.weather,
      invariant.github⟩
  | other domain h p =>
    obtain ⟨notWeather,notGithub,parcel⟩ := possible
    have accepted := deliver_accepted invariant.orderly domain parcel
    have grown := parcel.grown.trans accepted.grown
    exact ⟨accepted.orderly,invariant.weatherCounts,invariant.githubCounts,
      invariant.weather.frame (.inl rfl) invariant.orderly.closed grown (accepted.domains .weather (Ne.symm notWeather)),
      invariant.github.frame (.inr rfl) invariant.orderly.closed grown (accepted.domains .github (Ne.symm notGithub))⟩

theorem start_invariant (configPath : Bytes) (config : Config) : Invariant (start configPath config) := by
  have orderly := new_orderly configPath config
  refine ⟨orderly,.initial,.initial,?_,?_⟩
  · refine ⟨rfl,rfl,rfl,rfl,?_,by simp [start]⟩
    intro field member
    simp only [start,Verdict.latest,List.filterMap_nil,List.getLast?_nil,Option.getD_none,noWeather,Weather.fields,
      List.mem_cons,List.not_mem_nil,or_false] at member
    have blank : Shows (new configPath config).heap empty (.string []) :=
      .of_document trivial rfl (document_scalar rfl 0)
    rcases member with rfl | rfl | rfl | rfl | rfl | rfl | rfl <;> exact blank
  · refine ⟨rfl,rfl,rfl,rfl,?_,by simp [start]⟩
    intro field member
    simp only [start,Verdict.latest,List.filterMap_nil,List.getLast?_nil,Option.getD_none,githubFields,
      List.mem_singleton] at member
    subst member
    exact marked_empty_shows (h := (new configPath config).heap) (a := 8) (show 8 < 13 by decide)
      (show 8 ≠ 0 by decide) rfl rfl

-- In every state of every run the store and the doctor tell the attempts made.
theorem remote_run_reported (y : Yyjson) (getenv : Bytes → Option Bytes) (configPath : Bytes) (config : Config)
    (events : List Event)
    (possible : Runs.Each (apply y getenv) (Possible y getenv) (start configPath config) events) :
    Runs.Throughout (apply y getenv)
      (fun system =>
        Reports system.store .weather Weather.fields noWeather system.weatherAttempts ∧
        Reports system.store .github githubFields [] system.githubAttempts)
      (start configPath config) events := by
  have all := Runs.throughout_invariant (apply_invariant y getenv) (start_invariant configPath config) possible
  exact Runs.throughout_imp (fun _ invariant => ⟨invariant.weather,invariant.github⟩) all

def noon : Clock := ⟨43200,4320000⟩

def unresolvedHost : Bytes := text "Could not resolve host"

def watched : Config :=
  { allSources with
    sources := { allSources.sources with
      github := { allSources.sources.github with
        enabled := true, url := some (text "https://api.github.com/notifications") } } }

def token (name : Bytes) : Option Bytes := if name = text "HYPRINGO_GITHUB_TOKEN" then some (text "secret") else none

def issue (id : String) : Doc :=
  .object
    [(text "id",.string (text id)),
     (text "repository",.object [(text "full_name",.string (text "a/b"))]),
     (text "subject",.object [(text "title",.string (text "Crash")),(text "type",.string (text "Issue"))])]

def listed (id : String) : Notification :=
  ⟨text id,[],text "a/b",[],[],text "Crash",text "Issue",[],false,[]⟩

def issues : Bytes := JsonText.writeDoc (.array [issue "1",issue "2"])

def full : Response := ⟨200,⟨some (text "v1"),none,none,none,none⟩,issues⟩

def notModified : Response := ⟨304,⟨some (text "v1"),none,none,none,none⟩,[]⟩

theorem body_read {d : Doc} (ok : d.writable = true) :
    JsonText.reference.read (JsonText.writeDoc d) = .ok d.canonical := by
  refine write_ok (?_ : JsonText.write d = .ok (JsonText.writeDoc d))
  simp only [JsonText.write,ok,if_true]

def fullPatch : Patch := notificationsField [listed "1",listed "2"] :: successMetadata 60000 43200

theorem issues_read : JsonText.reference.read issues = .ok (.array [issue "1",issue "2"]) := body_read (by decide)

theorem issues_parsed : parseGithub JsonText.reference issues 50 = .ok [listed "1",listed "2"] := by
  simp only [parseGithub,decode,issues_read]
  rfl

def refreshed : GithubService := ⟨watched.sources.github,⟨4326000,0,43200,false⟩,some (text "v1")⟩

theorem full_refreshed : (start (text "config.lua") watched).github.refresh JsonText.reference token noon (.response full) =
    (refreshed,fullPatch) := by
  have parsed : parseGithub JsonText.reference full.body (start (text "config.lua") watched).github.sourceConfig.maxItems =
      .ok [listed "1",listed "2"] := issues_parsed
  simp only [GithubService.refresh,GithubService.accept,parsed]
  rfl

theorem full_verdict (any : Bool) : githubVerdict JsonText.reference token (start (text "config.lua") watched).github any noon
    (.response full) = .succeeded 43200 (some [listed "1",listed "2"]) := by
  have parsed : parseGithub JsonText.reference full.body (start (text "config.lua") watched).github.sourceConfig.maxItems =
      .ok [listed "1",listed "2"] := issues_parsed
  have secret : (start (text "config.lua") watched).github.token token = some (text "secret") := by rfl
  have changed : ¬full.status = 304 := by decide
  have success : successful full.status = true := by decide
  simp only [githubVerdict,secret,changed,if_false,success,if_true,parsed]
  rfl

-- Weather is refused; github answers, has nothing new, and is gone.
def later : Clock := ⟨43260,4326000⟩
def evening : Clock := ⟨43320,4332000⟩

def refusedPatch : Patch := failurePatch unresolvedHost 1 0 5000 43200
def unchangedPatch : Patch := successMetadata 60000 43260
def gonePatch : Patch := failurePatch unresolvedHost 1 43260 5000 43320

def booted : System := start (text "config.lua") watched

def githubEvent (system : System) (clock : Clock) (reply : Reply) (patch : Patch) : Event :=
  .github clock .timeout reply (unpackedHeap patch system.store.heap) (unpackedAt patch system.store.heap)

def refusedEvent : Event :=
  .weather noon .timeout (.failed unresolvedHost) (unpackedHeap refusedPatch booted.store.heap)
    (unpackedAt refusedPatch booted.store.heap)

def refused : System := apply JsonText.reference token booted refusedEvent
def fullEvent : Event := githubEvent refused noon (.response full) fullPatch
def filled : System := apply JsonText.reference token refused fullEvent
def unchangedEvent : Event := githubEvent filled later (.response notModified) unchangedPatch
def unchanged : System := apply JsonText.reference token filled unchangedEvent
def goneEvent : Event := githubEvent unchanged evening (.failed unresolvedHost) gonePatch
def gone : System := apply JsonText.reference token unchanged goneEvent

theorem refreshes {service : GithubService} {clock : Clock} (due : service.poll.due clock = true) (wakeup : Wakeup)
    (reply : Reply) : service.idle JsonText.reference token clock wakeup reply =
      ((service.refresh JsonText.reference token clock reply).1,
        some (service.refresh JsonText.reference token clock reply).2) := by
  simp only [GithubService.idle,due,if_true]

theorem github_allowed {system : System} (invariant : Invariant system) {service : GithubService} (held : system.github = service)
    {clock : Clock} {reply : Reply} {patch : Patch} (positive : 0 < clock.now) (due : service.poll.due clock = true)
    (sent : (service.refresh JsonText.reference token clock reply).2 = patch) (distinct : (patch.map Prod.fst).Nodup)
    (ok : layableMembers patch = true) : Possible JsonText.reference token system (githubEvent system clock reply patch) := by
  subst held
  refine ⟨positive,?_⟩
  intro other same
  rw [refreshes due,sent] at same
  cases same
  exact unpacked_packed invariant.orderly.closed distinct ok

theorem github_after {system : System} {service : GithubService} {attempts : List (Verdict (List Notification))}
    (held : system.github = service ∧ system.githubAttempts = attempts) (clock : Clock) (reply : Reply) (patch : Patch)
    (due : service.poll.due clock = true) :
    (apply JsonText.reference token system (githubEvent system clock reply patch)).github =
        (service.refresh JsonText.reference token clock reply).1 ∧
      (apply JsonText.reference token system (githubEvent system clock reply patch)).githubAttempts =
        attempts ++ [githubVerdict JsonText.reference token service (Verdict.anySuccess attempts) clock reply] := by
  obtain ⟨rfl,rfl⟩ := held
  simp only [apply,githubEvent,applyGithub,refreshes due,and_self]

theorem refused_allowed : Possible JsonText.reference token booted refusedEvent := by
  refine ⟨by decide,?_⟩
  intro patch sent
  cases sent
  exact unpacked_packed (initial_closed watched) (by decide) (by decide)

theorem refused_invariant : Invariant refused :=
  apply_invariant JsonText.reference token booted refusedEvent (start_invariant _ _) refused_allowed

theorem refused_github : refused.github = (start (text "config.lua") watched).github ∧ refused.githubAttempts = [] :=
  ⟨rfl,rfl⟩

theorem full_allowed : Possible JsonText.reference token refused fullEvent :=
  github_allowed refused_invariant refused_github.1 (by decide) rfl (congrArg Prod.snd full_refreshed) (by decide) (by decide)

theorem filled_invariant : Invariant filled :=
  apply_invariant JsonText.reference token refused fullEvent refused_invariant full_allowed

theorem filled_github : filled.github = refreshed ∧
    filled.githubAttempts = [.succeeded 43200 (some [listed "1",listed "2"])] := by
  have after := github_after refused_github noon (.response full) fullPatch rfl
  rw [full_refreshed,full_verdict] at after
  exact after

theorem unchanged_allowed : Possible JsonText.reference token filled unchangedEvent :=
  github_allowed filled_invariant filled_github.1 (by decide) rfl rfl (by decide) (by decide)

theorem unchanged_github : unchanged.github = { refreshed with poll := ⟨4332000,0,43260,false⟩ } ∧
    unchanged.githubAttempts = [.succeeded 43200 (some [listed "1",listed "2"]),.succeeded 43260 none] :=
  github_after filled_github later (.response notModified) unchangedPatch rfl

theorem unchanged_invariant : Invariant unchanged :=
  apply_invariant JsonText.reference token filled unchangedEvent filled_invariant unchanged_allowed

theorem gone_allowed : Possible JsonText.reference token unchanged goneEvent :=
  github_allowed unchanged_invariant unchanged_github.1 (by decide) rfl rfl (by decide) (by decide)

theorem gone_attempts : gone.githubAttempts =
    [.succeeded 43200 (some [listed "1",listed "2"]),.succeeded 43260 none,.failed] :=
  (github_after unchanged_github evening (.failed unresolvedHost) gonePatch rfl).2

def goneRun : List Event := [refusedEvent,fullEvent,unchangedEvent,goneEvent]

-- The last attempt leaves github stale, with both notifications still listed.
theorem gone_run_reported :
    (Runs.final (apply JsonText.reference token) (start (text "config.lua") watched) goneRun).githubAttempts =
      [.succeeded 43200 (some [listed "1",listed "2"]),.succeeded 43260 none,.failed] ∧
    Runs.Each (apply JsonText.reference token) (Possible JsonText.reference token) (start (text "config.lua") watched)
      goneRun ∧
    Runs.Throughout (apply JsonText.reference token)
      (fun system =>
        Reports system.store .weather Weather.fields noWeather system.weatherAttempts ∧
        Reports system.store .github githubFields [] system.githubAttempts)
      (start (text "config.lua") watched) goneRun := by
  have possible : Runs.Each (apply JsonText.reference token) (Possible JsonText.reference token)
      (start (text "config.lua") watched) goneRun :=
    ⟨refused_allowed,full_allowed,unchanged_allowed,gone_allowed,trivial⟩
  have last : Runs.final (apply JsonText.reference token) (start (text "config.lua") watched) goneRun = gone := by
    simp only [goneRun,Runs.final,gone,unchanged,filled,refused,booted]
  rw [last]
  exact ⟨gone_attempts,possible,
    remote_run_reported JsonText.reference token (text "config.lua") watched goneRun possible⟩

end Hypringo.RemoteStore

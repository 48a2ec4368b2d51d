import Hypringo.JsonText
import Hypringo.RemoteStore

namespace Hypringo.GithubCache
open Hypringo.Lua Hypringo.Configuration Json Document State StateMerge StateDelivery Remote RemoteServices
  RemoteStore Unpacking

-- What the server holds for the present url and token.
structure Representation where
  body : Bytes
  etag : Option Bytes
  deriving DecidableEq, Repr

-- The representation last taken over, and the configuration it was taken under.
structure Projection where
  representation : Representation
  config : Configuration.Github
  deriving DecidableEq, Repr

structure Cache where
  system : RemoteStore.System
  last : Option Projection

def start (configPath : Bytes) (config : Config) : Cache := ⟨RemoteStore.start configPath config,none⟩

-- A step of the system while the server holds `current`.
structure Event where
  event : RemoteStore.Event
  current : Representation

section

variable (y : Yyjson) (getenv : Bytes → Option Bytes)

def verdict (system : RemoteStore.System) (clock : Clock) (reply : Reply) : Verdict (List Notification) :=
  githubVerdict y getenv system.github (Verdict.anySuccess system.githubAttempts) clock reply

def taken (cache : Cache) (current : Representation) (clock : Clock) (reply : Reply) : Option Projection :=
  if cache.system.github.poll.due clock then match verdict y getenv cache.system clock reply with
    | .succeeded _ (some _) => some ⟨current,cache.system.github.sourceConfig⟩
    | _ => cache.last
  else cache.last

def apply (cache : Cache) (event : Event) : Cache where
  system := RemoteStore.apply y getenv cache.system event.event
  last := match event.event with
    | .github clock _ reply _ _ => taken y getenv cache event.current clock reply
    | _ => cache.last

-- A 304 answers the ETag of the current representation, a 2xx carries that
-- representation, and one resource never has one ETag for two bodies.
structure Honest (cache : Cache) (current : Representation) (response : Response) : Prop where
  unchanged : response.status = 304 → ∃ etag, cache.system.github.etag = some etag ∧ current.etag = some etag
  carried : successful response.status = true → response.body = current.body ∧ response.headers.etag = current.etag
  distinct : ∀ last etag, cache.last = some last → last.config.url = cache.system.github.sourceConfig.url →
    last.config.tokenEnv = cache.system.github.sourceConfig.tokenEnv →
    last.representation.etag = some etag → current.etag = some etag → last.representation.body = current.body

def Possible (cache : Cache) (event : Event) : Prop :=
  RemoteStore.Possible y getenv cache.system event.event ∧
    match event.event with
    | .github _ _ (.response response) _ _ => Honest cache event.current response
    | _ => True

-- Right after a successful refresh the store holds the projection of the
-- current representation under the present configuration.
def Exact (cache : Cache) (event : Event) : Prop :=
  match event.event with
  | .github clock _ reply _ _ =>
    cache.system.github.poll.due clock = true → (verdict y getenv cache.system clock reply).success = true →
    ∃ notifications,
      parseGithub y event.current.body cache.system.github.sourceConfig.maxItems = .ok notifications ∧
      notifications.length ≤ cache.system.github.sourceConfig.maxItems ∧
      Shows (apply y getenv cache event).system.store.heap
        (held (apply y getenv cache event).system.store .github "notifications")
        (.array (notifications.map Notification.document))
  | _ => True

def itemCount (body : Bytes) : Nat :=
  match decode y body with
  | .ok (.array items) => items.length
  | _ => 0

-- A 304 keeps what was projected before: as many entries as max_items let
-- through then, which has to be as many as it lets through now.
def Agreed (cache : Cache) (event : Event) : Prop :=
  match event.event with
  | .github clock _ reply _ _ =>
    cache.system.github.poll.due clock = true → ∀ now, verdict y getenv cache.system clock reply = .succeeded now none →
    ∀ last, cache.last = some last →
      min (itemCount y event.current.body) last.config.maxItems =
        min (itemCount y event.current.body) cache.system.github.sourceConfig.maxItems
  | _ => True

end

theorem parseGithub_ok {y : Yyjson} {body : Bytes} {maximum : Nat} {notifications : List Notification}
    (parsed : parseGithub y body maximum = .ok notifications) :
    ∃ items, decode y body = .ok (.array items) ∧ projectItems items maximum = .ok notifications := by
  obtain ⟨value,decoded,rest⟩ := Raise.bind_ok.mp parsed
  obtain ⟨items,array,projected⟩ := Raise.bind_ok.mp rest
  cases value with
  | array found =>
    cases array
    exact ⟨items,decoded,projected⟩
  | _ => cases array

theorem parseGithub_length {y : Yyjson} {body : Bytes} {maximum : Nat} {notifications : List Notification}
    (parsed : parseGithub y body maximum = .ok notifications) :
    notifications.length = min (itemCount y body) maximum := by
  obtain ⟨items,decoded,projected⟩ := parseGithub_ok parsed
  have lengths := (Raise.mapM_ok.mp projected).length_eq
  simp only [List.length_zipIdx,List.length_take] at lengths
  simp only [itemCount,decoded]
  omega

-- The limit only matters through the number of entries it lets through.
theorem parseGithub_agreed {y : Yyjson} {body : Bytes} {maximum other : Nat} {notifications : List Notification}
    (parsed : parseGithub y body maximum = .ok notifications)
    (agreed : min (itemCount y body) maximum = min (itemCount y body) other) :
    parseGithub y body other = .ok notifications := by
  obtain ⟨items,decoded,projected⟩ := parseGithub_ok parsed
  simp only [itemCount,decoded] at agreed
  have same : items.take other = items.take maximum := by
    rw [List.take_eq_take_iff]
    omega
  refine Raise.bind_ok.mpr ⟨_,decoded,Raise.bind_ok.mpr ⟨items,rfl,?_⟩⟩
  rw [projectItems,same]
  exact projected

theorem Same.keys {h : Heap} {a b : Address} (same : Same h (.table a) (.table b)) (key : Value) :
    (h.table a).get key ≠ .nil ↔ (h.table b).get key ≠ .nil := by
  cases same with
  | equal equal =>
    have identical := Value.rawEqual_table.mp equal
    injection identical with identical
    rw [identical]
  | table _ each => exact not_congr (each key).nil_iff

theorem shows_array {h : Heap} {v : Value} {items : List Doc} (seen : Shows h v (.array items)) :
    ∃ a, v = .table a ∧ Dense (h.table a) items.length := by
  obtain ⟨w,room,_,same,found⟩ := seen.like
  cases w with
  | table b =>
    have proper : b ≠ h.null := by
      intro null
      rw [null,document_null] at found
      cases found
    cases room with
    | zero =>
      unfold document at found
      simp [proper] at found
    | succ room =>
      rw [document_table proper] at found
      cases encodeTable_written found with
      | array _ dense _ _ =>
        have table : ∃ a, v = .table a := by
          cases same with
          | equal equal => exact ⟨b,Value.rawEqual_table.mp equal⟩
          | table _ _ => exact ⟨_,rfl⟩
        obtain ⟨a,rfl⟩ := table
        refine ⟨a,rfl,dense.bound,?_⟩
        intro key
        rw [Same.keys same key]
        exact dense.keys key
  | float f =>
    rw [document_scalar rfl,scalarDocument] at found
    split at found <;> cases found
  | _ => rw [document_scalar rfl] at found; cases found

theorem dense_unique {t : Table} {m n : Nat} (left : Dense t m) (right : Dense t n) : m = n := by
  have le : ∀ {m n : Nat}, Dense t m → Dense t n → m ≤ n := by
    intro m n left right
    by_contra more
    have key := (left.keys (arrayKey n)).mpr ⟨n,by omega,rfl⟩
    obtain ⟨index,bound,same⟩ := (right.keys (arrayKey n)).mp key
    have large := left.bound
    have equal := arrayKey_injective (by omega) (by omega) same
    omega
  exact Nat.le_antisymm (le left right) (le right left)

theorem shows_length {h : Heap} {v : Value} {items others : List Doc} (seen : Shows h v (.array items))
    (also : Shows h v (.array others)) : items.length = others.length := by
  obtain ⟨a,rfl,dense⟩ := shows_array seen
  obtain ⟨b,same,other⟩ := shows_array also
  injection same with same
  subst same
  exact dense_unique dense other

-- What a refresh can come to, seen from the cached ETag.
inductive Refreshed (y : Yyjson) (service after : GithubService) (reply : Reply) : Verdict (List Notification) → Prop
  | body (response : Response) (notifications : List Notification) (now : Int64) (answer : reply = .response response)
      (status : successful response.status = true)
      (parsed : parseGithub y response.body service.sourceConfig.maxItems = .ok notifications)
      (etag : after.etag = response.headers.etag) :
      Refreshed y service after reply (.succeeded now (some notifications))
  | unchanged (response : Response) (now : Int64) (answer : reply = .response response)
      (status : response.status = 304) (etag : after.etag = service.etag) :
      Refreshed y service after reply (.succeeded now none)
  | failed (etag : after.etag = service.etag) : Refreshed y service after reply .failed

theorem fail_config (service : GithubService) (message : Bytes) (headers : Option Headers) (clock : Clock) :
    (service.fail message headers clock).1.sourceConfig = service.sourceConfig := rfl

theorem fail_etag (service : GithubService) (message : Bytes) (headers : Option Headers) (clock : Clock) :
    (service.fail message headers clock).1.etag = service.etag := rfl

theorem accept_config (y : Yyjson) (service : GithubService) (clock : Clock) (response : Response) :
    (service.accept y clock response).1.sourceConfig = service.sourceConfig := by
  simp only [GithubService.accept]
  split
  · split
    · exact fail_config _ _ _ _
    · rfl
  · split
    · exact fail_config _ _ _ _
    · split
      · exact fail_config _ _ _ _
      · rfl

theorem refresh_config (y : Yyjson) (getenv : Bytes → Option Bytes) (service : GithubService) (clock : Clock)
    (reply : Reply) : (service.refresh y getenv clock reply).1.sourceConfig = service.sourceConfig := by
  cases headers : service.requestHeaders getenv with
  | error message => simp only [GithubService.refresh,headers,fail_config]
  | ok list =>
    cases reply with
    | raised message => simp only [GithubService.refresh,headers,fail_config]
    | failed message => simp only [GithubService.refresh,headers,fail_config]
    | response response => simp only [GithubService.refresh,headers,accept_config]

theorem refresh_refreshed (y : Yyjson) (getenv : Bytes → Option Bytes) {system : RemoteStore.System}
    (clock : Clock) (reply : Reply) (counts : Counts system.github.poll system.githubAttempts) :
    Refreshed y system.github (system.github.refresh y getenv clock reply).1 reply
      (verdict y getenv system clock reply) := by
  cases present : system.github.token getenv with
  | none =>
    simp only [verdict,githubVerdict,GithubService.refresh,GithubService.requestHeaders,present]
    exact .failed (fail_etag _ _ _ _)
  | some secret =>
    cases reply with
    | raised message =>
      simp only [verdict,githubVerdict,GithubService.refresh,GithubService.requestHeaders,present]
      exact .failed (fail_etag _ _ _ _)
    | failed message =>
      simp only [verdict,githubVerdict,GithubService.refresh,GithubService.requestHeaders,present]
      exact .failed (fail_etag _ _ _ _)
    | response response =>
      simp only [verdict,githubVerdict,GithubService.refresh,GithubService.requestHeaders,GithubService.accept,present]
      by_cases unchanged : response.status = 304
      · cases earlier : Verdict.anySuccess system.githubAttempts with
        | true =>
          have some : ¬system.github.poll.lastSuccessAt = 0 := fun none => absurd (counts.zero.mp none) (by simp [earlier])
          simp only [unchanged,if_true,some,if_false]
          exact .unchanged response _ rfl unchanged rfl
        | false =>
          have none : system.github.poll.lastSuccessAt = 0 := counts.zero.mpr earlier
          simp only [unchanged,if_true,none,Bool.false_eq_true,if_false]
          exact .failed (fail_etag _ _ _ _)
      · cases status : successful response.status with
        | false =>
          simp only [unchanged,Bool.not_false,Bool.false_eq_true,if_true,if_false]
          exact .failed (fail_etag _ _ _ _)
        | true =>
          cases parsed : parseGithub y response.body system.github.sourceConfig.maxItems with
          | error message =>
            simp only [unchanged,Bool.not_true,Bool.false_eq_true,if_true,if_false]
            exact .failed (fail_etag _ _ _ _)
          | ok notifications =>
            simp only [unchanged,Bool.not_true,Bool.false_eq_true,if_true,if_false]
            exact .body response notifications _ rfl status parsed rfl

structure Invariant (y : Yyjson) (cache : Cache) : Prop where
  base : RemoteStore.Invariant cache.system
  tagged : ∀ etag, cache.system.github.etag = some etag → ∃ last, cache.last = some last ∧
    last.representation.etag = some etag ∧ last.config.url = cache.system.github.sourceConfig.url ∧
    last.config.tokenEnv = cache.system.github.sourceConfig.tokenEnv
  projected : ∀ last, cache.last = some last → parseGithub y last.representation.body last.config.maxItems =
    .ok (Verdict.latest Verdict.body [] cache.system.githubAttempts)

theorem start_invariant (y : Yyjson) (configPath : Bytes) (config : Config) : Invariant y (start configPath config) := by
  refine ⟨RemoteStore.start_invariant configPath config,?_,?_⟩
  · intro etag found
    cases found
  · intro last found
    cases found

theorem wait_github (y : Yyjson) (getenv : Bytes → Option Bytes) {system : RemoteStore.System} {clock : Clock}
    (early : system.github.poll.due clock = false) (wakeup : Wakeup) (reply : Reply) (h : Heap) (p : Address) :
    applyGithub y getenv system clock wakeup reply h p =
      { system with github := { system.github with poll := system.github.poll.wait clock wakeup } } := by
  simp only [applyGithub,GithubService.idle,early,Bool.false_eq_true,if_false]

theorem refresh_github (y : Yyjson) (getenv : Bytes → Option Bytes) {system : RemoteStore.System} {clock : Clock}
    (due : system.github.poll.due clock = true) (wakeup : Wakeup) (reply : Reply) (h : Heap) (p : Address) :
    applyGithub y getenv system clock wakeup reply h p =
      { system with
        github := (system.github.refresh y getenv clock reply).1
        store := deliver system.store .github h p
        githubAttempts := system.githubAttempts ++ [verdict y getenv system clock reply] } := by
  simp only [applyGithub,GithubService.idle,due,if_true,verdict]

theorem github_step {y : Yyjson} {getenv : Bytes → Option Bytes} {cache : Cache} {clock : Clock} {wakeup : Wakeup}
    {reply : Reply} {h : Heap} {p : Address} {current : Representation} (invariant : Invariant y cache)
    (possible : Possible y getenv cache ⟨.github clock wakeup reply h p,current⟩) :
    Invariant y (apply y getenv cache ⟨.github clock wakeup reply h p,current⟩) := by
  have base := RemoteStore.apply_invariant y getenv _ _ invariant.base possible.1
  cases due : cache.system.github.poll.due clock with
  | false =>
    have system : (apply y getenv cache ⟨.github clock wakeup reply h p,current⟩) =
        ⟨{ cache.system with
          github := { cache.system.github with poll := cache.system.github.poll.wait clock wakeup } },cache.last⟩ := by
      simp only [apply,RemoteStore.apply,wait_github y getenv due,taken,due,Bool.false_eq_true,if_false]
    refine ⟨base,?_,?_⟩
    · rw [system]
      exact invariant.tagged
    · rw [system]
      exact invariant.projected
  | true =>
    have system : (apply y getenv cache ⟨.github clock wakeup reply h p,current⟩).system =
        { cache.system with
          github := (cache.system.github.refresh y getenv clock reply).1
          store := deliver cache.system.store .github h p
          githubAttempts := cache.system.githubAttempts ++ [verdict y getenv cache.system clock reply] } :=
      refresh_github y getenv due wakeup reply h p
    have config := refresh_config y getenv cache.system.github clock reply
    have last : (apply y getenv cache ⟨.github clock wakeup reply h p,current⟩).last =
        match verdict y getenv cache.system clock reply with
        | .succeeded _ (some _) => some ⟨current,cache.system.github.sourceConfig⟩
        | _ => cache.last := by
      simp only [apply,taken,due,if_true]
    have refreshed := refresh_refreshed y getenv clock reply invariant.base.githubCounts
    generalize found : verdict y getenv cache.system clock reply = outcome at system last refreshed
    cases refreshed with
    | body response notifications now answer status parsed etag =>
      subst answer
      obtain ⟨body,tag⟩ := possible.2.carried status
      refine ⟨base,?_,?_⟩
      · intro value held
        rw [system] at held ⊢
        rw [etag,tag] at held
        exact ⟨_,last,held,by rw [config],by rw [config]⟩
      · intro projection held
        rw [last] at held
        cases held
        rw [system]
        simp only [Verdict.latest_append,Verdict.body,Option.getD_some]
        rw [← body]
        exact parsed
    | unchanged response now answer status etag =>
      refine ⟨base,?_,?_⟩
      · rw [system,last]
        simp only [etag,config]
        exact invariant.tagged
      · rw [system,last]
        simp only [Verdict.latest_append,Verdict.body,Option.getD_none]
        exact invariant.projected
    | failed etag =>
      refine ⟨base,?_,?_⟩
      · rw [system,last]
        simp only [etag,config]
        exact invariant.tagged
      · rw [system,last]
        simp only [Verdict.latest_append,Verdict.body,Option.getD_none]
        exact invariant.projected

theorem apply_invariant (y : Yyjson) (getenv : Bytes → Option Bytes) (cache : Cache) (event : Event)
    (invariant : Invariant y cache) (possible : Possible y getenv cache event) :
    Invariant y (apply y getenv cache event) := by
  obtain ⟨event,current⟩ := event
  have base := RemoteStore.apply_invariant y getenv _ _ invariant.base possible.1
  cases event with
  | github clock wakeup reply h p => exact github_step invariant possible
  | reloadGithub config clock =>
    refine ⟨base,?_,invariant.projected⟩
    intro etag held
    simp only [apply,RemoteStore.apply,GithubService.reload] at held ⊢
    split at held
    · cases held
    · rename_i still
      obtain ⟨last,found,tag,url,token⟩ := invariant.tagged etag held
      simp only [ne_eq,not_or,not_not] at still
      exact ⟨last,found,tag,by rw [url,still.1],by rw [token,still.2]⟩
  | weather clock wakeup reply h p =>
    have same : (apply y getenv cache ⟨.weather clock wakeup reply h p,current⟩).system.github = cache.system.github ∧
        (apply y getenv cache ⟨.weather clock wakeup reply h p,current⟩).system.githubAttempts =
          cache.system.githubAttempts := by
      simp only [apply,RemoteStore.apply,applyWeather]
      split <;> exact ⟨rfl,rfl⟩
    refine ⟨base,?_,?_⟩
    · rw [same.1]
      exact invariant.tagged
    · rw [same.2]
      exact invariant.projected
  | reloadWeather config clock => exact ⟨base,invariant.tagged,invariant.projected⟩
  | quit => exact ⟨base,invariant.tagged,invariant.projected⟩
  | other domain h p => exact ⟨base,invariant.tagged,invariant.projected⟩

-- A 304 leaves the list as it was projected last; a 2xx replaces it.
theorem exact_iff_agreed (y : Yyjson) (getenv : Bytes → Option Bytes) (cache : Cache) (event : Event)
    (invariant : Invariant y cache) (possible : Possible y getenv cache event) :
    Exact y getenv cache event ↔ Agreed y getenv cache event := by
  obtain ⟨event,current⟩ := event
  have later := apply_invariant y getenv cache ⟨event,current⟩ invariant possible
  cases event with
  | github clock wakeup reply h p =>
    dsimp only [Exact,Agreed]
    cases due : cache.system.github.poll.due clock with
    | false => simp
    | true =>
      have attempts : (apply y getenv cache ⟨.github clock wakeup reply h p,current⟩).system.githubAttempts =
          cache.system.githubAttempts ++ [verdict y getenv cache.system clock reply] := by
        simp only [apply,RemoteStore.apply,refresh_github y getenv due]
      have seen := later.base.github.data (notificationsField _) (by simp only [githubFields]; exact List.mem_singleton_self _)
      rw [attempts,Verdict.latest_append] at seen
      have refreshed := refresh_refreshed y getenv clock reply invariant.base.githubCounts
      generalize verdict y getenv cache.system clock reply = outcome at seen refreshed
      cases refreshed with
      | body response notifications now answer status parsed etag =>
        subst answer
        obtain ⟨body,_⟩ := possible.2.carried status
        have length := parseGithub_length parsed
        rw [body] at parsed
        refine iff_of_true ?_ ?_
        · intro _ _
          exact ⟨notifications,parsed,by omega,seen⟩
        · intro _ now other
          cases other
      | unchanged response now answer status etag =>
        subst answer
        obtain ⟨tag,held,currently⟩ := possible.2.unchanged status
        obtain ⟨last,found,lastTag,url,token⟩ := invariant.tagged tag held
        have body := possible.2.distinct last tag found url token lastTag currently
        have parsed := invariant.projected last found
        rw [body] at parsed
        have length := parseGithub_length parsed
        dsimp only at body length ⊢
        constructor
        · intro holds _ _ _ other same
          rw [found] at same
          cases same
          obtain ⟨notifications,now,_,shown⟩ := holds rfl rfl
          have equal := shows_length seen shown
          simp only [Verdict.body,Option.getD_none,List.length_map] at equal
          have nowLength := parseGithub_length now
          omega
        · intro agreed _ _
          have now := parseGithub_agreed parsed (agreed rfl _ rfl last found)
          have limit := parseGithub_length now
          exact ⟨_,now,by omega,seen⟩
      | failed etag =>
        refine iff_of_true ?_ ?_
        · intro _ success
          cases success
        · intro _ now other
          cases other
  | _ => exact iff_of_true trivial trivial

theorem exact_run_iff (y : Yyjson) (getenv : Bytes → Option Bytes) (configPath : Bytes) (config : Config)
    (events : List Event)
    (possible : Runs.Each (apply y getenv) (Possible y getenv) (start configPath config) events) :
    Runs.Each (apply y getenv) (Exact y getenv) (start configPath config) events ↔
      Runs.Each (apply y getenv) (Agreed y getenv) (start configPath config) events :=
  Runs.each_iff (apply_invariant y getenv) (exact_iff_agreed y getenv) (start_invariant y configPath config) possible

def narrowed : Configuration.Github := { watched.sources.github with maxItems := 1 }

def twoIssues : Representation := ⟨issues,some (text "v1")⟩

def boot : Cache := start (text "config.lua") watched

theorem full_refreshed : boot.system.github.refresh JsonText.reference token noon (.response full) = (refreshed,fullPatch) :=
  RemoteStore.full_refreshed

theorem full_verdict : verdict JsonText.reference token boot.system noon (.response full) =
    .succeeded 43200 (some [listed "1",listed "2"]) := RemoteStore.full_verdict _

def fullEvent : Event where
  event := .github noon .timeout (.response full) (unpackedHeap fullPatch boot.system.store.heap)
    (unpackedAt fullPatch boot.system.store.heap)
  current := twoIssues

def filled : Cache := apply JsonText.reference token boot fullEvent

def narrowEvent : Event := ⟨.reloadGithub narrowed noon,twoIssues⟩

def afterNarrow : Cache := apply JsonText.reference token filled narrowEvent

def unchangedPatch : Patch := successMetadata 60000 43200

def unchangedEvent : Event where
  event := .github noon .timeout (.response notModified) (unpackedHeap unchangedPatch afterNarrow.system.store.heap)
    (unpackedAt unchangedPatch afterNarrow.system.store.heap)
  current := twoIssues

theorem full_possible : Possible JsonText.reference token boot fullEvent := by
  refine ⟨⟨by decide,?_⟩,⟨?_,fun _ => ⟨rfl,rfl⟩,?_⟩⟩
  · intro patch sent
    have same : patch = fullPatch := by
      simp only [GithubService.idle,full_refreshed] at sent
      injection sent with sent
      exact sent.symm
    subst same
    exact unpacked_packed (initial_closed watched) (by decide) (by decide)
  · intro status
    cases status
  · intro last etag found
    cases found

theorem taken_github : filled.system.github = refreshed := by
  have due : boot.system.github.poll.due noon = true := by decide
  simp only [filled,fullEvent,apply,RemoteStore.apply,refresh_github JsonText.reference token due,full_refreshed]

theorem taken_attempts : filled.system.githubAttempts = [.succeeded 43200 (some [listed "1",listed "2"])] := by
  have due : boot.system.github.poll.due noon = true := by decide
  have none : boot.system.githubAttempts = [] := rfl
  simp only [filled,fullEvent,apply,RemoteStore.apply,refresh_github JsonText.reference token due,full_verdict,none,
    List.nil_append]

theorem taken_last : filled.last = some ⟨twoIssues,watched.sources.github⟩ := by
  have due : boot.system.github.poll.due noon = true := by decide
  have config : boot.system.github.sourceConfig = watched.sources.github := rfl
  simp only [filled,fullEvent,apply,taken,due,if_true,full_verdict,config]

theorem narrow_system : afterNarrow.system =
    { filled.system with github := filled.system.github.reload narrowed noon } := by
  simp only [afterNarrow,narrowEvent,apply,RemoteStore.apply]

theorem narrow_last : afterNarrow.last = filled.last := by
  simp only [afterNarrow,narrowEvent,apply]

theorem narrow_github : afterNarrow.system.github = ⟨narrowed,⟨4320000,0,43200,false⟩,some (text "v1")⟩ := by
  rw [narrow_system,taken_github]
  rfl

theorem taken_invariant : Invariant JsonText.reference filled :=
  apply_invariant JsonText.reference token boot fullEvent (start_invariant _ _ _) full_possible

theorem narrow_invariant : Invariant JsonText.reference afterNarrow :=
  apply_invariant JsonText.reference token filled narrowEvent taken_invariant ⟨trivial,trivial⟩

theorem unchanged_possible : Possible JsonText.reference token afterNarrow unchangedEvent := by
  refine ⟨⟨by decide,?_⟩,⟨?_,?_,?_⟩⟩
  · intro patch sent
    have same : patch = unchangedPatch := by
      rw [narrow_github] at sent
      injection sent with sent
      exact sent.symm
    subst same
    exact unpacked_packed narrow_invariant.base.orderly.closed (by decide) (by decide)
  · intro _
    exact ⟨text "v1",by rw [narrow_github],rfl⟩
  · intro status
    cases status
  · intro last etag found _ _ _ _
    rw [narrow_last,taken_last] at found
    cases found
    rfl

theorem issues_counted : itemCount JsonText.reference twoIssues.body = 2 := by
  have body : twoIssues.body = issues := rfl
  simp only [body,itemCount,decode,issues_read]
  rfl

-- One refresh with a body needs no agreement: the list is projected anew.
theorem full_run_exact :
    Runs.Each (apply JsonText.reference token) (Possible JsonText.reference token)
      (start (text "config.lua") watched) [fullEvent] ∧
    Runs.Each (apply JsonText.reference token) (Exact JsonText.reference token)
      (start (text "config.lua") watched) [fullEvent] := by
  have possible : Runs.Each (apply JsonText.reference token) (Possible JsonText.reference token)
      (start (text "config.lua") watched) [fullEvent] := ⟨full_possible,trivial⟩
  refine ⟨possible,(exact_run_iff JsonText.reference token (text "config.lua") watched [fullEvent] possible).mpr ⟨?_,trivial⟩⟩
  intro _ now unchanged
  have found : verdict JsonText.reference token boot.system noon (.response full) = .succeeded now none := unchanged
  rw [full_verdict] at found
  cases found

-- max_items is lowered to one and the server answers 304: both entries stay.
theorem narrowed_list_stays :
    Runs.Each (apply JsonText.reference token) (Possible JsonText.reference token)
      (start (text "config.lua") watched) [fullEvent,narrowEvent,unchangedEvent] ∧
    ¬Runs.Each (apply JsonText.reference token) (Exact JsonText.reference token)
      (start (text "config.lua") watched) [fullEvent,narrowEvent,unchangedEvent] := by
  refine ⟨⟨full_possible,⟨trivial,trivial⟩,unchanged_possible,trivial⟩,?_⟩
  rintro ⟨-,-,holds,-⟩
  have agreed := (exact_iff_agreed JsonText.reference token afterNarrow unchangedEvent narrow_invariant
    unchanged_possible).mp holds
  have due : afterNarrow.system.github.poll.due noon = true := by rw [narrow_github]; decide
  have outcome : verdict JsonText.reference token afterNarrow.system noon (.response notModified) = .succeeded 43200 none := by
    have attempts : afterNarrow.system.githubAttempts = filled.system.githubAttempts := by rw [narrow_system]
    simp only [verdict,attempts,taken_attempts,narrow_github]
    rfl
  have last : afterNarrow.last = some ⟨twoIssues,watched.sources.github⟩ := narrow_last.trans taken_last
  have equal := agreed due 43200 outcome _ last
  have body : itemCount JsonText.reference unchangedEvent.current.body = 2 := issues_counted
  rw [body,narrow_github] at equal
  revert equal
  decide

end Hypringo.GithubCache

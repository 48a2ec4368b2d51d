import Hypringo.Remote

namespace Hypringo.RemoteServices
open Hypringo.Lua Hypringo.Configuration Json Remote

-- ltask.now: seconds, and the same time in centiseconds.
structure Clock where
  now : Int64
  centiseconds : Int64
  deriving DecidableEq, Repr

-- What the two services keep between refreshes.
structure Poll where
  deadline : Int64
  failures : Int64
  lastSuccessAt : Int64
  stopping : Bool
  deriving DecidableEq, Repr

def Poll.initial : Poll := ⟨0,0,0,false⟩

structure Response where
  status : Int
  headers : Headers
  body : Bytes
  deriving DecidableEq, Repr

-- pcall(http.request, ...): a raise, nil with a message, or a response.
inductive Reply where
  | raised (message : Bytes)
  | failed (message : Bytes)
  | response (response : Response)
  deriving DecidableEq, Repr

inductive Wakeup where
  | failed
  | ready
  | timeout
  deriving DecidableEq, Repr

namespace Poll

def schedule (poll : Poll) (delayMs : Int64) (clock : Clock) : Poll :=
  { poll with deadline := clock.centiseconds + Int64.ofInt ((delayMs + 9).toInt / 10) }

def fail (poll : Poll) (config : Configuration.Remote) (message : Bytes) (headers : Option Headers) (clock : Clock) :
    Poll × Patch :=
  let failures := poll.failures + 1
  let delay := failureDelay headers failures config clock.now
  ({ poll with failures := failures }.schedule delay clock,
    failurePatch message failures poll.lastSuccessAt delay clock.now)

def succeed (poll : Poll) (delay : Int64) (clock : Clock) : Poll :=
  { poll with lastSuccessAt := clock.now, failures := 0 }.schedule delay clock

-- The idle handler refreshes once the deadline is reached, else it waits.
def due (poll : Poll) (clock : Clock) : Bool := !poll.stopping && !decide (clock.centiseconds < poll.deadline)

def wait (poll : Poll) (clock : Clock) (wakeup : Wakeup) : Poll :=
  if poll.stopping then poll
  else match wakeup with
    | .failed => { poll with deadline := clock.centiseconds }
    | .ready | .timeout => poll

end Poll

def successful (status : Int) : Bool := decide (200 ≤ status ∧ status < 300)

def statusText (subject : String) (status : Int) : Bytes := text subject ++ text (toString status)

structure WeatherService where
  sourceConfig : Configuration.Remote
  poll : Poll
  deriving DecidableEq, Repr

namespace WeatherService

def fail (service : WeatherService) (message : Bytes) (headers : Option Headers) (clock : Clock) :
    WeatherService × Patch :=
  let (poll,patch) := service.poll.fail service.sourceConfig message headers clock
  ({ service with poll := poll },patch)

def refresh (y : Yyjson) (service : WeatherService) (clock : Clock) (reply : Reply) : WeatherService × Patch :=
  match reply with
  | .raised message => service.fail message none clock
  | .failed message => service.fail message none clock
  | .response response =>
    if !successful response.status then
      service.fail (statusText "weather HTTP status " response.status) (some response.headers) clock
    else match parseWeather y response.body with
      | .error message => service.fail message (some response.headers) clock
      | .ok weather =>
        let delay := successDelay response.headers (Int64.ofInt service.sourceConfig.intervalMs)
        ({ service with poll := service.poll.succeed delay clock },weather.fields ++ successMetadata delay clock.now)

def idle (y : Yyjson) (service : WeatherService) (clock : Clock) (wakeup : Wakeup) (reply : Reply) :
    WeatherService × Option Patch :=
  if service.poll.due clock then
    let (service,patch) := service.refresh y clock reply
    (service,some patch)
  else ({ service with poll := service.poll.wait clock wakeup },none)

def reload (service : WeatherService) (config : Configuration.Remote) (clock : Clock) : WeatherService :=
  { service with sourceConfig := config, poll := { service.poll with deadline := clock.centiseconds } }

end WeatherService

structure GithubService where
  sourceConfig : Configuration.Github
  poll : Poll
  etag : Option Bytes
  deriving DecidableEq, Repr

namespace GithubService

def fail (service : GithubService) (message : Bytes) (headers : Option Headers) (clock : Clock) :
    GithubService × Patch :=
  let (poll,patch) := service.poll.fail service.sourceConfig.toRemote message headers clock
  ({ service with poll := poll },patch)

-- os.getenv does not change while the daemon runs.
def token (getenv : Bytes → Option Bytes) (service : GithubService) : Option Bytes :=
  match getenv service.sourceConfig.tokenEnv with
  | none | some [] => none
  | some token => some token

def ifNoneMatch : Option Bytes → List Bytes
  | some etag => [text "If-None-Match: " ++ etag]
  | none => []

def requestHeaders (getenv : Bytes → Option Bytes) (service : GithubService) : Except Bytes (List Bytes) :=
  match service.token getenv with
  | none => .error (text "environment variable " ++ service.sourceConfig.tokenEnv ++ text " is not set")
  | some token =>
    .ok ([text "Accept: application/vnd.github+json",
      text "Authorization: Bearer " ++ token,
      text "X-GitHub-Api-Version: 2022-11-28"] ++ ifNoneMatch service.etag)

def accept (y : Yyjson) (service : GithubService) (clock : Clock) (response : Response) : GithubService × Patch :=
  let delay := successDelay response.headers (Int64.ofInt service.sourceConfig.intervalMs)
  if response.status = 304 then
    if service.poll.lastSuccessAt = 0 then
      service.fail (text "GitHub returned 304 before an initial snapshot") (some response.headers) clock
    else ({ service with poll := service.poll.succeed delay clock },successMetadata delay clock.now)
  else if !successful response.status then
    service.fail (statusText "GitHub HTTP status " response.status) (some response.headers) clock
  else match parseGithub y response.body service.sourceConfig.maxItems with
    | .error message => service.fail message (some response.headers) clock
    | .ok notifications =>
      ({ service with etag := response.headers.etag, poll := service.poll.succeed delay clock },
        notificationsField notifications :: successMetadata delay clock.now)

def refresh (y : Yyjson) (getenv : Bytes → Option Bytes) (service : GithubService) (clock : Clock) (reply : Reply) :
    GithubService × Patch :=
  match service.requestHeaders getenv with
  | .error message => service.fail message none clock
  | .ok _ => match reply with
    | .raised message => service.fail message none clock
    | .failed message => service.fail message none clock
    | .response response => service.accept y clock response

def idle (y : Yyjson) (getenv : Bytes → Option Bytes) (service : GithubService) (clock : Clock) (wakeup : Wakeup)
    (reply : Reply) : GithubService × Option Patch :=
  if service.poll.due clock then
    let (service,patch) := service.refresh y getenv clock reply
    (service,some patch)
  else ({ service with poll := service.poll.wait clock wakeup },none)

-- The ETag goes when the url or the token's name changes.
def reload (service : GithubService) (config : Configuration.Github) (clock : Clock) : GithubService :=
  let moved := config.url ≠ service.sourceConfig.url ∨ config.tokenEnv ≠ service.sourceConfig.tokenEnv
  { sourceConfig := config
    etag := if moved then none else service.etag
    poll := { service.poll with deadline := clock.centiseconds } }

end GithubService

-- How an attempt ended, as seen from outside: `none` is a success without a
-- body, which only an unchanged (304) response is.
inductive Verdict (α : Type) where
  | failed
  | succeeded (now : Int64) (data : Option α)
  deriving DecidableEq, Repr

namespace Verdict

variable {α : Type}

def success : Verdict α → Bool
  | .failed => false
  | .succeeded _ _ => true

def time : Verdict α → Option Int64
  | .failed => none
  | .succeeded now _ => some now

def body : Verdict α → Option α
  | .failed => none
  | .succeeded _ data => data

-- The latest value a list of attempts carries, or the one there was before.
def latest {β : Type} (f : Verdict α → Option β) (initial : β) (attempts : List (Verdict α)) : β :=
  (attempts.filterMap f).getLast?.getD initial

def anySuccess (attempts : List (Verdict α)) : Bool := attempts.any success

-- Failed attempts since the last success, or since the start.
def failures (attempts : List (Verdict α)) : Nat := (attempts.reverse.takeWhile (fun verdict => !verdict.success)).length

def lastSuccess (attempts : List (Verdict α)) : Int64 := latest time 0 attempts

theorem latest_append {β : Type} (f : Verdict α → Option β) (initial : β) (attempts : List (Verdict α)) (verdict : Verdict α) :
    latest f initial (attempts ++ [verdict]) = (f verdict).getD (latest f initial attempts) := by
  cases found : f verdict with
  | none => simp [latest,found]
  | some value => simp [latest,found]

theorem anySuccess_append (attempts : List (Verdict α)) (verdict : Verdict α) :
    anySuccess (attempts ++ [verdict]) = (anySuccess attempts || verdict.success) := by
  simp [anySuccess]

theorem failures_append (attempts : List (Verdict α)) (verdict : Verdict α) :
    failures (attempts ++ [verdict]) = if verdict.success then 0 else failures attempts + 1 := by
  cases success : verdict.success <;> simp [failures,success]

end Verdict

def weatherVerdict (y : Yyjson) (clock : Clock) : Reply → Verdict Weather
  | .response response =>
    if successful response.status then match parseWeather y response.body with
      | .ok weather => .succeeded clock.now (some weather)
      | .error _ => .failed
    else .failed
  | _ => .failed

-- A 304 is an answer to nothing before there has been a success.
def githubVerdict (y : Yyjson) (getenv : Bytes → Option Bytes) (service : GithubService) (earlier : Bool) (clock : Clock)
    (reply : Reply) : Verdict (List Notification) :=
  match service.token getenv,reply with
  | some _,.response response =>
    if response.status = 304 then if earlier then .succeeded clock.now none else .failed
    else if successful response.status then
      match parseGithub y response.body service.sourceConfig.maxItems with
      | .ok notifications => .succeeded clock.now (some notifications)
      | .error _ => .failed
    else .failed
  | _,_ => .failed

-- The counters agree with the attempts made so far.
structure Counts {α : Type} (poll : Poll) (attempts : List (Verdict α)) : Prop where
  failures : poll.failures = Int64.ofNat (Verdict.failures attempts)
  lastSuccess : poll.lastSuccessAt = Verdict.lastSuccess attempts
  positive : 0 < poll.lastSuccessAt ↔ Verdict.anySuccess attempts = true
  nonnegative : 0 ≤ poll.lastSuccessAt

-- The patch an attempt sends.
inductive Describes {α : Type} (fields : α → Patch) (attempts : List (Verdict α)) : Verdict α → Patch → Prop
  | failed (message : Bytes) (delay now : Int64) :
      Describes fields attempts .failed (failurePatch message
        (Int64.ofNat (Verdict.failures (attempts ++ [.failed]))) (Verdict.lastSuccess attempts) delay now)
  | body (data : α) (delay now : Int64) :
      Describes fields attempts (.succeeded now (some data)) (fields data ++ successMetadata delay now)
  | unchanged (delay now : Int64) (earlier : Verdict.anySuccess attempts = true) :
      Describes fields attempts (.succeeded now none) (successMetadata delay now)

theorem Counts.initial {α : Type} : Counts Poll.initial ([] : List (Verdict α)) := by
  refine ⟨rfl,rfl,?_,by decide⟩
  simp [Poll.initial,Verdict.anySuccess]

theorem Counts.clock {α : Type} {poll : Poll} {attempts : List (Verdict α)} (counts : Counts poll attempts) :
    0 < Verdict.lastSuccess attempts ↔ Verdict.anySuccess attempts = true := by
  rw [← counts.lastSuccess]
  exact counts.positive

theorem Counts.zero {α : Type} {poll : Poll} {attempts : List (Verdict α)} (counts : Counts poll attempts) :
    poll.lastSuccessAt = 0 ↔ Verdict.anySuccess attempts = false := by
  constructor
  · intro none
    by_contra earlier
    have above := counts.positive.mpr (by simpa using earlier)
    rw [none] at above
    exact absurd above (by decide)
  · intro earlier
    refine Int64.le_antisymm (Int64.not_lt.mp ?_) counts.nonnegative
    intro above
    rw [counts.positive,earlier] at above
    cases above

theorem Counts.same {α : Type} {poll other : Poll} {attempts : List (Verdict α)} (counts : Counts poll attempts)
    (failures : other.failures = poll.failures) (last : other.lastSuccessAt = poll.lastSuccessAt) :
    Counts other attempts := by
  refine ⟨failures.trans counts.failures,last.trans counts.lastSuccess,?_,?_⟩
  · rw [last]
    exact counts.positive
  · rw [last]
    exact counts.nonnegative

theorem Counts.waited {α : Type} {poll : Poll} {attempts : List (Verdict α)} (counts : Counts poll attempts)
    (clock : Clock) (wakeup : Wakeup) : Counts (poll.wait clock wakeup) attempts := by
  simp only [Poll.wait]
  split
  · exact counts
  · cases wakeup with
    | failed => exact counts.same rfl rfl
    | ready => exact counts
    | timeout => exact counts

theorem Counts.fail {α : Type} {poll : Poll} {attempts : List (Verdict α)} (counts : Counts poll attempts)
    (fields : α → Patch) (config : Configuration.Remote) (message : Bytes) (headers : Option Headers) (clock : Clock) :
    Counts (poll.fail config message headers clock).1 (attempts ++ [.failed]) ∧
    Describes fields attempts .failed (poll.fail config message headers clock).2 := by
  have more : poll.failures + 1 = Int64.ofNat (Verdict.failures (attempts ++ [.failed])) := by
    rw [Verdict.failures_append,counts.failures]
    simp [Verdict.success,Int64.ofNat_add]
  have last : Verdict.lastSuccess (attempts ++ [.failed]) = Verdict.lastSuccess attempts :=
    Verdict.latest_append _ _ _ _
  refine ⟨⟨more,?_,?_,counts.nonnegative⟩,?_⟩
  · rw [last]
    exact counts.lastSuccess
  · rw [Verdict.anySuccess_append]
    simpa [Poll.fail,Poll.schedule,Verdict.success] using counts.positive
  · have patch : Describes fields attempts .failed _ :=
      .failed message (failureDelay headers (poll.failures + 1) config clock.now) clock.now
    rw [← more,← counts.lastSuccess] at patch
    exact patch

theorem Counts.succeed {α : Type} {poll : Poll} {attempts : List (Verdict α)} (data : Option α) (delay : Int64)
    {clock : Clock} (positive : 0 < clock.now) :
    Counts (poll.succeed delay clock) (attempts ++ [.succeeded clock.now data]) := by
  refine ⟨?_,?_,?_,Int64.le_of_lt positive⟩
  · rw [Verdict.failures_append]
    rfl
  · exact (Verdict.latest_append Verdict.time 0 attempts (.succeeded clock.now data)).symm
  · rw [Verdict.anySuccess_append]
    simpa [Poll.succeed,Poll.schedule,Verdict.success] using positive

theorem weather_refresh (y : Yyjson) {service : WeatherService} {attempts : List (Verdict Weather)} {clock : Clock}
    (counts : Counts service.poll attempts) (positive : 0 < clock.now) (reply : Reply) :
    Counts (service.refresh y clock reply).1.poll (attempts ++ [weatherVerdict y clock reply]) ∧
    Describes Weather.fields attempts (weatherVerdict y clock reply) (service.refresh y clock reply).2 := by
  have failed := counts.fail Weather.fields service.sourceConfig
  cases reply with
  | raised message => exact failed message none clock
  | failed message => exact failed message none clock
  | response response =>
    cases status : successful response.status with
    | false =>
      simp only [weatherVerdict,WeatherService.refresh,status,Bool.not_false,Bool.false_eq_true,if_true,if_false]
      exact failed _ (some response.headers) clock
    | true =>
      cases parsed : parseWeather y response.body with
      | error message =>
        simp only [weatherVerdict,WeatherService.refresh,status,parsed,Bool.not_true,Bool.false_eq_true,if_true,if_false]
        exact failed message (some response.headers) clock
      | ok weather =>
        simp only [weatherVerdict,WeatherService.refresh,status,parsed,Bool.not_true,Bool.false_eq_true,if_true,if_false]
        exact ⟨.succeed (some weather) _ positive,.body weather _ clock.now⟩

def githubFields (notifications : List Notification) : Patch := [notificationsField notifications]

theorem github_accept {y : Yyjson} {service : GithubService} {attempts : List (Verdict (List Notification))}
    {clock : Clock} (getenv : Bytes → Option Bytes) (counts : Counts service.poll attempts) (positive : 0 < clock.now)
    {secret : Bytes} (present : service.token getenv = some secret) (response : Response) :
    let verdict := githubVerdict y getenv service (Verdict.anySuccess attempts) clock (.response response)
    Counts (service.accept y clock response).1.poll (attempts ++ [verdict]) ∧
    Describes githubFields attempts verdict (service.accept y clock response).2 := by
  have failed := fun message => counts.fail githubFields service.sourceConfig.toRemote message (some response.headers) clock
  simp only [githubVerdict,present]
  by_cases unchanged : response.status = 304
  · cases earlier : Verdict.anySuccess attempts with
    | true =>
      have some : ¬service.poll.lastSuccessAt = 0 := fun none => absurd (counts.zero.mp none) (by simp [earlier])
      simp only [GithubService.accept,unchanged,if_true,some,if_false]
      exact ⟨.succeed none _ positive,.unchanged _ clock.now earlier⟩
    | false =>
      have none : service.poll.lastSuccessAt = 0 := counts.zero.mpr earlier
      simp only [GithubService.accept,unchanged,if_true,none,Bool.false_eq_true,if_false]
      exact failed _
  · cases status : successful response.status with
    | false =>
      simp only [GithubService.accept,unchanged,status,Bool.not_false,Bool.false_eq_true,if_true,if_false]
      exact failed _
    | true =>
      cases parsed : parseGithub y response.body service.sourceConfig.maxItems with
      | error message =>
        simp only [GithubService.accept,unchanged,status,parsed,Bool.not_true,Bool.false_eq_true,if_true,if_false]
        exact failed message
      | ok notifications =>
        simp only [GithubService.accept,unchanged,status,parsed,Bool.not_true,Bool.false_eq_true,if_true,if_false]
        exact ⟨.succeed (some notifications) _ positive,.body notifications _ clock.now⟩

theorem github_refresh (y : Yyjson) (getenv : Bytes → Option Bytes) {service : GithubService}
    {attempts : List (Verdict (List Notification))} {clock : Clock} (counts : Counts service.poll attempts)
    (positive : 0 < clock.now) (reply : Reply) :
    let verdict := githubVerdict y getenv service (Verdict.anySuccess attempts) clock reply
    Counts (service.refresh y getenv clock reply).1.poll (attempts ++ [verdict]) ∧
    Describes githubFields attempts verdict (service.refresh y getenv clock reply).2 := by
  have failed := fun message => counts.fail githubFields service.sourceConfig.toRemote message none clock
  cases present : service.token getenv with
  | none =>
    simp only [githubVerdict,GithubService.refresh,GithubService.requestHeaders,present]
    exact failed _
  | some secret =>
    cases reply with
    | raised message =>
      simp only [githubVerdict,GithubService.refresh,GithubService.requestHeaders,present]
      exact failed message
    | failed message =>
      simp only [githubVerdict,GithubService.refresh,GithubService.requestHeaders,present]
      exact failed message
    | response response =>
      have accepted : service.refresh y getenv clock (.response response) = service.accept y clock response := by
        simp only [GithubService.refresh,GithubService.requestHeaders,present]
      rw [accepted]
      exact github_accept getenv counts positive present response

end Hypringo.RemoteServices

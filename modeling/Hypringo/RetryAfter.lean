import Hypringo.RemoteDelay
import Hypringo.RemoteServices
import Hypringo.JsonText

namespace Hypringo.RetryAfter
open Hypringo.Lua Hypringo.Configuration Hypringo.Remote Hypringo.RemoteServices Hypringo.RemoteDelay Json

-- A turn of the idle handler: the clock it reads, what it is given, and the
-- clock when the wait, or the request and all that follows it, is over.
structure Turn where
  clock : Clock
  wakeup : Wakeup
  reply : Reply
  ended : Clock

inductive Event where
  | turn (turn : Turn)
  | quit

-- A service that polls. `refused` are the headers of a response it takes for a
-- failure.
structure Source (σ : Type) where
  poll : σ → Poll
  config : σ → Configuration.Remote
  idle : σ → Clock → Wakeup → Reply → σ
  quit : σ → σ
  refused : σ → Reply → Option Headers
  waits : ∀ s clock wakeup reply, (poll s).due clock = false → poll (idle s clock wakeup reply) = (poll s).wait clock wakeup
  fails : ∀ s clock wakeup reply headers, (poll s).due clock = true → refused s reply = some headers →
    ∃ message, poll (idle s clock wakeup reply) = ((poll s).fail (config s) message (some headers) clock).1
  settled : ∀ s clock wakeup reply, config (idle s clock wakeup reply) = config s
  stops : ∀ s, poll (quit s) = { poll s with stopping := true }
  kept : ∀ s, config (quit s) = config s

-- A turn that refreshes.
structure Refresh where
  clock : Clock
  ended : Clock
  failures : Int64
  refused : Option Headers

section Runs
variable {σ : Type} (source : Source σ)

def step (s : σ) : Event → σ
  | .turn turn => source.idle s turn.clock turn.wakeup turn.reply
  | .quit => source.quit s

def attempt (s : σ) (turn : Turn) : Refresh :=
  ⟨turn.clock,turn.ended,(source.poll s).failures,source.refused s turn.reply⟩

def refreshed (s : σ) : Event → List Refresh
  | .turn turn => if (source.poll s).due turn.clock then [attempt source s turn] else []
  | .quit => []

def refreshes : σ → List Event → List Refresh
  | _,[] => []
  | s,event :: rest => refreshed source s event ++ refreshes (step source s event) rest

end Runs

-- ltask.now gives seconds and centiseconds of one clock.
structure Ticks (offset : Int) (clock : Clock) : Prop where
  seconds : clock.now.toInt = (clock.centiseconds.toInt + offset) / 100
  low : 0 ≤ clock.centiseconds.toInt
  high : clock.centiseconds.toInt < 2^62
  near : clock.now.toInt < 2^62

-- A run from a time on: the clock does not go back, and no wait fails.
inductive Steady (offset : Int) : Int → List Event → Prop
  | nil (time : Int) : Steady offset time []
  | turn {time : Int} {turn : Turn} {rest : List Event} (later : time ≤ turn.clock.centiseconds.toInt)
      (lasts : turn.clock.centiseconds.toInt ≤ turn.ended.centiseconds.toInt) (ticks : Ticks offset turn.clock)
      (waited : turn.wakeup ≠ .failed) (steady : Steady offset turn.ended.centiseconds.toInt rest) :
      Steady offset time (.turn turn :: rest)
  | quit {time : Int} {rest : List Event} (steady : Steady offset time rest) : Steady offset time (.quit :: rest)

-- What a refresh owes an earlier one, in ticks of 10 ms.
def RetryHonoured (first second : Refresh) : Prop :=
  ∀ headers value, first.refused = some headers → retryTime (some headers) = some value → 1000 * value ≤ cap →
    first.ended.centiseconds.toInt + 100 * value ≤ second.clock.centiseconds.toInt

def ResetHonoured (offset : Int) (first second : Refresh) : Prop :=
  ∀ headers value, first.refused = some headers → headers.xRatelimitRemaining = some (text "0") →
    seconds headers.xRatelimitReset = some value → 1000 * (value - first.clock.now.toInt) ≤ cap →
      100 * value ≤ second.clock.centiseconds.toInt + offset

-- The delay, counted from before the request, makes up for the time the request
-- took.
def Timely (config : Configuration.Remote) (refresh : Refresh) : Prop :=
  ∀ headers value, refresh.refused = some headers → retryTime (some headers) = some value → 1000 * value ≤ cap →
    1000 * value + 10 * (refresh.ended.centiseconds.toInt - refresh.clock.centiseconds.toInt) - 9 ≤ cap ∧
      Covered (some headers) (refresh.failures + 1).toInt config refresh.clock.now.toInt
        (1000 * value + 10 * (refresh.ended.centiseconds.toInt - refresh.clock.centiseconds.toInt) - 9)

theorem lifted_ge (delay : Int) (value : Option Int) (milliseconds : Int → Int) : delay ≤ lifted delay value milliseconds := by
  unfold lifted
  split
  · split <;> omega
  · exact Int.le_refl _

theorem lifted_reaches {delay milliseconds : Int} {header : Option Int} {scale : Int → Int} :
    milliseconds ≤ lifted delay header scale ↔
      milliseconds ≤ delay ∨ ∃ value, header = some value ∧ value < 2^63 ∧ milliseconds ≤ wrapped (scale value) := by
  cases header with
  | none => simp [lifted]
  | some value =>
    by_cases small : value < 2^63
    · simp only [lifted,if_pos small,Option.some.injEq,exists_eq_left']
      omega
    · simp only [lifted,if_neg small,Option.some.injEq,exists_eq_left']
      omega

section Delay
variable {headers : Option Headers} {failures now : Int64} {config : Configuration.Remote} (bounded : Bounded config)
include bounded

theorem failureDelay_bounds : 100 ≤ (failureDelay headers failures config now).toInt ∧
    (failureDelay headers failures config now).toInt ≤ cap := by
  rw [failureDelay_lifted bounded]
  have first := lifted_ge (backoff failures.toInt config) (retryTime headers) (1000 * ·)
  have second := lifted_ge (lifted (backoff failures.toInt config) (retryTime headers) (1000 * ·))
    (resetTime headers now.toInt) (fun reset => 1000 * (reset - now.toInt))
  have least : 100 ≤ backoff failures.toInt config := by
    obtain ⟨least,ordered,_⟩ := bounded
    have grows : (0 : Int) < 2^(failures.toInt - 1).toNat := Int.pow_pos (by decide)
    have product : config.retryMinMs * 1 ≤ config.retryMinMs * 2^(failures.toInt - 1).toNat :=
      Int.mul_le_mul_of_nonneg_left (by omega) (by omega)
    unfold backoff
    omega
  have limit : (100 : Int) ≤ cap := by decide
  omega

-- What is covered, and no more, is waited for.
theorem failureDelay_reaches {milliseconds : Int} :
    milliseconds ≤ (failureDelay headers failures config now).toInt ↔
      milliseconds ≤ cap ∧ Covered headers failures.toInt config now.toInt milliseconds := by
  rw [failureDelay_lifted bounded,Int.le_min,lifted_reaches,lifted_reaches,or_assoc,and_comm]
  rfl

end Delay

theorem schedule_deadline {offset : Int} {clock : Clock} (ticks : Ticks offset clock) (poll : Poll) {delay : Int64}
    (least : 100 ≤ delay.toInt) (most : delay.toInt ≤ cap) :
    (poll.schedule delay clock).deadline.toInt = clock.centiseconds.toInt + (delay.toInt + 9) / 10 := by
  have early := ticks.high
  have positive := ticks.low
  unfold cap at most
  have raised : (delay + 9).toInt = delay.toInt + 9 := by
    rw [Int64.toInt_add]
    exact Int.bmod_eq_of_le (by change _ ≤ delay.toInt + 9; omega) (by change delay.toInt + 9 < _; omega)
  have quotient : (Int64.ofInt ((delay + 9).toInt / 10)).toInt = (delay.toInt + 9) / 10 := by
    rw [raised]
    exact Int64.toInt_ofInt_of_le (by omega) (by omega)
  change (clock.centiseconds + Int64.ofInt ((delay + 9).toInt / 10)).toInt = _
  rw [Int64.toInt_add,quotient]
  exact Int.bmod_eq_of_le (by omega) (by omega)

theorem wait_kept (poll : Poll) (clock : Clock) {wakeup : Wakeup} (waited : wakeup ≠ .failed) :
    poll.wait clock wakeup = poll := by
  unfold Poll.wait
  split
  · rfl
  · cases wakeup with
    | failed => exact absurd rfl waited
    | ready => rfl
    | timeout => rfl

theorem due_reached {poll : Poll} {clock : Clock} (due : poll.due clock = true) :
    poll.deadline.toInt ≤ clock.centiseconds.toInt := by
  simp only [Poll.due,Bool.and_eq_true,Bool.not_eq_true',decide_eq_false_iff_not,Int64.lt_iff_toInt_lt] at due
  omega

section Runs
variable {σ : Type} {source : Source σ} {offset : Int}

theorem step_config (s : σ) (event : Event) : source.config (step source s event) = source.config s := by
  cases event with
  | turn turn => exact source.settled _ _ _ _
  | quit => exact source.kept _

-- A time every later refresh waits for: the deadline says so, or it is past.
def Held (source : Source σ) (bound : Int) (s : σ) (time : Int) : Prop :=
  bound ≤ (source.poll s).deadline.toInt ∨ bound ≤ time

theorem held_step {bound time : Int} {s : σ} {turn : Turn} (held : Held source bound s time)
    (later : time ≤ turn.clock.centiseconds.toInt)
    (lasts : turn.clock.centiseconds.toInt ≤ turn.ended.centiseconds.toInt) (waited : turn.wakeup ≠ .failed) :
    (∀ refresh ∈ refreshed source s (.turn turn), bound ≤ refresh.clock.centiseconds.toInt) ∧
      Held source bound (step source s (.turn turn)) turn.ended.centiseconds.toInt := by
  cases due : (source.poll s).due turn.clock with
  | true =>
    have reached := due_reached due
    have past : bound ≤ turn.clock.centiseconds.toInt := by
      rcases held with ahead | past
      · omega
      · omega
    refine ⟨?_,.inr (by omega)⟩
    intro refresh member
    simp only [refreshed,due,if_true,List.mem_singleton] at member
    rw [member]
    exact past
  | false =>
    refine ⟨?_,?_⟩
    · intro refresh member
      simp [refreshed,due] at member
    · have kept : source.poll (step source s (.turn turn)) = source.poll s := by
        rw [step,source.waits _ _ _ _ due,wait_kept _ _ waited]
      rcases held with ahead | past
      · exact .inl (by rw [kept]; exact ahead)
      · exact .inr (by omega)

theorem held_run {bound time : Int} {s : σ} {events : List Event} (steady : Steady offset time events)
    (held : Held source bound s time) :
    ∀ refresh ∈ refreshes source s events, bound ≤ refresh.clock.centiseconds.toInt := by
  induction steady generalizing s with
  | nil time =>
    intro refresh member
    cases member
  | turn later lasts ticks waited steady ih =>
    obtain ⟨now,next⟩ := held_step held later lasts waited
    intro refresh member
    rcases List.mem_append.mp member with here | after
    · exact now refresh here
    · exact ih next refresh after
  | quit steady ih =>
    refine ih ?_
    unfold Held
    rw [step,source.stops]
    exact held

-- A bound that each refresh puts on its successors holds of the whole run.
theorem owed_run {time : Int} {s : σ} {events : List Event} {meets : Refresh → Prop} {owed : Refresh → Int → Prop}
    (steady : Steady offset time events)
    (owes : ∀ s' turn bound, Ticks offset turn.clock →
      turn.clock.centiseconds.toInt ≤ turn.ended.centiseconds.toInt → source.config s' = source.config s →
      (source.poll s').due turn.clock = true → meets (attempt source s' turn) → owed (attempt source s' turn) bound →
        Held source bound (step source s' (.turn turn)) turn.ended.centiseconds.toInt)
    (meet : ∀ refresh ∈ refreshes source s events, meets refresh) :
    (refreshes source s events).Pairwise (fun first second =>
      ∀ bound, owed first bound → bound ≤ second.clock.centiseconds.toInt) := by
  induction steady generalizing s with
  | nil time => exact .nil
  | @turn time turn rest later lasts ticks waited steady ih =>
    have settled := @step_config σ source s (.turn turn)
    rw [refreshes] at meet ⊢
    have rests := ih (by rw [settled]; exact owes) (fun refresh member => meet refresh (List.mem_append_right _ member))
    cases due : (source.poll s).due turn.clock with
    | false =>
      simp only [refreshed,due,Bool.false_eq_true,if_false,List.nil_append]
      exact rests
    | true =>
      simp only [refreshed,due,if_true,List.singleton_append] at meet ⊢
      refine .cons ?_ rests
      intro second member bound promised
      exact held_run steady (owes s turn bound ticks lasts rfl due (meet _ List.mem_cons_self) promised) second member
  | quit steady ih =>
    have settled := @step_config σ source s .quit
    exact ih (by rw [settled]; exact owes) meet

theorem refused_deadline {s : σ} {turn : Turn} {headers : Headers} (bounded : Bounded (source.config s))
    (ticks : Ticks offset turn.clock) (due : (source.poll s).due turn.clock = true)
    (refused : source.refused s turn.reply = some headers) :
    (source.poll (step source s (.turn turn))).deadline.toInt = turn.clock.centiseconds.toInt +
      ((failureDelay (some headers) ((source.poll s).failures + 1) (source.config s) turn.clock.now).toInt + 9) / 10 := by
  obtain ⟨message,fails⟩ := source.fails s turn.clock turn.wakeup turn.reply headers due refused
  obtain ⟨least,most⟩ := @failureDelay_bounds (some headers) ((source.poll s).failures + 1) turn.clock.now _ bounded
  rw [step,fails]
  exact schedule_deadline ticks _ least most

theorem retry_run {time : Int} {s : σ} {events : List Event} (bounded : Bounded (source.config s))
    (steady : Steady offset time events)
    (timely : ∀ refresh ∈ refreshes source s events, Timely (source.config s) refresh) :
    (refreshes source s events).Pairwise RetryHonoured := by
  have run := @owed_run σ source offset time s events (Timely (source.config s))
    (fun refresh bound => ∃ headers value, refresh.refused = some headers ∧
      retryTime (some headers) = some value ∧ 1000 * value ≤ cap ∧
        bound = refresh.ended.centiseconds.toInt + 100 * value) steady ?_ timely
  · refine run.imp ?_
    intro first second owed headers value refused read within
    exact owed _ ⟨headers,value,refused,read,within,rfl⟩
  · rintro s' turn bound ticks lasts settled due timely ⟨headers,value,refused,read,within,rfl⟩
    left
    obtain ⟨fits,covered⟩ := timely headers value refused read within
    have waits := (failureDelay_reaches bounded).mpr ⟨fits,covered⟩
    rw [← settled] at bounded waits
    rw [refused_deadline bounded ticks due refused]
    simp only [attempt] at waits ⊢
    omega

-- The reset is a time of the clock: it does not matter when the request began.
theorem reset_run {time : Int} {s : σ} {events : List Event} (bounded : Bounded (source.config s))
    (steady : Steady offset time events) :
    (refreshes source s events).Pairwise (ResetHonoured offset) := by
  have run := @owed_run σ source offset time s events (fun _ => True)
    (fun refresh bound => ∃ headers value, refresh.refused = some headers ∧
      headers.xRatelimitRemaining = some (text "0") ∧ seconds headers.xRatelimitReset = some value ∧
        1000 * (value - refresh.clock.now.toInt) ≤ cap ∧ bound = 100 * value - offset) steady ?_ (fun _ _ => trivial)
  · refine run.imp ?_
    intro first second owed headers value refused limited read within
    have held := owed _ ⟨headers,value,refused,limited,read,within,rfl⟩
    omega
  · rintro s' turn bound ticks lasts settled due - ⟨headers,value,refused,limited,read,within,rfl⟩
    rw [← settled] at bounded
    have clock := ticks.seconds
    simp only [attempt] at within refused
    by_cases later : turn.clock.now.toInt < value
    · left
      have reset : resetTime (some headers) turn.clock.now.toInt = some value := by
        simp only [resetTime,if_pos limited,read]
        exact Option.filter_some_pos (by simpa using later)
      have small : wrapped (1000 * (value - turn.clock.now.toInt)) = 1000 * (value - turn.clock.now.toInt) :=
        wrapped_small (by omega) (by unfold cap at within; omega)
      have near := ticks.near
      have covered : Covered (some headers) ((source.poll s').failures + 1).toInt (source.config s')
          turn.clock.now.toInt (1000 * (value - turn.clock.now.toInt)) :=
        .inr (.inr ⟨value,reset,by unfold cap at within; omega,Int.le_of_eq small.symm⟩)
      have waits := (failureDelay_reaches bounded).mpr ⟨within,covered⟩
      rw [refused_deadline bounded ticks due refused]
      omega
    · right
      omega

-- A refresh that is not timely leaves a deadline that comes too soon.
theorem deadline_iff_timely {s : σ} {turn : Turn} {headers : Headers} {value : Int}
    (bounded : Bounded (source.config s)) (ticks : Ticks offset turn.clock)
    (due : (source.poll s).due turn.clock = true) (refused : source.refused s turn.reply = some headers)
    (read : retryTime (some headers) = some value) (within : 1000 * value ≤ cap) :
    turn.ended.centiseconds.toInt + 100 * value ≤ (source.poll (step source s (.turn turn))).deadline.toInt ↔
      Timely (source.config s) (attempt source s turn) := by
  have reaches := @failureDelay_reaches (some headers) ((source.poll s).failures + 1) turn.clock.now _ bounded
    (1000 * value + 10 * (turn.ended.centiseconds.toInt - turn.clock.centiseconds.toInt) - 9)
  rw [refused_deadline bounded ticks due refused]
  constructor
  · intro late headers' value' refused' read' within'
    obtain rfl := Option.some.inj (refused.symm.trans refused')
    obtain rfl := Option.some.inj (read.symm.trans read')
    exact reaches.mp (by omega)
  · intro timely
    have waits := reaches.mpr (timely headers value refused read within)
    omega

end Runs

def quit (poll : Poll) : Poll := { poll with stopping := true }

def weatherRefused (y : Yyjson) : Reply → Option Headers
  | .response response =>
    if successful response.status then match parseWeather y response.body with
      | .error _ => some response.headers
      | .ok _ => none
    else some response.headers
  | .raised _ | .failed _ => none

def weather (y : Yyjson) : Source WeatherService where
  poll := WeatherService.poll
  config := WeatherService.sourceConfig
  idle := fun service clock wakeup reply => (service.idle y clock wakeup reply).1
  quit := fun service => { service with poll := RetryAfter.quit service.poll }
  refused := fun _ reply => weatherRefused y reply
  waits := by
    intro service clock wakeup reply idle
    simp only [WeatherService.idle,idle,Bool.false_eq_true,if_false]
  fails := by
    intro service clock wakeup reply headers due refused
    simp only [WeatherService.idle,due,if_true]
    cases reply with
    | raised message => cases refused
    | failed message => cases refused
    | response response =>
      simp only [weatherRefused] at refused
      simp only [WeatherService.refresh]
      cases status : successful response.status with
      | false =>
        simp only [status,Bool.false_eq_true,if_false,Option.some.injEq] at refused
        exact ⟨statusText "weather HTTP status " response.status,by rw [← refused]; rfl⟩
      | true =>
        simp only [status,if_true] at refused
        cases parsed : parseWeather y response.body with
        | error message =>
          simp only [parsed,Option.some.injEq] at refused
          exact ⟨message,by rw [← refused]; rfl⟩
        | ok weather => simp [parsed] at refused
  settled := by
    intro service clock wakeup reply
    simp only [WeatherService.idle]
    split
    · cases reply with
      | raised message => rfl
      | failed message => rfl
      | response response =>
        simp only [WeatherService.refresh]
        split
        · rfl
        · split <;> rfl
    · rfl
  stops := fun _ => rfl
  kept := fun _ => rfl

def githubRefused (y : Yyjson) (getenv : Bytes → Option Bytes) (service : GithubService) (reply : Reply) : Option Headers :=
  match service.token getenv,reply with
  | some _,.response response =>
    if response.status = 304 then if service.poll.lastSuccessAt = 0 then some response.headers else none
    else if successful response.status then
      match parseGithub y response.body service.sourceConfig.maxItems with
      | .error _ => some response.headers
      | .ok _ => none
    else some response.headers
  | _,_ => none

theorem github_accept_fails {y : Yyjson} {getenv : Bytes → Option Bytes} {service : GithubService} {clock : Clock}
    {response : Response} {headers : Headers} (refused : githubRefused y getenv service (.response response) = some headers) :
    ∃ message, service.accept y clock response = service.fail message (some headers) clock := by
  simp only [githubRefused] at refused
  simp only [GithubService.accept]
  cases present : service.token getenv with
  | none => simp [present] at refused
  | some secret =>
    simp only [present] at refused
    by_cases unchanged : response.status = 304
    · simp only [if_pos unchanged] at refused ⊢
      split at refused
      · rename_i never
        rw [if_pos never,← Option.some.inj refused]
        exact ⟨_,rfl⟩
      · cases refused
    · simp only [if_neg unchanged] at refused ⊢
      cases status : successful response.status with
      | false =>
        simp only [status,Bool.false_eq_true,if_false,Option.some.injEq] at refused
        rw [← refused]
        exact ⟨_,rfl⟩
      | true =>
        simp only [status,if_true] at refused
        cases parsed : parseGithub y response.body service.sourceConfig.maxItems with
        | error message =>
          simp only [parsed,Option.some.injEq] at refused
          rw [← refused]
          exact ⟨message,rfl⟩
        | ok notifications => simp [parsed] at refused

theorem github_accept_settled (y : Yyjson) (service : GithubService) (clock : Clock) (response : Response) :
    (service.accept y clock response).1.sourceConfig = service.sourceConfig := by
  simp only [GithubService.accept]
  split
  · split <;> rfl
  · split
    · rfl
    · split <;> rfl

def github (y : Yyjson) (getenv : Bytes → Option Bytes) : Source GithubService where
  poll := GithubService.poll
  config := fun service => service.sourceConfig.toRemote
  idle := fun service clock wakeup reply => (service.idle y getenv clock wakeup reply).1
  quit := fun service => { service with poll := RetryAfter.quit service.poll }
  refused := githubRefused y getenv
  waits := by
    intro service clock wakeup reply idle
    simp only [GithubService.idle,idle,Bool.false_eq_true,if_false]
  fails := by
    intro service clock wakeup reply headers due refused
    have answered : ∃ response, reply = .response response := by
      cases reply with
      | raised message => simp [githubRefused] at refused
      | failed message => simp [githubRefused] at refused
      | response response => exact ⟨response,rfl⟩
    obtain ⟨response,rfl⟩ := answered
    obtain ⟨message,fails⟩ := @github_accept_fails _ _ _ clock _ _ refused
    refine ⟨message,?_⟩
    simp only [GithubService.idle,due,if_true,GithubService.refresh,GithubService.requestHeaders]
    cases present : service.token getenv with
    | none => simp [githubRefused,present] at refused
    | some secret =>
      simp only [fails]
      rfl
  settled := by
    intro service clock wakeup reply
    simp only [GithubService.idle]
    split
    · simp only [GithubService.refresh]
      cases service.requestHeaders getenv with
      | error message => rfl
      | ok headers =>
        cases reply with
        | raised message => rfl
        | failed message => rfl
        | response response => exact congrArg _ (github_accept_settled y service clock response)
    · rfl
  stops := fun _ => rfl
  kept := fun _ => rfl

theorem retry_honoured_when_timely (y : Yyjson) (getenv : Bytes → Option Bytes) (offset time : Int) (events : List Event)
    (steady : Steady offset time events) :
    (∀ service : WeatherService, Bounded service.sourceConfig →
        (refreshes (weather y) service events).Pairwise (ResetHonoured offset) ∧
        ((∀ refresh ∈ refreshes (weather y) service events, Timely service.sourceConfig refresh) →
          (refreshes (weather y) service events).Pairwise RetryHonoured)) ∧
      ∀ service : GithubService, Bounded service.sourceConfig.toRemote →
        (refreshes (github y getenv) service events).Pairwise (ResetHonoured offset) ∧
        ((∀ refresh ∈ refreshes (github y getenv) service events, Timely service.sourceConfig.toRemote refresh) →
          (refreshes (github y getenv) service events).Pairwise RetryHonoured) := by
  refine ⟨?_,?_⟩
  · intro service bounded
    have settled : Bounded ((weather y).config service) := bounded
    exact ⟨reset_run settled steady,fun timely => retry_run settled steady timely⟩
  · intro service bounded
    have settled : Bounded ((github y getenv).config service) := bounded
    exact ⟨reset_run settled steady,fun timely => retry_run settled steady timely⟩

def unavailable (seconds : String) : Reply := .response ⟨503,RemoteDelay.retryAfter seconds,[]⟩

def forecast : WeatherService := ⟨retrying,Poll.initial⟩

-- A request that is answered at a time, and a turn six seconds after it began.
def answered (ended : Clock) : List Event :=
  [.turn ⟨⟨1000,100000⟩,.timeout,unavailable "5",ended⟩,
   .turn ⟨⟨1006,100600⟩,.timeout,unavailable "5",⟨1006,100600⟩⟩]

theorem first_ticks : Ticks 0 ⟨1000,100000⟩ := ⟨by decide,by decide,by decide,by decide⟩

theorem second_ticks : Ticks 0 ⟨1006,100600⟩ := ⟨by decide,by decide,by decide,by decide⟩

theorem answered_steady {ended : Clock} (began : 100000 ≤ ended.centiseconds.toInt)
    (before : ended.centiseconds.toInt ≤ 100600) : Steady 0 0 (answered ended) :=
  .turn (Int.natCast_nonneg 100000) began first_ticks (nofun)
    (.turn before (Int.le_refl _) second_ticks (nofun) (.nil _))

theorem prompt_refreshes : refreshes (weather JsonText.reference) forecast (answered ⟨1000,100000⟩) =
    [⟨⟨1000,100000⟩,⟨1000,100000⟩,0,some (RemoteDelay.retryAfter "5")⟩,
     ⟨⟨1006,100600⟩,⟨1006,100600⟩,1,some (RemoteDelay.retryAfter "5")⟩] := by
  rfl

theorem slow_refreshes : refreshes (weather JsonText.reference) forecast (answered ⟨1006,100600⟩) =
    [⟨⟨1000,100000⟩,⟨1006,100600⟩,0,some (RemoteDelay.retryAfter "5")⟩,
     ⟨⟨1006,100600⟩,⟨1006,100600⟩,1,some (RemoteDelay.retryAfter "5")⟩] := by
  rfl

theorem five_read : retryTime (some (RemoteDelay.retryAfter "5")) = some 5 := by decide

-- An answer at once is timely.
theorem prompt_timely (clock : Clock) (failures : Int64) :
    Timely retrying ⟨clock,clock,failures,some (RemoteDelay.retryAfter "5")⟩ := by
  intro headers value refused read within
  obtain rfl := Option.some.inj refused
  obtain rfl := Option.some.inj (five_read.symm.trans read)
  have kept : wrapped (1000 * 5) = 5000 := by decide
  simp only [Int.sub_self]
  refine ⟨?_,.inr (.inl ⟨5,five_read,by decide,?_⟩)⟩
  · unfold cap
    omega
  · rw [kept]
    omega

theorem prompt_honoured :
    (refreshes (weather JsonText.reference) forecast (answered ⟨1000,100000⟩)).Pairwise RetryHonoured := by
  have steady : Steady 0 0 (answered ⟨1000,100000⟩) := answered_steady (by decide) (by decide)
  have timely : ∀ refresh ∈ refreshes (weather JsonText.reference) forecast (answered ⟨1000,100000⟩),
      Timely retrying refresh := by
    rw [prompt_refreshes]
    intro refresh member
    rcases List.mem_cons.mp member with rfl | member
    · exact prompt_timely _ _
    · rw [List.mem_singleton.mp member]
      exact prompt_timely _ _
  exact ((retry_honoured_when_timely JsonText.reference (fun _ => none) 0 0 _ steady).1 forecast
    ⟨by decide,by decide,by decide⟩).2 timely

-- A server asks for five seconds and takes six to answer: it is asked again at
-- once.
theorem slow_answer_retried_early : Steady 0 0 (answered ⟨1006,100600⟩) ∧
    ¬(refreshes (weather JsonText.reference) forecast (answered ⟨1006,100600⟩)).Pairwise RetryHonoured := by
  refine ⟨answered_steady (by decide) (by decide),?_⟩
  rw [slow_refreshes]
  intro honoured
  have owed := List.rel_of_pairwise_cons honoured List.mem_cons_self
  have waited := owed _ 5 rfl five_read (by decide)
  exact absurd waited (by decide)

end Hypringo.RetryAfter

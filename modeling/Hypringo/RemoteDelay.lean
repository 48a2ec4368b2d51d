import Hypringo.Remote

namespace Hypringo.RemoteDelay
open Hypringo.Lua Hypringo.Configuration Hypringo.Remote Pattern Numeral

-- The delays over the unbounded integers.
def seconds (header : Option Bytes) : Option Int :=
  match header with
  | some s => if plusText digit s then some (decimal s) else none
  | none => none

def retryTime (headers : Option Headers) : Option Int := seconds (headers.bind Headers.retryAfter)

def resetTime (headers : Option Headers) (now : Int) : Option Int :=
  match headers with
  | some headers =>
    if headers.xRatelimitRemaining = some (text "0") then
      (seconds headers.xRatelimitReset).filter (fun reset => decide (now < reset))
    else none
  | none => none

def raised (delay : Int) : Option Int → Int
  | some milliseconds => max delay milliseconds
  | none => delay

def cap : Int := 86400000

def backoff (failures : Int) (config : Configuration.Remote) : Int :=
  min config.retryMaxMs (config.retryMinMs * 2^(failures - 1).toNat)

def exactFailure (headers : Option Headers) (failures : Int) (config : Configuration.Remote) (now : Int) : Int :=
  min cap (raised (raised (backoff failures config) ((retryTime headers).map (1000 * ·)))
    ((resetTime headers now).map (fun reset => 1000 * (reset - now))))

def exactSuccess (headers : Headers) (intervalMs : Int) : Int :=
  min cap (raised intervalMs ((seconds headers.xPollInterval).map (1000 * ·)))

structure Bounded (config : Configuration.Remote) : Prop where
  least : 100 ≤ config.retryMinMs
  ordered : config.retryMinMs ≤ config.retryMaxMs
  most : config.retryMaxMs ≤ cap

theorem toInt_max (x y : Int64) : (max x y).toInt = max x.toInt y.toInt := by
  have order := Int64.le_iff_toInt_le (x := x) (y := y)
  rw [Int.max_def]
  change (if x ≤ y then y else x).toInt = _
  by_cases below : x ≤ y
  · rw [if_pos below,if_pos (order.mp below)]
  · rw [if_neg below,if_neg (fun le => below (order.mpr le))]

theorem toInt_min (x y : Int64) : (min x y).toInt = min x.toInt y.toInt := by
  have order := Int64.le_iff_toInt_le (x := x) (y := y)
  rw [Int.min_def]
  change (if x ≤ y then x else y).toInt = _
  by_cases below : x ≤ y
  · rw [if_pos below,if_pos (order.mp below)]
  · rw [if_neg below,if_neg (fun le => below (order.mpr le))]

-- The values the loop's variable takes, up to the turn that leaves early.
def delays (maximum : Int64) : Nat → Int64 → List Int64
  | 0,delay => [delay]
  | n+1,delay =>
    if maximum ≤ delay ∨ Int64.ofInt (maximum.toInt / 2) < delay then [delay]
    else delay :: delays maximum n (delay * 2)

theorem delays_length {maximum : Int64} (n : Nat) (delay : Int64) :
    1 ≤ (delays maximum n delay).length ∧ (delays maximum n delay).length ≤ n + 1 := by
  induction n generalizing delay with
  | zero => exact ⟨Nat.le_refl _,Nat.le_refl _⟩
  | succ n ih =>
    rw [delays]
    split
    · exact ⟨Nat.le_refl _,Nat.succ_le_succ (Nat.zero_le _)⟩
    · exact ⟨Nat.succ_le_succ (Nat.zero_le _),Nat.succ_le_succ (ih (delay * 2)).2⟩

-- A loop that ran all its turns answers with the last value, capped; one that
-- left early with the maximum.
theorem doubled_delays (maximum : Int64) (n : Nat) (delay : Int64) :
    doubled maximum n delay =
      if (delays maximum n delay).length = n + 1 then min ((delays maximum n delay).getLastD delay) maximum else maximum := by
  induction n generalizing delay with
  | zero => rfl
  | succ n ih =>
    rw [doubled,delays]
    split
    · rw [if_neg (by simp)]
    · have some := (@delays_length maximum n (delay * 2)).1
      rw [ih,List.length_cons]
      simp only [Nat.add_right_cancel_iff]
      split
      · congr 1
        cases held : delays maximum n (delay * 2) with
        | nil =>
          rw [held] at some
          cases some
        | cons next rest => rfl
      · rfl

theorem half_exact (maximum : Int64) (positive : 0 < maximum.toInt) :
    (Int64.ofInt (maximum.toInt / 2)).toInt = maximum.toInt / 2 := by
  have top := Int64.toInt_lt maximum
  exact Int64.toInt_ofInt_of_le (by omega) (by omega)

theorem twice_exact {maximum delay : Int64} (positive : 0 < delay.toInt)
    (continues : ¬(maximum ≤ delay ∨ Int64.ofInt (maximum.toInt / 2) < delay)) :
    (delay * 2).toInt = delay.toInt * 2 ∧ delay.toInt * 2 ≤ maximum.toInt := by
  have top := Int64.toInt_lt maximum
  rw [Int64.le_iff_toInt_le,Int64.lt_iff_toInt_lt,half_exact maximum (by omega)] at continues
  refine ⟨?_,by omega⟩
  rw [Int64.toInt_mul]
  exact Int.bmod_eq_of_le (by change _ ≤ delay.toInt * 2; omega) (by change delay.toInt * 2 < _; omega)

-- Doubling stops short of the range: a delay above half the maximum is not doubled.
theorem doubled_exact {maximum : Int64} (n : Nat) {delay : Int64} (positive : 0 < delay.toInt)
    (within : delay.toInt ≤ maximum.toInt) :
    (doubled maximum n delay).toInt = min maximum.toInt (delay.toInt * 2^n) := by
  induction n generalizing delay with
  | zero =>
    rw [doubled,toInt_min,pow_zero,mul_one,Int.min_comm]
  | succ n ih =>
    have grows : (0 : Int) < 2^n := Int.pow_pos (by decide)
    rw [doubled]
    split
    · rename_i stops
      have reached : maximum.toInt ≤ delay.toInt * 2^(n+1) := by
        rw [Int64.le_iff_toInt_le,Int64.lt_iff_toInt_lt,half_exact maximum (by omega)] at stops
        have enough : maximum.toInt ≤ delay.toInt * 2 := by omega
        calc maximum.toInt ≤ delay.toInt * 2 * 1 := by omega
          _ ≤ delay.toInt * 2 * 2^n := Int.mul_le_mul_of_nonneg_left (by omega) (by omega)
          _ = delay.toInt * 2^(n+1) := by ring
      rw [Int.min_eq_left reached]
    · rename_i continues
      obtain ⟨twice,below⟩ := twice_exact positive continues
      rw [ih (by omega) (by omega),twice]
      congr 1
      ring

-- Every value is the exact power, none above the maximum.
theorem delays_exact {maximum : Int64} (n : Nat) {delay : Int64} (positive : 0 < delay.toInt)
    (within : delay.toInt ≤ maximum.toInt) {k : Nat} {v : Int64} (taken : (delays maximum n delay)[k]? = some v) :
    v.toInt = delay.toInt * 2^k ∧ v.toInt ≤ maximum.toInt := by
  have first : ∀ {w : Int64}, w = delay → w.toInt = delay.toInt * 2^0 ∧ w.toInt ≤ maximum.toInt := by
    rintro w rfl
    exact ⟨by ring,within⟩
  induction n generalizing delay k with
  | zero =>
    cases k with
    | zero => exact first (Option.some.inj taken).symm
    | succ k => cases taken
  | succ n ih =>
    rw [delays] at taken
    split at taken
    · cases k with
      | zero => exact first (Option.some.inj taken).symm
      | succ k => cases taken
    · rename_i continues
      cases k with
      | zero => exact first (Option.some.inj taken).symm
      | succ k =>
        obtain ⟨twice,below⟩ := twice_exact positive continues
        rw [List.getElem?_cons_succ] at taken
        obtain ⟨value,bound⟩ := ih (by omega) (by omega) taken (by rintro w rfl; exact ⟨by ring,by omega⟩)
        refine ⟨?_,bound⟩
        rw [value,twice]
        ring

-- For any integers: the powers of two, capped, and never a step back.
theorem exponentialDelay_doubles {failures minimum maximum : Int64} (positive : 1 ≤ minimum.toInt)
    (ordered : minimum.toInt ≤ maximum.toInt) :
    (exponentialDelay failures minimum maximum).toInt =
        min maximum.toInt (minimum.toInt * 2^(max failures.toInt 1 - 1).toNat) ∧
      (∀ k v, (delays maximum (failures.toInt - 1).toNat minimum)[k]? = some v →
        v.toInt = minimum.toInt * 2^k ∧ v.toInt ≤ maximum.toInt) ∧
      ∀ more : Int64, failures.toInt ≤ more.toInt →
        (exponentialDelay failures minimum maximum).toInt ≤ (exponentialDelay more minimum maximum).toInt := by
  have turns : (max failures.toInt 1 - 1).toNat = (failures.toInt - 1).toNat := by omega
  refine ⟨?_,fun k v taken => delays_exact _ (by omega) ordered taken,?_⟩
  · rw [turns,exponentialDelay,doubled_exact _ (by omega) ordered]
  · intro more later
    rw [exponentialDelay,exponentialDelay,doubled_exact _ (by omega) ordered,doubled_exact _ (by omega) ordered]
    have powers : (2 : Int)^(failures.toInt - 1).toNat ≤ 2^(more.toInt - 1).toNat :=
      pow_le_pow_right₀ (by decide) (by omega)
    exact min_le_min_left _ (Int.mul_le_mul_of_nonneg_left powers (by omega))

theorem exponentialDelay_doubles_odd :
    (exponentialDelay 4 3 7).toInt = min (7 : Int64).toInt ((3 : Int64).toInt * 2^(max (4 : Int64).toInt 1 - 1).toNat) ∧
      (∀ k v, (delays 7 ((4 : Int64).toInt - 1).toNat 3)[k]? = some v →
        v.toInt = (3 : Int64).toInt * 2^k ∧ v.toInt ≤ (7 : Int64).toInt) ∧
      ∀ more : Int64, (4 : Int64).toInt ≤ more.toInt → (exponentialDelay 4 3 7).toInt ≤ (exponentialDelay more 3 7).toInt :=
  exponentialDelay_doubles (by decide) (by decide)

theorem exponentialDelay_exact {failures : Int64} {config : Configuration.Remote} (bounded : Bounded config) :
    (exponentialDelay failures (Int64.ofInt config.retryMinMs) (Int64.ofInt config.retryMaxMs)).toInt =
      backoff failures.toInt config := by
  obtain ⟨least,ordered,most⟩ := bounded
  unfold cap at most
  have low : (Int64.ofInt config.retryMinMs).toInt = config.retryMinMs := Int64.toInt_ofInt_of_le (by omega) (by omega)
  have high : (Int64.ofInt config.retryMaxMs).toInt = config.retryMaxMs := Int64.toInt_ofInt_of_le (by omega) (by omega)
  rw [exponentialDelay,doubled_exact _ (by omega) (by omega),low,high]
  rfl

-- A header that parse_integer takes is the digit string's value, where that
-- fits 64 bits; the rest are read as if the header were absent.
theorem parseInteger_seconds (header : Option Bytes) :
    (parseInteger header).map Int64.toInt = (seconds header).filter (fun value => decide (value < 2^63)) := by
  cases header with
  | none => rfl
  | some s =>
    simp only [parseInteger,seconds]
    by_cases shape : plusText digit s = true
    · obtain ⟨signed,value⟩ := plus_signed shape
      rw [if_pos shape,if_pos shape,tonumber_exact signed,value]
      by_cases small : (decimal s : Int) < 2^63
      · have inside : Integral (decimal s) := ⟨by omega,small⟩
        rw [if_pos inside,Option.filter_some_pos (by simpa using small)]
        simp only [Option.map_some,Int64.toInt_ofInt_of_le inside.1 inside.2]
      · have outside : ¬ Integral (decimal s) := fun inside => small inside.2
        rw [if_neg outside,Option.filter_some_neg (by simpa using small)]
        rfl
    · rw [if_neg shape,if_neg shape]
      rfl

-- What is left of so many milliseconds in 64 bits.
def wrapped (milliseconds : Int) : Int := milliseconds.bmod (2^64)

theorem wrapped_small {milliseconds : Int} (positive : 0 ≤ milliseconds) (small : milliseconds < 2^63) :
    wrapped milliseconds = milliseconds := Int.bmod_eq_of_le (by omega) (by omega)

theorem wrapped_le {milliseconds : Int} (positive : 0 ≤ milliseconds) : wrapped milliseconds ≤ milliseconds := by
  unfold wrapped
  rw [Int.bmod_def]
  split <;> omega

theorem product_wrapped (value : Int64) : (value * 1000).toInt = wrapped (1000 * value.toInt) := by
  rw [Int64.toInt_mul,Int.mul_comm]
  rfl

theorem difference_wrapped (reset now : Int64) :
    ((reset - now) * 1000).toInt = wrapped (1000 * (reset.toInt - now.toInt)) := by
  rw [Int64.toInt_mul,Int64.toInt_sub,Int.bmod_mul_bmod,Int.mul_comm]
  rfl

theorem atLeast_wrapped (delay : Int64) (value : Option Int64) :
    (atLeast delay value).toInt = match value with
      | some value => max delay.toInt (wrapped (1000 * value.toInt))
      | none => delay.toInt := by
  cases value with
  | none => rfl
  | some value => rw [atLeast,toInt_max,product_wrapped]

-- A header as 64 bits leave it.
def lifted (delay : Int) (value : Option Int) (milliseconds : Int → Int) : Int :=
  match value with
  | some value => if value < 2^63 then max delay (wrapped (milliseconds value)) else delay
  | none => delay

theorem atLeast_seconds (delay : Int64) (header : Option Bytes) :
    (atLeast delay (parseInteger header)).toInt = lifted delay.toInt (seconds header) (1000 * ·) := by
  have read := parseInteger_seconds header
  rw [atLeast_wrapped]
  cases held : seconds header with
  | none =>
    rw [held] at read
    rw [Option.map_eq_none_iff.mp (read.trans rfl)]
    rfl
  | some value =>
    rw [held] at read
    simp only [lifted]
    by_cases small : value < 2^63
    · rw [Option.filter_some_pos (by simpa using small)] at read
      obtain ⟨i,parsed,rfl⟩ := Option.map_eq_some_iff.mp read
      rw [parsed,if_pos small]
    · rw [Option.filter_some_neg (by simpa using small)] at read
      rw [Option.map_eq_none_iff.mp read,if_neg small]

theorem atLeast_reset (delay : Int64) (headers : Headers) (now : Int64) :
    (atLeast delay (untilReset headers now)).toInt =
      lifted delay.toInt (resetTime (some headers) now.toInt) (fun reset => 1000 * (reset - now.toInt)) := by
  have read := parseInteger_seconds headers.xRatelimitReset
  simp only [untilReset,resetTime]
  by_cases limited : headers.xRatelimitRemaining = some (text "0")
  · rw [if_pos limited,if_pos limited]
    cases held : seconds headers.xRatelimitReset with
    | none =>
      rw [held] at read
      rw [Option.map_eq_none_iff.mp (read.trans rfl)]
      rfl
    | some value =>
      rw [held] at read
      by_cases small : value < 2^63
      · rw [Option.filter_some_pos (by simpa using small)] at read
        obtain ⟨i,parsed,rfl⟩ := Option.map_eq_some_iff.mp read
        rw [parsed]
        by_cases later : now < i
        · have order := Int64.lt_iff_toInt_lt.mp later
          simp only [if_pos later]
          rw [Option.filter_some_pos (by simpa using order),atLeast,toInt_max,difference_wrapped]
          simp only [lifted,if_pos small]
        · have order : ¬ now.toInt < i.toInt := fun lt => later (Int64.lt_iff_toInt_lt.mpr lt)
          simp only [if_neg later]
          rw [Option.filter_some_neg (by simpa using order)]
          rfl
      · have later : now.toInt < value := by
          have top := Int64.toInt_lt now
          omega
        rw [Option.filter_some_neg (by simpa using small)] at read
        rw [Option.map_eq_none_iff.mp read,Option.filter_some_pos (by simpa using later)]
        simp only [lifted,if_neg small]
        rfl
  · rw [if_neg limited,if_neg limited]
    rfl

theorem failureDelay_lifted {headers : Option Headers} {failures now : Int64} {config : Configuration.Remote}
    (bounded : Bounded config) :
    (failureDelay headers failures config now).toInt =
      min (lifted (lifted (backoff failures.toInt config) (retryTime headers) (1000 * ·))
        (resetTime headers now.toInt) (fun reset => 1000 * (reset - now.toInt))) cap := by
  have limit : maxMetadataDelayMs.toInt = cap := by decide
  simp only [failureDelay]
  rw [toInt_min,limit]
  congr 1
  cases headers with
  | none =>
    rw [Option.bind_none,Option.bind_none]
    exact exponentialDelay_exact bounded
  | some headers =>
    rw [Option.bind_some,Option.bind_some,atLeast_reset,atLeast_seconds,exponentialDelay_exact bounded]
    rfl

theorem successDelay_lifted (headers : Headers) (intervalMs : Int64) :
    (successDelay headers intervalMs).toInt =
      min (lifted intervalMs.toInt (seconds headers.xPollInterval) (1000 * ·)) cap := by
  have limit : maxMetadataDelayMs.toInt = cap := by decide
  simp only [successDelay]
  rw [toInt_min,limit,atLeast_seconds]

-- A header whose milliseconds leave the range is made up for where what is
-- asked is reached by the exponential delay or by what is left of a header.
def Covered (headers : Option Headers) (failures : Int) (config : Configuration.Remote) (now milliseconds : Int) : Prop :=
  milliseconds ≤ backoff failures config ∨
    (∃ value, retryTime headers = some value ∧ value < 2^63 ∧ milliseconds ≤ wrapped (1000 * value)) ∨
    ∃ reset, resetTime headers now = some reset ∧ reset < 2^63 ∧ milliseconds ≤ wrapped (1000 * (reset - now))

structure FailureFits (headers : Option Headers) (failures : Int) (config : Configuration.Remote) (now : Int) : Prop where
  retry : ∀ value, retryTime headers = some value → 2^63 ≤ 1000 * value → Covered headers failures config now cap
  reset : ∀ reset, resetTime headers now = some reset → 2^63 ≤ reset ∨ 2^63 ≤ 1000 * (reset - now) →
    Covered headers failures config now (min cap (1000 * (reset - now)))

def SuccessFits (headers : Headers) (intervalMs : Int) : Prop :=
  ∀ value, seconds headers.xPollInterval = some value → 2^63 ≤ 1000 * value →
    cap ≤ intervalMs ∨ value < 2^63 ∧ cap ≤ wrapped (1000 * value)

theorem seconds_nonneg {header : Option Bytes} {value : Int} (read : seconds header = some value) : 0 ≤ value := by
  unfold seconds at read
  split at read
  · split at read
    · cases read
      omega
    · cases read
  · cases read

theorem resetTime_later {headers : Option Headers} {now reset : Int} (read : resetTime headers now = some reset) :
    now < reset := by
  unfold resetTime at read
  split at read
  · split at read
    · simpa using (Option.filter_eq_some_iff.mp read).2
    · cases read
  · cases read

theorem successDelay_exact_iff (headers : Headers) (intervalMs : Int64) :
    (successDelay headers intervalMs).toInt = exactSuccess headers intervalMs.toInt ↔
      SuccessFits headers intervalMs.toInt := by
  rw [successDelay_lifted]
  unfold exactSuccess SuccessFits
  cases held : seconds headers.xPollInterval with
  | none => simp [lifted,raised,Int.min_comm]
  | some value =>
    have positive := seconds_nonneg held
    have below : wrapped (1000 * value) ≤ 1000 * value := wrapped_le (by omega)
    have exact : 1000 * value < 2^63 → wrapped (1000 * value) = 1000 * value := wrapped_small (by omega)
    simp only [lifted,raised,Option.map_some,Option.some.injEq,forall_eq',cap]
    split <;> omega

theorem failureDelay_exact_iff {headers : Option Headers} {failures now : Int64} {config : Configuration.Remote}
    (bounded : Bounded config) :
    (failureDelay headers failures config now).toInt = exactFailure headers failures.toInt config now.toInt ↔
      FailureFits headers failures.toInt config now.toInt := by
  have iff_fields : FailureFits headers failures.toInt config now.toInt ↔
      (∀ value, retryTime headers = some value → 2^63 ≤ 1000 * value →
        Covered headers failures.toInt config now.toInt cap) ∧
      ∀ reset, resetTime headers now.toInt = some reset → 2^63 ≤ reset ∨ 2^63 ≤ 1000 * (reset - now.toInt) →
        Covered headers failures.toInt config now.toInt (min cap (1000 * (reset - now.toInt))) :=
    ⟨fun fits => ⟨fits.retry,fits.reset⟩,fun ⟨retry,reset⟩ => ⟨retry,reset⟩⟩
  rw [failureDelay_lifted bounded,iff_fields]
  unfold exactFailure Covered
  generalize backoff failures.toInt config = base
  have top := Int64.toInt_lt now
  have retried : ∀ value, retryTime headers = some value → wrapped (1000 * value) ≤ 1000 * value ∧
      (1000 * value < 2^63 → wrapped (1000 * value) = 1000 * value) := by
    intro value read
    have positive := seconds_nonneg read
    exact ⟨wrapped_le (by omega),wrapped_small (by omega)⟩
  have waited : ∀ reset, resetTime headers now.toInt = some reset → now.toInt < reset ∧
      wrapped (1000 * (reset - now.toInt)) ≤ 1000 * (reset - now.toInt) ∧
        (1000 * (reset - now.toInt) < 2^63 → wrapped (1000 * (reset - now.toInt)) = 1000 * (reset - now.toInt)) := by
    intro reset read
    have later := resetTime_later read
    exact ⟨later,wrapped_le (by omega),wrapped_small (by omega)⟩
  cases retry : retryTime headers with
  | none =>
    cases reset : resetTime headers now.toInt with
    | none => simp [lifted,raised,Int.min_comm]
    | some reset' =>
      obtain ⟨later,below,exact⟩ := waited reset' reset
      simp only [lifted,raised,Option.map_none,Option.map_some,Option.some.injEq,forall_eq',cap,reduceCtorEq,
        false_and,exists_false,false_or,exists_eq_left',IsEmpty.forall_iff,implies_true,true_and]
      split <;> omega
  | some value =>
    obtain ⟨below,exact⟩ := retried value retry
    cases reset : resetTime headers now.toInt with
    | none =>
      simp only [lifted,raised,Option.map_none,Option.map_some,Option.some.injEq,forall_eq',cap,reduceCtorEq,
        false_and,exists_false,or_false,exists_eq_left',IsEmpty.forall_iff,implies_true,and_true]
      split <;> omega
    | some reset' =>
      obtain ⟨later,low,equal⟩ := waited reset' reset
      simp only [lifted,raised,Option.map_some,Option.some.injEq,forall_eq',cap,exists_eq_left']
      split <;> split <;> omega

-- The second asks for every wait the first asks for, or for a longer one.
def NoShorter (first second : Option Int) : Prop :=
  ∀ value, first = some value → ∃ other, second = some other ∧ value ≤ other

theorem raised_mono {delay other : Int} {first second : Option Int} (grows : delay ≤ other)
    (longer : NoShorter first second) : raised delay first ≤ raised other second := by
  cases first with
  | none =>
    cases second with
    | none => exact grows
    | some value => exact Int.le_trans grows (Int.le_max_left _ _)
  | some value =>
    obtain ⟨value',rfl,le⟩ := longer value rfl
    simp only [raised]
    omega

theorem noShorter_map {first second : Option Int} (longer : NoShorter first second) (scale : Int → Int)
    (monotone : ∀ x y, x ≤ y → scale x ≤ scale y) : NoShorter (first.map scale) (second.map scale) := by
  intro value read
  obtain ⟨original,held,rfl⟩ := Option.map_eq_some_iff.mp read
  obtain ⟨other,found,le⟩ := longer original held
  exact ⟨scale other,by rw [found]; rfl,monotone _ _ le⟩

theorem exactFailure_mono {headers longer : Option Headers} {failures now : Int} {config : Configuration.Remote}
    (retry : NoShorter (retryTime headers) (retryTime longer))
    (reset : NoShorter (resetTime headers now) (resetTime longer now)) :
    exactFailure headers failures config now ≤ exactFailure longer failures config now := by
  have first := raised_mono (Int.le_refl (backoff failures config))
    (noShorter_map retry (1000 * ·) (fun x y le => by omega))
  have second := raised_mono first
    (noShorter_map reset (fun reset => 1000 * (reset - now)) (fun x y le => by omega))
  unfold exactFailure
  omega

theorem exactSuccess_mono {headers longer : Headers} {intervalMs : Int}
    (poll : NoShorter (seconds headers.xPollInterval) (seconds longer.xPollInterval)) :
    exactSuccess headers intervalMs ≤ exactSuccess longer intervalMs := by
  have first := raised_mono (Int.le_refl intervalMs)
    (noShorter_map poll (1000 * ·) (fun x y le => by omega))
  unfold exactSuccess
  omega

theorem delays_exact_iff_fitting (failures now intervalMs : Int64) {config : Configuration.Remote}
    (bounded : Bounded config) :
    (∀ headers, (failureDelay headers failures config now).toInt =
        exactFailure headers failures.toInt config now.toInt ↔ FailureFits headers failures.toInt config now.toInt) ∧
      (∀ headers, (successDelay headers intervalMs).toInt = exactSuccess headers intervalMs.toInt ↔
        SuccessFits headers intervalMs.toInt) ∧
      (∀ headers longer, NoShorter (retryTime headers) (retryTime longer) →
        NoShorter (resetTime headers now.toInt) (resetTime longer now.toInt) →
        FailureFits headers failures.toInt config now.toInt → FailureFits longer failures.toInt config now.toInt →
          failureDelay headers failures config now ≤ failureDelay longer failures config now) ∧
      ∀ headers longer, NoShorter (seconds headers.xPollInterval) (seconds longer.xPollInterval) →
        SuccessFits headers intervalMs.toInt → SuccessFits longer intervalMs.toInt →
          successDelay headers intervalMs ≤ successDelay longer intervalMs := by
  refine ⟨fun headers => failureDelay_exact_iff bounded,fun headers => successDelay_exact_iff headers intervalMs,?_,?_⟩
  · intro headers longer retry reset fits fitting
    rw [Int64.le_iff_toInt_le,(failureDelay_exact_iff bounded).mpr fits,(failureDelay_exact_iff bounded).mpr fitting]
    exact exactFailure_mono retry reset
  · intro headers longer poll fits fitting
    rw [Int64.le_iff_toInt_le,(successDelay_exact_iff _ _).mpr fits,(successDelay_exact_iff _ _).mpr fitting]
    exact exactSuccess_mono poll

def retrying : Configuration.Remote := ⟨true,1000,1000,100,800,1024,some (text "http://localhost/")⟩

def retryAfter (value : String) : Headers := ⟨none,some (text value),none,none,none⟩

theorem short_retry_exact : (failureDelay (some (retryAfter "2")) 1 retrying 100).toInt = 2000 := by
  have fits : FailureFits (some (retryAfter "2")) 1 retrying 100 := by
    refine ⟨?_,?_⟩
    · intro value read beyond
      have two : value = 2 := Option.some.inj (read.symm.trans (by decide))
      omega
    · intro reset read
      cases read
  have bounded : Bounded retrying := ⟨by decide,by decide,by decide⟩
  exact (((delays_exact_iff_fitting 1 100 1000 bounded).1 _).mpr fits).trans (by decide)

-- A server that asks for 9223372036854776 seconds is asked again sooner than
-- one that asks for two.
theorem long_retry_wraps :
    (failureDelay (some (retryAfter "9223372036854776")) 1 retrying 100).toInt ≠
        exactFailure (some (retryAfter "9223372036854776")) 1 retrying 100 ∧
      failureDelay (some (retryAfter "9223372036854776")) 1 retrying 100 <
        failureDelay (some (retryAfter "2")) 1 retrying 100 := by
  decide

end Hypringo.RemoteDelay

import Hypringo.DeviceScan

namespace Hypringo.Brightness
open Hypringo.Lua Pattern Numeral Control Devices DeviceScan LongDouble

def slash : UInt8 := 47

def validDeviceName (device : Bytes) : Bool :=
  decide (device ≠ []) && decide (device ≠ text ".") && decide (device ≠ text "..") && !device.contains slash

-- Any level but zero stays lit.
def rawLevel (m : Rounding) (maximum percentage : Int) : Int :=
  let raw := halfUp m (m.round (m.round (m.round maximum * m.round percentage) / 100))
  if 0 < percentage ∧ raw = 0 then 1 else raw

def levelText (raw : Int) : Bytes := integerText (Int64.ofInt raw) ++ [newline]

-- How the path and the system calls on the brightness file turn out, with the
-- texts of their errors.
structure Answers where
  pathFits : Bool
  opened : Except Bytes Unit
  written : Except Bytes Nat
  closed : Except Bytes Unit
  inputOutput : Bytes

inductive Outcome where
  | argument (index : Nat) (message : Bytes)
  | failed (message : Bytes)
  | set
  deriving DecidableEq, Repr

-- What is handed to write, and what Lua gets.
structure Call where
  written : Option Bytes
  outcome : Outcome
  deriving DecidableEq, Repr

def operationalError (operation : String) (error : Bytes) : Outcome := .failed (text operation ++ text ": " ++ error)

def writeOutcome (value : Bytes) (answers : Answers) : Outcome :=
  match answers.written with
  | .error error => operationalError "cannot write backlight brightness" error
  | .ok length =>
    if length ≠ value.length then operationalError "cannot write backlight brightness" answers.inputOutput
    else match answers.closed with
      | .error error => operationalError "cannot close backlight brightness" error
      | .ok _ => .set

def setBrightness (m : Rounding) (device : Device) (percentage : Int) (answers : Answers) : Call :=
  if validDeviceName device.name = false then ⟨none,.argument 2 (text "invalid backlight device name")⟩
  else if percentage < 0 ∨ 100 < percentage then
    ⟨none,.argument 3 (text "brightness percentage must be from 0 to 100")⟩
  else match readLong device "max_brightness" with
    | none => ⟨none,.failed (text "cannot read backlight maximum")⟩
    | some maximum =>
      if maximum ≤ 0 then ⟨none,.failed (text "cannot read backlight maximum")⟩
      else if answers.pathFits = false then ⟨none,.failed (text "backlight path is too long")⟩
      else match answers.opened with
        | .error error => ⟨none,operationalError "cannot open backlight brightness" error⟩
        | .ok _ =>
          let value := levelText (rawLevel m maximum percentage)
          ⟨some value,writeOutcome value answers⟩

-- A device whose level is what was last written to it.
structure Follows (device : Device) (value : Bytes) (after : Device) : Prop where
  name : after.name = device.name
  maximum : after.contents (text "max_brightness") = device.contents (text "max_brightness")
  level : after.contents (text "actual_brightness") = some value ∨
    after.contents (text "actual_brightness") = none ∧ after.contents (text "brightness") = some value

-- What find_backlight says of the device when it selects it.
def Reports (m : Rounding) (device : Device) (percentage : Int) : Prop :=
  ∃ directory : Directory, ∃ before, device ∈ directory.devices ∧
    (scanBacklight m (some directory) before).found = true ∧
    (scanBacklight m (some directory) before).selected = device.name ∧
    (scanBacklight m (some directory) before).percentage = percentage

-- Setting what is reported, with the device following.
inductive ReadAndSet (m : Rounding) : Device → Device → Prop where
  | turn {device after : Device} {percentage : Int} {answers : Answers} {value : Bytes}
      (reported : Reports m device percentage)
      (written : (setBrightness m device percentage answers).written = some value)
      (follows : Follows device value after) : ReadAndSet m device after

structure Settable (device : Device) (maximum : Int) : Prop where
  name : validDeviceName device.name = true
  top : readLong device "max_brightness" = some maximum
  positive : 1 ≤ maximum

theorem readLong_long {device : Device} {name : String} {value : Int} (read : readLong device name = some value) :
    Integral value := by
  obtain ⟨s,_,parsed⟩ := Option.bind_eq_some_iff.mp read
  unfold strtol at parsed
  dsimp only at parsed
  rw [Option.ite_none_right_eq_some,Option.ite_none_right_eq_some] at parsed
  obtain ⟨_,range,same⟩ := parsed
  exact Option.some.inj same ▸ range

theorem strtol_digits {s : Bytes} (shape : plusText digit s = true) (small : (decimal s : Int) < 2^63) :
    strtol s = some (decimal s : Int) := by
  cases s with
  | nil => cases shape
  | cons b rest =>
    have digits := (Bool.and_eq_true_iff.mp shape).2
    have first : digit b = true := (Bool.and_eq_true_iff.mp (by rwa [List.all_cons] at digits)).1
    have range : 48 ≤ b.toNat ∧ b.toNat ≤ 57 := by simpa [digit] using first
    have blank : isSpace b = false := by
      simp only [isSpace,Bool.or_eq_false_iff,Bool.and_eq_false_iff,decide_eq_false_iff_not,beq_eq_false_iff_ne,ne_eq]
      refine ⟨?_,.inr (by omega)⟩
      rintro rfl
      exact absurd range.1 (by decide)
    have unsigned : signed (b :: rest) = (false,b :: rest) := by
      unfold signed
      split
      · rename_i same
        obtain ⟨rfl,_⟩ := List.cons.inj same
        exact absurd range.1 (by decide)
      · rename_i same
        obtain ⟨rfl,_⟩ := List.cons.inj same
        exact absurd range.1 (by decide)
      · rfl
    have body : b :: rest ≠ [] ∧ (b :: rest).all digit = true := ⟨List.cons_ne_nil b rest,digits⟩
    have inside : -2^63 ≤ (decimal (b :: rest) : Int) ∧ (decimal (b :: rest) : Int) < 2^63 := ⟨by omega,small⟩
    unfold strtol
    rw [List.dropWhile_cons_of_neg (by simp [blank]),unsigned]
    dsimp only
    rw [if_pos body]
    exact if_pos inside

theorem digit_kept {b : UInt8} (isDigit : digit b = true) : trailing b = false := by
  have range : 48 ≤ b.toNat ∧ b.toNat ≤ 57 := by simpa [digit] using isDigit
  simp only [trailing,Bool.or_eq_false_iff,beq_eq_false_iff_ne,ne_eq]
  refine ⟨⟨⟨?_,?_⟩,?_⟩,?_⟩ <;> (rintro rfl; exact absurd range.1 (by decide))

theorem readText_line {device : Device} {name : String} {s : Bytes} (shape : plusText digit s = true) (short : s.length ≤ 20)
    (contents : device.contents (text name) = some (s ++ [newline])) : readText device name = some s := by
  rcases List.eq_nil_or_concat' s with rfl | ⟨front,last,rfl⟩
  · cases shape
  have digits := List.all_eq_true.mp (Bool.and_eq_true_iff.mp shape).2
  have whole : (front ++ [last] ++ [newline]).take (valueCapacity - 1) = front ++ [last] ++ [newline] := by
    apply List.take_of_length_le
    rw [List.length_append,List.length_singleton]
    have room : valueCapacity - 1 = 127 := rfl
    omega
  have trimmed : ((front ++ [last] ++ [newline]).reverse.dropWhile trailing).reverse = front ++ [last] := by
    have kept : trailing last = false := digit_kept (digits last (by simp))
    rw [List.reverse_append,List.reverse_append,List.reverse_singleton,List.reverse_singleton,List.singleton_append,
      List.singleton_append,List.dropWhile_cons_of_pos (by decide),List.dropWhile_cons_of_neg (by simp [kept]),
      List.reverse_cons,List.reverse_reverse]
  have text : cString (front ++ [last]) = front ++ [last] := by
    apply cString_of_free
    intro member
    exact absurd (digits 0 member) (by decide)
  unfold readText
  rw [contents]
  dsimp only
  rw [whole,trimmed,if_neg (by simp),text]

theorem readLong_level {device : Device} {name : String} {raw : Int} (nonnegative : 0 ≤ raw) (range : raw < 2^63)
    (contents : device.contents (text name) = some (levelText raw)) : readLong device name = some raw := by
  have same : (Int64.ofInt raw).toInt = raw := Int64.toInt_ofInt_of_le (by omega) range
  obtain ⟨shape,value⟩ := integerText_plus (i := Int64.ofInt raw) (by omega)
  rw [same] at value
  rw [readLong,readText_line shape (integerText_length _) contents,Option.bind_some,strtol_digits shape (by omega),value]

theorem Follows.top {device after : Device} {value : Bytes} (follows : Follows device value after) :
    readLong after "max_brightness" = readLong device "max_brightness" := by
  simp only [readLong,readText,follows.maximum]

theorem Follows.at_level {device after : Device} {raw : Int} (follows : Follows device (levelText raw) after)
    (nonnegative : 0 ≤ raw) (range : raw < 2^63) : Devices.level after = some raw := by
  unfold Devices.level
  rcases follows.level with actual | ⟨absent,stored⟩
  · rw [readLong_level nonnegative range actual]
    rfl
  · have unread : readLong after "actual_brightness" = none := by simp [readLong,readText,absent]
    rw [unread,readLong_level nonnegative range stored]
    rfl

theorem Reports.of_level {m : Rounding} {device : Device} {percentage current maximum : Int}
    (reports : Reports m device percentage) (top : readLong device "max_brightness" = some maximum)
    (now : Devices.level device = some current) : percentage = backlightPercentage m current maximum := by
  obtain ⟨directory,before,member,found,name,rfl⟩ := reports
  rcases scanBacklight_chosen m directory before with ⟨unchanged,_⟩ | ⟨chosen,selected⟩
  · rw [unchanged] at found
    cases found
  · have same : chosen = device :=
      List.inj_on_of_nodup_map directory.distinct selected.member member (selected.name.symm.trans name)
    obtain ⟨current',maximum',now',top',result⟩ := selected.percentage
    rw [same,now] at now'
    rw [same,top] at top'
    cases now'
    cases top'
    exact result

-- find_backlight does report a device that stands alone and can be read.
theorem Reports.lone (m : Rounding) {device : Device} {current maximum : Int} (fits : device.name.length ≤ nameMax)
    (visible : hidden device = false) (top : readLong device "max_brightness" = some maximum) (positive : 0 < maximum)
    (now : Devices.level device = some current) (nonnegative : 0 ≤ current) :
    Reports m device (backlightPercentage m current maximum) := by
  let directory : Directory := ⟨[device],by simp,by simpa using fits⟩
  have usable : UsableBacklight device := ⟨visible,⟨maximum,top,positive⟩,⟨current,now,nonnegative⟩⟩
  rcases scanBacklight_chosen m directory ⟨false,[],0,0,false⟩ with ⟨_,none⟩ | ⟨chosen,selected⟩
  · exact absurd usable (none device (List.mem_singleton.mpr rfl))
  · obtain rfl := List.mem_singleton.mp selected.member
    have reports : Reports m chosen (scanBacklight m (some directory) ⟨false,[],0,0,false⟩).percentage :=
      ⟨directory,_,selected.member,selected.found,selected.name,rfl⟩
    have same := reports.of_level top now
    rwa [same] at reports

theorem backlight_exact {current maximum : Int} (nonnegative : 0 ≤ current) (below : current ≤ maximum)
    (positive : 1 ≤ maximum) :
    backlightPercentage exact current maximum = (200 * current + maximum) / (2 * maximum) := by
  have quotient : ratio exact current maximum = ((current * 100 : Int) : ℚ) / (maximum : ℚ) := by
    simp [ratio]
  have top : (0 : ℚ) < maximum := by exact_mod_cast positive
  have capped : ¬100 < ratio exact current maximum := by
    rw [quotient,not_lt,div_le_iff₀ top]
    exact_mod_cast (by omega : current * 100 ≤ 100 * maximum)
  rw [backlightPercentage,if_neg capped,quotient,halfUp_exact (by omega) (by omega)]
  congr 1
  ring

-- The nearest level, halves upwards.
def nearestLevel (maximum percentage : Int) : Int := (2 * (maximum * percentage) + 100) / 200

theorem rawLevel_exact {maximum percentage : Int} (positive : 1 ≤ maximum) (nonnegative : 0 ≤ percentage) :
    rawLevel exact maximum percentage =
      if 0 < percentage ∧ nearestLevel maximum percentage = 0 then 1 else nearestLevel maximum percentage := by
  have product : (0 : Int) ≤ maximum * percentage := mul_nonneg (by omega) nonnegative
  have nearest : halfUp exact (exact.round (exact.round (exact.round maximum * exact.round percentage) / 100)) =
      nearestLevel maximum percentage := by
    have exactly := halfUp_exact product (by decide : (0 : Int) < 100)
    push_cast at exactly
    simpa only [exact_round,nearestLevel] using exactly
  rw [rawLevel,nearest]

section Levels
variable {maximum percentage : Int}

theorem nearestLevel_range (positive : 1 ≤ maximum) (above : 0 ≤ percentage) (below : percentage ≤ 100) :
    0 ≤ nearestLevel maximum percentage ∧ nearestLevel maximum percentage ≤ maximum := by
  have product : 0 ≤ maximum * percentage := mul_nonneg (by omega) above
  have most : maximum * percentage ≤ maximum * 100 := mul_le_mul_of_nonneg_left below (by omega)
  unfold nearestLevel
  omega

theorem rawLevel_range (positive : 1 ≤ maximum) (above : 0 ≤ percentage) (below : percentage ≤ 100) :
    0 ≤ rawLevel exact maximum percentage ∧ rawLevel exact maximum percentage ≤ maximum ∧
      (0 < percentage → 0 < rawLevel exact maximum percentage) := by
  obtain ⟨low,high⟩ := nearestLevel_range positive above below
  rw [rawLevel_exact positive above]
  split
  · omega
  · rename_i lit
    refine ⟨low,high,fun some => ?_⟩
    have dark : nearestLevel maximum percentage ≠ 0 := fun zero => lit ⟨some,zero⟩
    omega

theorem rawLevel_monotone {larger : Int} (positive : 1 ≤ maximum) (above : 0 ≤ percentage) (ordered : percentage ≤ larger) :
    rawLevel exact maximum percentage ≤ rawLevel exact maximum larger := by
  have product : 0 ≤ maximum * percentage := mul_nonneg (by omega) above
  have grows : maximum * percentage ≤ maximum * larger := mul_le_mul_of_nonneg_left ordered (by omega)
  have nearest : nearestLevel maximum percentage ≤ nearestLevel maximum larger := by
    unfold nearestLevel
    omega
  have low : 0 ≤ nearestLevel maximum percentage := by
    unfold nearestLevel
    omega
  rw [rawLevel_exact positive above,rawLevel_exact positive (above.trans ordered)]
  split <;> split <;> omega

-- From a maximum of 100 on, one level lies within half a percent.
theorem set_reported (large : 100 ≤ maximum) (above : 0 ≤ percentage) (below : percentage ≤ 100) :
    backlightPercentage exact (rawLevel exact maximum percentage) maximum = percentage := by
  obtain ⟨low,high,_⟩ := rawLevel_range (by omega : 1 ≤ maximum) above below
  have lit : ¬(0 < percentage ∧ nearestLevel maximum percentage = 0) := by
    rintro ⟨some,zero⟩
    have product : 100 * 1 ≤ maximum * percentage := mul_le_mul large some (by decide) (by omega)
    unfold nearestLevel at zero
    omega
  have level : rawLevel exact maximum percentage = nearestLevel maximum percentage := by
    rw [rawLevel_exact (by omega) above,if_neg lit]
  rw [backlight_exact low high (by omega),level]
  have unfolded : nearestLevel maximum percentage = (2 * (maximum * percentage) + 100) / 200 := rfl
  generalize nearestLevel maximum percentage = raw at unfolded
  apply le_antisymm
  · apply Int.lt_add_one_iff.mp
    apply Int.ediv_lt_of_lt_mul (by omega)
    have expanded : (percentage + 1) * (2 * maximum) = 2 * (maximum * percentage) + 2 * maximum := by ring
    rw [expanded]
    -- At 100 itself the level is the percentage, above it half a percent is more than half a level.
    rcases Int.lt_or_eq_of_le large with more | rfl
    · omega
    · omega
  · apply Int.le_ediv_of_mul_le (by omega)
    have expanded : percentage * (2 * maximum) = 2 * (maximum * percentage) := by ring
    omega

-- Below it, one percent lies within half a level.
theorem reported_set {raw : Int} (positive : 1 ≤ maximum) (small : maximum < 100) (low : 0 ≤ raw) (high : raw ≤ maximum) :
    rawLevel exact maximum (backlightPercentage exact raw maximum) = raw := by
  have report := backlight_exact low high positive
  generalize backlightPercentage exact raw maximum = percentage at report
  have least : percentage * (2 * maximum) ≤ 200 * raw + maximum := by
    rw [report]
    exact Int.ediv_mul_le _ (by omega)
  have most : 200 * raw + maximum < (percentage + 1) * (2 * maximum) := by
    rw [report]
    exact Int.lt_ediv_add_one_mul_self _ (by omega)
  have expanded : (percentage + 1) * (2 * maximum) = 2 * (maximum * percentage) + 2 * maximum := by ring
  have swapped : percentage * (2 * maximum) = 2 * (maximum * percentage) := by ring
  have above : 0 ≤ percentage := by
    rw [report]
    exact Int.ediv_nonneg (by omega) (by omega)
  have nearest : nearestLevel maximum percentage = raw := by
    unfold nearestLevel
    omega
  rw [rawLevel_exact positive above,nearest]
  split
  · rename_i lifted
    obtain ⟨some,rfl⟩ := lifted
    have product : maximum * 1 ≤ maximum * percentage := mul_le_mul_of_nonneg_left some (by omega)
    omega
  · rfl

end Levels

theorem setBrightness_written {device : Device} {maximum percentage : Int} {answers : Answers} (settable : Settable device maximum)
    (above : 0 ≤ percentage) (below : percentage ≤ 100) (fits : answers.pathFits = true) (opened : answers.opened = .ok ()) :
    (setBrightness exact device percentage answers).written = some (levelText (rawLevel exact maximum percentage)) := by
  have positive := settable.positive
  unfold setBrightness
  rw [if_neg (by simp [settable.name]),if_neg (by omega),settable.top]
  dsimp only
  rw [if_neg (by omega),if_neg (by simp [fits]),opened]

-- Whatever was written was written on a settable device.
theorem written_level {device : Device} {maximum percentage : Int} {answers : Answers} {value : Bytes}
    (top : readLong device "max_brightness" = some maximum)
    (written : (setBrightness exact device percentage answers).written = some value) :
    value = levelText (rawLevel exact maximum percentage) := by
  unfold setBrightness at written
  split at written
  · cases written
  split at written
  · cases written
  rw [top] at written
  dsimp only at written
  split at written
  · cases written
  split at written
  · cases written
  split at written
  · cases written
  · exact (Option.some.inj written).symm

theorem readAndSet_keeps {device after : Device} {maximum raw : Int} (top : readLong device "max_brightness" = some maximum)
    (positive : 1 ≤ maximum) (small : maximum < 100) (now : Devices.level device = some raw) (low : 0 ≤ raw)
    (high : raw ≤ maximum) (turns : Relation.ReflTransGen (ReadAndSet exact) device after) :
    readLong after "max_brightness" = some maximum ∧ Devices.level after = some raw := by
  induction turns with
  | refl => exact ⟨top,now⟩
  | tail _ turn ih =>
    obtain ⟨top',now'⟩ := ih
    cases turn with
    | turn reported written follows =>
      rw [reported.of_level top' now'] at written
      have value := written_level top' written
      rw [reported_set positive small low high] at value
      subst value
      exact ⟨follows.top.trans top',follows.at_level low (by omega)⟩

theorem brightness_settles {device : Device} {maximum : Int} (settable : Settable device maximum) :
    (∀ percentage, 0 ≤ percentage → percentage ≤ 100 →
      (∀ answers : Answers, answers.pathFits = true → answers.opened = .ok () →
        (setBrightness exact device percentage answers).written = some (levelText (rawLevel exact maximum percentage))) ∧
      0 ≤ rawLevel exact maximum percentage ∧ rawLevel exact maximum percentage ≤ maximum ∧
      (0 < percentage → 0 < rawLevel exact maximum percentage) ∧
      (∀ larger, percentage ≤ larger → larger ≤ 100 →
        rawLevel exact maximum percentage ≤ rawLevel exact maximum larger) ∧
      (100 ≤ maximum → ∀ after, Follows device (levelText (rawLevel exact maximum percentage)) after →
        ∀ reported, Reports exact after reported → reported = percentage)) ∧
    (maximum < 100 → ∀ raw, 0 ≤ raw → raw ≤ maximum → Devices.level device = some raw →
      (∀ reported, Reports exact device reported → ∀ answers : Answers, answers.pathFits = true →
        answers.opened = .ok () → (setBrightness exact device reported answers).written = some (levelText raw)) ∧
      ∀ after, Relation.ReflTransGen (ReadAndSet exact) device after → Devices.level after = some raw) := by
  have positive := settable.positive
  have long := (readLong_long settable.top).2
  refine ⟨?_,?_⟩
  · intro percentage above below
    obtain ⟨low,high,lit⟩ := rawLevel_range positive above below
    refine ⟨fun answers fits opened => setBrightness_written settable above below fits opened,low,high,lit,
      fun larger ordered _ => rawLevel_monotone positive above ordered,?_⟩
    intro large after follows reported reports
    rw [reports.of_level (follows.top.trans settable.top) (follows.at_level low (by omega))]
    exact set_reported large above below
  · intro small raw low high now
    refine ⟨?_,fun after turns => (readAndSet_keeps settable.top positive small now low high turns).2⟩
    intro reported reports answers fits opened
    rw [reports.of_level settable.top now]
    obtain ⟨above,below⟩ := backlightPercentage_range exact low (by omega : 0 < maximum)
    rw [setBrightness_written settable above below fits opened,reported_set positive small low high]

def lamp : Device := ⟨text "lamp",attributes [("brightness","3\n"),("max_brightness","7\n")],true⟩

def lamps : Directory := ⟨[lamp],by decide,by decide⟩

-- A panel of 200 levels, and what it is once three quarters have been set.
def bar (level : String) : Device :=
  ⟨text "intel_backlight",attributes [("brightness",level),("max_brightness","200\n"),("type","raw\n")],true⟩

theorem brightness_settles_lamp :
    (Settable lamp 7 ∧ Reports exact lamp 43 ∧ ∀ answers : Answers, answers.pathFits = true → answers.opened = .ok () →
      (setBrightness exact lamp 43 answers).written = some (text "3\n")) ∧
    Settable (bar "9\n") 200 ∧ Follows (bar "9\n") (text "150\n") (bar "150\n") ∧
    (∃ reported, Reports exact (bar "150\n") reported) ∧ ∀ reported, Reports exact (bar "150\n") reported → reported = 75 := by
  have settable : Settable lamp 7 := ⟨by decide,by decide,by decide⟩
  have reported : Reports exact lamp 43 :=
    ⟨lamps,⟨false,[],0,0,false⟩,by simp [lamps],by decide +kernel,by decide +kernel,by decide +kernel⟩
  have wide : Settable (bar "9\n") 200 := ⟨by decide,by decide,by decide⟩
  have level : levelText (rawLevel exact 200 75) = text "150\n" := by decide +kernel
  have follows : Follows (bar "9\n") (levelText (rawLevel exact 200 75)) (bar "150\n") := by
    rw [level]
    exact ⟨rfl,rfl,.inr ⟨by decide,by decide⟩⟩
  have lone : Reports exact (bar "150\n") (backlightPercentage exact 150 200) :=
    Reports.lone exact (by decide) (by decide) (by decide) (by decide) (by decide) (by decide)
  refine ⟨⟨settable,reported,?_⟩,wide,level ▸ follows,⟨_,lone⟩,?_⟩
  · exact ((brightness_settles settable).2 (by decide) 3 (by decide) (by decide) (by decide)).1 43 reported
  · exact ((brightness_settles wide).1 75 (by decide) (by decide)).2.2.2.2.2 (by decide) _ follows

end Hypringo.Brightness

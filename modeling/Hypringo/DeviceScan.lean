import Hypringo.Devices
import Hypringo.LongDouble
import Hypringo.Selection

namespace Hypringo.DeviceScan
open Hypringo.Lua Devices LongDouble Selection

def ratio (m : Rounding) (current full : Int) : ℚ := m.round (m.round (m.round current * 100) / m.round full)

-- battery_capacity clamps on both sides, find_backlight from above only.
def batteryPercentage (m : Rounding) (current full : Int) : Int := halfUp m (clamp 100 (ratio m current full))

def backlightPercentage (m : Rounding) (current maximum : Int) : Int :=
  halfUp m (if 100 < ratio m current maximum then 100 else ratio m current maximum)

-- A class directory as readdir lists it, in some order.
structure Directory where
  devices : List Device
  distinct : (devices.map Device.name).Nodup
  fits : ∀ device ∈ devices, device.name.length ≤ nameMax

-- What find_battery writes for its caller, and its own found.
structure BatteryOutputs where
  found : Bool
  selected : Bytes
  capacity : Int
  status : Bytes
  deriving DecidableEq, Repr

structure BacklightOutputs where
  found : Bool
  selected : Bytes
  selectedRank : Int
  percentage : Int
  writable : Bool
  deriving DecidableEq, Repr

section Machine
variable (m : Rounding)

def batteryStep (outputs : BatteryOutputs) (device : Device) : BatteryOutputs :=
  if hidden device then outputs
  else if readText device "type" ≠ some (text "Battery") ∨ deviceIsPresent device = false then outputs
  else match batteryCapacity (batteryPercentage m) device with
    | none => outputs
    | some candidateCapacity =>
      if outputs.found = true ∧ ¬device.name < outputs.selected then outputs
      else
        { found := true
          selected := device.name.take nameMax
          capacity := candidateCapacity
          status := (readText device "status").getD (text "Unknown") }

def backlightStep (outputs : BacklightOutputs) (device : Device) : BacklightOutputs :=
  if hidden device then outputs
  else match readLong device "max_brightness",level device with
    | some maximum,some current =>
      if maximum ≤ 0 ∨ current < 0 then outputs
      else
        let rank : Int := typeRank device
        if outputs.found = true ∧
            (rank < outputs.selectedRank ∨ (rank = outputs.selectedRank ∧ ¬device.name < outputs.selected)) then outputs
        else
          { found := true
            selected := device.name.take nameMax
            selectedRank := rank
            percentage := backlightPercentage m current maximum
            writable := device.writable }
    | _,_ => outputs

def listed (directory : Option Directory) : List Device := (directory.map Directory.devices).getD []

-- A directory whose path is too long or that cannot be opened is none.
def scanBattery (directory : Option Directory) (before : BatteryOutputs) : BatteryOutputs :=
  (listed directory).foldl (batteryStep m) { before with found := false }

def scanBacklight (directory : Option Directory) (before : BacklightOutputs) : BacklightOutputs :=
  (listed directory).foldl (backlightStep m) { before with found := false, selectedRank := -1 }

end Machine

-- The capacity can be determined.
def Charged (device : Device) : Prop :=
  (∃ direct, readLong device "capacity" = some direct ∧ 0 ≤ direct ∧ direct ≤ 100) ∨
  ∃ pair ∈ [("energy_now","energy_full"),("charge_now","charge_full")], ∃ current full,
    readLong device pair.1 = some current ∧ readLong device pair.2 = some full ∧ 0 ≤ current ∧ 0 < full

structure UsableBattery (device : Device) : Prop where
  visible : hidden device = false
  battery : readText device "type" = some (text "Battery")
  present : ∀ present, readLong device "present" = some present → present ≠ 0
  charged : Charged device

structure UsableBacklight (device : Device) : Prop where
  visible : hidden device = false
  maximum : ∃ maximum, readLong device "max_brightness" = some maximum ∧ 0 < maximum
  level : ∃ current, level device = some current ∧ 0 ≤ current

-- Everything written belongs to one device, the first by name among the usable.
structure BatteryChosen (m : Rounding) (devices : List Device) (device : Device) (after : BatteryOutputs) : Prop where
  member : device ∈ devices
  usable : UsableBattery device
  first : ∀ other ∈ devices, UsableBattery other → other ≠ device → device.name < other.name
  found : after.found = true
  name : after.selected = device.name
  capacity : batteryCapacity (batteryPercentage m) device = some after.capacity
  percent : 0 ≤ after.capacity ∧ after.capacity ≤ 100
  status : after.status = (readText device "status").getD (text "Unknown")

structure BacklightChosen (m : Rounding) (devices : List Device) (device : Device) (after : BacklightOutputs) : Prop where
  member : device ∈ devices
  usable : UsableBacklight device
  highest : ∀ other ∈ devices, UsableBacklight other → typeRank other ≤ typeRank device
  first : ∀ other ∈ devices, UsableBacklight other → typeRank other = typeRank device → other ≠ device →
    device.name < other.name
  found : after.found = true
  name : after.selected = device.name
  percentage : ∃ current maximum, level device = some current ∧ readLong device "max_brightness" = some maximum ∧
    after.percentage = backlightPercentage m current maximum
  percent : 0 ≤ after.percentage ∧ after.percentage ≤ 100
  writable : after.writable = device.writable

def Types (device : Device) (type : String) : Prop := readText device "type" = some (text type)

-- Raw stands above platform, platform above firmware and that above the rest.
theorem typeRank_le {device other : Device} :
    typeRank other ≤ typeRank device ↔
      (Types other "raw" → Types device "raw") ∧
      (Types other "platform" → Types device "raw" ∨ Types device "platform") ∧
      (Types other "firmware" → Types device "raw" ∨ Types device "platform" ∨ Types device "firmware") := by
  have ranks : ∀ one : Device, (Types one "raw" ∧ typeRank one = 3) ∨ (Types one "platform" ∧ typeRank one = 2) ∨
      (Types one "firmware" ∧ typeRank one = 1) ∨
      (¬Types one "raw" ∧ ¬Types one "platform" ∧ ¬Types one "firmware" ∧ typeRank one = 0) := by
    intro one
    unfold typeRank Types
    cases readText one "type" with
    | none => simp
    | some type =>
      dsimp only
      split
      · exact .inl ⟨by simp [*],rfl⟩
      · split
        · exact .inr (.inl ⟨by simp [*],rfl⟩)
        · split
          · exact .inr (.inr (.inl ⟨by simp [*],rfl⟩))
          · exact .inr (.inr (.inr ⟨by simpa,by simpa,by simpa,rfl⟩))
  have apart : ∀ one : Device, ∀ left right, Types one left → Types one right → text left = text right :=
    fun one left right first second => Option.some.inj (first.symm.trans second)
  have platform : text "raw" ≠ text "platform" := by decide
  have firmware : text "raw" ≠ text "firmware" := by decide
  have between : text "platform" ≠ text "firmware" := by decide
  have here := apart device
  have there := apart other
  rcases ranks device with ⟨kind,rank⟩ | ⟨kind,rank⟩ | ⟨kind,rank⟩ | ⟨raw,plat,firm,rank⟩ <;>
    rcases ranks other with ⟨kind',rank'⟩ | ⟨kind',rank'⟩ | ⟨kind',rank'⟩ | ⟨raw',plat',firm',rank'⟩ <;>
    rw [rank,rank'] <;> grind

theorem round_nonneg (m : Rounding) {x : ℚ} (nonnegative : 0 ≤ x) : 0 ≤ m.round x := by
  have zero := m.halves 0 (by decide)
  have ordered := m.monotone nonnegative
  norm_num at zero
  rwa [zero] at ordered

theorem ratio_nonneg (m : Rounding) {current full : Int} (nonnegative : 0 ≤ current) (positive : 0 < full) :
    0 ≤ ratio m current full := by
  have scaled : (0 : ℚ) ≤ m.round (m.round current * 100) :=
    round_nonneg m (mul_nonneg (round_nonneg m (by exact_mod_cast nonnegative)) (by norm_num))
  exact round_nonneg m (div_nonneg scaled (round_nonneg m (by exact_mod_cast positive.le)))

theorem batteryPercentage_range (m : Rounding) (current full : Int) :
    0 ≤ batteryPercentage m current full ∧ batteryPercentage m current full ≤ 100 := by
  obtain ⟨above,below⟩ := clamp_range (by norm_num : (0 : ℚ) ≤ 100) (ratio m current full)
  exact halfUp_range m (by decide : 100 ≤ 127) above below

theorem backlightPercentage_range (m : Rounding) {current maximum : Int} (nonnegative : 0 ≤ current)
    (positive : 0 < maximum) : 0 ≤ backlightPercentage m current maximum ∧ backlightPercentage m current maximum ≤ 100 := by
  apply halfUp_range m (by decide : 100 ≤ 127)
  · split
    · norm_num
    · exact ratio_nonneg m nonnegative positive
  · split
    · norm_num
    · rename_i below
      exact not_lt.mp below

section Capacity
variable (percentage : Int → Int → Int)

def fromPair (device : Device) (pair : String × String) : Option Int :=
  match readLong device pair.1,readLong device pair.2 with
  | some current,some full => if current < 0 ∨ full ≤ 0 then none else some (percentage current full)
  | _,_ => none

def fromPairs (device : Device) : Option Int :=
  [("energy_now","energy_full"),("charge_now","charge_full")].findSome? (fromPair percentage device)

theorem fromPair_some {device : Device} {pair : String × String} {capacity : Int} :
    fromPair percentage device pair = some capacity ↔ ∃ current full, readLong device pair.1 = some current ∧
      readLong device pair.2 = some full ∧ 0 ≤ current ∧ 0 < full ∧ capacity = percentage current full := by
  unfold fromPair
  cases low : readLong device pair.1 with
  | none => exact iff_of_false (by simp) (by simp)
  | some current =>
    cases high : readLong device pair.2 with
    | none => exact iff_of_false (by simp) (by simp)
    | some full =>
      dsimp only
      by_cases outside : current < 0 ∨ full ≤ 0
      · rw [if_pos outside]
        refine iff_of_false (by simp) ?_
        rintro ⟨_,_,⟨⟩,⟨⟩,nonnegative,positive,_⟩
        omega
      · rw [if_neg outside]
        constructor
        · intro found
          exact ⟨current,full,rfl,rfl,by omega,by omega,(Option.some.inj found).symm⟩
        · rintro ⟨_,_,⟨⟩,⟨⟩,_,_,rfl⟩
          rfl

theorem fromPairs_some {device : Device} {capacity : Int} (found : fromPairs percentage device = some capacity) :
    ∃ pair ∈ [("energy_now","energy_full"),("charge_now","charge_full")], fromPair percentage device pair = some capacity :=
  List.exists_of_findSome?_eq_some found

theorem batteryCapacity_cases (device : Device) :
    (∃ direct, readLong device "capacity" = some direct ∧ 0 ≤ direct ∧ direct ≤ 100 ∧
        batteryCapacity percentage device = some direct) ∨
      (¬∃ direct, readLong device "capacity" = some direct ∧ 0 ≤ direct ∧ direct ≤ 100) ∧
        batteryCapacity percentage device = fromPairs percentage device := by
  unfold batteryCapacity
  cases direct : readLong device "capacity" with
  | none => exact .inr ⟨by simp,rfl⟩
  | some value =>
    by_cases inside : 0 ≤ value ∧ value ≤ 100
    · exact .inl ⟨value,rfl,inside.1,inside.2,if_pos inside⟩
    · refine .inr ⟨?_,if_neg inside⟩
      rintro ⟨_,⟨⟩,above,below⟩
      exact inside ⟨above,below⟩

theorem batteryCapacity_charged (device : Device) :
    (batteryCapacity percentage device).isSome = true ↔ Charged device := by
  rcases batteryCapacity_cases percentage device with ⟨direct,read,above,below,same⟩ | ⟨none,same⟩
  · rw [same]
    exact iff_of_true rfl (.inl ⟨direct,read,above,below⟩)
  · rw [same]
    constructor
    · intro found
      obtain ⟨capacity,found⟩ := Option.isSome_iff_exists.mp found
      obtain ⟨pair,member,computed⟩ := fromPairs_some percentage found
      obtain ⟨current,full,low,high,nonnegative,positive,_⟩ := (fromPair_some percentage).mp computed
      exact .inr ⟨pair,member,current,full,low,high,nonnegative,positive⟩
    · rintro (direct | ⟨pair,member,current,full,low,high,nonnegative,positive⟩)
      · exact absurd direct none
      · have computed := (fromPair_some percentage).mpr ⟨current,full,low,high,nonnegative,positive,rfl⟩
        exact List.findSome?_isSome_iff.mpr ⟨pair,member,by rw [computed]; rfl⟩

theorem batteryCapacity_range {device : Device} {capacity : Int}
    (bounded : ∀ current full, 0 ≤ percentage current full ∧ percentage current full ≤ 100)
    (found : batteryCapacity percentage device = some capacity) : 0 ≤ capacity ∧ capacity ≤ 100 := by
  rcases batteryCapacity_cases percentage device with ⟨direct,_,above,below,same⟩ | ⟨_,same⟩
  · rw [same] at found
    exact Option.some.inj found ▸ ⟨above,below⟩
  · rw [same] at found
    obtain ⟨pair,_,computed⟩ := fromPairs_some percentage found
    obtain ⟨current,full,_,_,_,_,rfl⟩ := (fromPair_some percentage).mp computed
    exact bounded current full

end Capacity

section Battery
variable (m : Rounding)

-- What a device stands for when it qualifies.
def batteryCandidate (device : Device) : Option Battery :=
  if hidden device then none
  else if readText device "type" ≠ some (text "Battery") ∨ deviceIsPresent device = false then none
  else (batteryCapacity (batteryPercentage m) device).map fun capacity =>
    ⟨device.name.take nameMax,capacity,(readText device "status").getD (text "Unknown")⟩

theorem deviceIsPresent_iff {device : Device} :
    deviceIsPresent device = true ↔ ∀ present, readLong device "present" = some present → present ≠ 0 := by
  unfold deviceIsPresent
  cases readLong device "present" with
  | none => simp
  | some present => simp

theorem batteryCandidate_some {device : Device} {battery : Battery} :
    batteryCandidate m device = some battery ↔ UsableBattery device ∧
      batteryCapacity (batteryPercentage m) device = some battery.capacity ∧ battery.device = device.name.take nameMax ∧
      battery.status = (readText device "status").getD (text "Unknown") := by
  unfold batteryCandidate
  by_cases dotted : hidden device = true
  · rw [if_pos dotted]
    refine iff_of_false (by simp) ?_
    rintro ⟨usable,_⟩
    rw [usable.visible] at dotted
    cases dotted
  rw [if_neg dotted]
  by_cases other : readText device "type" ≠ some (text "Battery") ∨ deviceIsPresent device = false
  · rw [if_pos other]
    refine iff_of_false (by simp) ?_
    rintro ⟨usable,_⟩
    rcases other with type | absent
    · exact type usable.battery
    · rw [deviceIsPresent_iff.mpr usable.present] at absent
      cases absent
  rw [if_neg other]
  obtain ⟨type,present⟩ := not_or.mp other
  rw [Option.map_eq_some_iff]
  constructor
  · rintro ⟨capacity,found,rfl⟩
    refine ⟨⟨by simpa using dotted,not_not.mp type,?_,?_⟩,found,rfl,rfl⟩
    · exact deviceIsPresent_iff.mp (by simpa using present)
    · exact (batteryCapacity_charged _ device).mp (by rw [found]; rfl)
  · rintro ⟨_,found,name,status⟩
    refine ⟨battery.capacity,found,?_⟩
    rw [← name,← status]

theorem usable_candidate {device : Device} (usable : UsableBattery device) :
    ∃ battery, batteryCandidate m device = some battery := by
  obtain ⟨capacity,found⟩ :=
    Option.isSome_iff_exists.mp ((batteryCapacity_charged (batteryPercentage m) device).mpr usable.charged)
  exact ⟨⟨device.name.take nameMax,capacity,_⟩,(batteryCandidate_some m).mpr ⟨usable,found,rfl,rfl⟩⟩

def batteryRank (_ : Battery) : Nat := 0

theorem considerBattery_candidate (selected : Option Battery) {device : Device} (fits : device.name.length ≤ nameMax) :
    considerBattery (batteryPercentage m) selected device = match batteryCandidate m device with
      | none => selected
      | some found => pick (ranked batteryRank Battery.device) selected found := by
  unfold considerBattery batteryCandidate
  split
  · rfl
  split
  · rfl
  cases batteryCapacity (batteryPercentage m) device with
  | none => rfl
  | some capacity =>
    cases selected with
    | none => rfl
    | some chosen => simp [pick,ranked,batteryRank,List.take_of_length_le fits]

-- The outputs that stand for a selection.
def BatteryOutputs.hold (before : BatteryOutputs) : Option Battery → BatteryOutputs
  | none => { before with found := false }
  | some battery => ⟨true,battery.device,battery.capacity,battery.status⟩

theorem batteryStep_hold (before : BatteryOutputs) (selected : Option Battery) (device : Device) :
    batteryStep m (before.hold selected) device =
      before.hold (considerBattery (batteryPercentage m) selected device) := by
  unfold batteryStep considerBattery
  split
  · rfl
  split
  · rfl
  cases batteryCapacity (batteryPercentage m) device with
  | none => rfl
  | some capacity =>
    cases selected with
    | none => simp [BatteryOutputs.hold]
    | some chosen =>
      by_cases smaller : device.name < chosen.device
      · simp [BatteryOutputs.hold,smaller]
      · simp [BatteryOutputs.hold,smaller]

-- The outputs stay in step with the record the scan is about.
theorem batteryFold_hold (before : BatteryOutputs) (selected : Option Battery) (devices : List Device) :
    devices.foldl (batteryStep m) (before.hold selected) =
      before.hold (devices.foldl (considerBattery (batteryPercentage m)) selected) := by
  induction devices generalizing selected with
  | nil => rfl
  | cons device rest ih => rw [List.foldl_cons,List.foldl_cons,batteryStep_hold,ih]

theorem battery_select {devices : List Device} (fits : ∀ device ∈ devices, device.name.length ≤ nameMax) :
    devices.foldl (considerBattery (batteryPercentage m)) none =
      select (ranked batteryRank Battery.device) (devices.filterMap (batteryCandidate m)) := by
  apply fold_candidates
  · intro selected device member none
    rw [considerBattery_candidate m selected (fits device member),none]
  · intro selected device member found candidate
    rw [considerBattery_candidate m selected (fits device member),candidate]

theorem battery_total (directory : Directory) :
    Total (ranked batteryRank Battery.device) (directory.devices.filterMap (batteryCandidate m)) := by
  apply ranked_total
  refine candidates_distinct ?_ directory.distinct
  intro device member battery found
  rw [((batteryCandidate_some m).mp found).2.2.1,List.take_of_length_le (directory.fits device member)]

theorem scanBattery_hold (directory : Directory) (before : BatteryOutputs) :
    scanBattery m (some directory) before = before.hold
      (select (ranked batteryRank Battery.device) (directory.devices.filterMap (batteryCandidate m))) := by
  rw [← battery_select m directory.fits,← batteryFold_hold]
  rfl

theorem scanBattery_chosen (directory : Directory) (before : BatteryOutputs) :
    (scanBattery m (some directory) before = { before with found := false } ∧
        ∀ device ∈ directory.devices, ¬UsableBattery device) ∨
      ∃ device, BatteryChosen m directory.devices device (scanBattery m (some directory) before) := by
  rw [scanBattery_hold]
  rcases select_best (battery_total m directory) with ⟨nothing,empty⟩ | ⟨battery,picked,best⟩
  · rw [nothing]
    refine .inl ⟨rfl,?_⟩
    intro device member usable
    obtain ⟨battery,found⟩ := usable_candidate m usable
    have listed := List.mem_filterMap.mpr ⟨device,member,found⟩
    rw [empty] at listed
    exact List.not_mem_nil listed
  · rw [picked]
    obtain ⟨device,member,found⟩ := List.mem_filterMap.mp best.member
    obtain ⟨usable,capacity,name,status⟩ := (batteryCandidate_some m).mp found
    rw [List.take_of_length_le (directory.fits device member)] at name
    refine .inr ⟨device,member,usable,?_,rfl,name,capacity,?_,status⟩
    · intro other listed rival different
      obtain ⟨second,second_found⟩ := usable_candidate m rival
      have second_name := ((batteryCandidate_some m).mp second_found).2.2.1
      rw [List.take_of_length_le (directory.fits other listed)] at second_name
      have names : second ≠ battery := by
        rintro rfl
        exact different (List.inj_on_of_nodup_map directory.distinct listed member (second_name.symm.trans name))
      have smaller := (ranked_best best).2 second (List.mem_filterMap.mpr ⟨other,listed,second_found⟩) rfl names
      rwa [name,second_name] at smaller
    · exact batteryCapacity_range _ (batteryPercentage_range m) capacity

end Battery

section Backlight
variable (m : Rounding)

def backlightCandidate (device : Device) : Option Backlight :=
  if hidden device then none
  else match readLong device "max_brightness",level device with
    | some maximum,some current =>
      if maximum ≤ 0 ∨ current < 0 then none
      else some ⟨device.name.take nameMax,typeRank device,backlightPercentage m current maximum,device.writable⟩
    | _,_ => none

theorem backlightCandidate_some {device : Device} {backlight : Backlight} :
    backlightCandidate m device = some backlight ↔ hidden device = false ∧ ∃ maximum current,
      readLong device "max_brightness" = some maximum ∧ level device = some current ∧ 0 < maximum ∧ 0 ≤ current ∧
      backlight = ⟨device.name.take nameMax,typeRank device,backlightPercentage m current maximum,device.writable⟩ := by
  unfold backlightCandidate
  by_cases dotted : hidden device = true
  · rw [if_pos dotted,dotted]
    exact iff_of_false (by simp) (by simp)
  rw [if_neg dotted]
  cases top : readLong device "max_brightness" with
  | none => exact iff_of_false (by simp) (by simp)
  | some maximum =>
    cases now : level device with
    | none => exact iff_of_false (by simp) (by simp)
    | some current =>
      dsimp only
      by_cases outside : maximum ≤ 0 ∨ current < 0
      · rw [if_pos outside]
        refine iff_of_false (by simp) ?_
        rintro ⟨_,_,_,⟨⟩,⟨⟩,positive,nonnegative,_⟩
        omega
      · rw [if_neg outside]
        constructor
        · intro found
          exact ⟨by simpa using dotted,maximum,current,rfl,rfl,by omega,by omega,(Option.some.inj found).symm⟩
        · rintro ⟨_,_,_,⟨⟩,⟨⟩,_,_,rfl⟩
          rfl

theorem usable_backlight {device : Device} (usable : UsableBacklight device) :
    ∃ backlight, backlightCandidate m device = some backlight := by
  obtain ⟨visible,⟨maximum,top,positive⟩,⟨current,now,nonnegative⟩⟩ := usable
  exact ⟨_,(backlightCandidate_some m).mpr ⟨visible,maximum,current,top,now,positive,nonnegative,rfl⟩⟩

theorem considerBacklight_candidate (selected : Option Backlight) {device : Device} (fits : device.name.length ≤ nameMax) :
    considerBacklight (backlightPercentage m) selected device = match backlightCandidate m device with
      | none => selected
      | some found => pick (ranked Backlight.rank Backlight.device) selected found := by
  unfold considerBacklight backlightCandidate
  split
  · rfl
  cases readLong device "max_brightness" with
  | none => rfl
  | some maximum =>
    cases level device with
    | none => rfl
    | some current =>
      dsimp only
      split
      · rfl
      cases selected with
      | none => rfl
      | some chosen =>
        dsimp only
        rw [pick]
        by_cases better : ranked Backlight.rank Backlight.device
            ⟨device.name.take nameMax,typeRank device,backlightPercentage m current maximum,device.writable⟩ chosen = true
        · rw [if_pos better]
          rw [ranked_iff,List.take_of_length_le fits] at better
          dsimp only at better
          rw [if_neg]
          rintro (lower | ⟨level,larger⟩)
          · omega
          · rcases better with higher | ⟨_,smaller⟩
            · omega
            · exact larger smaller
        · rw [if_neg better]
          rw [ranked_iff,List.take_of_length_le fits] at better
          dsimp only at better
          rw [if_pos]
          rcases Nat.lt_trichotomy (typeRank device) chosen.rank with lower | level | higher
          · exact .inl lower
          · exact .inr ⟨level,fun smaller => better (.inr ⟨level,smaller⟩)⟩
          · exact absurd (.inl higher) better

def BacklightOutputs.hold (before : BacklightOutputs) : Option Backlight → BacklightOutputs
  | none => { before with found := false, selectedRank := -1 }
  | some backlight => ⟨true,backlight.device,backlight.rank,backlight.percent,backlight.writable⟩

theorem backlightStep_hold (before : BacklightOutputs) (selected : Option Backlight) (device : Device) :
    backlightStep m (before.hold selected) device =
      before.hold (considerBacklight (backlightPercentage m) selected device) := by
  unfold backlightStep considerBacklight
  split
  · rfl
  cases readLong device "max_brightness" with
  | none => rfl
  | some maximum =>
    cases level device with
    | none => rfl
    | some current =>
      dsimp only
      split
      · rfl
      cases selected with
      | none => simp [BacklightOutputs.hold]
      | some chosen =>
        by_cases worse : typeRank device < chosen.rank ∨ (typeRank device = chosen.rank ∧ ¬device.name < chosen.device)
        · have kept : (typeRank device : Int) < chosen.rank ∨
              ((typeRank device : Int) = chosen.rank ∧ ¬device.name < chosen.device) := by exact_mod_cast worse
          dsimp only
          rw [if_pos worse]
          exact if_pos ⟨rfl,kept⟩
        · have replaced : ¬((typeRank device : Int) < chosen.rank ∨
              ((typeRank device : Int) = chosen.rank ∧ ¬device.name < chosen.device)) := by exact_mod_cast worse
          dsimp only
          rw [if_neg worse]
          exact if_neg fun both => replaced both.2

theorem backlightFold_hold (before : BacklightOutputs) (selected : Option Backlight) (devices : List Device) :
    devices.foldl (backlightStep m) (before.hold selected) =
      before.hold (devices.foldl (considerBacklight (backlightPercentage m)) selected) := by
  induction devices generalizing selected with
  | nil => rfl
  | cons device rest ih => rw [List.foldl_cons,List.foldl_cons,backlightStep_hold,ih]

theorem backlight_select {devices : List Device} (fits : ∀ device ∈ devices, device.name.length ≤ nameMax) :
    devices.foldl (considerBacklight (backlightPercentage m)) none =
      select (ranked Backlight.rank Backlight.device) (devices.filterMap (backlightCandidate m)) := by
  apply fold_candidates
  · intro selected device member none
    rw [considerBacklight_candidate m selected (fits device member),none]
  · intro selected device member found candidate
    rw [considerBacklight_candidate m selected (fits device member),candidate]

theorem backlight_total (directory : Directory) :
    Total (ranked Backlight.rank Backlight.device) (directory.devices.filterMap (backlightCandidate m)) := by
  apply ranked_total
  refine candidates_distinct ?_ directory.distinct
  intro device member backlight found
  obtain ⟨_,_,_,_,_,_,_,rfl⟩ := (backlightCandidate_some m).mp found
  exact List.take_of_length_le (directory.fits device member)

theorem scanBacklight_hold (directory : Directory) (before : BacklightOutputs) :
    scanBacklight m (some directory) before = before.hold
      (select (ranked Backlight.rank Backlight.device) (directory.devices.filterMap (backlightCandidate m))) := by
  rw [← backlight_select m directory.fits,← backlightFold_hold]
  rfl

theorem scanBacklight_chosen (directory : Directory) (before : BacklightOutputs) :
    (scanBacklight m (some directory) before = { before with found := false, selectedRank := -1 } ∧
        ∀ device ∈ directory.devices, ¬UsableBacklight device) ∨
      ∃ device, BacklightChosen m directory.devices device (scanBacklight m (some directory) before) := by
  rw [scanBacklight_hold]
  rcases select_best (backlight_total m directory) with ⟨nothing,empty⟩ | ⟨backlight,picked,best⟩
  · rw [nothing]
    refine .inl ⟨rfl,?_⟩
    intro device member usable
    obtain ⟨backlight,found⟩ := usable_backlight m usable
    have listed := List.mem_filterMap.mpr ⟨device,member,found⟩
    rw [empty] at listed
    exact List.not_mem_nil listed
  · rw [picked]
    obtain ⟨highest,smallest⟩ := ranked_best best
    obtain ⟨device,member,found⟩ := List.mem_filterMap.mp best.member
    obtain ⟨visible,maximum,current,top,now,positive,nonnegative,rfl⟩ := (backlightCandidate_some m).mp found
    have name := List.take_of_length_le (directory.fits device member)
    -- Every usable device is a candidate under its own rank and name.
    have rivals : ∀ other ∈ directory.devices, UsableBacklight other → ∃ rival,
        rival ∈ directory.devices.filterMap (backlightCandidate m) ∧ rival.rank = typeRank other ∧
          rival.device = other.name := by
      intro other listed usable
      obtain ⟨rival,rival_found⟩ := usable_backlight m usable
      refine ⟨rival,List.mem_filterMap.mpr ⟨other,listed,rival_found⟩,?_⟩
      obtain ⟨_,_,_,_,_,_,_,rfl⟩ := (backlightCandidate_some m).mp rival_found
      exact ⟨rfl,List.take_of_length_le (directory.fits other listed)⟩
    refine .inr ⟨device,member,⟨visible,⟨maximum,top,positive⟩,⟨current,now,nonnegative⟩⟩,?_,?_,rfl,name,
      ⟨current,maximum,now,top,rfl⟩,backlightPercentage_range m nonnegative positive,rfl⟩
    · intro other listed usable
      obtain ⟨rival,candidate,rank,_⟩ := rivals other listed usable
      rw [← rank]
      exact highest rival candidate
    · intro other listed usable level different
      obtain ⟨rival,candidate,rank,rival_name⟩ := rivals other listed usable
      have names : rival ≠ ⟨device.name.take nameMax,typeRank device,backlightPercentage m current maximum,
          device.writable⟩ := by
        rintro rfl
        exact different (List.inj_on_of_nodup_map directory.distinct listed member (rival_name.symm.trans name))
      have smaller := smallest rival candidate (rank.trans level) names
      rwa [rival_name,name] at smaller

end Backlight

-- The tables lsnapshot builds from its locals are those published.
def BatteryOutputs.table (outputs : BatteryOutputs) : BatteryTable :=
  ⟨outputs.found,outputs.capacity,outputs.selected,outputs.status⟩

def BacklightOutputs.table (outputs : BacklightOutputs) : BrightnessTable :=
  ⟨outputs.found,outputs.found && outputs.writable,outputs.selected,outputs.percentage⟩

theorem snapshot_battery (m : Rounding) (directory : Option Directory) :
    (scanBattery m directory ⟨false,[],0,[]⟩).table =
      batteryTable (findBattery (batteryPercentage m) (directory.map Directory.devices)) := by
  have folded := batteryFold_hold m ⟨false,[],0,[]⟩ none (listed directory)
  change (List.foldl (batteryStep m) (BatteryOutputs.hold ⟨false,[],0,[]⟩ none) (listed directory)).table =
    batteryTable ((listed directory).foldl (considerBattery (batteryPercentage m)) none)
  rw [folded]
  cases (listed directory).foldl (considerBattery (batteryPercentage m)) none with
  | none => rfl
  | some battery => rfl

theorem snapshot_backlight (m : Rounding) (directory : Option Directory) :
    (scanBacklight m directory ⟨false,[],-1,0,false⟩).table =
      brightnessTable (findBacklight (backlightPercentage m) (directory.map Directory.devices)) := by
  have folded := backlightFold_hold m ⟨false,[],-1,0,false⟩ none (listed directory)
  change (List.foldl (backlightStep m) (BacklightOutputs.hold ⟨false,[],-1,0,false⟩ none) (listed directory)).table =
    brightnessTable ((listed directory).foldl (considerBacklight (backlightPercentage m)) none)
  rw [folded]
  cases (listed directory).foldl (considerBacklight (backlightPercentage m)) none with
  | none => rfl
  | some backlight => simp [BacklightOutputs.hold,BacklightOutputs.table,brightnessTable]

theorem devices_selected (m : Rounding) (directory : Directory) :
    (∀ before, (scanBattery m (some directory) before = { before with found := false } ∧
          ∀ device ∈ directory.devices, ¬UsableBattery device) ∨
        ∃ device, BatteryChosen m directory.devices device (scanBattery m (some directory) before)) ∧
    (∀ before, (scanBacklight m (some directory) before = { before with found := false, selectedRank := -1 } ∧
          ∀ device ∈ directory.devices, ¬UsableBacklight device) ∨
        ∃ device, BacklightChosen m directory.devices device (scanBacklight m (some directory) before)) ∧
    ∀ reordered : Directory, directory.devices.Perm reordered.devices →
      (∀ before, scanBattery m (some reordered) before = scanBattery m (some directory) before) ∧
      ∀ before, scanBacklight m (some reordered) before = scanBacklight m (some directory) before := by
  refine ⟨scanBattery_chosen m directory,scanBacklight_chosen m directory,?_⟩
  intro reordered perm
  refine ⟨?_,?_⟩
  · intro before
    rw [scanBattery_hold,scanBattery_hold,select_perm (battery_total m directory) (perm.filterMap _)]
  · intro before
    rw [scanBacklight_hold,scanBacklight_hold,select_perm (backlight_total m directory) (perm.filterMap _)]

def attributes (entries : List (String × String)) (name : Bytes) : Option Bytes :=
  (entries.find? fun entry => text entry.1 == name).map fun entry => text entry.2

def backlights : Directory where
  devices :=
    [⟨text "acpi_video0",attributes [("brightness","100\n"),("max_brightness","400\n"),("type","firmware\n")],true⟩,
     ⟨text "intel_backlight",attributes [("brightness","200\n"),("max_brightness","800\n"),("type","raw\n")],true⟩]
  distinct := by decide
  fits := by decide

example : scanBacklight exact (some backlights) ⟨false,[],0,0,false⟩ = ⟨true,text "intel_backlight",3,25,true⟩ := by
  decide +kernel

end Hypringo.DeviceScan

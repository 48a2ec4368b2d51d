import Hypringo.Control
import Hypringo.Json

namespace Hypringo.Devices
open Hypringo.Lua Json Control Pattern Numeral

def valueCapacity : Nat := 128
def nameMax : Nat := 255

-- A device directory as readdir names it. `contents` is what one read of an
-- attribute gives, none when its path is too long or it cannot be opened or read;
-- `writable` is the answer of access on the brightness file.
structure Device where
  name : Bytes
  contents : Bytes → Option Bytes
  writable : Bool

def trailing (b : UInt8) : Bool := b == 10 || b == 13 || b == 32 || b == 9

def readText (device : Device) (name : String) : Option Bytes :=
  match device.contents (text name) with
  | none => none
  | some contents =>
    let value := ((contents.take (valueCapacity - 1)).reverse.dropWhile trailing).reverse
    if value = [] then none else some (cString value)

def isSpace (b : UInt8) : Bool := b == 32 || (decide (9 ≤ b.toNat) && decide (b.toNat ≤ 13))

def signed : Bytes → Bool × Bytes
  | 45 :: rest => (true,rest)
  | 43 :: rest => (false,rest)
  | s => (false,s)

-- strtol in base 10, as far as read_long asks: the whole text is one number in
-- the range of long.
def strtol (s : Bytes) : Option Int :=
  let (negative,body) := signed (s.dropWhile isSpace)
  if body ≠ [] ∧ body.all digit = true then
    let magnitude : Nat := body.foldl (fun n b => n * 10 + digitValue b) 0
    let value : Int := if negative then -magnitude else magnitude
    if -2^63 ≤ value ∧ value < 2^63 then some value else none
  else none

def readLong (device : Device) (name : String) : Option Int := (readText device name).bind strtol

def deviceIsPresent (device : Device) : Bool :=
  match readLong device "present" with
  | none => true
  | some present => decide (present ≠ 0)

def hidden (device : Device) : Bool := device.name.head? == some 46

section

-- (int)(current * 100.0L / full + 0.5L), the quotient clamped to 0..100: the
-- rounding of long double is the machine's.
variable (percentage : Int → Int → Int)

def batteryCapacity (device : Device) : Option Int :=
  let fromPair : String × String → Option Int := fun pair =>
    match readLong device pair.1,readLong device pair.2 with
    | some current,some full => if current < 0 ∨ full ≤ 0 then none else some (percentage current full)
    | _,_ => none
  match readLong device "capacity" with
  | some direct =>
    if 0 ≤ direct ∧ direct ≤ 100 then some direct
    else [("energy_now","energy_full"),("charge_now","charge_full")].findSome? fromPair
  | none => [("energy_now","energy_full"),("charge_now","charge_full")].findSome? fromPair

structure Battery where
  device : Bytes
  capacity : Int
  status : Bytes
  deriving DecidableEq, Repr

def considerBattery (selected : Option Battery) (device : Device) : Option Battery :=
  if hidden device then selected
  else if readText device "type" ≠ some (text "Battery") ∨ deviceIsPresent device = false then selected
  else match batteryCapacity percentage device with
    | none => selected
    | some capacity =>
      let candidate : Battery :=
        ⟨device.name.take nameMax,capacity,(readText device "status").getD (text "Unknown")⟩
      match selected with
      | none => some candidate
      | some chosen => if device.name < chosen.device then some candidate else selected

-- A class directory that cannot be opened lists nothing.
def findBattery (directory : Option (List Device)) : Option Battery :=
  (directory.getD []).foldl (considerBattery percentage) none

structure Backlight where
  device : Bytes
  rank : Nat
  percent : Int
  writable : Bool
  deriving DecidableEq, Repr

def typeRank (device : Device) : Nat :=
  match readText device "type" with
  | some type =>
    if type = text "raw" then 3 else if type = text "platform" then 2 else if type = text "firmware" then 1 else 0
  | none => 0

def level (device : Device) : Option Int := (readLong device "actual_brightness").or (readLong device "brightness")

def considerBacklight (selected : Option Backlight) (device : Device) : Option Backlight :=
  if hidden device then selected
  else match readLong device "max_brightness",level device with
    | some maximum,some current =>
      if maximum ≤ 0 ∨ current < 0 then selected
      else
        let candidate : Backlight :=
          ⟨device.name.take nameMax,typeRank device,percentage current maximum,device.writable⟩
        match selected with
        | none => some candidate
        | some chosen =>
          if typeRank device < chosen.rank ∨ (typeRank device = chosen.rank ∧ ¬device.name < chosen.device) then selected
          else some candidate
    | _,_ => selected

def findBacklight (directory : Option (List Device)) : Option Backlight :=
  (directory.getD []).foldl (considerBacklight percentage) none

-- What one scan finds below the sysfs root.
structure Scan where
  powerSupply : Option (List Device)
  backlight : Option (List Device)

structure BatteryTable where
  available : Bool
  capacity : Int
  device : Bytes
  status : Bytes
  deriving DecidableEq, Repr

structure BrightnessTable where
  available : Bool
  set : Bool
  device : Bytes
  percent : Int
  deriving DecidableEq, Repr

def BatteryTable.cleared : BatteryTable := ⟨false,0,[],[]⟩
def BrightnessTable.cleared : BrightnessTable := ⟨false,false,[],0⟩

def batteryTable : Option Battery → BatteryTable
  | some battery => ⟨true,battery.capacity,battery.device,battery.status⟩
  | none => .cleared

def brightnessTable : Option Backlight → BrightnessTable
  | some backlight => ⟨true,backlight.writable,backlight.device,backlight.percent⟩
  | none => .cleared

-- The table the system service publishes.
structure Patch where
  available : Bool
  battery : BatteryTable
  brightness : BrightnessTable
  error : Bytes
  deriving DecidableEq, Repr

def snapshot (scan : Scan) : Patch where
  available := true
  battery := batteryTable (findBattery percentage scan.powerSupply)
  brightness := brightnessTable (findBacklight percentage scan.backlight)
  error := []

end

def unavailable (message : Option Bytes) : Patch where
  available := false
  battery := .cleared
  brightness := .cleared
  error := message.getD []

def BatteryTable.document (battery : BatteryTable) : Doc :=
  .object
    [(text "available",.boolean battery.available),(text "capacity",.sint battery.capacity),
     (text "device",.string battery.device),(text "status",.string battery.status)]

def BrightnessTable.document (brightness : BrightnessTable) : Doc :=
  .object
    [(text "available",.boolean brightness.available),
     (text "capabilities",.object [(text "set",.boolean brightness.set)]),
     (text "device",.string brightness.device),(text "percent",.sint brightness.percent)]

def Patch.fields (patch : Patch) : List (Bytes × Doc) :=
  [(text "available",.boolean patch.available),
   (text "battery",patch.battery.document),
   (text "brightness",patch.brightness.document),
   (text "error",.string patch.error)]

-- Outputs are written for a selected device only.
theorem battery_cleared {found : Option Battery} (absent : (batteryTable found).available = false) :
    batteryTable found = .cleared := by
  cases found with
  | none => rfl
  | some battery => cases absent

theorem brightness_cleared {found : Option Backlight} (absent : (brightnessTable found).available = false) :
    brightnessTable found = .cleared := by
  cases found with
  | none => rfl
  | some backlight => cases absent

end Hypringo.Devices

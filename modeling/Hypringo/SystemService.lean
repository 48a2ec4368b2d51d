import Hypringo.Brightness
import Hypringo.Dispatch
import Hypringo.Reload

namespace Hypringo.SystemService
open Hypringo.Lua Control Devices DeviceScan LongDouble Brightness

-- What one call finds below a sysfs root: the class directories as readdir
-- lists them, and for every name of the backlight class what its files give,
-- listed or not.
structure Sysfs where
  powerSupply : Option Directory
  backlight : Option Directory
  files : Bytes → Device
  lists : ∀ device ∈ listed backlight, files device.name = device
  named : ∀ name, (files name).name = name
  plain : ∀ device ∈ listed backlight, device.name ≠ [] ∧ slash ∉ device.name

structure Service where
  sourceConfig : Configuration.System
  current : Option Patch
  stopping : Bool
  sent : List Patch

def start (config : Configuration.System) : Service := ⟨config,none,false,[]⟩

inductive Reply where
  | done
  | refused (message : Bytes)
  | argument (index : Nat) (message : Bytes)
  deriving DecidableEq, Repr

-- A level written to the brightness file of a device below a root.
structure Write where
  root : Bytes
  device : Bytes
  level : Bytes
  deriving DecidableEq, Repr

structure Turn where
  service : Service
  written : Option Write
  reply : Reply

def publish (service : Service) (patch : Patch) : Service :=
  { service with current := some patch, sent := service.sent ++ [patch] }

section Machine
variable (m : Rounding)

def snapshot (sysfs : Sysfs) : Patch where
  available := true
  battery := (scanBattery m sysfs.powerSupply ⟨false,[],0,[]⟩).table
  brightness := (scanBacklight m sysfs.backlight ⟨false,[],-1,0,false⟩).table
  error := []

-- A scan gives what is found below each root, of which it looks at one.
def refresh (service : Service) (scan : Bytes → Except Bytes Sysfs) : Service :=
  match scan service.sourceConfig.sysfsRoot with
  | .error message => publish service (unavailable (some message))
  | .ok sysfs => publish service (snapshot m sysfs)

-- The files are those found while the level is set, and `after` is what the
-- scan behind it finds.
def dispatch (service : Service) (name : Bytes) (value : Int) (sysfs : Bytes → Sysfs) (answers : Answers)
    (after : Bytes → Except Bytes Sysfs) : Turn :=
  if name ≠ text "set-brightness" then ⟨service,none,.refused (text "unsupported system action")⟩
  else match service.current with
    | none => ⟨service,none,.refused (text "brightness device is unavailable")⟩
    | some patch =>
      if !patch.brightness.available then ⟨service,none,.refused (text "brightness device is unavailable")⟩
      else if !patch.brightness.set then ⟨service,none,.refused (text "brightness device is read-only")⟩
      else
        let root := service.sourceConfig.sysfsRoot
        let call := setBrightness m ((sysfs root).files patch.brightness.device) value answers
        let written := call.written.map (Write.mk root patch.brightness.device)
        match call.outcome with
        | .argument index message => ⟨service,written,.argument index message⟩
        | .failed message => ⟨service,written,.refused message⟩
        | .set => ⟨refresh m service after,written,.done⟩

inductive Event where
  | refresh (scan : Bytes → Except Bytes Sysfs)
  | dispatch (name : Bytes) (value : Int) (sysfs : Bytes → Sysfs) (answers : Answers)
      (after : Bytes → Except Bytes Sysfs)
  | reload (candidate : Configuration.Config)
  | quit

def apply (service : Service) : Event → Service
  | .refresh scan => if service.stopping then service else refresh m service scan
  | .dispatch name value sysfs answers after => (dispatch m service name value sysfs answers after).service
  | .reload candidate => { service with sourceConfig := candidate.sources.system }
  | .quit => { service with stopping := true }

end Machine

-- A dispatch is a call the actions service makes of a command. A reload comes
-- from the state service, which has compared the candidate with the
-- configuration in use; that one shares its topology with the one at boot.
def Possible (boot : Configuration.Config) (_ : Service) : Event → Prop
  | .dispatch name value _ _ _ => ∃ config reply command effects, ∃ number : Int64, number.toInt = value ∧
    Actions.dispatch config reply command = .ok effects ∧
      (.system,name,.integer number) ∈ Dispatch.calls effects
  | .reload candidate => ∃ current, Reload.Topology boot current ∧ Configuration.reloadable current candidate = .ok ()
  | _ => True

-- What is written is the level for the requested percentage, to the file of the
-- device last published as one that can be set. Only what the service supports
-- is asked for, nothing it calls raises, and what was set successfully has been
-- scanned and published again.
structure Guarded (m : Rounding) (root : Bytes) (service : Service) (name : Bytes) (value : Int) (sysfs : Bytes → Sysfs)
    (answers : Answers) (after : Bytes → Except Bytes Sysfs) (turn : Turn) : Prop where
  written : ∀ write, turn.written = some write → write.root = root ∧ ∃ patch, service.sent.getLast? = some patch ∧
    patch.brightness.available = true ∧ patch.brightness.set = true ∧ patch.brightness.device = write.device ∧
    validDeviceName write.device = true ∧ ∃ maximum,
      readLong ((sysfs root).files write.device) "max_brightness" = some maximum ∧
        0 < maximum ∧ write.level = levelText (rawLevel m maximum value)
  asked : name = text "set-brightness" ∧ 0 ≤ value ∧ value ≤ 100
  argument : ∀ index message, turn.reply ≠ .argument index message
  published : turn.reply = .done → turn.service = refresh m service after ∧ ∃ written, turn.written = some written
  kept : turn.reply ≠ .done → turn.service = service
  shown : m = exact → turn.reply = .done → ∀ write maximum later, turn.written = some write →
    readLong ((sysfs root).files write.device) "max_brightness" = some maximum → 100 ≤ maximum →
    after root = .ok later → Follows ((sysfs root).files write.device) write.level (later.files write.device) →
    ∀ patch, turn.service.sent.getLast? = some patch → patch.brightness.available = true →
      patch.brightness.device = write.device → patch.brightness.percent = value

-- What a scan below this root makes of it.
def scanned (m : Rounding) : Except Bytes Sysfs → Patch
  | .error message => unavailable (some message)
  | .ok sysfs => snapshot m sysfs

structure Sound (m : Rounding) (root : Bytes) (service : Service) (event : Event) : Prop where
  rooted : service.sourceConfig.sysfsRoot = root
  scans : ∀ scan, event = .refresh scan → service.stopping = false →
    (apply m service event).sent = service.sent ++ [scanned m (scan root)]
  dispatches : ∀ name value sysfs answers after, event = .dispatch name value sysfs answers after →
    Guarded m root service name value sysfs answers after (dispatch m service name value sysfs answers after)

-- A name that readdir gives and the scan does not skip is one path component.
theorem selected_plain (m : Rounding) (sysfs : Sysfs) (available : (snapshot m sysfs).brightness.available = true) :
    validDeviceName (snapshot m sysfs).brightness.device = true ∧
      ∃ device ∈ listed sysfs.backlight, device.name = (snapshot m sysfs).brightness.device := by
  obtain ⟨powerSupply,backlight,files,lists,named,plain⟩ := sysfs
  cases backlight with
  | none => cases available
  | some directory =>
    rcases scanBacklight_chosen m directory ⟨false,[],-1,0,false⟩ with ⟨unchanged,_⟩ | ⟨device,chosen⟩
    · simp only [snapshot,unchanged,BacklightOutputs.table] at available
      cases available
    · have name : (snapshot m ⟨powerSupply,some directory,files,lists,named,plain⟩).brightness.device = device.name := chosen.name
      rw [name]
      obtain ⟨nonempty,unslashed⟩ := plain device chosen.member
      have visible := chosen.usable.visible
      refine ⟨?_,device,chosen.member,rfl⟩
      have dotless : ∀ rest, device.name ≠ 46 :: rest := by
        intro rest dotted
        rw [Devices.hidden,dotted] at visible
        cases visible
      simp only [validDeviceName,nonempty,ne_eq,not_false_eq_true,decide_true,Bool.true_and,Bool.and_eq_true,
        decide_eq_true_eq,Bool.not_eq_true',List.contains_eq_mem,decide_eq_false_iff_not]
      exact ⟨⟨dotless [],dotless [46]⟩,unslashed⟩

structure Invariant (root : Bytes) (service : Service) : Prop where
  root : service.sourceConfig.sysfsRoot = root
  current : service.current = service.sent.getLast?
  plain : ∀ patch, service.current = some patch → patch.brightness.available = true →
    validDeviceName patch.brightness.device = true

variable {m : Rounding} {root : Bytes} {service : Service}

theorem publish_invariant {patch : Patch} (invariant : Invariant root service)
    (plain : patch.brightness.available = true → validDeviceName patch.brightness.device = true) :
    Invariant root (publish service patch) := by
  refine ⟨invariant.root,by simp [publish],?_⟩
  intro shown same
  cases same
  exact plain

theorem refresh_scanned (m : Rounding) (service : Service) (scan : Bytes → Except Bytes Sysfs) :
    refresh m service scan = publish service (scanned m (scan service.sourceConfig.sysfsRoot)) := by
  unfold refresh
  cases scan service.sourceConfig.sysfsRoot <;> rfl

theorem refresh_invariant (scan : Bytes → Except Bytes Sysfs) (invariant : Invariant root service) :
    Invariant root (refresh m service scan) := by
  rw [refresh_scanned]
  cases scan service.sourceConfig.sysfsRoot with
  | error message => exact publish_invariant invariant fun available => by cases available
  | ok sysfs => exact publish_invariant invariant fun available => (selected_plain m sysfs available).1

-- The three ways past the checks of S.dispatch.
theorem dispatch_cases (m : Rounding) (service : Service) (name : Bytes) (value : Int) (sysfs : Bytes → Sysfs)
    (answers : Answers) (after : Bytes → Except Bytes Sysfs) :
    (∃ message, dispatch m service name value sysfs answers after = ⟨service,none,.refused message⟩) ∨
      ∃ patch call, service.current = some patch ∧ patch.brightness.available = true ∧ patch.brightness.set = true ∧
        call = setBrightness m ((sysfs service.sourceConfig.sysfsRoot).files patch.brightness.device) value answers ∧
        (dispatch m service name value sysfs answers after).written =
          call.written.map (Write.mk service.sourceConfig.sysfsRoot patch.brightness.device) ∧
        ((∃ index message, call.outcome = .argument index message) ∨
          (∃ message, (dispatch m service name value sysfs answers after).reply = .refused message ∧
            call.outcome = .failed message ∧ (dispatch m service name value sysfs answers after).service = service) ∨
          (dispatch m service name value sysfs answers after).reply = .done ∧ call.outcome = .set ∧
            (dispatch m service name value sysfs answers after).service = refresh m service after) := by
  unfold dispatch
  split
  · exact .inl ⟨_,rfl⟩
  cases current : service.current with
  | none => exact .inl ⟨_,rfl⟩
  | some patch =>
    dsimp only
    cases available : patch.brightness.available with
    | false => exact .inl ⟨_,rfl⟩
    | true =>
      cases settable : patch.brightness.set with
      | false => exact .inl ⟨_,rfl⟩
      | true =>
        refine .inr ⟨patch,_,rfl,available,settable,rfl,?_⟩
        simp only [Bool.not_true,Bool.false_eq_true,if_false]
        cases outcome : (setBrightness m ((sysfs service.sourceConfig.sysfsRoot).files patch.brightness.device) value
          answers).outcome with
        | argument index message => exact ⟨rfl,.inl ⟨index,message,rfl⟩⟩
        | failed message => exact ⟨rfl,.inr (.inl ⟨message,rfl,rfl,rfl⟩)⟩
        | set => exact ⟨rfl,.inr (.inr ⟨rfl,rfl,rfl⟩)⟩

theorem called_percentage {name : Bytes} {value : Int} {sysfs : Bytes → Sysfs} {answers : Answers}
    {after : Bytes → Except Bytes Sysfs} {boot : Configuration.Config}
    (possible : Possible boot service (.dispatch name value sysfs answers after)) :
    name = text "set-brightness" ∧ 0 ≤ value ∧ value ≤ 100 := by
  obtain ⟨config,reply,command,effects,number,rfl,done,called⟩ := possible
  obtain ⟨action,parsed⟩ := Dispatch.dispatch_called config reply done (List.ne_nil_of_mem called)
  have denoted := Dispatch.denoted_of_parse parsed
  have named : command ≠ text "reload" := by
    rintro rfl
    exact Dispatch.reload_undenoted action denoted
  obtain ⟨others,same,listed⟩ := Dispatch.dispatch_parsed config reply named parsed
  rw [same] at done
  cases done
  rw [listed] at called
  split at called
  · obtain ⟨service,rfl,same⟩ : .system = Dispatch.serviceOf action.domain ∧ name = action.name ∧ .integer number = action.value := by
      simpa using called
    cases denoted with
    | brightness digits shape range =>
      cases same
      obtain ⟨-,exactly⟩ := Dispatch.small_integral range
      rw [exactly]
      exact ⟨rfl,by omega,by omega⟩
    | _ => cases service
  · cases called

theorem writeOutcome_cases (bytes : Bytes) (answers : Answers) :
    writeOutcome bytes answers = .set ∨ ∃ message, writeOutcome bytes answers = .failed message := by
  unfold writeOutcome
  split
  · exact .inr ⟨_,rfl⟩
  · split
    · exact .inr ⟨_,rfl⟩
    · split
      · exact .inr ⟨_,rfl⟩
      · exact .inl rfl

-- With a proper name and percentage nothing raises, and a level is written
-- where all before the write succeeded.
theorem setBrightness_cases (m : Rounding) {device : Device} {value : Int} (answers : Answers) (valid : validDeviceName device.name = true)
    (above : 0 ≤ value) (below : value ≤ 100) :
    ((setBrightness m device value answers).written = none ∧
        ∃ message, (setBrightness m device value answers).outcome = .failed message) ∨
      ∃ maximum, readLong device "max_brightness" = some maximum ∧ 0 < maximum ∧
        (setBrightness m device value answers).written = some (levelText (rawLevel m maximum value)) ∧
        ((setBrightness m device value answers).outcome = .set ∨
          ∃ message, (setBrightness m device value answers).outcome = .failed message) := by
  unfold setBrightness
  rw [if_neg (by simp [valid]),if_neg (by omega)]
  cases top : readLong device "max_brightness" with
  | none => exact .inl ⟨rfl,_,rfl⟩
  | some maximum =>
    dsimp only
    by_cases positive : maximum ≤ 0
    · rw [if_pos positive]
      exact .inl ⟨rfl,_,rfl⟩
    · rw [if_neg positive]
      cases fits : answers.pathFits with
      | false => exact .inl ⟨rfl,_,rfl⟩
      | true =>
        rw [if_neg (by decide)]
        cases opened : answers.opened with
        | error error => exact .inl ⟨rfl,_,rfl⟩
        | ok _ => exact .inr ⟨maximum,rfl,by omega,rfl,writeOutcome_cases _ answers⟩

-- A scan that selects a device reports the level found in its files.
theorem snapshot_percent {sysfs : Sysfs} {maximum raw : Int} (available : (snapshot m sysfs).brightness.available = true)
    (top : readLong (sysfs.files (snapshot m sysfs).brightness.device) "max_brightness" = some maximum)
    (now : level (sysfs.files (snapshot m sysfs).brightness.device) = some raw) :
    (snapshot m sysfs).brightness.percent = backlightPercentage m raw maximum := by
  obtain ⟨-,device,member,name⟩ := selected_plain m sysfs available
  rw [← name,sysfs.lists device member] at top now
  have reports : Reports m device (snapshot m sysfs).brightness.percent := by
    cases directory : sysfs.backlight with
    | none =>
      rw [directory] at member
      cases member
    | some found =>
      have same : (scanBacklight m (some found) ⟨false,[],-1,0,false⟩).table = (snapshot m sysfs).brightness := by
        rw [← directory]
        rfl
      rw [directory] at member
      refine ⟨found,⟨false,[],-1,0,false⟩,member,?_,?_,?_⟩
      · exact (congrArg BrightnessTable.available same).trans available
      · exact (congrArg BrightnessTable.device same).trans name.symm
      · exact congrArg BrightnessTable.percent same
  exact reports.of_level top now

-- A device that takes what is written shows the percentage that was asked for.
theorem scanned_shows {later : Sysfs} {device : Device} {value maximum : Int} (above : 0 ≤ value)
    (below : value ≤ 100) (top : readLong device "max_brightness" = some maximum) (large : 100 ≤ maximum)
    (follows : Follows device (levelText (rawLevel exact maximum value)) (later.files device.name))
    (available : (snapshot exact later).brightness.available = true)
    (same : (snapshot exact later).brightness.device = device.name) :
    (snapshot exact later).brightness.percent = value := by
  rw [← same] at follows
  obtain ⟨low,high,-⟩ := rawLevel_range (by omega : 1 ≤ maximum) above below
  have long := (readLong_long top).2
  rw [snapshot_percent available (follows.top.trans top) (follows.at_level low (by omega)),set_reported large above below]

theorem dispatch_guarded {name : Bytes} {value : Int} {sysfs : Bytes → Sysfs} {answers : Answers}
    {after : Bytes → Except Bytes Sysfs} (invariant : Invariant root service) (named : name = text "set-brightness")
    (above : 0 ≤ value) (below : value ≤ 100) :
    Guarded m root service name value sysfs answers after (dispatch m service name value sysfs answers after) := by
  rcases dispatch_cases m service name value sysfs answers after with
    ⟨message,refused⟩ | ⟨patch,call,current,available,settable,calls,written,outcome⟩
  · rw [refused]
    refine ⟨fun _ wrote => ?_,⟨named,above,below⟩,fun _ _ raised => ?_,fun done => ?_,fun _ => rfl,fun _ done => ?_⟩
    · cases wrote
    · cases raised
    · cases done
    · cases done
  · have last : service.sent.getLast? = some patch := invariant.current.symm.trans current
    have valid := invariant.plain patch current available
    rw [invariant.root] at calls written
    have named' : ((sysfs root).files patch.brightness.device).name = patch.brightness.device := (sysfs root).named _
    have ways := setBrightness_cases m answers (by rw [named']; exact valid) above below
    rw [← calls] at ways
    generalize dispatch m service name value sysfs answers after = turn at written outcome ⊢
    have handed : ∀ write, turn.written = some write → write.root = root ∧ write.device = patch.brightness.device ∧
        ∃ maximum, readLong ((sysfs root).files write.device) "max_brightness" = some maximum ∧ 0 < maximum ∧
          write.level = levelText (rawLevel m maximum value) := by
      intro write wrote
      rw [written] at wrote
      rcases ways with ⟨unwritten,_⟩ | ⟨maximum,top,positive,exactly,_⟩
      · rw [unwritten] at wrote
        cases wrote
      · rw [exactly] at wrote
        cases wrote
        exact ⟨rfl,rfl,maximum,top,positive,rfl⟩
    have guarded : ∀ write, turn.written = some write → write.root = root ∧ ∃ patch, service.sent.getLast? = some patch ∧
        patch.brightness.available = true ∧ patch.brightness.set = true ∧ patch.brightness.device = write.device ∧
        validDeviceName write.device = true ∧ ∃ maximum,
          readLong ((sysfs root).files write.device) "max_brightness" = some maximum ∧
            0 < maximum ∧ write.level = levelText (rawLevel m maximum value) := by
      intro write wrote
      obtain ⟨below,same,level⟩ := handed write wrote
      exact ⟨below,patch,last,available,settable,same.symm,same ▸ valid,level⟩
    rcases outcome with ⟨index,message,raised⟩ | ⟨message,refused,-,kept⟩ | ⟨done,set,refreshed⟩
    · rcases ways with ⟨-,_,failed⟩ | ⟨_,_,_,_,finished | ⟨_,failed⟩⟩
      · rw [failed] at raised
        cases raised
      · rw [finished] at raised
        cases raised
      · rw [failed] at raised
        cases raised
    · refine ⟨guarded,⟨named,above,below⟩,?_,?_,fun _ => kept,?_⟩
      · simp [refused]
      · simp [refused]
      · simp [refused]
    · refine ⟨guarded,⟨named,above,below⟩,by simp [done],fun _ => ⟨refreshed,?_⟩,fun undone => absurd done undone,?_⟩
      · rcases ways with ⟨-,_,failed⟩ | ⟨_,_,_,exactly,_⟩
        · rw [failed] at set
          cases set
        · exact ⟨_,by rw [written,exactly]; rfl⟩
      · rintro rfl - write maximum later wrote top large found follows shown lastly seen same
        obtain ⟨-,-,maximum',top',-,level⟩ := handed write wrote
        obtain rfl : maximum = maximum' := Option.some.inj (top.symm.trans top')
        rw [refreshed,refresh_scanned,invariant.root,found] at lastly
        obtain rfl : snapshot exact later = shown := by simpa [publish,scanned] using lastly
        have name : ((sysfs root).files write.device).name = write.device := (sysfs root).named _
        refine scanned_shows above below top large ?_ seen (same.trans name.symm)
        rw [name,← level]
        exact follows

theorem apply_invariant {boot : Configuration.Config} (on : boot.sources.system.enabled = true) (event : Event)
    (invariant : Invariant boot.sources.system.sysfsRoot service) (possible : Possible boot service event) :
    Invariant boot.sources.system.sysfsRoot (apply m service event) := by
  cases event with
  | refresh scan =>
    simp only [apply]
    split
    · exact invariant
    · exact refresh_invariant scan invariant
  | dispatch name value sysfs answers after =>
    obtain ⟨named,above,below⟩ := called_percentage possible
    have guarded : Guarded m boot.sources.system.sysfsRoot service name value sysfs answers after
        (dispatch m service name value sysfs answers after) :=
      dispatch_guarded invariant named above below
    change Invariant _ (dispatch m service name value sysfs answers after).service
    by_cases done : (dispatch m service name value sysfs answers after).reply = .done
    · rw [(guarded.published done).1]
      exact refresh_invariant after invariant
    · rw [guarded.kept done]
      exact invariant
  | reload candidate =>
    obtain ⟨current,topology,accepted⟩ := possible
    have same := (topology.trans (Reload.reloadable_topology accepted)).system on
    exact ⟨same.symm,invariant.current,invariant.plain⟩
  | quit => exact ⟨invariant.root,invariant.current,invariant.plain⟩

theorem system_run_guarded (m : Rounding) (boot : Configuration.Config) (on : boot.sources.system.enabled = true)
    (events : List Event) (possible : Runs.Each (apply m) (Possible boot) (start boot.sources.system) events) :
    Runs.Each (apply m) (Sound m boot.sources.system.sysfsRoot) (start boot.sources.system) events := by
  refine Runs.each_of_invariant (fun _ event invariant possible => apply_invariant on event invariant possible) ?_
    (⟨rfl,rfl,fun _ absent => by cases absent⟩ : Invariant boot.sources.system.sysfsRoot (start boot.sources.system)) possible
  rintro service event invariant possible
  refine ⟨invariant.root,?_,?_⟩
  · rintro scan rfl going
    simp only [apply,going,Bool.false_eq_true,if_false,refresh_scanned,invariant.root,publish]
  · rintro name value sysfs answers after rfl
    obtain ⟨named,above,below⟩ := called_percentage possible
    exact dispatch_guarded invariant named above below

def panelName : Bytes := text "intel_backlight"

def panel (level : String) : Device :=
  ⟨panelName,attributes [("brightness",level),("max_brightness","200\n"),("type","raw\n")],true⟩

def lit (level : String) : Sysfs where
  powerSupply := none
  backlight := some ⟨[panel level],by simp,by simp [panel]; decide⟩
  files name := if name = panelName then panel level else ⟨name,fun _ => none,false⟩
  lists := by simp [listed,panel]
  named name := by
    split
    · rename_i same
      exact same.symm
    · rfl
  plain := by
    simp only [listed,Option.map_some,Option.getD_some,List.mem_singleton,forall_eq,panel]
    decide

-- Nothing but this is mounted, and only there.
def mounted (level : String) (root : Bytes) : Sysfs :=
  if root = text "/sys" then lit level
  else { lit level with backlight := none, lists := by simp [listed], plain := by simp [listed] }

-- The panel is dimmed, a reload changes the interval, and the panel is gone.
def dimming : List Event :=
  [.refresh fun root => .ok (mounted "200\n" root),
   .dispatch (text "set-brightness") 75 (mounted "200\n") ⟨true,.ok (),.ok 4,.ok (),text "Input/output error"⟩
     fun root => .ok (mounted "150\n" root),
   .reload { Configuration.allSources with
     sources := { Configuration.allSources.sources with system := ⟨true,1000,text "/sys"⟩ } },
   .refresh fun _ => .error (text "not enough memory"),.quit]

theorem dimming_guarded :
    Runs.Each (apply exact) (Sound exact (text "/sys")) (start Configuration.allSources.sources.system) dimming := by
  refine system_run_guarded exact Configuration.allSources rfl dimming ?_
  have called : ∀ service sysfs answers after,
      Possible Configuration.allSources service (.dispatch (text "set-brightness") 75 sysfs answers after) :=
    fun _ _ _ _ => ⟨Configuration.allSources,.returned true none,text "dispatch brightness set 75",
      [.call .system (text "set-brightness") (.integer 75)],75,by decide,by decide,by decide⟩
  exact ⟨trivial,called _ _ _ _,⟨_,Reload.Topology.refl _,by decide⟩,trivial,trivial,trivial⟩

end Hypringo.SystemService

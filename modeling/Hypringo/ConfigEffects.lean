import Hypringo.ConfigFields

namespace Hypringo.ConfigEffects
open Hypringo.Lua ConfigLoad ConfigFields
open Hypringo.Lua.Program (Writes)

-- The fields the validators write, apart from those that hold the sections.
def settingNames : List String :=
  ["workers","socket_path","enabled","reconnect_min_ms","reconnect_max_ms","command_socket","event_socket",
    "interval_ms","sysfs_root","timeout_ms","retry_min_ms","retry_max_ms","max_response_bytes","url","max_items",
    "token_env"]

section Effects
variable {foreign : Foreign} (inert : foreign.Inert) {n : Nat} {environment : Bytes → Option Bytes}
include inert

theorem index_only {v : Value} (inside : v.Within n) (name : String) (written : List String) :
    (index foreign v name).Writes written n Value.Within := (index_writes inert inside name).mono (List.nil_subset _)

theorem assign_setting {v value : Value} (inside : v.Within n) {name : String} (listed : name ∈ settingNames)
    (held : value.Within n) : (assign foreign v name value).Writes settingNames n Closing :=
  (assign_writes inert inside name held).mono (List.cons_subset.mpr ⟨listed,List.nil_subset _⟩)

theorem requireTable_writes {parent : Value} (inside : parent.Within n) (key path : String) :
    (requireTable foreign parent key path).Writes [key] n Value.Within := by
  refine .bind (index_only inert inside key _) ?_
  intro value m le held
  split
  · refine .bind .newTable ?_
    intro fresh k grown allocated
    refine .bind (assign_writes inert (inside.mono (Nat.le_trans le grown)) key allocated) ?_
    intro _ last further _
    exact .pure (fun _ more => allocated.mono (Nat.le_trans further more))
  · exact .pure (fun _ more => held.mono more)
  · exact .raise _

theorem validated_writes {source : Value} (inside : source.Within n) {name : String} (listed : name ∈ settingNames)
    {validate : Value → Except Bytes Value} {good : Value → Prop} (lawful : Lawful validate good) :
    (validated foreign source name validate).Writes settingNames n Closing := by
  refine .bind (index_only inert inside name _) ?_
  intro value m le _
  refine @Program.Writes.bind _ _ _ _ Value.Within _ _ _
    (.lift fun x returned k _ => .of_scalar (lawful.scalar (lawful.sound returned)) k) ?_
  intro x k grown held
  exact assign_setting inert (inside.mono (Nat.le_trans le grown)) listed held

theorem enabledFlag_writes {source : Value} (inside : source.Within n) (path : String) (fallback : Bool) :
    (enabledFlag foreign source path fallback).Writes settingNames n Closing := by
  refine .bind (index_only inert inside _ _) ?_
  intro value m le _
  refine .ite (fun _ => ?_) (fun _ => ?_)
  · exact assign_setting inert (inside.mono le) (by simp [settingNames]) (.of_scalar rfl m)
  · refine .bind (index_only inert (inside.mono le) _ _) ?_
    intro value k _ _
    split
    · exact .pure (fun _ _ => trivial)
    · exact .raise _

theorem checkOrder_writes {source : Value} (inside : source.Within n) (path maximum minimum : String) :
    (checkOrder foreign source path maximum minimum).Writes settingNames n Closing := by
  refine .bind (index_only inert inside _ _) ?_
  intro largest m le first
  refine .bind (index_only inert (inside.mono le) _ _) ?_
  intro least k grown second
  refine .bind ((compare_writes inert .less (first.mono grown) second).mono (List.nil_subset _)) ?_
  intro disordered _ _ _
  exact .ite (fun _ => .raise _) (fun _ => .pure (fun _ _ => trivial))

theorem runtimeSettings_writes {config runtime : Value} (whole : config.Within n) (inside : runtime.Within n) :
    (runtimeSettings foreign environment config runtime).Writes settingNames n Closing := by
  refine .bind (index_only inert whole _ _) ?_
  intro again m le held
  refine .bind (index_only inert held _ _) ?_
  intro value k grown _
  refine @Program.Writes.bind _ _ _ _ Value.Within _ _ _ (.lift fun x returned k _ => ?_) ?_
  · have lawful := validateInteger_lawful "runtime.workers" 2 1 256
    exact .of_scalar (lawful.scalar (lawful.sound returned)) k
  intro workers i more number
  have here := inside.mono (Nat.le_trans le (Nat.le_trans grown more))
  refine .bind (assign_setting inert here (by simp [settingNames]) number) ?_
  intro _ j last _
  exact validated_writes inert (here.mono last) (by simp [settingNames]) ((validateAbsolutePath_lawful _).defaulted _)

theorem reconnectSettings_writes {source : Value} (inside : source.Within n) (path : String) :
    (reconnectSettings foreign source path).Writes settingNames n Closing := by
  refine .bind (enabledFlag_writes inert inside _ _) ?_
  intro _ m le _
  refine .bind (validated_writes inert (inside.mono le) (by simp [settingNames]) (validateInteger_lawful _ _ _ _)) ?_
  intro _ k more _
  have here := inside.mono (Nat.le_trans le more)
  refine .bind (validated_writes inert here (by simp [settingNames]) (validateInteger_lawful _ _ _ _)) ?_
  intro _ i further _
  exact checkOrder_writes inert (here.mono further) _ _ _

theorem hyprlandSockets_writes {hyprland : Value} (inside : hyprland.Within n) :
    (hyprlandSockets foreign environment hyprland).Writes settingNames n Closing := by
  refine .bind (validated_writes inert inside (by simp [settingNames]) ((validateAbsolutePath_lawful _).defaulted _)) ?_
  intro _ m le _
  refine .bind (validated_writes inert (inside.mono le) (by simp [settingNames])
    ((validateAbsolutePath_lawful _).defaulted _)) ?_
  intro _ k more _
  have here := inside.mono (Nat.le_trans le more)
  refine .bind (index_only inert here _ _) ?_
  intro command i further first
  refine .bind (index_only inert (here.mono further) _ _) ?_
  intro event j last second
  refine .bind ((equals_writes inert (first.mono last) second).mono (List.nil_subset _)) ?_
  intro same _ _ _
  exact .ite (fun _ => .raise _) (fun _ => .pure (fun _ _ => trivial))

theorem hyprlandSettings_writes {hyprland : Value} (inside : hyprland.Within n) :
    (hyprlandSettings foreign environment hyprland).Writes settingNames n Closing := by
  refine .bind (reconnectSettings_writes inert inside _) ?_
  intro _ m le _
  refine .bind (index_only inert (inside.mono le) _ _) ?_
  intro enabled k more _
  exact .ite (fun _ => hyprlandSockets_writes inert (inside.mono (Nat.le_trans le more)))
    (fun _ => .pure (fun _ _ => trivial))

theorem systemSettings_writes {system : Value} (inside : system.Within n) :
    (systemSettings foreign system).Writes settingNames n Closing := by
  refine .bind (enabledFlag_writes inert inside _ _) ?_
  intro _ m le _
  refine .bind (validated_writes inert (inside.mono le) (by simp [settingNames]) (validateInteger_lawful _ _ _ _)) ?_
  intro _ k more _
  exact validated_writes inert (inside.mono (Nat.le_trans le more)) (by simp [settingNames])
    ((validateAbsolutePath_lawful _).otherwise _)

theorem urlSetting_writes {source : Value} (inside : source.Within n) (path : String) (fallback : Value) :
    (urlSetting foreign source path fallback).Writes settingNames n Closing := by
  refine .bind (index_only inert inside _ _) ?_
  intro enabled m le _
  refine .ite (fun _ => ?_) (fun _ => ?_)
  · exact validated_writes inert (inside.mono le) (by simp [settingNames]) ((validateUrl_lawful _).otherwise _)
  · refine .bind (index_only inert (inside.mono le) _ _) ?_
    intro url k more _
    exact .ite (fun _ => validated_writes inert (inside.mono (Nat.le_trans le more)) (by simp [settingNames])
      (validateUrl_lawful _)) (fun _ => .pure (fun _ _ => trivial))

theorem validateRemoteSource_writes {source : Value} (inside : source.Within n) (path : String) (defaults : Defaults) :
    (validateRemoteSource foreign source path defaults).Writes settingNames n Closing := by
  have integer : ∀ m ≥ n, ∀ {name : String}, name ∈ settingNames → ∀ label fallback minimum maximum,
      (validated foreign source name fun value => validateInteger value label fallback minimum maximum).Writes
        settingNames m Closing := fun m le name listed _ _ _ _ =>
    validated_writes inert (inside.mono le) listed (validateInteger_lawful _ _ _ _)
  refine .bind (enabledFlag_writes inert inside _ _) ?_
  intro _ interval one _
  refine .bind (integer interval one (by simp [settingNames]) _ _ _ _) ?_
  intro _ timeout grown _
  have two := Nat.le_trans one grown
  refine .bind (integer timeout two (by simp [settingNames]) _ _ _ _) ?_
  intro _ least grown _
  have three := Nat.le_trans two grown
  refine .bind (integer least three (by simp [settingNames]) _ _ _ _) ?_
  intro _ most grown _
  have four := Nat.le_trans three grown
  refine .bind (integer most four (by simp [settingNames]) _ _ _ _) ?_
  intro _ order grown _
  have five := Nat.le_trans four grown
  refine .bind (checkOrder_writes inert (inside.mono five) _ _ _) ?_
  intro _ bytes grown _
  have six := Nat.le_trans five grown
  refine .bind (integer bytes six (by simp [settingNames]) _ _ _ _) ?_
  intro _ url grown _
  exact urlSetting_writes inert (inside.mono (Nat.le_trans six grown)) _ _

theorem tokenEnv_writes {github : Value} (inside : github.Within n) :
    (tokenEnv foreign github).Writes settingNames n Closing := by
  refine .bind (index_only inert inside _ _) ?_
  intro value m le held
  have chosen : (otherwise value (.string (text "HYPRINGO_GITHUB_TOKEN"))).Within m := by
    unfold otherwise
    split
    · exact held
    · exact .of_scalar rfl m
  refine .bind (assign_setting inert (inside.mono le) (by simp [settingNames]) chosen) ?_
  intro _ k more _
  have here := inside.mono (Nat.le_trans le more)
  refine .bind (index_only inert here _ _) ?_
  intro token i further _
  split
  · refine .bind (index_only inert (here.mono further) _ _) ?_
    intro again j _ _
    split
    · exact .ite (fun _ => .pure (fun _ _ => trivial)) (fun _ => .raise _)
    · exact .raise _
  · exact .raise _

theorem githubSettings_writes {github : Value} (inside : github.Within n) :
    (githubSettings foreign github).Writes settingNames n Closing := by
  refine .bind (validateRemoteSource_writes inert inside _ _) ?_
  intro _ m le _
  refine .bind (validated_writes inert (inside.mono le) (by simp [settingNames]) (validateInteger_lawful _ _ _ _)) ?_
  intro _ k more _
  exact tokenEnv_writes inert (inside.mono (Nat.le_trans le more))

theorem blockingSources_writes {sources : List Value} (inside : ∀ source ∈ sources, source.Within n) :
    (blockingSources foreign sources).Writes [] n Closing := by
  have counted : ∀ total, (sources.foldlM (fun total source => do
      if (← index foreign source "enabled").truthy then return total + 1 else return total) total : Program Nat).Writes
        [] n Closing := by
    induction sources generalizing n with
    | nil => exact fun total => .pure (fun _ _ => trivial)
    | cons source rest ih =>
      intro total
      rw [List.foldlM_cons]
      refine @Program.Writes.bind _ _ _ _ Closing _ _ _
        (.bind (index_only inert (inside source List.mem_cons_self) _ _) ?_) ?_
      · intro enabled m _ _
        exact .ite (fun _ => .pure (fun _ _ => trivial)) (fun _ => .pure (fun _ _ => trivial))
      · intro sum m le _
        exact ih (fun other member => (inside other (List.mem_cons_of_mem _ member)).mono le) sum
  exact counted 0

theorem checkWorkers_writes {runtime : Value} {sources : List Value} (inside : runtime.Within n)
    (each : ∀ source ∈ sources, source.Within n) : (checkWorkers foreign runtime sources).Writes [] n Closing := by
  refine .bind (blockingSources_writes inert each) ?_
  intro blocking m le _
  refine .bind (index_writes inert (inside.mono le) _) ?_
  intro workers k more held
  refine .bind (compare_writes inert .lessEqual held (.of_scalar rfl k)) ?_
  intro few _ _ _
  exact .ite (fun _ => .raise _) (fun _ => .pure (fun _ _ => trivial))

end Effects
end Hypringo.ConfigEffects

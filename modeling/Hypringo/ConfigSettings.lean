import Hypringo.ConfigFields

namespace Hypringo.ConfigSettings
open Hypringo.Lua ConfigLoad ConfigFields Settling

abbrev nameKey (name : String) : Value := .string (text name)

-- What a validator may do to a field: fill it in where it counted as absent.
-- An `enabled` of false stays, and a URL is never written unchecked.
def Fills (key old new : Value) : Prop :=
  new = old ∨ (old.truthy = false ∧ (key = nameKey "enabled" → old = .nil) ∧ (key = nameKey "url" → Url new))

theorem Fills.trans {key old middle new : Value} (first : Fills key old middle) (second : Fills key middle new) :
    Fills key old new := by
  rcases second with rfl | ⟨absent,unset,checked⟩
  · exact first
  rcases first with rfl | ⟨was,before,_⟩
  · exact .inr ⟨absent,unset,checked⟩
  · exact .inr ⟨was,before,checked⟩

structure Steady (w later : World) : Prop where
  size : w.size ≤ later.size
  metatable : ∀ v : Value, v.Within w.size → later.metatable v = w.metatable v
  fills : ∀ a < w.size, ∀ key, Fills key (w.get a key) (later.get a key)

theorem Steady.refl (w : World) : Steady w w := ⟨Nat.le_refl _,fun _ _ => rfl,fun _ _ _ => .inl rfl⟩

theorem Steady.trans {w middle later : World} (first : Steady w middle) (second : Steady middle later) : Steady w later := by
  refine ⟨Nat.le_trans first.size second.size,?_,?_⟩
  · intro v old
    exact (second.metatable v (old.mono first.size)).trans (first.metatable v old)
  · intro a old key
    exact (first.fills a old key).trans (second.fills a (Nat.lt_of_lt_of_le old first.size) key)

theorem steady_alloc (w : World) : Steady w w.alloc := by
  refine ⟨Nat.le_succ _,fun v old => World.alloc_metatable old,?_⟩
  intro a old key
  rw [World.get,World.get,World.alloc_old old]
  exact .inl rfl

theorem steady_rawSet {w : World} {a : Address} {key value : Value} (ok : key.isKey = true) (some : value ≠ .nil)
    (fills : Fills key (w.get a key) value) : Steady w (w.rawSet a key value) := by
  refine ⟨Nat.le_refl _,fun _ _ => rfl,?_⟩
  intro b _ other
  by_cases same : b = a ∧ other = key
  · obtain ⟨rfl,rfl⟩ := same
    rw [World.get_rawSet_same ok some]
    exact fills
  · rw [World.get_rawSet_other (by tauto)]
    exact .inl rfl

-- A table whose fields are read and written as they are.
structure Plain (a : Address) (w : World) : Prop where
  allocated : a < w.size
  plain : w.metatable (.table a) = none

structure Field (a : Address) (name : String) (good : Value → Prop) (w : World) : Prop where
  allocated : a < w.size
  holds : good (w.get a (nameKey name))

theorem lasting_plain (a : Address) : Lasting Steady (Plain a) := by
  intro w later kept holds
  exact ⟨Nat.lt_of_lt_of_le holds.allocated kept.size,(kept.metatable (.table a) holds.allocated).trans holds.plain⟩

theorem lasting_field (a : Address) (name : String) {good : Value → Prop} (truthy : ∀ v, good v → v.truthy = true) :
    Lasting Steady (Field a name good) := by
  intro w later kept held
  refine ⟨Nat.lt_of_lt_of_le held.allocated kept.size,?_⟩
  rcases kept.fills a held.allocated (nameKey name) with same | ⟨absent,_⟩
  · exact same ▸ held.holds
  · exact absurd (truthy _ held.holds) (by simp [absent])

def IsBoolean (v : Value) : Prop := ∃ b, v = .boolean b

def Flag (a : Address) : World → Prop := Field a "enabled" IsBoolean

theorem Steady.enabled {w later : World} (kept : Steady w later) {a : Address} (flag : Flag a w) :
    later.get a (nameKey "enabled") = w.get a (nameKey "enabled") := by
  rcases kept.fills a flag.allocated (nameKey "enabled") with same | ⟨_,unset,_⟩
  · exact same
  · obtain ⟨b,held⟩ := flag.holds
    rw [unset rfl] at held
    cases held

theorem lasting_flag (a : Address) : Lasting Steady (Flag a) := by
  intro w later kept held
  exact ⟨Nat.lt_of_lt_of_le held.allocated kept.size,kept.enabled held ▸ held.holds⟩

-- The second field is an integer that the first is not below.
structure Ordered (a : Address) (maximum minimum : String) (w : World) : Prop where
  allocated : a < w.size
  holds : ∃ i j : Int64, w.get a (nameKey maximum) = .integer i ∧ w.get a (nameKey minimum) = .integer j ∧ j.toInt ≤ i.toInt

theorem Steady.integer {w later : World} (kept : Steady w later) {a : Address} (allocated : a < w.size) {name : String}
    {i : Int64} (held : w.get a (nameKey name) = .integer i) : later.get a (nameKey name) = .integer i := by
  rcases kept.fills a allocated (nameKey name) with same | ⟨absent,_⟩
  · exact same.trans held
  · rw [held] at absent
    cases absent

theorem lasting_ordered (a : Address) (maximum minimum : String) : Lasting Steady (Ordered a maximum minimum) := by
  rintro w later kept ⟨allocated,i,j,most,least,le⟩
  exact ⟨Nat.lt_of_lt_of_le allocated kept.size,i,j,kept.integer allocated most,kept.integer allocated least,le⟩

section Steps
variable (foreign : Foreign) {a : Address}

theorem validated_converges {name : String} {validate : Value → Except Bytes Value} {good : Value → Prop}
    (lawful : Lawful validate good) (other : nameKey name ≠ nameKey "enabled")
    (checked : nameKey name = nameKey "url" → ∀ v, good v → Url v) :
    Converges Steady (Plain a) (validated foreign (.table a) name validate) (Field a name good) := by
  refine ⟨?_,?_⟩
  · intro w later here done
    simp only [validated,bind_eq (index_plain here.plain name)] at done
    obtain ⟨x,middle,lifted,stored⟩ := bind_ok.mp done
    obtain ⟨returned,rfl⟩ := Program.lift_ok.mp lifted
    rw [assign_plain here.plain] at stored
    cases stored
    have sound := lawful.sound returned
    have some : x ≠ .nil := by
      rintro rfl
      cases lawful.truthy sound
    refine ⟨steady_rawSet rfl some ?_,here.allocated,?_⟩
    · by_cases present : (middle.get a (nameKey name)).truthy = true
      · exact .inl (lawful.kept returned present)
      · exact .inr ⟨by simpa using present,fun same => absurd same other,fun same => checked same x sound⟩
    · rw [World.get_rawSet_same rfl some]
      exact sound
  · intro w here held
    have some : w.get a (nameKey name) ≠ .nil := by
      intro absent
      have truthy := lawful.truthy held.holds
      rw [absent] at truthy
      cases truthy
    simp only [validated,bind_eq (index_plain here.plain name)]
    rw [bind_eq (Program.lift_ok.mpr ⟨lawful.accepts held.holds,rfl⟩),assign_plain here.plain,
      World.rawSet_idle rfl some]

theorem enabledFlag_converges (path : String) (fallback : Bool) :
    Converges Steady (Plain a) (enabledFlag foreign (.table a) path fallback) (Flag a) := by
  refine ⟨?_,?_⟩
  · intro w later here done
    simp only [enabledFlag,bind_eq (index_plain here.plain "enabled")] at done
    split at done
    · rename_i absent
      rw [assign_plain here.plain] at done
      cases done
      refine ⟨steady_rawSet rfl (by simp) (.inr ⟨by rw [absent]; rfl,fun _ => absent,?_⟩),here.allocated,?_⟩
      · exact fun same => absurd same (by decide)
      · rw [World.get_rawSet_same rfl (by simp)]
        exact ⟨fallback,rfl⟩
    · rw [bind_eq (index_plain here.plain "enabled")] at done
      cases held : w.get a (nameKey "enabled") with
      | boolean b =>
        rw [held] at done
        cases done
        exact ⟨.refl _,here.allocated,b,held⟩
      | _ =>
        rw [held] at done
        cases done
  · intro w here held
    obtain ⟨b,flag⟩ := held.holds
    simp only [enabledFlag,bind_eq (index_plain here.plain "enabled"),flag]
    rw [if_neg (by simp),bind_eq (index_plain here.plain "enabled"),flag]
    rfl

theorem checkOrder_converges {path maximum minimum : String} {least most low high : Nat} :
    Converges Steady (fun w => Plain a w ∧ Field a minimum (IntegerIn low high) w ∧ Field a maximum (IntegerIn least most) w)
      (checkOrder foreign (.table a) path maximum minimum) (Ordered a maximum minimum) := by
  have ran : ∀ w i j, Plain a w → w.get a (nameKey maximum) = .integer i → w.get a (nameKey minimum) = .integer j →
      checkOrder foreign (.table a) path maximum minimum w = if i.toInt < j.toInt then
        .error (fieldError (path ++ "." ++ maximum) (text " must not be less than " ++ text minimum)) else .ok ((),w) := by
    intro w i j here first second
    simp only [checkOrder,bind_eq (index_plain here.plain maximum),bind_eq (index_plain here.plain minimum),first,second]
    rw [@bind_eq _ _ _ _ _ _ _ w (decide (i.toInt < j.toInt)) rfl]
    by_cases below : i.toInt < j.toInt
    · simp only [below,decide_true,if_true]
      rfl
    · simp only [below,decide_false,if_false,Bool.false_eq_true]
      rfl
  refine ⟨?_,?_⟩
  · rintro w later ⟨here,⟨_,j,second,_⟩,_,i,first,_⟩ done
    rw [ran w i j here first second] at done
    split at done
    · cases done
    · cases done
      exact ⟨.refl _,here.allocated,i,j,first,second,by omega⟩
  · rintro w ⟨here,_⟩ ⟨_,i,j,first,second,le⟩
    rw [ran w i j here first second,if_neg (by omega)]

theorem integer_converges {given : World → Prop} (here : ∀ w, given w → Plain a w) {name : String}
    (other : nameKey name ≠ nameKey "enabled" ∧ nameKey name ≠ nameKey "url") (path : String) (fallback : Int64)
    (minimum maximum : Nat) :
    Converges Steady given
      (validated foreign (.table a) name fun value => validateInteger value path fallback minimum maximum)
      (Field a name (IntegerIn minimum maximum)) :=
  (validated_converges foreign (validateInteger_lawful path fallback minimum maximum) other.1
    (fun same => absurd same other.2)).weaken here

theorem lasting_integer (a : Address) (name : String) (minimum maximum : Nat) :
    Lasting Steady (Field a name (IntegerIn minimum maximum)) :=
  lasting_field a name fun _ good => (validateInteger_lawful name 0 minimum maximum).truthy good

theorem lasting_path (a : Address) (name : String) : Lasting Steady (Field a name AbsolutePath) :=
  lasting_field a name fun _ good => (validateAbsolutePath_lawful name).truthy good

def Reconnecting (a : Address) (w : World) : Prop :=
  Flag a w ∧ Field a "reconnect_min_ms" (IntegerIn 10 60000) w ∧ Field a "reconnect_max_ms" (IntegerIn 10 60000) w ∧
    Ordered a "reconnect_max_ms" "reconnect_min_ms" w

theorem lasting_reconnecting (a : Address) : Lasting Steady (Reconnecting a) :=
  (lasting_flag a).and ((lasting_integer a _ _ _).and ((lasting_integer a _ _ _).and (lasting_ordered a _ _)))

theorem reconnectSettings_converges (path : String) :
    Converges Steady (Plain a) (reconnectSettings foreign (.table a) path) (Reconnecting a) := by
  refine .seq .trans (enabledFlag_converges foreign _ _) (lasting_plain a) (lasting_flag a) ?_
  refine .seq .trans (integer_converges foreign (fun _ holds => holds.1) (by decide) _ _ _ _)
    ((lasting_plain a).and (lasting_flag a)) (lasting_integer a _ _ _) ?_
  refine .seq .trans (integer_converges foreign (fun _ holds => holds.1.1) (by decide) _ _ _ _)
    (((lasting_plain a).and (lasting_flag a)).and (lasting_integer a _ _ _)) (lasting_integer a _ _ _) ?_
  exact (checkOrder_converges foreign).weaken fun _ holds => ⟨holds.1.1.1,holds.1.2,holds.2⟩

def Runtime (a : Address) (w : World) : Prop :=
  Field a "workers" (IntegerIn 1 256) w ∧ Field a "socket_path" AbsolutePath w

-- The field of the outer table that a section was taken from.
def Linked (outer a : Address) (name : String) : World → Prop := Field outer name (· = .table a)

theorem lasting_linked (outer a : Address) (name : String) : Lasting Steady (Linked outer a name) :=
  lasting_field outer name fun _ same => same ▸ rfl

theorem runtimeSettings_converges (environment : Bytes → Option Bytes) (config : Address) :
    Converges Steady (fun w => Plain a w ∧ Plain config w ∧ Linked config a "runtime" w)
      (runtimeSettings foreign environment (.table config) (.table a)) (Runtime a) := by
  have lawful := (validateInteger_lawful "runtime.workers" 2 1 256).otherwise (.integer 2)
  have first : Converges Steady (fun w => Plain a w ∧ Plain config w ∧ Linked config a "runtime" w)
      (validated foreign (.table a) "workers" fun value => validateInteger (otherwise value (.integer 2)) "runtime.workers" 2 1 256)
      (Field a "workers" (IntegerIn 1 256)) :=
    (validated_converges foreign lawful (by decide) (fun same => absurd same (by decide))).weaken fun _ holds => holds.1
  have second : Converges Steady
      (fun w => (Plain a w ∧ Plain config w ∧ Linked config a "runtime" w) ∧ Field a "workers" (IntegerIn 1 256) w)
      (validated foreign (.table a) "socket_path" fun value => do
        validateAbsolutePath (← orElse value (defaultSocketPath environment)) "runtime.socket_path")
      (Field a "socket_path" AbsolutePath) :=
    (validated_converges foreign ((validateAbsolutePath_lawful _).defaulted _) (by decide)
      (fun same => absurd same (by decide))).weaken fun _ holds => holds.1.1
  have both := first.seq .trans ((lasting_plain a).and ((lasting_plain config).and (lasting_linked config a _)))
    (lasting_integer a _ _ _) second
  -- The section is read again through the configuration it was taken from.
  have again : ∀ w, Plain a w ∧ Plain config w ∧ Linked config a "runtime" w →
      runtimeSettings foreign environment (.table config) (.table a) w =
        (validated foreign (.table a) "workers"
          (fun value => validateInteger (otherwise value (.integer 2)) "runtime.workers" 2 1 256) >>= fun _ =>
          validated foreign (.table a) "socket_path" fun value => do
            validateAbsolutePath (← orElse value (defaultSocketPath environment)) "runtime.socket_path") w := by
    rintro w ⟨_,outer,link⟩
    have held := link.holds
    simp only [runtimeSettings,bind_eq (index_plain outer.plain "runtime"),held,validated,bind_assoc]
  refine ⟨?_,?_⟩
  · intro w later holds done
    exact both.establishes w later holds ((again w holds).symm.trans done)
  · intro w holds result
    exact (again w holds).trans (both.rests w holds result)

theorem whenEnabled_converges {given P : World → Prop} {p : Program Unit} (here : ∀ w, given w → Plain a w ∧ Flag a w)
    (inner : Converges Steady given p P) :
    Converges Steady given (do if (← index foreign (.table a) "enabled").truthy then p)
      (fun w => w.get a (nameKey "enabled") = .boolean true → P w) := by
  refine ⟨?_,?_⟩
  · intro w later holds done
    obtain ⟨plain,flag⟩ := here w holds
    obtain ⟨b,held⟩ := flag.holds
    rw [bind_eq (index_plain plain.plain "enabled"),held] at done
    cases b with
    | true =>
      obtain ⟨kept,result⟩ := inner.establishes w later holds done
      exact ⟨kept,fun _ => result⟩
    | false =>
      cases done
      refine ⟨.refl _,fun enabled => ?_⟩
      rw [held] at enabled
      cases enabled
  · intro w holds result
    obtain ⟨plain,flag⟩ := here w holds
    obtain ⟨b,held⟩ := flag.holds
    rw [bind_eq (index_plain plain.plain "enabled"),held]
    cases b with
    | true => exact inner.rests w holds (result held)
    | false => rfl

def Sockets (a : Address) (w : World) : Prop :=
  Field a "command_socket" AbsolutePath w ∧ Field a "event_socket" AbsolutePath w ∧
    w.get a (nameKey "command_socket") ≠ w.get a (nameKey "event_socket")

def Hyprland (a : Address) (w : World) : Prop :=
  Reconnecting a w ∧ (w.get a (nameKey "enabled") = .boolean true → Sockets a w)

theorem Steady.path {w later : World} (kept : Steady w later) {a : Address} {name : String}
    (held : Field a name AbsolutePath w) : later.get a (nameKey name) = w.get a (nameKey name) := by
  rcases kept.fills a held.allocated (nameKey name) with same | ⟨absent,_⟩
  · exact same
  · obtain ⟨rest,path⟩ := held.holds
    rw [path] at absent
    cases absent

theorem lasting_hyprland (a : Address) : Lasting Steady (Hyprland a) := by
  rintro w later kept ⟨settings,sockets⟩
  refine ⟨lasting_reconnecting a w later kept settings,fun enabled => ?_⟩
  obtain ⟨command,event,apart⟩ := sockets ((kept.enabled settings.1).symm.trans enabled)
  refine ⟨lasting_path a _ w later kept command,lasting_path a _ w later kept event,?_⟩
  rw [kept.path command,kept.path event]
  exact apart

theorem hyprlandSockets_converges (environment : Bytes → Option Bytes) :
    Converges Steady (Plain a) (hyprlandSockets foreign environment (.table a)) (Sockets a) := by
  have socket : ∀ {given : World → Prop}, (∀ w, given w → Plain a w) → ∀ (name : String),
      nameKey name ≠ nameKey "enabled" ∧ nameKey name ≠ nameKey "url" → ∀ fallback path,
      Converges Steady given (validated foreign (.table a) name fun value => do
        validateAbsolutePath (← orElse value fallback) path) (Field a name AbsolutePath) :=
    fun here name other _ _ =>
      (validated_converges foreign ((validateAbsolutePath_lawful _).defaulted _) other.1
        (fun same => absurd same other.2)).weaken here
  refine .seq .trans (socket (fun _ holds => holds) _ (by decide) _ _) (lasting_plain a) (lasting_path a _) ?_
  refine .seq .trans (socket (fun _ holds => holds.1) _ (by decide) _ _) ((lasting_plain a).and (lasting_path a _))
    (lasting_path a _) ?_
  have ran : ∀ w c e, Plain a w → w.get a (nameKey "command_socket") = .string c →
      w.get a (nameKey "event_socket") = .string e →
      (do
        let command ← index foreign (.table a) "command_socket"
        let event ← index foreign (.table a) "event_socket"
        if ← equals foreign command event then
          Program.raise (text "configuration fields sources.hyprland.command_socket and event_socket must differ") :
        Program Unit) w =
      if c = e then .error (text "configuration fields sources.hyprland.command_socket and event_socket must differ")
      else .ok ((),w) := by
    intro w c e here command event
    rw [bind_eq (index_plain here.plain "command_socket"),bind_eq (index_plain here.plain "event_socket"),command,event]
    by_cases same : c = e
    · rw [@bind_eq _ _ _ _ _ _ _ w true (by simp [equals,Value.rawEqual,same])]
      simp only [same,if_true]
      rfl
    · rw [@bind_eq _ _ _ _ _ _ _ w false (by simp [equals,Value.rawEqual,same])]
      simp only [same,if_false,Bool.false_eq_true]
      rfl
  refine ⟨?_,?_⟩
  · rintro w later ⟨⟨here,⟨_,_,command⟩⟩,⟨_,_,event⟩⟩ done
    rw [ran w _ _ here command event] at done
    split at done
    · cases done
    · rename_i apart
      cases done
      refine ⟨.refl _,?_⟩
      rw [command,event]
      exact fun same => apart (Value.string.inj same)
  · rintro w ⟨⟨here,⟨_,_,command⟩⟩,⟨_,_,event⟩⟩ apart
    rw [ran w _ _ here command event,if_neg ?_]
    rintro same
    rw [command,event,same] at apart
    exact apart rfl

theorem hyprlandSettings_converges (environment : Bytes → Option Bytes) :
    Converges Steady (Plain a) (hyprlandSettings foreign environment (.table a)) (Hyprland a) := by
  refine .seq .trans (reconnectSettings_converges foreign _) (lasting_plain a) (lasting_reconnecting a) ?_
  exact whenEnabled_converges foreign (fun _ holds => ⟨holds.1,holds.2.1⟩)
    ((hyprlandSockets_converges foreign environment).weaken fun _ holds => holds.1)

def System (a : Address) (w : World) : Prop :=
  Flag a w ∧ Field a "interval_ms" (IntegerIn 100 60000) w ∧ Field a "sysfs_root" AbsolutePath w

theorem lasting_system (a : Address) : Lasting Steady (System a) :=
  (lasting_flag a).and ((lasting_integer a _ _ _).and (lasting_path a _))

theorem systemSettings_converges : Converges Steady (Plain a) (systemSettings foreign (.table a)) (System a) := by
  refine .seq .trans (enabledFlag_converges foreign _ _) (lasting_plain a) (lasting_flag a) ?_
  refine .seq .trans (integer_converges foreign (fun _ holds => holds.1) (by decide) _ _ _ _)
    ((lasting_plain a).and (lasting_flag a)) (lasting_integer a _ _ _) ?_
  exact (validated_converges foreign ((validateAbsolutePath_lawful _).otherwise _) (by decide)
    (fun same => absurd same (by decide))).weaken fun _ holds => holds.1.1

theorem Steady.url {w later : World} (kept : Steady w later) {a : Address} (allocated : a < w.size) :
    later.get a (nameKey "url") = w.get a (nameKey "url") ∨ Url (later.get a (nameKey "url")) := by
  rcases kept.fills a allocated (nameKey "url") with same | ⟨_,_,checked⟩
  · exact .inl same
  · exact .inr (checked rfl)

structure UrlSettled (a : Address) (w : World) : Prop where
  allocated : a < w.size
  enabled : w.get a (nameKey "enabled") = .boolean true → Url (w.get a (nameKey "url"))
  checked : w.get a (nameKey "url") = .nil ∨ Url (w.get a (nameKey "url"))

theorem lasting_url (a : Address) : Lasting Steady (fun w => Flag a w ∧ UrlSettled a w) := by
  rintro w later kept ⟨flag,settled⟩
  refine ⟨lasting_flag a w later kept flag,Nat.lt_of_lt_of_le settled.allocated kept.size,?_,?_⟩
  · intro enabled
    rcases kept.url settled.allocated with same | checked
    · exact same ▸ settled.enabled ((kept.enabled flag).symm.trans enabled)
    · exact checked
  · rcases kept.url settled.allocated with same | checked
    · exact same ▸ settled.checked
    · exact .inr checked

theorem urlSetting_converges (path : String) (fallback : Value) :
    Converges Steady (fun w => Plain a w ∧ Flag a w) (urlSetting foreign (.table a) path fallback) (UrlSettled a) := by
  have url : ∀ validate, Lawful validate Url →
      Converges Steady (Plain a) (validated foreign (.table a) "url" validate) (Field a "url" Url) := fun _ lawful =>
    validated_converges foreign lawful (by decide) (fun _ _ good => good)
  have filled := url _ ((validateUrl_lawful (path ++ ".url")).otherwise fallback)
  have kept := url _ (validateUrl_lawful (path ++ ".url"))
  refine ⟨?_,?_⟩
  · rintro w later ⟨here,flag⟩ done
    obtain ⟨b,held⟩ := flag.holds
    rw [urlSetting,bind_eq (index_plain here.plain "enabled"),held] at done
    cases b with
    | true =>
      obtain ⟨steady,result⟩ := filled.establishes w later here done
      exact ⟨steady,result.allocated,fun _ => result.holds,.inr result.holds⟩
    | false =>
      rw [if_neg (by simp [Value.truthy]),bind_eq (index_plain here.plain "url")] at done
      split at done
      · obtain ⟨steady,result⟩ := kept.establishes w later here done
        exact ⟨steady,result.allocated,fun _ => result.holds,.inr result.holds⟩
      · rename_i absent
        cases done
        refine ⟨.refl _,here.allocated,fun enabled => ?_,.inl (not_not.mp absent)⟩
        rw [held] at enabled
        cases enabled
  · rintro w ⟨here,flag⟩ settled
    obtain ⟨b,held⟩ := flag.holds
    rw [urlSetting,bind_eq (index_plain here.plain "enabled"),held]
    cases b with
    | true => exact filled.rests w here ⟨here.allocated,settled.enabled held⟩
    | false =>
      rw [if_neg (by simp [Value.truthy]),bind_eq (index_plain here.plain "url")]
      split
      · rename_i present
        exact kept.rests w here ⟨here.allocated,settled.checked.resolve_left present⟩
      · rfl

def Remote (a : Address) (w : World) : Prop :=
  Flag a w ∧ Field a "interval_ms" (IntegerIn 100 86400000) w ∧ Field a "timeout_ms" (IntegerIn 10 600000) w ∧
    Field a "retry_min_ms" (IntegerIn 100 86400000) w ∧ Field a "retry_max_ms" (IntegerIn 100 86400000) w ∧
    Ordered a "retry_max_ms" "retry_min_ms" w ∧ Field a "max_response_bytes" (IntegerIn 1 (16 * 1024 * 1024)) w ∧
    UrlSettled a w

theorem lasting_remote (a : Address) : Lasting Steady (Remote a) := by
  rintro w later kept ⟨flag,interval,timeout,least,most,ordered,bytes,url⟩
  obtain ⟨flagged,settled⟩ := lasting_url a w later kept ⟨flag,url⟩
  exact ⟨flagged,lasting_integer a _ _ _ w later kept interval,lasting_integer a _ _ _ w later kept timeout,
    lasting_integer a _ _ _ w later kept least,lasting_integer a _ _ _ w later kept most,
    lasting_ordered a _ _ w later kept ordered,lasting_integer a _ _ _ w later kept bytes,settled⟩

theorem validateRemoteSource_converges (path : String) (defaults : Defaults) :
    Converges Steady (Plain a) (validateRemoteSource foreign (.table a) path defaults) (Remote a) := by
  have zero := lasting_plain a
  have one := zero.and (lasting_flag a)
  have two := one.and (lasting_integer a "interval_ms" 100 86400000)
  have three := two.and (lasting_integer a "timeout_ms" 10 600000)
  have four := three.and (lasting_integer a "retry_min_ms" 100 86400000)
  have five := four.and (lasting_integer a "retry_max_ms" 100 86400000)
  have six := five.and (lasting_ordered a "retry_max_ms" "retry_min_ms")
  refine .seq .trans (enabledFlag_converges foreign _ _) zero (lasting_flag a) ?_
  refine .seq .trans (integer_converges foreign (fun _ holds => holds.1) (by decide) _ _ _ _) one
    (lasting_integer a _ _ _) ?_
  refine .seq .trans (integer_converges foreign (fun _ holds => holds.1.1) (by decide) _ _ _ _) two
    (lasting_integer a _ _ _) ?_
  refine .seq .trans (integer_converges foreign (fun _ holds => holds.1.1.1) (by decide) _ _ _ _) three
    (lasting_integer a _ _ _) ?_
  refine .seq .trans (integer_converges foreign (fun _ holds => holds.1.1.1.1) (by decide) _ _ _ _) four
    (lasting_integer a _ _ _) ?_
  refine .seq .trans ((checkOrder_converges foreign).weaken fun _ holds => ⟨holds.1.1.1.1.1,holds.1.2,holds.2⟩) five
    (lasting_ordered a _ _) ?_
  refine .seq .trans (integer_converges foreign (fun _ holds => holds.1.1.1.1.1.1) (by decide) _ _ _ _) six
    (lasting_integer a _ _ _) ?_
  exact (urlSetting_converges foreign _ _).weaken fun _ holds => ⟨holds.1.1.1.1.1.1.1,holds.1.1.1.1.1.1.2⟩

def EnvironmentName (v : Value) : Prop := ∃ s, v = .string s ∧ environmentName s = true

theorem environmentName_truthy (v : Value) (good : EnvironmentName v) : v.truthy = true := by
  obtain ⟨s,rfl,_⟩ := good
  rfl

def Github (a : Address) (w : World) : Prop :=
  Remote a w ∧ Field a "max_items" (IntegerIn 1 100) w ∧ Field a "token_env" EnvironmentName w

theorem lasting_github (a : Address) : Lasting Steady (Github a) :=
  (lasting_remote a).and ((lasting_integer a _ _ _).and (lasting_field a _ environmentName_truthy))

theorem tokenEnv_converges : Converges Steady (Plain a) (tokenEnv foreign (.table a)) (Field a "token_env" EnvironmentName) := by
  let refused := text "configuration field sources.github.token_env must be an environment variable name"
  -- What was written is what both reads of the check see.
  have ran : ∀ w x, Plain a w → otherwise (w.get a (nameKey "token_env")) (.string (text "HYPRINGO_GITHUB_TOKEN")) = x →
      x ≠ .nil →
        (∀ s, x = .string s → tokenEnv foreign (.table a) w =
          if environmentName s then .ok ((),w.rawSet a (nameKey "token_env") x) else .error refused) ∧
        ((∀ s, x ≠ .string s) → tokenEnv foreign (.table a) w = .error refused) := by
    intro w x here chosen some
    have stays : (w.rawSet a (nameKey "token_env") x).metatable (.table a) = none := here.plain
    have written : (w.rawSet a (nameKey "token_env") x).get a (nameKey "token_env") = x := World.get_rawSet_same rfl some
    rw [tokenEnv,bind_eq (index_plain here.plain "token_env"),chosen,bind_eq (assign_plain here.plain "token_env" x),
      bind_eq (index_plain stays "token_env"),written]
    cases x with
    | string s =>
      refine ⟨?_,fun other => absurd rfl (other s)⟩
      intro t same
      cases same
      simp only [bind_eq (index_plain stays "token_env"),written]
      by_cases good : environmentName s = true
      · rw [if_pos good,if_pos good]
        rfl
      · rw [if_neg good,if_neg good]
        rfl
    | _ => exact ⟨fun s same => Value.noConfusion same,fun _ => rfl⟩
  have chosen_some : ∀ v, otherwise v (.string (text "HYPRINGO_GITHUB_TOKEN")) ≠ .nil := by
    intro v
    unfold otherwise
    split
    · rename_i truthy
      rintro rfl
      cases truthy
    · exact Value.noConfusion
  refine ⟨?_,?_⟩
  · intro w later here done
    obtain ⟨named,unnamed⟩ := ran w _ here rfl (chosen_some _)
    by_cases string : ∃ s, otherwise (w.get a (nameKey "token_env")) (.string (text "HYPRINGO_GITHUB_TOKEN")) = .string s
    · obtain ⟨s,chosen⟩ := string
      rw [named s chosen] at done
      split at done
      · rename_i good
        cases done
        rw [chosen]
        refine ⟨steady_rawSet rfl (by simp) ?_,here.allocated,s,World.get_rawSet_same rfl (by simp),good⟩
        unfold otherwise at chosen
        split at chosen
        · exact .inl chosen.symm
        · rename_i absent
          exact .inr ⟨by simpa using absent,fun same => absurd same (by decide),fun same => absurd same (by decide)⟩
      · cases done
    · rw [unnamed fun s same => string ⟨s,same⟩] at done
      cases done
  · intro w here held
    obtain ⟨s,is,good⟩ := held.holds
    have chosen : otherwise (w.get a (nameKey "token_env")) (.string (text "HYPRINGO_GITHUB_TOKEN")) = .string s := by
      rw [is]
      rfl
    rw [(ran w _ here chosen (by simp)).1 s rfl]
    simp only [good,if_true,World.rawSet_idle is (by simp)]

theorem githubSettings_converges : Converges Steady (Plain a) (githubSettings foreign (.table a)) (Github a) := by
  refine .seq .trans (validateRemoteSource_converges foreign _ _) (lasting_plain a) (lasting_remote a) ?_
  refine .seq .trans (integer_converges foreign (fun _ holds => holds.1) (by decide) _ _ _ _)
    ((lasting_plain a).and (lasting_remote a)) (lasting_integer a _ _ _) ?_
  exact (tokenEnv_converges foreign).weaken fun _ holds => holds.1.1

theorem requireTable_plain {key path : String} (other : nameKey key ≠ nameKey "enabled" ∧ nameKey key ≠ nameKey "url")
    {w later : World} {v : Value} (here : Plain a w) (done : requireTable foreign (.table a) key path w = .ok (v,later)) :
    Steady w later ∧ ∃ b, v = .table b ∧ Linked a b key later := by
  rw [requireTable,bind_eq (index_plain here.plain key)] at done
  cases held : w.get a (nameKey key) with
  | nil =>
    rw [held] at done
    obtain ⟨fresh,middle,made,rest⟩ := bind_ok.mp done
    cases made
    have plain : w.alloc.metatable (.table a) = none := (World.alloc_metatable (v := .table a) here.allocated).trans here.plain
    rw [bind_eq (assign_plain plain key _)] at rest
    cases rest
    have absent : w.alloc.get a (nameKey key) = .nil := by
      rw [World.get,World.alloc_old here.allocated]
      exact held
    have filled : Fills (nameKey key) (w.alloc.get a (nameKey key)) (.table w.size) :=
      .inr ⟨by rw [absent]; rfl,fun _ => absent,fun same => absurd same other.2⟩
    refine ⟨(steady_alloc w).trans (steady_rawSet rfl (by simp) filled),w.size,rfl,Nat.lt_succ_of_lt here.allocated,?_⟩
    exact World.get_rawSet_same rfl (by simp)
  | table b =>
    rw [held] at done
    cases done
    exact ⟨.refl _,b,rfl,here.allocated,held⟩
  | _ =>
    rw [held] at done
    cases done

theorem requireTable_rests {key path : String} {w : World} {b : Address} (here : Plain a w) (link : Linked a b key w) :
    requireTable foreign (.table a) key path w = .ok (.table b,w) := by
  have held : w.get a (nameKey key) = .table b := link.holds
  rw [requireTable,bind_eq (index_plain here.plain key),held]
  rfl

def enabledCount (w : World) (sources : List Address) : Nat :=
  (sources.filter fun a => (w.get a (nameKey "enabled")).truthy).length

theorem blockingSources_plain {w : World} {sources : List Address} (here : ∀ a ∈ sources, Plain a w) :
    blockingSources foreign (sources.map .table) w = .ok (enabledCount w sources,w) := by
  have counted : ∀ total, ((sources.map Value.table).foldlM (fun total source => do
      if (← index foreign source "enabled").truthy then return total + 1 else return total) total : Program Nat) w =
        .ok (total + enabledCount w sources,w) := by
    induction sources with
    | nil => exact fun total => rfl
    | cons a rest ih =>
      intro total
      have later := ih (fun b member => here b (List.mem_cons_of_mem _ member))
      rw [List.map_cons,List.foldlM_cons,bind_assoc,bind_eq (index_plain (here a List.mem_cons_self).plain "enabled")]
      by_cases on : (w.get a (nameKey "enabled")).truthy = true
      · have one : enabledCount w (a :: rest) = enabledCount w rest + 1 := by simp [enabledCount,on]
        rw [if_pos on,pure_bind,later,one]
        congr 2
        omega
      · have none : enabledCount w (a :: rest) = enabledCount w rest := by simp [enabledCount,on]
        rw [if_neg on,pure_bind,later,none]
  have whole := counted 0
  rw [Nat.zero_add] at whole
  exact whole

-- More workers than sources that block.
structure Staffed (runtime : Address) (sources : List Address) (w : World) : Prop where
  holds : ∃ i : Int64, w.get runtime (nameKey "workers") = .integer i ∧ enabledCount w sources < i.toInt

theorem checkWorkers_converges (runtime : Address) {sources : List Address} (few : sources.length < 2^63) :
    Converges Steady
      (fun w => Plain runtime w ∧ Field runtime "workers" (IntegerIn 1 256) w ∧ ∀ a ∈ sources, Plain a w)
      (checkWorkers foreign (.table runtime) (sources.map .table)) (Staffed runtime sources) := by
  have ran : ∀ w i, Plain runtime w → (∀ a ∈ sources, Plain a w) → w.get runtime (nameKey "workers") = .integer i →
      checkWorkers foreign (.table runtime) (sources.map .table) w =
        if i.toInt ≤ enabledCount w sources then
          .error (fieldError "runtime.workers" (text " must be greater than the number of enabled blocking sources (" ++
            Numeral.digits (enabledCount w sources) ++ text ")"))
        else .ok ((),w) := by
    intro w i here each held
    have small : enabledCount w sources < 2^63 := Nat.lt_of_le_of_lt (List.length_filter_le _ _) few
    have exact_count : (Int64.ofNat (enabledCount w sources)).toInt = enabledCount w sources :=
      Int64.toInt_ofNat_of_lt small
    rw [checkWorkers,bind_eq (blockingSources_plain foreign each),bind_eq (index_plain here.plain "workers"),held]
    rw [@bind_eq _ _ _ _ _ _ _ w (decide (i.toInt ≤ enabledCount w sources))
      (by simp [Lua.compare,Order.holds,exact_count])]
    by_cases less : i.toInt ≤ enabledCount w sources
    · simp only [less,decide_true,if_true]
      rfl
    · simp only [less,decide_false,if_false,Bool.false_eq_true]
      rfl
  refine ⟨?_,?_⟩
  · rintro w later ⟨here,⟨_,i,held,_⟩,each⟩ done
    rw [ran w i here each held] at done
    split at done
    · cases done
    · cases done
      exact ⟨.refl _,i,held,by omega⟩
  · rintro w ⟨here,_,each⟩ ⟨i,held,more⟩
    rw [ran w i here each held,if_neg (by omega)]

end Steps
end Hypringo.ConfigSettings

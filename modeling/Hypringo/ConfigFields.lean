import Hypringo.ConfigLoad
import Hypringo.Lua.Raise

namespace Hypringo.ConfigFields
open Hypringo.Lua ConfigLoad

def IntegerIn (minimum maximum : Nat) (v : Value) : Prop := ∃ i : Int64, v = .integer i ∧ minimum ≤ i.toInt ∧ i.toInt ≤ maximum

def AbsolutePath (v : Value) : Prop := ∃ rest, v = .string (slash :: rest)

def HttpUrl (s : Bytes) : Prop :=
  ∃ rest, rest ≠ [] ∧ (∀ b ∈ rest, space b = false) ∧ (s = text "http://" ++ rest ∨ s = text "https://" ++ rest)

def Url (v : Value) : Prop := ∃ s, v = .string s ∧ HttpUrl s

-- A check that lets through what is good, and replaces a value only when the
-- fallback stands in for it.
structure Lawful (validate : Value → Except Bytes Value) (good : Value → Prop) : Prop where
  sound : ∀ {v x}, validate v = .ok x → good x
  kept : ∀ {v x}, validate v = .ok x → v.truthy = true → x = v
  accepts : ∀ {v}, good v → validate v = .ok v
  truthy : ∀ {v}, good v → v.truthy = true
  scalar : ∀ {v}, good v → v.scalar = true

theorem Lawful.defaulted {check : Value → Except Bytes Value} {good : Value → Prop} (lawful : Lawful check good)
    (fallback : Except Bytes Value) : Lawful (fun v => orElse v fallback >>= check) good := by
  refine ⟨?_,?_,?_,lawful.truthy,lawful.scalar⟩
  · intro v x returned
    obtain ⟨y,_,checked⟩ := Raise.bind_ok.mp returned
    exact lawful.sound checked
  · intro v x returned some
    rw [orElse,if_pos some] at returned
    exact lawful.kept returned some
  · intro v good
    rw [orElse,if_pos (lawful.truthy good)]
    exact lawful.accepts good

theorem Lawful.otherwise {check : Value → Except Bytes Value} {good : Value → Prop} (lawful : Lawful check good)
    (fallback : Value) : Lawful (fun v => check (ConfigLoad.otherwise v fallback)) good := by
  have same : (fun v => check (ConfigLoad.otherwise v fallback)) = fun v => orElse v (.ok fallback) >>= check := by
    funext v
    unfold ConfigLoad.otherwise orElse
    split <;> rfl
  rw [same]
  exact lawful.defaulted _

theorem validateInteger_lawful (path : String) (fallback : Int64) (minimum maximum : Nat) :
    Lawful (fun v => validateInteger v path fallback minimum maximum) (IntegerIn minimum maximum) := by
  refine ⟨?_,?_,?_,?_,?_⟩
  · intro v x returned
    simp only [validateInteger] at returned
    split at returned
    · rename_i i _
      split at returned
      · cases returned
      · cases returned
        rename_i inside
        exact ⟨i,rfl,by omega,by omega⟩
    · cases returned
  · intro v x returned some
    simp only [validateInteger,ConfigLoad.otherwise,some,if_true] at returned
    split at returned
    · split at returned
      · cases returned
      · cases returned
        rfl
    · cases returned
  · rintro v ⟨i,rfl,least,most⟩
    have inside : ¬(i.toInt < minimum ∨ (maximum : Int) < i.toInt) := by omega
    simp [validateInteger,ConfigLoad.otherwise,Value.truthy,inside]
  · rintro v ⟨i,rfl,_⟩
    rfl
  · rintro v ⟨i,rfl,_⟩
    rfl

theorem validateAbsolutePath_lawful (path : String) : Lawful (fun v => validateAbsolutePath v path) AbsolutePath := by
  have exact_path : ∀ v x, validateAbsolutePath v path = .ok x → AbsolutePath v ∧ x = v := by
    intro v x returned
    unfold validateAbsolutePath at returned
    split at returned
    · cases returned
    · split at returned
      · cases returned
        rename_i rooted
        exact ⟨⟨_,by rw [rooted]⟩,rfl⟩
      · cases returned
    · cases returned
  refine ⟨?_,fun returned _ => (exact_path _ _ returned).2,?_,?_,?_⟩
  · intro v x returned
    obtain ⟨rooted,rfl⟩ := exact_path v x returned
    exact rooted
  · rintro v ⟨rest,rfl⟩
    simp [validateAbsolutePath]
  · rintro v ⟨rest,rfl⟩
    rfl
  · rintro v ⟨rest,rfl⟩
    rfl

theorem url_rest (rest whole : Bytes) :
    (Pattern.run [.plus (fun b => !space b)] rest fun tail => Pattern.run [] tail fun left =>
      if true && !left.isEmpty then none else some (whole.take (whole.length - tail.length))).isSome = true ↔
      rest ≠ [] ∧ ∀ b ∈ rest, space b = false := by
  have shape : (fun tail : Bytes => Pattern.run [] tail fun left =>
      if true && !left.isEmpty then none else some (whole.take (whole.length - tail.length))) =
      fun tail => if tail.isEmpty then some (whole.take (whole.length - tail.length)) else none := by
    funext tail
    cases tail <;> rfl
  rw [shape,Pattern.run_plus_end]
  simp [Pattern.plusText]

theorem urlPattern_matches (s : Bytes) : (urlPattern.matches s).isSome = true ↔ HttpUrl s := by
  simp only [Pattern.Anchored.matches,urlPattern,Pattern.run_append,Pattern.literal_isSome,Pattern.optional_isSome]
  have plain : text "http://" = text "http" ++ text "://" := rfl
  have secure : text "https://" = text "http" ++ 115 :: text "://" := rfl
  constructor
  · rintro ⟨_,rfl,⟨b,_,rfl,letter,rest,rfl,matched⟩ | ⟨rest,rfl,matched⟩⟩
    · obtain ⟨some,solid⟩ := (url_rest rest rest).mp matched
      have same : b = 115 := by simpa [Pattern.byte] using letter
      exact ⟨rest,some,solid,.inr (by simp [secure,same])⟩
    · obtain ⟨some,solid⟩ := (url_rest rest rest).mp matched
      exact ⟨rest,some,solid,.inl (by simp [plain])⟩
  · rintro ⟨rest,some,solid,rfl | rfl⟩
    · exact ⟨text "://" ++ rest,by simp [plain],.inr ⟨rest,rfl,(url_rest rest rest).mpr ⟨some,solid⟩⟩⟩
    · exact ⟨115 :: (text "://" ++ rest),by simp [secure],
        .inl ⟨115,_,rfl,rfl,rest,rfl,(url_rest rest rest).mpr ⟨some,solid⟩⟩⟩

theorem validateUrl_lawful (path : String) : Lawful (fun v => validateUrl v path) Url := by
  have exact_url : ∀ v x, validateUrl v path = .ok x → Url v ∧ x = v := by
    intro v x returned
    simp only [validateUrl] at returned
    split at returned
    · split at returned
      · cases returned
        rename_i s matched
        exact ⟨⟨s,rfl,(urlPattern_matches s).mp matched⟩,rfl⟩
      · cases returned
    · cases returned
  refine ⟨?_,fun returned _ => (exact_url _ _ returned).2,?_,?_,?_⟩
  · intro v x returned
    obtain ⟨good,rfl⟩ := exact_url v x returned
    exact good
  · rintro v ⟨s,rfl,good⟩
    simp [validateUrl,(urlPattern_matches s).mpr good]
  · rintro v ⟨s,rfl,_⟩
    rfl
  · rintro v ⟨s,rfl,_⟩
    rfl

end Hypringo.ConfigFields

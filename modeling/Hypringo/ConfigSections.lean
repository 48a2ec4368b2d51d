import Hypringo.ConfigEffects
import Hypringo.ConfigSettings
import Hypringo.ValidateValue

namespace Hypringo.ConfigSections
open Hypringo.Lua ConfigLoad ConfigFields ConfigEffects ConfigSettings Settling
open Hypringo.Lua.Program (Writes)

-- A subtable, the settings checked in it and what holds of it afterwards.
structure Section where
  key : String
  path : String
  body : Value → Value → Program Unit
  post : Address → World → Prop

def Apart (key : String) (names : List String) : Prop := ∀ name ∈ names, nameKey key ≠ nameKey name

instance (key : String) (names : List String) : Decidable (Apart key names) :=
  inferInstanceAs (Decidable (∀ name ∈ names, nameKey key ≠ nameKey name))

structure Section.Lawful (s : Section) : Prop where
  apart : Apart s.key settingNames
  writes : ∀ n (parent value : Value), parent.Within n → value.Within n → (s.body parent value).Writes settingNames n Closing
  converges : ∀ p b, Converges Steady (fun w => Plain b w ∧ Plain p w ∧ Linked p b s.key w)
    (s.body (.table p) (.table b)) (s.post b)
  lasting : ∀ b, Lasting Steady (s.post b)

section Running
variable (foreign : Foreign)

def runSections (parent : Value) : List Section → Program (List Value)
  | [] => return []
  | s :: rest => do
    let value ← requireTable foreign parent s.key s.path
    s.body parent value
    return value :: (← runSections parent rest)

end Running

-- The section stands under its parent, plain and checked.
structure Placed (p : Address) (s : Section) (b : Address) (w : World) : Prop where
  plain : Plain b w
  link : Linked p b s.key w
  post : s.post b w

theorem lasting_placed {p : Address} {s : Section} (lawful : s.Lawful) (b : Address) : Lasting Steady (Placed p s b) := by
  intro w later kept placed
  exact ⟨lasting_plain b w later kept placed.plain,lasting_linked p b s.key w later kept placed.link,
    lawful.lasting b w later kept placed.post⟩

section Sections
variable {foreign : Foreign} (inert : foreign.Inert) {sections : List Section}
include inert

theorem runSections_writes (lawful : ∀ s ∈ sections, s.Lawful) {n : Nat} {parent : Value} (inside : parent.Within n) :
    (runSections foreign parent sections).Writes (sections.map Section.key ++ settingNames) n
      (fun values m => ∀ v ∈ values, v.Within m) := by
  induction sections generalizing n with
  | nil => exact .pure (fun _ _ => nofun)
  | cons s rest ih =>
    refine .bind ((requireTable_writes inert inside s.key s.path).mono (by simp)) ?_
    intro value m le held
    refine .bind (((lawful s List.mem_cons_self).writes m parent value (inside.mono le) held).mono (by simp)) ?_
    intro _ k more _
    refine .bind ((ih (fun other member => lawful other (List.mem_cons_of_mem _ member))
      (inside.mono (Nat.le_trans le more))).mono (by simp)) ?_
    intro values i grown each
    refine .pure (fun j further v member => ?_)
    rcases List.mem_cons.mp member with rfl | later
    · exact held.mono (Nat.le_trans more (Nat.le_trans grown further))
    · exact (each v later).mono further

-- What the sections leave is final but for other fields, and there they are
-- plain tables: then they were plain all along.
theorem runSections_settle (lawful : ∀ s ∈ sections, s.Lawful)
    (distinct : sections.Pairwise fun s t => nameKey s.key ≠ nameKey t.key) {p : Address} {w middle final : World} {values : List Value}
    (closed : w.Closed) (here : Plain p w) (done : runSections foreign (.table p) sections w = .ok (values,middle))
    {names : List String} (after : Keeps names middle final) (apart : ∀ s ∈ sections, Apart s.key names)
    (plain : ∀ s ∈ sections, ∀ b, final.get p (nameKey s.key) = .table b → final.metatable (.table b) = none) :
    Steady w middle ∧ ∃ placed : List Address, values = placed.map .table ∧
      List.Forall₂ (fun s b => Placed p s b middle) sections placed := by
  induction sections generalizing w values with
  | nil =>
    cases done
    exact ⟨.refl _,[],rfl,.nil⟩
  | cons s rest ih =>
    obtain ⟨value,found,taken,more⟩ := bind_ok.mp done
    obtain ⟨_,checked,ran,more⟩ := bind_ok.mp more
    obtain ⟨others,last,later,returned⟩ := bind_ok.mp more
    obtain ⟨rfl,rfl⟩ := pure_ok.mp returned
    have mine := lawful s List.mem_cons_self
    have theirs : ∀ t ∈ rest, t.Lawful := fun t member => lawful t (List.mem_cons_of_mem _ member)
    obtain ⟨distinctHere,distinctLater⟩ := List.pairwise_cons.mp distinct
    obtain ⟨taking,held⟩ := requireTable_writes inert (show (Value.table p).Within w.size from here.allocated) s.key s.path
      w value found closed (Nat.le_refl _) taken
    obtain ⟨grown,b,rfl,link⟩ := requireTable_plain foreign
      ⟨mine.apart "enabled" (by simp [settingNames]),mine.apart "url" (by simp [settingNames])⟩ here taken
    have parent := lasting_plain p w found grown here
    obtain ⟨settings,_⟩ := mine.writes found.size (.table p) (.table b) parent.allocated held found () checked taking.closed
      (Nat.le_refl _) ran
    have outer : (Value.table p).Within checked.size := Nat.lt_of_lt_of_le parent.allocated settings.size
    obtain ⟨remaining,_⟩ := runSections_writes inert theirs outer checked others middle settings.closed (Nat.le_refl _) later
    -- Nothing that runs later writes this section's own field.
    have tail : Keeps (rest.map Section.key ++ settingNames ++ names) found final :=
      ((settings.mono (by simp)).trans (remaining.mono (List.subset_append_left _ _))).trans (after.mono (by simp))
    have stays : final.get p (nameKey s.key) = .table b := by
      refine (tail.get p parent.allocated (nameKey s.key) ?_).trans link.holds
      intro name listed
      rcases List.mem_append.mp listed with before | after
      · rcases List.mem_append.mp before with sibling | setting
        · obtain ⟨t,member,rfl⟩ := List.mem_map.mp sibling
          exact distinctHere t member
        · exact mine.apart name setting
      · exact apart s List.mem_cons_self name after
    have bare : found.metatable (.table b) = none :=
      (tail.metatable (.table b) held).symm.trans (plain s List.mem_cons_self b stays)
    obtain ⟨kept,post⟩ := (mine.converges p b).establishes found checked ⟨⟨held,bare⟩,parent,link⟩ ran
    have placed : Placed p s b checked :=
      ⟨lasting_plain b found checked kept ⟨held,bare⟩,lasting_linked p b s.key found checked kept link,post⟩
    obtain ⟨steady,placements,rfl,all⟩ := ih theirs distinctLater settings.closed
      (lasting_plain p found checked kept parent) later (fun t member => apart t (List.mem_cons_of_mem _ member))
      (fun t member => plain t (List.mem_cons_of_mem _ member))
    exact ⟨(grown.trans kept).trans steady,b :: placements,rfl,.cons (lasting_placed mine b checked middle steady placed) all⟩

end Sections

theorem runSections_rest (foreign : Foreign) {sections : List Section} (lawful : ∀ s ∈ sections, s.Lawful) {p : Address}
    {w : World} (here : Plain p w) {placed : List Address}
    (all : List.Forall₂ (fun s b => Placed p s b w) sections placed) :
    runSections foreign (.table p) sections w = .ok (placed.map .table,w) := by
  induction all with
  | nil => rfl
  | cons first _ ih =>
    rename_i s b rest others _
    have mine := lawful s List.mem_cons_self
    rw [runSections,bind_eq (requireTable_rests foreign here first.link),
      bind_eq ((mine.converges p b).rests w ⟨first.plain,here,first.link⟩ first.post),
      bind_eq (ih (fun t member => lawful t (List.mem_cons_of_mem _ member)))]
    rfl

section Configuration
variable (foreign : Foreign) (environment : Bytes → Option Bytes)

def runtimeSection : Section where
  key := "runtime"
  path := "runtime"
  body := fun config runtime => runtimeSettings foreign environment config runtime
  post := Runtime

-- What is checked in here are the sections below it.
def sourcesSection : Section where
  key := "sources"
  path := "sources"
  body := fun _ _ => pure ()
  post := fun _ _ => True

def hyprlandSection : Section where
  key := "hyprland"
  path := "sources.hyprland"
  body := fun _ hyprland => hyprlandSettings foreign environment hyprland
  post := Hyprland

def mprisSection : Section where
  key := "mpris"
  path := "sources.mpris"
  body := fun _ mpris => reconnectSettings foreign mpris "sources.mpris"
  post := Reconnecting

def audioSection : Section where
  key := "audio"
  path := "sources.audio"
  body := fun _ audio => reconnectSettings foreign audio "sources.audio"
  post := Reconnecting

def systemSection : Section where
  key := "system"
  path := "sources.system"
  body := fun _ system => systemSettings foreign system
  post := System

def weatherSection : Section where
  key := "weather"
  path := "sources.weather"
  body := fun _ weather => validateRemoteSource foreign weather "sources.weather" weatherDefaults
  post := Remote

def githubSection : Section where
  key := "github"
  path := "sources.github"
  body := fun _ github => githubSettings foreign github
  post := Github

def outerSections : List Section := [runtimeSection foreign environment,sourcesSection]

def sourceSections : List Section :=
  [hyprlandSection foreign environment,mprisSection foreign,audioSection foreign,systemSection foreign,
    weatherSection foreign,githubSection foreign]

theorem settings_sections (config : Value) :
    settings foreign environment config = (do
      let outer ← runSections foreign config (outerSections foreign environment)
      let sources ← runSections foreign (outer.getD 1 .nil) (sourceSections foreign environment)
      checkWorkers foreign (outer.getD 0 .nil) (sources.eraseIdx 3)) := by
  simp only [settings,outerSections,sourceSections,runtimeSection,sourcesSection,hyprlandSection,mprisSection,audioSection,
    systemSection,weatherSection,githubSection,runSections,bind_assoc,pure_bind]
  rfl

end Configuration
end Hypringo.ConfigSections

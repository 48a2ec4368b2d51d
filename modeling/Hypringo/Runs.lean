import Mathlib

namespace Hypringo.Runs

-- A deterministic system taking step after step. What the environment may
-- choose is part of the event; which events are possible is a condition.
variable {State Event : Type*} (apply : State → Event → State)

def final : State → List Event → State
  | s,[] => s
  | s,event :: rest => final (apply s event) rest

def Each (condition : State → Event → Prop) : State → List Event → Prop
  | _,[] => True
  | s,event :: rest => condition s event ∧ Each condition (apply s event) rest

def Throughout (property : State → Prop) : State → List Event → Prop
  | s,[] => property s
  | s,event :: rest => property s ∧ Throughout property (apply s event) rest

instance eachDecidable (condition : State → Event → Prop) [∀ s event, Decidable (condition s event)] :
    ∀ s events, Decidable (Each apply condition s events)
  | _,[] => .isTrue trivial
  | s,event :: rest =>
    have := eachDecidable condition (apply s event) rest
    inferInstanceAs (Decidable (_ ∧ _))

variable {apply} {property : State → Prop} {allowed condition kept : State → Event → Prop}
variable {s : State} {events : List Event}

theorem throughout_invariant
    (step : ∀ s event, property s → allowed s event → property (apply s event))
    (start : property s) (permitted : Each apply allowed s events) : Throughout apply property s events := by
  induction events generalizing s with
  | nil => exact start
  | cons event rest ih =>
    exact ⟨start,ih (step s event start permitted.1) permitted.2⟩

theorem throughout_imp {other : State → Prop} (imp : ∀ s, property s → other s)
    (holds : Throughout apply property s events) : Throughout apply other s events := by
  induction events generalizing s with
  | nil => exact imp s holds
  | cons event rest ih => exact ⟨imp s holds.1,ih holds.2⟩

theorem throughout_and {other : State → Prop} (one : Throughout apply property s events)
    (two : Throughout apply other s events) : Throughout apply (fun s => property s ∧ other s) s events := by
  induction events generalizing s with
  | nil => exact ⟨one,two⟩
  | cons event rest ih => exact ⟨⟨one.1,two.1⟩,ih one.2 two.2⟩

theorem final_invariant
    (step : ∀ s event, property s → allowed s event → property (apply s event))
    (start : property s) (permitted : Each apply allowed s events) : property (final apply s events) := by
  induction events generalizing s with
  | nil => exact start
  | cons event rest ih => exact ih (step s event start permitted.1) permitted.2

theorem throughout_final (holds : Throughout apply property s events) : property (final apply s events) := by
  induction events generalizing s with
  | nil => exact holds
  | cons event rest ih => exact ih holds.2

theorem final_append (earlier later : List Event) :
    final apply s (earlier ++ later) = final apply (final apply s earlier) later := by
  induction earlier generalizing s with
  | nil => rfl
  | cons event rest ih => exact ih

theorem each_append {earlier later : List Event} (first : Each apply condition s earlier)
    (second : Each apply condition (final apply s earlier) later) : Each apply condition s (earlier ++ later) := by
  induction earlier generalizing s with
  | nil => exact second
  | cons event rest ih => exact ⟨first.1,ih first.2 second⟩

theorem each_split {earlier later : List Event} (holds : Each apply condition s (earlier ++ later)) :
    Each apply condition s earlier ∧ Each apply condition (final apply s earlier) later := by
  induction earlier generalizing s with
  | nil => exact ⟨trivial,holds⟩
  | cons event rest ih =>
    obtain ⟨first,second⟩ := ih holds.2
    exact ⟨⟨holds.1,first⟩,second⟩

theorem each_and (one : Each apply allowed s events) (two : Each apply condition s events) :
    Each apply (fun s event => allowed s event ∧ condition s event) s events := by
  induction events generalizing s with
  | nil => trivial
  | cons event rest ih => exact ⟨⟨one.1,two.1⟩,ih one.2 two.2⟩

theorem each_always (always : ∀ s event, allowed s event) : Each apply allowed s events := by
  induction events generalizing s with
  | nil => trivial
  | cons event rest ih => exact ⟨always s event,ih⟩

-- What every step does from states that satisfy the invariant.
theorem each_of_invariant
    (step : ∀ s event, property s → allowed s event → property (apply s event))
    (holds : ∀ s event, property s → allowed s event → kept s event)
    (start : property s) (permitted : Each apply allowed s events) : Each apply kept s events := by
  induction events generalizing s with
  | nil => trivial
  | cons event rest ih =>
    exact ⟨holds s event start permitted.1,ih (step s event start permitted.1) permitted.2⟩

-- Two things a step may do that agree wherever the invariant holds.
theorem each_iff
    (step : ∀ s event, property s → allowed s event → property (apply s event))
    (agree : ∀ s event, property s → allowed s event → (kept s event ↔ condition s event))
    (start : property s) (permitted : Each apply allowed s events) :
    Each apply kept s events ↔ Each apply condition s events := by
  induction events generalizing s with
  | nil => exact Iff.rfl
  | cons event rest ih =>
    exact and_congr (agree s event start permitted.1) (ih (step s event start permitted.1) permitted.2)

-- A property that a step keeps exactly under a condition holds all along a run
-- exactly when every step of the run meets the condition. What the steps that
-- meet it keep besides may be used.
theorem throughout_iff_each_beside {beside : State → Prop}
    (step : ∀ s event, property s → beside s → allowed s event → (property (apply s event) ↔ condition s event))
    (keeps : ∀ s event, beside s → allowed s event → condition s event → beside (apply s event))
    (start : property s) (first : beside s) (permitted : Each apply allowed s events) :
    Throughout apply property s events ↔ Each apply condition s events := by
  induction events generalizing s with
  | nil => exact ⟨fun _ => trivial,fun _ => start⟩
  | cons event rest ih =>
    have here := step s event start first permitted.1
    have later (met : condition s event) := ih (here.mpr met) (keeps s event first permitted.1 met) permitted.2
    constructor
    · rintro ⟨-,holds⟩
      have next : property (apply s event) := by
        cases rest with
        | nil => exact holds
        | cons _ _ => exact holds.1
      exact ⟨here.mp next,(later (here.mp next)).mp holds⟩
    · rintro ⟨met,others⟩
      exact ⟨start,(later met).mpr others⟩

theorem throughout_iff_each
    (step : ∀ s event, property s → allowed s event → (property (apply s event) ↔ condition s event))
    (start : property s) (permitted : Each apply allowed s events) :
    Throughout apply property s events ↔ Each apply condition s events :=
  @throughout_iff_each_beside _ _ apply property allowed condition s events (fun _ => True)
    (fun s event holds _ => step s event holds) (fun _ _ _ _ _ => trivial) start trivial permitted

end Hypringo.Runs

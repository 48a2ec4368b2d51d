import Hypringo.Runs

namespace Hypringo.Backoff

structure Bounds where
  least : Int
  most : Int
  deriving DecidableEq, Repr

def Bounds.clamp (bounds : Bounds) (delay : Int) : Int := max bounds.least (min bounds.most delay)

-- What is seen of something that keeps a connection: attempts and how they end,
-- the loss of a connection, waits that run to their end, and new bounds.
inductive Act where
  | attempt
  | failed
  | accepted
  | dropped
  | waited (delay : Int)
  | reloaded (bounds : Bounds)
  deriving DecidableEq, Repr

def Lost (act : Act) : Prop := act = .failed ∨ act = .dropped

-- No connection comes about, and nothing is waited for.
def Failing (acts : List Act) : Prop := ∀ act ∈ acts, act = .attempt ∨ act = .failed ∨ ∃ bounds, act = .reloaded bounds

def bounds (first : Bounds) (acts : List Act) : Bounds :=
  acts.foldl (fun bounds act => match act with
    | .reloaded next => next
    | _ => bounds) first

-- New bounds move a delay that lies outside them.
def clamped (delay : Int) (acts : List Act) : Int :=
  acts.foldl (fun delay act => match act with
    | .reloaded next => next.clamp delay
    | _ => delay) delay

-- A wait lies between a loss and the next attempt. It is as long as the bounds
-- of its time allow, begins at the least, and doubles up to the most from one
-- failed attempt to the next.
structure Paced (first : Bounds) (acts : List Act) : Prop where
  separated : ∀ before lost between after, acts = before ++ lost :: (between ++ .attempt :: after) → Lost lost →
    ∃ delay, .waited delay ∈ between
  bounded : ∀ before delay after, acts = before ++ .waited delay :: after →
    (bounds first before).least ≤ delay ∧ delay ≤ (bounds first before).most
  begins : ∀ before between delay after, acts = before ++ (between ++ .waited delay :: after) →
    before = [] ∨ before.getLast? = some .accepted → Failing between →
      delay = clamped (bounds first before).least between
  doubles : ∀ before delay between other after,
    acts = before ++ .waited delay :: (between ++ .waited other :: after) → Failing between →
      other = clamped (min (bounds first before).most (delay * 2)) between

-- The same, checked act by act. `owed` says that a loss has not been waited for.
structure Monitor where
  bounds : Bounds
  delay : Int
  owed : Bool
  deriving DecidableEq, Repr

def start (bounds : Bounds) : Monitor := ⟨bounds,bounds.least,false⟩

def next (m : Monitor) : Act → Monitor
  | .attempt => m
  | .failed | .dropped => { m with owed := true }
  | .accepted => { m with delay := m.bounds.least }
  | .waited _ => { m with delay := min m.bounds.most (m.delay * 2), owed := false }
  | .reloaded bounds => { m with bounds := bounds, delay := bounds.clamp m.delay }

def Fair (m : Monitor) : Act → Prop
  | .attempt => m.owed = false
  | .waited delay => delay = m.delay ∧ m.bounds.least ≤ delay ∧ delay ≤ m.bounds.most
  | _ => True

abbrev Checked (m : Monitor) (acts : List Act) : Prop := Runs.Each next Fair m acts

theorem next_bounds (m : Monitor) (acts : List Act) : (Runs.final next m acts).bounds = bounds m.bounds acts := by
  induction acts generalizing m with
  | nil => rfl
  | cons act rest ih =>
    rw [Runs.final,ih]
    cases act <;> rfl

theorem failing_delay (m : Monitor) {acts : List Act} (failing : Failing acts) :
    (Runs.final next m acts).delay = clamped m.delay acts := by
  induction acts generalizing m with
  | nil => rfl
  | cons act rest ih =>
    rw [Runs.final,ih _ (fun other member => failing other (List.mem_cons_of_mem _ member))]
    rcases failing act List.mem_cons_self with rfl | rfl | ⟨bounds,rfl⟩
    · rfl
    · rfl
    · rfl

-- A loss stays owed until there is a wait.
theorem owed_kept {m : Monitor} {acts : List Act} (owed : m.owed = true) (unwaited : ∀ delay, .waited delay ∉ acts) :
    (Runs.final next m acts).owed = true := by
  induction acts generalizing m with
  | nil => exact owed
  | cons act rest ih =>
    refine ih ?_ (fun delay member => unwaited delay (List.mem_cons_of_mem _ member))
    cases act with
    | waited delay => exact absurd List.mem_cons_self (unwaited delay)
    | failed => rfl
    | dropped => rfl
    | _ => exact owed

theorem accepted_delay {m : Monitor} {acts : List Act} (last : acts.getLast? = some .accepted) :
    (Runs.final next m acts).delay = (Runs.final next m acts).bounds.least := by
  obtain ⟨before,rfl⟩ := List.getLast?_eq_some_iff.mp last
  rw [Runs.final_append]
  rfl

theorem checked_paced {first : Bounds} {acts : List Act} (checked : Checked (start first) acts) : Paced first acts := by
  refine ⟨?_,?_,?_,?_⟩
  · rintro before lost between after rfl loss
    by_contra none
    have unwaited : ∀ delay, .waited delay ∉ between := fun delay member => none ⟨delay,member⟩
    obtain ⟨_,_,rest⟩ := Runs.each_split checked
    obtain ⟨_,fair,_⟩ := Runs.each_split rest
    have owed : (next (Runs.final next (start first) before) lost).owed = true := by
      rcases loss with rfl | rfl
      · rfl
      · rfl
    rw [Fair,owed_kept owed unwaited] at fair
    cases fair
  · rintro before delay after rfl
    obtain ⟨_,⟨_,within⟩,_⟩ := Runs.each_split checked
    rw [next_bounds] at within
    exact within
  · rintro before between delay after rfl begins failing
    obtain ⟨_,rest⟩ := Runs.each_split checked
    obtain ⟨_,⟨exact',_⟩,_⟩ := Runs.each_split rest
    rw [exact',failing_delay _ failing]
    rcases begins with rfl | accepted
    · rfl
    · rw [accepted_delay accepted,next_bounds]
      rfl
  · rintro before delay between other after rfl failing
    obtain ⟨_,⟨same,_⟩,rest⟩ := Runs.each_split checked
    obtain ⟨_,⟨exact',_⟩,_⟩ := Runs.each_split rest
    rw [exact',failing_delay _ failing,same]
    simp only [next,next_bounds]
    rfl

-- What the steps of a run show.
def observed {State Event : Type*} (apply : State → Event → State) (acts : State → Event → List Act) :
    State → List Event → List Act
  | _,[] => []
  | s,event :: rest => acts s event ++ observed apply acts (apply s event) rest

end Hypringo.Backoff

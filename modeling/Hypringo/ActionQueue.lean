import Hypringo.Control
import Hypringo.Runs

namespace Hypringo.ActionQueue
open Hypringo.Lua Hypringo.Circular Control

-- Where the state service stands in its calls of start and stop.
inductive Phase where
  | idle
  | starting
  | serving
  | joining
  deriving DecidableEq, Repr

-- One enqueue_action of the control thread with the line it answered, and one
-- command handed to the actions service. An epoch lasts from one start to the
-- next.
structure Call where
  epoch : Nat
  command : Bytes
  answer : Bytes
  deriving DecidableEq, Repr

structure Popped where
  epoch : Nat
  command : Bytes
  deriving DecidableEq, Repr

structure System where
  server : Server
  phase : Phase
  epoch : Nat
  calls : List Call
  popped : List Popped

def initial : System := ⟨zeroed,.idle,0,[],[]⟩

-- Every section under the mutex is one event, in any order the callers allow.
inductive Event where
  | start
  | created
  | createFailed
  | enqueue (client : Client) (command : Bytes)
  | pop
  | stop
  | joined
  deriving DecidableEq, Repr

def Possible (s : System) : Event → Prop
  | .start => s.phase = .idle ∨ s.phase = .serving
  | .created => s.phase = .starting
  | .createFailed => s.phase = .starting
  | .enqueue client command => (s.phase = .serving ∨ s.phase = .joining) ∧
      client.command.length < commandCapacity ∧ handleCommand client = .enqueue command
  | .pop => True
  | .stop => s.phase = .idle ∨ s.phase = .serving
  | .joined => s.phase = .joining

instance (s : System) : ∀ event, Decidable (Possible s event)
  | .start => inferInstanceAs (Decidable (_ ∨ _))
  | .created => inferInstanceAs (Decidable (_ = _))
  | .createFailed => inferInstanceAs (Decidable (_ = _))
  | .enqueue _ _ => inferInstanceAs (Decidable (_ ∧ _ ∧ _))
  | .pop => inferInstanceAs (Decidable True)
  | .stop => inferInstanceAs (Decidable (_ ∨ _))
  | .joined => inferInstanceAs (Decidable (_ = _))

def applyStart (s : System) : System :=
  if s.server.running then s
  else { s with server := startSection s.server, phase := .starting, epoch := s.epoch + 1 }

def applyEnqueue (s : System) (command : Bytes) : System :=
  let (server,queued) := enqueueAction s.server command
  { s with server := server, calls := s.calls ++ [⟨s.epoch,command,queueAnswer queued⟩] }

def applyPop (s : System) : System :=
  match popAction s.server with
  | (server,none) => { s with server := server }
  | (server,some command) => { s with server := server, popped := s.popped ++ [⟨s.epoch,command⟩] }

def applyStop (s : System) : System :=
  match stopSection s.server with
  | none => s
  | some server => { s with server := server, phase := .joining }

def apply (s : System) : Event → System
  | .start => applyStart s
  | .created => { s with phase := .serving }
  | .createFailed => { s with server := abandonSection s.server, phase := .idle }
  | .enqueue _ command => applyEnqueue s command
  | .pop => applyPop s
  | .stop => applyStop s
  | .joined => { s with server := joinedSection s.server, phase := .idle }

def acceptedCall (epoch : Nat) (call : Call) : Bool := call.epoch == epoch && call.answer == accepted

def acceptedIn (s : System) (epoch : Nat) : List Bytes :=
  (s.calls.filter (acceptedCall epoch)).map Call.command

def poppedIn (s : System) (epoch : Nat) : List Bytes :=
  (s.popped.filter (fun entry => entry.epoch == epoch)).map Popped.command

def queued (s : System) : List Bytes := s.server.actions.contents.map cString

-- The queue as its two users see it, epoch by epoch.
structure Fifo (s : System) : Prop where
  ordered : ∀ epoch, poppedIn s epoch <+: acceptedIn s epoch
  remaining : s.server.running = true → acceptedIn s s.epoch = poppedIn s s.epoch ++ queued s
  bounded : (queued s).length ≤ maxActions
  refused : ∀ epoch command,
    (∀ call ∈ s.calls, call.epoch = epoch → call.command = command → call.answer = busy) →
    command ∉ poppedIn s epoch

structure Invariant (s : System) : Prop where
  ordered : ∀ epoch, poppedIn s epoch <+: acceptedIn s epoch
  remaining : s.server.running = true → acceptedIn s s.epoch = poppedIn s s.epoch ++ queued s
  bounded : s.server.actions.count ≤ maxActions
  calls : ∀ call ∈ s.calls, call.epoch ≤ s.epoch
  popped : ∀ entry ∈ s.popped, entry.epoch ≤ s.epoch

theorem initial_invariant : Invariant initial where
  ordered _ := List.prefix_rfl
  remaining running := by cases running
  bounded := Nat.zero_le _
  calls _ member := by cases member
  popped _ member := by cases member

theorem accepted_not_busy : (busy == accepted) = false := by decide

theorem acceptedIn_append (s : System) (call : Call) (epoch : Nat) (server : Server) :
    acceptedIn { s with server := server, calls := s.calls ++ [call] } epoch =
      acceptedIn s epoch ++ if acceptedCall epoch call then [call.command] else [] := by
  simp only [acceptedIn,List.filter_append,List.map_append]
  by_cases taken : acceptedCall epoch call = true <;> simp [taken]

theorem poppedIn_append (s : System) (entry : Popped) (epoch : Nat) (server : Server) :
    poppedIn { s with server := server, popped := s.popped ++ [entry] } epoch =
      poppedIn s epoch ++ if entry.epoch = epoch then [entry.command] else [] := by
  simp only [poppedIn,List.filter_append,List.map_append]
  by_cases here : entry.epoch = epoch <;> simp [here]

-- A section that stops the server, or keeps it as it was, with the queue either
-- kept or emptied.
theorem Invariant.quiet {s : System} (invariant : Invariant s) {server : Server} {phase : Phase}
    (running : server.running = true → s.server.running = true ∧ server.actions = s.server.actions)
    (bounded : server.actions.count ≤ maxActions) :
    Invariant { s with server := server, phase := phase } where
  ordered := invariant.ordered
  remaining now := by
    obtain ⟨before,same⟩ := running now
    have flow := invariant.remaining before
    simpa only [acceptedIn,poppedIn,queued,same] using flow
  bounded := bounded
  calls := invariant.calls
  popped := invariant.popped

-- A new epoch: nothing logged so far belongs to it and the queue is empty.
theorem start_invariant {s : System} (invariant : Invariant s) : Invariant (applyStart s) := by
  unfold applyStart
  split
  · exact invariant
  · have noCalls : s.calls.filter (acceptedCall (s.epoch + 1)) = [] := by
      apply List.filter_eq_nil_iff.mpr
      intro call member
      have earlier := invariant.calls call member
      simp only [acceptedCall,Bool.and_eq_true,beq_iff_eq,not_and]
      omega
    have noPopped : s.popped.filter (fun entry => entry.epoch == s.epoch + 1) = [] := by
      apply List.filter_eq_nil_iff.mpr
      intro entry member
      have earlier := invariant.popped entry member
      simp only [beq_iff_eq]
      omega
    refine ⟨invariant.ordered,?_,Nat.zero_le _,?_,?_⟩
    · intro _
      simp only [acceptedIn,poppedIn,queued,noCalls,noPopped]
      rfl
    · exact fun call member => (invariant.calls call member).trans (Nat.le_succ _)
    · exact fun entry member => (invariant.popped entry member).trans (Nat.le_succ _)

theorem enqueue_invariant {s : System} (invariant : Invariant s) {command : Bytes} (free : 0 ∉ command) :
    Invariant (applyEnqueue s command) := by
  have later : ∀ answer, ∀ call ∈ s.calls ++ [⟨s.epoch,command,answer⟩], call.epoch ≤ s.epoch := by
    intro answer call member
    rcases List.mem_append.mp member with earlier | last
    · exact invariant.calls call earlier
    · rw [List.mem_singleton.mp last]
  unfold applyEnqueue enqueueAction
  by_cases refused : (!s.server.running || s.server.stopping || decide (maxActions ≤ s.server.actions.count)) = true
  · have kept : ∀ epoch, acceptedIn { s with calls := s.calls ++ [⟨s.epoch,command,queueAnswer false⟩] } epoch =
        acceptedIn s epoch := by
      intro epoch
      have taken : acceptedCall epoch ⟨s.epoch,command,queueAnswer false⟩ = false := by
        simp [acceptedCall,queueAnswer,accepted_not_busy]
      simp [acceptedIn,List.filter_append,taken]
    simp only [refused,if_true]
    refine ⟨?_,?_,invariant.bounded,later _,invariant.popped⟩
    · intro epoch
      rw [kept]
      exact invariant.ordered epoch
    · intro running
      rw [kept]
      exact invariant.remaining running
  · have open' : s.server.running = true ∧ s.server.actions.count < maxActions := by
      simp only [Bool.not_eq_true,Bool.or_eq_false_iff,Bool.not_eq_false',decide_eq_false_iff_not,not_le] at refused
      exact ⟨refused.1.1,refused.2⟩
    have grown : ∀ epoch, acceptedIn
        { s with calls := s.calls ++ [⟨s.epoch,command,queueAnswer true⟩] } epoch =
        acceptedIn s epoch ++ if s.epoch = epoch then [command] else [] := by
      intro epoch
      have taken : acceptedCall epoch ⟨s.epoch,command,queueAnswer true⟩ = decide (s.epoch = epoch) := by
        simp [acceptedCall,queueAnswer,Bool.beq_eq_decide_eq]
      have step := acceptedIn_append s ⟨s.epoch,command,queueAnswer true⟩ epoch s.server
      simpa [taken] using step
    simp only [refused,if_false,Bool.false_eq_true]
    refine ⟨?_,?_,Nat.succ_le_of_lt open'.2,later _,invariant.popped⟩
    · intro epoch
      have step := grown epoch
      simp only [acceptedIn] at step
      simp only [acceptedIn,step]
      exact (invariant.ordered epoch).trans (List.prefix_append _ _)
    · intro _
      have step := grown s.epoch
      have flow := invariant.remaining open'.1
      simp only [acceptedIn,if_true] at step flow
      simp only [acceptedIn,queued,poppedIn,step,flow,contents_push _ _ open'.2,List.map_append,List.map_singleton,
        cString_strcpy free,List.append_assoc]

theorem pop_invariant {s : System} (invariant : Invariant s) : Invariant (applyPop s) := by
  unfold applyPop popAction
  by_cases nothing : (!s.server.running || s.server.stopping || s.server.actions.count == 0) = true
  · simpa only [nothing,if_true] using invariant
  · have some : s.server.running = true ∧ 0 < s.server.actions.count := by
      simp only [Bool.not_eq_true,Bool.or_eq_false_iff,Bool.not_eq_false',beq_eq_false_iff_ne] at nothing
      exact ⟨nothing.1.1,Nat.pos_of_ne_zero nothing.2⟩
    have flow := invariant.remaining some.1
    have front := contents_pop s.server.actions some.2
    simp only [nothing,if_false,Bool.false_eq_true]
    have popped := fun epoch => poppedIn_append s ⟨s.epoch,cString s.server.actions.oldest⟩ epoch
      { s.server with actions := s.server.actions.pop }
    have balance : acceptedIn s s.epoch =
        (poppedIn s s.epoch ++ [cString s.server.actions.oldest]) ++ s.server.actions.pop.contents.map cString := by
      rw [flow,queued,front,List.map_cons,List.append_assoc]
      rfl
    refine ⟨?_,?_,?_,invariant.calls,?_⟩
    · intro epoch
      rw [popped]
      by_cases here : s.epoch = epoch
      · subst here
        simp only [if_true]
        exact ⟨_,balance.symm⟩
      · simp only [here,if_false,List.append_nil]
        exact invariant.ordered epoch
    · intro _
      rw [popped,if_pos rfl]
      exact balance
    · exact (Nat.sub_le _ _).trans invariant.bounded
    · intro entry member
      rcases List.mem_append.mp member with earlier | last
      · exact invariant.popped entry earlier
      · rw [List.mem_singleton.mp last]

theorem apply_invariant (s : System) (event : Event) (invariant : Invariant s) (possible : Possible s event) :
    Invariant (apply s event) := by
  cases event with
  | start => exact start_invariant invariant
  | created => exact invariant.quiet (fun running => ⟨running,rfl⟩) invariant.bounded
  | createFailed => exact invariant.quiet (fun running => by cases running) invariant.bounded
  | enqueue client command =>
    exact enqueue_invariant invariant (handleCommand_queued possible.2.1 possible.2.2).1
  | pop => exact pop_invariant invariant
  | stop =>
    simp only [apply,applyStop,stopSection]
    by_cases running : s.server.running = true
    · simp only [running,Bool.not_true,Bool.false_eq_true,if_false]
      exact invariant.quiet (fun _ => ⟨running,rfl⟩) invariant.bounded
    · simp only [running,Bool.not_false,if_true]
      exact invariant
  | joined => exact invariant.quiet (fun running => by cases running) (Nat.zero_le _)

theorem Invariant.fifo {s : System} (invariant : Invariant s) : Fifo s where
  ordered := invariant.ordered
  remaining := invariant.remaining
  bounded := by simpa [queued] using invariant.bounded
  refused epoch command only member := by
    have taken := (invariant.ordered epoch).subset member
    obtain ⟨call,present,rfl⟩ := List.mem_map.mp taken
    obtain ⟨logged,answered⟩ := List.mem_filter.mp present
    simp only [acceptedCall,Bool.and_eq_true,beq_iff_eq] at answered
    have refused := only call logged answered.1 rfl
    rw [answered.2] at refused
    exact absurd refused (by decide)

theorem queue_run_fifo (events : List Event) (possible : Runs.Each apply Possible initial events) :
    Runs.Throughout apply Fifo initial events :=
  Runs.throughout_imp (fun _ => Invariant.fifo)
    (Runs.throughout_invariant apply_invariant initial_invariant possible)

def asking (command : String) : Client := ⟨7,false,.default,text command ++ [newline]⟩

-- Two commands accepted, one popped, the other lost by the stop: the next epoch
-- starts empty.
def restart : List Event :=
  [.start,.created,.enqueue (asking "reload") (text "reload"),
   .enqueue (asking "dispatch media next") (text "dispatch media next"),.pop,.stop,
   .enqueue (asking "reload") (text "reload"),.joined,.start,.created,.pop]

theorem restart_run_fifo :
    Runs.Each apply Possible initial restart ∧
    (Runs.final apply initial restart).popped = [⟨1,text "reload"⟩] ∧
    Runs.Throughout apply Fifo initial restart := by
  have possible : Runs.Each apply Possible initial restart := by decide
  exact ⟨possible,by decide,queue_run_fifo restart possible⟩

end Hypringo.ActionQueue

import Hypringo.AudioService
import Hypringo.Backoff
import Hypringo.HyprlandService
import Hypringo.MprisService

namespace Hypringo.Reconnect
open Hypringo.Lua Backoff
open Hypringo.Configuration (Reconnecting)

def boundsOf (config : Reconnecting) : Bounds := ⟨config.reconnectMinMs,config.reconnectMaxMs⟩

-- What config.load lets through.
structure Ordered (config : Reconnecting) : Prop where
  positive : 0 < config.reconnectMinMs
  ordered : config.reconnectMinMs ≤ config.reconnectMaxMs

-- reconnect_ms against the bounds in force.
def Within (config : Reconnecting) (reconnectMs : Int) : Prop :=
  config.reconnectMinMs ≤ reconnectMs ∧ reconnectMs ≤ config.reconnectMaxMs

-- The monitor agrees with a service that is or is not about to wait.
structure Tracks (m : Monitor) (config : Reconnecting) (reconnectMs : Int) (retrying : Prop) : Prop where
  bounds : m.bounds = boundsOf config
  delay : m.delay = reconnectMs
  owed : m.owed = true → retrying
  ordered : Ordered config
  within : Within config reconnectMs

theorem Tracks.start {config : Reconnecting} (ordered : Ordered config) (retrying : Prop) :
    Tracks (start (boundsOf config)) config config.reconnectMinMs retrying :=
  ⟨rfl,rfl,nofun,ordered,Int.le_refl _,ordered.ordered⟩

section Acts
variable {m : Monitor} {config : Reconnecting} {reconnectMs : Int} {retrying after : Prop}
  (tracks : Tracks m config reconnectMs retrying)
include tracks

-- Nothing to be seen.
theorem Tracks.silent (kept : retrying → after) : Checked m [] ∧ Tracks (Runs.final next m []) config reconnectMs after :=
  ⟨trivial,tracks.bounds,tracks.delay,fun owed => kept (tracks.owed owed),tracks.ordered,tracks.within⟩

theorem Tracks.attempt (idle : ¬retrying) :
    Checked m [.attempt] ∧ Tracks (Runs.final next m [.attempt]) config reconnectMs after := by
  have paid : m.owed = false := by
    by_contra owed
    exact idle (tracks.owed (by simpa using owed))
  refine ⟨⟨paid,trivial⟩,tracks.bounds,tracks.delay,?_,tracks.ordered,tracks.within⟩
  intro owed
  rw [show (Runs.final next m [.attempt]).owed = m.owed from rfl,paid] at owed
  cases owed

theorem Tracks.failed (waiting : after) :
    Checked m [.failed] ∧ Tracks (Runs.final next m [.failed]) config reconnectMs after :=
  ⟨⟨trivial,trivial⟩,tracks.bounds,tracks.delay,fun _ => waiting,tracks.ordered,tracks.within⟩

theorem Tracks.dropped (waiting : after) :
    Checked m [.dropped] ∧ Tracks (Runs.final next m [.dropped]) config reconnectMs after :=
  ⟨⟨trivial,trivial⟩,tracks.bounds,tracks.delay,fun _ => waiting,tracks.ordered,tracks.within⟩

theorem Tracks.refused (idle : ¬retrying) (waiting : after) :
    Checked m [.attempt,.failed] ∧ Tracks (Runs.final next m [.attempt,.failed]) config reconnectMs after := by
  obtain ⟨fair,kept⟩ := @Tracks.attempt _ _ _ _ False tracks idle
  obtain ⟨more,last⟩ := kept.failed waiting
  exact ⟨⟨fair.1,more⟩,last⟩

theorem Tracks.accepted (kept : retrying → after) :
    Checked m [.accepted] ∧ Tracks (Runs.final next m [.accepted]) config config.reconnectMinMs after := by
  refine ⟨⟨trivial,trivial⟩,tracks.bounds,?_,fun owed => kept (tracks.owed owed),tracks.ordered,Int.le_refl _,
    tracks.ordered.ordered⟩
  change m.bounds.least = _
  rw [tracks.bounds]
  rfl

theorem Tracks.waited : Checked m [.waited reconnectMs] ∧
    Tracks (Runs.final next m [.waited reconnectMs]) config (min config.reconnectMaxMs (reconnectMs * 2)) after := by
  obtain ⟨least,most⟩ := tracks.within
  have positive := tracks.ordered.positive
  refine ⟨⟨⟨tracks.delay.symm,?_,?_⟩,trivial⟩,tracks.bounds,?_,nofun,tracks.ordered,?_,?_⟩
  · rw [tracks.bounds]
    exact least
  · rw [tracks.bounds]
    exact most
  · change min m.bounds.most (m.delay * 2) = _
    rw [tracks.bounds,tracks.delay]
    rfl
  · have := tracks.ordered.ordered
    omega
  · omega

theorem Tracks.reloaded {new : Reconnecting} (ordered : Ordered new) (kept : retrying → after) :
    Checked m [.reloaded (boundsOf new)] ∧
      Tracks (Runs.final next m [.reloaded (boundsOf new)]) new
        (max new.reconnectMinMs (min new.reconnectMaxMs reconnectMs)) after := by
  have := ordered.ordered
  refine ⟨⟨trivial,trivial⟩,rfl,?_,fun owed => kept (tracks.owed owed),ordered,?_,?_⟩
  · change (boundsOf new).clamp m.delay = _
    rw [tracks.delay]
    rfl
  · omega
  · omega

end Acts

-- What a step shows, and what becomes of the delay.
inductive Move (config : Reconnecting) (reconnectMs : Int) (retrying : Prop) : List Act → Reconnecting → Int → Prop → Prop
  | silent {after : Prop} (kept : retrying → after) : Move config reconnectMs retrying [] config reconnectMs after
  | attempt {after : Prop} (idle : ¬retrying) : Move config reconnectMs retrying [.attempt] config reconnectMs after
  | refused {after : Prop} (idle : ¬retrying) (waiting : after) :
      Move config reconnectMs retrying [.attempt,.failed] config reconnectMs after
  | failed {after : Prop} (waiting : after) : Move config reconnectMs retrying [.failed] config reconnectMs after
  | accepted {after : Prop} (kept : retrying → after) :
      Move config reconnectMs retrying [.accepted] config config.reconnectMinMs after
  | dropped {after : Prop} : Move config reconnectMs retrying [.dropped] config reconnectMs after
  | waited {after : Prop} : Move config reconnectMs retrying [.waited reconnectMs] config
      (min config.reconnectMaxMs (reconnectMs * 2)) after
  | reloaded {after : Prop} {new : Reconnecting} (ordered : Ordered new) (kept : retrying → after) :
      Move config reconnectMs retrying [.reloaded (boundsOf new)] new
        (max new.reconnectMinMs (min new.reconnectMaxMs reconnectMs)) after

section Moves
variable {m : Monitor} {config later : Reconnecting} {reconnectMs delay : Int} {retrying after : Prop} {shown : List Act}

theorem Tracks.moves (tracks : Tracks m config reconnectMs retrying)
    (move : Move config reconnectMs retrying shown later delay after) (lasts : .dropped ∉ shown) :
    Checked m shown ∧ Tracks (Runs.final next m shown) later delay after := by
  cases move with
  | silent kept => exact tracks.silent kept
  | attempt idle => exact tracks.attempt idle
  | refused idle waiting => exact tracks.refused idle waiting
  | failed waiting => exact tracks.failed waiting
  | accepted kept => exact tracks.accepted kept
  | dropped => exact absurd List.mem_cons_self lasts
  | waited => exact tracks.waited
  | reloaded ordered kept => exact tracks.reloaded ordered kept

theorem Move.attemptless (move : Move config reconnectMs retrying shown later delay after) (lost : .dropped ∈ shown) :
    .attempt ∉ shown := by
  cases move <;> simp at lost ⊢

theorem Tracks.loosened (tracks : Tracks m config reconnectMs retrying) : Tracks m config reconnectMs True :=
  ⟨tracks.bounds,tracks.delay,fun _ => trivial,tracks.ordered,tracks.within⟩

-- With a loss not waited for, all goes well as long as nothing is attempted.
theorem Tracks.rests (tracks : Tracks m config reconnectMs True)
    (move : Move config reconnectMs retrying shown later delay after) (rests : .attempt ∉ shown) :
    Checked m shown ∧ Tracks (Runs.final next m shown) later delay True := by
  cases move with
  | silent => exact tracks.silent id
  | attempt => exact absurd List.mem_cons_self rests
  | refused => exact absurd List.mem_cons_self rests
  | failed => exact tracks.failed trivial
  | accepted => exact tracks.accepted id
  | dropped => exact tracks.dropped trivial
  | waited => exact tracks.waited
  | reloaded ordered => exact tracks.reloaded ordered id

end Moves

-- A service with a reconnect delay, and what its steps show. A step loses a
-- connection that was accepted, or attempts one.
structure Connector (σ ε : Type) where
  config : σ → Reconnecting
  reconnectMs : σ → Int
  retrying : σ → Prop
  apply : σ → ε → σ
  acts : σ → ε → List Act
  loses : σ → ε → Prop
  attempts : σ → ε → Prop

namespace Connector
variable {σ ε : Type} (c : Connector σ ε)

abbrev Moves (service : σ) (event : ε) : Prop :=
  Move (c.config service) (c.reconnectMs service) (c.retrying service) (c.acts service event)
    (c.config (c.apply service event)) (c.reconnectMs (c.apply service event)) (c.retrying (c.apply service event))

-- No loss is followed by another attempt.
def Patient : σ → List ε → Prop
  | _,[] => True
  | service,event :: rest =>
    (c.loses service event →
      Runs.Each c.apply (fun service event => ¬c.attempts service event) (c.apply service event) rest) ∧
    Patient (c.apply service event) rest

structure Lawful (allowed : σ → ε → Prop) : Prop where
  moves : ∀ service event, allowed service event → c.Moves service event
  losing : ∀ service event, .dropped ∈ c.acts service event → c.loses service event
  attempting : ∀ service event, .attempt ∈ c.acts service event → c.attempts service event

variable {c} {allowed : σ → ε → Prop} {m : Monitor} {service : σ} {event : ε} {events : List ε}

theorem seen {later : σ} {shown : List Act} {config : Reconnecting} {reconnectMs : Int}
    (acted : c.acts service event = shown) (applied : c.apply service event = later)
    (settled : c.config later = config) (delay : c.reconnectMs later = reconnectMs)
    (move : Move (c.config service) (c.reconnectMs service) (c.retrying service) shown config reconnectMs (c.retrying later)) :
    c.Moves service event := by
  unfold Moves
  rw [acted,applied,settled,delay]
  exact move

theorem ignored (acted : c.acts service event = []) (applied : c.apply service event = service) : c.Moves service event :=
  seen acted applied rfl rfl (.silent id)

abbrev WithinBounds (service : σ) : Prop := Within (c.config service) (c.reconnectMs service)

theorem resting_checked (lawful : c.Lawful allowed) (tracks : Tracks m (c.config service) (c.reconnectMs service) True)
    (permitted : Runs.Each c.apply allowed service events)
    (rests : Runs.Each c.apply (fun service event => ¬c.attempts service event) service events) :
    Checked m (observed c.apply c.acts service events) ∧ Runs.Throughout c.apply c.WithinBounds service events := by
  induction events generalizing m service with
  | nil => exact ⟨trivial,tracks.within⟩
  | cons event rest ih =>
    obtain ⟨fair,kept⟩ := tracks.rests (lawful.moves service event permitted.1)
      (fun shown => rests.1 (lawful.attempting service event shown))
    obtain ⟨checked,within⟩ := ih kept permitted.2 rests.2
    exact ⟨Runs.each_append fair checked,tracks.within,within⟩

theorem patient_checked (lawful : c.Lawful allowed)
    (tracks : Tracks m (c.config service) (c.reconnectMs service) (c.retrying service))
    (permitted : Runs.Each c.apply allowed service events) (patient : c.Patient service events) :
    Checked m (observed c.apply c.acts service events) ∧ Runs.Throughout c.apply c.WithinBounds service events := by
  induction events generalizing m service with
  | nil => exact ⟨trivial,tracks.within⟩
  | cons event rest ih =>
    have move := lawful.moves service event permitted.1
    by_cases lost : .dropped ∈ c.acts service event
    · have rests := patient.1 (lawful.losing service event lost)
      obtain ⟨fair,kept⟩ := tracks.loosened.rests move (move.attemptless lost)
      obtain ⟨checked,within⟩ := resting_checked lawful kept permitted.2 rests
      exact ⟨Runs.each_append fair checked,tracks.within,within⟩
    · obtain ⟨fair,kept⟩ := tracks.moves move lost
      obtain ⟨checked,within⟩ := ih kept permitted.2 patient.2
      exact ⟨Runs.each_append fair checked,tracks.within,within⟩

-- Steps that move so make a run that is paced, with a delay that stays within
-- the bounds in force.
theorem paced (service : σ) (lawful : c.Lawful allowed) (ordered : Ordered (c.config service))
    (least : c.reconnectMs service = (c.config service).reconnectMinMs)
    (permitted : Runs.Each c.apply allowed service events) (patient : c.Patient service events) :
    Paced (boundsOf (c.config service)) (observed c.apply c.acts service events) ∧
      Runs.Throughout c.apply (fun service => Within (c.config service) (c.reconnectMs service)) service events := by
  have begun : Tracks (start (boundsOf (c.config service))) (c.config service) (c.reconnectMs service) (c.retrying service) := by
    rw [least]
    exact .start ordered _
  obtain ⟨checked,within⟩ := patient_checked lawful begun permitted patient
  exact ⟨checked_paced checked,within⟩

end Connector

namespace Mpris
open MprisService

def drops (reply : Reply) : Bool := reply.waitError.isSome || reply.closed

def acts (service : Service) (event : Event) : List Act :=
  match event,service.control,service.source with
  | .idle (.error _),.rest,none => if service.stopping then [] else [.attempt,.failed]
  | .idle (.ok ()),.rest,none => if service.stopping then [] else [.attempt]
  | .greet _,.greeting,some _ => [.accepted]
  | .resume _,.woken reply,some _ => if drops reply then [.dropped] else []
  | .retry .timeout,.retrying,_ => [.waited service.reconnectMs]
  | .reload config,control,_ => if listening control then [.reloaded (boundsOf config)] else []
  | _,_,_ => []

-- No message and no error ends a wait, and a new configuration is one that
-- config.load returns.
def Undisturbed : Event → Prop
  | .retry wakeup => wakeup = .timeout
  | .reload config => Ordered config
  | _ => True

-- A connection that was accepted is lost.
def Loses (service : Service) : Event → Prop
  | .resume _ => ∃ reply, service.control = .woken reply ∧ service.source ≠ none ∧ drops reply = true
  | _ => False

def Attempts (service : Service) : Event → Prop
  | .idle _ => service.control = .rest ∧ service.source = none ∧ service.stopping = false
  | _ => False

def connector : Connector Service Event where
  config := Service.sourceConfig
  reconnectMs := Service.reconnectMs
  retrying := fun service => service.control = .retrying
  apply := apply
  acts := acts
  loses := Loses
  attempts := Attempts

theorem disconnect_settled (service : Service) (message : Bytes) :
    (disconnect service message).sourceConfig = service.sourceConfig ∧
      (disconnect service message).reconnectMs = service.reconnectMs := by
  simp only [disconnect]
  split <;> exact ⟨rfl,rfl⟩

theorem settle_settled (service : Service) (reply : Reply) :
    (settle service reply).sourceConfig = service.sourceConfig ∧ (settle service reply).reconnectMs = service.reconnectMs := by
  simp only [settle]
  split
  · exact disconnect_settled service _
  · split
    · exact disconnect_settled service _
    · exact ⟨rfl,rfl⟩

theorem resume_settled (service : Service) (reply : Reply) (listing : Mpris.Listing) :
    (resume service reply listing).sourceConfig = service.sourceConfig ∧
      (resume service reply listing).reconnectMs = service.reconnectMs := by
  simp only [resume]
  split
  · split
    · exact settle_settled _ reply
    · exact ⟨rfl,rfl⟩
  · exact settle_settled service reply

theorem elsewhere {service : Service} {control : Control} (stands : service.control = control)
    (other : control ≠ .retrying) : ¬connector.retrying service := fun retrying => other (stands.symm.trans retrying)

theorem idle_moves {service : Service} (outcome : Except Bytes Unit) :
    connector.Moves service (.idle outcome) := by
  obtain ⟨config,delay,source,stopping,control,sent⟩ := service
  cases control with
  | rest =>
    have idle : ¬connector.retrying ⟨config,delay,source,stopping,.rest,sent⟩ := elsewhere rfl (by simp)
    cases stopping with
    | true =>
      refine Connector.ignored ?_ rfl
      cases outcome <;> cases source <;> rfl
    | false =>
      cases source with
      | some held =>
        have applied : connector.apply ⟨config,delay,some held,false,.rest,sent⟩ (.idle outcome) =
            ⟨config,delay,some held,false,.polling,sent⟩ := rfl
        refine Connector.seen ?_ applied rfl rfl (.silent fun retrying => absurd retrying idle)
        cases outcome <;> rfl
      | none =>
        cases outcome with
        | error message =>
          obtain ⟨settled,kept⟩ := disconnect_settled ⟨config,delay,none,false,.rest,sent⟩ message
          exact Connector.seen rfl rfl settled kept (.refused idle rfl)
        | ok => exact Connector.seen rfl rfl rfl rfl (.attempt idle)
  | _ =>
    refine Connector.ignored ?_ rfl
    cases outcome <;> rfl

theorem greet_moves {service : Service} (listing : Mpris.Listing) :
    connector.Moves service (.greet listing) := by
  obtain ⟨config,delay,source,stopping,control,sent⟩ := service
  cases control with
  | greeting =>
    cases source with
    | none => exact Connector.ignored rfl rfl
    | some held =>
      exact Connector.seen rfl rfl rfl rfl
        (.accepted fun retrying => absurd retrying (elsewhere rfl (by simp)))
  | _ => exact Connector.ignored rfl rfl

theorem resume_moves {service : Service} (listing : Mpris.Listing) : connector.Moves service (.resume listing) := by
  obtain ⟨config,delay,source,stopping,control,sent⟩ := service
  cases control with
  | woken reply =>
    obtain ⟨settled,kept⟩ := resume_settled ⟨config,delay,source,stopping,.woken reply,sent⟩ reply listing
    have silent (acted : acts ⟨config,delay,source,stopping,.woken reply,sent⟩ (.resume listing) = []) :
        connector.Moves ⟨config,delay,source,stopping,.woken reply,sent⟩ (.resume listing) :=
      Connector.seen acted rfl settled kept (.silent fun retrying => absurd retrying (elsewhere rfl (by simp)))
    cases source with
    | none => exact silent rfl
    | some held =>
      cases lost : drops reply with
      | false => exact silent (if_neg (by simp [lost]))
      | true => exact Connector.seen (if_pos lost) rfl settled kept .dropped
  | _ => exact Connector.ignored rfl rfl

theorem step_moves (service : Service) (event : Event) (undisturbed : Undisturbed event) : connector.Moves service event := by
  cases event with
  | idle outcome => exact idle_moves outcome
  | greet listing => exact greet_moves listing
  | wait reply =>
    obtain ⟨config,delay,source,stopping,control,sent⟩ := service
    cases control with
    | polling =>
      cases source with
      | none => exact Connector.ignored rfl rfl
      | some held =>
        exact Connector.seen rfl rfl rfl rfl
          (.silent fun retrying => absurd retrying (elsewhere rfl (by simp)))
    | _ => exact Connector.ignored rfl rfl
  | resume listing => exact resume_moves listing
  | retry wakeup =>
    have timeout : wakeup = .timeout := undisturbed
    subst timeout
    obtain ⟨config,delay,source,stopping,control,sent⟩ := service
    cases control with
    | retrying => exact Connector.seen rfl rfl rfl rfl .waited
    | _ => exact Connector.ignored rfl rfl
  | reload config =>
    cases heard : listening service.control with
    | true =>
      have acted : connector.acts service (.reload config) = [.reloaded (boundsOf config)] := if_pos heard
      have applied : connector.apply service (.reload config) = MprisService.reload service config := if_pos heard
      exact Connector.seen acted applied rfl rfl (.reloaded undisturbed id)
    | false =>
      have deaf : ¬listening service.control = true := by simp [heard]
      exact Connector.ignored (if_neg deaf) (if_neg deaf)
  | quit =>
    cases heard : listening service.control with
    | true =>
      have applied : connector.apply service .quit = MprisService.quit service := if_pos heard
      exact Connector.seen rfl applied rfl rfl (.silent id)
    | false => exact Connector.ignored rfl (if_neg (by simp [heard]))

theorem acts_lose (service : Service) (event : Event) (lost : .dropped ∈ acts service event) : Loses service event := by
  unfold acts at lost
  split at lost
  case h_4 listing reply source woken held =>
    split at lost
    · exact ⟨reply,woken,by simp [held],‹_›⟩
    · cases lost
  all_goals (try split at lost) <;> simp at lost

theorem acts_attempt (service : Service) (event : Event) (attempted : .attempt ∈ acts service event) :
    Attempts service event := by
  unfold acts at attempted
  split at attempted
  case h_1 | h_2 =>
    split at attempted
    · cases attempted
    · rename_i running
      exact ⟨‹_›,‹_›,eq_false_of_ne_true running⟩
  all_goals (try split at attempted) <;> simp at attempted

theorem lawful : connector.Lawful fun _ event => Undisturbed event := ⟨step_moves,acts_lose,acts_attempt⟩

end Mpris

namespace Audio
open AudioService

def acts (service : Service) (event : Event) : List Act :=
  match event,service.control,service.source with
  | .idle setup,.rest,none =>
    if service.stopping then [] else if setup.failure.isSome then [.attempt,.failed] else [.attempt]
  | .openCheck _,.opening candidate,_ =>
    if candidate.context.state = .ready then [] else if candidate.context.state.good then [] else [.failed]
  | .greet,.greeting,some _ => [.accepted]
  | .settle,.settling closed waitError,some _ => if closed || waitError.isSome then [.dropped] else []
  | .retry .timeout,.retrying,_ => [.waited service.reconnectMs]
  | .reload config,control,_ => if listening control then [.reloaded (boundsOf config)] else []
  | _,_,_ => []

def Undisturbed : Event → Prop
  | .retry wakeup => wakeup = .timeout
  | .reload config => Ordered config
  | _ => True

def Loses (service : Service) : Event → Prop
  | .settle => ∃ closed waitError, service.control = .settling closed waitError ∧ service.source ≠ none ∧
      (closed || waitError.isSome) = true
  | _ => False

def Attempts (service : Service) : Event → Prop
  | .idle _ => service.control = .rest ∧ service.source = none ∧ service.stopping = false
  | _ => False

def connector (pulse : AudioSource.Pulse) : Connector Service Event where
  config := Service.sourceConfig
  reconnectMs := Service.reconnectMs
  retrying := fun service => service.control = .retrying
  apply := apply pulse
  acts := acts
  loses := Loses
  attempts := Attempts

variable {pulse : AudioSource.Pulse} {service : Service}

theorem disconnect_settled (service : Service) (message : Bytes) :
    (service.disconnect message).sourceConfig = service.sourceConfig ∧
      (service.disconnect message).reconnectMs = service.reconnectMs := by
  simp only [Service.disconnect]
  split <;> exact ⟨rfl,rfl⟩

theorem settle_settled (service : Service) (closed : Bool) (waitError : Option Bytes) :
    (settle service closed waitError).sourceConfig = service.sourceConfig ∧
      (settle service closed waitError).reconnectMs = service.reconnectMs := by
  simp only [settle]
  split
  · exact disconnect_settled service _
  · split
    · exact disconnect_settled service _
    · exact ⟨rfl,rfl⟩

theorem elsewhere {control : Control} (stands : service.control = control) (other : control ≠ .retrying) :
    ¬(connector pulse).retrying service := fun retrying => other (stands.symm.trans retrying)

theorem idle_moves (setup : Setup) :
    (connector pulse).Moves service (.idle setup) := by
  obtain ⟨config,delay,source,stopping,control,sent⟩ := service
  cases control with
  | rest =>
    have idle : ¬(connector pulse).retrying ⟨config,delay,source,stopping,.rest,sent⟩ := elsewhere rfl (by simp)
    cases stopping with
    | true =>
      refine Connector.ignored ?_ rfl
      cases source <;> rfl
    | false =>
      cases source with
      | some held =>
        exact Connector.seen rfl rfl rfl rfl (.silent fun retrying => absurd retrying idle)
      | none =>
        cases failure : setup.failure with
        | some message =>
          have acted : (connector pulse).acts ⟨config,delay,none,false,.rest,sent⟩ (.idle setup) = [.attempt,.failed] :=
            if_pos (by simp [failure])
          have applied : AudioService.idle ⟨config,delay,none,false,.rest,sent⟩ setup =
              { Service.disconnect ⟨config,delay,none,false,.rest,sent⟩ message with control := .retrying } := by
            simp [AudioService.idle,failure]
          obtain ⟨settled,kept⟩ := disconnect_settled ⟨config,delay,none,false,.rest,sent⟩ message
          exact Connector.seen acted applied settled kept (.refused idle rfl)
        | none =>
          have acted : (connector pulse).acts ⟨config,delay,none,false,.rest,sent⟩ (.idle setup) = [.attempt] :=
            if_neg (by simp [failure])
          have applied : AudioService.idle ⟨config,delay,none,false,.rest,sent⟩ setup =
              ⟨config,delay,none,false,.opening connecting,sent⟩ := by
            simp [AudioService.idle,failure]
          exact Connector.seen acted applied rfl rfl (.attempt idle)
  | _ => exact Connector.ignored rfl rfl

theorem openCheck_moves (message : Bytes) :
    (connector pulse).Moves service (.openCheck message) := by
  obtain ⟨config,delay,source,stopping,control,sent⟩ := service
  cases control with
  | opening candidate =>
    have idle : ¬(connector pulse).retrying ⟨config,delay,source,stopping,.opening candidate,sent⟩ := elsewhere rfl (by simp)
    by_cases ready : candidate.context.state = .ready
    · have applied : (connector pulse).apply ⟨config,delay,source,stopping,.opening candidate,sent⟩ (.openCheck message) =
          ⟨config,delay,some candidate,stopping,.greeting,sent⟩ := if_pos ready
      exact Connector.seen (if_pos ready) applied rfl rfl (.silent fun retrying => absurd retrying idle)
    · cases good : candidate.context.state.good with
      | true =>
        exact Connector.ignored ((if_neg ready).trans (if_pos good))
          ((if_neg ready).trans (if_pos good))
      | false =>
        have bad : ¬candidate.context.state.good = true := by simp [good]
        obtain ⟨settled,kept⟩ := disconnect_settled ⟨config,delay,source,stopping,.opening candidate,sent⟩
          (candidate.setContextError AudioSource.cannotConnect message).error
        exact Connector.seen ((if_neg ready).trans (if_neg bad)) ((if_neg ready).trans (if_neg bad)) settled kept
          (.failed rfl)
  | _ => exact Connector.ignored rfl rfl

theorem greet_moves : (connector pulse).Moves service .greet := by
  obtain ⟨config,delay,source,stopping,control,sent⟩ := service
  cases control with
  | greeting =>
    cases source with
    | none => exact Connector.ignored rfl rfl
    | some held =>
      exact Connector.seen rfl rfl rfl rfl
        (.accepted fun retrying => absurd retrying (elsewhere rfl (by simp)))
  | _ => exact Connector.ignored rfl rfl

theorem settle_moves : (connector pulse).Moves service .settle := by
  obtain ⟨config,delay,source,stopping,control,sent⟩ := service
  cases control with
  | settling closed waitError =>
    obtain ⟨settled,kept⟩ := settle_settled ⟨config,delay,source,stopping,.settling closed waitError,sent⟩ closed waitError
    have silent (acted : acts ⟨config,delay,source,stopping,.settling closed waitError,sent⟩ .settle = []) :
        (connector pulse).Moves ⟨config,delay,source,stopping,.settling closed waitError,sent⟩ .settle :=
      Connector.seen acted rfl settled kept (.silent fun retrying => absurd retrying (elsewhere rfl (by simp)))
    cases source with
    | none => exact silent rfl
    | some held =>
      cases lost : closed || waitError.isSome with
      | false => exact silent (if_neg (by simp [lost]))
      | true => exact Connector.seen (if_pos lost) rfl settled kept .dropped
  | _ => exact Connector.ignored rfl rfl

-- The steps that leave the delay alone.
theorem other_settled (pulse : AudioSource.Pulse) (service : Service) (event : Event) (setup : ∀ setup, event ≠ .idle setup)
    (check : ∀ message, event ≠ .openCheck message) (greet : event ≠ .greet) (settle : event ≠ .settle)
    (retry : ∀ wakeup, event ≠ .retry wakeup) (reload : ∀ config, event ≠ .reload config) :
    acts service event = [] ∧ (apply pulse service event).sourceConfig = service.sourceConfig ∧
      (apply pulse service event).reconnectMs = service.reconnectMs ∧
        (service.control = .retrying → (apply pulse service event).control = .retrying) := by
  cases event with
  | idle setup' => exact absurd rfl (setup setup')
  | openCheck message => exact absurd rfl (check message)
  | greet => exact absurd rfl greet
  | settle => exact absurd rfl settle
  | retry wakeup => exact absurd rfl (retry wakeup)
  | reload config => exact absurd rfl (reload config)
  | callback callback =>
    refine ⟨rfl,?_⟩
    have applied : apply pulse service (.callback callback) = AudioService.callback service callback := rfl
    rw [applied]
    unfold AudioService.callback
    split <;> simp_all
  | publishChange =>
    obtain ⟨config,delay,source,stopping,control,sent⟩ := service
    cases control with
    | returned changed wakeReady closed waitError =>
      cases source <;> cases changed <;> exact ⟨rfl,rfl,rfl,fun same => by cases same⟩
    | _ => exact ⟨rfl,rfl,rfl,id⟩
  | dispatch action operation =>
    refine ⟨rfl,?_⟩
    cases held : service.source with
    | none => simp [apply,held]
    | some source =>
      simp only [apply,held]
      split <;> exact ⟨rfl,rfl,id⟩
  | quit =>
    refine ⟨rfl,?_⟩
    simp only [apply]
    split <;> exact ⟨rfl,rfl,id⟩
  | _ =>
    obtain ⟨config,delay,source,stopping,control,sent⟩ := service
    cases control <;> cases source <;> exact ⟨rfl,rfl,rfl,fun same => by cases same <;> rfl⟩

theorem step_moves (service : Service) (event : Event) (undisturbed : Undisturbed event) :
    (connector pulse).Moves service event := by
  have other := other_settled pulse service event
  cases event with
  | idle setup => exact idle_moves setup
  | openCheck message => exact openCheck_moves message
  | greet => exact greet_moves
  | settle => exact settle_moves
  | retry wakeup =>
    have timeout : wakeup = .timeout := undisturbed
    subst timeout
    obtain ⟨config,delay,source,stopping,control,sent⟩ := service
    cases control with
    | retrying => exact Connector.seen rfl rfl rfl rfl .waited
    | _ => exact Connector.ignored rfl rfl
  | reload config =>
    cases heard : listening service.control with
    | true =>
      have acted : acts service (.reload config) = [.reloaded (boundsOf config)] := if_pos heard
      have applied : (connector pulse).apply service (.reload config) = AudioService.reload service config := if_pos heard
      exact Connector.seen acted applied rfl rfl (.reloaded undisturbed id)
    | false =>
      have deaf : ¬listening service.control = true := by simp [heard]
      exact Connector.ignored (if_neg deaf) (if_neg deaf)
  | _ =>
    obtain ⟨acted,config,delay,kept⟩ := other (by simp) (by simp) (by simp) (by simp) (by simp) (by simp)
    exact Connector.seen acted rfl config delay (.silent kept)

theorem acts_lose (service : Service) (event : Event) (lost : .dropped ∈ acts service event) : Loses service event := by
  unfold acts at lost
  split at lost
  case h_4 closed waitError source settling held =>
    split at lost
    · exact ⟨closed,waitError,settling,by simp [held],‹_›⟩
    · cases lost
  all_goals (try split at lost) <;> (try split at lost) <;> simp at lost

theorem acts_attempt (service : Service) (event : Event) (attempted : .attempt ∈ acts service event) :
    Attempts service event := by
  unfold acts at attempted
  split at attempted
  case h_1 =>
    split at attempted
    · cases attempted
    · rename_i running
      exact ⟨‹_›,‹_›,eq_false_of_ne_true running⟩
  all_goals (try split at attempted) <;> (try split at attempted) <;> simp at attempted

theorem lawful : (connector pulse).Lawful fun _ event => Undisturbed event := ⟨step_moves,acts_lose,acts_attempt⟩

end Audio

namespace Hyprland
open HyprlandService

-- An error of the connection, in connect or once it is up.
def refuses (answer : Option (Except Bytes Json.Tree)) : Bool :=
  match answer with
  | some (.error _) => true
  | _ => false

def failing (environment : Environment) (s : System) : Event → Option Origin
  | .answer outcome =>
    let view := s.compositor.view s.compositor.shown
    match s.phase with
    | .monitors origin _ =>
      if refuses (decodeResponse environment.yyjson monitorsCommand outcome view.monitors) then some origin else none
    | .workspaces origin _ _ =>
      if refuses (decodeResponse environment.yyjson workspacesCommand outcome view.workspaces) then some origin else none
    | .activeWindow origin _ _ _ =>
      if refuses (decodeResponse environment.yyjson activeWindowCommand outcome view.activeWindow) then some origin
      else none
    | _ => none
  | .resume => match s.phase with
    | .woken (.failed _) | .woken (.closed _ _) => some .consume
    | .woken (.chunk data _) =>
      match HyprlandEvents.consumeEvents s.service.eventBuffer data with
      | .error _ => some .consume
      | .ok _ => none
    | _ => none
  | _ => none

-- The last answer resync waits for, in connect.
def completes (environment : Environment) (s : System) : Event → Bool
  | .answer outcome => match s.phase with
    | .activeWindow .connect _ _ _ =>
      match decodeResponse environment.yyjson activeWindowCommand outcome (s.compositor.view s.compositor.shown).activeWindow with
      | some (.ok _) => true
      | _ => false
    | _ => false
  | _ => false

-- What a step that is neither a run of the idle handler, nor the end of its wait,
-- nor a reload shows.
def shown (environment : Environment) (s : System) (event : Event) : List Act :=
  match failing environment s event with
  | some .connect => [.failed]
  | some .consume => if s.service.eventStream.isSome then [.dropped] else []
  | none => if completes environment s event then [.accepted] else []

def acts (environment : Environment) (s : System) (event : Event) : List Act :=
  match event,s.phase with
  | .begin outcome,.between =>
    if s.service.stopping then []
    else match s.service.eventStream,outcome with
      | some _,_ => []
      | none,.error _ => [.attempt,.failed]
      | none,.ok () => [.attempt]
  | .wakeup .timedOut,.retrying => [.waited s.service.reconnectMs]
  | .reload config,_ => [.reloaded (boundsOf config.toReconnecting)]
  | event,_ => shown environment s event

def Undisturbed : Event → Prop
  | .wakeup outcome => outcome = .timedOut
  | .reload config => Ordered config.toReconnecting
  | _ => True

def Loses (environment : Environment) (s : System) (event : Event) : Prop :=
  failing environment s event = some .consume ∧ s.service.eventStream ≠ none

def Attempts (s : System) : Event → Prop
  | .begin _ => s.phase = .between ∧ s.service.eventStream = none ∧ s.service.stopping = false
  | _ => False

def connector (environment : Environment) : Connector System Event where
  config := fun s => s.service.sourceConfig.toReconnecting
  reconnectMs := fun s => s.service.reconnectMs
  retrying := fun s => match s.phase with
    | .retrying => True
    | _ => False
  apply := apply environment
  acts := acts environment
  loses := Loses environment
  attempts := Attempts

variable {environment : Environment} {s : System}

theorem disconnect_settled (service : Service) (message : Bytes) :
    (disconnect service message).sourceConfig = service.sourceConfig ∧
      (disconnect service message).reconnectMs = service.reconnectMs := by
  simp only [disconnect]
  split <;> exact ⟨rfl,rfl⟩

theorem elsewhere {phase : Phase} (stands : s.phase = phase) (other : phase ≠ .retrying) :
    ¬(connector environment).retrying s := by
  intro retrying
  cases phase with
  | retrying => exact other rfl
  | _ => simp [connector,stands] at retrying

theorem retrying_of (stands : s.phase = .retrying) : (connector environment).retrying s := by
  simp only [connector,stands]

theorem abandon_moves {event : Event} {origin : Origin} {message : Bytes}
    (idle : ¬(connector environment).retrying s) (acted : (connector environment).acts s event = shown environment s event)
    (fails : failing environment s event = some origin)
    (applied : (connector environment).apply s event = abandon s origin message) :
    (connector environment).Moves s event := by
  obtain ⟨config,delay⟩ := disconnect_settled s.service message
  have settled : (connector environment).config (abandon s origin message) = (connector environment).config s :=
    congrArg Configuration.Hyprland.toReconnecting config
  cases origin with
  | connect =>
    have seen : shown environment s event = [.failed] := by simp only [shown,fails]
    exact Connector.seen (acted.trans seen) applied settled delay (.failed (retrying_of rfl))
  | consume =>
    cases stream : s.service.eventStream with
    | none =>
      have seen : shown environment s event = [] := by
        simp only [shown,fails,stream,Option.isSome_none,Bool.false_eq_true,if_false]
      exact Connector.seen (acted.trans seen) applied settled delay (.silent fun retrying => absurd retrying idle)
    | some held =>
      have seen : shown environment s event = [.dropped] := by
        simp only [shown,fails,stream,Option.isSome_some,if_true]
      exact Connector.seen (acted.trans seen) applied settled delay .dropped

theorem proceed_moves {event : Event} {origin : Origin}
    {reply : Option (Except Bytes Json.Tree)} {next' : Json.Tree → System}
    (idle : ¬(connector environment).retrying s) (acted : (connector environment).acts s event = shown environment s event)
    (applied : (connector environment).apply s event = proceed s origin reply next')
    (fails : failing environment s event = if refuses reply then some origin else none)
    (completed : completes environment s event = true → ∃ tree, reply = some (.ok tree))
    (ok : ∀ tree, reply = some (.ok tree) → (connector environment).Moves s event) :
    (connector environment).Moves s event := by
  cases reply with
  | none =>
    have uncompleted : completes environment s event = false := by
      by_contra done
      obtain ⟨tree,answered⟩ := completed (by simpa using done)
      cases answered
    have seen : shown environment s event = [] := by
      simp only [shown,fails,refuses,uncompleted,Bool.false_eq_true,if_false]
    exact Connector.seen (acted.trans seen) applied rfl rfl (.silent fun retrying => absurd retrying idle)
  | some result =>
    cases result with
    | error message => exact abandon_moves idle acted fails applied
    | ok tree => exact ok tree rfl

theorem answer_moves (outcome : Answer) : (connector environment).Moves s (.answer outcome) := by
  have acted : (connector environment).acts s (.answer outcome) = shown environment s (.answer outcome) := rfl
  cases phase : s.phase with
  | monitors origin since =>
    have idle : ¬(connector environment).retrying s := elsewhere phase (by simp)
    have applied : (connector environment).apply s (.answer outcome) = proceed s origin
        (decodeResponse environment.yyjson monitorsCommand outcome (s.compositor.view s.compositor.shown).monitors)
        (fun tree => { s with phase := .workspaces origin since tree }) := by
      simp only [connector,apply,answer,phase]
    refine proceed_moves idle acted applied (by simp only [failing,phase]) (by simp [completes,phase]) ?_
    intro tree reply
    have seen : shown environment s (.answer outcome) = [] := by
      simp [shown,failing,completes,phase,reply,refuses]
    rw [reply] at applied
    exact Connector.seen (acted.trans seen) applied rfl rfl (.silent fun retrying => absurd retrying idle)
  | workspaces origin since monitors =>
    have idle : ¬(connector environment).retrying s := elsewhere phase (by simp)
    have applied : (connector environment).apply s (.answer outcome) = proceed s origin
        (decodeResponse environment.yyjson workspacesCommand outcome (s.compositor.view s.compositor.shown).workspaces)
        (fun tree => { s with phase := .activeWindow origin since monitors tree }) := by
      simp only [connector,apply,answer,phase]
    refine proceed_moves idle acted applied (by simp only [failing,phase]) (by simp [completes,phase]) ?_
    intro tree reply
    have seen : shown environment s (.answer outcome) = [] := by
      simp [shown,failing,completes,phase,reply,refuses]
    rw [reply] at applied
    exact Connector.seen (acted.trans seen) applied rfl rfl (.silent fun retrying => absurd retrying idle)
  | activeWindow origin since monitors workspaces =>
    have idle : ¬(connector environment).retrying s := elsewhere phase (by simp)
    have applied : (connector environment).apply s (.answer outcome) = proceed s origin
        (decodeResponse environment.yyjson activeWindowCommand outcome (s.compositor.view s.compositor.shown).activeWindow)
        (finish environment s origin since monitors workspaces) := by
      simp only [connector,apply,answer,phase]
    refine proceed_moves idle acted applied (by simp only [failing,phase]) ?_ ?_
    · intro completed
      simp only [completes,phase] at completed
      split at completed
      · split at completed
        · exact ⟨_,‹_›⟩
        · cases completed
      · cases completed
    · intro tree reply
      rw [reply] at applied
      cases origin with
      | connect =>
        have seen : shown environment s (.answer outcome) = [.accepted] := by
          simp [shown,failing,completes,phase,reply,refuses]
        exact Connector.seen (acted.trans seen) applied rfl rfl (.accepted fun retrying => absurd retrying idle)
      | consume =>
        have seen : shown environment s (.answer outcome) = [] := by
          simp [shown,failing,completes,phase,reply,refuses]
        exact Connector.seen (acted.trans seen) applied rfl rfl (.silent fun retrying => absurd retrying idle)
  | _ =>
    exact Connector.ignored (by simp [acted,shown,failing,completes,phase])
      (by simp [connector,apply,answer,phase])

theorem begin_moves (outcome : Except Bytes Unit) :
    (connector environment).Moves s (.begin outcome) := by
  cases phase : s.phase with
  | between =>
    have idle : ¬(connector environment).retrying s := elsewhere phase (by simp)
    cases stopping : s.service.stopping with
    | true =>
      exact Connector.ignored (by simp [connector,acts,phase,stopping])
        (by simp [connector,apply,begin,phase,stopping])
    | false =>
      cases stream : s.service.eventStream with
      | some held =>
        have applied : (connector environment).apply s (.begin outcome) = { s with phase := .waiting } := by
          simp [connector,apply,begin,phase,stopping,stream]
        exact Connector.seen (by simp [connector,acts,phase,stopping,stream]) applied rfl rfl
          (.silent fun retrying => absurd retrying idle)
      | none =>
        cases outcome with
        | error message =>
          have applied : (connector environment).apply s (.begin (.error message)) =
              { s with service := { disconnect s.service message with attempted := true }, phase := .retrying } := by
            simp [connector,apply,begin,phase,stopping,stream]
          obtain ⟨config,delay⟩ := disconnect_settled s.service message
          exact Connector.seen (by simp [connector,acts,phase,stopping,stream]) applied
            (congrArg Configuration.Hyprland.toReconnecting config) delay (.refused idle (retrying_of rfl))
        | ok =>
          have applied : (connector environment).apply s (.begin (.ok ())) =
              { s with
                service := { s.service with eventStream := some ⟨true,[],[],0⟩, attempted := true }
                phase := .monitors .connect s.compositor.shown } := by
            simp [connector,apply,begin,phase,stopping,stream]
          exact Connector.seen (by simp [connector,acts,phase,stopping,stream]) applied rfl rfl (.attempt idle)
  | _ =>
    exact Connector.ignored (by simp [connector,acts,shown,phase,failing,completes])
      (by simp [connector,apply,begin,phase])

theorem resume_moves : (connector environment).Moves s .resume := by
  have acted : (connector environment).acts s .resume = shown environment s .resume := rfl
  cases phase : s.phase with
  | woken reply =>
    have idle : ¬(connector environment).retrying s := elsewhere phase (by simp)
    cases reply with
    | failed message =>
      have fails : failing environment s .resume = some .consume := by simp only [failing,phase]
      have applied : (connector environment).apply s .resume = abandon s .consume message := by
        simp only [connector,apply,resume,phase]
      exact abandon_moves idle acted fails applied
    | closed error wake =>
      have fails : failing environment s .resume = some .consume := by simp only [failing,phase]
      have applied : (connector environment).apply s .resume =
          abandon s .consume (error.getD (text "Hyprland event socket closed")) := by
        simp only [connector,apply,resume,phase]
      exact abandon_moves idle acted fails applied
    | nothing wake =>
      have applied : (connector environment).apply s .resume = { s with phase := .between } := by
        simp [connector,apply,resume,phase]
      exact Connector.seen (by simp [connector,acts,shown,failing,completes,phase]) applied rfl rfl
        (.silent fun retrying => absurd retrying idle)
    | chunk data wake =>
      have applied : (connector environment).apply s .resume = consume s data := by simp [connector,apply,resume,phase]
      cases consumed : HyprlandEvents.consumeEvents s.service.eventBuffer data with
      | error message =>
        simp only [consume,consumed] at applied
        exact abandon_moves idle acted (by simp only [failing,phase,consumed]) applied
      | ok result =>
        simp only [consume,consumed] at applied
        exact Connector.seen (by simp [connector,acts,shown,failing,completes,phase,consumed]) applied rfl rfl
          (.silent fun retrying => absurd retrying idle)
  | _ =>
    exact Connector.ignored (by simp [connector,acts,shown,phase,failing,completes])
      (by simp [connector,apply,resume,phase])

theorem step_moves (s : System) (event : Event) (undisturbed : Undisturbed event) :
    (connector environment).Moves s event := by
  cases event with
  | begin outcome => exact begin_moves outcome
  | answer outcome => exact answer_moves outcome
  | resume => exact resume_moves
  | wakeup outcome =>
    have timeout : outcome = .timedOut := undisturbed
    subst timeout
    cases phase : s.phase with
    | retrying =>
      have applied : (connector environment).apply s (.wakeup .timedOut) =
          { s with
            service := { s.service with
              reconnectMs := min s.service.sourceConfig.reconnectMaxMs (s.service.reconnectMs * 2) }
            phase := .between } := by
        simp [connector,apply,wakeup,phase]
      exact Connector.seen (by simp [connector,acts,phase]) applied rfl rfl .waited
    | _ =>
      exact Connector.ignored (by simp [connector,acts,shown,phase,failing,completes])
        (by simp [connector,apply,wakeup,phase])
  | wait reply =>
    cases phase : s.phase with
    | waiting =>
      have idle : ¬(connector environment).retrying s := elsewhere phase (by simp)
      have applied : (connector environment).apply s (.wait reply) =
          { s with
            service := { s.service with eventStream := s.service.eventStream.map (readFrom · reply) }
            phase := .woken reply } := by
        simp [connector,apply,wait,phase]
      exact Connector.seen (by simp [connector,acts,shown,failing,completes]) applied rfl rfl
        (.silent fun retrying => absurd retrying idle)
    | _ =>
      exact Connector.ignored (by simp [connector,acts,shown,failing,completes]) (by simp [connector,apply,wait,phase])
  | reload config =>
    have acted : (connector environment).acts s (.reload config) = [.reloaded (boundsOf config.toReconnecting)] := rfl
    have applied : (connector environment).apply s (.reload config) = { s with service := reload s.service config } := rfl
    exact Connector.seen acted applied rfl rfl (.reloaded undisturbed id)
  | change view => exact Connector.seen rfl rfl rfl rfl (.silent id)
  | reveal count => exact Connector.seen rfl rfl rfl rfl (.silent id)
  | emit line announced => exact Connector.seen rfl rfl rfl rfl (.silent id)
  | hangUp => exact Connector.seen rfl rfl rfl rfl (.silent id)
  | quit => exact Connector.seen rfl rfl rfl rfl (.silent id)

theorem shown_loses (s : System) (event : Event) (lost : .dropped ∈ shown environment s event) : Loses environment s event := by
  unfold shown at lost
  split at lost
  · simp at lost
  · split at lost
    · exact ⟨‹_›,fun none => by simp_all⟩
    · cases lost
  · split at lost <;> simp at lost

theorem shown_unattempted (s : System) (event : Event) : .attempt ∉ shown environment s event := by
  intro attempted
  unfold shown at attempted
  split at attempted
  · simp at attempted
  · split at attempted <;> simp at attempted
  · split at attempted <;> simp at attempted

theorem acts_lose (s : System) (event : Event) (lost : .dropped ∈ acts environment s event) : Loses environment s event := by
  unfold acts at lost
  split at lost
  · split at lost
    · cases lost
    · split at lost <;> simp at lost
  · simp at lost
  · simp at lost
  · exact shown_loses s _ lost

theorem acts_attempt (s : System) (event : Event) (attempted : .attempt ∈ acts environment s event) : Attempts s event := by
  unfold acts at attempted
  split at attempted
  · split at attempted
    · cases attempted
    · rename_i running
      split at attempted
      · cases attempted
      · exact ⟨‹_›,‹_›,eq_false_of_ne_true running⟩
      · exact ⟨‹_›,‹_›,eq_false_of_ne_true running⟩
  · simp at attempted
  · simp at attempted
  · exact absurd attempted (shown_unattempted s _)

theorem lawful : (connector environment).Lawful fun _ event => Undisturbed event := ⟨step_moves,acts_lose,acts_attempt⟩

end Hyprland

-- A run of one of the three services from its start.
inductive Run where
  | hyprland (environment : HyprlandService.Environment) (config : Configuration.Hyprland) (view : HyprlandService.View)
      (events : List HyprlandService.Event)
  | mpris (config : Reconnecting) (events : List MprisService.Event)
  | audio (pulse : AudioSource.Pulse) (config : Reconnecting) (events : List AudioService.Event)

def Run.config : Run → Reconnecting
  | .hyprland _ config _ _ => config.toReconnecting
  | .mpris config _ => config
  | .audio _ config _ => config

-- Nobody disturbs the waits, and once a connection that had been accepted is lost
-- no other is attempted.
def Run.Lasting : Run → Prop
  | .hyprland environment config view events =>
    Runs.Each (HyprlandService.apply environment) (fun _ event => Hyprland.Undisturbed event)
      (HyprlandService.boot config view) events ∧
    (Hyprland.connector environment).Patient (HyprlandService.boot config view) events
  | .mpris config events =>
    Runs.Each MprisService.apply (fun _ event => Mpris.Undisturbed event) (MprisService.start config) events ∧
    Mpris.connector.Patient (MprisService.start config) events
  | .audio pulse config events =>
    Runs.Each (AudioService.apply pulse) (fun _ event => Audio.Undisturbed event) (AudioService.start config) events ∧
    (Audio.connector pulse).Patient (AudioService.start config) events

def Run.acts : Run → List Act
  | .hyprland environment config view events =>
    observed (HyprlandService.apply environment) (Hyprland.acts environment) (HyprlandService.boot config view) events
  | .mpris config events => observed MprisService.apply Mpris.acts (MprisService.start config) events
  | .audio pulse config events => observed (AudioService.apply pulse) Audio.acts (AudioService.start config) events

-- The next wait lies within the bounds then configured, all along the run.
def Run.Bounded : Run → Prop
  | .hyprland environment config view events => Runs.Throughout (HyprlandService.apply environment)
      (fun s => Within s.service.sourceConfig.toReconnecting s.service.reconnectMs) (HyprlandService.boot config view) events
  | .mpris config events => Runs.Throughout MprisService.apply
      (fun service => Within service.sourceConfig service.reconnectMs) (MprisService.start config) events
  | .audio pulse config events => Runs.Throughout (AudioService.apply pulse)
      (fun service => Within service.sourceConfig service.reconnectMs) (AudioService.start config) events

theorem reconnects_paced_when_lasting {run : Run} (ordered : Ordered run.config) (lasting : run.Lasting) :
    Paced (boundsOf run.config) run.acts ∧ run.Bounded := by
  cases run with
  | hyprland environment config view events =>
    exact Connector.paced (c := Hyprland.connector environment) (HyprlandService.boot config view) Hyprland.lawful ordered rfl
      lasting.1 lasting.2
  | mpris config events =>
    exact Connector.paced (c := Mpris.connector) (MprisService.start config) Mpris.lawful ordered rfl lasting.1 lasting.2
  | audio pulse config events =>
    exact Connector.paced (c := Audio.connector pulse) (AudioService.start config) Audio.lawful ordered rfl lasting.1 lasting.2

-- The defaults of the bounds.
def defaults : Reconnecting := ⟨true,100,5000⟩

def refusal : Except Bytes Unit := .error (text "cannot open session bus: Connection refused")

-- Three attempts, of which the third is accepted; the connection is lost just
-- before the daemon quits.
def thrice : List MprisService.Event :=
  [.idle refusal,.retry .timeout,.idle refusal,.retry .timeout,.idle (.ok ()),.greet (.names [] none),
   .wait ⟨false,false,true,none⟩,.resume (.names [] none),.reload ⟨true,200,5000⟩,.quit]

theorem thrice_paced :
    Paced (boundsOf defaults) (observed MprisService.apply Mpris.acts (MprisService.start defaults) thrice) ∧
      Runs.Throughout MprisService.apply (fun service => Within service.sourceConfig service.reconnectMs)
        (MprisService.start defaults) thrice := by
  have undisturbed : Runs.Each MprisService.apply (fun _ event => Mpris.Undisturbed event) (MprisService.start defaults)
      thrice :=
    ⟨trivial,rfl,trivial,rfl,trivial,trivial,trivial,trivial,⟨by decide,by decide⟩,trivial,trivial⟩
  have patient : Mpris.connector.Patient (MprisService.start defaults) thrice :=
    ⟨nofun,nofun,nofun,nofun,nofun,nofun,nofun,fun _ => ⟨id,id,trivial⟩,nofun,nofun,trivial⟩
  exact reconnects_paced_when_lasting (⟨by decide,by decide⟩ : Ordered (Run.mpris defaults thrice).config)
    (⟨undisturbed,patient⟩ : (Run.mpris defaults thrice).Lasting)

-- The session bus accepts and closes, again and again.
def flapping : List MprisService.Event :=
  [.idle (.ok ()),.greet (.names [] none),.wait ⟨false,false,true,none⟩,.resume (.names [] none),
   .idle (.ok ()),.greet (.names [] none),.wait ⟨false,false,true,none⟩,.resume (.names [] none)]

theorem flapping_observed : observed MprisService.apply Mpris.acts (MprisService.start defaults) flapping =
    [.attempt,.accepted,.dropped,.attempt,.accepted,.dropped] := by
  decide

theorem flapping_unpaced :
    Runs.Each MprisService.apply (fun _ event => Mpris.Undisturbed event) (MprisService.start defaults) flapping ∧
      ¬Paced (boundsOf defaults) (observed MprisService.apply Mpris.acts (MprisService.start defaults) flapping) := by
  refine ⟨⟨trivial,trivial,trivial,trivial,trivial,trivial,trivial,trivial,trivial⟩,?_⟩
  intro paced
  obtain ⟨delay,waited⟩ := paced.separated [.attempt,.accepted] .dropped [] [.accepted,.dropped] flapping_observed (.inr rfl)
  cases waited

end Hypringo.Reconnect

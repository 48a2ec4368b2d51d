import Hypringo.Runs

namespace Hypringo.SocketPath

inductive Daemon where
  | one
  | two
  deriving DecidableEq, Repr

def Daemon.other : Daemon → Daemon
  | .one => .two
  | .two => .one

theorem other_ne (d : Daemon) : d.other ≠ d := by cases d <;> decide

theorem eq_or_other (d e : Daemon) : e = d ∨ e = d.other := by cases d <;> cases e <;> decide

-- What the path names: a socket by its inode, or something else.
inductive Node where
  | socket (id : Nat)
  | file
  deriving DecidableEq, Repr

-- The system call a daemon is about to make, with the inode of the listener it
-- has bound. Every way out of lstart after bind closes the listener and unlinks
-- the path, as lstop does; prepare_socket's own way out closes one that never
-- listened.
inductive Place where
  | idle
  | lstat
  | connect
  | unlinkStale
  | bind
  | chmod (id : Nat)
  | listen (id : Nat)
  | starting (id : Nat)
  | running (id : Nat)
  | close (id : Nat)
  | abandon (id : Nat)
  | unlink
  deriving DecidableEq, Repr

def Place.bound : Place → Option Nat
  | .chmod id | .listen id | .starting id | .running id | .close id | .abandon id => some id
  | _ => none

def Place.listening : Place → Option Nat
  | .starting id | .running id | .close id => some id
  | _ => none

structure State where
  path : Option Node
  next : Nat
  place : Daemon → Place

def start (path : Option Node) (next : Nat) : State := ⟨path,next,fun _ => .idle⟩

def State.put (s : State) (d : Daemon) (place : Place) : State :=
  { s with place := Function.update s.place d place }

inductive Found where
  | socket
  | other
  | missing
  | failed
  deriving DecidableEq, Repr

inductive Probed where
  | connected
  | refused
  | missing
  | failed
  deriving DecidableEq, Repr

inductive Move where
  | begin
  | lstat (result : Found)
  | connect (result : Probed)
  | unlink (ok : Bool)
  | bind (ok : Bool)
  | chmod (ok : Bool)
  | listen (ok : Bool)
  | started (ok : Bool)
  | stop
  | close
  | crash
  deriving DecidableEq, Repr

structure Event where
  daemon : Daemon
  move : Move
  deriving DecidableEq, Repr

def Listening (s : State) (id : Nat) : Prop := ∃ d, (s.place d).listening = some id

-- The kernel's part. A call may always fail for a reason of its own.
def LstatSays (s : State) : Found → Prop
  | .socket => ∃ id, s.path = some (.socket id)
  | .other => s.path = some .file
  | .missing => s.path = none
  | .failed => True

-- A socket that is bound but does not listen, or whose owner is gone, refuses.
def ConnectSays (s : State) : Probed → Prop
  | .connected => ∃ id, s.path = some (.socket id) ∧ Listening s id
  | .refused => s.path ≠ none ∧ ∀ id, s.path = some (.socket id) → ¬Listening s id
  | .missing => s.path = none
  | .failed => True

def Possible (s : State) (event : Event) : Prop :=
  let place := s.place event.daemon
  match event.move with
  | .begin => place = .idle
  | .lstat result => place = .lstat ∧ LstatSays s result
  | .connect result => place = .connect ∧ ConnectSays s result
  | .unlink ok => (place = .unlinkStale ∨ place = .unlink) ∧ (ok = true → s.path ≠ none)
  | .bind ok => place = .bind ∧ (ok = true → s.path = none)
  | .chmod ok => (∃ id, place = .chmod id) ∧ (ok = true → s.path ≠ none)
  | .listen _ => ∃ id, place = .listen id
  | .started _ => ∃ id, place = .starting id
  | .stop => ∃ id, place = .running id
  | .close => ∃ id, place = .close id ∨ place = .abandon id
  | .crash => True

def afterLstat : Found → Place
  | .socket => .connect
  | .missing => .bind
  | .other | .failed => .idle

def afterConnect : Probed → Place
  | .refused | .missing => .unlinkStale
  | .connected | .failed => .idle

def afterUnlink (place : Place) (ok : Bool) : Place :=
  if place = .unlinkStale ∧ ok = true then .bind else .idle

-- A step with a bound listener: to the next call, or to the failure exit.
def advance (place : Place) (ok : Bool) : Place :=
  match place with
  | .chmod id => if ok then .listen id else .abandon id
  | .listen id => if ok then .starting id else .abandon id
  | .starting id => if ok then .running id else .close id
  | .running id => .close id
  | .close _ | .abandon _ => .unlink
  | other => other

def apply (s : State) (event : Event) : State :=
  let d := event.daemon
  match event.move with
  | .begin => s.put d .lstat
  | .lstat result => s.put d (afterLstat result)
  | .connect result => s.put d (afterConnect result)
  | .unlink ok => { s.put d (afterUnlink (s.place d) ok) with path := if ok then none else s.path }
  | .bind ok =>
    if ok then { s.put d (.chmod s.next) with path := some (.socket s.next), next := s.next + 1 }
    else s.put d .idle
  | .chmod ok | .listen ok | .started ok => s.put d (advance (s.place d) ok)
  | .stop | .close => s.put d (advance (s.place d) true)
  | .crash => s.put d .idle

-- No unlink removes a socket that the other daemon has bound and not closed.
def Harmless (s : State) (event : Event) : Prop :=
  event.move = .unlink true → ∀ id, s.path = some (.socket id) → (s.place event.daemon.other).bound ≠ some id

-- A daemon with a bound listener is the only one and the path leads to it.
structure Owned (s : State) : Prop where
  leads : ∀ d id, (s.place d).bound = some id → s.path = some (.socket id)
  alone : ∀ d, (s.place d).bound ≠ none → (s.place d.other).bound = none

-- The three windows kept shut: no probe while the other daemon has bound a socket
-- that does not listen, no bind while the other is about to unlink what its probe
-- found refused or what it has just closed.
def Apart (s : State) (event : Event) : Prop :=
  match event.move with
  | .connect _ => (s.place event.daemon.other).bound = (s.place event.daemon.other).listening
  | .bind _ => s.place event.daemon.other ≠ .unlinkStale ∧ s.place event.daemon.other ≠ .unlink
  | _ => True

structure Invariant (s : State) : Prop where
  owned : Owned s
  removing : ∀ d, s.place d = .unlinkStale ∨ s.place d = .unlink → (s.place d.other).bound = none

theorem start_invariant (path : Option Node) (next : Nat) : Invariant (start path next) where
  owned := ⟨fun _ _ holds => (by cases holds),fun _ _ => rfl⟩
  removing _ place := by rcases place with place | place <;> cases place

@[simp] theorem put_self (s : State) (d : Daemon) (place : Place) : (s.put d place).place d = place := by
  simp [State.put]

@[simp] theorem put_other (s : State) (d : Daemon) (place : Place) :
    (s.put d place).place d.other = s.place d.other := by
  simp [State.put,other_ne]

theorem other_other (d : Daemon) : d.other.other = d := by cases d <;> rfl

-- Both clauses speak of a daemon and its peer, so a step of d is checked at d
-- and at its peer.
theorem step_invariant {s : State} (d : Daemon) (t : State)
    (peer : t.place d.other = s.place d.other)
    (leads : ∀ id, (t.place d).bound = some id → t.path = some (.socket id))
    (kept : ∀ id, (s.place d.other).bound = some id → t.path = some (.socket id))
    (alone : (t.place d).bound ≠ none → (s.place d.other).bound = none)
    (mine : t.place d = .unlinkStale ∨ t.place d = .unlink → (s.place d.other).bound = none)
    (theirs : s.place d.other = .unlinkStale ∨ s.place d.other = .unlink → (t.place d).bound = none) :
    Invariant t := by
  refine ⟨⟨?_,?_⟩,?_⟩
  · intro e id holds
    rcases eq_or_other d e with rfl | rfl
    · exact leads id holds
    · rw [peer] at holds
      exact kept id holds
  · intro e holds
    rcases eq_or_other d e with rfl | rfl
    · rw [peer]
      exact alone holds
    · rw [peer] at holds
      rw [other_other]
      by_contra some
      exact holds (alone some)
  · intro e place
    rcases eq_or_other d e with rfl | rfl
    · rw [peer]
      exact mine place
    · rw [peer] at place
      rw [other_other]
      exact theirs place

-- A step that keeps the path and gives up whatever the daemon had bound.
theorem Invariant.released {s : State} (invariant : Invariant s) (d : Daemon) {place : Place}
    (free : place.bound = none)
    (mine : place = .unlinkStale ∨ place = .unlink → (s.place d.other).bound = none) :
    Invariant (s.put d place) := by
  apply step_invariant d (s.put d place) (put_other s d place)
  · intro id holds
    rw [put_self,free] at holds
    cases holds
  · exact invariant.owned.leads d.other
  · intro holds
    rw [put_self,free] at holds
    exact absurd rfl holds
  · rw [put_self]
    exact mine
  · intro _
    rw [put_self,free]

-- A step that keeps the path and the listener.
theorem Invariant.held {s : State} (invariant : Invariant s) (d : Daemon) {place : Place} {id : Nat}
    (before : (s.place d).bound = some id) (after : place.bound = some id) : Invariant (s.put d place) := by
  have alone := invariant.owned.alone d (by rw [before]; exact Option.some_ne_none id)
  apply step_invariant d (s.put d place) (put_other s d place)
  · intro other holds
    rw [put_self,after] at holds
    cases holds
    exact invariant.owned.leads d id before
  · exact invariant.owned.leads d.other
  · exact fun _ => alone
  · exact fun _ => alone
  · intro removing
    have none := invariant.removing d.other removing
    rw [other_other,before] at none
    cases none

-- Leaving the failure exit or the stop: the listener is closed, its peer has
-- none.
theorem Invariant.closed {s : State} (invariant : Invariant s) (d : Daemon) (id : Nat)
    (before : (s.place d).bound = some id) : Invariant (s.put d .unlink) :=
  invariant.released d rfl fun _ => invariant.owned.alone d (by rw [before]; exact Option.some_ne_none id)

-- Whoever is refused found nobody listening; nobody holds a socket that does not
-- listen either.
theorem refused_free {s : State} (invariant : Invariant s) {d : Daemon} {result : Probed}
    (verdict : ConnectSays s result) (apart : (s.place d.other).bound = (s.place d.other).listening)
    (stale : afterConnect result = .unlinkStale) : (s.place d.other).bound = none := by
  by_contra some
  obtain ⟨id,holds⟩ := Option.ne_none_iff_exists'.mp some
  have leads := invariant.owned.leads d.other id holds
  cases result with
  | refused => exact verdict.2 id leads ⟨d.other,by rw [← apart,holds]⟩
  | missing =>
    have gone : s.path = none := verdict
    rw [leads] at gone
    cases gone
  | connected => cases stale
  | failed => cases stale

theorem advance_invariant {s : State} (invariant : Invariant s) (d : Daemon) (ok : Bool) (id : Nat)
    (holds : (s.place d).bound = some id) : Invariant (s.put d (advance (s.place d) ok)) := by
  cases place : s.place d with
  | chmod n | listen n | starting n =>
    rw [place] at holds
    refine invariant.held d (by rw [place]; exact holds) ?_
    cases ok <;> exact holds
  | running n =>
    rw [place] at holds
    exact invariant.held d (by rw [place]; exact holds) holds
  | close n | abandon n => exact invariant.closed d n (by rw [place]; rfl)
  | idle | lstat | connect | unlinkStale | bind | unlink =>
    rw [place] at holds
    cases holds

theorem apply_invariant (s : State) (event : Event) (invariant : Invariant s)
    (met : Possible s event ∧ Apart s event) : Invariant (apply s event) := by
  obtain ⟨d,move⟩ := event
  obtain ⟨possible,apart⟩ := met
  cases move with
  | begin => exact invariant.released d rfl (by rintro (place | place) <;> cases place)
  | lstat result =>
    refine invariant.released d (by cases result <;> rfl) ?_
    rintro (place | place) <;> cases result <;> cases place
  | connect result =>
    refine invariant.released d (by cases result <;> rfl) ?_
    rintro (place | place)
    · exact refused_free invariant possible.2 apart place
    · cases result <;> cases place
  | unlink ok =>
    obtain ⟨removing,_⟩ := possible
    have free := invariant.removing d removing
    have gone : (afterUnlink (s.place d) ok).bound = none := by
      unfold afterUnlink
      split <;> rfl
    have peer : (apply s ⟨d,.unlink ok⟩).place d.other = s.place d.other := put_other _ _ _
    apply step_invariant d _ peer
    · intro id holds
      have mine : ((s.put d (afterUnlink (s.place d) ok)).place d).bound = some id := holds
      rw [put_self,gone] at mine
      cases mine
    · intro id holds
      rw [free] at holds
      cases holds
    · exact fun _ => free
    · exact fun _ => free
    · intro _
      show ((s.put d (afterUnlink (s.place d) ok)).place d).bound = none
      rw [put_self,gone]
  | bind ok =>
    cases ok with
    | false => exact invariant.released d rfl (by rintro (place | place) <;> cases place)
    | true =>
      have empty : s.path = none := possible.2 rfl
      have free : (s.place d.other).bound = none := by
        by_contra some
        obtain ⟨id,holds⟩ := Option.ne_none_iff_exists'.mp some
        have leads := invariant.owned.leads d.other id holds
        rw [empty] at leads
        cases leads
      have peer : (apply s ⟨d,.bind true⟩).place d.other = s.place d.other := put_other _ _ _
      apply step_invariant d _ peer
      · intro id holds
        have mine : ((s.put d (.chmod s.next)).place d).bound = some id := holds
        rw [put_self] at mine
        cases mine
        rfl
      · intro id holds
        rw [free] at holds
        cases holds
      · exact fun _ => free
      · exact fun _ => free
      · rintro (place | place)
        · exact absurd place apart.1
        · exact absurd place apart.2
  | chmod ok =>
    obtain ⟨⟨id,place⟩,_⟩ := possible
    exact advance_invariant invariant d ok id (by rw [place]; rfl)
  | listen ok =>
    obtain ⟨id,place⟩ := possible
    exact advance_invariant invariant d ok id (by rw [place]; rfl)
  | started ok =>
    obtain ⟨id,place⟩ := possible
    exact advance_invariant invariant d ok id (by rw [place]; rfl)
  | stop =>
    obtain ⟨id,place⟩ := possible
    exact advance_invariant invariant d true id (by rw [place]; rfl)
  | close =>
    obtain ⟨id,place | place⟩ := possible
    · exact advance_invariant invariant d true id (by rw [place]; rfl)
    · exact advance_invariant invariant d true id (by rw [place]; rfl)
  | crash => exact invariant.released d rfl (by rintro (place | place) <;> cases place)

theorem Invariant.harmless {s : State} (invariant : Invariant s) {event : Event} (possible : Possible s event) :
    Harmless s event := by
  obtain ⟨d,move⟩ := event
  rintro rfl id _
  rw [invariant.removing d possible.1]
  exact (Option.some_ne_none id).symm

def Safe (s : State) (events : List Event) : Prop :=
  Runs.Each apply Harmless s events ∧ Runs.Throughout apply Owned s events

theorem apart_run_safe (path : Option Node) (next : Nat) (events : List Event)
    (possible : Runs.Each apply Possible (start path next) events)
    (apart : Runs.Each apply Apart (start path next) events) : Safe (start path next) events := by
  have met := Runs.each_and possible apart
  exact ⟨Runs.each_of_invariant apply_invariant (fun _ _ invariant met => invariant.harmless met.1)
      (start_invariant path next) met,
    Runs.throughout_imp (fun _ => Invariant.owned)
      (Runs.throughout_invariant apply_invariant (start_invariant path next) met)⟩

def boot (d : Daemon) : List Event := [⟨d,.bind true⟩,⟨d,.chmod true⟩,⟨d,.listen true⟩,⟨d,.started true⟩]

-- Over a stale socket a daemon binds but cannot listen, and leaves; the other
-- takes the path and is found there.
def sequential : List Event :=
  [⟨.two,.begin⟩,⟨.two,.lstat .socket⟩,⟨.two,.connect .refused⟩,⟨.two,.unlink true⟩,⟨.two,.bind true⟩,⟨.two,.chmod true⟩,
   ⟨.two,.listen false⟩,⟨.two,.close⟩,⟨.two,.unlink true⟩,⟨.one,.begin⟩,⟨.one,.lstat .missing⟩] ++ boot .one ++
  [⟨.two,.begin⟩,⟨.two,.lstat .socket⟩,⟨.two,.connect .connected⟩]

theorem sequential_run_safe :
    Runs.Each apply Possible (start (some (.socket 0)) 1) sequential ∧
    Runs.Each apply Apart (start (some (.socket 0)) 1) sequential ∧
    Safe (start (some (.socket 0)) 1) sequential := by
  have possible : Runs.Each apply Possible (start (some (.socket 0)) 1) sequential := by
    refine ⟨rfl,⟨rfl,0,rfl⟩,⟨rfl,by decide,?_⟩,⟨.inl rfl,by decide⟩,⟨rfl,fun _ => rfl⟩,⟨⟨1,rfl⟩,by decide⟩,⟨1,rfl⟩,
      ⟨1,.inr rfl⟩,⟨.inr rfl,by decide⟩,rfl,⟨rfl,rfl⟩,⟨rfl,fun _ => rfl⟩,⟨⟨2,rfl⟩,by decide⟩,⟨2,rfl⟩,⟨2,rfl⟩,
      rfl,⟨rfl,2,rfl⟩,⟨rfl,2,rfl,.one,rfl⟩,trivial⟩
    rintro id _ ⟨d,listening⟩
    cases d <;> cases listening
  have apart : Runs.Each apply Apart (start (some (.socket 0)) 1) sequential :=
    ⟨trivial,trivial,rfl,trivial,⟨by decide,by decide⟩,trivial,trivial,trivial,trivial,trivial,trivial,
      ⟨by decide,by decide⟩,trivial,trivial,trivial,trivial,trivial,rfl,trivial⟩
  exact ⟨possible,apart,apart_run_safe (some (.socket 0)) 1 sequential possible apart⟩

-- The second daemon probes the first between bind and listen, unlinks its
-- socket and takes the path; both go on to run.
def overlappingStarts : List Event :=
  [⟨.one,.begin⟩,⟨.one,.lstat .missing⟩,⟨.one,.bind true⟩,
   ⟨.two,.begin⟩,⟨.two,.lstat .socket⟩,⟨.two,.connect .refused⟩,⟨.two,.unlink true⟩] ++ boot .two ++
  [⟨.one,.chmod true⟩,⟨.one,.listen true⟩,⟨.one,.started true⟩]

-- The first daemon has closed its listener; the second takes the path before
-- the first unlinks it.
def startDuringStop : List Event :=
  [⟨.one,.begin⟩,⟨.one,.lstat .missing⟩] ++ boot .one ++ [⟨.one,.stop⟩,⟨.one,.close⟩,
   ⟨.two,.begin⟩,⟨.two,.lstat .socket⟩,⟨.two,.connect .refused⟩,⟨.two,.unlink true⟩] ++ boot .two ++
  [⟨.one,.unlink true⟩]

theorem overlap_takes_live_socket :
    (Runs.Each apply Possible (start none 0) overlappingStarts ∧
      (∀ d, ∃ id, (Runs.final apply (start none 0) overlappingStarts).place d = .running id) ∧
      ¬Safe (start none 0) overlappingStarts) ∧
    (Runs.Each apply Possible (start none 0) startDuringStop ∧
      (Runs.final apply (start none 0) startDuringStop).place .two = .running 1 ∧
      (Runs.final apply (start none 0) startDuringStop).path = none ∧
      ¬Safe (start none 0) startDuringStop) := by
  refine ⟨⟨?_,?_,?_⟩,⟨?_,rfl,rfl,?_⟩⟩
  · refine ⟨rfl,⟨rfl,rfl⟩,⟨rfl,fun _ => rfl⟩,rfl,⟨rfl,0,rfl⟩,⟨rfl,by decide,?_⟩,⟨.inl rfl,by decide⟩,⟨rfl,fun _ => rfl⟩,
      ⟨⟨1,rfl⟩,by decide⟩,⟨1,rfl⟩,⟨1,rfl⟩,⟨⟨0,rfl⟩,by decide⟩,⟨0,rfl⟩,⟨0,rfl⟩,trivial⟩
    rintro id _ ⟨d,listening⟩
    cases d <;> cases listening
  · intro d
    cases d
    · exact ⟨0,rfl⟩
    · exact ⟨1,rfl⟩
  · rintro ⟨⟨-,-,-,-,-,-,harmless,-⟩,-⟩
    exact harmless rfl 0 rfl rfl
  · refine ⟨rfl,⟨rfl,rfl⟩,⟨rfl,fun _ => rfl⟩,⟨⟨0,rfl⟩,by decide⟩,⟨0,rfl⟩,⟨0,rfl⟩,⟨0,rfl⟩,⟨0,.inl rfl⟩,
      rfl,⟨rfl,0,rfl⟩,⟨rfl,by decide,?_⟩,⟨.inl rfl,by decide⟩,⟨rfl,fun _ => rfl⟩,⟨⟨1,rfl⟩,by decide⟩,⟨1,rfl⟩,
      ⟨1,rfl⟩,⟨.inr rfl,by decide⟩,trivial⟩
    rintro id _ ⟨d,listening⟩
    cases d <;> cases listening
  · rintro ⟨⟨-,-,-,-,-,-,-,-,-,-,-,-,-,-,-,-,harmless,-⟩,-⟩
    exact harmless rfl 1 rfl rfl

end Hypringo.SocketPath

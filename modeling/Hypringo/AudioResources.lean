import Hypringo.Handles
import Hypringo.Runs

namespace Hypringo.AudioResources
open Hypringo.Handles

-- What libpulse and the system give out. A mainloop is `idle` without a thread;
-- with one, its lock is `free` or `held` by the thread of the service.
-- `listening` are the callbacks registered with a context.
inductive Handle where
  | descriptor (fd : Nat)
  | mainloop (id : Nat)
  | idle (id : Nat)
  | thread (id : Nat)
  | free (id : Nat)
  | held (id : Nat)
  | context (id : Nat)
  | listening (id : Nat)
  deriving DecidableEq, Repr

-- The pointers and descriptors of struct audio_source.
structure Source where
  context : Option Nat
  mainloop : Option Nat
  notifyRead : Option Nat
  notifyWrite : Option Nat
  started : Bool
  deriving DecidableEq, Repr

def zeroed : Source := ⟨none,none,none,none,false⟩

-- What the thread of the service does, step by step: a call, an assignment to
-- the source, or a call that runs the state callback before it returns.
inductive Action where
  | call (op : Op Handle)
  | store (source : Source)
  | reentered
  deriving DecidableEq

def lock (m : Nat) : List Action := [.call (.closes (.free m)),.call (.opens (.held m))]
def unlock (m : Nat) : List Action := [.call (.closes (.held m)),.call (.opens (.free m))]

-- A context is called under the lock as soon as there is a thread.
def guarded (started : Bool) (m c : Nat) : List Action :=
  [.call (.uses (if started then .held m else .idle m)),.call (.uses (.context c))]

-- pa_context_set_state_callback, pa_context_set_subscribe_callback and
-- pa_context_disconnect.
def disconnect (source : Source) : List Action :=
  match source.mainloop,source.context with
  | some m,some c =>
    (if source.started then lock m else []) ++ guarded source.started m c ++ guarded source.started m c ++
      guarded source.started m c ++ [.call (.closes (.listening c))] ++ (if source.started then unlock m else [])
  | _,_ => []

def stop (source : Source) : List Action :=
  match source.mainloop with
  | some m =>
    if source.started then
      [.call (.closes (.thread m)),.call (.closes (.free m)),.call (.opens (.idle m)),.store { source with started := false }]
    else []
  | none => []

def unref (source : Source) : List Action :=
  match source.context with
  | some c =>
    (match source.mainloop with
      | some m => [.call (.uses (.idle m))]
      | none => []) ++ [.call (.closes (.context c)),.store { source with context := none }]
  | none => []

def free (source : Source) : List Action :=
  match source.mainloop with
  | some m => [.call (.closes (.idle m)),.call (.closes (.mainloop m)),.store { source with mainloop := none }]
  | none => []

def closePipe (source : Source) : List Action :=
  (match source.notifyRead with
    | some fd => [.call (.closes (.descriptor fd)),.store { source with notifyRead := none }]
    | none => []) ++
  match source.notifyWrite with
    | some fd => [.call (.closes (.descriptor fd)),.store { source with notifyRead := none, notifyWrite := none }]
    | none => []

def closeSource (source : Source) : List Action :=
  let stopped := { source with started := false }
  let unreferenced := { stopped with context := none }
  let freed := { unreferenced with mainloop := none }
  disconnect source ++ stop source ++ unref stopped ++ free unreferenced ++ closePipe freed

-- What the calls of lopen answer. `turns` is how often the state it finds is
-- neither ready nor an end.
structure Opening where
  pipe : Option (Nat × Nat)
  mainloop : Option Nat
  context : Option Nat
  connects : Bool
  starts : Bool
  turns : Nat
  ready : Bool

-- pa_threaded_mainloop_wait gives the lock back while it waits.
def await (m c : Nat) : Nat → List Action
  | 0 => guarded true m c
  | turns+1 => guarded true m c ++ unlock m ++ lock m ++ await m c turns

def start (source : Source) (m c : Nat) (answers : Opening) : List Action :=
  if !answers.starts then closeSource source
  else
    let running := { source with started := true }
    [.call (.closes (.idle m)),.call (.opens (.thread m)),.call (.opens (.free m)),.store running] ++ lock m ++
      await m c answers.turns ++
        if answers.ready then unlock m else guarded true m c ++ unlock m ++ closeSource running

def connect (source : Source) (m c : Nat) (answers : Opening) : List Action :=
  guarded false m c ++ [.call (.opens (.listening c))] ++ guarded false m c ++ [.reentered] ++
    if answers.connects then start source m c answers else guarded false m c ++ closeSource source

def createContext (source : Source) (m : Nat) (answers : Opening) : List Action :=
  .call (.uses (.mainloop m)) ::
    match answers.context with
    | none => closeSource source
    | some c =>
      let made := { source with context := some c }
      [.call (.opens (.context c)),.store made] ++ connect made m c answers

def createMainloop (source : Source) (answers : Opening) : List Action :=
  match answers.mainloop with
  | none => closeSource source
  | some m =>
    let looped := { source with mainloop := some m }
    [.call (.opens (.mainloop m)),.call (.opens (.idle m)),.store looped] ++ createContext looped m answers

def lopen (answers : Opening) : List Action :=
  .store zeroed ::
    match answers.pipe with
    | none => []
    | some (read,write) =>
      let piped := { zeroed with notifyRead := some read, notifyWrite := some write }
      [.call (.opens (.descriptor write)),.call (.opens (.descriptor read)),.store piped] ++ createMainloop piped answers

-- `looked` is how often lsource_wait asks for the state of the context.
inductive Method where
  | open (answers : Opening)
  | snapshot
  | wait (polls changed : Bool) (looked : Nat)
  | dispatch (available failed : Bool)
  | close

def polled (source : Source) : List Action :=
  match source.notifyRead with
  | some fd => [.call (.uses (.descriptor fd))]
  | none => []

def body (source : Source) : Method → List Action
  | .open answers => lopen answers
  | .snapshot => match source.mainloop with
    | some m => lock m ++ unlock m
    | none => []
  | .wait polls changed looked => match source.mainloop,source.context with
    | some m,some c =>
      polled source ++
        if polls then
          (if changed then polled source else []) ++ lock m ++
            (List.replicate looked (guarded source.started m c)).flatten ++ unlock m
        else []
    | _,_ => []
  | .dispatch available failed => match source.mainloop,source.context with
    | some m,some c =>
      lock m ++ (if available then guarded source.started m c ++ (if failed then guarded source.started m c else []) else []) ++
        unlock m
    | _,_ => []
  | .close => closeSource source

-- What a callback reaches: its context, the mainloop it signals and the pipe
-- notify writes to.
def touches (source : Source) : List Handle :=
  (source.context.map Handle.context).toList ++ (source.mainloop.map Handle.mainloop).toList ++
    (source.notifyWrite.map Handle.descriptor).toList

-- The source in use, what its method has still to do, and a record of every call.
structure Process where
  source : Source
  todo : List Action
  log : List (Op Handle)

def boot : Process := ⟨zeroed,[],[]⟩

-- Lua's collector calls close as well.
inductive Event where
  | invoke (method : Method)
  | advance
  | callback

def used (p : Process) : List (Op Handle) := (touches p.source).map .uses

def advance (p : Process) : Process :=
  match p.todo with
  | [] => p
  | .call op :: rest => { p with todo := rest, log := p.log ++ [op] }
  | .store source :: rest => { p with source := source, todo := rest }
  | .reentered :: rest => { p with todo := rest, log := p.log ++ used p }

def apply (p : Process) : Event → Process
  | .invoke method => { p with todo := body p.source method }
  | .advance => advance p
  | .callback => { p with log := p.log ++ used p }

def holding (p : Process) : Finset Handle := (after ∅ p.log).getD ∅

-- One method after the other, a new source only without one, as the service
-- does. The thread of the mainloop runs callbacks while they are registered and
-- the lock is free.
def Possible (p : Process) : Event → Prop
  | .invoke (.open answers) =>
    p.todo = [] ∧ p.source = zeroed ∧ ∀ read write, answers.pipe = some (read,write) → read ≠ write
  | .invoke _ => p.todo = []
  | .advance => True
  | .callback => ∃ m c, .thread m ∈ holding p ∧ .free m ∈ holding p ∧ .listening c ∈ holding p

-- An open source holds its pipe, its mainloop with the thread, its context and
-- the callbacks, and the lock is free.
def opened (c m read write : Nat) : Source := ⟨some c,some m,some read,some write,true⟩

def handles : Source → List Handle
  | ⟨some c,some m,some read,some write,true⟩ =>
    [.free m,.thread m,.listening c,.context c,.mainloop m,.descriptor read,.descriptor write]
  | _ => []

def Whole (source : Source) : Prop :=
  source = zeroed ∨ ∃ c m read write, source = opened c m read write

structure Sound (p : Process) : Prop where
  ledger : after ∅ p.log = some (holding p)
  settled : p.todo = [] → Whole p.source ∧ holding p = (handles p.source).toFinset
  reached : Possible p .callback → ∃ c m fd, touches p.source = [.context c,.mainloop m,.descriptor fd] ∧
    .context c ∈ holding p ∧ .mainloop m ∈ holding p ∧ .descriptor fd ∈ holding p

-- While a callback may run, what it reaches is there.
def Reaches (l : List Handle) (source : Source) : Prop :=
  ∃ c m fd, touches source = [.context c,.mainloop m,.descriptor fd] ∧ .context c ∈ l ∧ .mainloop m ∈ l ∧ .descriptor fd ∈ l

def Touchable (l : List Handle) (source : Source) : Prop :=
  ∀ m c, .thread m ∈ l → .free m ∈ l → .listening c ∈ l → Reaches l source

-- What is left to do is right from here on, whenever a callback comes.
inductive Safe : List Handle → Source → List Action → Prop
  | done {l : List Handle} {source : Source} (same : l.Perm (handles source)) (whole : Whole source) : Safe l source []
  | calls {l next : List Handle} {source : Source} {op : Op Handle} {todo : List Action} (touch : Touchable l source)
      (moves : Moves l [op] next) (rest : Safe next source todo) : Safe l source (.call op :: todo)
  | stores {l : List Handle} {source new : Source} {todo : List Action} (touch : Touchable l source)
      (rest : Safe l new todo) : Safe l source (.store new :: todo)
  | reenters {l : List Handle} {source : Source} {todo : List Action} (touch : Touchable l source)
      (reach : ∀ handle ∈ touches source, handle ∈ l) (rest : Safe l source todo) : Safe l source (.reentered :: todo)

variable {l : List Handle} {source : Source} {todo : List Action} {c m read write : Nat}

-- No thread, no callbacks, or the lock not free.
theorem Touchable.of_quiet (quiet : ∀ m c, .thread m ∈ l → .free m ∈ l → .listening c ∉ l) : Touchable l source :=
  fun m c thread free listening => absurd listening (quiet m c thread free)

theorem Safe.uses {handle : Handle} (touch : Touchable l source) (held : handle ∈ l) (rest : Safe l source todo) :
    Safe l source (.call (.uses handle) :: todo) :=
  .calls touch (.uses fun _ listed => ⟨handle,held,List.mem_singleton.mp listed⟩) rest

theorem Safe.guards {started : Bool} (touch : Touchable l source) (lock : (if started then .held m else .idle m) ∈ l)
    (context : .context c ∈ l) (rest : Safe l source todo) : Safe l source (guarded started m c ++ todo) :=
  .uses touch lock (.uses touch context rest)

theorem Safe.touchable (safe : Safe l source todo) : Touchable l source := by
  cases safe with
  | calls touch _ _ => exact touch
  | stores touch _ => exact touch
  | reenters touch _ _ => exact touch
  | done same whole =>
    rcases whole with rfl | ⟨c,m,read,write,rfl⟩
    · rw [List.perm_nil.mp same]
      exact .of_quiet (by simp)
    · intro _ _ _ _ _
      exact ⟨c,m,write,rfl,same.mem_iff.mpr (by simp [opened,handles]),same.mem_iff.mpr (by simp [opened,handles]),
        same.mem_iff.mpr (by simp [opened,handles])⟩

-- What is held beside the lock once there is a thread.
def session (c m read write : Nat) : List Handle :=
  [.thread m,.listening c,.context c,.mainloop m,.descriptor read,.descriptor write]

theorem opened_touchable : Touchable (.free m :: session c m read write) (opened c m read write) := by
  intro _ _ _ _ _
  exact ⟨c,m,write,rfl,by simp [session],by simp [session],by simp [session]⟩

theorem locked_touchable : Touchable (.held m :: session c m read write) source :=
  .of_quiet (by simp [session])

theorem between_touchable : Touchable (session c m read write) source :=
  .of_quiet (by simp [session])

theorem locks (rest : Safe (.held m :: session c m read write) (opened c m read write) todo) :
    Safe (.free m :: session c m read write) (opened c m read write) (lock m ++ todo) :=
  .calls opened_touchable .closes (.calls between_touchable (.opens (by simp [session])) rest)

theorem unlocks (rest : Safe (.free m :: session c m read write) (opened c m read write) todo) :
    Safe (.held m :: session c m read write) (opened c m read write) (unlock m ++ todo) :=
  .calls locked_touchable .closes (.calls between_touchable (.opens (by simp [session])) rest)

theorem guards (rest : Safe (.held m :: session c m read write) (opened c m read write) todo) :
    Safe (.held m :: session c m read write) (opened c m read write) (guarded true m c ++ todo) :=
  .guards locked_touchable (by simp) (by simp [session]) rest

theorem stays : Safe (.free m :: session c m read write) (opened c m read write) [] :=
  .done (.refl _) (.inr ⟨c,m,read,write,rfl⟩)

-- close_source, from the pipe up.
theorem pipe_closes : Safe [.descriptor read,.descriptor write] ⟨none,none,some read,some write,false⟩
    (closePipe ⟨none,none,some read,some write,false⟩) :=
  .calls (.of_quiet (by simp)) .closes (.stores (.of_quiet (by simp))
    (.calls (.of_quiet (by simp)) .closes (.stores (.of_quiet (by simp)) (.done .nil (.inl rfl)))))

theorem mainloop_closes : Safe [.idle m,.mainloop m,.descriptor read,.descriptor write]
    ⟨none,some m,some read,some write,false⟩ (free ⟨none,some m,some read,some write,false⟩ ++
      closePipe ⟨none,none,some read,some write,false⟩) :=
  .calls (.of_quiet (by simp)) .closes (.calls (.of_quiet (by simp)) .closes
    (.stores (.of_quiet (by simp)) pipe_closes))

theorem context_closes : Safe [.context c,.idle m,.mainloop m,.descriptor read,.descriptor write]
    ⟨some c,some m,some read,some write,false⟩ (unref ⟨some c,some m,some read,some write,false⟩ ++
      (free ⟨none,some m,some read,some write,false⟩ ++ closePipe ⟨none,none,some read,some write,false⟩)) :=
  .uses (.of_quiet (by simp)) (by simp) (.calls (.of_quiet (by simp)) .closes
    (.stores (.of_quiet (by simp)) mainloop_closes))

theorem listening_closes : Safe [.listening c,.context c,.idle m,.mainloop m,.descriptor read,.descriptor write]
    ⟨some c,some m,some read,some write,false⟩ (closeSource ⟨some c,some m,some read,some write,false⟩) :=
  .guards (.of_quiet (by simp)) (by simp) (by simp) (.guards (.of_quiet (by simp)) (by simp) (by simp)
    (.guards (.of_quiet (by simp)) (by simp) (by simp) (.calls (.of_quiet (by simp)) .closes context_closes)))

-- Without the callbacks the lock is given back and the thread ends.
theorem deaf_closes : Safe [.held m,.thread m,.context c,.mainloop m,.descriptor read,.descriptor write]
    (opened c m read write) (unlock m ++ (stop (opened c m read write) ++
      (unref ⟨some c,some m,some read,some write,false⟩ ++ (free ⟨none,some m,some read,some write,false⟩ ++
        closePipe ⟨none,none,some read,some write,false⟩)))) := by
  refine .calls (.of_quiet (by simp)) .closes (.calls (.of_quiet (by simp)) (.opens (by simp)) ?_)
  refine .calls (.of_quiet (by simp)) (.drops [Handle.free m]) (.calls (.of_quiet (by simp)) .closes ?_)
  exact .calls (.of_quiet (by simp)) ((Moves.opens (by simp)).shuffled (.swap _ _ _))
    (.stores (.of_quiet (by simp)) context_closes)

theorem opened_closes : Safe (.free m :: session c m read write) (opened c m read write)
    (closeSource (opened c m read write)) :=
  locks (guards (guards (guards (.calls locked_touchable (.drops [Handle.held m,.thread m]) deaf_closes))))

theorem whole_closes (whole : Whole source) : Safe (handles source) source (closeSource source) := by
  rcases whole with rfl | ⟨c,m,read,write,rfl⟩
  · exact .done .nil (.inl rfl)
  · exact opened_closes

-- lopen, from the wait for the context up. The induction is on how often it waits.
theorem awaits (turns : Nat) (rest : Safe (.held m :: session c m read write) (opened c m read write) todo) :
    Safe (.held m :: session c m read write) (opened c m read write) (await m c turns ++ todo) := by
  induction turns with
  | zero => exact guards rest
  | succ turns ih =>
    rw [await,List.append_assoc,List.append_assoc,List.append_assoc]
    exact guards (unlocks (locks ih))

theorem starts (answers : Opening) : Safe [.listening c,.context c,.idle m,.mainloop m,.descriptor read,.descriptor write]
    ⟨some c,some m,some read,some write,false⟩ (start ⟨some c,some m,some read,some write,false⟩ m c answers) := by
  unfold start
  split
  · exact listening_closes
  · rw [List.append_assoc,List.append_assoc]
    refine .calls (.of_quiet (by simp)) (.drops [Handle.listening c,.context c]) ?_
    refine .calls (.of_quiet (by simp)) (.opens (by simp)) (.calls (.of_quiet (by simp)) (.opens (by simp)) ?_)
    have running : ∀ ended : List Action, Safe (.held m :: session c m read write) (opened c m read write) ended →
        Safe (.free m :: session c m read write) (opened c m read write) (lock m ++ (await m c answers.turns ++ ended)) :=
      fun _ rest => locks (awaits answers.turns rest)
    refine .stores ?_ (running _ ?_)
    · intro _ _ _ _ _
      exact ⟨c,m,write,rfl,by simp,by simp,by simp⟩
    · split
      · exact unlocks stays
      · rw [List.append_assoc]
        exact guards (unlocks opened_closes)

theorem connects (answers : Opening) : Safe [.context c,.idle m,.mainloop m,.descriptor read,.descriptor write]
    ⟨some c,some m,some read,some write,false⟩ (connect ⟨some c,some m,some read,some write,false⟩ m c answers) := by
  unfold connect
  rw [List.append_assoc,List.append_assoc,List.append_assoc]
  refine .guards (.of_quiet (by simp)) (by simp) (by simp) (.calls (.of_quiet (by simp)) (.opens (by simp)) ?_)
  refine .guards (.of_quiet (by simp)) (by simp) (by simp) (.reenters (.of_quiet (by simp)) (by simp [touches]) ?_)
  split
  · exact starts answers
  · exact .guards (.of_quiet (by simp)) (by simp) (by simp) listening_closes

theorem creates_context (answers : Opening) : Safe [.idle m,.mainloop m,.descriptor read,.descriptor write]
    ⟨none,some m,some read,some write,false⟩ (createContext ⟨none,some m,some read,some write,false⟩ m answers) := by
  refine .uses (.of_quiet (by simp)) (by simp) ?_
  cases answers.context with
  | none => exact mainloop_closes
  | some c =>
    exact .calls (.of_quiet (by simp)) (.opens (by simp)) (.stores (.of_quiet (by simp)) (connects answers))

theorem creates_mainloop (answers : Opening) : Safe [.descriptor read,.descriptor write]
    ⟨none,none,some read,some write,false⟩ (createMainloop ⟨none,none,some read,some write,false⟩ answers) := by
  unfold createMainloop
  cases answers.mainloop with
  | none => exact pipe_closes
  | some m =>
    exact .calls (.of_quiet (by simp)) (.opens (by simp)) (.calls (.of_quiet (by simp)) (.opens (by simp))
      (.stores (.of_quiet (by simp)) (creates_context answers)))

theorem opens (answers : Opening) (apart : ∀ read write, answers.pipe = some (read,write) → read ≠ write) :
    Safe [] zeroed (lopen answers) := by
  refine .stores (.of_quiet (by simp)) ?_
  cases piped : answers.pipe with
  | none => exact .done .nil (.inl rfl)
  | some ends =>
    obtain ⟨read,write⟩ := ends
    have distinct := apart read write piped
    exact .calls (.of_quiet (by simp)) (.opens (by simp)) (.calls (.of_quiet (by simp)) (.opens (by simp [distinct]))
      (.stores (.of_quiet (by simp)) (creates_mainloop answers)))

theorem polls (rest : Safe (.free m :: session c m read write) (opened c m read write) todo) :
    Safe (.free m :: session c m read write) (opened c m read write) (polled (opened c m read write) ++ todo) :=
  .uses opened_touchable (by simp [session]) rest

theorem looks (looked : Nat) (rest : Safe (.held m :: session c m read write) (opened c m read write) todo) :
    Safe (.held m :: session c m read write) (opened c m read write)
      ((List.replicate looked (guarded true m c)).flatten ++ todo) := by
  induction looked with
  | zero => exact rest
  | succ looked ih =>
    rw [List.replicate_succ,List.flatten_cons,List.append_assoc]
    exact guards ih

-- Every method from an open source or a closed one.
theorem body_safe (method : Method) (whole : Whole source)
    (fresh : ∀ answers, method = .open answers → source = zeroed ∧
      ∀ read write, answers.pipe = some (read,write) → read ≠ write) :
    Safe (handles source) source (body source method) := by
  cases method with
  | «open» answers =>
    obtain ⟨rfl,apart⟩ := fresh answers rfl
    exact opens answers apart
  | close => exact whole_closes whole
  | snapshot =>
    rcases whole with rfl | ⟨c,m,read,write,rfl⟩
    · exact .done .nil (.inl rfl)
    · exact locks (unlocks stays)
  | wait answered changed looked =>
    rcases whole with rfl | ⟨c,m,read,write,rfl⟩
    · exact .done .nil (.inl rfl)
    · simp only [body,opened,List.append_assoc]
      have waited : Safe (.free m :: session c m read write) (opened c m read write)
          (lock m ++ ((List.replicate looked (guarded true m c)).flatten ++ unlock m)) :=
        locks (looks looked (unlocks stays))
      refine polls ?_
      split
      · split
        · exact polls waited
        · exact waited
      · exact stays
  | dispatch available failed =>
    rcases whole with rfl | ⟨c,m,read,write,rfl⟩
    · exact .done .nil (.inl rfl)
    · simp only [body,opened,List.append_assoc]
      refine locks ?_
      split
      · rw [List.append_assoc]
        refine guards ?_
        split
        · exact guards (unlocks stays)
        · exact unlocks stays
      · exact unlocks stays

structure Invariant (p : Process) (l : List Handle) : Prop where
  distinct : l.Nodup
  ledger : after ∅ p.log = some l.toFinset
  safe : Safe l p.source p.todo

variable {p : Process} {event : Event}

theorem Invariant.holding (kept : Invariant p l) : holding p = l.toFinset := by
  rw [AudioResources.holding,kept.ledger,Option.getD_some]

theorem Invariant.reaches (kept : Invariant p l) (possible : Possible p .callback) : Reaches l p.source := by
  obtain ⟨m,c,thread,free,listening⟩ := possible
  rw [kept.holding,List.mem_toFinset] at thread free listening
  exact kept.safe.touchable m c thread free listening

theorem Reaches.all (reaches : Reaches l source) : ∀ handle ∈ touches source, handle ∈ l := by
  obtain ⟨c,m,fd,touched,context,mainloop,descriptor⟩ := reaches
  simp [touched,context,mainloop,descriptor]

theorem Invariant.logged {ops : List (Op Handle)} {next : List Handle} {source : Source} {todo : List Action}
    (kept : Invariant p l) (moves : Moves l ops next) (safe : Safe next source todo) :
    Invariant ⟨source,todo,p.log ++ ops⟩ next := by
  obtain ⟨came,distinct⟩ := moves.holds kept.distinct
  exact ⟨distinct,after_append kept.ledger came,safe⟩

theorem used_moves (reach : ∀ handle ∈ touches p.source, handle ∈ l) : Moves l (used p) l := by
  refine .uses fun op listed => ?_
  obtain ⟨handle,touched,rfl⟩ := List.mem_map.mp listed
  exact ⟨handle,reach handle touched,rfl⟩

theorem Invariant.advance (kept : Invariant p l) : ∃ next, Invariant (advance p) next := by
  obtain ⟨source,todo,log⟩ := p
  have distinct := kept.distinct
  have ledger := kept.ledger
  cases kept.safe with
  | done same whole => exact ⟨l,kept⟩
  | stores touch rest => exact ⟨l,distinct,ledger,rest⟩
  | calls touch moves rest => exact ⟨_,kept.logged moves rest⟩
  | reenters touch reach rest => exact ⟨l,kept.logged (used_moves reach) rest⟩

theorem Invariant.invoked (kept : Invariant p l) (method : Method) (idle : p.todo = [])
    (fresh : ∀ answers, method = .open answers → p.source = zeroed ∧
      ∀ read write, answers.pipe = some (read,write) → read ≠ write) :
    Invariant (apply p (.invoke method)) (handles p.source) := by
  obtain ⟨source,todo,log⟩ := p
  obtain rfl : todo = [] := idle
  cases kept.safe with
  | done same whole =>
    exact ⟨same.nodup_iff.mp kept.distinct,kept.ledger.trans (congrArg some (List.toFinset_eq_of_perm _ _ same)),
      body_safe method whole fresh⟩

theorem invariant_step (p : Process) (event : Event) (kept : ∃ l, Invariant p l) (possible : Possible p event) :
    ∃ l, Invariant (apply p event) l := by
  obtain ⟨l,kept⟩ := kept
  cases event with
  | advance => exact kept.advance
  | callback => exact ⟨l,kept.logged (used_moves (kept.reaches possible).all) kept.safe⟩
  | invoke method =>
    cases method with
    | «open» answers =>
      refine ⟨_,kept.invoked _ possible.1 fun given same => ?_⟩
      cases same
      exact possible.2
    | close => exact ⟨_,kept.invoked _ possible (fun _ same => by cases same)⟩
    | snapshot => exact ⟨_,kept.invoked _ possible (fun _ same => by cases same)⟩
    | wait answered changed looked => exact ⟨_,kept.invoked _ possible (fun _ same => by cases same)⟩
    | dispatch available failed => exact ⟨_,kept.invoked _ possible (fun _ same => by cases same)⟩

theorem boot_invariant : Invariant boot [] := ⟨List.nodup_nil,rfl,.done .nil (.inl rfl)⟩

theorem Invariant.sound (kept : Invariant p l) : Sound p where
  ledger := by
    rw [kept.holding]
    exact kept.ledger
  settled idle := by
    have safe := kept.safe
    rw [idle] at safe
    cases safe with
    | done same whole => exact ⟨whole,kept.holding.trans (List.toFinset_eq_of_perm _ _ same)⟩
  reached possible := by
    obtain ⟨c,m,fd,touched,context,mainloop,descriptor⟩ := kept.reaches possible
    rw [kept.holding]
    exact ⟨c,m,fd,touched,by simpa using context,by simpa using mainloop,by simpa using descriptor⟩

-- Whatever the calls answer and whenever callbacks come, nothing is used that
-- is not held, nothing is called without the lock, and a method that is done
-- leaves either an open source or none.
theorem audio_run_sound (events : List Event) (possible : Runs.Each apply Possible boot events) :
    Runs.Throughout apply Sound boot events :=
  Runs.throughout_imp (fun _ ⟨_,kept⟩ => kept.sound)
    (Runs.throughout_invariant invariant_step ⟨[],boot_invariant⟩ possible)

theorem advances_possible (count : Nat) : Runs.Each apply Possible p (List.replicate count .advance) := by
  induction count generalizing p with
  | zero => trivial
  | succ count ih => exact ⟨trivial,ih⟩

def advances (count : Nat) : List Event := List.replicate count .advance

def asked : Opening := ⟨some (5,6),some 1,some 2,true,true,1,true⟩

-- A callback while lopen waits, one between two methods, and the close.
def listened : List Event :=
  .invoke (.open asked) :: (advances 26 ++ .callback :: (advances 6 ++ .invoke .snapshot :: (advances 4 ++
    .callback :: .invoke (.dispatch true true) :: (advances 8 ++ .invoke .close :: advances 25))))

theorem listened_sound : Runs.Throughout apply Sound boot listened := by
  refine audio_run_sound listened ⟨⟨rfl,rfl,fun read write given => ?_⟩,?_⟩
  · cases given
    decide
  refine Runs.each_append (advances_possible 26) ⟨⟨1,2,by decide,by decide,by decide⟩,?_⟩
  refine Runs.each_append (advances_possible 6) ⟨rfl,?_⟩
  refine Runs.each_append (advances_possible 4) ⟨⟨1,2,by decide,by decide,by decide⟩,rfl,?_⟩
  exact Runs.each_append (advances_possible 8) ⟨rfl,advances_possible 25⟩

-- The run ends with nothing held.
example : holding (Runs.final apply boot listened) = ∅ := by decide +kernel

end Hypringo.AudioResources

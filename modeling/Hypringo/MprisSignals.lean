import Hypringo.MprisService
import Hypringo.PlayerSelection
import Hypringo.Runs

namespace Hypringo.MprisSignals
open Hypringo.Lua Hypringo.Configuration Mpris PlayerSelection Selection

def playerInterface : Bytes := text "org.mpris.MediaPlayer2.Player"

def isRelevantProperty (property : Bytes) : Bool :=
  property == text "Metadata" || property == text "PlaybackStatus" || property == text "CanControl" ||
    property == text "CanGoNext" || property == text "CanGoPrevious" || property == text "CanPause" ||
    property == text "CanPlay"

-- The strings of an array as far as they can be read, and whether reading fails.
structure Names where
  names : List Bytes
  broken : Bool
  deriving DecidableEq, Repr

-- The messages of the session bus: the two kinds matched, by what their
-- handlers read, and those no handler takes.
inductive Signal where
  | nameOwnerChanged (name : Option Bytes)
  | propertiesChanged (interface : Option Bytes) (changed invalidated : Names)
  | other
  deriving DecidableEq, Repr

def nameOwnerChanged (dirty : Bool) : Option Bytes → Bool
  | some name => if isMprisName name then true else dirty
  | none => dirty

-- An interface that cannot be read, or is another one, leaves the flag alone.
def propertiesChanged (dirty : Bool) (interface : Option Bytes) (changed invalidated : Names) : Bool :=
  if interface = some playerInterface then
    let relevant := changed.names.any isRelevantProperty ||
      (!changed.broken && invalidated.names.any isRelevantProperty)
    dirty || relevant || (changed.broken || invalidated.broken)
  else dirty

def received (dirty : Bool) : Signal → Bool
  | .nameOwnerChanged name => nameOwnerChanged dirty name
  | .propertiesChanged interface changed invalidated => propertiesChanged dirty interface changed invalidated
  | .other => dirty

-- The names ListNames gives, and what the owner of each answers.
structure Bus where
  names : List Bytes
  answers : Bytes → Replies
  distinct : names.Nodup

def Bus.listing (bus : Bus) : Listing := .names (bus.names.map fun name => (name,bus.answers name)) none

-- The patch of a snapshot that sees the bus as it is.
def shown (bus : Bus) : MprisService.Patch := ⟨true,(snapshot opened bus.listing).2⟩

-- What the player interface announces of a player: all that is read of it but
-- the identity.
inductive Property where
  | metadata
  | playbackStatus
  | canControl
  | canGoNext
  | canGoPrevious
  | canPause
  | canPlay
  deriving DecidableEq, Repr

def Property.name : Property → Bytes
  | .metadata => text "Metadata"
  | .playbackStatus => text "PlaybackStatus"
  | .canControl => text "CanControl"
  | .canGoNext => text "CanGoNext"
  | .canGoPrevious => text "CanGoPrevious"
  | .canPause => text "CanPause"
  | .canPlay => text "CanPlay"

def Property.Same (left right : Replies) : Property → Prop
  | .metadata => left.metadata = right.metadata
  | .playbackStatus => left.status = right.status
  | .canControl => left.canControl = right.canControl
  | .canGoNext => left.canGoNext = right.canGoNext
  | .canGoPrevious => left.canGoPrevious = right.canGoPrevious
  | .canPause => left.canPause = right.canPause
  | .canPlay => left.canPlay = right.canPlay

-- How players behave on a bus. The bus announces each name that changes hands;
-- an owner that stays keeps its identity and announces the properties it
-- changes, by value or as invalidated.
structure Announced (before after : Bus) (signals : List Signal) : Prop where
  owners : ∀ name, isMprisName name = true →
    (name ∈ before.names ↔ name ∈ after.names) ∨ .nameOwnerChanged (some name) ∈ signals
  properties : ∀ name ∈ before.names, isMprisName name = true →
    .nameOwnerChanged (some name) ∈ signals ∨
      (before.answers name).identity = (after.answers name).identity ∧
      ∀ property : Property, property.Same (before.answers name) (after.answers name) ∨
        ∃ changed invalidated, .propertiesChanged (some playerInterface) changed invalidated ∈ signals ∧
          property.name ∈ changed.names ++ invalidated.names

-- A snapshot makes one call after another. Each is answered as the bus stood at
-- some moment since the snapshot began.
structure Answered (since : List Bus) (name : Bytes) (replies : Replies) : Prop where
  identity : ∃ bus ∈ since, replies.identity = (bus.answers name).identity
  properties : ∀ property : Property, ∃ bus ∈ since, property.Same replies (bus.answers name)

def Observed (since : List Bus) (listing : Listing) : Prop :=
  ∃ entries, listing = .names entries none ∧ (∃ bus ∈ since, entries.map Prod.fst = bus.names) ∧
    ∀ entry ∈ entries, Answered since entry.1 entry.2

-- Where lsource_wait stands: in process_bus, in poll, or in process_bus again
-- with what poll said of the wake descriptor and of the bus.
inductive Stage where
  | processing
  | blocked
  | returning (wakeReady hangup : Bool)
  deriving DecidableEq, Repr

-- `socket` holds what was sent to this end and not yet read by the library,
-- `rqueue` what the library has read and not yet dispatched. `since` and
-- `answered` are what the calls of the last snapshot met.
structure System where
  bus : Bus
  since : List Bus
  socket : List Signal
  rqueue : List Signal
  dirty : Bool
  stage : Stage
  answered : Bool
  service : MprisService.Service

def boot (config : Reconnecting) (bus : Bus) : System := ⟨bus,[bus],[],[],false,.processing,false,MprisService.start config⟩

inductive Polled where
  | unavailable
  | failed (error : Bytes)
  | ready (wakeReady hangup : Bool)
  deriving DecidableEq, Repr

-- A negative result of sd_bus_process comes with its text, when that could be
-- copied.
inductive Event where
  | change (after : Bus) (signals : List Signal)
  | read
  | process
  | processed (failure : Option (Option Bytes))
  | poll (outcome : Polled)
  | idle (outcome : Except Bytes Unit)
  | greet (listing : Listing) (answered : Bool)
  | resume (listing : Listing) (answered : Bool)
  | retry (wakeup : MprisService.Wakeup)
  | reload (config : Reconnecting)
  | quit

def connected (s : System) : Bool := s.service.source.isSome

def waiting (s : System) : Bool := decide (s.service.control = .polling)

def inPoll (s : System) : Bool := waiting s && decide (s.stage = .blocked)

-- The return of lsource_wait, after which a snapshot may begin.
def reply (s : System) (answer : MprisService.Reply) (dirty : Bool) : System :=
  { s with
    since := [s.bus]
    dirty := dirty
    stage := .processing
    service := MprisService.apply s.service (.wait answer) }

def lost (s : System) (message : Bytes) : System := reply s ⟨false,false,true,some message⟩ s.dirty

def processed (s : System) (failure : Option (Option Bytes)) : System :=
  match s.stage,failure with
  | .processing,some message => lost s (message.getD (text "MPRIS bus processing failed"))
  | .processing,none => if s.dirty then reply s ⟨true,false,false,none⟩ false else { s with stage := .blocked }
  | .returning wakeReady hangup,failure => reply s ⟨s.dirty,wakeReady,failure.isSome || hangup,failure.join⟩ false
  | .blocked,_ => s

def poll (s : System) : Polled → System
  | .unavailable => lost s (text "MPRIS session bus is unavailable")
  | .failed error => lost s (text "MPRIS poll failed: " ++ error)
  | .ready wakeReady hangup => { s with stage := .returning wakeReady hangup }

-- A source opened anew has seen no message and starts dirty.
def idle (s : System) (outcome : Except Bytes Unit) : System :=
  let service := MprisService.apply s.service (.idle outcome)
  if service.control = .greeting ∧ s.service.control ≠ .greeting then
    { s with since := [s.bus], socket := [], rqueue := [], dirty := true, stage := .processing, service := service }
  else { s with stage := .processing, service := service }

-- Whether a snapshot is still to be taken, or under way.
def gathering : MprisService.Control → Bool
  | .greeting => true
  | .woken answer => answer.changed
  | _ => false

def apply (s : System) : Event → System
  | .change after signals =>
    { s with
      bus := after
      since := s.since ++ [after]
      socket := if connected s then s.socket ++ signals else s.socket }
  | .read =>
    if inPoll s then s
    else match s.socket with
      | [] => s
      | signal :: rest => { s with socket := rest, rqueue := s.rqueue ++ [signal] }
  | .process =>
    if waiting s && !inPoll s then match s.rqueue with
      | [] => s
      | signal :: rest => { s with rqueue := rest, dirty := received s.dirty signal }
    else s
  | .processed failure => if waiting s then processed s failure else s
  | .poll outcome => if inPoll s then poll s outcome else s
  | .idle outcome => if s.service.control = .rest then idle s outcome else s
  | .greet listing answered =>
    if s.service.control = .greeting then
      { s with stage := .processing, answered := answered, service := MprisService.apply s.service (.greet listing) }
    else s
  | .resume listing answered => match s.service.control with
    | .woken answer =>
      { s with
        answered := if answer.changed then answered else s.answered
        service := MprisService.apply s.service (.resume listing) }
    | _ => s
  | .retry wakeup => { s with service := MprisService.apply s.service (.retry wakeup) }
  | .reload config => { s with service := MprisService.apply s.service (.reload config) }
  | .quit => { s with service := MprisService.apply s.service .quit }

def marks (signal : Signal) : Bool := received false signal

-- The library returns zero when it has nothing left to dispatch.
def Possible (s : System) : Event → Prop
  | .change after signals => connected s = true → Announced s.bus after signals
  | .processed failure => failure = none → s.rqueue = []
  | .greet listing answered => answered = true → Observed s.since listing
  | .resume listing answered => answered = true → Observed s.since listing
  | _ => True

-- Nothing that was sent says that players may have changed.
def Quiet (s : System) : Prop := s.dirty = false ∧ ∀ signal ∈ s.rqueue ++ s.socket, marks signal = false

-- The wait never blocks with something to report, and once every message is
-- read, what was published last is what the players answer now.
structure Followed (s : System) : Prop where
  drained : inPoll s = true → s.rqueue = [] ∧ s.dirty = false
  current : connected s = true → gathering s.service.control = false → s.answered = true → Quiet s →
    s.service.sent.getLast? = some (shown s.bus)

theorem received_marks (dirty : Bool) (signal : Signal) : received dirty signal = (dirty || marks signal) := by
  cases signal with
  | nameOwnerChanged name =>
    cases name with
    | none => simp [received,marks,nameOwnerChanged]
    | some name => cases mpris : isMprisName name <;> simp [received,marks,nameOwnerChanged,mpris]
  | propertiesChanged interface changed invalidated =>
    by_cases own : interface = some playerInterface
    · simp [received,marks,propertiesChanged,own,Bool.or_assoc]
    · simp [received,marks,propertiesChanged,own]
  | other => simp [received,marks]

theorem relevant_name (property : Property) : isRelevantProperty property.name = true := by
  cases property <;> decide

theorem marks_owner {name : Bytes} (mpris : isMprisName name = true) : marks (.nameOwnerChanged (some name)) = true := by
  simp [marks,received,nameOwnerChanged,mpris]

theorem marks_property {property : Property} {changed invalidated : Names}
    (listed : property.name ∈ changed.names ++ invalidated.names) :
    marks (.propertiesChanged (some playerInterface) changed invalidated) = true := by
  -- Where the first array breaks off, the second is not read and need not be.
  cases broken : changed.broken with
  | true => simp [marks,received,propertiesChanged,broken]
  | false =>
    have relevant : (changed.names ++ invalidated.names).any isRelevantProperty = true :=
      List.any_eq_true.mpr ⟨property.name,listed,relevant_name property⟩
    rw [List.any_append] at relevant
    simp [marks,received,propertiesChanged,broken,relevant]

-- Two moments of a bus that no snapshot can tell apart.
structure SamePlayers (one two : Bus) : Prop where
  owned : ∀ name, isMprisName name = true → (name ∈ one.names ↔ name ∈ two.names)
  answers : ∀ name ∈ one.names, isMprisName name = true → one.answers name = two.answers name

theorem SamePlayers.refl (bus : Bus) : SamePlayers bus bus := ⟨fun _ _ => Iff.rfl,fun _ _ _ => rfl⟩

theorem SamePlayers.trans {one two three : Bus} (first : SamePlayers one two) (second : SamePlayers two three) :
    SamePlayers one three where
  owned name mpris := (first.owned name mpris).trans (second.owned name mpris)
  answers name listed mpris := (first.answers name listed mpris).trans
    (second.answers name ((first.owned name mpris).mp listed) mpris)

theorem replies_same {left right : Replies} (identity : left.identity = right.identity)
    (properties : ∀ property : Property, property.Same left right) : left = right := by
  obtain ⟨status,name,metadata,control,next,previous,pause,play⟩ := left
  obtain ⟨_,_,_,_,_,_,_,_⟩ := right
  cases identity
  cases properties .playbackStatus
  cases properties .metadata
  cases properties .canControl
  cases properties .canGoNext
  cases properties .canGoPrevious
  cases properties .canPause
  cases properties .canPlay
  rfl

-- A change that no message marks is one no snapshot sees.
theorem announced_same {before after : Bus} {signals : List Signal} (announced : Announced before after signals)
    (unmarked : ∀ signal ∈ signals, marks signal = false) : SamePlayers before after := by
  have unannounced : ∀ name, isMprisName name = true → .nameOwnerChanged (some name) ∉ signals := by
    intro name mpris sent
    exact absurd (unmarked _ sent) (by simp [marks_owner mpris])
  refine ⟨?_,?_⟩
  · intro name mpris
    exact (announced.owners name mpris).resolve_right (unannounced name mpris)
  · intro name listed mpris
    obtain ⟨identity,properties⟩ := (announced.properties name listed mpris).resolve_left (unannounced name mpris)
    refine replies_same identity fun property => (properties property).resolve_right ?_
    rintro ⟨changed,invalidated,sent,among⟩
    exact absurd (unmarked _ sent) (by simp [marks_property among])

theorem answered_same {since : List Bus} {bus : Bus} (same : ∀ moment ∈ since, SamePlayers moment bus) {name : Bytes}
    {replies : Replies} (mpris : isMprisName name = true) (listed : name ∈ bus.names) (answered : Answered since name replies) :
    replies = bus.answers name := by
  have alike : ∀ moment ∈ since, moment.answers name = bus.answers name := fun moment met =>
    (same moment met).answers name (((same moment met).owned name mpris).mpr listed) mpris
  obtain ⟨moment,met,identity⟩ := answered.identity
  refine replies_same (by rw [identity,alike moment met]) fun property => ?_
  obtain ⟨moment,met,agrees⟩ := answered.properties property
  rw [alike moment met] at agrees
  exact agrees

-- A snapshot all of whose moments look the same sees the bus as it is, in
-- whatever order the names are listed.
theorem observed_select {since : List Bus} {bus : Bus} {listing : Listing} (observed : Observed since listing)
    (same : ∀ moment ∈ since, SamePlayers moment bus) : selectPlayer listing = selectPlayer bus.listing := by
  obtain ⟨entries,rfl,⟨first,met,names⟩,answered⟩ := observed
  have among : ∀ entry ∈ entries, entry.1 ∈ first.names := fun entry listed =>
    names ▸ List.mem_map_of_mem listed
  have own : ∀ entry ∈ entries.filter fun entry => isMprisName entry.1, entry = (entry.1,bus.answers entry.1) := by
    intro entry kept
    obtain ⟨listed,mpris⟩ := List.mem_filter.mp kept
    have here := ((same first met).owned entry.1 mpris).mp (among entry listed)
    exact Prod.ext rfl (answered_same same mpris here (answered entry listed))
  have seen : (entries.filter fun entry => isMprisName entry.1) =
      (first.names.filter isMprisName).map fun name => (name,bus.answers name) := by
    rw [← names,List.filter_map,List.map_map]
    exact (List.map_id _).symm.trans (List.map_congr_left own)
  have current : ((bus.names.map fun name => (name,bus.answers name)).filter fun entry => isMprisName entry.1) =
      (bus.names.filter isMprisName).map fun name => (name,bus.answers name) := List.filter_map
  have perm : (bus.names.filter isMprisName).Perm (first.names.filter isMprisName) := by
    refine (List.perm_ext_iff_of_nodup (bus.distinct.filter _) (first.distinct.filter _)).mpr fun name => ?_
    rw [List.mem_filter,List.mem_filter]
    exact and_congr_left fun mpris => ((same first met).owned name mpris).symm
  have distinct : Distinct (bus.names.map fun name => (name,bus.answers name)) := by
    rw [Distinct,List.map_map]
    exact (List.map_id _ ▸ bus.distinct : (bus.names.map id).Nodup).filter _
  have total : Total (ranked playerRank Player.busName) (candidates (bus.names.map fun name => (name,bus.answers name))) :=
    ranked_total (players_distinct distinct)
  rw [Bus.listing,selectPlayer_select,selectPlayer_select]
  refine congrArg _ (select_perm total ?_)
  rw [candidates_mpris entries,candidates_mpris (bus.names.map _),seen,current]
  exact (perm.map _).filterMap candidate

theorem snapshot_media {source : Source} (bus : source.bus = true) {one two : Listing}
    (same : selectPlayer one = selectPlayer two) : (snapshot source one).2 = (snapshot opened two).2 := by
  cases selected : selectPlayer two with
  | error error => simp [snapshot,bus,same,selected,opened]
  | ok player => cases player <;> simp [snapshot,bus,same,selected,opened]

theorem observed_now {since : List Bus} (bus : Bus) (met : bus ∈ since) : Observed since bus.listing := by
  refine ⟨_,rfl,⟨bus,met,by simp [Function.comp_def]⟩,?_⟩
  intro entry listed
  obtain ⟨name,-,rfl⟩ := List.mem_map.mp listed
  exact ⟨⟨bus,met,rfl⟩,fun property => ⟨bus,met,by cases property <;> rfl⟩⟩

theorem shown_same {one two : Bus} (same : SamePlayers one two) : shown one = shown two := by
  have selected := observed_select (observed_now one List.mem_cons_self) fun moment met => List.mem_singleton.mp met ▸ same
  exact congrArg (MprisService.Patch.mk true) (snapshot_media rfl selected)

structure Invariant (s : System) : Prop where
  bus : ∀ source, s.service.source = some source → source.bus = true
  drained : inPoll s = true → s.rqueue = [] ∧ s.dirty = false
  gathered : connected s = true → gathering s.service.control = true → Quiet s →
    ∀ moment ∈ s.since, SamePlayers moment s.bus
  current : connected s = true → gathering s.service.control = false → s.answered = true → Quiet s →
    s.service.sent.getLast? = some (shown s.bus)

theorem boot_invariant (config : Reconnecting) (bus : Bus) : Invariant (boot config bus) where
  bus source held := by cases held
  drained blocked := by cases blocked
  gathered open_ := by cases open_
  current open_ := by cases open_

variable {s : System}

theorem change_invariant {after : Bus} {signals : List Signal} (invariant : Invariant s)
    (possible : Possible s (.change after signals)) : Invariant (apply s (.change after signals)) := by
  -- Where nothing marked is on its way now, nothing was before, and what
  -- changed is nothing a snapshot sees.
  have quieter : connected s = true → Quiet (apply s (.change after signals)) → Quiet s ∧ SamePlayers s.bus after := by
    rintro held ⟨clean,unmarked⟩
    simp only [apply,held,if_true] at clean unmarked
    refine ⟨⟨clean,fun signal sent => unmarked signal ?_⟩,
      announced_same (possible held) fun signal sent => unmarked signal (by simp [sent])⟩
    rcases List.mem_append.mp sent with early | late
    · simp [early]
    · simp [late]
  refine ⟨invariant.bus,invariant.drained,?_,?_⟩
  · intro held gathers quiet moment met
    obtain ⟨before,same⟩ := quieter held quiet
    rcases List.mem_append.mp met with earlier | now
    · exact (invariant.gathered held gathers before moment earlier).trans same
    · cases List.mem_singleton.mp now
      exact .refl _
  · intro held settled answered quiet
    obtain ⟨before,same⟩ := quieter held quiet
    exact (invariant.current held settled answered before).trans (congrArg some (shown_same same))

-- A step that leaves the source, what was sent and the bus alone and makes
-- nothing quieter.
theorem Invariant.undisturbed {next : System} (invariant : Invariant s) (source : next.service.source = s.service.source)
    (sent : next.service.sent = s.service.sent) (control : gathering next.service.control = gathering s.service.control)
    (bus : next.bus = s.bus) (since : next.since = s.since) (answered : next.answered = s.answered)
    (quieter : Quiet next → Quiet s) (drained : inPoll next = true → next.rqueue = [] ∧ next.dirty = false) :
    Invariant next := by
  obtain ⟨opened,-,gathered,current⟩ := invariant
  have held : connected next = connected s := by rw [connected,connected,source]
  refine ⟨by rw [source]; exact opened,drained,?_,?_⟩
  · intro present gathers quiet
    rw [since,bus]
    exact gathered (held ▸ present) (control ▸ gathers) (quieter quiet)
  · intro present settled complete quiet
    rw [sent,bus]
    exact current (held ▸ present) (control ▸ settled) (answered ▸ complete) (quieter quiet)

-- Without a source there is nothing to follow.
theorem invariant_gone {next : System} (gone : next.service.source = none) (unblocked : inPoll next = false) :
    Invariant next := by
  have closed : connected next = false := by rw [connected,gone]; rfl
  refine ⟨fun source held => ?_,fun blocked => ?_,fun held => ?_,fun held => ?_⟩
  · rw [gone] at held
    cases held
  · rw [unblocked] at blocked
    cases blocked
  · rw [closed] at held
    cases held
  · rw [closed] at held
    cases held

theorem read_invariant (invariant : Invariant s) : Invariant (apply s .read) := by
  simp only [apply]
  split
  · exact invariant
  · rename_i free
    split
    · exact invariant
    · rename_i signal rest pending
      refine invariant.undisturbed rfl rfl rfl rfl rfl rfl ?_ (fun blocked => absurd blocked free)
      rintro ⟨clean,unmarked⟩
      refine ⟨clean,fun sent among => unmarked sent ?_⟩
      rw [pending] at among
      simpa [List.append_assoc] using among

theorem process_invariant (invariant : Invariant s) : Invariant (apply s .process) := by
  simp only [apply]
  split
  · rename_i running
    have free : inPoll s ≠ true := by
      intro blocked
      simp [blocked] at running
    split
    · exact invariant
    · rename_i signal rest pending
      refine invariant.undisturbed rfl rfl rfl rfl rfl rfl ?_ (fun blocked => absurd blocked free)
      rintro ⟨clean,unmarked⟩
      simp only [received_marks,Bool.or_eq_false_iff] at clean
      refine ⟨clean.1,fun sent among => ?_⟩
      rw [pending] at among
      rcases List.mem_cons.mp among with rfl | later
      · exact clean.2
      · exact unmarked sent later
  · exact invariant

-- The steps of the service's own model that a wait and a snapshot take.
theorem service_idle {service : MprisService.Service} (control : service.control = .rest) (outcome : Except Bytes Unit) :
    MprisService.apply service (.idle outcome) = MprisService.idle service outcome := by
  obtain ⟨_,_,source,_,_,_⟩ := service
  cases control
  rfl

theorem service_wait {service : MprisService.Service} {source : Mpris.Source} (control : service.control = .polling)
    (held : service.source = some source) (answer : MprisService.Reply) :
    MprisService.apply service (.wait answer) = { service with control := .woken answer } := by
  obtain ⟨_,_,_,_,_,_⟩ := service
  cases control
  cases held
  rfl

theorem service_greet {service : MprisService.Service} {source : Mpris.Source} (control : service.control = .greeting)
    (held : service.source = some source) (listing : Listing) :
    MprisService.apply service (.greet listing) = MprisService.greet service source listing := by
  obtain ⟨_,_,_,_,_,_⟩ := service
  cases control
  cases held
  rfl

theorem service_missing {service : MprisService.Service} (gone : service.source = none) :
    (∀ answer, service.control = .polling → MprisService.apply service (.wait answer) = service) ∧
      ∀ listing, service.control = .greeting → MprisService.apply service (.greet listing) = service := by
  obtain ⟨_,_,_,_,_,_⟩ := service
  cases gone
  constructor
  · intro answer control
    cases control
    rfl
  · intro listing control
    cases control
    rfl

theorem service_resume {service : MprisService.Service} {answer : MprisService.Reply}
    (control : service.control = .woken answer) (listing : Listing) :
    MprisService.apply service (.resume listing) = MprisService.resume service answer listing := by
  obtain ⟨_,_,_,_,_,_⟩ := service
  cases control
  rfl

theorem service_retry (service : MprisService.Service) (wakeup : MprisService.Wakeup) :
    MprisService.apply service (.retry wakeup) =
      if service.control = .retrying then MprisService.retry service wakeup else service := by
  obtain ⟨_,_,_,_,control,_⟩ := service
  cases control <;> rfl

-- A return that does not say that players changed has not taken the flag.
theorem reply_invariant (answer : MprisService.Reply) (dirty : Bool) (invariant : Invariant s)
    (control : s.service.control = .polling) (kept : answer.changed = false → dirty = false → s.dirty = false) :
    Invariant (reply s answer dirty) := by
  have settled : gathering s.service.control = false := by rw [control]; rfl
  have unblocked : inPoll (reply s answer dirty) ≠ true := by simp [inPoll,reply]
  cases held : s.service.source with
  | none =>
    have same : (reply s answer dirty).service = s.service := (service_missing held).1 answer control
    exact invariant_gone (by rw [same,held]) (Bool.eq_false_iff.mpr unblocked)
  | some source =>
    have woken : (reply s answer dirty).service = { s.service with control := .woken answer } :=
      service_wait control held answer
    refine ⟨?_,fun blocked => absurd blocked unblocked,?_,?_⟩
    · rw [woken]
      exact invariant.bus
    · intro _ _ _ moment met
      cases List.mem_singleton.mp met
      exact .refl _
    · intro _ unchanged complete quiet
      rw [woken] at unchanged ⊢
      have before : Quiet s := ⟨kept unchanged quiet.1,quiet.2⟩
      exact invariant.current (by rw [connected,held]; rfl) settled complete before

theorem processed_invariant {failure : Option (Option Bytes)} (invariant : Invariant s)
    (possible : Possible s (.processed failure)) : Invariant (apply s (.processed failure)) := by
  simp only [apply]
  split
  · rename_i waits
    have control : s.service.control = .polling := of_decide_eq_true waits
    unfold processed
    split
    · exact reply_invariant _ _ invariant control fun _ clean => clean
    · split
      · exact reply_invariant _ _ invariant control fun unchanged => by cases unchanged
      · rename_i clean
        exact invariant.undisturbed rfl rfl rfl rfl rfl rfl id fun _ => ⟨possible rfl,Bool.eq_false_iff.mpr clean⟩
    · exact reply_invariant _ _ invariant control fun unchanged _ => unchanged
    · exact invariant
  · exact invariant

theorem poll_invariant (outcome : Polled) (invariant : Invariant s) : Invariant (apply s (.poll outcome)) := by
  simp only [apply]
  split
  · rename_i blocked
    have control : s.service.control = .polling := of_decide_eq_true (Bool.and_eq_true_iff.mp blocked).1
    cases outcome with
    | unavailable => exact reply_invariant _ _ invariant control fun _ clean => clean
    | failed error => exact reply_invariant _ _ invariant control fun _ clean => clean
    | ready wakeReady hangup =>
      exact invariant.undisturbed rfl rfl rfl rfl rfl rfl id fun returned => by simp [inPoll,poll] at returned
  · exact invariant

theorem idle_invariant (outcome : Except Bytes Unit) (invariant : Invariant s) : Invariant (apply s (.idle outcome)) := by
  simp only [apply]
  split
  · rename_i control
    have shape := service_idle control outcome
    cases stopping : s.service.stopping with
    | true =>
      have same : MprisService.idle s.service outcome = s.service := by simp [MprisService.idle,stopping]
      simp only [idle,shape,same,control]
      exact invariant.undisturbed rfl rfl rfl rfl rfl rfl id fun blocked => by simp [inPoll] at blocked
    | false =>
      cases held : s.service.source with
      | some source =>
        have polling : MprisService.idle s.service outcome = { s.service with control := .polling } := by
          simp [MprisService.idle,stopping,held]
        simp only [idle,shape,polling]
        exact invariant.undisturbed rfl rfl (by rw [control]; rfl) rfl rfl rfl id fun blocked => by simp [inPoll] at blocked
      | none =>
        cases outcome with
        | error message =>
          refine invariant_gone ?_ ?_
          · simp [idle,shape,MprisService.idle,stopping,held,MprisService.disconnect,MprisService.publish]
          · simp [idle,shape,MprisService.idle,stopping,held,inPoll]
        | ok opened =>
          -- The source is new: nothing has reached it, and its snapshot begins.
          have greeting : MprisService.idle s.service (.ok opened) =
              { s.service with source := some Mpris.opened, control := .greeting } := by
            simp [MprisService.idle,stopping,held]
          simp only [idle,shape,greeting,control]
          refine ⟨?_,fun blocked => by simp [inPoll,waiting] at blocked,?_,fun _ settled => by cases settled⟩
          · intro source same
            cases same
            rfl
          · intro _ _ _ moment met
            cases List.mem_singleton.mp met
            exact .refl _
  · exact invariant

-- The end of a snapshot: what is published is what the players answer now, if
-- all calls were answered and nothing has been announced since.
theorem publish_current {listing : Listing} {answered : Bool} {source : Mpris.Source} (invariant : Invariant s)
    (held : s.service.source = some source) (gathers : gathering s.service.control = true)
    (possible : answered = true → Observed s.since listing) (complete : answered = true) (quiet : Quiet s) :
    (MprisService.publishSnapshot s.service source listing).sent.getLast? = some (shown s.bus) := by
  have same := invariant.gathered (by rw [connected,held]; rfl) gathers quiet
  have media := snapshot_media (invariant.bus source held) (observed_select (possible complete) same)
  simp [MprisService.publishSnapshot,MprisService.publish,shown,media]

theorem greet_invariant {listing : Listing} {answered : Bool} (invariant : Invariant s)
    (possible : Possible s (.greet listing answered)) : Invariant (apply s (.greet listing answered)) := by
  simp only [apply]
  split
  · rename_i control
    cases held : s.service.source with
    | none =>
      have same := (service_missing held).2 listing control
      exact invariant_gone (by rw [same,held]) (by simp [inPoll])
    | some source =>
      have greeted := service_greet control held listing
      refine ⟨?_,fun blocked => by simp [inPoll] at blocked,?_,?_⟩
      · intro next same
        rw [greeted] at same
        cases same
        exact snapshot_open (invariant.bus source held) listing
      · intro _ gathers
        rw [greeted] at gathers
        cases gathers
      · intro _ _ complete quiet
        rw [greeted]
        exact publish_current invariant held (by rw [control]; rfl) possible complete quiet
  · exact invariant

theorem disconnect_source (service : MprisService.Service) (message : Bytes) :
    (MprisService.disconnect service message).source = none := by
  simp only [MprisService.disconnect]
  split
  · rfl
  · rfl

-- What is left of a source that the end of an idle run has settled with.
theorem settle_kept (service : MprisService.Service) (answer : MprisService.Reply) :
    (MprisService.settle service answer).source = none ∨
      MprisService.settle service answer = { service with control := .rest } := by
  unfold MprisService.settle
  split
  · exact .inl (disconnect_source service _)
  · split
    · exact .inl (disconnect_source service _)
    · exact .inr rfl

theorem settle_rests (service : MprisService.Service) (answer : MprisService.Reply) :
    (MprisService.settle service answer).control = .rest := by
  unfold MprisService.settle
  split
  · rfl
  · split
    · rfl
    · rfl

theorem resume_invariant {listing : Listing} {answered : Bool} (invariant : Invariant s)
    (possible : Possible s (.resume listing answered)) : Invariant (apply s (.resume listing answered)) := by
  simp only [apply]
  split
  · rename_i answer control
    rw [service_resume control listing]
    cases changed : answer.changed with
    | false =>
      have settled : MprisService.resume s.service answer listing = MprisService.settle s.service answer := by
        simp [MprisService.resume,changed]
      have free : ∀ next : System, next.service = MprisService.settle s.service answer → inPoll next = false := by
        intro next same
        simp [inPoll,waiting,same,settle_rests]
      rcases settle_kept s.service answer with gone | kept
      · exact invariant_gone (by rw [settled,gone]) (free _ settled)
      · refine invariant.undisturbed ?_ ?_ ?_ rfl rfl rfl id fun blocked => ?_
        · rw [settled,kept]
        · rw [settled,kept]
        · rw [settled,kept,control]
          exact changed.symm
        · rw [free _ settled] at blocked
          cases blocked
    | true =>
      cases held : s.service.source with
      | none => exact invariant_gone (by simp [MprisService.resume,changed,held]) (by simp [inPoll,waiting,MprisService.resume,changed,held])
      | some source =>
        have settled : MprisService.resume s.service answer listing =
            MprisService.settle (MprisService.publishSnapshot s.service source listing) answer := by
          simp [MprisService.resume,changed,held]
        have free : ∀ next : System, next.service = MprisService.resume s.service answer listing → inPoll next = false := by
          intro next same
          simp [inPoll,waiting,same,settled,settle_rests]
        rcases settle_kept (MprisService.publishSnapshot s.service source listing) answer with gone | kept
        · exact invariant_gone (by rw [settled,gone]) (free _ rfl)
        · refine ⟨?_,fun blocked => ?_,?_,?_⟩
          · intro next same
            rw [settled,kept] at same
            cases same
            exact snapshot_open (invariant.bus source held) listing
          · rw [free _ rfl] at blocked
            cases blocked
          · intro _ gathers
            rw [settled,kept] at gathers
            cases gathers
          · intro _ _ complete quiet
            rw [settled,kept]
            exact publish_current invariant held (by rw [control]; exact changed) possible complete quiet
  · exact invariant

theorem retry_invariant (wakeup : MprisService.Wakeup) (invariant : Invariant s) :
    Invariant (apply s (.retry wakeup)) := by
  simp only [apply,service_retry]
  split
  · rename_i control
    have rests : (MprisService.retry s.service wakeup).control = .rest := by cases wakeup <;> rfl
    refine invariant.undisturbed (by cases wakeup <;> rfl) (by cases wakeup <;> rfl) ?_ rfl rfl rfl id fun blocked => ?_
    · rw [rests,control]
      rfl
    · simp [inPoll,waiting,rests] at blocked
  · exact invariant

theorem reload_invariant (config : Reconnecting) (invariant : Invariant s) : Invariant (apply s (.reload config)) := by
  have reloaded : MprisService.apply s.service (.reload config) =
      if MprisService.listening s.service.control then MprisService.reload s.service config else s.service := rfl
  simp only [apply,reloaded]
  split
  · exact invariant.undisturbed rfl rfl rfl rfl rfl rfl id invariant.drained
  · exact invariant

theorem quit_invariant (invariant : Invariant s) : Invariant (apply s .quit) := by
  have quitted : MprisService.apply s.service .quit =
      if MprisService.listening s.service.control then MprisService.quit s.service else s.service := rfl
  simp only [apply,quitted]
  split
  · rename_i listening
    have awake : s.service.control ≠ .polling := by
      intro polling
      rw [polling] at listening
      cases listening
    exact invariant_gone rfl (by simp [inPoll,waiting,MprisService.quit,awake])
  · exact invariant

theorem apply_invariant (event : Event) (invariant : Invariant s) (possible : Possible s event) :
    Invariant (apply s event) := by
  cases event with
  | change after signals => exact change_invariant invariant possible
  | read => exact read_invariant invariant
  | process => exact process_invariant invariant
  | processed failure => exact processed_invariant invariant possible
  | poll outcome => exact poll_invariant outcome invariant
  | idle outcome => exact idle_invariant outcome invariant
  | greet listing answered => exact greet_invariant invariant possible
  | resume listing answered => exact resume_invariant invariant possible
  | retry wakeup => exact retry_invariant wakeup invariant
  | reload config => exact reload_invariant config invariant
  | quit => exact quit_invariant invariant

theorem player_changes_followed (config : Reconnecting) (bus : Bus) (events : List Event)
    (possible : Runs.Each apply Possible (boot config bus) events) :
    Runs.Throughout apply Followed (boot config bus) events :=
  Runs.throughout_imp (fun _ invariant => ⟨invariant.drained,invariant.current⟩)
    (Runs.throughout_invariant (fun _ event invariant possible => apply_invariant event invariant possible)
      (boot_invariant config bus) possible)

def playerName : Bytes := text "org.mpris.MediaPlayer2.spotify"

def spotifyBus (status : Bytes) : Bus := ⟨[playerName],fun _ => { spotify with status := some status },by simp⟩

def statusChanged : Signal := .propertiesChanged (some playerInterface) ⟨[text "PlaybackStatus"],false⟩ ⟨[],false⟩

-- A player that pauses while the service blocks in its wait.
def pausing : List Event :=
  [.idle (.ok ()),.greet (spotifyBus (text "Playing")).listing true,.processed none,.resume (spotifyBus (text "Playing")).listing true,
   .idle (.ok ()),.processed none,.change (spotifyBus (text "Paused")) [statusChanged],.poll (.ready false false),.read,.process,
   .processed none,.resume (spotifyBus (text "Paused")).listing true]

theorem pausing_followed :
    Runs.Throughout apply Followed (boot ⟨true,100,1000⟩ (spotifyBus (text "Playing"))) pausing := by
  refine player_changes_followed ⟨true,100,1000⟩ (spotifyBus (text "Playing")) pausing ?_
  have announced : Announced (spotifyBus (text "Playing")) (spotifyBus (text "Paused")) [statusChanged] := by
    refine ⟨fun _ _ => .inl Iff.rfl,fun name _ _ => .inr ⟨rfl,fun property => ?_⟩⟩
    cases property with
    | playbackStatus => exact .inr ⟨_,_,List.mem_cons_self,by decide⟩
    | _ => exact .inl rfl
  exact ⟨trivial,fun _ => observed_now _ (.head _),fun _ => rfl,fun _ => observed_now _ (.head _),trivial,fun _ => rfl,
    fun _ => announced,trivial,trivial,trivial,fun _ => rfl,fun _ => observed_now _ (.head _),trivial⟩

end Hypringo.MprisSignals

import Hypringo.Configuration
import Hypringo.Document

namespace Hypringo.State
open Hypringo.Lua Hypringo.Configuration Json Document

inductive Domain where
  | audio
  | github
  | hyprland
  | media
  | runtime
  | system
  | weather
  deriving DecidableEq, Repr

namespace Domain

def name : Domain → Bytes
  | .audio => text "audio"
  | .github => text "github"
  | .hyprland => text "hyprland"
  | .media => text "media"
  | .runtime => text "runtime"
  | .system => text "system"
  | .weather => text "weather"

def all : List Domain := [.audio,.github,.hyprland,.media,.runtime,.system,.weather]

def parse (s : Bytes) : Option Domain := all.find? (fun domain => domain.name == s)

theorem mem_all (domain : Domain) : domain ∈ all := by cases domain <;> decide
theorem parse_name (domain : Domain) : parse domain.name = some domain := by cases domain <;> decide

theorem name_of_parse {s : Bytes} {domain : Domain} (found : parse s = some domain) : domain.name = s := by
  simpa using List.find?_some found

end Domain

def arrayField : Domain → Value → Bool
  | .github,key => key == .string (text "notifications")
  | .hyprland,key => key == .string (text "monitors") || key == .string (text "workspaces")
  | _,_ => false

def cycles : Bytes := text "state values must not contain cycles"

def copyEntries (child : Heap → Value → Except Bytes (Value × Heap)) :
    List (Value × Value) → Table → Heap → Except Bytes (Table × Heap)
  | [],result,h => .ok (result,h)
  | (key,value) :: rest,result,h => do
    let (key,h) ← child h key
    let (value,h) ← child h value
    copyEntries child rest (result.set key value) h

-- The copy is allocated once it is complete: nothing refers to it before. A
-- path longer than the heap repeats a table, so the last case never decides.
def copy (fuel : Nat) (visiting : List Address) (h : Heap) (v : Value) : Except Bytes (Value × Heap) :=
  match v with
  | .table a =>
    if a ∈ visiting then .error cycles
    else match fuel with
      | fuel+1 => do
        let (result,h) ← copyEntries (copy fuel (a :: visiting)) (h.table a).entries (.empty (h.table a).marked) h
        return (.table h.size,h.alloc result)
      | 0 => .error cycles
  | v => .ok (v,h)

abbrev Compared := List (Address × Address)

def equalEntries (child : Compared → Value → Value → Bool × Compared) (right : Table) :
    List (Value × Value) → Compared → Bool × Compared
  | [],compared => (true,compared)
  | (key,value) :: rest,compared =>
    match child compared value (right.get key) with
    | (true,compared) => equalEntries child right rest compared
    | (false,compared) => (false,compared)

def equal (h : Heap) (fuel : Nat) (compared : Compared) (left right : Value) : Bool × Compared :=
  if left.rawEqual right then (true,compared)
  else match left,right with
    | .table a,.table b =>
      if (h.table a).marked != (h.table b).marked then (false,compared)
      else if (a,b) ∈ compared then (true,compared)
      else match fuel with
        | fuel+1 =>
          match equalEntries (equal h fuel) (h.table b) (h.table a).entries ((a,b) :: compared) with
          | (true,compared) => ((h.table b).entries.all (fun entry => (h.table a).get entry.1 != .nil),compared)
          | (false,compared) => (false,compared)
        | 0 => (false,compared)
    | _,_ => (false,compared)

-- snapshot.state[domain] is reached through the snapshot alone, so the seven
-- domain tables are held here and not in the heap; what they hold is.
structure Snapshot where
  revision : Int
  state : Domain → Table

structure Store where
  snapshot : Snapshot
  heap : Heap

def isEmptyTable (h : Heap) : Value → Bool
  | .table a => (h.table a).entries.isEmpty
  | _ => false

def normalise (domain : Domain) (key value : Value) (h : Heap) : Value × Heap :=
  if arrayField domain key && isEmptyTable h value then (.table h.size,h.alloc (.empty true)) else (value,h)

-- The loop of M.merge. The target is assigned as it goes, so a raise leaves
-- the fields that came before it.
def mergeFields (domain : Domain) : List (Value × Value) → Bool → Table → Heap → Except Bytes Bool × Table × Heap
  | [],changed,target,h => (.ok changed,target,h)
  | (key,value) :: rest,changed,target,h =>
    let (value,h) := normalise domain key value h
    if (equal h (h.size + 1) [] (target.get key) value).1 then mergeFields domain rest changed target h
    else match copy (h.size + 1) [] h value with
      | .error message => (.error message,target,h)
      | .ok (held,h) => mergeFields domain rest true (target.set key held) h

def replace (s : Snapshot) (domain : Domain) (t : Table) : Snapshot :=
  { s with state := fun other => if other = domain then t else s.state other }

def merge (store : Store) (domain : Bytes) (patch : Value) : Except Bytes (Bool × Int) × Store :=
  match Domain.parse domain with
  | none => (.error (text "unknown state domain: " ++ domain),store)
  | some domain =>
    match patch with
    | .table p =>
      match mergeFields domain (store.heap.table p).entries false (store.snapshot.state domain) store.heap with
      | (.error message,target,h) => (.error message,⟨replace store.snapshot domain target,h⟩)
      | (.ok changed,target,h) =>
        let revision := if changed then store.snapshot.revision + 1 else store.snapshot.revision
        (.ok (changed,revision),⟨{ replace store.snapshot domain target with revision := revision },h⟩)
    | _ => (.error (text "state patch must be a table"),store)

def flag (b : Bool) : Value := .boolean b
def empty : Value := .string []
def zero : Value := .integer 0

-- The tables inside the initial domains, json.null first; `none` is json.array().
def initialRecords (config : Config) : List (Option (List (Bytes × Value))) :=
  [some [],
   some [(text "set_mute",flag config.sources.audio.enabled),(text "set_volume",flag config.sources.audio.enabled),
     (text "toggle_mute",flag config.sources.audio.enabled)],
   some [(text "id",zero),(text "name",empty)],
   some [(text "address",empty),(text "class",empty),(text "floating",flag false),(text "fullscreen",zero),
     (text "initial_class",empty),(text "initial_title",empty),(text "pid",zero),(text "title",empty),
     (text "workspace",.table 2),(text "xwayland",flag false)],
   some [(text "id",zero),(text "monitor",empty),(text "name",empty)],
   some [(text "switch_workspace",flag config.sources.hyprland.enabled)],
   none,
   none,
   none,
   some [(text "next",flag false),(text "pause",flag false),(text "play",flag false),(text "play_pause",flag false),
     (text "previous",flag false)],
   some [(text "available",flag false),(text "capacity",zero),(text "device",empty),(text "status",empty)],
   some [(text "set",flag false)],
   some [(text "available",flag false),(text "capabilities",.table 11),(text "device",empty),(text "percent",zero)]]

def initialTable : Option (List (Bytes × Value)) → Table
  | none => .empty true
  | some fields => .record fields

def initialHeap (config : Config) : Heap where
  size := 13
  table := fun a => initialTable ((initialRecords config).getD a none)
  null := 0

def initialFields (configPath : Bytes) (config : Config) : Domain → List (Bytes × Value)
  | .audio =>
    [(text "available",flag false),(text "capabilities",.table 1),(text "connected",flag false),(text "error",empty),
     (text "muted",flag false),(text "sink",empty),(text "volume",zero)]
  | .hyprland =>
    [(text "active_window",.table 3),(text "active_workspace",.table 4),(text "available",flag false),
     (text "capabilities",.table 5),(text "error",empty),(text "monitors",.table 6),(text "workspaces",.table 7)]
  | .github =>
    [(text "available",flag false),(text "error",empty),(text "failures",zero),(text "last_attempt_at",zero),
     (text "last_success_at",zero),(text "notifications",.table 8),(text "refresh_in_ms",zero),(text "stale",flag false)]
  | .media =>
    [(text "album",empty),(text "artist",empty),(text "art",empty),(text "available",flag false),
     (text "capabilities",.table 9),(text "connected",flag false),(text "error",empty),(text "player",empty),
     (text "status",.string (text "stopped")),(text "title",empty)]
  | .runtime =>
    [(text "config_generation",.integer 1),(text "config_path",.string configPath),(text "last_reload_error",empty),
     (text "ready",flag false),(text "socket_path",.string config.runtime.socketPath),
     (text "workers",.integer (Int64.ofInt config.runtime.workers))]
  | .system =>
    [(text "available",flag false),(text "battery",.table 10),(text "brightness",.table 12),(text "error",empty)]
  | .weather =>
    [(text "available",flag false),(text "condition",empty),(text "error",empty),(text "failures",zero),
     (text "feels_like",empty),(text "last_attempt_at",zero),(text "last_success_at",zero),(text "location",empty),
     (text "precipitation",empty),(text "pressure",empty),(text "refresh_in_ms",zero),(text "stale",flag false),
     (text "temperature",empty),(text "wind",empty)]

def new (configPath : Bytes) (config : Config) : Store where
  snapshot := { revision := 0, state := fun domain => .record (initialFields configPath config domain) }
  heap := initialHeap config

theorem copy_scalar {v : Value} (flat : v.scalar = true) (fuel : Nat) (path : List Address) (h : Heap) :
    copy fuel path h v = .ok (v,h) := by
  cases v with
  | table a => simp [Value.scalar] at flat
  | _ => unfold copy; rfl

theorem copy_table {a : Address} {path : List Address} (fresh : a ∉ path) (fuel : Nat) (h : Heap) :
    copy (fuel+1) path h (.table a) = (do
      let (result,h) ← copyEntries (copy fuel (a :: path)) (h.table a).entries (.empty (h.table a).marked) h
      return (.table h.size,h.alloc result)) := by
  rw [copy]
  simp [fresh]

-- A heap the copy may work in: the source heap grown, with nothing loose.
structure Working (source h : Heap) : Prop where
  grown : source.Extends h
  closed : h.Closed
  plain : h.Plain

-- What a copied member keeps of the one it was made from.
structure Kept (source : Heap) (room : Nat) (h : Heap) (member copied : Value × Value) : Prop where
  key : copied.1 = member.1
  present : copied.2 ≠ .nil
  proper : copied.2 ≠ .table h.null
  inside : copied.2.Within h.size
  document : ∀ e, document source room member.2 = .ok e → document h room copied.2 = .ok e

theorem Kept.extends {source h later : Heap} {room : Nat} {member copied : Value × Value} (closed : h.Closed)
    (grown : h.Extends later) (kept : Kept source room h member copied) : Kept source room later member copied where
  key := kept.key
  present := kept.present
  proper := by rw [grown.null]; exact kept.proper
  inside := kept.inside.mono grown.size
  document := fun e found => document_extends closed grown kept.inside (kept.document e found)

-- What copying a value does, seen from the document it stands for.
structure Copied (source h : Heap) (room : Nat) (v : Value) (d : Doc) (result : Value) (later : Heap) : Prop where
  present : result = .nil → v = .nil
  working : Working source later
  grown : h.Extends later
  inside : result.Within later.size
  proper : result ≠ .table later.null
  document : document later room result = .ok d

theorem copyEntries_kept {source : Heap} {room : Nat} {child : Heap → Value → Except Bytes (Value × Heap)}
    (scalars : ∀ h v, v.scalar = true → child h v = .ok (v,h)) {rest : List (Value × Value)}
    (children : ∀ member ∈ rest, ∀ h, Working source h → ∃ d w later, document source room member.2 = .ok d ∧
      child h member.2 = .ok (w,later) ∧ Copied source h room member.2 d w later)
    (flat : ∀ member ∈ rest, member.1.scalar = true ∧ member.1.isKey = true)
    (some : ∀ member ∈ rest, member.2 ≠ .nil)
    {result : Table} {h : Heap} (working : Working source h)
    (distinct : (result.entries.map Prod.fst ++ rest.map Prod.fst).Nodup) :
    ∃ final later copies, copyEntries child rest result h = .ok (final,later) ∧ final.marked = result.marked ∧
      final.entries = result.entries ++ copies ∧ List.Forall₂ (Kept source room later) rest copies ∧
      Working source later ∧ h.Extends later := by
  induction rest generalizing result h with
  | nil => exact ⟨result,h,[],rfl,rfl,by simp,.nil,working,.refl h⟩
  | cons member rest ih =>
    obtain ⟨key,value⟩ := member
    obtain ⟨scalar,isKey⟩ := flat (key,value) (by simp)
    obtain ⟨d,w,middle,found,copied,spec⟩ := children (key,value) (by simp) h working
    have held : w ≠ .nil := fun absent => some (key,value) (by simp) (spec.present absent)
    have fresh : key ∉ result.entries.map Prod.fst := by
      intro member
      have apart := (List.nodup_append.mp distinct).2.2 key member key (by simp)
      exact apart rfl
    have placed := Table.set_fresh isKey held fresh
    obtain ⟨final,later,copies,done,marked,entries,kept,ready,grown⟩ := ih
      (fun member listed => children member (by simp [listed])) (fun member listed => flat member (by simp [listed]))
      (fun member listed => some member (by simp [listed])) spec.working
      (show ((result.set key w).entries.map Prod.fst ++ rest.map Prod.fst).Nodup by rw [placed]; simpa using distinct)
    refine ⟨final,later,(key,w) :: copies,?_,by rw [marked,Table.set_marked],?_,.cons ?_ kept,ready,spec.grown.trans grown⟩
    · simp only [copyEntries,scalars h key scalar,copied,bind,Except.bind]
      exact done
    · rw [entries,placed]
      simp
    · refine Kept.extends spec.working.closed grown ⟨rfl,held,spec.proper,spec.inside,?_⟩
      intro e other
      rw [found] at other
      cases other
      exact spec.document

theorem forall₂_keys {source h : Heap} {room : Nat} {members copies : List (Value × Value)}
    (kept : List.Forall₂ (Kept source room h) members copies) : copies.map Prod.fst = members.map Prod.fst :=
  map_eq_of_forall₂ (kept.imp (fun _ _ one => one.key))

-- A table put together from kept members, once allocated.
theorem kept_table {source h : Heap} {room : Nat} {a : Address} {d : Doc} {result : Table} {copies : List (Value × Value)}
    (plain : source.Plain) (inside : a < source.size) (working : Working source h)
    (encoded : encodeTable (source.table a) (document source room) = .ok d)
    (marked : result.marked = (source.table a).marked) (entries : result.entries = copies)
    (kept : List.Forall₂ (Kept source room h) (source.table a).entries copies) :
    Working source (h.alloc result) ∧ document (h.alloc result) (room+1) (.table h.size) = .ok d := by
  have written := encodeTable_written encoded
  have flat : ∀ copied ∈ copies, copied.1.scalar = true := by
    intro copied listed
    obtain ⟨member,original,one⟩ := Raise.forall₂_right kept listed
    rw [one.key]
    exact written_scalar_keys written original
  have values : ∀ copied ∈ copies, copied.2.Within h.size ∧ copied.2 ≠ .table h.null := by
    intro copied listed
    obtain ⟨member,_,one⟩ := Raise.forall₂_right kept listed
    exact ⟨one.inside,one.proper⟩
  have closed : (h.alloc result).Closed := by
    apply Heap.alloc_closed working.closed
    intro copied listed
    rw [entries] at listed
    refine ⟨?_,(values copied listed).1⟩
    have scalar := flat copied listed
    cases key : copied.1 with
    | table b => simp [key,Value.scalar] at scalar
    | _ => trivial
  have tidy : (h.alloc result).Plain := by
    apply working.plain.alloc
    · intro set
      rw [marked] at set
      have none := plain.marks a inside set
      rw [none] at kept
      cases kept
      exact entries
    · intro copied listed
      rw [entries] at listed
      refine ⟨?_,(values copied listed).2⟩
      intro same
      have scalar := flat copied listed
      simp [same,Value.scalar] at scalar
  have step := h.alloc_extends result
  refine ⟨⟨working.grown.trans step,closed,tidy⟩,?_⟩
  have proper : h.size ≠ (h.alloc result).null := Nat.ne_of_gt working.closed.null
  rw [document_table proper,h.alloc_new]
  refine encodeTable_transfer marked (by rw [entries]; exact forall₂_keys kept) ?_ encoded
  intro key e present child
  obtain ⟨copied,listed,one⟩ := Raise.forall₂_left kept (Table.mem_of_get present)
  have value : result.get key = copied.2 := by
    apply Table.get_of_mem
    rw [entries]
    have same : copied.1 = key := one.key
    rw [← same]
    exact listed
  rw [value]
  exact document_extends working.closed step one.inside (one.document e child)

-- Copying what json.encode accepts never raises and writes out the same.
theorem copy_document {source : Heap} (closed : source.Closed) (plain : source.Plain) {room : Nat} {v : Value} {d : Doc}
    (found : document source room v = .ok d) {fuel : Nat} {path : List Address} {h : Heap}
    (working : Working source h) (inside : v.Within source.size) (proper : v ≠ .table source.null)
    (below : Below source path v) (enough : Bounded source fuel v) :
    ∃ w later, copy fuel path h v = .ok (w,later) ∧ Copied source h room v d w later := by
  refine document_induction (motive := fun room v d => ∀ fuel path h, Working source h → v.Within source.size →
    v ≠ .table source.null → Below source path v → Bounded source fuel v →
      ∃ w later, copy fuel path h v = .ok (w,later) ∧ Copied source h room v d w later)
    ?_ ?_ ?_ found fuel path h working inside proper below enough
  · intro room v d flat found fuel path h working inside proper below enough
    refine ⟨v,h,copy_scalar flat fuel path h,id,working,.refl h,inside.mono working.grown.size,?_,
      document_extends closed working.grown inside found⟩
    rw [working.grown.null]
    exact proper
  · intro room fuel path h _ _ proper
    exact absurd rfl proper
  · intro room a d _ encoded ih fuel path h working inside proper below enough
    have bound : a < source.size := inside
    have written := encodeTable_written encoded
    cases fuel with
    | zero => simp [Bounded,Value.scalar] at enough
    | succ fuel =>
      have children : ∀ member ∈ (source.table a).entries, ∀ h, Working source h → ∃ e w later,
          document source room member.2 = .ok e ∧ copy fuel (a :: path) h member.2 = .ok (w,later) ∧
          Copied source h room member.2 e w later := by
        intro member listed h working
        obtain ⟨e,child⟩ := written_child written listed
        obtain ⟨w,later,copied,spec⟩ := ih member.2 e child fuel (a :: path) h working
          (closed.entries a bound member listed).2 (plain.nulls a bound member listed).2
          (below.entry listed).2 (enough member listed).2
        exact ⟨e,w,later,child,copied,spec⟩
      have distinct : ((Table.empty (source.table a).marked).entries.map Prod.fst ++
          (source.table a).entries.map Prod.fst).Nodup := (source.table a).distinct
      obtain ⟨result,later,copies,done,marked,entries,kept,ready,grown⟩ := copyEntries_kept
        (fun h v flat => copy_scalar flat fuel (a :: path) h) children
        (fun member listed => ⟨written_scalar_keys written listed,(source.table a).keys member listed⟩)
        (source.table a).present working distinct
      obtain ⟨complete,same⟩ := kept_table plain bound ready encoded marked entries kept
      refine ⟨.table later.size,later.alloc result,?_,?_⟩
      · rw [copy_table (below.fresh enough),working.grown.table a bound,done]
        rfl
      · refine ⟨by simp,complete,grown.trans (later.alloc_extends result),Nat.lt_succ_self _,?_,same⟩
        intro null
        injection null with null
        exact Nat.ne_of_gt ready.closed.null null

theorem copyEntries_returned {source : Heap} {child : Heap → Value → Except Bytes (Value × Heap)} {P : Value → Prop}
    (children : ∀ h v w later, source.Extends h → v.Within source.size → child h v = .ok (w,later) →
      P v ∧ source.Extends later)
    {rest : List (Value × Value)} (inside : ∀ member ∈ rest, member.1.Within source.size ∧ member.2.Within source.size)
    {result final : Table} {h later : Heap} (grown : source.Extends h)
    (done : copyEntries child rest result h = .ok (final,later)) :
    (∀ member ∈ rest, P member.1 ∧ P member.2) ∧ source.Extends later := by
  induction rest generalizing result h with
  | nil =>
    cases done
    exact ⟨by simp,grown⟩
  | cons member rest ih =>
    obtain ⟨key,value⟩ := member
    have bounds := inside (key,value) (by simp)
    obtain ⟨⟨newKey,afterKey⟩,keyCopied,more⟩ := Raise.bind_ok.mp done
    obtain ⟨⟨newValue,afterValue⟩,valueCopied,others⟩ := Raise.bind_ok.mp more
    obtain ⟨first,grownKey⟩ := children h key newKey afterKey grown bounds.1 keyCopied
    obtain ⟨second,grownValue⟩ := children afterKey value newValue afterValue grownKey bounds.2 valueCopied
    obtain ⟨tail,last⟩ := ih (fun member listed => inside member (by simp [listed])) grownValue others
    refine ⟨?_,last⟩
    intro member listed
    rcases List.mem_cons.mp listed with same | later
    · subst same
      exact ⟨first,second⟩
    · exact tail member later

-- Whatever copy returns on has a finite unfolding.
theorem copy_bounded {source : Heap} (closed : source.Closed) (fuel : Nat) {path : List Address} {h later : Heap}
    {v w : Value} (grown : source.Extends h) (inside : v.Within source.size)
    (done : copy fuel path h v = .ok (w,later)) : Bounded source fuel v ∧ source.Extends later := by
  induction fuel generalizing path h later v w with
  | zero =>
    cases v with
    | table a =>
      unfold copy at done
      split at done <;> cases done
    | _ =>
      rw [copy_scalar rfl] at done
      cases done
      exact ⟨rfl,grown⟩
  | succ fuel ih =>
    cases v with
    | table a =>
      by_cases seen : a ∈ path
      · unfold copy at done
        simp [seen] at done
      · rw [copy_table seen,grown.table a inside] at done
        obtain ⟨⟨result,middle⟩,copied,last⟩ := Raise.bind_ok.mp done
        cases last
        obtain ⟨all,final⟩ := copyEntries_returned (fun _ _ _ _ grown inside done => ih grown inside done)
          (closed.entries a inside) grown copied
        exact ⟨all,final.trans (middle.alloc_extends result)⟩
    | _ =>
      rw [copy_scalar rfl] at done
      cases done
      exact ⟨trivial,grown⟩

-- A pair already met is either settled or hangs above the value at hand.
def Sound (h : Heap) (compared : Compared) (left : Value) : Prop :=
  ∀ pair ∈ compared, Same h (.table pair.1) (.table pair.2) ∨ Below h [pair.1] left

structure Decides (h : Heap) (compared : Compared) (claim : Prop) (result : Bool × Compared) : Prop where
  exact : result.1 = true ↔ claim
  growth : result.1 = true → ∀ pair ∈ result.2, pair ∈ compared ∨ Same h (.table pair.1) (.table pair.2)

theorem Decides.agreed {h : Heap} {compared : Compared} {claim : Prop} (holds : claim) :
    Decides h compared claim (true,compared) :=
  ⟨by simp [holds],fun _ _ listed => .inl listed⟩

theorem Decides.refused {h : Heap} {compared grown : Compared} {claim : Prop} (fails : ¬claim) :
    Decides h compared claim (false,grown) :=
  ⟨by simp [fails],by simp⟩

theorem equalEntries_decides {h : Heap} {child : Compared → Value → Value → Bool × Compared} {right : Table}
    {rest : List (Value × Value)} {compared : Compared}
    (children : ∀ member ∈ rest, ∀ compared w, Sound h compared member.2 →
      Decides h compared (Same h member.2 w) (child compared member.2 w))
    (sound : ∀ member ∈ rest, Sound h compared member.2) :
    Decides h compared (∀ member ∈ rest, Same h member.2 (right.get member.1))
      (equalEntries child right rest compared) := by
  induction rest generalizing compared with
  | nil => exact ⟨by simp [equalEntries],fun _ pair listed => .inl listed⟩
  | cons member rest ih =>
    obtain ⟨key,value⟩ := member
    have first := children (key,value) (by simp) compared (right.get key) (sound (key,value) (by simp))
    obtain ⟨outcome,result⟩ : ∃ outcome, child compared value (right.get key) = outcome := ⟨_,rfl⟩
    rw [result] at first
    obtain ⟨agreed,grown⟩ := outcome
    cases agreed with
    | false =>
      have apart : ¬Same h value (right.get key) := fun same => by simpa using first.exact.mpr same
      simp only [equalEntries,result]
      exact .refused (fun all => apart (all (key,value) (by simp)))
    | true =>
      have same := first.exact.mp rfl
      have still : ∀ member ∈ rest, Sound h grown member.2 := by
        intro member listed pair known
        rcases first.growth rfl pair known with old | settled
        · exact sound member (by simp [listed]) pair old
        · exact .inl settled
      have later := ih (fun member listed => children member (by simp [listed])) still
      simp only [equalEntries,result]
      constructor
      · rw [later.exact]
        constructor
        · intro all member listed
          rcases List.mem_cons.mp listed with head | tail
          · subst head
            exact same
          · exact all member tail
        · intro all member listed
          exact all member (by simp [listed])
      · intro agreed pair known
        rcases later.growth agreed pair known with old | settled
        · exact first.growth rfl pair old
        · exact .inr settled

theorem same_tables {h : Heap} {a b : Address} (different : a ≠ b) (marks : (h.table a).marked = (h.table b).marked) :
    Same h (.table a) (.table b) ↔ (∀ member ∈ (h.table a).entries, Same h member.2 ((h.table b).get member.1)) ∧
      (h.table b).entries.all (fun entry => (h.table a).get entry.1 != .nil) = true := by
  rw [List.all_eq_true]
  constructor
  · intro same
    cases same with
    | equal equal =>
      have identical := Value.table_rawEqual.mp equal
      injection identical with identical
      exact absurd identical.symm different
    | table _ each =>
      constructor
      · intro member listed
        have value : (h.table a).get member.1 = member.2 := Table.get_of_mem listed
        rw [← value]
        exact each member.1
      · intro entry listed
        have present := (h.table b).present entry listed
        have value : (h.table b).get entry.1 = entry.2 := Table.get_of_mem listed
        rw [bne_iff_ne]
        intro absent
        apply present
        rw [← value]
        exact (each entry.1).nil_iff.mp absent
  · intro both
    obtain ⟨members,covered⟩ := both
    refine .table marks ?_
    intro key
    by_cases absent : (h.table a).get key = .nil
    · have other : (h.table b).get key = .nil := by
        by_contra present
        have held := covered _ (Table.mem_of_get present)
        simp [absent] at held
      rw [absent,other]
      exact .refl rfl
    · exact members _ (Table.mem_of_get absent)

theorem Sound.member {h : Heap} {compared : Compared} {a b : Address} (sound : Sound h compared (.table a))
    {member : Value × Value} (listed : member ∈ (h.table a).entries) : Sound h ((a,b) :: compared) member.2 := by
  intro pair known
  rcases List.mem_cons.mp known with new | old
  · subst new
    exact .inr ((Below.nil h (.table a)).entry listed).2
  · rcases sound pair old with settled | below
    · exact .inl settled
    · refine .inr ?_
      intro x inside n bounded
      exact (below.entry listed).2 x (by simp at inside; simp [inside]) n bounded

theorem equal_raw {h : Heap} {fuel : Nat} {compared : Compared} {left right : Value}
    (same : left.rawEqual right = true) : equal h fuel compared left right = (true,compared) := by
  unfold equal
  simp [same]

theorem equal_scalar {h : Heap} {fuel : Nat} {compared : Compared} {left right : Value}
    (apart : left.rawEqual right = false) (flat : left.scalar = true ∨ right.scalar = true) :
    equal h fuel compared left right = (false,compared) := by
  unfold equal
  cases left <;> cases right <;> simp_all [Value.scalar]

theorem tables_decide {h : Heap} {fuel : Nat} {compared : Compared} {a b : Address}
    (children : ∀ {compared left right}, Bounded h fuel left → Sound h compared left →
      Decides h compared (Same h left right) (equal h fuel compared left right))
    (enough : Bounded h (fuel+1) (.table a)) (sound : Sound h compared (.table a))
    (raw : (Value.table a).rawEqual (.table b) = false) :
    Decides h compared (Same h (.table a) (.table b)) (equal h (fuel+1) compared (.table a) (.table b)) := by
  have different : a ≠ b := by
    intro same
    rw [same,Value.rawEqual_self rfl] at raw
    cases raw
  rw [equal]
  simp only [raw,Bool.false_eq_true,if_false]
  by_cases marks : (h.table a).marked = (h.table b).marked
  · have unequal : ((h.table a).marked != (h.table b).marked) = false := by simp [marks]
    rw [unequal]
    simp only [Bool.false_eq_true,if_false]
    by_cases known : (a,b) ∈ compared
    · rw [if_pos known]
      have settled : Same h (.table a) (.table b) := by
        rcases sound (a,b) known with same | below
        · exact same
        · exact absurd (by simp) (below.fresh enough)
      exact .agreed settled
    · rw [if_neg known]
      have entries : Decides h ((a,b) :: compared)
          (∀ member ∈ (h.table a).entries, Same h member.2 ((h.table b).get member.1))
          (equalEntries (equal h fuel) (h.table b) (h.table a).entries ((a,b) :: compared)) :=
        equalEntries_decides (fun member listed compared w sound => children (enough member listed).2 sound)
          (fun member listed => sound.member listed)
      obtain ⟨outcome,result⟩ : ∃ outcome, equalEntries (equal h fuel) (h.table b) (h.table a).entries ((a,b) :: compared) =
        outcome := ⟨_,rfl⟩
      rw [result] at entries ⊢
      obtain ⟨agreed,grown⟩ := outcome
      have exact := same_tables different marks
      cases agreed with
      | false =>
        apply Decides.refused
        intro same
        simpa using entries.exact.mpr (exact.mp same).1
      | true =>
        have members := entries.exact.mp rfl
        refine ⟨⟨fun covered => exact.mpr ⟨members,covered⟩,fun same => (exact.mp same).2⟩,?_⟩
        intro covered pair listed
        rcases entries.growth rfl pair listed with inside | settled
        · rcases List.mem_cons.mp inside with new | old
          · subst new
            exact .inr (exact.mpr ⟨members,covered⟩)
          · exact .inl old
        · exact .inr settled
  · have unequal : ((h.table a).marked != (h.table b).marked) = true := by simp [marks]
    rw [unequal]
    simp only [if_true]
    apply Decides.refused
    intro same
    cases same with
    | equal equal =>
      rw [equal] at raw
      cases raw
    | table alike _ => exact absurd alike marks

-- The memo is sound for a left value with a finite unfolding: meeting a pair
-- again means it has been settled, never that it is still open.
theorem equal_decides {h : Heap} (fuel : Nat) {compared : Compared} {left right : Value}
    (enough : Bounded h fuel left) (sound : Sound h compared left) :
    Decides h compared (Same h left right) (equal h fuel compared left right) := by
  induction fuel generalizing compared left right with
  | zero =>
    cases raw : left.rawEqual right with
    | true =>
      rw [equal_raw raw]
      exact .agreed (.equal raw)
    | false =>
      rw [equal_scalar raw (.inl enough)]
      apply Decides.refused
      intro same
      rw [same.scalar (.inl enough)] at raw
      cases raw
  | succ fuel ih =>
    cases raw : left.rawEqual right with
    | true =>
      rw [equal_raw raw]
      exact .agreed (.equal raw)
    | false =>
      by_cases flat : left.scalar = true ∨ right.scalar = true
      · rw [equal_scalar raw flat]
        apply Decides.refused
        intro same
        rw [same.scalar flat] at raw
        cases raw
      · cases left with
        | table a =>
          cases right with
          | table b =>
            exact tables_decide ih enough sound raw
          | _ => simp [Value.scalar] at flat
        | _ => simp [Value.scalar] at flat

end Hypringo.State

import Hypringo.Circular
import Hypringo.Lua.Value

namespace Hypringo.Control
open Hypringo.Lua Hypringo.Circular

def maxClients : Nat := 64
def maxActions : Nat := 64
def commandCapacity : Nat := 128
def newline : UInt8 := 10

instance : NeZero maxActions := ⟨by decide⟩

inductive Format where
  | default
  | eww
  | doctor
  deriving DecidableEq, Repr

-- The C string at the start of a char array.
def cString (buffer : Bytes) : Bytes := buffer.takeWhile (· != 0)

-- The terminator is copied too, what follows it in the target stays.
def strcpy (target command : Bytes) : Bytes := command ++ 0 :: target.drop (command.length + 1)

def memcpy (data : Bytes) (offset : Nat) (source : Bytes) : Bytes :=
  data.take offset ++ source ++ data.drop (offset + source.length)

-- `command` holds the command_size bytes received so far.
structure Client where
  fd : Nat
  subscribed : Bool
  format : Format
  command : Bytes
  deriving DecidableEq, Repr

structure Payloads where
  snapshot : Bytes
  ewwSnapshot : Bytes
  doctorSnapshot : Bytes
  deriving DecidableEq, Repr

def Payloads.of (payloads : Payloads) : Format → Bytes
  | .default => payloads.snapshot
  | .eww => payloads.ewwSnapshot
  | .doctor => payloads.doctorSnapshot

-- What the mutex guards. A NULL snapshot has size 0.
structure Server where
  running : Bool
  stopping : Bool
  actions : Buffer Bytes maxActions
  payloads : Payloads

def zeroed : Server where
  running := false
  stopping := false
  actions := ⟨fun _ => List.replicate commandCapacity 0,0,0⟩
  payloads := ⟨[],[],[]⟩

def emptySnapshot : Format → Bytes
  | .default => text "\x7b\"revision\":0,\"state\":\x7b\x7d,\"type\":\"snapshot\"\x7d\n"
  | .eww => text "\x7b\x7d\n"
  | .doctor => text "\x7b\"healthy\":false,\"ready\":false,\"revision\":0,\"sources\":\x7b\x7d,\"type\":\"doctor\"\x7d\n"

def copySnapshot (server : Server) (format : Format) : Bytes := server.payloads.of format

-- The bytes send_snapshot hands to write_all after copying.
def snapshotText (format : Format) (copied : Bytes) : Bytes :=
  if copied = [] then emptySnapshot format else copied

def enqueueAction (server : Server) (command : Bytes) : Server × Bool :=
  if !server.running || server.stopping || decide (maxActions ≤ server.actions.count) then (server,false)
  else
    let slot := server.actions.slots (server.actions.index server.actions.count)
    ({ server with actions := server.actions.push (strcpy slot command) },true)

def popAction (server : Server) : Server × Option Bytes :=
  if !server.running || server.stopping || server.actions.count == 0 then (server,none)
  else ({ server with actions := server.actions.pop },some (cString server.actions.oldest))

-- lstart's section under the mutex, and the one it runs when no thread could
-- be created.
def startSection (server : Server) : Server :=
  { server with running := true, stopping := false, actions := server.actions.clear }

def abandonSection (server : Server) : Server := { server with running := false, stopping := true }

def publishSection (server : Server) (payloads : Payloads) : Option Server :=
  if !server.running || server.stopping then none else some { server with payloads := payloads }

-- lstop before and after pthread_join.
def stopSection (server : Server) : Option Server :=
  if !server.running then none else some { server with stopping := true }

def joinedSection (server : Server) : Server :=
  { server with running := false, payloads := ⟨[],[],[]⟩, actions := server.actions.clear }

-- What handle_command finds in the buffer of a client.
inductive Answer where
  | incomplete
  | snapshot (format : Format)
  | subscribe (format : Format)
  | enqueue (command : Bytes)
  | unknown
  deriving DecidableEq, Repr

def recognise (command : Bytes) : Answer :=
  if command = text "status" then .snapshot .default
  else if command = text "status eww" then .snapshot .eww
  else if command = text "doctor" then .snapshot .doctor
  else if command = text "subscribe" then .subscribe .default
  else if command = text "subscribe eww" then .subscribe .eww
  else if command = text "reload" then .enqueue command
  else if (text "dispatch ").isPrefixOf command then .enqueue command
  else .unknown

def handleCommand (client : Client) : Answer :=
  let command := cString client.command
  if command.contains newline then recognise (command.takeWhile (· != newline)) else .incomplete

def accepted : Bytes := text "\x7b\"type\":\"accepted\"\x7d\n"
def busy : Bytes := text "\x7b\"type\":\"error\",\"error\":\"action queue unavailable\"\x7d\n"
def unknownCommand : Bytes := text "\x7b\"type\":\"error\",\"error\":\"unknown command\"\x7d\n"

def queueAnswer (queued : Bool) : Bytes := if queued then accepted else busy

-- The commands lrequest lets through.
def requestable (command : Bytes) : Bool :=
  command == text "status" || command == text "doctor" || command == text "reload" ||
  command == text "subscribe" || command == text "status eww" || command == text "subscribe eww" ||
  (text "dispatch ").isPrefixOf command

theorem cString_free (buffer : Bytes) : 0 ∉ cString buffer := by
  intro member
  have kept := List.mem_takeWhile_imp member
  simp at kept

theorem cString_of_free {command : Bytes} (free : 0 ∉ command) : cString command = command := by
  apply List.takeWhile_eq_self_iff.mpr
  intro b member
  simp only [bne_iff_ne,ne_eq]
  rintro rfl
  exact free member

theorem cString_strcpy {command : Bytes} (free : 0 ∉ command) (target : Bytes) :
    cString (strcpy target command) = command := by
  have all : ∀ b ∈ command, (b != 0) = true := by
    intro b member
    simp only [bne_iff_ne,ne_eq]
    rintro rfl
    exact free member
  simp [cString,strcpy,List.takeWhile_append_of_pos all]

theorem memcpy_take (data : Bytes) {offset : Nat} (source : Bytes) (room : offset + source.length ≤ data.length) :
    (memcpy data offset source).take (offset + source.length) = data.take offset ++ source ∧
      (memcpy data offset source).length = data.length := by
  have front : (data.take offset ++ source).length = offset + source.length := by
    rw [List.length_append,List.length_take]
    omega
  refine ⟨?_,?_⟩
  · rw [memcpy,← front,List.take_left]
  · rw [memcpy,List.length_append,front,List.length_drop]
    omega

-- What is queued is a C string that fits its slot with the terminator.
theorem handleCommand_queued {client : Client} {command : Bytes} (size : client.command.length < commandCapacity)
    (answer : handleCommand client = .enqueue command) :
    0 ∉ command ∧ newline ∉ command ∧ command.length + 1 < commandCapacity ∧
      (command = text "reload" ∨ text "dispatch " <+: command) := by
  simp only [handleCommand] at answer
  split at answer
  · rename_i complete
    have line : command = (cString client.command).takeWhile (· != newline) ∧
        (command = text "reload" ∨ text "dispatch " <+: command) := by
      simp only [recognise] at answer
      repeat' split at answer
      all_goals first | cases answer; done | skip
      · cases answer
        exact ⟨rfl,.inl (by assumption)⟩
      · cases answer
        exact ⟨rfl,.inr (List.isPrefixOf_iff_prefix.mp (by assumption))⟩
    obtain ⟨rfl,kind⟩ := line
    refine ⟨?_,?_,?_,kind⟩
    · exact fun member => cString_free _ ((List.takeWhile_prefix _).subset member)
    · intro member
      have kept := List.mem_takeWhile_imp member
      simp at kept
    · have short : ((cString client.command).takeWhile (· != newline)).length < (cString client.command).length := by
        refine lt_of_le_of_ne (List.takeWhile_prefix _).length_le ?_
        intro equal
        have whole := (List.takeWhile_prefix (· != newline)).eq_of_length equal
        have all := List.takeWhile_eq_self_iff.mp whole newline (by simpa using complete)
        simp at all
      have string : (cString client.command).length ≤ client.command.length := (List.takeWhile_prefix _).length_le
      omega
  · cases answer

-- A complete line of a client, as the server sees it.
theorem handleCommand_line {fd : Nat} {line : Bytes} (free : 0 ∉ line) (single : newline ∉ line) :
    handleCommand ⟨fd,false,.default,line ++ [newline]⟩ = recognise line := by
  have whole : cString (line ++ [newline]) = line ++ [newline] := by
    apply cString_of_free
    rw [List.mem_append,not_or]
    exact ⟨free,by decide⟩
  have before : ∀ b ∈ line, (b != newline) = true := by
    intro b member
    simp only [bne_iff_ne,ne_eq]
    rintro rfl
    exact single member
  have complete : (line ++ [newline]).contains newline = true := by simp
  simp only [handleCommand,whole,complete,if_true]
  rw [List.takeWhile_append_of_pos before]
  simp

theorem recognise_dispatch {line : Bytes} (lead : text "dispatch " <+: line) : recognise line = .enqueue line := by
  have other : ∀ name : Bytes, ¬text "dispatch " <+: name → line ≠ name := by
    rintro name none rfl
    exact none lead
  simp only [recognise]
  rw [if_neg (other _ (by decide)),if_neg (other _ (by decide)),if_neg (other _ (by decide)),
    if_neg (other _ (by decide)),if_neg (other _ (by decide)),if_neg (other _ (by decide)),
    if_pos (List.isPrefixOf_iff_prefix.mpr lead)]

theorem requestable_dispatch {line : Bytes} (lead : text "dispatch " <+: line) : requestable line = true := by
  simp only [requestable,List.isPrefixOf_iff_prefix.mpr lead,Bool.or_true]

end Hypringo.Control

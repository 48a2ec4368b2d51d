import Hypringo.Lua.Pattern

namespace Hypringo.HyprlandEvents
open Hypringo.Lua Pattern

def newline : UInt8 := 10
def carriageReturn : UInt8 := 13

def relevantEvents : List Bytes :=
  ["activewindow","activewindowv2","changefloatingmode","closewindow","configreloaded","createworkspace",
   "createworkspacev2","destroyworkspace","destroyworkspacev2","focusedmon","fullscreen","monitoradded",
   "monitoraddedv2","monitorremoved","movewindow","movewindowv2","moveworkspace","moveworkspacev2","openwindow","pin",
   "renameworkspace","urgent","windowtitle","windowtitlev2","workspace","workspacev2"].map text

-- ^([%w_]+)>>
def eventPattern : Anchored := ⟨[],[.plus (either alphanumeric (byte 95))],literal (text ">>"),false⟩

-- gsub("\r$","")
def stripReturn (line : Bytes) : Bytes := if line.getLast? = some carriageReturn then line.dropLast else line

def relevant (line : Bytes) : Bool :=
  match eventPattern.matches (stripReturn line) with
  | some name => relevantEvents.contains name
  | none => false

-- The complete lines, and what follows the last newline.
def lines : Bytes → List Bytes × Bytes
  | [] => ([],[])
  | b :: rest =>
    let (complete,remainder) := lines rest
    if b = newline then ([] :: complete,remainder)
    else match complete with
      | [] => ([],b :: remainder)
      | line :: others => ((b :: line) :: others,remainder)

def bufferLimit : Nat := 1024 * 1024

structure Consumed where
  remainder : Bytes
  relevant : Bool
  count : Nat
  deriving DecidableEq, Repr

def consumeEvents (buffer chunk : Bytes) : Except Bytes Consumed :=
  let buffer := buffer ++ chunk
  if bufferLimit < buffer.length then .error (text "Hyprland event buffer exceeds 1 MiB")
  else
    let (complete,remainder) := lines buffer
    .ok ⟨remainder,complete.any relevant,(complete.filter relevant).length⟩

-- Lines as they are written to a stream.
def joined (complete : List Bytes) : Bytes := (complete.map (fun line => line ++ [newline])).flatten

theorem joined_cons (line : Bytes) (rest : List Bytes) : joined (line :: rest) = line ++ newline :: joined rest := by
  simp [joined]

theorem joined_append (first second : List Bytes) : joined (first ++ second) = joined first ++ joined second := by
  simp [joined]

theorem joined_nil_iff {complete : List Bytes} : joined complete = [] ↔ complete = [] := by
  cases complete with
  | nil => simp [joined]
  | cons line rest => simp [joined_cons]

structure Split (s : Bytes) (complete : List Bytes) (remainder : Bytes) : Prop where
  whole : s = joined complete ++ remainder
  single : ∀ line ∈ complete, newline ∉ line
  unfinished : newline ∉ remainder

theorem lines_split (s : Bytes) : Split s (lines s).1 (lines s).2 := by
  induction s with
  | nil => exact ⟨rfl,by simp [lines],by simp [lines]⟩
  | cons b rest ih =>
    obtain ⟨whole,single,unfinished⟩ := ih
    simp only [lines]
    split
    · rename_i ended
      refine ⟨?_,?_,unfinished⟩
      · rw [joined_cons,ended]
        simpa using whole
      · intro line listed
        rcases List.mem_cons.mp listed with rfl | old
        · simp
        · exact single line old
    · rename_i ordinary
      split
      · rename_i none
        rw [none] at whole
        refine ⟨?_,by simp,?_⟩
        · simpa [joined] using whole
        · rw [List.mem_cons,not_or]
          exact ⟨fun same => ordinary same.symm,unfinished⟩
      · rename_i line others held
        rw [held] at whole single
        refine ⟨?_,?_,unfinished⟩
        · rw [joined_cons] at whole ⊢
          simpa using whole
        · intro other listed
          rcases List.mem_cons.mp listed with rfl | old
          · rw [List.mem_cons,not_or]
            exact ⟨fun same => ordinary same.symm,single line (by simp)⟩
          · exact single other (by simp [old])

-- The first newline ends the first line, however what follows is cut.
theorem first_line {line other left right : Bytes} (single : newline ∉ line) (alone : newline ∉ other)
    (same : line ++ newline :: left = other ++ newline :: right) : line = other ∧ left = right := by
  induction line generalizing other with
  | nil =>
    cases other with
    | nil => exact ⟨rfl,by simpa using same⟩
    | cons b rest =>
      simp only [List.nil_append,List.cons_append,List.cons.injEq] at same
      exact absurd same.1 (fun equal => alone (by simp [equal]))
  | cons b rest ih =>
    cases other with
    | nil =>
      simp only [List.nil_append,List.cons_append,List.cons.injEq] at same
      exact absurd same.1.symm (fun equal => single (by simp [equal]))
    | cons c others =>
      simp only [List.cons_append,List.cons.injEq] at same
      obtain ⟨equal,tail⟩ := ih (fun member => single (by simp [member])) (fun member => alone (by simp [member])) same.2
      exact ⟨by rw [same.1,equal],tail⟩

-- Complete lines at the front of a stream are the first lines written to it.
theorem complete_prefix {complete written : List Bytes} {rest : Bytes} (single : ∀ line ∈ complete, newline ∉ line)
    (alone : ∀ line ∈ written, newline ∉ line) (same : joined complete ++ rest = joined written) :
    ∃ others, written = complete ++ others ∧ rest = joined others := by
  induction complete generalizing written with
  | nil => exact ⟨written,rfl,same⟩
  | cons line complete ih =>
    cases written with
    | nil => simp [joined] at same
    | cons other written =>
      rw [joined_cons,joined_cons,List.append_assoc,List.cons_append] at same
      obtain ⟨rfl,tail⟩ := first_line (single line (by simp)) (alone other (by simp)) same
      obtain ⟨others,rfl,left⟩ := ih (fun line member => single line (by simp [member]))
        (fun line member => alone line (by simp [member])) tail
      exact ⟨others,rfl,left⟩

theorem consumeEvents_ok {buffer chunk : Bytes} {consumed : Consumed} (done : consumeEvents buffer chunk = .ok consumed) :
    consumed.remainder = (lines (buffer ++ chunk)).2 ∧ consumed.relevant = (lines (buffer ++ chunk)).1.any relevant ∧
      consumed.count = ((lines (buffer ++ chunk)).1.filter relevant).length := by
  unfold consumeEvents at done
  dsimp only at done
  split at done
  · cases done
  · cases done
    exact ⟨rfl,rfl,rfl⟩

example : consumeEvents (text "activewin") (text "dow>>a,b\r\nsubmap>>x\nworksp") =
    .ok ⟨text "worksp",true,1⟩ := by decide

theorem index_split {s : Bytes} {index : Nat} (found : s.idxOf? newline = some index) :
    index < s.length ∧ s = s.take index ++ newline :: s.drop (index + 1) ∧ newline ∉ s.take index := by
  induction s generalizing index with
  | nil => cases found
  | cons b rest ih =>
    rw [List.idxOf?_cons] at found
    split at found
    · rename_i ended
      cases found
      have ended : b = newline := by simpa using ended
      subst b
      exact ⟨by simp,by simp,by simp⟩
    · rename_i ordinary
      have ordinary : b ≠ newline := by simpa using ordinary
      obtain ⟨before,later,rfl⟩ := Option.map_eq_some_iff.mp found
      obtain ⟨bound,whole,single⟩ := ih later
      refine ⟨by simpa using bound,?_,?_⟩
      · rw [List.take_succ_cons,List.drop_succ_cons,List.cons_append,← whole]
      · rw [List.take_succ_cons,List.mem_cons,not_or]
        exact ⟨ordinary.symm,single⟩

-- buffer:find("\n",start,true) and buffer:sub(first,last), which count from one.
def find (buffer : Bytes) (start : Nat) : Option Nat :=
  ((buffer.drop (start - 1)).idxOf? newline).map (start + ·)

def sub (buffer : Bytes) (first last : Nat) : Bytes := (buffer.take last).drop (first - 1)

theorem find_within {buffer : Bytes} {start found : Nat} (search : find buffer start = some found) :
    start ≤ found ∧ found - start < buffer.length - (start - 1) := by
  obtain ⟨index,held,rfl⟩ := Option.map_eq_some_iff.mp search
  have bound := (index_split held).1
  rw [List.length_drop] at bound
  omega

-- The loop of consume_events.
def scan (buffer : Bytes) (start : Nat) (found : Bool) (count : Nat) : Consumed :=
  match search : find buffer start with
  | none => ⟨sub buffer start buffer.length,found,count⟩
  | some position =>
    let line := sub buffer start (position - 1)
    if relevant line then scan buffer (position + 1) true (count + 1)
    else scan buffer (position + 1) found count
termination_by buffer.length + 1 - start
decreasing_by all_goals have within := find_within search; omega

def consumeEventsLoop (buffer chunk : Bytes) : Except Bytes Consumed :=
  let buffer := buffer ++ chunk
  if bufferLimit < buffer.length then .error (text "Hyprland event buffer exceeds 1 MiB")
  else .ok (scan buffer 1 false 0)

theorem lines_unfinished {s : Bytes} (single : newline ∉ s) : lines s = ([],s) := by
  induction s with
  | nil => rfl
  | cons b rest ih =>
    rw [List.mem_cons,not_or] at single
    simp only [lines,ih single.2,if_neg (Ne.symm single.1)]

theorem lines_first {line : Bytes} (single : newline ∉ line) (rest : Bytes) :
    lines (line ++ newline :: rest) = (line :: (lines rest).1,(lines rest).2) := by
  induction line with
  | nil => simp [lines]
  | cons b line ih =>
    rw [List.mem_cons,not_or] at single
    rw [List.cons_append]
    simp only [lines,ih single.2,if_neg (Ne.symm single.1)]

theorem lines_joined {complete : List Bytes} (single : ∀ line ∈ complete, newline ∉ line) (rest : Bytes) :
    lines (joined complete ++ rest) = (complete ++ (lines rest).1,(lines rest).2) := by
  induction complete with
  | nil => simp [joined]
  | cons line complete ih =>
    rw [joined_cons,List.append_assoc,List.cons_append,lines_first (single line (by simp)),
      ih (fun line member => single line (by simp [member]))]
    simp

-- Wherever a stream is cut, the unfinished line before the cut is carried over it.
theorem lines_append (first rest : Bytes) :
    lines (first ++ rest) = ((lines first).1 ++ (lines ((lines first).2 ++ rest)).1,(lines ((lines first).2 ++ rest)).2) := by
  obtain ⟨whole,single,_⟩ := lines_split first
  conv => lhs; rw [whole,List.append_assoc]
  exact lines_joined single _

theorem find_line {buffer : Bytes} {start position : Nat} (started : 1 ≤ start)
    (search : find buffer start = some position) :
    newline ∉ sub buffer start (position - 1) ∧
      buffer.drop (start - 1) = sub buffer start (position - 1) ++ newline :: buffer.drop (position + 1 - 1) := by
  obtain ⟨index,held,rfl⟩ := Option.map_eq_some_iff.mp search
  obtain ⟨_,whole,single⟩ := index_split held
  have line : sub buffer start (start + index - 1) = (buffer.drop (start - 1)).take index := by
    rw [sub,List.take_drop]
    congr 2
    omega
  have after : (buffer.drop (start - 1)).drop (index + 1) = buffer.drop (start + index + 1 - 1) := by
    rw [List.drop_drop]
    congr 1
    omega
  rw [line]
  exact ⟨single,by rw [← after]; exact whole⟩

-- A turn of the loop takes the first of the lines that are left.
theorem scan_lines (buffer : Bytes) (start : Nat) (found : Bool) (count : Nat) (started : 1 ≤ start) :
    scan buffer start found count =
      ⟨(lines (buffer.drop (start - 1))).2,found || (lines (buffer.drop (start - 1))).1.any relevant,
        count + ((lines (buffer.drop (start - 1))).1.filter relevant).length⟩ := by
  fun_induction scan buffer start found count with
  | case1 start found count search =>
    have single : newline ∉ buffer.drop (start - 1) := by simpa [find] using search
    rw [lines_unfinished single]
    simp [sub]
  | case2 start found count position search line hit ih =>
    obtain ⟨single,whole⟩ := find_line started search
    have counted : relevant (sub buffer start (position - 1)) = true := hit
    rw [ih (by omega),whole,lines_first single]
    simp only [List.any_cons,List.filter_cons,counted,if_true,List.length_cons,Bool.true_or,Bool.or_true]
    rw [Nat.add_assoc,Nat.add_comm 1]
  | case3 start found count position search line miss ih =>
    obtain ⟨single,whole⟩ := find_line started search
    have skipped : relevant (sub buffer start (position - 1)) = false := by simpa using miss
    rw [ih (by omega),whole,lines_first single]
    simp only [List.any_cons,List.filter_cons,skipped,Bool.false_or,Bool.false_eq_true,if_false]

theorem consumeEventsLoop_lines (buffer chunk : Bytes) : consumeEventsLoop buffer chunk = consumeEvents buffer chunk := by
  simp only [consumeEventsLoop,consumeEvents,scan_lines _ 1 false 0 (Nat.le_refl 1)]
  simp

def word : Pattern.Class := either alphanumeric (byte 95)
def mark : Bytes := text ">>"

theorem mark_stops {b : UInt8} (inside : word b = true) (rest : Bytes) (next : Bytes → Option α) :
    run (literal mark) (b :: rest) next = none := by
  have other : ¬ mark.isPrefixOf (b :: rest) = true := by
    intro starts
    have same : 62 = b := (List.cons_prefix_cons.mp (List.isPrefixOf_iff_prefix.mp starts)).1
    subst same
    revert inside
    decide
  rw [run_literal,if_neg other]

theorem word_taken (s : Bytes) : s.take (s.length - (s.dropWhile word).length) = s.takeWhile word := by
  have split : s.takeWhile word ++ s.dropWhile word = s := List.takeWhile_append_dropWhile
  have size := congrArg List.length split
  rw [List.length_append] at size
  conv => lhs; arg 2; rw [← split]
  rw [← size,Nat.add_sub_cancel,List.take_left]

theorem event_matches (line : Bytes) :
    eventPattern.matches line =
      if !(line.takeWhile word).isEmpty && mark.isPrefixOf (line.dropWhile word) then some (line.takeWhile word)
      else none := by
  have body : eventPattern.matches line =
      run [.plus word] line fun tail => run (literal mark) tail fun _ => some (line.take (line.length - tail.length)) := rfl
  rw [body]
  cases line with
  | nil => rfl
  | cons b rest =>
    rw [run]
    by_cases inside : word b = true
    · rw [if_pos inside,expand_stop (fun b rest inside => mark_stops inside rest _)]
      have tail : rest.dropWhile word = (b :: rest).dropWhile word := by rw [List.dropWhile_cons_of_pos inside]
      rw [run,run_literal,tail,word_taken]
      simp [inside]
    · rw [if_neg inside]
      simp [inside]

-- The lines that count, by what they hold.
def Relevant (line : Bytes) : Prop :=
  ∃ name rest, stripReturn line = name ++ mark ++ rest ∧ plusText word name = true ∧ name ∈ relevantEvents

theorem relevant_iff (line : Bytes) : relevant line = true ↔ Relevant line := by
  unfold relevant
  rw [event_matches]
  constructor
  · intro hit
    split at hit
    · rename_i name read
      split at read
      · rename_i named
        cases read
        simp only [Bool.and_eq_true,Bool.not_eq_true',List.isPrefixOf_iff_prefix] at named
        obtain ⟨rest,follows⟩ := named.2
        refine ⟨_,rest,?_,?_,List.contains_iff_mem.mp hit⟩
        · rw [List.append_assoc,follows,List.takeWhile_append_dropWhile]
        · simp only [plusText,named.1,Bool.not_false,Bool.true_and]
          exact List.all_takeWhile
      · cases read
    · cases hit
  · rintro ⟨name,rest,shape,named,listed⟩
    simp only [plusText,Bool.and_eq_true,Bool.not_eq_true',List.all_eq_true] at named
    have head : (stripReturn line).takeWhile word = name := by
      rw [shape,List.append_assoc,List.takeWhile_append_of_pos named.2]
      simp [mark,text,word,either,alphanumeric,digit,letter,byte]
    have tail : (stripReturn line).dropWhile word = mark ++ rest := by
      rw [shape,List.append_assoc,List.dropWhile_append_of_pos named.2]
      simp [mark,text,word,either,alphanumeric,digit,letter,byte]
    simp [head,tail,named.1,listed]

instance (line : Bytes) : Decidable (Relevant line) := decidable_of_iff _ (relevant_iff line)

-- The service's use of it: the remainder is handed to the next call.
def consumeStep (held : Consumed) (chunk : Bytes) : Except Bytes Consumed := do
  let step ← consumeEventsLoop held.remainder chunk
  return ⟨step.remainder,held.relevant || step.relevant,held.count + step.count⟩

def consumeChunks (chunks : List Bytes) : Except Bytes Consumed := chunks.foldlM consumeStep ⟨[],false,0⟩

-- One pass over the whole stream.
def reference (stream : Bytes) : Consumed := scan stream 1 false 0

theorem reference_lines (stream : Bytes) :
    reference stream = ⟨(lines stream).2,(lines stream).1.any relevant,((lines stream).1.filter relevant).length⟩ := by
  simpa [reference] using scan_lines stream 1 false 0 (Nat.le_refl 1)

theorem consumeEventsLoop_raises (buffer chunk : Bytes) :
    (∃ message, consumeEventsLoop buffer chunk = .error message) ↔ bufferLimit < buffer.length + chunk.length := by
  unfold consumeEventsLoop
  simp only [List.length_append]
  split
  · rename_i beyond
    exact ⟨fun _ => beyond,fun _ => ⟨_,rfl⟩⟩
  · rename_i inside
    exact ⟨fun ⟨_,raised⟩ => (by cases raised),fun beyond => absurd beyond inside⟩

-- A call that does not raise carries the pass over the stream so far to the
-- pass over the stream with the chunk.
theorem consumeStep_reference {stream chunk : Bytes} {next : Consumed}
    (taken : consumeStep (reference stream) chunk = .ok next) : next = reference (stream ++ chunk) := by
  unfold consumeStep at taken
  rw [consumeEventsLoop_lines] at taken
  cases step : consumeEvents (reference stream).remainder chunk with
  | error message =>
    rw [step] at taken
    cases taken
  | ok consumed =>
    rw [step] at taken
    cases taken
    obtain ⟨remainder,found,count⟩ := consumeEvents_ok step
    rw [remainder,found,count]
    simp only [reference_lines,lines_append stream chunk,List.any_append,List.filter_append,List.length_append]

theorem foldlM_reference {chunks : List Bytes} {stream : Bytes} {final : Consumed}
    (folded : chunks.foldlM consumeStep (reference stream) = .ok final) :
    final = reference (stream ++ chunks.flatten) := by
  induction chunks generalizing stream with
  | nil =>
    cases folded
    simp
  | cons chunk rest ih =>
    rw [List.foldlM_cons] at folded
    cases step : consumeStep (reference stream) chunk with
    | error message =>
      rw [step] at folded
      cases folded
    | ok next =>
      rw [step] at folded
      cases consumeStep_reference step
      rw [List.flatten_cons,← List.append_assoc]
      exact ih folded

theorem consumeChunks_reference {chunks : List Bytes} {final : Consumed} (folded : consumeChunks chunks = .ok final) :
    final = reference chunks.flatten := by
  have start : reference [] = ⟨[],false,0⟩ := by simp [reference_lines,lines]
  unfold consumeChunks at folded
  rw [← start] at folded
  exact foldlM_reference folded

-- The pass over a stream, by the lines of the stream.
theorem reference_split (stream : Bytes) : ∃ complete, Split stream complete (reference stream).remainder ∧
    (reference stream).count = (complete.filter (fun line => decide (Relevant line))).length ∧
      ((reference stream).relevant = true ↔ ∃ line ∈ complete, Relevant line) := by
  have same : (fun line => decide (Relevant line)) = relevant := by
    funext line
    rw [Bool.eq_iff_iff,decide_eq_true_iff,relevant_iff]
  rw [reference_lines,same]
  exact ⟨(lines stream).1,lines_split stream,rfl,by simp [relevant_iff]⟩

theorem events_as_one_pass (chunks : List Bytes) :
    (∀ final, consumeChunks chunks = .ok final → final = reference chunks.flatten ∧
      ∃ complete, Split chunks.flatten complete final.remainder ∧
        final.count = (complete.filter (fun line => decide (Relevant line))).length ∧
          (final.relevant = true ↔ ∃ line ∈ complete, Relevant line)) ∧
      ∀ buffer chunk, (∃ message, consumeEventsLoop buffer chunk = .error message) ↔
        bufferLimit < buffer.length + chunk.length := by
  refine ⟨?_,consumeEventsLoop_raises⟩
  intro final folded
  cases consumeChunks_reference folded
  exact ⟨rfl,reference_split chunks.flatten⟩

def cutChunks : List Bytes :=
  [text "activewindow>",text ">kitty,Title\r",text "\nsubmap>>resize\nworkspace",text ">>2\nurge"]

theorem cut_events_as_one_pass : ∃ complete, Split cutChunks.flatten complete (text "urge") ∧
    2 = (complete.filter (fun line => decide (Relevant line))).length := by
  have folded : consumeChunks cutChunks = .ok ⟨text "urge",true,2⟩ := by
    simp only [consumeChunks,cutChunks,List.foldlM_cons,consumeStep,consumeEventsLoop_lines]
    decide
  obtain ⟨complete,split,count,_⟩ := ((events_as_one_pass cutChunks).1 _ folded).2
  exact ⟨complete,split,count⟩

end Hypringo.HyprlandEvents

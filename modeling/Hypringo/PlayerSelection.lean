import Hypringo.Mpris
import Hypringo.Selection

namespace Hypringo.PlayerSelection
open Hypringo.Lua Mpris Selection

-- The player a listed name stands for, when it is one and can be read.
def candidate (entry : Bytes × Replies) : Option Player :=
  if isMprisName entry.1 then readPlayer entry.1 entry.2 else none

def candidates (names : List (Bytes × Replies)) : List Player := names.filterMap candidate

theorem metadata_busName (player : Player) (entries : List (Bytes × Variant)) :
    (entries.foldl readMetadataValue player).busName = player.busName ∧
      (entries.foldl readMetadataValue player).status = player.status := by
  induction entries generalizing player with
  | nil => exact ⟨rfl,rfl⟩
  | cons entry rest ih =>
    have kept : (readMetadataValue player entry).busName = player.busName ∧
        (readMetadataValue player entry).status = player.status := by
      obtain ⟨key,variant⟩ := entry
      cases variant with
      | string value =>
        simp only [readMetadataValue]
        split
        · exact ⟨rfl,rfl⟩
        split
        · exact ⟨rfl,rfl⟩
        split
        · exact ⟨rfl,rfl⟩
        · exact ⟨rfl,rfl⟩
      | strings values =>
        simp only [readMetadataValue]
        split
        · exact ⟨rfl,rfl⟩
        · exact ⟨rfl,rfl⟩
      | other => exact ⟨rfl,rfl⟩
    obtain ⟨name,status⟩ := ih (readMetadataValue player entry)
    exact ⟨name.trans kept.1,status.trans kept.2⟩

theorem readPlayer_own {name : Bytes} {replies : Replies} {player : Player} (read : readPlayer name replies = some player) :
    player.busName = name ∧ replies.status = some player.status := by
  unfold readPlayer at read
  split at read
  · cases read
  · rename_i status answered
    obtain rfl := Option.some.inj read
    obtain ⟨busName,kept⟩ := metadata_busName _ replies.metadata
    exact ⟨busName,answered.trans (congrArg some kept.symm)⟩

theorem candidate_some {entry : Bytes × Replies} {player : Player} :
    candidate entry = some player ↔ isMprisName entry.1 = true ∧ readPlayer entry.1 entry.2 = some player := by
  unfold candidate
  by_cases mpris : isMprisName entry.1 = true
  · simp [mpris]
  · simp [mpris]

theorem consider_skips (selected : Option Player) (entry : Bytes × Replies) (none : candidate entry = none) :
    consider selected entry = selected := by
  unfold candidate at none
  unfold consider
  by_cases mpris : isMprisName entry.1 = true
  · rw [if_pos mpris] at none ⊢
    rw [none]
  · rw [if_neg mpris]

-- The preference as written is the one by rank and then by name.
theorem consider_picks (selected : Option Player) (entry : Bytes × Replies) (found : Player)
    (read : candidate entry = some found) :
    consider selected entry = pick (ranked playerRank Player.busName) selected found := by
  obtain ⟨mpris,answered⟩ := candidate_some.mp read
  unfold consider
  rw [if_pos mpris,answered]
  cases selected with
  | none => rfl
  | some chosen => rfl

theorem selectPlayer_select (names : List (Bytes × Replies)) :
    selectPlayer (.names names none) = .ok (select (ranked playerRank Player.busName) (candidates names)) :=
  congrArg Except.ok (fold_candidates (fun selected entry _ => consider_skips selected entry)
    (fun selected entry _ => consider_picks selected entry))

-- Only MPRIS names have to be distinct, as they are on a bus.
def Distinct (names : List (Bytes × Replies)) : Prop := ((names.map Prod.fst).filter isMprisName).Nodup

theorem candidates_mpris (names : List (Bytes × Replies)) :
    candidates names = (names.filter fun entry => isMprisName entry.1).filterMap candidate := by
  rw [candidates,List.filterMap_filter]
  congr 1
  funext entry
  unfold candidate
  by_cases mpris : isMprisName entry.1 = true
  · rw [if_pos mpris,if_pos mpris]
  · rw [if_neg mpris,if_neg mpris]

theorem players_distinct {names : List (Bytes × Replies)} (distinct : Distinct names) :
    ((candidates names).map Player.busName).Nodup := by
  rw [candidates_mpris]
  refine candidates_distinct (?_ : ∀ entry ∈ _, ∀ player, candidate entry = some player → player.busName = entry.1) ?_
  · intro entry _ player found
    exact (readPlayer_own (candidate_some.mp found).2).1
  · rw [Distinct,List.filter_map] at distinct
    exact distinct

-- The readable player that plays rather than pauses rather than does neither,
-- and of those the first by name; taken as one record from its own replies.
structure Selected (names : List (Bytes × Replies)) (player : Player) : Prop where
  own : ∃ entry ∈ names, isMprisName entry.1 = true ∧ readPlayer entry.1 entry.2 = some player
  highest : ∀ entry ∈ names, isMprisName entry.1 = true → ∀ other, readPlayer entry.1 entry.2 = some other →
    playerRank other ≤ playerRank player
  smallest : ∀ entry ∈ names, isMprisName entry.1 = true → ∀ other, readPlayer entry.1 entry.2 = some other →
    playerRank other = playerRank player → other = player ∨ player.busName < entry.1

def Says (status : String) (player : Player) : Prop := equalIgnoringCase player.status (text status) = true

-- A player that plays stands above one that pauses, and that one above any other.
theorem playerRank_le {player other : Player} :
    playerRank other ≤ playerRank player ↔
      (Says "Playing" other → Says "Playing" player) ∧
      (Says "Paused" other → Says "Playing" player ∨ Says "Paused" player) := by
  have apart : ∀ one : Player, ¬(Says "Playing" one ∧ Says "Paused" one) := by
    rintro one ⟨plays,pauses⟩
    have same := (beq_iff_eq.mp plays).symm.trans (beq_iff_eq.mp pauses)
    exact absurd same (by decide)
  have alone := apart other
  simp only [playerRank,Says] at alone ⊢
  split <;> split <;> (try split) <;> (try split) <;> simp_all

theorem selectPlayer_best {names : List (Bytes × Replies)} (distinct : Distinct names) :
    ((selectPlayer (.names names none) = .ok none ∧
        ∀ entry ∈ names, isMprisName entry.1 = true → readPlayer entry.1 entry.2 = none) ∨
      ∃ player, selectPlayer (.names names none) = .ok (some player) ∧ Selected names player) ∧
    ∀ shuffled : List (Bytes × Replies), names.Perm shuffled →
      selectPlayer (.names shuffled none) = selectPlayer (.names names none) := by
  have total : Total (ranked playerRank Player.busName) (candidates names) := ranked_total (players_distinct distinct)
  have among : ∀ entry ∈ names, isMprisName entry.1 = true → ∀ other, readPlayer entry.1 entry.2 = some other →
      other ∈ candidates names := fun entry listed mpris other read =>
    List.mem_filterMap.mpr ⟨entry,listed,candidate_some.mpr ⟨mpris,read⟩⟩
  refine ⟨?_,?_⟩
  · rw [selectPlayer_select]
    rcases select_best total with ⟨nothing,empty⟩ | ⟨player,picked,best⟩
    · refine .inl ⟨congrArg _ nothing,?_⟩
      intro entry listed mpris
      by_contra readable
      obtain ⟨other,read⟩ := Option.ne_none_iff_exists'.mp readable
      have member := among entry listed mpris other read
      rw [empty] at member
      exact List.not_mem_nil member
    · obtain ⟨highest,smallest⟩ := ranked_best best
      obtain ⟨entry,listed,found⟩ := List.mem_filterMap.mp best.member
      refine .inr ⟨player,congrArg _ picked,⟨entry,listed,candidate_some.mp found⟩,?_,?_⟩
      · exact fun entry listed mpris other read => highest other (among entry listed mpris other read)
      · intro entry listed mpris other read level
        by_cases same : other = player
        · exact .inl same
        · have smaller := smallest other (among entry listed mpris other read) level same
          rw [(readPlayer_own read).1] at smaller
          exact .inr smaller
  · intro shuffled perm
    rw [selectPlayer_select,selectPlayer_select]
    exact congrArg _ (select_perm total (perm.filterMap candidate))

def silent : Replies := { spotify with status := none }

-- An unreadable player, a name of another kind and two playing players.
def bus : List (Bytes × Replies) :=
  [(text "org.mpris.MediaPlayer2.aaa",silent),(text "org.mpris.MediaPlayer2.vlc",{ spotify with status := some (text "PLAYING") }),
   (text "org.freedesktop.DBus",spotify),(text "org.mpris.MediaPlayer2.spotify",spotify)]

theorem selectPlayer_best_bus :
    (selectPlayer (.names bus none)).map (·.map Player.busName) = .ok (some (text "org.mpris.MediaPlayer2.spotify")) ∧
    selectPlayer (.names bus.reverse none) = selectPlayer (.names bus none) ∧
    ∃ player, selectPlayer (.names bus none) = .ok (some player) ∧ Selected bus player := by
  have distinct : Distinct bus := by unfold Distinct; decide
  obtain ⟨chosen,order⟩ := selectPlayer_best distinct
  refine ⟨by decide,order bus.reverse (List.reverse_perm bus).symm,?_⟩
  rcases chosen with ⟨nothing,_⟩ | found
  · exact absurd nothing (by decide)
  · exact found

end Hypringo.PlayerSelection

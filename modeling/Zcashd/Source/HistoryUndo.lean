import Zcashd.Source.HistoryCoherence

/-!
Appending a leaf to a history tree and deleting it again (`src/coins.cpp:303-445`,
`:500-564`). `PopHistoryNode` resets a tree of one leaf, hashes the first leaf of a tree of
two and asks librustzcash otherwise. That the library's `delete` undoes its `append` is
assumed, of the trees a chain builds; that the nodes it is handed can be read is proved.
-/
namespace Zcashd.Source

open List Option Nat

/-! The drafted positions are inside the tree -/

namespace PeakWalk

def Inside (treeLength : Nat) (w : PeakWalk) : Prop :=
  w.lastPeakPos < treeLength ∧ ∀ place ∈ w.drafted, place.2 < treeLength

variable {treeLength : Nat} {w : PeakWalk}

theorem Inside.round (inside : w.Inside treeLength) : (w.round treeLength).Inside treeLength := by
  obtain ⟨last, drafted⟩ := inside
  have taken : ∀ (alt peakPos : Nat), peakPos < treeLength →
      ∀ place ∈ w.drafted ++ [(alt, peakPos)], place.2 < treeLength := by
    intro _ _ within place mem
    rcases mem_append.mp mem with old | new
    · exact drafted place old
    · rw [mem_singleton.mp new]
      exact within
  unfold PeakWalk.round
  by_cases outside : treeLength ≤ w.peakPos
  · simp only [outside, ↓reduceIte]
    split
    · rename_i within
      exact ⟨within, taken _ _ within⟩
    · exact ⟨last, drafted⟩
  · simp only [outside, ↓reduceIte]
    have within : w.peakPos < treeLength := Nat.lt_of_not_le outside
    rw [if_pos within]
    exact ⟨within, taken _ _ within⟩

theorem Inside.loop (fuel : Nat) (inside : w.Inside treeLength) :
    (PeakWalk.loop treeLength fuel w).Inside treeLength := by
  induction fuel generalizing w with
  | zero => exact inside
  | succ _ ih =>
    rw [PeakWalk.loop]
    split
    · exact inside
    · exact ih inside.round

end PeakWalk

theorem rightSlope_le (alt peakPos : Nat) :
    ∀ place ∈ rightSlope alt peakPos, place.2 ≤ peakPos := by
  induction alt generalizing peakPos with
  | zero => exact nofun
  | succ alt ih =>
    intro place mem
    rw [rightSlope, mem_cons, mem_cons] at mem
    rcases mem with rfl | rfl | later
    · exact sub_le _ _
    · exact sub_le _ _
    · exact le_trans (ih _ place later) (sub_le _ _)

theorem draftMMRNode_all {readAt : Nat → Option HistoryNode} {places : List (Nat × Nat)}
    (readable : ∀ place ∈ places, (readAt place.2).isSome) :
    ∃ entries, places.mapM (draftMMRNode readAt) = some entries := by
  induction places with
  | nil => exact ⟨[], rfl⟩
  | cons place _ ih =>
    have drafts : (draftMMRNode readAt place).isSome := by
      rw [draftMMRNode, isSome_map]
      exact readable place (by simp)
    obtain ⟨entry, first⟩ := isSome_iff_exists.mp drafts
    obtain ⟨entries, later⟩ := ih (fun other mem => readable other (by simp [mem]))
    refine ⟨entry :: entries, ?_⟩
    rw [mapM_cons, first, later]
    rfl

/-- Every node `PreloadHistoryTree` asks for is there. -/
theorem preloadHistoryTree_loads {nodes : List HistoryNode} (ne : 0 < nodes.length) (extra : Bool) :
    ∃ loaded, preloadHistoryTree nodes.length (fun i => nodes[i]?) extra = some loaded := by
  have readable : ∀ i, i < nodes.length → ((fun i => nodes[i]?) i).isSome := by
    intro i within
    simp [within]
  unfold preloadHistoryTree
  rw [if_neg (ne_of_gt ne)]
  split
  · obtain ⟨_, read⟩ := isSome_iff_exists.mp (readable 0 ne)
    dsimp only at read
    exact ⟨_, by rw [draftMMRNode, read]; rfl⟩
  · dsimp only
    have start : (PeakWalk.start nodes.length).Inside nodes.length := ⟨ne, nofun⟩
    obtain ⟨last, drafted⟩ := start.loop ((PeakWalk.start nodes.length).measure nodes.length)
    generalize PeakWalk.loop nodes.length _ (PeakWalk.start nodes.length) = w at last drafted ⊢
    have places :
        ∀ place ∈ (if extra then w.drafted ++ rightSlope w.lastPeakAlt w.lastPeakPos
        else w.drafted), place.2 < nodes.length := by
      intro place mem
      split at mem
      · rcases mem_append.mp mem with peak | slope
        · exact drafted place peak
        · exact lt_of_le_of_lt (rightSlope_le _ _ place slope) last
      · exact drafted place mem
    obtain ⟨entries, loads⟩ := draftMMRNode_all (fun place mem => readable _ (places place mem))
    exact ⟨_, map_eq_some_iff.mpr ⟨entries, loads, rfl⟩⟩

/-! Trees a chain builds -/

namespace EpochHistory

inductive Built (lib : MMRLibrary) (epochId : Nat) : EpochHistory → Prop
  | empty : Built lib epochId ⟨[], 0⟩
  | push {h h' : EpochHistory} {node : HistoryNode} (before : Built lib epochId h)
      (pushed : h.push lib epochId node = some h') : Built lib epochId h'

end EpochHistory

/-- `librustzcash_mmr_delete` undoes `librustzcash_mmr_append`; the second leaf of a tree comes
with the node above both. -/
structure MMRLibrary.Undoes (lib : MMRLibrary) : Prop where
  pair : ∀ {epochId h node h'}, EpochHistory.Built lib epochId h → h.nodes.length = 1 →
    h.push lib epochId node = some h' → h'.nodes.length = 3
  grows : ∀ {epochId h node h'}, EpochHistory.Built lib epochId h → 1 < h.nodes.length →
    h.push lib epochId node = some h' → h.nodes.length < h'.nodes.length
  delete : ∀ {epochId h node h' loaded}, EpochHistory.Built lib epochId h → 1 < h.nodes.length →
    h.push lib epochId node = some h' →
    preloadHistoryTree h'.nodes.length (fun i => h'.nodes[i]?) true = some loaded →
    lib.delete epochId h'.nodes.length loaded.2 loaded.1 (loaded.2.length - loaded.1) =
      (h.root, h'.nodes.length - h.nodes.length)

namespace EpochHistory

variable {lib : MMRLibrary} {epochId : Nat} {h h' : EpochHistory} {node : HistoryNode}

theorem push_prefix (pushed : h.push lib epochId node = some h') :
    h'.nodes.take h.nodes.length = h.nodes := by
  unfold push at pushed
  split at pushed
  · rename_i none
    rw [none, take_zero, length_eq_zero_iff.mp none]
  · obtain ⟨_, -, rfl⟩ := map_eq_some_iff.mp pushed
    exact take_left

theorem push_first (first : h.nodes.length = 0) (pushed : h.push lib epochId node = some h') :
    h'.nodes = [node] ∧ lib.hashNode epochId node = some h'.root := by
  rw [push, if_pos first] at pushed
  obtain ⟨_, hashed, rfl⟩ := map_eq_some_iff.mp pushed
  rw [length_eq_zero_iff.mp first]
  exact ⟨rfl, hashed⟩

/-- The sizes of a tree and the roots of the two smallest. -/
theorem Built.shape (undoes : lib.Undoes) (built : Built lib epochId h) :
    (h.nodes.length = 0 → h = ⟨[], 0⟩) ∧ h.nodes.length ≠ 2 ∧
      ∀ leaf, h.nodes = [leaf] → lib.hashNode epochId leaf = some h.root := by
  induction built with
  | empty => exact ⟨fun _ => rfl, by decide, nofun⟩
  | @push h _ _ old pushed _ =>
    rcases lt_trichotomy h.nodes.length 1 with _ | one | more
    · obtain ⟨nodes, root⟩ := push_first (by omega) pushed
      refine ⟨fun empty => by simp [nodes] at empty, by simp [nodes], ?_⟩
      intro leaf shape
      rw [nodes] at shape
      cases shape
      exact root
    · have size := undoes.pair old one pushed
      refine ⟨fun empty => by omega, by omega, fun leaf shape => ?_⟩
      rw [shape] at size
      cases size
    · have size := undoes.grows old more pushed
      refine ⟨fun empty => by omega, by omega, fun leaf shape => ?_⟩
      rw [shape, length_singleton] at size
      omega

/-- `PopHistoryNode` takes back what `PushHistoryNode` did. -/
theorem Built.pop_push (undoes : lib.Undoes) (built : Built lib epochId h)
    (pushed : h.push lib epochId node = some h') : h'.pop lib epochId = some h := by
  obtain ⟨emptyShape, _, single⟩ := built.shape undoes
  have kept := push_prefix pushed
  rcases Nat.lt_trichotomy h.nodes.length 1 with _ | one | more
  · obtain ⟨nodes, -⟩ := push_first (by omega) pushed
    rw [emptyShape (by omega), pop, nodes]
    rfl
  · have size := undoes.pair built one pushed
    obtain ⟨leaf, shape⟩ := length_eq_one_iff.mp one
    have head : h'.nodes[0]? = some leaf := by
      rw [← getElem?_take_of_lt (show 0 < h.nodes.length by omega), kept, shape]
      rfl
    simp only [pop, size, head, bind_some, single leaf shape, map_some, ← one, kept]
  · have size := undoes.grows built more pushed
    obtain ⟨_, loads⟩ := preloadHistoryTree_loads (show 0 < h'.nodes.length by omega) true
    have deleted := undoes.delete built more pushed loads
    unfold pop
    split
    · omega
    · omega
    · omega
    · omega
    · rw [loads, map_some, deleted]
      dsimp only
      rw [Nat.sub_sub_self (Nat.le_of_lt size), kept]

end EpochHistory

/-! The stand-in library -/

namespace MMRLibrary

variable {epochId : Nat} {h h' : EpochHistory} {node : HistoryNode}

theorem push_counting (pushed : h.push counting epochId node = some h') :
    h'.root = BitVec.ofNat 256 h'.nodes.length ∧
      h'.nodes.length = h.nodes.length + if h.nodes.length = 1 then 2 else 1 := by
  rw [EpochHistory.push] at pushed
  split at pushed
  · rename_i first
    cases pushed
    simp [first]
  · obtain ⟨_, -, rfl⟩ := map_eq_some_iff.mp pushed
    dsimp only [counting]
    split
    · rename_i one
      simp [one]
    · simp

theorem counting_undoes : counting.Undoes where
  pair _ one pushed := by
    have size := (push_counting pushed).2
    rw [if_pos one] at size
    omega
  grows _ more pushed := by
    have size := (push_counting pushed).2
    rw [if_neg (by omega)] at size
    omega
  delete {epochId h node h' loaded} built more pushed _ := by
    have size := (push_counting pushed).2
    rw [if_neg (by omega)] at size
    have root : h.root = BitVec.ofNat 256 h.nodes.length := by
      cases built with
      | empty => rfl
      | push _ old => exact (push_counting old).1
    simp only [counting, root, size, Nat.add_sub_cancel, Nat.add_sub_cancel_left]

end MMRLibrary

end Zcashd.Source

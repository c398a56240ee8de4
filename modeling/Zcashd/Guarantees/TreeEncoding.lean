import Zcashd.Source.TreeFormat

/-!
# Reading back trees and witnesses

The slots of a tree that some leaves lead to are exactly those that `wfcheck` lets through, so
a tree survives being written and read, and a tree that was read behaves like one that was
built. A witness loses its cursor depth on the way, which is only looked at when there is a
cursor, and then is what reading computes.
-/
namespace Zcashd.Guarantees.TreeEncoding

open Lib Lib.MerkleTree Source Source.IncrementalMerkleTree List Nat TreeEncoding

variable {H : MerkleHash}

/-- The trees that appends lead to. -/
def Reachable (H : MerkleHash) (t : IncrementalMerkleTree) : Prop :=
  ∃ l, empty.appendAll H l = some t

/-- Which slots are set. -/
def shape (t : IncrementalMerkleTree) : Bool × Bool × List Bool :=
  (t.left.isSome, t.right.isSome, t.parents.map Option.isSome)

/-- Further appends: what each one throws, and the object after them. -/
def reacts {σ : Type} (append : Uint256 → EStateM TreeError σ Unit) :
    σ → List Uint256 → List (Option TreeError) × σ
  | s, [] => ([], s)
  | s, obj :: rest =>
    match (append obj).run s with
    | .ok _ s => let later := reacts append s rest; (none :: later.1, later.2)
    | .error thrown s => let later := reacts append s rest; (some thrown :: later.1, later.2)

/-- The witnesses of reachable trees, after any appends. -/
def WitnessReachable (H : MerkleHash) (w : IncrementalWitness) : Prop :=
  ∃ t objs, Reachable H t ∧ w = (reacts (IncrementalWitness.append H) t.witness objs).2

section

variable {t : IncrementalMerkleTree}

theorem appendAll_holding_some {l m : List Uint256} (fits : l.length ≤ 2 ^ H.depth)
    (ran : (holding H l).appendAll H m = some t) :
    (l ++ m).length ≤ 2 ^ H.depth ∧ t = holding H (l ++ m) := by
  induction m generalizing l with
  | nil =>
    cases ran
    rw [append_nil]
    exact ⟨fits, rfl⟩
  | cons _ _ ih =>
    by_cases full : l.length = 2 ^ H.depth
    · rw [appendAll, append_holding_full full] at ran
      cases ran
    · have room : l.length < 2 ^ H.depth := lt_of_le_of_ne fits full
      rw [appendAll, append_holding room, Option.bind_some] at ran
      have further := ih (by rw [length_append]; exact room) ran
      rwa [append_assoc, singleton_append] at further

theorem reachable_iff : Reachable H t ↔
    ∃ l : List Uint256, l.length ≤ 2 ^ H.depth ∧ t = holding H l := by
  constructor
  · rintro ⟨l, ran⟩
    exact ⟨l, appendAll_holding_some (l := []) (zero_le _) ran⟩
  · rintro ⟨l, fits, rfl⟩
    exact ⟨l, appendAll_empty fits⟩

theorem Reachable.append {t' : IncrementalMerkleTree} (reachable : Reachable H t) {obj : Uint256}
    (ran : t.append H obj = some t') : Reachable H t' := by
  obtain ⟨l, fits, rfl⟩ := reachable_iff.mp reachable
  have further : (holding H l).appendAll H [obj] = some t' := by rw [appendAll, ran]; rfl
  exact reachable_iff.mpr ⟨l ++ [obj], appendAll_holding_some fits further⟩

theorem Reachable.wellFormed (reachable : Reachable H t) : t.WellFormed H.depth := by
  obtain ⟨l, _, rfl⟩ := reachable_iff.mp reachable
  rw [holding]
  generalize padded H l = leaf
  cases count : l.length with
  | zero => exact ⟨H.depth_pos, fun ne => absurd rfl ne, fun _ => rfl, fun _ => rfl⟩
  | succ c =>
    refine ⟨parents_fit H.depth_pos (by omega), fun ne => ?_, by rintro ⟨⟩, by rintro ⟨⟩⟩
    apply frontier_last
    apply pos_of_ne_zero
    intro zero
    apply ne
    rw [ofLeaves, zero, frontier_zero]

theorem reachable_constant {n : Nat} (fits : n ≤ 2 ^ H.depth) :
    Reachable H (ofLeaves H (fun _ => H.emptyRoot 0) n) := by
  refine reachable_iff.mpr ⟨replicate n (H.emptyRoot 0), by rwa [length_replicate], ?_⟩
  rw [holding, length_replicate]
  apply ofLeaves_congr
  intro i low
  simp [padded, low]

/-- A tree with these slots comes from leaves. -/
theorem WellFormed.reachable_shape (formed : t.WellFormed H.depth) :
    ∃ t₀, Reachable H t₀ ∧ shape t = shape t₀ := by
  obtain ⟨left, right, parents⟩ := t
  cases left with
  | none =>
    refine ⟨empty, ⟨[], rfl⟩, ?_⟩
    rw [shape, formed.right rfl, formed.parents rfl]
    rfl
  | some _ =>
    obtain ⟨k, _, gaps⟩ : ∃ k, k < 2 ^ parents.length ∧
        (frontier H.combine (fun _ => H.emptyRoot 0) 1 k).map Option.isSome = _ :=
          exists_frontier parents formed.last 1
    have room : 2 * 2 ^ parents.length ≤ 2 ^ H.depth := by
      rw [← Nat.pow_succ']
      exact Nat.pow_le_pow_right (by decide) formed.fits
    cases right with
    | none =>
      refine ⟨_, reachable_constant (n := 2 * k + 1) (by omega), ?_⟩
      rw [ofLeaves_of_even (by omega), show 2 * k / 2 = k by omega, shape, shape, gaps]
      rfl
    | some _ =>
      refine ⟨_, reachable_constant (n := 2 * k + 1 + 1) (by omega), ?_⟩
      rw [ofLeaves_of_odd (by omega), show (2 * k + 1) / 2 = k by omega, shape, shape, gaps]
      rfl

end

section

open IncrementalWitness

/-- The invariant of a witness: what its parts may be. -/
structure Sound (H : MerkleHash) (w : IncrementalWitness) : Prop where
  tree : Reachable H w.tree
  filled : w.filled.length ≤ H.depth + 1
  cursor : ∀ t, w.cursor = some t → Reachable H t
  cursorDepth : w.cursor.isSome → w.cursorDepth = w.tree.nextDepth w.filled.length
  inside : w.cursor.isSome → w.cursorDepth < H.depth

theorem le_nextDepthParents (parents : List (Option Uint256)) (d skip : Nat) :
    d + skip ≤ nextDepthParents d skip parents := by
  induction parents generalizing d skip with
  | nil => exact le_refl _
  | cons _ _ ih =>
    rw [nextDepthParents]
    split
    · split
      · have further := ih (d + 1) (skip - 1)
        omega
      · omega
    · have further := ih (d + 1) skip
      omega

/-- There are two slots at the bottom and one at each height above. -/
theorem le_nextDepth (t : IncrementalMerkleTree) (skip : Nat) : skip ≤ t.nextDepth skip + 1 := by
  have counted : ∀ (slot : Option Uint256) (skip : Nat), skip ≤
      (if slot.isNone then skip - 1 else skip) + 1 := by
    intro _ _
    split <;> omega
  have afterLeft := counted t.left skip
  rw [nextDepth]
  dsimp only
  generalize (if t.left.isNone then skip - 1 else skip) = rest at afterLeft ⊢
  have afterRight := counted t.right rest
  have above := le_nextDepthParents t.parents 1 (if t.right.isNone then rest - 1 else rest)
  split
  · omega
  · split <;> omega

variable {w : IncrementalWitness}

/-- Any append, also one that throws, keeps the invariant. -/
theorem Sound.append (sound : Sound H w) (obj : Uint256) :
    (∃ w', (append H obj).run w = .ok () w' ∧ Sound H w') ∨
      (∃ w', (append H obj).run w = .error .full w' ∧ Sound H w') := by
  cases held : w.cursor with
  | none =>
    have bound := le_nextDepth w.tree w.filled.length
    rw [append_run_of_none held]
    dsimp only
    by_cases full : H.depth ≤ w.tree.nextDepth w.filled.length
    · rw [if_pos full]
      exact .inr ⟨_, rfl, sound.tree, sound.filled, sound.cursor, by simp [held], by simp [held]⟩
    · rw [if_neg full]
      by_cases bottom : w.tree.nextDepth w.filled.length = 0
      · rw [if_pos bottom]
        refine .inl ⟨_, rfl, sound.tree, ?_, sound.cursor, by simp [held], by simp [held]⟩
        have pos := H.depth_pos
        simp only [length_append, length_singleton]
        omega
      · rw [if_neg bottom]
        refine .inl ⟨_, rfl, sound.tree, sound.filled, ?_, fun _ => rfl, fun _ => not_le.mp full⟩
        rintro t ⟨⟩
        exact ⟨[obj], rfl⟩
  | some t =>
    have depth := sound.cursorDepth (by rw [held]; rfl)
    have inside := sound.inside (by rw [held]; rfl)
    have bound := le_nextDepth w.tree w.filled.length
    cases grows : t.append H obj with
    | none => exact .inr ⟨w, append_run_of_full held grows, sound⟩
    | some grown =>
      obtain ⟨_, hash⟩ := rootFrom_ok (H := H) grown w.cursorDepth []
      rw [append_run_of_some held grows hash]
      refine .inl ⟨_, rfl, ?_⟩
      split
      · refine ⟨sound.tree, ?_, nofun, nofun, nofun⟩
        simp only [length_append, length_singleton]
        omega
      · refine ⟨sound.tree, sound.filled, ?_, fun _ => depth, fun _ => inside⟩
        rintro t ⟨⟩
        exact (sound.cursor _ held).append grows

theorem Sound.reacts (sound : Sound H w) (objs : List Uint256) :
    Sound H (reacts (IncrementalWitness.append H) w objs).2 := by
  induction objs generalizing w with
  | nil => exact sound
  | cons obj _ ih =>
    rw [reacts]
    obtain ⟨w', run, after⟩ | ⟨w', run, after⟩ := sound.append obj <;> rw [run] <;> exact ih after

theorem WitnessReachable.sound (reachable : WitnessReachable H w) : Sound H w := by
  obtain ⟨t, _, tree, rfl⟩ := reachable
  apply Sound.reacts
  exact ⟨tree, zero_le _, nofun, nofun, nofun⟩

/-- The same but for a cursor depth that nothing reads. -/
structure Alike (w w' : IncrementalWitness) : Prop where
  tree : w'.tree = w.tree
  filled : w'.filled = w.filled
  cursor : w'.cursor = w.cursor
  cursorDepth : w.cursor.isSome → w'.cursorDepth = w.cursorDepth

namespace Alike

variable {w w' : IncrementalWitness} (alike : Alike w w')
include alike

theorem eq_of_cursor (isSome : w.cursor.isSome) : w' = w := by
  obtain ⟨_, _⟩ := w'
  obtain ⟨rfl, rfl, rfl, sameDepth⟩ := alike
  obtain rfl := sameDepth isSome
  rfl

theorem partialPath : w'.partialPath H = w.partialPath H := by
  cases held : w.cursor with
  | none =>
    rw [IncrementalWitness.partialPath, IncrementalWitness.partialPath, alike.cursor, held,
      alike.filled]
  | some t => rw [alike.eq_of_cursor (by rw [held]; rfl)]

theorem root : w'.root H = w.root H := by
  rw [IncrementalWitness.root, IncrementalWitness.root, alike.partialPath, alike.tree]

theorem path : w'.path H = w.path H := by
  rw [IncrementalWitness.path, IncrementalWitness.path, alike.partialPath, alike.tree]

/-- The next append leaves no difference. -/
theorem append (obj : Uint256) : (append H obj).run w' = (append H obj).run w := by
  cases held : w.cursor with
  | none =>
    rw [append_run_of_none held, append_run_of_none (alike.cursor.trans held), alike.tree,
      alike.filled, alike.cursor]
  | some t => rw [alike.eq_of_cursor (by rw [held]; rfl)]

theorem reacts (objs : List Uint256) :
    (reacts (IncrementalWitness.append H) w' objs).1 =
      (reacts (IncrementalWitness.append H) w objs).1 ∧
      Alike (reacts (IncrementalWitness.append H) w objs).2
        (reacts (IncrementalWitness.append H) w' objs).2 := by
  cases objs with
  | nil => exact ⟨rfl, alike⟩
  | cons obj rest =>
    have same : TreeEncoding.reacts (IncrementalWitness.append H) w' (obj :: rest) =
        TreeEncoding.reacts (IncrementalWitness.append H) w (obj :: rest) := by
      rw [TreeEncoding.reacts, TreeEncoding.reacts, alike.append]
    rw [same]
    exact ⟨rfl, rfl, rfl, rfl, fun _ => rfl⟩

end Alike

theorem Sound.written (sound : Sound H w) (short : H.depth < MAX_SIZE) :
    ∃ bytes w', w.serialize H = some bytes ∧ Decodes (IncrementalWitness.unserialize H) bytes w' ∧
      Alike w w' := by
  have filled := sound.filled
  obtain ⟨bytes, out, read⟩ := unserialize_serialize sound.tree.wellFormed
    (fun t held => (sound.cursor t held).wellFormed) (by omega) (by omega)
  exact ⟨bytes, _, out, read, rfl, rfl, rfl, fun isSome => (sound.cursorDepth isSome).symm⟩

/-! No slot is read that is not set. -/

variable (w : IncrementalWitness)

/-- The one exception of `append` is that of a full tree, and the tree of a witness stays. -/
theorem append_outcome (obj : Uint256) : ∃ w',
    ((append H obj).run w = .ok () w' ∨ (append H obj).run w = .error .full w') ∧
      w'.tree = w.tree := by
  cases held : w.cursor with
  | none =>
    rw [append_run_of_none held]
    dsimp only
    split
    · exact ⟨_, .inr rfl, rfl⟩
    · split <;> exact ⟨_, .inl rfl, rfl⟩
  | some t =>
    cases grows : t.append H obj with
    | none => exact ⟨w, .inr (append_run_of_full held grows), rfl⟩
    | some grown =>
      obtain ⟨_, hash⟩ := rootFrom_ok (H := H) grown w.cursorDepth []
      refine ⟨_, .inl (append_run_of_some held grows hash), ?_⟩
      split <;> rfl

theorem reacts_outcome (objs : List Uint256) :
    (reacts (append H) w objs).2.tree = w.tree ∧
      some .emptyOptional ∉ (reacts (append H) w objs).1 := by
  induction objs generalizing w with
  | nil => exact ⟨rfl, not_mem_nil⟩
  | cons obj _ ih =>
    obtain ⟨w', outcome, tree⟩ := append_outcome (H := H) w obj
    obtain ⟨later, quiet⟩ := ih w'
    rcases outcome with run | run <;> rw [reacts, run]
      <;> exact ⟨later.trans tree, by simpa using quiet⟩

theorem path_outcome {t : IncrementalMerkleTree} (fits : t.parents.length < H.depth)
    (queue : List Uint256) :
    t.path H queue ≠ .error .emptyOptional := by
  cases left : t.left with
  | none =>
    intro path
    rw [IncrementalMerkleTree.path, left] at path
    cases path
  | some _ =>
    intro path
    rw [path_climbs fits (by rw [left]; rfl)] at path
    cases path

theorem partialPath_ok : ∃ queue, w.partialPath H = .ok queue := by
  rw [partialPath]
  cases w.cursor with
  | none => exact ⟨_, rfl⟩
  | some t =>
    obtain ⟨_, hash⟩ := rootFrom_ok (H := H) t w.cursorDepth []
    simp only [hash]
    exact ⟨_, rfl⟩

/-- Appending to the tree, its root and path, and whatever is done with its witness, read only
slots that are set. -/
structure ReadsSetSlots (H : MerkleHash) (t : IncrementalMerkleTree) : Prop where
  append : ∀ obj t', (appendM H obj).run t ≠ .error .emptyOptional t'
  root : t.rootFrom H H.depth [] ≠ .error .emptyOptional
  path : t.path H [] ≠ .error .emptyOptional
  witnessAppends :
    ∀ objs, some .emptyOptional ∉ (reacts (IncrementalWitness.append H) t.witness objs).1
  witnessRoot : ∀ objs, (reacts (IncrementalWitness.append H) t.witness objs).2.root H ≠
    .error .emptyOptional
  witnessPath : ∀ objs, (reacts (IncrementalWitness.append H) t.witness objs).2.path H ≠
    .error .emptyOptional

theorem readsSetSlots (fits : t.parents.length < H.depth) : ReadsSetSlots H t where
  append := by
    intro obj _
    rw [appendM_run]
    cases t.append H obj <;> simp
  root := by
    obtain ⟨_, hash⟩ := rootFrom_ok (H := H) t H.depth []
    rw [hash]
    simp
  path := path_outcome fits []
  witnessAppends objs := (reacts_outcome t.witness objs).2
  witnessRoot := by
    intro objs
    generalize (reacts (append H) t.witness objs).2 = w
    obtain ⟨queue, uncles⟩ := partialPath_ok (H := H) w
    obtain ⟨root, hash⟩ := rootFrom_ok (H := H) w.tree H.depth queue
    rw [IncrementalWitness.root, uncles]
    change w.tree.rootFrom H H.depth queue ≠ _
    rw [hash]
    simp
  witnessPath := by
    intro objs
    have tree := (reacts_outcome (H := H) t.witness objs).1
    obtain ⟨queue, uncles⟩ :=
      partialPath_ok (H := H) (reacts (IncrementalWitness.append H) t.witness objs).2
    rw [IncrementalWitness.path, uncles, tree]
    exact path_outcome fits queue

end

/-- **Reading back.** A reachable tree passes `wfcheck` and is read back as it was. A reachable
witness is read back with the same root, path and position, and then reacts to appends as the
one that was written. A tree that is accepted has the slots of a reachable one. (The templates
are instantiated at depths 4, 29 and 32.) -/
theorem encoding_faithful (H : MerkleHash) (short : H.depth < MAX_SIZE) :
    (∀ t, Reachable H t → t.wfcheck H.depth = .ok () ∧
      ∃ bytes, t.serialize H = some bytes ∧ Decodes (IncrementalMerkleTree.unserialize H) bytes t) ∧
    (∀ w, WitnessReachable H w → ∃ bytes w', w.serialize H = some bytes ∧
      Decodes (IncrementalWitness.unserialize H) bytes w' ∧
      w'.root H = w.root H ∧ w'.path H = w.path H ∧ w'.position = w.position ∧
      ∀ objs, let later' := reacts (IncrementalWitness.append H) w' objs
        let later := reacts (IncrementalWitness.append H) w objs
        later'.1 = later.1 ∧ later'.2.root H = later.2.root H ∧ later'.2.path H = later.2.path H) ∧
    (∀ input t rest, IncrementalMerkleTree.unserialize H input = some (t, rest) →
      (∃ t₀, Reachable H t₀ ∧ shape t = shape t₀) ∧ ReadsSetSlots H t) := by
  refine ⟨fun t reachable => ?_, fun w reachable => ?_, fun input t rest read => ?_⟩
  · have formed := reachable.wellFormed
    exact ⟨wfcheck_iff.mpr formed, formed.unserialize_serialize (le_succ_of_le (le_of_lt short))⟩
  · obtain ⟨bytes, w', written, read, alike⟩ := reachable.sound.written short
    have position : w'.position = w.position := by
      rw [IncrementalWitness.position, IncrementalWitness.position, alike.tree]
    refine ⟨bytes, w', written, read, alike.root, alike.path, position, fun objs => ?_⟩
    obtain ⟨same, later⟩ := alike.reacts (H := H) objs
    exact ⟨same, later.root, later.path⟩
  · have formed := unserialize_wellFormed read
    exact ⟨WellFormed.reachable_shape formed, readsSetSlots formed.fits⟩

/-- The Sprout tree after seven leaves, with both slots of the lowest level and two parents. -/
theorem encoding_faithful_sprout : ∃ t bytes,
    empty.appendAll (.linear 29 (by decide)) [5, 6, 7, 8, 9, 10, 11] = some t ∧
    t.parents.length = 2 ∧ t.serialize (.linear 29 (by decide)) = some bytes ∧
    IncrementalMerkleTree.unserialize (.linear 29 (by decide)) bytes = some (t, []) := by
  obtain ⟨t, ran⟩ :
      ∃ t, empty.appendAll (.linear 29 (by decide)) [5, 6, 7, 8, 9, 10, 11] = some t := ⟨_, rfl⟩
  obtain ⟨-, bytes, written, read⟩ :=
    (encoding_faithful (.linear 29 (by decide)) (by decide)).1 t ⟨_, ran⟩
  refine ⟨t, bytes, ran, ?_, written, ?_⟩
  · cases ran
    rfl
  · have back := read []
    rwa [append_nil] at back

end Zcashd.Guarantees.TreeEncoding

import Zcashd.Source.DisconnectBlock

/-!
The cycle of `ThreadNotifyWallets` (`src/validationinterface.cpp:84-250`), with `FindFork`
(`src/chain.cpp`): what it collects while it holds `cs_main`, and the notifications it sends
afterwards.

An index entry never changes its parent, so a pointer to one is given by its hash and those of
its ancestors; the empty list is the null pointer. `none` is an exception, a failed assertion or
a null pointer that is followed. Transactions of blocks and of the memory pool, which are also
sent, are left out, and so is the shutdown after a block that cannot be read.
-/
namespace Zcashd.Source

open List

/-- An index entry: its hash, then those of its ancestors. -/
abbrev BlockPtr := List Uint256

/-- The tip of a chain, the last block of which comes first. -/
def tipPtr (chainActive : List (CBlock × ConnectResult)) : BlockPtr :=
  chainActive.map (fun connected => connected.2.pindex.hash)

/-- `CChain::Contains`: the entry at the height of `pindex` is `pindex`. -/
def chainContains (tip pindex : BlockPtr) : Bool :=
  !pindex.isEmpty && tip.drop (tip.length - pindex.length) == pindex

/-- The loop of `FindFork`. -/
def findForkFrom (tip : BlockPtr) : BlockPtr → BlockPtr
  | [] => []
  | hash :: pprev =>
    if chainContains tip (hash :: pprev) then hash :: pprev else findForkFrom tip pprev

def findFork (tip pindex : BlockPtr) : BlockPtr :=
  findForkFrom tip
    (if tip.length < pindex.length then pindex.drop (pindex.length - tip.length) else pindex)

structure CachedBlockData where
  pindex : BlockPtr
  /-- The Sprout and the Sapling tree as of the start of the block. -/
  oldTrees : IncrementalMerkleTree × IncrementalMerkleTree
  txConflicted : List CTransaction

/-- The loop over the connected blocks; `anchorAt` asks `pcoinsTip`. The block that was pushed
last comes first. -/
def collectBlocks (env : ChainEnv)
    (anchorAt : ShieldedType → Uint256 → Option IncrementalMerkleTree)
    (recentlyConflicted : AList (fun _ : BlockPtr => List CTransaction)) (pindexFork : BlockPtr) :
    List (CBlock × ConnectResult) → List CachedBlockData → Option (List CachedBlockData)
  | [], blockStack => some blockStack
  | connected :: below, blockStack =>
    if tipPtr (connected :: below) = pindexFork then some blockStack
    else do
      let oldSproutTree ← anchorAt .sprout connected.2.pindex.hashSproutAnchor
      let pprev ← below.head?
      let oldSaplingTree ← anchorAt .sapling (oldSaplingRoot env pprev.2.pindex)
      let txConflicted ← recentlyConflicted.lookup (tipPtr (connected :: below))
      collectBlocks env anchorAt recentlyConflicted pindexFork below
        (⟨tipPtr (connected :: below), (oldSproutTree, oldSaplingTree), txConflicted⟩ :: blockStack)

/-- What `ChainTip` is called with; the conflicted transactions are sent before it. -/
inductive Notification where
  | disconnected (pindex : BlockPtr)
  | connected (block : CachedBlockData)

/-- Where the thread is: before `pindexLastTip` is set, between two cycles, or in one of the two
loops that send the notifications of a cycle. -/
inductive NotifierPhase where
  | waiting
  | sleeping (pindexLastTip : BlockPtr)
  | disconnecting (pindexLastTip pindexFork : BlockPtr) (blockStack : List CachedBlockData)
      (sequence : Nat)
  | connecting (pindexLastTip : BlockPtr) (blockStack : List CachedBlockData) (sequence : Nat)

/-- The first loop goes down to the fork. -/
def moreDisconnects (pindexLastTip pindexFork : BlockPtr) : Bool :=
  !pindexLastTip.isEmpty && pindexLastTip != pindexFork

/-- A round of the loop the thread is in, or the step from the first loop to the second. -/
def nextRound : NotifierPhase → Option (List Notification × NotifierPhase)
  | .disconnecting pindexLastTip pindexFork blockStack sequence =>
    if moreDisconnects pindexLastTip pindexFork then
      some ([.disconnected pindexLastTip],
        .disconnecting pindexLastTip.tail pindexFork blockStack sequence)
    else some ([], .connecting pindexLastTip blockStack sequence)
  | .connecting _ (blockData :: blockStack) sequence =>
    some ([.connected blockData], .connecting blockData.pindex blockStack sequence)
  | _ => none

/-! The fork and the blocks above it -/

theorem chainContains_iff {tip pindex : BlockPtr} : chainContains tip pindex = true ↔
    pindex ≠ [] ∧ pindex <:+ tip := by
  unfold chainContains
  rw [Bool.and_eq_true, suffix_iff_eq_drop]
  constructor
  · rintro ⟨ne, same⟩
    exact ⟨by simpa using ne, (beq_iff_eq.mp same).symm⟩
  · rintro ⟨ne, same⟩
    exact ⟨by simpa using ne, beq_iff_eq.mpr same.symm⟩

theorem findForkFrom_spec (tip pindex : BlockPtr) :
    findForkFrom tip pindex <:+ pindex ∧ findForkFrom tip pindex <:+ tip ∧
      ∀ ptr, ptr <:+ pindex → ptr <:+ tip → ptr <:+ findForkFrom tip pindex := by
  induction pindex with
  | nil =>
    refine ⟨suffix_refl _, nil_suffix, ?_⟩
    intro _ below _
    exact below
  | cons _ _ ih =>
    unfold findForkFrom
    split
    · rename_i inside
      refine ⟨suffix_refl _, (chainContains_iff.mp inside).2, ?_⟩
      intro _ below _
      exact below
    · rename_i outside
      refine ⟨ih.1.trans (suffix_cons _ _), ih.2.1, ?_⟩
      intro ptr below active
      rcases suffix_cons_iff.mp below with same | below
      · subst same
        exact absurd (chainContains_iff.mpr ⟨cons_ne_nil _ _, active⟩) outside
      · exact ih.2.2 ptr below active

theorem findFork_spec (tip pindex : BlockPtr) :
    findFork tip pindex <:+ pindex ∧ findFork tip pindex <:+ tip ∧
      ∀ ptr, ptr <:+ pindex → ptr <:+ tip → ptr <:+ findFork tip pindex := by
  unfold findFork
  split
  · obtain ⟨below, active, last⟩ := findForkFrom_spec tip (pindex.drop (pindex.length - tip.length))
    refine ⟨below.trans (drop_suffix _ _), active, ?_⟩
    intro ptr inside common
    apply last ptr _ common
    have short := common.length_le
    apply suffix_of_suffix_length_le inside (drop_suffix _ _)
    rw [length_drop]
    omega
  · exact findForkFrom_spec tip pindex

/-- The blocks of the stack lead from one block up to another, each a child of the one before. -/
inductive Climbs : BlockPtr → List CachedBlockData → BlockPtr → Prop
  | here (ptr : BlockPtr) : Climbs ptr [] ptr
  | up {ptr tip : BlockPtr} {hash : Uint256} {data : CachedBlockData} {above : List CachedBlockData}
      (child : data.pindex = hash :: ptr) (rest : Climbs (hash :: ptr) above tip) :
        Climbs ptr (data :: above) tip

namespace Climbs

variable {ptr tip : BlockPtr} {stack : List CachedBlockData} (climbs : Climbs ptr stack tip)
include climbs

theorem suffix : ptr <:+ tip := by
  induction climbs with
  | here ptr => exact suffix_refl ptr
  | up _ _ ih => exact (suffix_cons _ _).trans ih

/-- The stack has the blocks above the first one. -/
theorem mem_iff (pindex : BlockPtr) : pindex ∈ stack.map CachedBlockData.pindex ↔ pindex <:+ tip ∧
    ¬ pindex <:+ ptr := by
  induction climbs with
  | here _ =>
    simp only [map_nil, not_mem_nil, false_iff]
    rintro ⟨below, above⟩
    exact above below
  | @up ptr _ hash _ _ child rest ih =>
    rw [map_cons, mem_cons, ih, child, suffix_cons_iff]
    constructor
    · rintro (rfl | ⟨below, other⟩)
      · refine ⟨rest.suffix, ?_⟩
        intro shorter
        have length := shorter.length_le
        simp only [length_cons] at length
        omega
      · exact ⟨below, fun shorter => other (Or.inr shorter)⟩
    · rintro ⟨below, other⟩
      by_cases same : pindex = hash :: ptr
      · exact Or.inl same
      · exact Or.inr ⟨below, fun either => either.elim same other⟩

theorem nodup : (stack.map CachedBlockData.pindex).Nodup := by
  induction climbs with
  | here => exact nodup_nil
  | @up _ _ _ _ _ child rest ih =>
    rw [map_cons, nodup_cons, rest.mem_iff, child]
    exact ⟨fun inside => inside.2 (suffix_refl _), ih⟩

end Climbs

section

variable {env : ChainEnv} {anchorAt : ShieldedType → Uint256 → Option IncrementalMerkleTree}
  {recentlyConflicted : AList (fun _ : BlockPtr => List CTransaction)} {pindexFork tip : BlockPtr}
  {chainActive : List (CBlock × ConnectResult)} {blockStack collected : List CachedBlockData}

/-- The stack leads from the fork to the tip, and each block has its conflicts from the map. -/
theorem collectBlocks_climbs (active : pindexFork <:+ tipPtr chainActive)
    (climbs : Climbs (tipPtr chainActive) blockStack tip)
    (listed : ∀ data ∈ blockStack, recentlyConflicted.lookup data.pindex = some data.txConflicted)
    (done : collectBlocks env anchorAt recentlyConflicted pindexFork chainActive blockStack =
      some collected) :
    Climbs pindexFork collected tip ∧
      ∀ data ∈ collected, recentlyConflicted.lookup data.pindex = some data.txConflicted := by
  induction chainActive generalizing blockStack with
  | nil =>
    cases done
    have same : pindexFork = [] := suffix_nil.mp active
    subst same
    exact ⟨climbs, listed⟩
  | cons _ below ih =>
    unfold collectBlocks at done
    split at done
    · rename_i same
      cases done
      exact ⟨same ▸ climbs, listed⟩
    · rename_i other
      obtain ⟨_, _, done⟩ := Option.bind_eq_some_iff.mp done
      obtain ⟨_, _, done⟩ := Option.bind_eq_some_iff.mp done
      obtain ⟨_, _, done⟩ := Option.bind_eq_some_iff.mp done
      obtain ⟨_, hit, done⟩ := Option.bind_eq_some_iff.mp done
      have lower : pindexFork <:+ tipPtr below := by
        rcases suffix_cons_iff.mp active with same | lower
        · exact absurd same.symm other
        · exact lower
      refine ih lower (.up rfl climbs) ?_ done
      intro data mem
      rcases mem_cons.mp mem with rfl | old
      · exact hit
      · exact listed data old

/-- The loop ends when every block above the fork has its trees and its conflicts. -/
theorem collectBlocks_isSome (forked : pindexFork ≠ []) (active : pindexFork <:+ tipPtr chainActive)
    (ready : ∀ connected pprev below, connected :: pprev :: below <:+ chainActive →
      ¬ tipPtr (connected :: pprev :: below) <:+ pindexFork →
      (anchorAt .sprout connected.2.pindex.hashSproutAnchor).isSome ∧
        (anchorAt .sapling (oldSaplingRoot env pprev.2.pindex)).isSome ∧
        tipPtr (connected :: pprev :: below) ∈ recentlyConflicted) :
    (collectBlocks env anchorAt recentlyConflicted pindexFork chainActive blockStack).isSome := by
  induction chainActive generalizing blockStack with
  | nil => rfl
  | cons connected below ih =>
    unfold collectBlocks
    split
    · rfl
    · rename_i other
      have lower : pindexFork <:+ tipPtr below := by
        rcases suffix_cons_iff.mp active with same | lower
        · exact absurd same.symm other
        · exact lower
      cases below with
      | nil => exact absurd (suffix_nil.mp lower) forked
      | cons pprev below =>
        have above : ¬ tipPtr (connected :: pprev :: below) <:+ pindexFork := by
          intro shorter
          have upper := shorter.length_le
          have lower := lower.length_le
          simp only [tipPtr, map_cons, length_cons] at upper lower
          omega
        obtain ⟨sprout, sapling, conflicts⟩ := ready connected pprev below (suffix_refl _) above
        obtain ⟨_, sprout⟩ := Option.isSome_iff_exists.mp sprout
        obtain ⟨_, sapling⟩ := Option.isSome_iff_exists.mp sapling
        obtain ⟨_, conflicts⟩ := Option.isSome_iff_exists.mp (AList.lookup_isSome.mpr conflicts)
        simp only [sprout, sapling, conflicts, List.head?_cons, Option.bind_eq_bind,
          Option.bind_some]
        apply ih lower
        intro connected' pprev' below' inside
        exact ready connected' pprev' below' (inside.trans (suffix_cons _ _))

end

end Zcashd.Source

import Zcashd.Source.BlocksInFlight

/-!
# The blocks in flight

For every interleaving of the four calls the map, the lists and the counters of the nodes agree.
`FinalizeNode` forgets the blocks of its node without taking them from
`nQueuedValidatedHeaders`, so that counter is right exactly when no node was finalized with a
validated block in flight: each such block stays counted for good, also when no node is left.
-/
namespace Zcashd.Guarantees.BlockDownload

open Lib Source Source.NodeStates

/-- Map, lists and counters of the nodes agree after every run, and `nQueuedValidatedHeaders` is
the number of blocks in flight with validated headers exactly when none was abandoned. -/
theorem blocks_in_flight_agree (calls : List Call) (s : NodeStates)
    (ran : calls.foldlM call empty = some s) :
    (∀ hash nodeid it, s.mapBlocksInFlight.lookup hash = some (nodeid, it) ↔
      ∃ state, s.mapNodeState.lookup nodeid = some state ∧
        ∃ entry, (it, entry) ∈ state.vBlocksInFlight ∧ entry.hash = hash) ∧
    (∀ nodeid state, s.mapNodeState.lookup nodeid = some state →
      (state.vBlocksInFlight.map Prod.fst).Nodup ∧
      state.nBlocksInFlight = state.vBlocksInFlight.length ∧
      state.nBlocksInFlightValidHeaders =
        state.vBlocksInFlight.countP (fun node => node.2.fValidatedHeaders)) ∧
    (s.nQueuedValidatedHeaders = weightSum validated s.mapNodeState ↔ abandoned calls empty = 0) ∧
    (s.mapNodeState.entries = [] →
      (s.nQueuedValidatedHeaders = 0 ↔ abandoned calls empty = 0)) := by
  obtain ⟨linked, total⟩ := calls_spec linked_empty ran
  rw [excess_empty] at total
  unfold excess at total
  refine ⟨linked.places, ?_, ?_, ?_⟩
  · intro nodeid state held
    have counted := linked.nodes nodeid state held
    exact ⟨counted.iterators, counted.count, counted.valid⟩
  · omega
  · intro empty
    have left : weightSum validated s.mapNodeState = 0 := by
      unfold weightSum
      rw [empty]
      rfl
    omega

/-- A header that is in the index without its block. -/
def header : CBlockIndex where
  hash := 5
  pprev := none
  nHeight := 7
  nChainWork := 1
  nTx := 0
  nChainTx := 0
  nStatus := ⟨.TREE, false, false, false, false, false⟩
  nCachedBranchId := none
  hashSproutAnchor := 0
  hashFinalSproutRoot := 0
  nSproutValue := none
  nChainSproutValue := none
  nSaplingValue := 0
  nChainSaplingValue := none
  hashFinalSaplingRoot := 0
  nSequenceId := 0

/-- A block is asked of one node, then of another, and arrives; the nodes go. -/
def delivered : List Call :=
  [.initializeNode 1 "a", .initializeNode 2 "b",
    .markBlockAsInFlight 1 5 (some header) 0 6 (fun _ => 75),
    .markBlockAsInFlight 2 5 (some header) 9 6 (fun _ => 75), .finalizeNode 1,
      .markBlockAsReceived 5, .finalizeNode 2]

/-- All the blocks of the run were delivered before their node went, so the counter is back at
zero. -/
theorem blocks_in_flight_agree_delivered :
    ∃ s, delivered.foldlM call empty = some s ∧ abandoned delivered empty = 0 ∧
      s.mapNodeState.entries = [] ∧ s.nQueuedValidatedHeaders = 0 := by
  have ran : ∃ s, delivered.foldlM call empty = some s ∧ s.mapNodeState.entries = [] :=
    ⟨_, rfl, rfl⟩
  obtain ⟨s, ran, left⟩ := ran
  have kept : abandoned delivered empty = 0 := by rfl
  obtain ⟨_, _, _, zero⟩ := blocks_in_flight_agree delivered s ran
  exact ⟨s, ran, kept, left, (zero left).mpr kept⟩

/-- The only node goes with a validated block in flight, and the block stays counted. -/
theorem finalizeNode_keeps_block_counted :
    ∃ s, [Call.initializeNode 1 "a", .markBlockAsInFlight 1 5 (some header) 0 6 (fun _ => 75),
        .finalizeNode 1].foldlM call empty = some s ∧
      s.mapNodeState.entries = [] ∧ s.mapBlocksInFlight.entries = [] ∧
      s.nQueuedValidatedHeaders = 1 ∧ weightSum validated s.mapNodeState = 0 :=
  ⟨_, rfl, rfl, rfl, rfl, rfl⟩

end Zcashd.Guarantees.BlockDownload

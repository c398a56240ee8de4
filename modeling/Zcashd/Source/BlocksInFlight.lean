import Zcashd.Lib.InvertedIndex
import Zcashd.Source.Block

/-!
Blocks requested from peers (`src/main.cpp:216-229`, `255-303`, `328-396`): each node's list of
them with its counters, the map from a block to its place in such a list, and the number of
blocks in flight with validated headers.

A list iterator is the identity of a list node, and a new node gets a new one. `none` is a
failed assertion, a null `CNodeState` or an iterator whose list node is gone. What
`FinalizeNode` does about the address manager and about orphan transactions is left out, and so
is the address of a node.
-/
namespace Zcashd.Source

open Lib List Option

abbrev NodeId := Int

structure QueuedBlock where
  hash : Uint256
  pindex : Option CBlockIndex
  /-- Time of the "getdata" request in microseconds. -/
  nTime : Int
  /-- Whether this block has validated headers at the time of request. -/
  fValidatedHeaders : Bool
  nTimeDisconnect : Int
deriving DecidableEq, Repr

structure CNodeState where
  name : String
  fSyncStarted : Bool
  nStallingSince : Int
  vBlocksInFlight : List (Nat × QueuedBlock)
  nBlocksInFlight : Int
  nBlocksInFlightValidHeaders : Int
  fPreferredDownload : Bool
deriving DecidableEq, Repr

def CNodeState.new : CNodeState := ⟨"", false, 0, [], 0, 0, false⟩

structure NodeStates where
  mapNodeState : AList (fun _ : NodeId => CNodeState)
  mapBlocksInFlight : AList (fun _ : Uint256 => NodeId × Nat)
  nQueuedValidatedHeaders : Int
  nSyncStarted : Int
  nPreferredDownload : Int
  /-- The identity of the next list node. -/
  nextIterator : Nat

namespace NodeStates

def empty : NodeStates := ⟨∅, ∅, 0, 0, 0, 0⟩

/-- `state` is a reference into `mapNodeState`: a node that is there already is kept. -/
def initializeNode (nodeid : NodeId) (addrName : String) (s : NodeStates) : NodeStates :=
  let state := (s.mapNodeState.lookup nodeid).getD .new
  { s with mapNodeState := s.mapNodeState.insert nodeid { state with name := addrName } }

def finalizeNode (nodeid : NodeId) (s : NodeStates) : Option NodeStates := do
  let state ← s.mapNodeState.lookup nodeid
  pure { s with
    nSyncStarted := s.nSyncStarted - state.fSyncStarted.toInt
    mapBlocksInFlight :=
      state.vBlocksInFlight.foldl (fun m entry => m.erase entry.2.hash) s.mapBlocksInFlight
    nPreferredDownload := s.nPreferredDownload - state.fPreferredDownload.toInt
    mapNodeState := s.mapNodeState.erase nodeid }

/-- What `MarkBlockAsReceived` does to the node that has the block. -/
def received (it : Nat) (entry : QueuedBlock) (state : CNodeState) : CNodeState :=
  { state with
    nBlocksInFlightValidHeaders := state.nBlocksInFlightValidHeaders - entry.fValidatedHeaders.toInt
    vBlocksInFlight := state.vBlocksInFlight.eraseP (fun node => node.1 == it)
    nBlocksInFlight := state.nBlocksInFlight - 1
    nStallingSince := 0 }

/-- Returns whether we requested this block. -/
def markBlockAsReceived (hash : Uint256) (s : NodeStates) : Option (Bool × NodeStates) :=
  match s.mapBlocksInFlight.lookup hash with
  | none => some (false, s)
  | some (nodeid, it) => do
    let state ← s.mapNodeState.lookup nodeid
    let entry ← state.vBlocksInFlight.lookup it
    pure (true, { s with
      nQueuedValidatedHeaders := s.nQueuedValidatedHeaders - entry.fValidatedHeaders.toInt
      mapNodeState := s.mapNodeState.insert nodeid (received it entry state)
      mapBlocksInFlight := s.mapBlocksInFlight.erase hash })

/-- Time at which to time out a block request; `nTime` in microseconds. -/
def getBlockTimeout (nTime nValidatedQueuedBefore : Int) (poWTargetSpacing : Int → Int)
    (nHeight : Int) : Int :=
  nTime + 500000 * poWTargetSpacing nHeight * (4 + nValidatedQueuedBefore)

/-- What `MarkBlockAsInFlight` does to the node that is asked for the block. -/
def requested (it : Nat) (newentry : QueuedBlock) (state : CNodeState) : CNodeState :=
  { state with
    vBlocksInFlight := state.vBlocksInFlight ++ [(it, newentry)]
    nBlocksInFlight := state.nBlocksInFlight + 1
    nBlocksInFlightValidHeaders :=
      state.nBlocksInFlightValidHeaders + newentry.fValidatedHeaders.toInt }

/-- `nNow` is the time and `chainHeight` the height of the active chain. -/
def markBlockAsInFlight (nodeid : NodeId) (hash : Uint256) (pindex : Option CBlockIndex)
    (nNow : Int) (chainHeight : Int) (poWTargetSpacing : Int → Int) (s : NodeStates) :
    Option NodeStates := do
  let _ ← s.mapNodeState.lookup nodeid
  -- make sure it's not listed somewhere already
  let (_, s) ← s.markBlockAsReceived hash
  let state ← s.mapNodeState.lookup nodeid
  let nHeight := (pindex.map (fun pindex => (pindex.nHeight : Int))).getD chainHeight
  let newentry : QueuedBlock := ⟨hash, pindex, nNow, pindex.isSome,
    getBlockTimeout nNow s.nQueuedValidatedHeaders poWTargetSpacing nHeight⟩
  pure { s with
    nQueuedValidatedHeaders := s.nQueuedValidatedHeaders + newentry.fValidatedHeaders.toInt
    mapNodeState := s.mapNodeState.insert nodeid (requested s.nextIterator newentry state)
    mapBlocksInFlight := s.mapBlocksInFlight.insert hash (nodeid, s.nextIterator)
    nextIterator := s.nextIterator + 1 }

/-! Lists, map and counters -/

/-- The blocks of a node with validated headers. -/
def validated (state : CNodeState) : Nat :=
  state.vBlocksInFlight.countP (fun node => node.2.fValidatedHeaders)

/-- Iterators of different list nodes differ and are older than `next`, and the counters are
those of the list. -/
structure WellCounted (next : Nat) (state : CNodeState) : Prop where
  iterators : (state.vBlocksInFlight.map Prod.fst).Nodup
  older : ∀ node ∈ state.vBlocksInFlight, node.1 < next
  count : state.nBlocksInFlight = state.vBlocksInFlight.length
  valid : state.nBlocksInFlightValidHeaders = validated state

/-- The map has one entry for each block of a list, with the place of the block. -/
structure Linked (s : NodeStates) : Prop where
  places : ∀ hash nodeid it, s.mapBlocksInFlight.lookup hash = some (nodeid, it) ↔
    ∃ state, s.mapNodeState.lookup nodeid = some state ∧
      ∃ entry, (it, entry) ∈ state.vBlocksInFlight ∧ entry.hash = hash
  nodes : ∀ nodeid state, s.mapNodeState.lookup nodeid = some state →
    WellCounted s.nextIterator state

/-- How far `nQueuedValidatedHeaders` is above the blocks in flight with validated headers. -/
def excess (s : NodeStates) : Int := s.nQueuedValidatedHeaders - weightSum validated s.mapNodeState

theorem linked_empty : Linked empty where
  places hash nodeid it := by simp [empty]
  nodes nodeid state held := by simp [empty] at held

theorem excess_empty : excess empty = 0 := rfl

theorem wellCounted_new (next : Nat) (name : String) :
    WellCounted next { CNodeState.new with name := name } :=
  ⟨nodup_nil, fun _ mem => (nomatch mem), rfl, rfl⟩

variable {next : Nat}

theorem WellCounted.mono {next' : Nat} {state : CNodeState} (counted : WellCounted next state)
    (bound : next ≤ next') : WellCounted next' state :=
  ⟨counted.iterators, fun node mem => lt_of_lt_of_le (counted.older node mem) bound, counted.count,
    counted.valid⟩

variable {s s' : NodeStates} {nodeid : NodeId} {hash : Uint256} {state state' : CNodeState}

/-- A change of one node and of the entries of its blocks. -/
theorem Linked.update (linked : Linked s) {places : AList (fun _ : Uint256 => NodeId × Nat)}
    {queued syncs preferred : Int} (bound : s.nextIterator ≤ next)
    (counted : WellCounted next state')
    (here : ∀ hash it, places.lookup hash = some (nodeid, it) ↔
      ∃ entry, (it, entry) ∈ state'.vBlocksInFlight ∧ entry.hash = hash)
    (elsewhere : ∀ hash other it, other ≠ nodeid →
      (places.lookup hash = some (other, it) ↔
        s.mapBlocksInFlight.lookup hash = some (other, it))) :
    Linked ⟨s.mapNodeState.insert nodeid state', places, queued, syncs, preferred, next⟩ := by
  refine ⟨?_, ?_⟩
  · intro hash other it
    have old := linked.places hash other it
    by_cases same : other = nodeid
    · rw [same, here hash it]
      grind
    · rw [elsewhere hash other it same, old]
      grind
  · intro other held stored
    have old := linked.nodes other held
    by_cases same : other = nodeid
    · grind
    · rw [AList.lookup_insert_ne same] at stored
      exact (old stored).mono bound

/-! The operations -/

theorem initializeNode_linked (linked : Linked s) (addrName : String) :
    Linked (s.initializeNode nodeid addrName) := by
  unfold initializeNode
  cases held : s.mapNodeState.lookup nodeid with
  | none =>
    refine linked.update le_rfl (wellCounted_new _ _) ?_ fun _ _ _ _ => Iff.rfl
    intro _ _
    rw [linked.places, held]
    simp [CNodeState.new]
  | some state =>
    have counted := linked.nodes nodeid state held
    refine linked.update le_rfl { counted with } ?_
      fun _ _ _ _ => Iff.rfl
    intro _ _
    rw [linked.places, held]
    simp

theorem initializeNode_excess (addrName : String) :
    (s.initializeNode nodeid addrName).excess = s.excess := by
  unfold initializeNode excess
  cases held : s.mapNodeState.lookup nodeid with
  | none =>
    rw [weightSum_insert held]
    simp [validated, CNodeState.new]
  | some state =>
    have replaced :
        weightSum validated (s.mapNodeState.insert nodeid { state with name := addrName }) +
        validated state = weightSum validated s.mapNodeState + validated state :=
          weightSum_replace held
    dsimp only [getD_some]
    omega

theorem finalizeNode_linked (linked : Linked s) (done : s.finalizeNode nodeid = some s') :
    Linked s' := by
  obtain ⟨state, held, equal⟩ := bind_eq_some_iff.mp done
  cases equal
  refine ⟨?_, ?_⟩
  · intro hash other it
    rw [lookup_foldl_erase (fun node : Nat × QueuedBlock => node.2.hash)]
    have mine : hash ∈ state.vBlocksInFlight.map (fun node => node.2.hash) ↔
        ∃ it, s.mapBlocksInFlight.lookup hash = some (nodeid, it) := by
      simp [linked.places, held]
    have old := linked.places hash other it
    by_cases gone : other = nodeid
    · grind
    · rw [AList.lookup_erase_ne gone, ← old]
      grind
  · intro other held' _
    have old := linked.nodes other held'
    grind

/-- The blocks of the node with validated headers stay counted. -/
theorem finalizeNode_excess (done : s.finalizeNode nodeid = some s') :
    ∃ state, s.mapNodeState.lookup nodeid = some state ∧
      s'.excess = s.excess + validated state := by
  obtain ⟨state, held, equal⟩ := bind_eq_some_iff.mp done
  cases equal
  refine ⟨state, held, ?_⟩
  have total : weightSum validated s.mapNodeState =
      validated state + weightSum validated (s.mapNodeState.erase nodeid) := weightSum_erase held
  unfold excess
  dsimp only
  omega

variable {entry : QueuedBlock}

/-- The list node of a block, which is the only one with its iterator. -/
theorem WellCounted.split {it : Nat} (counted : WellCounted next state)
    (inside : (it, entry) ∈ state.vBlocksInFlight) :
    ∃ front back, state.vBlocksInFlight = front ++ (it, entry) :: back ∧
      ∀ node ∈ front ++ back, node.1 ≠ it := by
  obtain ⟨front, back, split⟩ := append_of_mem inside
  refine ⟨front, back, split, ?_⟩
  have distinct := counted.iterators
  rw [split, map_append, map_cons] at distinct
  grind

theorem received_wellCounted {it : Nat} (counted : WellCounted next state)
    (inside : (it, entry) ∈ state.vBlocksInFlight) : WellCounted next (received it entry state) ∧
      validated state = validated (received it entry state) + entry.fValidatedHeaders.toNat ∧
      state.vBlocksInFlight.lookup it = some entry ∧
      ∀ node, node ∈ (received it entry state).vBlocksInFlight ↔ node ∈ state.vBlocksInFlight ∧
        node.1 ≠ it := by
  obtain ⟨front, back, split, others⟩ := counted.split inside
  have inFront : ∀ node ∈ front, node.1 ≠ it := fun node mem => others node (mem_append_left _ mem)
  have rest : (received it entry state).vBlocksInFlight = front ++ back := by
    change state.vBlocksInFlight.eraseP _ = _
    rw [split, eraseP_append_right _ (fun node mem => by simpa using inFront node mem)]
    simp
  have less : validated state =
      validated (received it entry state) + entry.fValidatedHeaders.toNat := by
    unfold validated
    rw [rest, split]
    cases valid : entry.fValidatedHeaders <;> simp [valid]
    omega
  refine ⟨⟨?_, ?_, ?_, ?_⟩, less, ?_, ?_⟩
  · have distinct := counted.iterators
    rw [split, map_append, map_cons] at distinct
    rw [rest, map_append]
    exact (nodup_middle.mp distinct).of_cons
  · intro _ mem
    apply counted.older
    rw [rest] at mem
    rw [split]
    simp only [mem_append, mem_cons] at mem ⊢
    tauto
  · have count := counted.count
    rw [split] at count
    rw [rest]
    change state.nBlocksInFlight - 1 = _
    simp only [length_append, length_cons] at count ⊢
    omega
  · have valid := counted.valid
    change state.nBlocksInFlightValidHeaders - entry.fValidatedHeaders.toInt = _
    cases flag : entry.fValidatedHeaders <;> simp [flag] at less ⊢ <;> omega
  · rw [split]
    apply lookup_eq_some_iff.mpr
    exact ⟨front, back, rfl, fun node mem => by simpa using (inFront node mem).symm⟩
  · intro _
    grind

/-- The iterator of a block that is in flight is valid, so the call returns; the block is in
flight from no node then. -/
theorem markBlockAsReceived_spec (linked : Linked s) (hash : Uint256) :
    ∃ known s', s.markBlockAsReceived hash = some (known, s') ∧ Linked s' ∧ s'.excess = s.excess ∧
      s'.mapBlocksInFlight.lookup hash = none ∧
      ∀ other, other ∈ s'.mapNodeState ↔ other ∈ s.mapNodeState := by
  unfold markBlockAsReceived
  cases place : s.mapBlocksInFlight.lookup hash with
  | none => exact ⟨false, s, rfl, linked, rfl, place, fun _ => Iff.rfl⟩
  | some hit =>
    obtain ⟨nodeid, it⟩ := hit
    obtain ⟨state, held, entry, inside, _⟩ := (linked.places _ _ _).mp place
    obtain ⟨counted, less, hit, rest⟩ := received_wellCounted (linked.nodes _ _ held) inside
    simp only [held, hit, bind_eq_bind, bind_some]
    refine ⟨true, _, rfl, linked.update le_rfl counted ?_ ?_, ?_, AList.lookup_erase _ _, ?_⟩
    · intro hash' it'
      have old := linked.places hash' nodeid it'
      by_cases gone : hash' = hash
      · grind
      · rw [AList.lookup_erase_ne gone, old]
        constructor
        · rintro ⟨_, stored, other, present, equal⟩
          rw [held] at stored
          cases stored
          refine ⟨other, (rest _).mpr ⟨present, ?_⟩, equal⟩
          rintro rfl
          obtain ⟨_, _⟩ := received_wellCounted (linked.nodes _ _ held) present
          grind
        · rintro ⟨other, kept, equal⟩
          exact ⟨state, held, other, ((rest _).mp kept).1, equal⟩
    · intro hash' other it' _
      grind
    · have replaced : weightSum validated (s.mapNodeState.insert nodeid (received it entry state)) +
          validated state =
        weightSum validated s.mapNodeState + validated (received it entry state) :=
          weightSum_replace held
      unfold excess
      cases flag : entry.fValidatedHeaders <;> simp [flag] at less ⊢ <;> omega
    · grind [AList.mem_insert, AList.lookup_isSome]

/-- A block that is in flight from no node is appended to a node's list. -/
theorem requested_wellCounted (counted : WellCounted next state) (newentry : QueuedBlock) :
    WellCounted (next + 1) (requested next newentry state) ∧
      validated (requested next newentry state) =
        validated state + newentry.fValidatedHeaders.toNat := by
  have more : validated (requested next newentry state) =
      validated state + newentry.fValidatedHeaders.toNat := by
    unfold validated requested
    cases valid : newentry.fValidatedHeaders <;> simp [valid]
  refine ⟨⟨?_, ?_, ?_, ?_⟩, more⟩
  · unfold requested
    have iterators := counted.iterators
    have older := counted.older
    grind
  · intro node mem
    unfold requested at mem
    have older := counted.older node
    grind
  · have count := counted.count
    unfold requested
    simp only [length_append, length_singleton]
    omega
  · have valid := counted.valid
    rw [more]
    unfold requested
    cases flag : newentry.fValidatedHeaders <;> simp <;> omega

/-- The call returns when the node is known. -/
theorem markBlockAsInFlight_spec (linked : Linked s) (known : nodeid ∈ s.mapNodeState)
    (hash : Uint256) (pindex : Option CBlockIndex) (nNow : Int) (chainHeight : Int)
    (poWTargetSpacing : Int → Int) :
    ∃ s', s.markBlockAsInFlight nodeid hash pindex nNow chainHeight poWTargetSpacing =
      some s' ∧ Linked s' ∧ s'.excess = s.excess := by
  obtain ⟨_, s₁, ran, linked₁, excess₁, _, nodes⟩ := markBlockAsReceived_spec linked hash
  obtain ⟨_, held₀⟩ := isSome_iff_exists.mp (AList.lookup_isSome.mpr known)
  obtain ⟨state, held⟩ := isSome_iff_exists.mp (AList.lookup_isSome.mpr ((nodes nodeid).mpr known))
  unfold markBlockAsInFlight
  simp only [held₀, ran, held, bind_eq_bind, bind_some]
  generalize entered : QueuedBlock.mk hash pindex nNow pindex.isSome _ = newentry
  have flagged : newentry.fValidatedHeaders = pindex.isSome := by rw [← entered]
  obtain ⟨counted, more⟩ := requested_wellCounted (linked₁.nodes _ _ held) newentry
  refine ⟨_, rfl, linked₁.update (Nat.le_succ _) counted ?_ ?_, ?_⟩
  · intro hash' it'
    unfold requested
    have old := linked₁.places hash' nodeid it'
    by_cases same : hash' = hash
    · grind
    · rw [AList.lookup_insert_ne same, old]
      grind
  · intro _ _ _ _
    grind
  · rw [← excess₁]
    have replaced : weightSum validated
        (s₁.mapNodeState.insert nodeid (requested s₁.nextIterator newentry state)) +
        validated state = weightSum validated s₁.mapNodeState +
          validated (requested s₁.nextIterator newentry state) := weightSum_replace held
    rw [flagged] at more
    unfold excess
    cases flag : pindex.isSome <;> simp [flag] at more ⊢ <;> omega

/-! Runs -/

inductive Call where
  | initializeNode (nodeid : NodeId) (addrName : String)
  | finalizeNode (nodeid : NodeId)
  | markBlockAsReceived (hash : Uint256)
  | markBlockAsInFlight (nodeid : NodeId) (hash : Uint256) (pindex : Option CBlockIndex)
      (nNow : Int) (chainHeight : Int) (poWTargetSpacing : Int → Int)

def call (s : NodeStates) : Call → Option NodeStates
  | .initializeNode nodeid addrName => some (s.initializeNode nodeid addrName)
  | .finalizeNode nodeid => s.finalizeNode nodeid
  | .markBlockAsReceived hash => (s.markBlockAsReceived hash).map Prod.snd
  | .markBlockAsInFlight nodeid hash pindex nNow chainHeight poWTargetSpacing =>
    s.markBlockAsInFlight nodeid hash pindex nNow chainHeight poWTargetSpacing

/-- The blocks with validated headers that a call leaves without a node. -/
def abandons (s : NodeStates) : Call → Nat
  | .finalizeNode nodeid => ((s.mapNodeState.lookup nodeid).map validated).getD 0
  | _ => 0

/-- The blocks with validated headers that are left without a node by some call of a run. -/
def abandoned : List Call → NodeStates → Nat
  | [], _ => 0
  | c :: calls, s => s.abandons c + ((s.call c).map (abandoned calls)).getD 0

theorem call_spec {c : Call} (linked : Linked s) (done : s.call c = some s') :
    Linked s' ∧ s'.excess = s.excess + s.abandons c := by
  cases c with
  | initializeNode _ addrName =>
    cases done
    exact ⟨initializeNode_linked linked addrName, by simp [initializeNode_excess, abandons]⟩
  | finalizeNode _ =>
    obtain ⟨_, held, grown⟩ := finalizeNode_excess done
    refine ⟨finalizeNode_linked linked done, ?_⟩
    simp [abandons, held, grown]
  | markBlockAsReceived hash =>
    obtain ⟨_, _, ran, linked₁, excess₁, _⟩ := markBlockAsReceived_spec linked hash
    simp only [call, ran, map_some] at done
    cases done
    exact ⟨linked₁, by simp [excess₁, abandons]⟩
  | markBlockAsInFlight nodeid hash pindex nNow chainHeight poWTargetSpacing =>
    have known : nodeid ∈ s.mapNodeState := by
      obtain ⟨_, held, _⟩ := bind_eq_some_iff.mp done
      exact AList.lookup_isSome.mp (by rw [held]; rfl)
    obtain ⟨_, ran, linked₁, excess₁⟩ :=
      markBlockAsInFlight_spec linked known hash pindex nNow chainHeight poWTargetSpacing
    simp only [call, ran] at done
    cases done
    exact ⟨linked₁, by simp [excess₁, abandons]⟩

theorem calls_spec {calls : List Call} (linked : Linked s) (ran : calls.foldlM call s = some s') :
    Linked s' ∧ s'.excess = s.excess + abandoned calls s := by
  induction calls generalizing s with
  | nil =>
    cases ran
    exact ⟨linked, by simp [abandoned]⟩
  | cons c _ ih =>
    rw [foldlM_cons] at ran
    obtain ⟨_, done, ran⟩ := bind_eq_some_iff.mp ran
    obtain ⟨linkedMiddle, step⟩ := call_spec linked done
    obtain ⟨linkedEnd, rest⟩ := ih linkedMiddle ran
    refine ⟨linkedEnd, ?_⟩
    rw [rest, step, abandoned, done]
    simp only [map_some, getD_some, Int.natCast_add]
    omega

end NodeStates

end Zcashd.Source

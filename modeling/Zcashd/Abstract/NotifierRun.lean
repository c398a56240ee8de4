import Zcashd.Lib.Runs
import Zcashd.Abstract.BlockCalls
import Zcashd.Source.NotifyWallets

/-!
The validation thread and `ThreadNotifyWallets`, step by step and in any order. `ConnectTip` and
`DisconnectTip` (`src/main.cpp:3143-3280`) hold `cs_main` throughout, and so does the notifier
while it collects the state of a cycle; it sends its notifications without the lock, so the
chain may move between any two of them. The coins view is given by what it holds.
-/
namespace Zcashd.Abstract

open Lib Source List

/-! Trees of the blocks of a chain -/

section

variable {env : ChainEnv} {contextual : ContextualVerifier} {side : CBlock → FlatView → Prop}
  {chain : List (CBlock × ConnectResult)} {f f' : FlatView} {block : CBlock} {pindex : CBlockIndex}
  {result : ConnectResult} {pprev : Option CBlockIndex}

/-- A block that is connected takes no tree away. -/
theorem connectBlock_keeps_anchors (accepted : Accepted env contextual block pindex pprev)
    (ran : (connectBlock env block pindex pprev false).run env.onFlat f = .ok (result, f'))
    {type : ShieldedType} {rt : Uint256} (known : ((f.pools type).anchors rt).isSome) :
    ((f'.pools type).anchors rt).isSome := by
  rcases ChainState.connect_cases accepted ran with ⟨_, _, rfl, _⟩ | ⟨_, _, s, _, l, _, _, done⟩
  · exact known
  · rw [done.pools type]
    unfold PoolState.pushAnchor
    split
    · grind [Function.update_apply]
    · exact known

/-- The trees as of the start of each block but the genesis block are in the view. -/
theorem ChainState.startTrees (state : ChainState env contextual side chain f)
    (later : env.consensus.networkUpgradeActive 0 .UPGRADE_SAPLING = false)
    {connected parent : CBlock × ConnectResult} {below : List (CBlock × ConnectResult)}
    (inside : connected :: parent :: below <:+ chain) :
    ((f.pools .sprout).anchors connected.2.pindex.hashSproutAnchor).isSome ∧
      ((f.pools .sapling).anchors (oldSaplingRoot env parent.2.pindex)).isSome := by
  induction state with
  | empty => simp at inside
  | @connect _ f f' _ pindex result old accepted _ ran ih =>
    have keeps : ∀ type rt, ((f.pools type).anchors rt).isSome →
        ((f'.pools type).anchors rt).isSome :=
      fun _ _ => connectBlock_keeps_anchors accepted ran
    rcases suffix_cons_iff.mp inside with same | inside
    · cases same
      have tip : tipOf (parent :: below) = some parent.2.pindex := rfl
      have best : ∀ type, ((f.pools type).anchors (f.pools type).best).isSome := by
        intro type
        obtain ⟨_, hit, _⟩ := old.viewSound.anchors type
        rw [hit]
        rfl
      have sapling : (f.pools .sapling).best = oldSaplingRoot env parent.2.pindex := by
        rw [old.saplingRoot later, tip]
        rfl
      rcases ChainState.connect_cases accepted ran with
        ⟨none, _⟩ | ⟨pprev, trees, s, _, l, _, _, done⟩
      · cases none
      · have sprout : result.pindex.hashSproutAnchor = (f.pools .sprout).best := by
          obtain ⟨_, _, after⟩ :=
            recordValid_eq env (recordRoots env pindex (f.pools .sprout).best s.trees) pprev
          rw [done.pindexAfter, after]
          rfl
        refine ⟨?_, ?_⟩
        · apply keeps
          rw [sprout]
          exact best .sprout
        · apply keeps
          rw [← sapling]
          exact best .sapling
    · obtain ⟨sprout, sapling⟩ := ih inside
      exact ⟨keeps _ _ sprout, keeps _ _ sapling⟩

/-- The first block of a chain is the genesis block. -/
theorem ChainState.genesis (state : ChainState env contextual side chain f) (ne : chain ≠ []) :
    [env.consensus.hashGenesisBlock] <:+ tipPtr chain := by
  induction state with
  | empty => exact absurd rfl ne
  | @connect chain f _ _ _ _ _ accepted _ ran ih =>
    rcases ChainState.connect_cases accepted ran with
      ⟨first, _, _, same, _⟩ | ⟨parent, trees, s, undos, l, last, _, done⟩
    · have empty : chain = [] := by
        cases chain with
        | nil => rfl
        | cons => cases first
      subst empty
      have genesis := accepted.genesis.mpr rfl
      simp only [tipPtr, map_cons, map_nil, same, accepted.hash, genesis]
      exact suffix_refl _
    · have longer : chain ≠ [] := by
        rintro rfl
        cases last
      exact (ih longer).trans (suffix_cons _ _)

end

structure Notifier where
  chainActive : List (CBlock × ConnectResult)
  pcoinsTip : FlatView
  recentlyConflictedTxs : AList (fun _ : BlockPtr => List CTransaction)
  nRecentlyConflictedSequence : Nat
  nNotifiedSequence : Nat
  phase : NotifierPhase
  /-- The tip when the state of the last cycle was collected. -/
  observed : BlockPtr
  /-- The notifications sent so far. -/
  sent : List Notification

namespace Notifier

inductive Label where
  | connectTip (block : CBlock) (pindexNew : CBlockIndex) (txConflicted : List CTransaction)
  | disconnectTip
  | start
  | collect
  | notify
  | finish

variable (env : ChainEnv)

/-- `insert` keeps the entry of a block that has one. -/
def recordConflicts (pindex : BlockPtr) (txConflicted : List CTransaction)
    (recentlyConflictedTxs : AList (fun _ : BlockPtr => List CTransaction)) :
    AList (fun _ : BlockPtr => List CTransaction) :=
  if pindex ∈ recentlyConflictedTxs then recentlyConflictedTxs
    else recentlyConflictedTxs.insert pindex txConflicted

/-- `txConflicted` is what the connection removed from the memory pool. -/
def connectTip (block : CBlock) (pindexNew : CBlockIndex) (txConflicted : List CTransaction)
    (s : Notifier) :
    Option Notifier :=
  match (connectBlock env block pindexNew (tipOf s.chainActive) false).run env.onFlat
    s.pcoinsTip with
  | .error _ => none
  | .ok (result, pcoinsTip) =>
    let chainActive := (block, result) :: s.chainActive
    some { s with
      chainActive := chainActive
      pcoinsTip := pcoinsTip
      recentlyConflictedTxs :=
        recordConflicts (tipPtr chainActive) txConflicted s.recentlyConflictedTxs
      nRecentlyConflictedSequence := s.nRecentlyConflictedSequence + 1 }

/-- The undo record is the one of the connection; the genesis block has none. -/
def disconnectTip (s : Notifier) : Option Notifier :=
  match s.chainActive with
  | [] => none
  | (block, result) :: below => do
    let pprev ← tipOf below
    let blockundo ← result.blockundo
    match (disconnectBlock env block result.pindex pprev
        (some (undoWriteToDisk env.undoLib blockundo pprev.hash))).run env.onFlat s.pcoinsTip with
    | .ok (.DISCONNECT_OK, pcoinsTip) =>
      some { s with chainActive := below, pcoinsTip := pcoinsTip }
    | _ => none

/-- The wait for the genesis block. -/
def start (s : Notifier) : Option Notifier :=
  match s.phase with
  | .waiting => do
    let genesis ← s.chainActive.getLast?
    some { s with phase := .sleeping [genesis.2.pindex.hash], observed := [genesis.2.pindex.hash] }
  | _ => none

/-- The part of a cycle under `cs_main`; the conflicts are drained. -/
def collect (s : Notifier) : Option Notifier :=
  match s.phase with
  | .sleeping pindexLastTip => do
    let tip := tipPtr s.chainActive
    let pindexFork := findFork tip pindexLastTip
    let blockStack ← collectBlocks env (fun type => (s.pcoinsTip.pools type).anchors)
        s.recentlyConflictedTxs pindexFork
      s.chainActive []
    some { s with
      recentlyConflictedTxs := ∅
      phase := .disconnecting pindexLastTip pindexFork blockStack s.nRecentlyConflictedSequence
      observed := tip }
  | _ => none

def notify (s : Notifier) : Option Notifier := do
  let (notifications, phase) ← nextRound s.phase
  some { s with phase := phase, sent := s.sent ++ notifications }

/-- The end of a cycle. The sequence number is only kept on regtest. -/
def finish (regtest : Bool) (s : Notifier) : Option Notifier :=
  match s.phase with
  | .connecting pindexLastTip [] sequence =>
    some { s with
      phase := .sleeping pindexLastTip
      nNotifiedSequence := if regtest then sequence else s.nNotifiedSequence }
  | _ => none

def step (regtest : Bool) (s : Notifier) : Label → Option Notifier
  | .connectTip block pindexNew txConflicted => s.connectTip env block pindexNew txConflicted
  | .disconnectTip => s.disconnectTip env
  | .start => s.start
  | .collect => s.collect env
  | .notify => s.notify
  | .finish => s.finish regtest

/-! The walk of the notifications -/

/-- A notification moves the last notified tip to its parent, or to a child. -/
def move (last : BlockPtr) : Notification → Option BlockPtr
  | .disconnected pindex => if pindex = last ∧ last ≠ [] then some last.tail else none
  | .connected data => if data.pindex.tail = last ∧ data.pindex ≠ [] then some data.pindex else none

/-- The last notified tip. -/
def lastTip : NotifierPhase → Option BlockPtr
  | .waiting => none
  | .sleeping pindexLastTip | .disconnecting pindexLastTip _ _ _ | .connecting pindexLastTip _ _ =>
    some pindexLastTip

/-- What is left to be sent leads to the tip that was observed. -/
def Leads (observed : BlockPtr) : NotifierPhase → Prop
  | .waiting => True
  | .sleeping pindexLastTip => pindexLastTip = observed
  | .disconnecting pindexLastTip pindexFork blockStack _ =>
    pindexFork <:+ pindexLastTip ∧ Climbs pindexFork blockStack observed
  | .connecting pindexLastTip blockStack _ => Climbs pindexLastTip blockStack observed

variable {env} {s s' : Notifier} {regtest : Bool}

theorem nextRound_leads {observed : BlockPtr} {phase phase' : NotifierPhase}
    {notifications : List Notification} (leads : Leads observed phase)
    (round : nextRound phase = some (notifications, phase')) :
    Leads observed phase' ∧ ∃ last last', lastTip phase = some last ∧ lastTip phase' = some last' ∧
      notifications.foldlM move last = some last' := by
  cases phase with
  | waiting => cases round
  | sleeping => cases round
  | disconnecting pindexLastTip pindexFork _ _ =>
    obtain ⟨below, climbs⟩ := leads
    simp only [nextRound] at round
    split at round
    · rename_i more
      cases round
      simp only [moreDisconnects, Bool.and_eq_true, Bool.not_eq_true', isEmpty_eq_false_iff,
        bne_iff_ne] at more
      cases pindexLastTip with
      | nil => exact absurd rfl more.1
      | cons _ _ =>
        rcases suffix_cons_iff.mp below with same | below
        · exact absurd same.symm more.2
        · exact ⟨⟨below, climbs⟩, _, _, rfl, rfl, by simp [move]⟩
    · rename_i stop
      cases round
      have same : pindexLastTip = pindexFork := by
        by_contra other
        apply stop
        simp only [moreDisconnects, Bool.and_eq_true, Bool.not_eq_true',
          isEmpty_eq_false_iff, bne_iff_ne]
        grind
      exact ⟨same ▸ climbs, _, _, rfl, rfl, rfl⟩
  | connecting pindexLastTip blockStack _ =>
    cases blockStack with
    | nil => cases round
    | cons data blockStack =>
      cases round
      cases leads with
      | up child rest =>
        refine ⟨?_, pindexLastTip, data.pindex, rfl, rfl, ?_⟩
        · change Climbs data.pindex blockStack observed
          rw [child]
          exact rest
        · simp [move, child]

variable {txConflicted : List CTransaction}

/-- The frame of `ConnectTip`, and its effect on what the notifier uses. -/
theorem connectTip_cases {block : CBlock} {pindexNew : CBlockIndex}
    (taken : s.connectTip env block pindexNew txConflicted = some s') : ∃ result pcoinsTip,
      (connectBlock env block pindexNew (tipOf s.chainActive) false).run env.onFlat s.pcoinsTip =
        .ok (result, pcoinsTip) ∧ s' = { s with
        chainActive := (block, result) :: s.chainActive
        pcoinsTip := pcoinsTip
        recentlyConflictedTxs :=
          recordConflicts (tipPtr ((block, result) :: s.chainActive)) txConflicted
          s.recentlyConflictedTxs
        nRecentlyConflictedSequence := s.nRecentlyConflictedSequence + 1 } := by
  unfold Notifier.connectTip at taken
  split at taken
  · cases taken
  · rename_i result pcoinsTip ran
    exact ⟨result, pcoinsTip, ran, (Option.some.inj taken).symm⟩

theorem disconnectTip_cases (taken : s.disconnectTip env = some s') :
    ∃ block result below pprev blockundo pcoinsTip, s.chainActive = (block, result) :: below ∧
      tipOf below = some pprev ∧ result.blockundo = some blockundo ∧
      (disconnectBlock env block result.pindex pprev
        (some (undoWriteToDisk env.undoLib blockundo pprev.hash))).run env.onFlat s.pcoinsTip =
          .ok (.DISCONNECT_OK, pcoinsTip) ∧
      s' = { s with chainActive := below, pcoinsTip := pcoinsTip } := by
  unfold Notifier.disconnectTip at taken
  split at taken
  · cases taken
  · rename_i block result below chain
    obtain ⟨pprev, tip, taken⟩ := Option.bind_eq_some_iff.mp taken
    obtain ⟨blockundo, kept, taken⟩ := Option.bind_eq_some_iff.mp taken
    split at taken
    · rename_i pcoinsTip back
      exact ⟨block, result, below, pprev, blockundo, pcoinsTip, chain, tip, kept, back,
        (Option.some.inj taken).symm⟩
    · cases taken

theorem start_cases (taken : s.start = some s') : s.phase = .waiting ∧
    ∃ genesis, s.chainActive.getLast? = some genesis ∧
      s' = { s with
        phase := .sleeping [genesis.2.pindex.hash], observed := [genesis.2.pindex.hash] } := by
  unfold Notifier.start at taken
  grind

/-- What a cycle collects leads from the fork to the tip. -/
theorem collect_cases (taken : s.collect env = some s') :
    ∃ pindexLastTip blockStack, s.phase = .sleeping pindexLastTip ∧
      findFork (tipPtr s.chainActive) pindexLastTip <:+ pindexLastTip ∧
      Climbs (findFork (tipPtr s.chainActive) pindexLastTip) blockStack (tipPtr s.chainActive) ∧
      (∀ data ∈ blockStack, s.recentlyConflictedTxs.lookup data.pindex = some data.txConflicted) ∧
      s' = { s with
        recentlyConflictedTxs := ∅
        phase :=
          .disconnecting pindexLastTip (findFork (tipPtr s.chainActive) pindexLastTip) blockStack
          s.nRecentlyConflictedSequence
        observed := tipPtr s.chainActive } := by
  unfold Notifier.collect at taken
  split at taken
  · rename_i pindexLastTip sleeping
    obtain ⟨blockStack, collected, taken⟩ := Option.bind_eq_some_iff.mp taken
    obtain ⟨below, active, _⟩ := findFork_spec (tipPtr s.chainActive) pindexLastTip
    obtain ⟨climbs, listed⟩ :=
      collectBlocks_climbs active (.here _) (fun _ mem => (nomatch mem)) collected
    exact ⟨pindexLastTip, blockStack, sleeping, below, climbs, listed, (Option.some.inj taken).symm⟩
  · cases taken

theorem notify_cases (taken : s.notify = some s') :
    ∃ notifications phase, nextRound s.phase = some (notifications, phase) ∧
      s' = { s with phase := phase, sent := s.sent ++ notifications } := by
  obtain ⟨⟨notifications, phase⟩, round, taken⟩ := Option.bind_eq_some_iff.mp taken
  exact ⟨notifications, phase, round, (Option.some.inj taken).symm⟩

theorem finish_cases (taken : s.finish regtest = some s') :
    ∃ pindexLastTip sequence, s.phase = .connecting pindexLastTip [] sequence ∧
      s' = { s with
        phase := .sleeping pindexLastTip
        nNotifiedSequence := if regtest then sequence else s.nNotifiedSequence } := by
  unfold Notifier.finish at taken
  split at taken
  · rename_i pindexLastTip sequence connecting
    exact ⟨pindexLastTip, sequence, connecting, (Option.some.inj taken).symm⟩
  · cases taken

/-- Whatever step is taken, what is left to be sent leads to the observed tip. -/
theorem step_leads {l : Label} (leads : Leads s.observed s.phase)
    (taken : s.step env regtest l = some s') :
    Leads s'.observed s'.phase := by
  cases l with
  | connectTip _ _ _ =>
    obtain ⟨_, _, _, rfl⟩ := connectTip_cases taken
    exact leads
  | disconnectTip =>
    obtain ⟨_, _, _, _, _, _, _, _, _, _, rfl⟩ := disconnectTip_cases taken
    exact leads
  | start =>
    obtain ⟨_, _, _, rfl⟩ := start_cases taken
    rfl
  | collect =>
    obtain ⟨_, _, _, below, climbs, _, rfl⟩ := collect_cases taken
    exact ⟨below, climbs⟩
  | notify =>
    obtain ⟨_, _, round, rfl⟩ := notify_cases taken
    exact (nextRound_leads leads round).1
  | finish =>
    obtain ⟨_, _, connecting, rfl⟩ := finish_cases taken
    rw [connecting] at leads
    cases leads
    rfl

/-! Invariants -/

/-- What is assumed of a block before it is connected: no two of its transactions share an id,
and the trees it makes share no root. -/
def Distinct (env : ChainEnv) (T : ShieldedType → Set IncrementalMerkleTree) (block : CBlock)
    (f : FlatView) : Prop :=
  (∀ tx ∈ block.vtx, ∀ other ∈ block.vtx, other.getHash = tx.getHash → other = tx) ∧
    BlockInPlay env T block f

/-- The coins view is that of the chain, blocks above the observed tip have their conflicts in
the map, and the notifications lead from `first` to the observed tip. -/
structure Sound (env : ChainEnv) (contextual : ContextualVerifier)
    (T : ShieldedType → Set IncrementalMerkleTree) (first : BlockPtr) (s : Notifier) : Prop where
  state : ChainState env contextual (Distinct env T) s.chainActive s.pcoinsTip
  covered : ∀ ptr, ptr ≠ [] → ptr <:+ tipPtr s.chainActive → ¬ ptr <:+ s.observed →
    ptr ∈ s.recentlyConflictedTxs
  leads : Leads s.observed s.phase
  unstarted : lastTip s.phase = none →
    s.sent = [] ∧ s.observed = [] ∧ first = [env.consensus.hashGenesisBlock]
  started : ∀ last, lastTip s.phase = some last → s.chainActive ≠ [] ∧
    [env.consensus.hashGenesisBlock] <:+ s.observed ∧ s.sent.foldlM move first = some last

variable {contextual : ContextualVerifier} {T : ShieldedType → Set IncrementalMerkleTree}
  {first : BlockPtr}

theorem mem_recordConflicts {pindex ptr : BlockPtr}
    {recentlyConflictedTxs : AList (fun _ : BlockPtr => List CTransaction)} :
    ptr ∈ recordConflicts pindex txConflicted recentlyConflictedTxs ↔ ptr = pindex ∨
    ptr ∈ recentlyConflictedTxs := by
  unfold recordConflicts
  grind [AList.mem_insert]

/-- A block that is connected was accepted, and its transactions and trees are distinct. -/
def Admitted (env : ChainEnv) (contextual : ContextualVerifier)
    (T : ShieldedType → Set IncrementalMerkleTree) (s : Notifier) :
    Label → Prop
  | .connectTip block pindexNew _ =>
    Accepted env contextual block pindexNew (tipOf s.chainActive) ∧ Distinct env T block s.pcoinsTip
  | _ => True

variable (later : env.consensus.networkUpgradeActive 0 .UPGRADE_SAPLING = false)
include later

theorem Sound.step (undoes : env.mmr.Undoes)
    {l : Label} (sound : Sound env contextual T first s) (admitted : Admitted env contextual T s l)
    (taken : s.step env regtest l = some s') : Sound env contextual T first s' := by
  have leads := step_leads sound.leads taken
  cases l with
  | connectTip _ _ _ =>
    obtain ⟨_, _, ran, rfl⟩ := connectTip_cases taken
    refine ⟨.connect sound.state admitted.1 admitted.2 ran, ?_, leads, sound.unstarted, ?_⟩
    · intro ptr ne active unobserved
      rw [mem_recordConflicts]
      exact (suffix_cons_iff.mp active).imp_right
        (fun older => sound.covered ptr ne older unobserved)
    · intro last current
      obtain ⟨_, rooted, walk⟩ := sound.started last current
      exact ⟨cons_ne_nil _ _, rooted, walk⟩
  | disconnectTip =>
    obtain ⟨_, _, below, _, _, pcoinsTip, chain, tip, kept, disconnected, rfl⟩ :=
      disconnectTip_cases taken
    have parent : below ≠ [] := by
      rintro rfl
      cases tip
    have shorter : tipPtr below <:+ tipPtr s.chainActive := by
      rw [chain]
      exact suffix_cons _ _
    -- the view before the block was connected is back
    have state : ChainState env contextual (Distinct env T) below pcoinsTip := by
      have state := sound.state
      rw [chain] at state
      cases state with
      | @connect _ f _ _ _ _ old accepted met ran =>
        rw [tip] at accepted ran
        obtain ⟨_, kept', back, _⟩ :=
          old.disconnects tip accepted.toEntered met.1 later undoes met.2 ran
        rw [kept] at kept'
        cases kept'
        rw [back] at disconnected
        cases disconnected
        exact old
    refine ⟨state, ?_, leads, sound.unstarted, ?_⟩
    · intro ptr ne active unobserved
      exact sound.covered ptr ne (active.trans shorter) unobserved
    · intro last current
      obtain ⟨_, rooted, walk⟩ := sound.started last current
      exact ⟨parent, rooted, walk⟩
  | start =>
    obtain ⟨waiting, genesis, last, rfl⟩ := start_cases taken
    obtain ⟨unsent, unobserved, origin⟩ := sound.unstarted (by rw [waiting]; rfl)
    have ne : s.chainActive ≠ [] := by
      intro empty
      simp [empty] at last
    have same : genesis.2.pindex.hash = env.consensus.hashGenesisBlock := by
      obtain ⟨_, split⟩ := sound.state.genesis ne
      have final : (tipPtr s.chainActive).getLast? = some genesis.2.pindex.hash := by
        rw [tipPtr, getLast?_map, last]
        rfl
      rw [← split, getLast?_concat] at final
      exact (Option.some.inj final).symm
    refine ⟨sound.state, ?_, leads, by rintro ⟨⟩, ?_⟩
    · intro ptr present active _
      apply sound.covered ptr present active
      rw [unobserved]
      exact fun empty => present (suffix_nil.mp empty)
    · rintro _ ⟨⟩
      rw [unsent, origin, same]
      exact ⟨ne, suffix_refl _, rfl⟩
  | collect =>
    obtain ⟨pindexLastTip, _, sleeping, _, _, _, rfl⟩ := collect_cases taken
    obtain ⟨ne, _, walk⟩ := sound.started pindexLastTip (by rw [sleeping]; rfl)
    refine ⟨sound.state, ?_, leads, by rintro ⟨⟩, ?_⟩
    · intro _ _ active unobserved
      exact absurd active unobserved
    · rintro _ ⟨⟩
      exact ⟨ne, sound.state.genesis ne, walk⟩
  | notify =>
    obtain ⟨_, _, round, rfl⟩ := notify_cases taken
    obtain ⟨_, last, _, old, after, moves⟩ := nextRound_leads sound.leads round
    obtain ⟨ne, rooted, walk⟩ := sound.started last old
    refine ⟨sound.state, sound.covered, leads, ?_, ?_⟩
    · simp [after]
    · intro _ current
      cases after.symm.trans current
      refine ⟨ne, rooted, ?_⟩
      rw [foldlM_append, walk]
      exact moves
  | finish =>
    obtain ⟨pindexLastTip, _, connecting, rfl⟩ := finish_cases taken
    refine ⟨sound.state, sound.covered, leads, by rintro ⟨⟩, ?_⟩
    rintro _ ⟨⟩
    exact sound.started pindexLastTip (by rw [connecting]; rfl)

/-- The trees and the conflicts of all the blocks to announce are there. -/
theorem Sound.collect_isSome (sound : Sound env contextual T first s) {pindexLastTip : BlockPtr}
    (sleeping : s.phase = .sleeping pindexLastTip) :
    (s.collect env).isSome := by
  obtain ⟨ne, rooted, _⟩ := sound.started pindexLastTip (by rw [sleeping]; rfl)
  have last : pindexLastTip = s.observed := by
    have leads := sound.leads
    rw [sleeping] at leads
    exact leads
  obtain ⟨below, active, common⟩ := findFork_spec (tipPtr s.chainActive) pindexLastTip
  have forked : findFork (tipPtr s.chainActive) pindexLastTip ≠ [] := by
    have genesis := common _ (last ▸ rooted) (sound.state.genesis ne)
    intro empty
    rw [empty] at genesis
    cases suffix_nil.mp genesis
  have collected :
      (collectBlocks env (fun type => (s.pcoinsTip.pools type).anchors) s.recentlyConflictedTxs
      (findFork (tipPtr s.chainActive) pindexLastTip) s.chainActive []).isSome := by
    apply collectBlocks_isSome forked active
    intro connected pprev below inside above
    obtain ⟨sprout, sapling⟩ := sound.state.startTrees later inside
    refine ⟨sprout, sapling, ?_⟩
    have suffix : tipPtr (connected :: pprev :: below) <:+ tipPtr s.chainActive := inside.map _
    apply sound.covered _ (cons_ne_nil _ _) suffix
    intro observed
    exact above (common _ (last ▸ observed) suffix)
  obtain ⟨_, collected⟩ := Option.isSome_iff_exists.mp collected
  unfold Notifier.collect
  rw [sleeping]
  dsimp only
  rw [collected]
  rfl

end Notifier

end Zcashd.Abstract

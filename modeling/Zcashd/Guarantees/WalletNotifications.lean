import Zcashd.Abstract.ConflictDelivery
import Zcashd.Guarantees.BlockUndo

/-!
# Notifications of wallets

`ThreadNotifyWallets` against any sequence of `ConnectTip` and `DisconnectTip` steps in between.
Its notifications are a walk in the block tree, each cycle of which ends at the tip that was
active when its state was collected, and collecting never throws or fails an assertion
(`notifications_walk`), unless Sapling is active at the genesis block: the entry of the genesis
block has no final Sapling root, so the tree as of the start of its child is not found.

The conflicts a block is announced with are those of its most recent `ConnectTip`, and every
transaction removed by the `ConnectTip` of a block that is active when a cycle is collected is
delivered once (`conflicts_delivered_once`), as long as no block is connected again which the
thread has not forgotten: `ConnectTip` leaves the first list of a block in the map, and a block
below the observed tip is not announced again.
-/
namespace Zcashd.Guarantees.WalletNotifications

open Lib Source Abstract Abstract.Notifier BlockUndo List Option FlatView ShieldedType Tracked

/-- The thread at its start, before any notification: at the tip of the chain, or waiting for the
genesis block when there is no chain yet. `first` is the tip the wallet is at. -/
structure Started (env : ChainEnv) (contextual : ContextualVerifier)
    (T : ShieldedType → Set IncrementalMerkleTree) (first : BlockPtr) (s : Notifier) : Prop where
  state : ChainState env contextual (Distinct env T) s.chainActive s.pcoinsTip
  unsent : s.sent = []
  position : (s.chainActive ≠ [] ∧ s.phase = .sleeping (tipPtr s.chainActive) ∧
      s.observed = tipPtr s.chainActive ∧ first = tipPtr s.chainActive) ∨
    (s.chainActive = [] ∧ s.phase = .waiting ∧ s.observed = [] ∧
      first = [env.consensus.hashGenesisBlock])

variable {env : ChainEnv} {contextual : ContextualVerifier}
  {T : ShieldedType → Set IncrementalMerkleTree}
  {first : BlockPtr} {s : Notifier}

theorem Started.sound (started : Started env contextual T first s) :
    Sound env contextual T first s := by
  rcases started.position with ⟨ne, phase, observed, origin⟩ | ⟨empty, phase, observed, origin⟩
  · refine ⟨started.state, ?_, ?_, ?_, ?_⟩
    · intro _ _ active unobserved
      rw [observed] at unobserved
      exact absurd active unobserved
    · rw [phase, observed]
      rfl
    · rw [phase]
      exact nofun
    · rw [phase, started.unsent, observed, origin]
      rintro _ ⟨⟩
      exact ⟨ne, started.state.genesis ne, rfl⟩
  · refine ⟨started.state, ?_, ?_, ?_, ?_⟩
    · intro _ present active _
      rw [empty] at active
      exact absurd (suffix_nil.mp active) present
    · rw [phase]
      trivial
    · intro _
      exact ⟨started.unsent, observed, origin⟩
    · rw [phase]
      exact nofun

/-- The notifications sent are a walk from the first tip to the last one notified. A cycle ends at
the tip observed when its state was collected, and the next one can be collected. -/
theorem notifications_walk (later : env.consensus.networkUpgradeActive 0 .UPGRADE_SAPLING = false)
    (undoes : env.mmr.Undoes) (regtest : Bool) {start : Notifier}
    (started : Started env contextual T first start)
    (reached : Reached (Notifier.step env regtest) (Admitted env contextual T) start s) :
    (∀ last, lastTip s.phase = some last → s.sent.foldlM move first = some last) ∧
    (lastTip s.phase = none → s.sent = []) ∧
    (∀ last, s.phase = .sleeping last → last = s.observed ∧
      ∃ s', s.collect env = some s' ∧ s'.observed = tipPtr s.chainActive) := by
  have sound : Sound env contextual T first s := reached.invariant started.sound
    fun _ _ _ sound admitted taken => sound.step later undoes admitted taken
  refine ⟨fun last current => (sound.started last current).2.2,
    fun none => (sound.unstarted none).1, ?_⟩
  intro _ sleeping
  have leads := sound.leads
  rw [sleeping] at leads
  obtain ⟨s', collected⟩ := isSome_iff_exists.mp (sound.collect_isSome later sleeping)
  refine ⟨leads, s', collected, ?_⟩
  obtain ⟨_, _, _, _, _, _, rfl⟩ := collect_cases collected
  rfl

/-- A node that has the genesis block. -/
def atGenesis : Notifier where
  chainActive := [(genesisBlock, ⟨genesisTip, none, none⟩)]
  pcoinsTip := { FlatView.empty ShieldedType.linearHash with bestBlock := 1 }
  recentlyConflictedTxs := ∅
  nRecentlyConflictedSequence := 0
  nNotifiedSequence := 0
  phase := .sleeping [1]
  observed := [1]
  sent := []

theorem emptyView_inPlay {block : CBlock} {bestBlock : Uint256}
    (added : TreesAdded .regtest fewTrees block { empty linearHash with bestBlock := bestBlock }) :
    BlockInPlay .regtest fewTrees block { empty linearHash with bestBlock := bestBlock } where
  play := fewTrees_inPlay
  known type rt tree hit := by
    simp only [empty] at hit
    split at hit
    · cases hit
      exact fewTrees_inPlay.empty_mem type
    · cases hit
  added := added

theorem genesisBlock_added : TreesAdded .regtest fewTrees genesisBlock (empty linearHash) := by
  intro type tree _ best appended
  have old : tree = .empty := by
    simp only [empty, ↓reduceIte, some.injEq] at best
    exact best.symm
  subst old
  cases type <;> cases appended <;> exact fewTrees_inPlay.empty_mem _

theorem atGenesis_started : Started .regtest .regtest fewTrees [1] atGenesis where
  state := genesis_state _ ⟨by decide +kernel, emptyView_inPlay genesisBlock_added⟩
  unsent := rfl
  position := Or.inl ⟨cons_ne_nil _ _, rfl, rfl, rfl⟩

theorem firstBlock_admitted (txConflicted : List CTransaction) :
    Admitted .regtest .regtest fewTrees atGenesis
      (.connectTip firstBlock firstIndex txConflicted) :=
  ⟨firstBlock_accepted, by decide +kernel, emptyView_inPlay firstBlock_added⟩

/-- Once a block with two JoinSplit commitments is connected, the next cycle can be collected. -/
theorem notifications_walk_firstBlock :
    ∃ s s', atGenesis.step .regtest true (.connectTip firstBlock firstIndex []) = some s ∧
      s.collect .regtest = some s' ∧ s'.observed = [2, 1] := by
  have runs : (atGenesis.connectTip .regtest firstBlock firstIndex []).isSome ∧
      ∀ s ∈ atGenesis.connectTip .regtest firstBlock firstIndex [], tipPtr s.chainActive =
        [2, 1] := by decide +kernel
  obtain ⟨s, connected⟩ := isSome_iff_exists.mp runs.1
  have tip : tipPtr s.chainActive = [2, 1] := runs.2 s connected
  have reached :
      Reached (Notifier.step .regtest true) (Admitted .regtest .regtest fewTrees) atGenesis s :=
    .next .start (firstBlock_admitted []) connected
  have sleeping : s.phase = .sleeping [1] := by
    obtain ⟨_, _, _, rfl⟩ := connectTip_cases connected
    rfl
  obtain ⟨_, _, cycles⟩ :=
    notifications_walk (by decide) MMRLibrary.counting_undoes true atGenesis_started reached
  obtain ⟨_, s', collected, observed⟩ := cycles [1] sleeping
  exact ⟨s, s', connected, collected, observed.trans tip⟩

theorem coinbaseBlock_accepted :
    Accepted saplingGenesis .regtest coinbaseBlock firstIndex (some genesisTip) where
  parsed tx mem := by
    simp only [coinbaseBlock, mem_cons, not_mem_nil, or_false] at mem
    subst mem
    exact ⟨by decide, by decide, by decide, by decide⟩
  contextual := by decide +kernel
  hash := rfl
  notNull := by decide
  genesis := by decide
  height := rfl
  heightBound := by decide
  saplingRoot _ _ := rfl
  genesisCoinBase := nofun

/-- Sapling is active at the genesis block: the child of the genesis block is connected, and an
assertion of the next cycle fails. -/
theorem saplingGenesis_stops_notifier :
    Accepted saplingGenesis .regtest coinbaseBlock firstIndex (tipOf atGenesis.chainActive) ∧
    ∃ s, atGenesis.step saplingGenesis true (.connectTip coinbaseBlock firstIndex []) = some s ∧
      s.phase = .sleeping [1] ∧ s.collect saplingGenesis = none := by
  refine ⟨coinbaseBlock_accepted, ?_⟩
  have runs : (atGenesis.connectTip saplingGenesis coinbaseBlock firstIndex []).isSome ∧
      ((atGenesis.connectTip saplingGenesis coinbaseBlock firstIndex []).bind
        (fun s => s.collect saplingGenesis)).isNone := by decide +kernel
  obtain ⟨s, connected⟩ := isSome_iff_exists.mp runs.1
  have stopped := runs.2
  rw [connected, bind_some, isNone_iff_eq_none] at stopped
  refine ⟨s, connected, ?_, stopped⟩
  obtain ⟨_, _, _, rfl⟩ := connectTip_cases connected
  rfl

/-! Conflicts -/

/-- The thread at its start, with nothing collected. -/
structure Begun (t : Tracked) : Prop where
  latest : ∀ ptr, t.latest ptr = none
  collected : t.collected = []
  unsent : t.notifier.sent = []
  position : t.notifier.phase = .sleeping (tipPtr t.notifier.chainActive) ∧
      t.notifier.observed = tipPtr t.notifier.chainActive ∨
    t.notifier.chainActive = [] ∧ t.notifier.phase = .waiting ∧ t.notifier.observed = []

theorem Begun.delivers {t : Tracked} (begun : Begun t) : t.Delivers := by
  obtain ⟨latest, collected, unsent, position⟩ := begun
  have active : ∀ ptr, ptr ≠ [] → ptr <:+ tipPtr t.notifier.chainActive →
      ptr <:+ t.notifier.observed := by
    intro _ ne inside
    rcases position with ⟨_, observed⟩ | ⟨empty, _⟩
    · rwa [observed]
    · rw [empty] at inside
      exact absurd (suffix_nil.mp inside) ne
  have nothing : blockStack t.notifier.phase = [] := by
    rcases position with ⟨phase, _⟩ | ⟨_, phase, _⟩ <;> rw [phase] <;> rfl
  refine ⟨?_, ?_, ?_, ?_, ?_, ?_, ?_, ?_, ?_, ?_⟩
  · rcases position with ⟨phase, observed⟩ | ⟨_, phase, _⟩
    · rw [phase, observed]
      rfl
    · rw [phase]
      trivial
  · intro waiting
    rcases position with ⟨phase, _⟩ | ⟨_, _, observed⟩
    · cases phase.symm.trans waiting
    · exact observed
  · simp [latest]
  · simp [latest]
  · simp [latest]
  · simp [collected]
  · intro ptr ne inside unseen
    exact absurd (active ptr ne inside) unseen
  · simp [latest]
  · simp [nothing]
  · rw [collected, unsent, nothing]
    rfl

/-- A block is announced with the conflicts of its most recent `ConnectTip`. After a cycle was
collected, each `ConnectTip` of an active block that removed transactions has exactly one entry
among the blocks collected, with these transactions; and what is collected is announced once. -/
theorem conflicts_delivered_once (regtest : Bool) {start t : Tracked} (begun : Begun start)
    (reached : Reached (Tracked.step env regtest) Tracked.NewToNotifier start t) :
    (∀ last data rest sequence, t.notifier.phase = .connecting last (data :: rest) sequence →
      ∃ n, t.latest data.pindex = some (n, data.txConflicted)) ∧
    (∀ t', t.step env regtest .collect = some t' → ∀ ptr n txConflicted, ptr ≠ [] →
      ptr <:+ tipPtr t.notifier.chainActive → t.latest ptr = some (n, txConflicted) →
      txConflicted ≠ [] →
      ∃ data, t'.collected.filter (fun entry => entry.1 == some n) = [(some n, data)] ∧
        data.pindex = ptr ∧ data.txConflicted = txConflicted) ∧
    t.collected.map Prod.snd = announced t.notifier.sent ++ blockStack t.notifier.phase := by
  have delivers : t.Delivers := reached.invariant begun.delivers
    fun _ _ _ delivers new taken => delivers.step new taken
  refine ⟨?_, ?_, delivers.delivered⟩
  · intro _ _ _ _ connecting
    apply delivers.current
    rw [connecting]
    exact mem_cons_self
  · intro _ taken ptr n txConflicted nonempty active latest conflicts
    have after := delivers.collect taken
    obtain ⟨s, collected, taken⟩ := bind_eq_some_iff.mp taken
    cases taken
    obtain ⟨_, _, _, _, _, _, rfl⟩ := collect_cases collected
    exact after.done ptr n txConflicted nonempty active active latest conflicts

def trackedGenesis : Tracked := ⟨atGenesis, fun _ => none, []⟩

theorem trackedGenesis_begun : Begun trackedGenesis where
  latest _ := rfl
  collected := rfl
  unsent := rfl
  position := Or.inl ⟨rfl, rfl⟩

/-- The first block is connected, which removes a transaction from the pool. -/
theorem conflicts_delivered_once_firstBlock :
    ∃ t t' data, trackedGenesis.step .regtest true
      (.connectTip firstBlock firstIndex [spendTx]) = some t ∧
      t.step .regtest true .collect = some t' ∧
      t'.collected.filter (fun entry => entry.1 == some 0) = [(some 0, data)] ∧
      data.txConflicted = [spendTx] := by
  have runs :
      ((trackedGenesis.step .regtest true (.connectTip firstBlock firstIndex [spendTx])).bind
      (Tracked.step .regtest true · .collect)).isSome ∧
      ∀ t ∈ trackedGenesis.step .regtest true (.connectTip firstBlock firstIndex [spendTx]),
        tipPtr t.notifier.chainActive = [2, 1] ∧
          t.latest [2, 1] = some (0, [spendTx]) := by decide +kernel
  obtain ⟨t', ran⟩ := isSome_iff_exists.mp runs.1
  obtain ⟨t, connected, collected⟩ := bind_eq_some_iff.mp ran
  obtain ⟨tip, latest⟩ := runs.2 t connected
  have new : trackedGenesis.NewToNotifier (.connectTip firstBlock firstIndex [spendTx]) := by
    refine ⟨?_, by decide, nofun⟩
    exact AList.notMem_empty _
  have reached : Reached (Tracked.step .regtest true) Tracked.NewToNotifier trackedGenesis t :=
    .next .start new connected
  obtain ⟨_, once, _⟩ := conflicts_delivered_once true trackedGenesis_begun reached
  have active : [2, 1] <:+ tipPtr t.notifier.chainActive := tip ▸ suffix_refl [2, 1]
  obtain ⟨data, entry, _, delivered⟩ :=
    once t' collected [2, 1] 0 [spendTx] (by decide) active latest (by decide)
  exact ⟨t, t', data, connected, collected, entry, delivered⟩

/-- The block is connected twice before a cycle is collected. -/
def connectedTwice : List Label :=
  [.connectTip firstBlock firstIndex [unshieldTx], .disconnectTip,
    .connectTip firstBlock firstIndex [spendTx], .collect]

/-- The block is announced, then disconnected and connected again. -/
def connectedAgain : List Label :=
  [.connectTip firstBlock firstIndex [], .collect, .notify, .notify, .finish, .disconnectTip,
    .connectTip firstBlock firstIndex [spendTx], .collect]

/-- A block that is connected twice before the next cycle is announced with the conflicts of the
first time; those of a block that was announced before are not collected at all. -/
theorem reconnected_block_loses_conflicts :
    (∃ t, connectedTwice.foldlM (Tracked.step .regtest true) trackedGenesis = some t ∧
      t.latest [2, 1] = some (1, [spendTx]) ∧
      (blockStack t.notifier.phase).map (fun data => (data.pindex, data.txConflicted)) =
        [([2, 1], [unshieldTx])]) ∧
    ∃ t, connectedAgain.foldlM (Tracked.step .regtest true) trackedGenesis = some t ∧
      t.latest [2, 1] = some (1, [spendTx]) ∧ tipPtr t.notifier.chainActive = [2, 1] ∧
      t.collected.map (fun entry => (entry.1, entry.2.txConflicted)) = [(some 0, [])] := by
  have twice : (connectedTwice.foldlM (Tracked.step .regtest true) trackedGenesis).isSome ∧
      ∀ t ∈ connectedTwice.foldlM (Tracked.step .regtest true) trackedGenesis,
        t.latest [2, 1] = some (1, [spendTx]) ∧
          (blockStack t.notifier.phase).map (fun data => (data.pindex, data.txConflicted)) =
            [([2, 1], [unshieldTx])] := by decide +kernel
  have again : (connectedAgain.foldlM (Tracked.step .regtest true) trackedGenesis).isSome ∧
      ∀ t ∈ connectedAgain.foldlM (Tracked.step .regtest true) trackedGenesis,
        t.latest [2, 1] = some (1, [spendTx]) ∧ tipPtr t.notifier.chainActive = [2, 1] ∧
          t.collected.map (fun entry => (entry.1, entry.2.txConflicted)) =
            [(some 0, [])] := by decide +kernel
  constructor
  · obtain ⟨t, ran⟩ := isSome_iff_exists.mp twice.1
    exact ⟨t, ran, twice.2 t ran⟩
  · obtain ⟨t, ran⟩ := isSome_iff_exists.mp again.1
    exact ⟨t, ran, again.2 t ran⟩

end Zcashd.Guarantees.WalletNotifications

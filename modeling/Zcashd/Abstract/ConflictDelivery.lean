import Zcashd.Abstract.NotifierRun

/-!
Which transactions the notifier reports as conflicted. `Tracked` follows a run with what the most
recent `ConnectTip` of each block removed from the memory pool, and with the blocks collected so
far, each with the `ConnectTip` it is announced for.
-/
namespace Zcashd.Abstract

open Lib Source Program List Function

theorem filter_eq_singleton {α : Type} {l : List α} {a : α} {p : α → Bool} (nodup : l.Nodup)
    (mem : a ∈ l) (only : ∀ b ∈ l, p b = true ↔ b = a) :
    l.filter p = [a] := by
  classical
  have same : l.filter p = l.filter (· == a) :=
    filter_congr fun b inside => Bool.eq_iff_iff.mpr (by simpa using only b inside)
  rw [same, filter_beq, nodup.count, if_pos mem]
  rfl

/-- The entry of a block keeps its hash when the block is connected. -/
theorem connectBlock_hash {env : ChainEnv} {block : CBlock} {pindex : CBlockIndex}
    {pprev : Option CBlockIndex} {f f' : FlatView} {result : ConnectResult}
    (ran : (connectBlock env block pindex pprev false).run env.onFlat f = .ok (result, f')) :
    result.pindex.hash = pindex.hash := by
  by_cases genesis : block.getHash = env.consensus.hashGenesisBlock
  · obtain ⟨_, rfl⟩ := connectBlock_genesis genesis ran
    rfl
  · cases pprev with
    | some _ =>
      obtain ⟨_, _, _, _, connected⟩ := connectBlock_connected genesis ran
      exact connected.hash_after
    | none =>
      -- the run ends in `finishBlock`, which needs the block below
      simp only [connectBlock, finishBlock, if_neg genesis, run_bind_ok] at ran
      obtain ⟨_, _, _, _, _, _, _, _, _, _, _, _, _, _, _, _, _, _, _, _, _, ran⟩ := ran
      cases txs : block.vtx with
      | nil =>
        rw [txs] at ran
        cases ran
      | cons _ _ =>
        simp only [txs, run_bind_ok] at ran
        obtain ⟨_, _, _, _, _, _, ran⟩ := ran
        cases ran

namespace Notifier

/-- The blocks still to be announced. -/
def blockStack : NotifierPhase → List CachedBlockData
  | .disconnecting _ _ blockStack _ | .connecting _ blockStack _ => blockStack
  | _ => []

/-- The blocks announced as connected. -/
def announced (sent : List Notification) : List CachedBlockData :=
  sent.filterMap fun
    | .connected data => some data
    | .disconnected _ => none

/-- A round announces the first block of the stack, or none. -/
theorem nextRound_stack {phase phase' : NotifierPhase} {notifications : List Notification}
    (round : nextRound phase = some (notifications, phase')) :
    blockStack phase = announced notifications ++ blockStack phase' := by
  cases phase with
  | waiting => cases round
  | sleeping => cases round
  | disconnecting _ _ _ _ =>
    simp only [nextRound] at round
    split at round <;> (cases round; rfl)
  | connecting _ stack _ =>
    cases stack with
    | nil => cases round
    | cons _ _ =>
      cases round
      rfl

end Notifier

open Notifier

structure Tracked where
  notifier : Notifier
  /-- The number of the most recent `ConnectTip` of a block, and the transactions it removed. -/
  latest : BlockPtr → Option (Nat × List CTransaction)
  /-- The blocks collected so far, with the number of their most recent `ConnectTip`. -/
  collected : List (Option Nat × CachedBlockData)

namespace Tracked

/-- `nRecentlyConflictedSequence` numbers the calls of `ConnectTip`. -/
def step (env : ChainEnv) (regtest : Bool) (t : Tracked) (l : Label) : Option Tracked := do
  let s ← t.notifier.step env regtest l
  match l with
  | .connectTip _ _ txConflicted =>
    some { t with
      notifier := s
      latest := Function.update t.latest (tipPtr s.chainActive)
        (some (t.notifier.nRecentlyConflictedSequence, txConflicted)) }
  | .collect =>
    some { t with
      notifier := s
      collected := t.collected ++ (blockStack s.phase).map
        (fun data => ((t.latest data.pindex).map Prod.fst, data)) }
  | _ => some { t with notifier := s }

/-- A block that is connected was not connected since the last cycle was collected, and is not
an ancestor of the tip observed then. (The genesis block conflicts with nothing.) -/
def NewToNotifier (t : Tracked) : Label → Prop
  | .connectTip _ pindexNew txConflicted =>
    pindexNew.hash :: tipPtr t.notifier.chainActive ∉ t.notifier.recentlyConflictedTxs ∧
      ¬ pindexNew.hash :: tipPtr t.notifier.chainActive <:+ t.notifier.observed ∧
      (t.notifier.chainActive = [] → txConflicted = [])
  | _ => True

structure Delivers (t : Tracked) : Prop where
  leads : Leads t.notifier.observed t.notifier.phase
  waiting : t.notifier.phase = .waiting → t.notifier.observed = []
  first : ∀ hash n txConflicted, t.latest [hash] = some (n, txConflicted) → txConflicted = []
  older : ∀ ptr n txConflicted, t.latest ptr = some (n, txConflicted) →
    n < t.notifier.nRecentlyConflictedSequence
  numbered : ∀ ptr other n txConflicted txConflicted', t.latest ptr = some (n, txConflicted) →
    t.latest other = some (n, txConflicted') → ptr = other
  collectedOlder :
    ∀ n data, (some n, data) ∈ t.collected → n < t.notifier.nRecentlyConflictedSequence
  /-- Blocks connected since the last cycle have their conflicts in the map. -/
  pending : ∀ ptr, ptr ≠ [] → ptr <:+ tipPtr t.notifier.chainActive →
    ¬ ptr <:+ t.notifier.observed → ∃ n txConflicted, t.latest ptr = some (n, txConflicted) ∧
      t.notifier.recentlyConflictedTxs.lookup ptr = some txConflicted ∧
        ∀ data, (some n, data) ∉ t.collected
  /-- Blocks connected before it were collected with theirs, once. -/
  done : ∀ ptr n txConflicted, ptr ≠ [] → ptr <:+ tipPtr t.notifier.chainActive →
    ptr <:+ t.notifier.observed → t.latest ptr = some (n, txConflicted) → txConflicted ≠ [] →
    ∃ data, t.collected.filter (fun entry => entry.1 == some n) = [(some n, data)] ∧
      data.pindex = ptr ∧ data.txConflicted = txConflicted
  current :
    ∀ data ∈ blockStack t.notifier.phase, ∃ n, t.latest data.pindex = some (n, data.txConflicted)
  delivered : t.collected.map Prod.snd = announced t.notifier.sent ++ blockStack t.notifier.phase

variable {env : ChainEnv} {regtest : Bool} {t t' : Tracked} (delivers : Delivers t)
include delivers

/-- The blocks still to be announced are ancestors of the observed tip. -/
theorem Delivers.stack_observed {data : CachedBlockData}
    (mem : data ∈ blockStack t.notifier.phase) : data.pindex <:+ t.notifier.observed := by
  have leads := delivers.leads
  cases current : t.notifier.phase with
  | waiting | sleeping => simp [current, blockStack] at mem
  | disconnecting =>
    rw [current] at mem leads
    exact ((leads.2.mem_iff _).mp (mem_map_of_mem mem)).1
  | connecting =>
    rw [current] at mem leads
    exact ((Climbs.mem_iff leads _).mp (mem_map_of_mem mem)).1

theorem Delivers.connectTip {block : CBlock} {pindexNew : CBlockIndex}
    {txConflicted : List CTransaction}
    (new : t.NewToNotifier (.connectTip block pindexNew txConflicted))
    (taken : t.step env regtest (.connectTip block pindexNew txConflicted) = some t') :
    Delivers t' := by
  obtain ⟨s, connected, taken⟩ := Option.bind_eq_some_iff.mp taken
  cases taken
  obtain ⟨result, _, ran, rfl⟩ := connectTip_cases connected
  generalize whole : tipPtr ((block, result) :: t.notifier.chainActive) = newTip
  have tip : newTip = pindexNew.hash :: tipPtr t.notifier.chainActive := by
    rw [← whole, ← connectBlock_hash ran]
    rfl
  obtain ⟨unlisted, unobserved, _⟩ := new
  rw [← tip] at unlisted unobserved
  have older : ∀ ptr, ptr <:+ newTip → ptr ≠ newTip → ptr <:+ tipPtr t.notifier.chainActive := by
    intro _ inside other
    rw [tip] at inside other
    exact (suffix_cons_iff.mp inside).resolve_left other
  have observed : ∀ ptr, ptr <:+ t.notifier.observed → ptr ≠ newTip := by
    rintro _ inside rfl
    exact unobserved inside
  have recorded : recordConflicts newTip txConflicted t.notifier.recentlyConflictedTxs =
      t.notifier.recentlyConflictedTxs.insert newTip txConflicted := if_neg unlisted
  refine ⟨delivers.leads, delivers.waiting, ?_, ?_, ?_, ?_, ?_, ?_, ?_, delivers.delivered⟩
  · intro hash n list _
    have first := delivers.first hash n list
    have empty : [hash] = newTip → t.notifier.chainActive = [] := by
      rintro rfl
      exact map_eq_nil_iff.mp (List.cons.inj tip).2.symm
    grind
  · intro ptr n list _
    have older := delivers.older ptr n list
    grind
  · intro ptr other n list list' _ _
    have older := delivers.older
    have numbered := delivers.numbered ptr other n list list'
    grind
  · intro n data mem
    exact Nat.lt_succ_of_lt (delivers.collectedOlder n data mem)
  · intro ptr ne inside outside
    dsimp only at inside ⊢
    rw [whole] at inside
    rw [recorded]
    by_cases same : ptr = newTip
    · subst same
      refine ⟨_, txConflicted, update_self .., AList.lookup_insert _, ?_⟩
      intro data mem
      exact absurd (delivers.collectedOlder _ data mem) (Nat.lt_irrefl _)
    · obtain ⟨n, list, _, _, uncollected⟩ := delivers.pending ptr ne (older ptr inside same) outside
      exact ⟨n, list, by rwa [update_of_ne same], by rwa [AList.lookup_insert_ne same], uncollected⟩
  · intro ptr n list ne inside seen latest conflicts
    dsimp only at inside latest
    rw [whole] at inside
    have other := observed ptr seen
    rw [update_of_ne other] at latest
    exact delivers.done ptr n list ne (older ptr inside other) seen latest conflicts
  · intro data mem
    obtain ⟨n, latest⟩ := delivers.current data mem
    refine ⟨n, ?_⟩
    dsimp only
    rw [update_of_ne (observed _ (delivers.stack_observed mem))]
    exact latest

theorem Delivers.collect (taken : t.step env regtest .collect = some t') : Delivers t' := by
  obtain ⟨s, collected, taken⟩ := Option.bind_eq_some_iff.mp taken
  cases taken
  obtain ⟨pindexLastTip, stack, sleeping, below, climbs, listed, rfl⟩ := collect_cases collected
  have last : pindexLastTip = t.notifier.observed := by
    have leads := delivers.leads
    rw [sleeping] at leads
    exact leads
  obtain ⟨_, _, common⟩ := findFork_spec (tipPtr t.notifier.chainActive) pindexLastTip
  -- what is collected are the blocks of the active chain that were not observed
  have above : ∀ ptr, ptr ∈ stack.map CachedBlockData.pindex ↔
      ptr <:+ tipPtr t.notifier.chainActive ∧ ¬ ptr <:+ t.notifier.observed := by
    intro ptr
    rw [climbs.mem_iff, ← last]
    exact and_congr_right fun active =>
      not_congr ⟨fun forked => forked.trans below, fun seen => common ptr seen active⟩
  have latest : ∀ data ∈ stack, ∃ n, t.latest data.pindex = some (n, data.txConflicted) ∧
      ∀ data, (some n, data) ∉ t.collected := by
    intro data mem
    obtain ⟨active, unseen⟩ := (above data.pindex).mp (mem_map_of_mem mem)
    have ne : data.pindex ≠ [] := by
      intro empty
      rw [empty] at unseen
      exact unseen nil_suffix
    obtain ⟨n, _, recent, hit, uncollected⟩ := delivers.pending data.pindex ne active unseen
    rw [listed data mem] at hit
    cases hit
    exact ⟨n, recent, uncollected⟩
  let entryOf (data : CachedBlockData) := ((t.latest data.pindex).map Prod.fst, data)
  refine ⟨⟨below, climbs⟩, nofun, delivers.first, delivers.older, delivers.numbered,
    ?_, ?_, ?_, ?_, ?_⟩
  · intro n data mem
    rcases mem_append.mp mem with old | new
    · exact delivers.collectedOlder n data old
    · obtain ⟨other, inside, same⟩ := mem_map.mp new
      obtain ⟨m, recent, _⟩ := latest other inside
      rw [recent] at same
      cases same
      exact delivers.older _ _ _ recent
  · intro _ _ active unseen
    exact absurd active unseen
  · intro ptr n list ne active _ recent conflicts
    rw [filter_append, filter_map]
    by_cases seen : ptr <:+ t.notifier.observed
    · obtain ⟨data, before, same, delivered⟩ :=
        delivers.done ptr n list ne active seen recent conflicts
      refine ⟨data, ?_, same, delivered⟩
      have none : stack.filter ((fun entry => entry.1 == some n) ∘ entryOf) = [] := by
        rw [filter_eq_nil_iff]
        intro other inside equal
        obtain ⟨m, recent', _⟩ := latest other inside
        simp only [entryOf, comp_apply, recent', Option.map_some, beq_iff_eq,
          Option.some.injEq] at equal
        subst equal
        have ptrs := delivers.numbered _ _ _ _ _ recent recent'
        exact ((above other.pindex).mp (mem_map_of_mem inside)).2 (ptrs ▸ seen)
      rw [before, blockStack, none]
      rfl
    · obtain ⟨data, inside, same⟩ := mem_map.mp ((above ptr).mpr ⟨active, seen⟩)
      obtain ⟨m, recent', _⟩ := latest data inside
      rw [same, recent] at recent'
      cases recent'
      refine ⟨data, ?_, same, rfl⟩
      have none : t.collected.filter (fun entry => entry.1 == some n) = [] := by
        rw [filter_eq_nil_iff]
        grind
      have once : stack.filter ((fun entry => entry.1 == some n) ∘ entryOf) = [data] := by
        apply filter_eq_singleton (List.Nodup.of_map _ climbs.nodup) inside
        intro other inside'
        obtain ⟨m, recent', _⟩ := latest other inside'
        simp only [entryOf, comp_apply, recent', Option.map_some, beq_iff_eq, Option.some.injEq]
        constructor
        · rintro rfl
          have ptrs := delivers.numbered _ _ _ _ _ recent recent'
          exact (inj_on_of_nodup_map climbs.nodup inside inside' (same.trans ptrs)).symm
        · rintro rfl
          rw [same, recent] at recent'
          cases recent'
          rfl
      rw [none, blockStack, once, map_singleton, same, recent]
      rfl
  · intro data mem
    obtain ⟨n, recent, _⟩ := latest data mem
    exact ⟨n, recent⟩
  · have before := delivers.delivered
    rw [sleeping] at before
    dsimp only [blockStack] at before ⊢
    rw [map_append, before, append_nil, map_map]
    simp [comp_def]

theorem Delivers.disconnectTip (taken : t.step env regtest .disconnectTip = some t') :
    Delivers t' := by
  obtain ⟨s, disconnected, taken⟩ := Option.bind_eq_some_iff.mp taken
  cases taken
  obtain ⟨_, _, below, _, _, _, chain, _, _, _, rfl⟩ := disconnectTip_cases disconnected
  have shorter : tipPtr below <:+ tipPtr t.notifier.chainActive := by
    rw [chain]
    exact suffix_cons _ _
  refine ⟨delivers.leads, delivers.waiting, delivers.first, delivers.older, delivers.numbered,
    delivers.collectedOlder, ?_, ?_, delivers.current, delivers.delivered⟩
  · intro ptr ne active unseen
    exact delivers.pending ptr ne (active.trans shorter) unseen
  · intro ptr n list ne active seen
    exact delivers.done ptr n list ne (active.trans shorter) seen

theorem Delivers.start (taken : t.step env regtest .start = some t') : Delivers t' := by
  obtain ⟨s, begun, taken⟩ := Option.bind_eq_some_iff.mp taken
  cases taken
  obtain ⟨waiting, genesis, _, rfl⟩ := start_cases begun
  have unobserved := delivers.waiting waiting
  have old := delivers.delivered
  rw [waiting] at old
  refine ⟨rfl, nofun, delivers.first, delivers.older, delivers.numbered,
    delivers.collectedOlder, ?_, ?_, nofun, old⟩
  · intro ptr ne active _
    apply delivers.pending ptr ne active
    rw [unobserved]
    exact fun empty => ne (suffix_nil.mp empty)
  · intro ptr n _ ne _ seen recent conflicts
    have same : ptr = [genesis.2.pindex.hash] :=
      (suffix_cons_iff.mp seen).resolve_right (mt suffix_nil.mp ne)
    rw [same] at recent
    exact absurd (delivers.first _ _ _ recent) conflicts

theorem Delivers.notify (taken : t.step env regtest .notify = some t') : Delivers t' := by
  obtain ⟨s, notified, taken⟩ := Option.bind_eq_some_iff.mp taken
  cases taken
  have leads := step_leads (l := .notify) delivers.leads notified
  obtain ⟨_, phase, round, rfl⟩ := notify_cases notified
  have stack := nextRound_stack round
  have started : phase ≠ .waiting := by
    rintro rfl
    obtain ⟨_, _, _, _, after, _⟩ := nextRound_leads delivers.leads round
    cases after
  refine ⟨leads, fun waiting => absurd waiting started, delivers.first, delivers.older,
    delivers.numbered, delivers.collectedOlder, delivers.pending, delivers.done, ?_, ?_⟩
  · intro data mem
    apply delivers.current data
    rw [stack]
    exact mem_append_right _ mem
  · dsimp only
    rw [delivers.delivered, stack]
    simp [announced]

theorem Delivers.finish (taken : t.step env regtest .finish = some t') : Delivers t' := by
  obtain ⟨s, finished, taken⟩ := Option.bind_eq_some_iff.mp taken
  cases taken
  have leads := step_leads (l := .finish) delivers.leads finished
  obtain ⟨_, _, connecting, rfl⟩ := finish_cases finished
  have old := delivers.delivered
  rw [connecting] at old
  exact ⟨leads, nofun, delivers.first, delivers.older, delivers.numbered,
    delivers.collectedOlder, delivers.pending, delivers.done, nofun, old⟩

theorem Delivers.step {l : Label} (new : t.NewToNotifier l)
    (taken : t.step env regtest l = some t') : Delivers t' := by
  cases l with
  | connectTip _ _ _ => exact delivers.connectTip new taken
  | disconnectTip => exact delivers.disconnectTip taken
  | start => exact delivers.start taken
  | collect => exact delivers.collect taken
  | notify => exact delivers.notify taken
  | finish => exact delivers.finish taken

end Tracked

end Zcashd.Abstract

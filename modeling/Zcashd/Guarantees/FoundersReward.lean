import Zcashd.Source.FoundersReward

/-!
# The founders' reward

Up to the last block before the first halving there is an address for the founders' reward,
wherever Blossom activates before that, and `ContextualCheckBlock` never runs into an assertion.
`founders_reward_assertions` is over every parameter set with halving intervals in the ratio of the
block spacings, and any number of addresses. Heights and intervals are unbounded there, where the
source has `int`.

`GetLastFoundersRewardBlockHeight` answers for the height it is asked at. Before Blossom it gives
the last height as it would be without Blossom (`last_height_before_blossom`).
-/
namespace Zcashd.Guarantees.FoundersReward

open Lib Source ConsensusParams CChainParams Option

variable {H : Base58.HashFunction} {chainparams : CChainParams} {nHeight : Nat}

/-- The founders' addresses: there is one, and all are script addresses of the network. -/
structure Addresses (H : Base58.HashFunction) (chainparams : CChainParams) : Prop where
  some : 0 < chainparams.vFoundersRewardAddress.length
  scripts : ∀ address ∈ chainparams.vFoundersRewardAddress,
    ∃ scriptID, KeyIO.decodeDestination H chainparams.network address = .ok (.CScriptID scriptID)

/-! Indexes -/

/-- The last height of the founders' reward is the same from every height that Blossom is not ahead
of. -/
theorem isGreatest_last {params : ConsensusParams} (schedule : Schedule params)
    (settled : params.Settled nHeight) :
    ∃ last : Nat, params.getLastFoundersRewardBlockHeight nHeight = last ∧
      IsGreatest {h | params.halving h < 1} last := by
  have positive := schedule.positive
  have early := schedule.blossom
  simp only [halving_lt_one_iff schedule, last_eq schedule]
  unfold Settled at settled
  cases upgrade : params.nActivationHeight .UPGRADE_BLOSSOM with
  | none =>
    refine ⟨params.nPreBlossomSubsidyHalvingInterval + params.subsidySlowStartShift - 1, ?_, ?_, ?_⟩
    · rw [elim_none]
      omega
    · rw [Set.mem_ofPred_eq, elim_none]
      omega
    · intro h paid
      rw [Set.mem_ofPred_eq, elim_none] at paid
      omega
  | some activation =>
    have old := settled activation upgrade
    obtain ⟨_, _⟩ := early activation upgrade
    refine ⟨2 * params.nPreBlossomSubsidyHalvingInterval + 2 * params.subsidySlowStartShift -
      activation - 1, ?_, ?_, ?_⟩
    · rw [elim_some, if_pos old]
      omega
    · rw [Set.mem_ofPred_eq, elim_some, if_pos (by omega)]
      omega
    · intro h paid
      rw [Set.mem_ofPred_eq, elim_some] at paid
      split at paid <;> omega

theorem adjustedHeight_eq (chainparams : CChainParams) (nHeight : Nat) :
    chainparams.adjustedHeight nHeight =
    (chainparams.consensus.nActivationHeight .UPGRADE_BLOSSOM).elim nHeight fun activation =>
      if activation ≤ nHeight then activation + (nHeight - activation) / 2 else nHeight := by
  have ratio : BLOSSOM_POW_TARGET_SPACING_RATIO.toNat = 2 := rfl
  unfold adjustedHeight networkUpgradeActive
  cases chainparams.consensus.nActivationHeight .UPGRADE_BLOSSOM with
  | none => rfl
  | some _ => simp [ratio]

theorem adjustedHeight_mono : Monotone chainparams.adjustedHeight := by
  intro h _ le
  rw [adjustedHeight_eq, adjustedHeight_eq]
  cases chainparams.consensus.nActivationHeight .UPGRADE_BLOSSOM with
  | none => exact le
  | some _ =>
    simp only [elim_some]
    split <;> split <;> omega

section

variable (schedule : Schedule chainparams.consensus) (positive : 0 < nHeight)
  (paid : chainparams.consensus.halving nHeight < 1)
include schedule positive paid

/-- The address of the last height before Blossom would still be in use at the last height after
it. -/
theorem adjustedHeight_bounds : 0 < chainparams.adjustedHeight nHeight ∧
      (chainparams.adjustedHeight nHeight : Int) ≤
        chainparams.consensus.getLastFoundersRewardBlockHeight 0 := by
  have early := schedule.blossom
  rw [halving_lt_one_iff schedule] at paid
  rw [last_eq schedule] at paid ⊢
  rw [adjustedHeight_eq]
  cases upgrade : chainparams.consensus.nActivationHeight .UPGRADE_BLOSSOM with
  | none =>
    rw [upgrade] at paid
    exact ⟨positive, paid⟩
  | some activation =>
    rw [upgrade] at paid
    obtain ⟨_, _⟩ := early activation upgrade
    simp only [elim_some] at paid ⊢
    rw [if_neg (by omega : ¬ activation ≤ 0)]
    split at paid <;> rename_i active <;> simp only [active, if_true, if_false] <;> omega

theorem index_lt (addresses : Addresses H chainparams) :
    chainparams.foundersRewardIndex nHeight < chainparams.vFoundersRewardAddress.length := by
  have below := (adjustedHeight_bounds schedule positive paid).2
  have full := Nat.lt_div_mul_add
    (a := (chainparams.consensus.getLastFoundersRewardBlockHeight 0).toNat) addresses.some
  have interval : chainparams.addressChangeInterval * chainparams.vFoundersRewardAddress.length =
      (chainparams.consensus.getLastFoundersRewardBlockHeight 0).toNat /
        chainparams.vFoundersRewardAddress.length *
        chainparams.vFoundersRewardAddress.length + chainparams.vFoundersRewardAddress.length := by
    rw [addressChangeInterval, Nat.add_div_right _ addresses.some, Nat.succ_mul]
  apply Nat.div_lt_of_lt_mul
  omega

/-! Scripts -/

theorem getFoundersRewardScriptAtHeight_ok (addresses : Addresses H chainparams) :
    ∃ address script, chainparams.vFoundersRewardAddress[chainparams.foundersRewardIndex nHeight]? =
      some address ∧ chainparams.getFoundersRewardAddressAtHeight nHeight = .ok address ∧
      chainparams.getFoundersRewardScriptAtHeight H nHeight = .ok script := by
  have inside := index_lt schedule positive paid addresses
  obtain ⟨scriptID, decoded⟩ := addresses.scripts _ (List.getElem_mem inside)
  have last := (halving_lt_one_iff schedule nHeight).mp paid
  have hit : chainparams.getFoundersRewardAddressAtHeight nHeight =
      .ok chainparams.vFoundersRewardAddress[chainparams.foundersRewardIndex nHeight] := by
    unfold getFoundersRewardAddressAtHeight assertion
    rw [if_pos (adjustedHeight_bounds schedule positive paid), List.getElem?_eq_getElem inside]
    rfl
  refine ⟨_, OP_HASH160 :: 20 :: (scriptID.toList ++ [OP_EQUAL]),
    List.getElem?_eq_getElem inside, hit, ?_⟩
  unfold getFoundersRewardScriptAtHeight assertion
  rw [if_pos ⟨positive, last⟩, hit]
  simp only [bind, Except.bind, decoded]

end

theorem getBlockSubsidy_some (params : ConsensusParams) (positive : 0 < nHeight) :
    ∃ subsidy, params.getBlockSubsidy nHeight = some subsidy := by
  apply ne_none_iff_exists'.mp
  unfold getBlockSubsidy subsidySlowStartShift
  grind

variable (contextual : ContextualVerifier)

/-- The loop is the search of the model without assertions. -/
theorem findFoundersReward_eq {script : CScript} (coinbase : CTransaction) (positive : 0 < nHeight)
    (computed : chainparams.getFoundersRewardScriptAtHeight H nHeight = .ok script) :
    chainparams.findFoundersReward H nHeight coinbase.vout =
      .ok (paysFoundersReward { contextual with getFoundersRewardScriptAtHeight := fun _ => script }
        chainparams.consensus nHeight coinbase) := by
  obtain ⟨_, some⟩ := getBlockSubsidy_some chainparams.consensus positive
  unfold paysFoundersReward
  induction coinbase.vout with
  | nil => rfl
  | cons _ _ ih =>
    unfold findFoundersReward
    simp only [computed, some, bind, Except.bind, List.any_cons, ih, any_some]
    grind

/-! Aborts -/

theorem bind_ne_aborted {α β : Type} {first : Except Failure α} {next : α → Except Failure β}
    (safe : first ≠ .error .aborted) (later : ∀ value, next value ≠ .error .aborted) :
    (first >>= next) ≠ .error .aborted := by
  cases first with
  | error _ => simpa [bind, Except.bind] using safe
  | ok value => exact later value

theorem reject_ne_aborted (bad : Prop) [Decidable bad] (nDoS : Nat) (reason : String) :
    reject bad nDoS reason ≠ .error .aborted := by
  unfold reject
  split <;> simp

theorem checkCoinBaseOutputs_ne_aborted (tx : CTransaction)
    (outputs : List OutputDescription) :
    checkCoinBaseOutputs contextual tx outputs ≠ .error .aborted := by
  induction outputs with
  | nil => simp [checkCoinBaseOutputs]
  | cons _ _ ih =>
    simp only [checkCoinBaseOutputs]
    repeat' first
      | exact ih
      | apply reject_ne_aborted
      | (apply bind_ne_aborted; rotate_left; intro _)

theorem contextualCheckTransactions_ne_aborted (params : ConsensusParams)
    (nHeight nTime : Nat) (txs : List CTransaction) :
    contextualCheckTransactions contextual params nHeight nTime txs ≠ .error .aborted := by
  induction txs with
  | nil => simp [contextualCheckTransactions]
  | cons _ _ ih =>
    simp only [contextualCheckTransactions, contextualCheckTransaction, checkEpochVersion,
      checkJoinSplitSignature, checkSaplingProofs]
    repeat' first
      | exact ih
      | apply reject_ne_aborted
      | apply checkCoinBaseOutputs_ne_aborted
      | (apply bind_ne_aborted; rotate_left; intro _)

theorem contextualCheckBlock_ne_aborted (schedule : Schedule chainparams.consensus)
    (addresses : Addresses H chainparams) (contextual : ContextualVerifier) {block : CBlock}
    (pindexPrev : Option CBlockIndex) (ne : block.vtx ≠ []) :
    chainparams.contextualCheckBlock H contextual block pindexPrev ≠ .error .aborted := by
  unfold CChainParams.contextualCheckBlock
  apply bind_ne_aborted (contextualCheckTransactions_ne_aborted _ _ _ _ _)
  intro _
  split
  · simp
  · rename_i notGenesis
    split
    · contradiction
    · apply bind_ne_aborted (reject_ne_aborted _ _ _)
      intro _
      split
      · rename_i paid
        obtain ⟨_, _, _, _, computed⟩ := getFoundersRewardScriptAtHeight_ok schedule
          (Nat.pos_of_ne_zero notGenesis) ((halving_lt_one_iff schedule _).mpr paid) addresses
        rw [findFoundersReward_eq contextual _ (Nat.pos_of_ne_zero notGenesis) computed]
        exact reject_ne_aborted _ _ _
      · simp [pure, Except.pure]

/-- Once Blossom is not ahead, `GetLastFoundersRewardBlockHeight` is the last height before the
first halving; asked before, it is the last height as it would be without Blossom. Either way it
decides rightly whether the height it is asked at has a founders' reward. -/
theorem founders_reward_assertions (H : Base58.HashFunction) (chainparams : CChainParams)
    (schedule : Schedule chainparams.consensus) (addresses : Addresses H chainparams) :
    (∀ nHeight, chainparams.consensus.Settled nHeight →
      ∃ last : Nat, chainparams.consensus.getLastFoundersRewardBlockHeight nHeight = last ∧
        IsGreatest {h | chainparams.consensus.halving h < 1} last) ∧
    (∀ nHeight, ¬ chainparams.consensus.Settled nHeight →
      chainparams.consensus.getLastFoundersRewardBlockHeight nHeight =
        chainparams.consensus.nPreBlossomSubsidyHalvingInterval +
          chainparams.consensus.subsidySlowStartShift - 1) ∧
    (∀ nHeight : Nat,
      (nHeight : Int) ≤ chainparams.consensus.getLastFoundersRewardBlockHeight nHeight ↔
        chainparams.consensus.halving nHeight < 1) ∧
    (∀ nHeight, 0 < nHeight → chainparams.consensus.halving nHeight < 1 →
      chainparams.foundersRewardIndex nHeight < chainparams.vFoundersRewardAddress.length ∧
      ∃ address script,
        chainparams.vFoundersRewardAddress[chainparams.foundersRewardIndex nHeight]? =
          some address ∧
        chainparams.getFoundersRewardAddressAtHeight nHeight = .ok address ∧
        chainparams.getFoundersRewardScriptAtHeight H nHeight = .ok script) ∧
    Monotone chainparams.foundersRewardIndex ∧
    (∀ contextual block pindexPrev, block.vtx ≠ [] →
      chainparams.contextualCheckBlock H contextual block pindexPrev ≠ .error .aborted) := by
  refine ⟨?_, ?_, ?_, ?_, ?_, ?_⟩
  · intro _ settled
    exact isGreatest_last schedule settled
  · intro _ ahead
    simp only [Settled, not_forall, Nat.not_le] at ahead
    obtain ⟨_, upgrade, before⟩ := ahead
    rw [last_eq schedule, mem_def.mp upgrade]
    exact if_neg (Nat.not_le.mpr before)
  · intro nHeight
    exact (halving_lt_one_iff schedule nHeight).symm
  · intro _ positive paid
    exact ⟨index_lt schedule positive paid addresses,
      getFoundersRewardScriptAtHeight_ok schedule positive paid addresses⟩
  · intro h _ le
    exact Nat.div_le_div_right (adjustedHeight_mono le)
  · intro contextual _ pindexPrev nonempty
    exact contextualCheckBlock_ne_aborted schedule addresses contextual pindexPrev nonempty

/-- The main network with its activation height of Blossom and the first of its addresses. -/
def mainnet : CChainParams where
  consensus := main (some 653600)
  network := .main
  vFoundersRewardAddress := ["t3Vz22vK5z2LcKEdg16Yv4FFneEL1zg9ojd".toList.map Base58.ofChar]

/-- A polynomial in the bytes in place of the double SHA-256. It starts from the number for which
the address has the checksum that it has. -/
def rollingHash : Base58.HashFunction := fun bytes =>
  let sum := bytes.foldl (fun sum byte => (257 * sum + byte.toNat) % 2 ^ 32) 2982900246
  Vector.ofFn fun i : Fin 32 => UInt8.ofNat (sum >>> (8 * i.val))

theorem schedule_mainnet : Schedule mainnet.consensus where
  positive := by decide
  scaled := by decide
  blossom := by
    rintro _ ⟨⟩
    decide

theorem founders_reward_assertions_mainnet :
    (mainnet.consensus.Settled 653600 ∧ ∃ last : Nat,
      mainnet.consensus.getLastFoundersRewardBlockHeight 653600 = last ∧
        IsGreatest {h | mainnet.consensus.halving h < 1} last) ∧
    ∃ address script,
      mainnet.vFoundersRewardAddress[mainnet.foundersRewardIndex 1]? = some address ∧
      mainnet.getFoundersRewardAddressAtHeight 1 = .ok address ∧
      mainnet.getFoundersRewardScriptAtHeight rollingHash 1 = .ok script := by
  have addresses : Addresses rollingHash mainnet := by
    refine ⟨by decide, ?_⟩
    intro _ member
    rw [List.mem_singleton.mp member]
    exact ⟨#v[125, 70, 167, 48, 211, 31, 151, 177, 147, 13, 51, 104, 169, 103, 195, 9, 189, 77, 19,
      106], by decide +kernel⟩
  have settled : mainnet.consensus.Settled 653600 := by
    rintro _ ⟨⟩
    exact le_refl _
  obtain ⟨last, _, _, scripts, _⟩ := founders_reward_assertions _ mainnet schedule_mainnet addresses
  exact ⟨⟨settled, last 653600 settled⟩, (scripts 1 (by decide) (by decide)).2⟩

/-- Asked before Blossom, the last height is not the one that Blossom leads to. And where Blossom is
active from the start and there is no slow start, the first block runs into the assertion on its
adjusted height. -/
theorem last_height_before_blossom :
    (Schedule mainnet.consensus ∧ mainnet.consensus.getLastFoundersRewardBlockHeight 0 = 849999 ∧
      mainnet.consensus.halving 850000 < 1) ∧
    (let chainparams : CChainParams := { mainnet with
      consensus := { regtest with nActivationHeight := fun _ => some 0 } }
    (1 : Int) ≤ chainparams.consensus.getLastFoundersRewardBlockHeight 1 ∧
      chainparams.getFoundersRewardAddressAtHeight 1 = .error .aborted) :=
  ⟨⟨schedule_mainnet, by decide, by decide⟩, by decide, by decide⟩

end Zcashd.Guarantees.FoundersReward

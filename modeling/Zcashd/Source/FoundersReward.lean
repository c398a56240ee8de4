import Zcashd.Source.ContextualCheck
import Zcashd.Source.KeyIO
import Zcashd.Source.Script

/-!
The founders' reward (`src/chainparams.cpp:606-636`) and `ContextualCheckBlock`
(`src/main.cpp:4030-4098`) with the assertions on the way. The script that
`Source.contextualCheckBlock` is given as a parameter is computed here.
-/
namespace Zcashd.Source

open Lib

/-- What is read of `CChainParams`. -/
structure CChainParams where
  consensus : ConsensusParams
  network : Network
  vFoundersRewardAddress : List Bytes

/-- `assert`. -/
def assertion (condition : Prop) [Decidable condition] : Except Failure Unit :=
  if condition then .ok () else .error .aborted

namespace CChainParams

variable (H : Base58.HashFunction) (chainparams : CChainParams)

/-- The height, counted after Blossom in blocks of the spacing before it. -/
def adjustedHeight (nHeight : Nat) : Nat :=
  if chainparams.consensus.networkUpgradeActive nHeight .UPGRADE_BLOSSOM then
    let blossomActivationHeight := (chainparams.consensus.nActivationHeight .UPGRADE_BLOSSOM).getD 0
    blossomActivationHeight + (nHeight - blossomActivationHeight) /
      BLOSSOM_POW_TARGET_SPACING_RATIO.toNat
  else nHeight

def addressChangeInterval : Nat :=
  let preBlossomMaxHeight := chainparams.consensus.getLastFoundersRewardBlockHeight 0
  (preBlossomMaxHeight.toNat + chainparams.vFoundersRewardAddress.length) /
    chainparams.vFoundersRewardAddress.length

/-- `i`. -/
def foundersRewardIndex (nHeight : Nat) : Nat :=
  chainparams.adjustedHeight nHeight / chainparams.addressChangeInterval

def getFoundersRewardAddressAtHeight (nHeight : Nat) : Except Failure Bytes := do
  assertion (0 < chainparams.adjustedHeight nHeight ∧
    (chainparams.adjustedHeight nHeight : Int) ≤
      chainparams.consensus.getLastFoundersRewardBlockHeight 0)
  match chainparams.vFoundersRewardAddress[chainparams.foundersRewardIndex nHeight]? with
  | some address => .ok address
  | none => .error .aborted

def getFoundersRewardScriptAtHeight (nHeight : Nat) : Except Failure CScript := do
  assertion (0 < nHeight ∧
    (nHeight : Int) ≤ chainparams.consensus.getLastFoundersRewardBlockHeight nHeight)
  let address ← chainparams.getFoundersRewardAddressAtHeight nHeight
  match KeyIO.decodeDestination H chainparams.network address with
  | .ok (.CScriptID scriptID) => .ok (OP_HASH160 :: 20 :: (scriptID.toList ++ [OP_EQUAL]))
  | _ => .error .aborted

/-- The loop over the outputs of the coinbase; it computes the script for each of them. -/
def findFoundersReward (nHeight : Nat) : List CTxOut → Except Failure Bool
  | [] => .ok false
  | output :: rest => do
    let script ← chainparams.getFoundersRewardScriptAtHeight H nHeight
    if output.scriptPubKey = script then
      match chainparams.consensus.getBlockSubsidy nHeight with
      | none => .error .aborted
      | some subsidy =>
        if output.nValue = subsidy.tdiv 5 then .ok true else findFoundersReward nHeight rest
    else findFoundersReward nHeight rest

def contextualCheckBlock (contextual : ContextualVerifier) (block : CBlock)
    (pindexPrev : Option CBlockIndex) :
    Except Failure Unit := do
  let nHeight := (pindexPrev.map (fun pindexPrev => pindexPrev.nHeight + 1)).getD 0
  contextualCheckTransactions contextual chainparams.consensus nHeight block.nTime block.vtx
  if nHeight = 0 then .ok ()
  else
    match block.vtx with
    | [] => .error .aborted
    | coinbase :: _ =>
      let scriptSig := (coinbase.vin.head?.map CTxIn.scriptSig).getD []
      reject ((pushInt64 nHeight).isPrefixOf scriptSig = false) 100 "bad-cb-height"
      if (nHeight : Int) ≤ chainparams.consensus.getLastFoundersRewardBlockHeight nHeight then do
        let found ← chainparams.findFoundersReward H nHeight coinbase.vout
        reject (found = false) 100 "cb-no-founders-reward"

end CChainParams

/-! Heights -/

namespace ConsensusParams

variable {params : ConsensusParams}

/-- Blossom activates after the slow start and before the first halving, if it does. -/
structure Schedule (params : ConsensusParams) : Prop where
  positive : 0 < params.nPreBlossomSubsidyHalvingInterval
  scaled : (params.nPostBlossomSubsidyHalvingInterval : Int) =
    params.nPreBlossomSubsidyHalvingInterval * BLOSSOM_POW_TARGET_SPACING_RATIO
  blossom : ∀ activation ∈ params.nActivationHeight .UPGRADE_BLOSSOM,
    params.nSubsidySlowStartInterval ≤ activation ∧ 0 < activation ∧
      activation < params.nPreBlossomSubsidyHalvingInterval + params.subsidySlowStartShift

/-- Blossom is not ahead of this height. -/
def Settled (params : ConsensusParams) (nHeight : Nat) : Prop :=
  ∀ activation ∈ params.nActivationHeight .UPGRADE_BLOSSOM, activation ≤ nHeight

theorem tdiv_lt_one_iff {a b : Int} (pos : 0 < b) : a.tdiv b < 1 ↔ a < b := by
  rcases Int.lt_or_le a 0 with negative | nonneg
  · have below := Int.tdiv_nonneg (Int.neg_nonneg_of_nonpos negative.le) pos.le
    rw [Int.neg_tdiv] at below
    omega
  · rw [Int.tdiv_eq_ediv_of_nonneg nonneg, Int.ediv_lt_iff_lt_mul pos, one_mul]

/-- The last height as it is known at a height, by the activation of Blossom. -/
theorem last_eq (schedule : Schedule params) (nHeight : Nat) :
    params.getLastFoundersRewardBlockHeight nHeight =
      (params.nActivationHeight .UPGRADE_BLOSSOM).elim
        (params.nPreBlossomSubsidyHalvingInterval + params.subsidySlowStartShift - 1 : Int)
          fun activation =>
        if activation ≤ nHeight then
          2 * params.nPreBlossomSubsidyHalvingInterval + 2 * params.subsidySlowStartShift -
            activation - 1
        else params.nPreBlossomSubsidyHalvingInterval + params.subsidySlowStartShift - 1 := by
  have scaled := schedule.scaled
  unfold BLOSSOM_POW_TARGET_SPACING_RATIO at scaled
  unfold getLastFoundersRewardBlockHeight networkUpgradeActive
  cases params.nActivationHeight .UPGRADE_BLOSSOM with
  | none => simp
  | some _ =>
    simp only [decide_eq_true_eq, BLOSSOM_POW_TARGET_SPACING_RATIO, Option.getD_some,
      Option.elim_some]
    split <;> omega

/-- A height has a founders' reward exactly before the first halving. -/
theorem halving_lt_one_iff (schedule : Schedule params) (nHeight : Nat) :
    params.halving nHeight < 1 ↔
    (nHeight : Int) ≤ params.getLastFoundersRewardBlockHeight nHeight := by
  have pos := schedule.positive
  have scaled := schedule.scaled
  unfold BLOSSOM_POW_TARGET_SPACING_RATIO at scaled
  unfold halving getLastFoundersRewardBlockHeight BLOSSOM_POW_TARGET_SPACING_RATIO
  dsimp only
  split
  · rw [tdiv_lt_one_iff (by omega)]
    omega
  · rw [tdiv_lt_one_iff (by omega)]
    omega

end ConsensusParams

end Zcashd.Source

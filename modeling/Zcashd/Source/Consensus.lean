import Zcashd.Source.Primitives

/-!
Consensus parameters (`src/consensus/{params,upgrades}.{h,cpp}`) and the block subsidy
(`src/main.cpp:1778-1815`). Heights are natural numbers; `NO_ACTIVATION_HEIGHT`, which the
source writes as -1, is `none`.
-/
namespace Zcashd.Source

inductive UpgradeIndex where
  | BASE_SPROUT
  | UPGRADE_TESTDUMMY
  | UPGRADE_OVERWINTER
  | UPGRADE_SAPLING
  | UPGRADE_BLOSSOM
  | UPGRADE_HEARTWOOD
  | UPGRADE_NU4
deriving DecidableEq, Repr

/-- The upgrades after `BASE_SPROUT`, in the order of the enumeration. -/
def UpgradeIndex.upgrades : List UpgradeIndex :=
  [.UPGRADE_TESTDUMMY, .UPGRADE_OVERWINTER, .UPGRADE_SAPLING, .UPGRADE_BLOSSOM, .UPGRADE_HEARTWOOD,
    .UPGRADE_NU4]

/-- `NetworkUpgradeInfo[idx].nBranchId`. -/
def UpgradeIndex.nBranchId : UpgradeIndex → Nat
  | BASE_SPROUT => 0
  | UPGRADE_TESTDUMMY => 0x74736554
  | UPGRADE_OVERWINTER => 0x5ba81b19
  | UPGRADE_SAPLING => 0x76b809bb
  | UPGRADE_BLOSSOM => 0x2bb40e60
  | UPGRADE_HEARTWOOD => 0xf5b9230b
  | UPGRADE_NU4 => 0xe9ff75a6

def BLOSSOM_POW_TARGET_SPACING_RATIO : Int := 2

structure ConsensusParams where
  hashGenesisBlock : Uint256
  fCoinbaseMustBeShielded : Bool
  nSubsidySlowStartInterval : Nat
  nPreBlossomSubsidyHalvingInterval : Nat
  nPostBlossomSubsidyHalvingInterval : Nat
  nActivationHeight : UpgradeIndex → Option Nat

namespace ConsensusParams

def networkUpgradeActive (params : ConsensusParams) (nHeight : Nat) (idx : UpgradeIndex) : Bool :=
  match params.nActivationHeight idx with
  | none => false
  | some activation => activation ≤ nHeight

/-- `CurrentEpoch`: the last upgrade of the enumeration that is active. -/
def currentEpoch (params : ConsensusParams) (nHeight : Nat) : UpgradeIndex :=
  (UpgradeIndex.upgrades.reverse.find? (params.networkUpgradeActive nHeight)).getD .BASE_SPROUT

def currentEpochBranchId (params : ConsensusParams) (nHeight : Nat) : Nat :=
  (params.currentEpoch nHeight).nBranchId

/-- `PrevEpochBranchId`: the upgrade before the one with this branch id. -/
def prevEpochBranchId (currentBranchId : Nat) : Nat :=
  match (UpgradeIndex.upgrades.zip (.BASE_SPROUT :: UpgradeIndex.upgrades)).find?
      (fun pair => pair.1.nBranchId == currentBranchId) with
  | some (_, previous) => previous.nBranchId
  | none => UpgradeIndex.BASE_SPROUT.nBranchId

def isActivationHeight (params : ConsensusParams) (nHeight : Nat) (idx : UpgradeIndex) : Bool :=
  idx != .BASE_SPROUT && params.nActivationHeight idx == some nHeight

def isActivationHeightForAnyUpgrade (params : ConsensusParams) (nHeight : Nat) : Bool :=
  UpgradeIndex.upgrades.any (params.isActivationHeight nHeight)

def subsidySlowStartShift (params : ConsensusParams) : Nat := params.nSubsidySlowStartInterval / 2

/-- `Halving`; C++ division truncates toward zero. -/
def halving (params : ConsensusParams) (nHeight : Nat) : Int :=
  if params.networkUpgradeActive nHeight .UPGRADE_BLOSSOM then
    let blossomActivationHeight : Int := ((params.nActivationHeight .UPGRADE_BLOSSOM).getD 0 : Nat)
    let scaledHalvings := (blossomActivationHeight - params.subsidySlowStartShift) *
      BLOSSOM_POW_TARGET_SPACING_RATIO + (nHeight - blossomActivationHeight)
    scaledHalvings.tdiv params.nPostBlossomSubsidyHalvingInterval
  else ((nHeight : Int) - params.subsidySlowStartShift).tdiv
    params.nPreBlossomSubsidyHalvingInterval

/-- `12.5 * COIN`. -/
def MAX_BLOCK_SUBSIDY : Int := 1250000000

/-- `GetBlockSubsidy`; `none` is the assertion on the slow start. -/
def getBlockSubsidy (params : ConsensusParams) (nHeight : Nat) : Option CAmount :=
  let interval := params.nSubsidySlowStartInterval
  if nHeight < interval / 2 then some (MAX_BLOCK_SUBSIDY / interval * nHeight)
  else if nHeight < interval then some (MAX_BLOCK_SUBSIDY / interval * (nHeight + 1))
  else if params.subsidySlowStartShift < nHeight then
    let halvings := params.halving nHeight
    if 64 ≤ halvings then some 0
    else if params.networkUpgradeActive nHeight .UPGRADE_BLOSSOM then
      some ((MAX_BLOCK_SUBSIDY / BLOSSOM_POW_TARGET_SPACING_RATIO) >>> halvings.toNat)
    else some (MAX_BLOCK_SUBSIDY >>> halvings.toNat)
  else none

/-- `CMainParams` (`src/chainparams.cpp:81-130`), with the activation height of Blossom left
open. -/
def main (blossomActivationHeight : Option Nat) : ConsensusParams where
  hashGenesisBlock := 0x00040fe8ec8471911baa1db1266ea15dd06b4a8a5c453883c000b031973dce08
  fCoinbaseMustBeShielded := true
  nSubsidySlowStartInterval := 20000
  nPreBlossomSubsidyHalvingInterval := 840000
  nPostBlossomSubsidyHalvingInterval := 1680000
  nActivationHeight
    | .BASE_SPROUT => some 0
    | .UPGRADE_TESTDUMMY => none
    | .UPGRADE_OVERWINTER => some 347500
    | .UPGRADE_SAPLING => some 419200
    | .UPGRADE_BLOSSOM => blossomActivationHeight
    | .UPGRADE_HEARTWOOD => none
    | .UPGRADE_NU4 => none

/-- Regtest-like parameters for concrete runs: Sapling from height 1, no slow start. -/
def regtest : ConsensusParams where
  hashGenesisBlock := 1
  fCoinbaseMustBeShielded := false
  nSubsidySlowStartInterval := 0
  nPreBlossomSubsidyHalvingInterval := 150
  nPostBlossomSubsidyHalvingInterval := 300
  nActivationHeight
    | .BASE_SPROUT => some 0
    | .UPGRADE_OVERWINTER | .UPGRADE_SAPLING => some 1
    | _ => none

end ConsensusParams

end Zcashd.Source

import Zcashd.Source.TxInputs

/-!
Checks that need the height of a block: `ContextualCheckTransaction` (`src/main.cpp:760-1052`)
and `ContextualCheckBlock` (`:4030-4098`). `AcceptBlock` makes them before a block is stored,
so every block that is connected has passed them.

Signatures and proofs, note decryption and lock times are parameters. The signature hash is
computed by those: the exception the source catches around it cannot occur.
-/
namespace Zcashd.Source

open Lib

structure ContextualVerifier where
  isFinalTx : CTransaction → Nat → Nat → Bool
  /-- `SaplingOutgoingPlaintext::decrypt` with the zero outgoing viewing key. -/
  recoversOutgoing : CTransaction → OutputDescription → Bool
  /-- `SaplingNotePlaintext::decrypt` with what was recovered. -/
  decryptsNote : CTransaction → OutputDescription → Bool
  /-- `crypto_sign_verify_detached` over the signature hash for a branch id. -/
  joinSplitSignature : CTransaction → Nat → Bool
  saplingCheckSpend : CTransaction → SpendDescription → Nat → Bool
  saplingCheckOutput : CTransaction → OutputDescription → Bool
  saplingFinalCheck : CTransaction → Nat → Bool
  getFoundersRewardScriptAtHeight : Nat → CScript

/-- For concrete runs: everything is final, signed and readable. -/
def ContextualVerifier.regtest : ContextualVerifier where
  isFinalTx _ _ _ := true
  recoversOutgoing _ _ := true
  decryptsNote _ _ := true
  joinSplitSignature _ _ := true
  saplingCheckSpend _ _ _ := true
  saplingCheckOutput _ _ := true
  saplingFinalCheck _ _ := true
  getFoundersRewardScriptAtHeight _ := [0x51]

def SAPLING_MIN_TX_VERSION : Int := 4
def SAPLING_MAX_TX_VERSION : Int := 4
def OVERWINTER_MAX_TX_VERSION : Int := 3
def MAX_TX_SIZE_BEFORE_SAPLING : Nat := 100000

def isExpiredTx (tx : CTransaction) (nBlockHeight : Nat) : Bool :=
  if tx.nExpiryHeight = 0 ∨ tx.isCoinBase = true then false
  else decide (tx.nExpiryHeight < nBlockHeight)

/-- `dosLevelConstricting` and `dosLevelPotentiallyRelaxing`. -/
structure DosLevels where
  constricting : Nat
  relaxing : Nat

def dosLevels (isMined isInitBlockDownload : Bool) : DosLevels :=
  if isMined then ⟨100, 100⟩ else ⟨10, if isInitBlockDownload then 0 else 10⟩

/-- The version rules of the epoch. -/
def checkEpochVersion (params : ConsensusParams) (tx : CTransaction) (nHeight : Nat)
    (dos : DosLevels) :
    Except Failure Unit := do
  let overwinterActive := params.networkUpgradeActive nHeight .UPGRADE_OVERWINTER
  let saplingActive := params.networkUpgradeActive nHeight .UPGRADE_SAPLING
  reject (overwinterActive = false ∧ tx.fOverwintered = true) dos.relaxing
    "tx-overwinter-not-active"
  reject (saplingActive = true ∧ SAPLING_MIN_TX_VERSION ≤ tx.nVersion ∧ tx.fOverwintered = false)
    dos.constricting "tx-overwintered-flag-not-set"
  reject (saplingActive = true ∧ tx.fOverwintered = true ∧
    tx.nVersionGroupId ≠
      CTransaction.SAPLING_VERSION_GROUP_ID) dos.relaxing "bad-sapling-tx-version-group-id"
  reject (saplingActive = true ∧ tx.fOverwintered = true ∧ tx.nVersion < SAPLING_MIN_TX_VERSION)
    dos.constricting "bad-tx-sapling-version-too-low"
  reject (saplingActive = true ∧ tx.fOverwintered = true ∧ SAPLING_MAX_TX_VERSION < tx.nVersion)
    dos.relaxing "bad-tx-sapling-version-too-high"
  reject (saplingActive = false ∧ overwinterActive = true ∧
    OVERWINTER_MIN_TX_VERSION ≤ tx.nVersion ∧
    tx.fOverwintered = false) dos.constricting "tx-overwinter-flag-not-set"
  reject (saplingActive = false ∧ overwinterActive = true ∧ tx.fOverwintered = true ∧
    tx.nVersionGroupId ≠ CTransaction.OVERWINTER_VERSION_GROUP_ID) dos.relaxing
    "bad-overwinter-tx-version-group-id"
  reject (saplingActive = false ∧ overwinterActive = true ∧ tx.fOverwintered = true ∧
    OVERWINTER_MAX_TX_VERSION < tx.nVersion) dos.relaxing "bad-tx-overwinter-version-too-high"
  reject (overwinterActive = true ∧ tx.fOverwintered = false) dos.constricting
    "tx-overwinter-active"
  -- no ban for a transaction that only just expired
  reject (overwinterActive = true ∧ isExpiredTx tx nHeight = true)
    (if isExpiredTx tx (nHeight - 1) then dos.constricting else 0) "tx-overwinter-expired"

/-- Sapling outputs of a coinbase can be read by anyone. -/
def checkCoinBaseOutputs (contextual : ContextualVerifier) (tx : CTransaction) :
    List OutputDescription → Except Failure Unit
  | [] => .ok ()
  | output :: rest => do
    reject (contextual.recoversOutgoing tx output = false) 100 "bad-cb-output-desc-invalid-outct"
    reject (contextual.decryptsNote tx output = false) 100 "bad-cb-output-desc-invalid-encct"
    checkCoinBaseOutputs contextual tx rest

def checkJoinSplitSignature (contextual : ContextualVerifier) (tx : CTransaction) (branchId : Nat)
    (dos : DosLevels) : Except Failure Unit := do
  let prevBranchId := ConsensusParams.prevEpochBranchId branchId
  let bad := tx.vJoinSplit ≠ [] ∧ contextual.joinSplitSignature tx branchId = false
  reject (bad ∧ contextual.joinSplitSignature tx prevBranchId = true) dos.relaxing
    ("old-consensus-branch-id (Expected " ++ hexInt branchId ++ ", found " ++
      hexInt prevBranchId ++ ")")
  reject bad dos.relaxing "bad-txns-invalid-joinsplit-signature"

def checkSaplingProofs (contextual : ContextualVerifier) (tx : CTransaction) (branchId : Nat)
    (dos : DosLevels) : Except Failure Unit := do
  reject
    (tx.vShieldedSpend.any (fun spend => !contextual.saplingCheckSpend tx spend branchId) = true)
    dos.relaxing "bad-txns-sapling-spend-description-invalid"
  reject (tx.vShieldedOutput.any (fun output => !contextual.saplingCheckOutput tx output) = true)
    100 "bad-txns-sapling-output-description-invalid"
  reject ((tx.vShieldedSpend ≠ [] ∨ tx.vShieldedOutput ≠ []) ∧
    contextual.saplingFinalCheck tx branchId = false)
    dos.relaxing "bad-txns-sapling-binding-signature-invalid"

def contextualCheckTransaction (contextual : ContextualVerifier) (params : ConsensusParams)
    (tx : CTransaction) (nHeight : Nat) (isMined isInitBlockDownload : Bool) :
    Except Failure Unit := do
  let dos := dosLevels isMined isInitBlockDownload
  let heartwoodActive := params.networkUpgradeActive nHeight .UPGRADE_HEARTWOOD
  checkEpochVersion params tx nHeight dos
  reject (params.networkUpgradeActive nHeight .UPGRADE_SAPLING = false ∧
    MAX_TX_SIZE_BEFORE_SAPLING < tx.serializeSize) dos.relaxing "bad-txns-oversize"
  reject (heartwoodActive = false ∧ tx.isCoinBase = true ∧ tx.vShieldedOutput ≠ []) dos.relaxing
    "bad-cb-has-output-description"
  checkCoinBaseOutputs contextual tx
    (if heartwoodActive && tx.isCoinBase then tx.vShieldedOutput else [])
  let branchId := params.currentEpochBranchId nHeight
  checkJoinSplitSignature contextual tx branchId dos
  checkSaplingProofs contextual tx branchId dos

/-! Heights in a script -/

/-- `CScriptNum::serialize` of the absolute value: at most eight bytes, least significant first. -/
def absoluteBytes : Nat → Nat → Bytes
  | 0, _ => []
  | rounds + 1, absvalue =>
    if absvalue = 0 then []
    else UInt8.ofNat (absvalue % 256) :: absoluteBytes rounds (absvalue / 256)

/-- `CScriptNum::serialize` of a number that is not negative. -/
def serializeNumber (n : Nat) : Bytes :=
  let result := absoluteBytes 8 n
  if 0x80 ≤ (result.getLastD 0).toNat then result ++ [0] else result

/-- `CScript() << n` for a number that is not negative. -/
def pushInt64 (n : Nat) : CScript :=
  if n = 0 then [0]
  else if n ≤ 16 then [UInt8.ofNat (n + 0x50)]
  else UInt8.ofNat (serializeNumber n).length :: serializeNumber n

/-! `ContextualCheckBlock` -/

def ConsensusParams.getLastFoundersRewardBlockHeight (params : ConsensusParams)
    (nHeight : Nat) : Int :=
  if params.networkUpgradeActive nHeight .UPGRADE_BLOSSOM then
    let blossomActivationHeight : Int := ((params.nActivationHeight .UPGRADE_BLOSSOM).getD 0 : Nat)
    blossomActivationHeight + params.nPostBlossomSubsidyHalvingInterval -
      (blossomActivationHeight - params.subsidySlowStartShift) *
        BLOSSOM_POW_TARGET_SPACING_RATIO - 1
  else (params.nPreBlossomSubsidyHalvingInterval : Int) + params.subsidySlowStartShift - 1

def contextualCheckTransactions (contextual : ContextualVerifier) (params : ConsensusParams)
    (nHeight nTime : Nat) :
    List CTransaction → Except Failure Unit
  | [] => .ok ()
  | tx :: rest => do
    contextualCheckTransaction contextual params tx nHeight true false
    reject (contextual.isFinalTx tx nHeight nTime = false) 10 "bad-txns-nonfinal"
    contextualCheckTransactions contextual params nHeight nTime rest

/-- The coinbase pays a fifth of the subsidy to the founders' reward script; `none` is the
assertion of `GetBlockSubsidy`. -/
def paysFoundersReward (contextual : ContextualVerifier) (params : ConsensusParams) (nHeight : Nat)
    (coinbase : CTransaction) : Bool :=
  coinbase.vout.any (fun output =>
    decide (output.scriptPubKey = contextual.getFoundersRewardScriptAtHeight nHeight) &&
      (params.getBlockSubsidy nHeight).any (fun subsidy => output.nValue == subsidy.tdiv 5))

def contextualCheckBlock (contextual : ContextualVerifier) (params : ConsensusParams)
    (block : CBlock) (pindexPrev : Option CBlockIndex) :
    Except Failure Unit := do
  let nHeight := (pindexPrev.map (fun pindexPrev => pindexPrev.nHeight + 1)).getD 0
  contextualCheckTransactions contextual params nHeight block.nTime block.vtx
  if nHeight = 0 then .ok ()
  else
    match block.vtx with
    | [] => .error .aborted
    | coinbase :: _ =>
      let scriptSig := (coinbase.vin.head?.map CTxIn.scriptSig).getD []
      reject ((pushInt64 nHeight).isPrefixOf scriptSig = false) 100 "bad-cb-height"
      reject ((nHeight : Int) ≤ params.getLastFoundersRewardBlockHeight nHeight ∧
        paysFoundersReward contextual params nHeight coinbase = false) 100 "cb-no-founders-reward"

/-! What the checks leave -/

variable {params : ConsensusParams} {u : Unit}

theorem checkEpochVersion_ok {tx : CTransaction} {nHeight : Nat} {dos : DosLevels}
    (ran : checkEpochVersion params tx nHeight dos = .ok u)
    (old : params.networkUpgradeActive nHeight .UPGRADE_SAPLING = false) :
    tx.isSaplingV4 = false := by
  simp only [checkEpochVersion, bind_ok, reject_ok] at ran
  obtain ⟨_, inactive, _, _, _, _, _, _, _, _, _, _, _, group, _⟩ := ran
  by_contra v4
  simp only [CTransaction.isSaplingV4, Bool.not_eq_false, Bool.and_eq_true, beq_iff_eq] at v4
  obtain ⟨⟨overwintered, sapling⟩, -⟩ := v4
  cases active : params.networkUpgradeActive nHeight .UPGRADE_OVERWINTER with
  | false => exact inactive ⟨active, overwintered⟩
  | true =>
    refine group ⟨old, active, overwintered, ?_⟩
    rw [sapling]
    decide

variable {contextual : ContextualVerifier}

theorem contextualCheckTransactions_ok {nHeight nTime : Nat} {txs : List CTransaction}
    (ran : contextualCheckTransactions contextual params nHeight nTime txs = .ok u) :
    ∀ tx ∈ txs, contextualCheckTransaction contextual params tx nHeight true false = .ok () := by
  induction txs with
  | nil => exact nofun
  | cons tx rest ih =>
    simp only [contextualCheckTransactions, bind_ok] at ran
    obtain ⟨_, first, _, _, later⟩ := ran
    intro other mem
    rcases List.mem_cons.mp mem with rfl | tail
    · exact first
    · exact ih later other tail

/-- Before Sapling, no transaction of the block has Sapling outputs. -/
theorem contextualCheckBlock_sapling {block : CBlock} {pindexPrev : CBlockIndex}
    (ran : contextualCheckBlock contextual params block (some pindexPrev) = .ok u)
    (old : params.networkUpgradeActive (pindexPrev.nHeight + 1) .UPGRADE_SAPLING = false) :
    ∀ tx ∈ block.vtx, tx.isSaplingV4 = false := by
  rw [contextualCheckBlock, bind_ok] at ran
  obtain ⟨_, transactions, -⟩ := ran
  intro tx mem
  have checked := contextualCheckTransactions_ok transactions tx mem
  simp only [contextualCheckTransaction, bind_ok] at checked
  obtain ⟨_, version, -⟩ := checked
  exact checkEpochVersion_ok version old

end Zcashd.Source

import Zcashd.Lib.OptionLoops
import Zcashd.Source.Block
import Zcashd.Source.Consensus

/-!
Checks that need no context (`src/main.cpp:1054-1280`, `:3870-3960`). Each ends with the
level and the reason the source puts into its `CValidationState`.

`CheckTransaction` adds amounts without wrapping here: every sum it forms is range checked
before the next one, so none leaves `int64_t`.
-/
namespace Zcashd.Source

open List

/-- How a validation function ends when it does not return true. -/
inductive Failure where
  /-- `state.DoS` and `state.Invalid`, the latter with level 0. -/
  | invalid (nDoS : Nat) (reason : String) (corruptionPossible : Bool)
  /-- `return error(...)`, with nothing in the validation state. -/
  | error (message : String)
  /-- A failed assertion or an exception. -/
  | aborted
deriving DecidableEq, Repr

/-- `if (bad) return state.DoS(nDoS, ..., reason)`. -/
def reject (bad : Prop) [Decidable bad] (nDoS : Nat) (reason : String) : Except Failure Unit :=
  if bad then .error (.invalid nDoS reason false) else .ok ()

@[simp] theorem reject_ok {bad : Prop} [Decidable bad] {nDoS : Nat} {reason : String} {u : Unit} :
    reject bad nDoS reason = .ok u ↔ ¬ bad := by
  unfold reject
  split <;> simp_all

theorem bind_ok {α β : Type} {first : Except Failure α} {next : α → Except Failure β} {result : β} :
    (first >>= next) = .ok result ↔ ∃ value, first = .ok value ∧ next value = .ok result :=
  Lib.except_bind_ok

/-- A loop that inserts into a set and stops at a repetition. -/
def noDuplicates {α : Type} [DecidableEq α] (failure : Failure) :
    List α → List α → Except Failure Unit
  | _, [] => .ok ()
  | seen, x :: rest => if x ∈ seen then .error failure else noDuplicates failure (x :: seen) rest

variable {u : Unit}

theorem noDuplicates_ok {α : Type} [DecidableEq α] {failure : Failure} {seen l : List α}
    (ran : noDuplicates failure seen l = .ok u) : l.Nodup ∧ ∀ x ∈ l, x ∉ seen := by
  induction l generalizing seen with
  | nil => simp
  | cons x _ _ =>
    unfold noDuplicates at ran
    split at ran
    · cases ran
    · grind

/-! `CheckTransactionWithoutProofVerification` -/

def SPROUT_MIN_TX_VERSION : Int := 1
def OVERWINTER_MIN_TX_VERSION : Int := 3
def TX_EXPIRY_HEIGHT_THRESHOLD : Nat := 500000000
def MAX_BLOCK_SIZE : Nat := 2000000
def MAX_TX_SIZE_AFTER_SAPLING : Nat := MAX_BLOCK_SIZE
def MAX_BLOCK_SIGOPS : Nat := 20000
def MIN_BLOCK_VERSION : Int := 4

def checkVersion (tx : CTransaction) : Except Failure Unit :=
  if !tx.fOverwintered then
    reject (tx.nVersion < SPROUT_MIN_TX_VERSION) 100 "bad-txns-version-too-low"
  else do
    reject (tx.nVersion < OVERWINTER_MIN_TX_VERSION) 100 "bad-tx-overwinter-version-too-low"
    reject (tx.nVersionGroupId ≠ CTransaction.OVERWINTER_VERSION_GROUP_ID ∧
      tx.nVersionGroupId ≠ CTransaction.SAPLING_VERSION_GROUP_ID) 100 "bad-tx-version-group-id"
    reject (TX_EXPIRY_HEIGHT_THRESHOLD ≤ tx.nExpiryHeight) 100 "bad-tx-expiry-height-too-high"

/-- The loop over `vout`, with the running `nValueOut`. -/
def checkOutputs : List CTxOut → CAmount → Except Failure CAmount
  | [], nValueOut => .ok nValueOut
  | txout :: rest, nValueOut => do
    reject (txout.nValue < 0) 100 "bad-txns-vout-negative"
    reject (txout.nValue > MAX_MONEY) 100 "bad-txns-vout-toolarge"
    reject (moneyRange (nValueOut + txout.nValue) = false) 100 "bad-txns-txouttotal-toolarge"
    checkOutputs rest (nValueOut + txout.nValue)

def checkValueBalance (tx : CTransaction) (nValueOut : CAmount) : Except Failure CAmount := do
  reject (tx.vShieldedSpend = [] ∧ tx.vShieldedOutput = [] ∧ tx.valueBalance ≠ 0) 100
    "bad-txns-valuebalance-nonzero"
  reject (tx.valueBalance > MAX_MONEY ∨ tx.valueBalance < -MAX_MONEY) 100
    "bad-txns-valuebalance-toolarge"
  if tx.valueBalance ≤ 0 then
    reject (moneyRange (nValueOut + -tx.valueBalance) = false) 100 "bad-txns-txouttotal-toolarge"
    return nValueOut + -tx.valueBalance
  else return nValueOut

def checkJoinSplits : List JSDescription → CAmount → Except Failure CAmount
  | [], nValueOut => .ok nValueOut
  | joinsplit :: rest, nValueOut => do
    reject (joinsplit.vpub_old < 0) 100 "bad-txns-vpub_old-negative"
    reject (joinsplit.vpub_new < 0) 100 "bad-txns-vpub_new-negative"
    reject (joinsplit.vpub_old > MAX_MONEY) 100 "bad-txns-vpub_old-toolarge"
    reject (joinsplit.vpub_new > MAX_MONEY) 100 "bad-txns-vpub_new-toolarge"
    reject (joinsplit.vpub_new ≠ 0 ∧ joinsplit.vpub_old ≠ 0) 100 "bad-txns-vpubs-both-nonzero"
    reject (moneyRange (nValueOut + joinsplit.vpub_old) = false) 100 "bad-txns-txouttotal-toolarge"
    checkJoinSplits rest (nValueOut + joinsplit.vpub_old)

/-- What the JoinSplits claim to add to the transparent value pool. -/
def checkShieldedIn : List JSDescription → CAmount → Except Failure CAmount
  | [], nValueIn => .ok nValueIn
  | joinsplit :: rest, nValueIn => do
    reject (moneyRange joinsplit.vpub_new = false ∨
      moneyRange (nValueIn + joinsplit.vpub_new) = false) 100 "bad-txns-txintotal-toolarge"
    checkShieldedIn rest (nValueIn + joinsplit.vpub_new)

def checkCoinBase (tx : CTransaction) : Except Failure Unit :=
  if tx.isCoinBase then do
    reject (tx.vJoinSplit ≠ []) 100 "bad-cb-has-joinsplits"
    reject (tx.vShieldedSpend ≠ []) 100 "bad-cb-has-spend-description"
    let scriptSig := (tx.vin.head?.map CTxIn.scriptSig).getD []
    reject (scriptSig.length < 2 ∨ 100 < scriptSig.length) 100 "bad-cb-length"
  else reject (tx.vin.any (fun txin => txin.prevout.isNull) = true) 10 "bad-txns-prevout-null"

def checkTransactionWithoutProofVerification (tx : CTransaction) : Except Failure Unit := do
  checkVersion tx
  reject (tx.vin = [] ∧ tx.vJoinSplit = [] ∧ tx.vShieldedSpend = []) 10 "bad-txns-vin-empty"
  reject (tx.vout = [] ∧ tx.vJoinSplit = [] ∧ tx.vShieldedOutput = []) 10 "bad-txns-vout-empty"
  reject (tx.serializeSize > MAX_TX_SIZE_AFTER_SAPLING) 100 "bad-txns-oversize"
  let nValueOut ← checkOutputs tx.vout 0
  let nValueOut ← checkValueBalance tx nValueOut
  let _ ← checkJoinSplits tx.vJoinSplit nValueOut
  let nValueIn ← checkShieldedIn tx.vJoinSplit 0
  reject (0 ≤ tx.valueBalance ∧ moneyRange (nValueIn + tx.valueBalance) = false) 100
    "bad-txns-txintotal-toolarge"
  noDuplicates (.invalid 100 "bad-txns-inputs-duplicate" false) [] (tx.vin.map CTxIn.prevout)
  noDuplicates (.invalid 100 "bad-joinsplits-nullifiers-duplicate" false) [] (tx.revealed .sprout)
  noDuplicates (.invalid 100 "bad-spend-description-nullifiers-duplicate" false) []
    (tx.revealed .sapling)
  checkCoinBase tx

/-- What the checks leave of a transaction, beside its sums. -/
structure CTransaction.Checked (tx : CTransaction) : Prop where
  version : 0 < tx.nVersion
  values : ∀ out ∈ tx.vout, moneyRange out.nValue = true
  inputs : (tx.vin.map CTxIn.prevout).Nodup
  revealed : ∀ type, (tx.revealed type).Nodup
  consumes : tx.vin ≠ [] ∨ ∃ type, tx.revealed type ≠ []
  coinBase : tx.isCoinBase = true → ∀ type, tx.revealed type = []

theorem checkOutputs_ok {vout : List CTxOut} {nValueOut total : CAmount}
    (ran : checkOutputs vout nValueOut = .ok total) :
    (∀ out ∈ vout, moneyRange out.nValue = true) ∧
      total = nValueOut + (vout.map CTxOut.nValue).sum := by
  induction vout generalizing nValueOut with
  | nil =>
    cases ran
    simp
  | cons _ _ ih =>
    simp only [checkOutputs, bind_ok, reject_ok] at ran
    obtain ⟨_, negative, _, large, _, _, ran⟩ := ran
    obtain ⟨later, sum⟩ := ih ran
    refine ⟨?_, by rw [sum, map_cons, sum_cons, Int.add_assoc]⟩
    intro out mem
    rcases mem_cons.mp mem with rfl | tail
    · exact moneyRange_iff.mpr ⟨Int.not_lt.mp negative, Int.not_lt.mp large⟩
    · exact later out tail

theorem checkTransactionWithoutProofVerification_ok {tx : CTransaction}
    (ran : checkTransactionWithoutProofVerification tx = .ok u) : tx.Checked := by
  simp only [checkTransactionWithoutProofVerification, bind_ok, reject_ok] at ran
  obtain ⟨_, version, _, someInput, _, _, _, _, _, outputs, _, _, _, _, _, _, _, _, _, inputs,
    _, sprout, _, sapling, coinBase⟩ := ran
  have pos : 0 < tx.nVersion := by
    unfold checkVersion at version
    split at version
    · rw [reject_ok] at version
      simp only [SPROUT_MIN_TX_VERSION] at version
      omega
    · simp only [bind_ok, reject_ok] at version
      obtain ⟨_, low, _⟩ := version
      simp only [OVERWINTER_MIN_TX_VERSION] at low
      omega
  refine ⟨pos, (checkOutputs_ok outputs).1, (noDuplicates_ok inputs).1, ?_, ?_, ?_⟩
  · intro type
    cases type with
    | sprout => exact (noDuplicates_ok sprout).1
    | sapling => exact (noDuplicates_ok sapling).1
  · by_contra nothing
    simp only [not_or, not_exists, not_not] at nothing
    obtain ⟨noInput, unrevealed⟩ := nothing
    have noJoinSplit : tx.vJoinSplit = [] := by
      cases shape : tx.vJoinSplit with
      | nil => rfl
      | cons _ _ =>
        have none := unrevealed .sprout
        simp [CTransaction.revealed, shape] at none
    have noSpend : tx.vShieldedSpend = [] := by
      simpa [CTransaction.revealed] using unrevealed .sapling
    exact someInput ⟨noInput, noJoinSplit, noSpend⟩
  · intro isCoinBase type
    simp only [checkCoinBase, isCoinBase, ↓reduceIte, bind_ok, reject_ok] at coinBase
    obtain ⟨_, noJoinSplit, _, noSpend, _⟩ := coinBase
    cases type with
    | sprout => simp [CTransaction.revealed, not_not.mp noJoinSplit]
    | sapling => simp [CTransaction.revealed, not_not.mp noSpend]

/-! `CheckTransaction`, `CheckBlockHeader` and `CheckBlock` -/

/-- Proof of work, proofs and signature operations: what block validation asks of code that
is not modelled. -/
structure BlockVerifier where
  checkEquihashSolution : CBlock → Bool
  checkProofOfWork : Uint256 → Nat → Bool
  /-- `Hash` of two concatenated hashes. -/
  hashPair : Uint256 → Uint256 → Uint256
  /-- `JSDescription::Verify` with the strict verifier. -/
  verifyJoinSplit : CTransaction → JSDescription → Bool
  /-- `GetSigOpCount(false)` over all scripts of the transaction. -/
  legacySigOpCount : CTransaction → Nat

def checkTransaction (verifier : BlockVerifier) (strict : Bool) (tx : CTransaction) :
    Except Failure Unit := do
  checkTransactionWithoutProofVerification tx
  reject (strict = true ∧ tx.vJoinSplit.all (verifier.verifyJoinSplit tx) = false) 100
    "bad-txns-joinsplit-verification-failed"

def checkBlockHeader (verifier : BlockVerifier) (params : ConsensusParams) (block : CBlock)
    (fCheckPOW : Bool) : Except Failure Unit := do
  reject (block.nVersion < MIN_BLOCK_VERSION) 100 "version-too-low"
  reject (fCheckPOW = true ∧ block.getHash = params.hashGenesisBlock ∧
    verifier.checkEquihashSolution block = false) 100 "invalid-solution"
  reject (fCheckPOW = true ∧ verifier.checkProofOfWork block.getHash block.nBits = false)
    50 "high-hash"

/-- The loop `BOOST_FOREACH(tx, block.vtx) if (!CheckTransaction(...)) return error(...)`. -/
def checkTransactions (verifier : BlockVerifier) (strict : Bool) :
    List CTransaction → Except Failure Unit
  | [] => .ok ()
  | tx :: rest => do
    checkTransaction verifier strict tx
    checkTransactions verifier strict rest

def checkMerkleRoot (verifier : BlockVerifier) (block : CBlock) : Except Failure Unit :=
  let tree := block.buildMerkleTree verifier.hashPair
  if block.hashMerkleRoot ≠ tree.1 then .error (.invalid 100 "bad-txnmrklroot" true)
  else if tree.2 then .error (.invalid 100 "bad-txns-duplicate" true)
  else .ok ()

def checkBlock (verifier : BlockVerifier) (params : ConsensusParams) (strict : Bool)
    (block : CBlock) (fCheckPOW fCheckMerkleRoot : Bool) :
    Except Failure Unit := do
  checkBlockHeader verifier params block fCheckPOW
  (if fCheckMerkleRoot then checkMerkleRoot verifier block else .ok ())
  reject (block.vtx = [] ∨ block.vtx.length > MAX_BLOCK_SIZE ∨
    block.serializeSize > MAX_BLOCK_SIZE) 100 "bad-blk-length"
  reject ((block.vtx.head?.map CTransaction.isCoinBase).getD false = false) 100 "bad-cb-missing"
  reject (block.vtx.tail.any CTransaction.isCoinBase = true) 100 "bad-cb-multiple"
  checkTransactions verifier strict block.vtx
  if (block.vtx.map verifier.legacySigOpCount).sum > MAX_BLOCK_SIGOPS then
    .error (.invalid 100 "bad-blk-sigops" true)
  else .ok ()

/-- What the checks leave of a block. -/
structure CBlock.Checked (block : CBlock) : Prop where
  length : block.vtx.length ≤ MAX_BLOCK_SIZE
  size : block.serializeSize ≤ MAX_BLOCK_SIZE
  coinBase : ∃ coinbase rest, block.vtx = coinbase :: rest ∧ coinbase.isCoinBase = true ∧
    ∀ tx ∈ rest, tx.isCoinBase = false
  transactions : ∀ tx ∈ block.vtx, checkTransactionWithoutProofVerification tx = .ok ()

variable {verifier : BlockVerifier} {strict : Bool}

theorem checkTransactions_ok {txs : List CTransaction}
    (ran : checkTransactions verifier strict txs = .ok u) :
    ∀ tx ∈ txs, checkTransactionWithoutProofVerification tx = .ok () := by
  induction txs with
  | nil => exact nofun
  | cons tx rest ih =>
    simp only [checkTransactions, checkTransaction, bind_ok] at ran
    obtain ⟨_, ⟨_, first, -⟩, later⟩ := ran
    intro other mem
    rcases mem_cons.mp mem with rfl | tail
    · exact first
    · exact ih later other tail

variable {block : CBlock}

theorem checkBlock_ok {params : ConsensusParams} {fCheckPOW fCheckMerkleRoot : Bool}
    (ran : checkBlock verifier params strict block fCheckPOW fCheckMerkleRoot = .ok u) :
    block.Checked := by
  simp only [checkBlock, bind_ok, reject_ok] at ran
  obtain ⟨_, -, _, -, _, size, _, first, _, others, _, transactions, -⟩ := ran
  simp only [not_or, Nat.not_lt] at size
  obtain ⟨ne, length, size⟩ := size
  refine ⟨length, size, ?_, checkTransactions_ok transactions⟩
  obtain ⟨coinbase, rest, shape⟩ := exists_cons_of_ne_nil ne
  rw [shape] at first others
  refine ⟨coinbase, rest, shape, by simpa using first, ?_⟩
  intro tx mem
  by_contra again
  exact others (any_eq_true.mpr ⟨tx, mem, by simpa using again⟩)

theorem CBlock.Checked.tx (checked : block.Checked) {tx : CTransaction} (mem : tx ∈ block.vtx) :
    tx.Checked :=
  checkTransactionWithoutProofVerification_ok (checked.transactions tx mem)

/-- A transaction has fewer inputs than bytes. -/
theorem CBlock.Checked.inputs (checked : block.Checked) {tx : CTransaction}
    (mem : tx ∈ block.vtx) : tx.vin.length ≤ MAX_BLOCK_SIZE := by
  have oversize := checked.transactions tx mem
  simp only [checkTransactionWithoutProofVerification, bind_ok, reject_ok] at oversize
  obtain ⟨_, -, _, -, _, -, _, oversize, -⟩ := oversize
  have each : tx.vin.length ≤ (tx.vin.map CTxIn.serializeSize).sum := by
    induction tx.vin with
    | nil => simp
    | cons txin _ _ =>
      have pos : 1 ≤ txin.serializeSize := by
        unfold CTxIn.serializeSize
        omega
      rw [map_cons, sum_cons, length_cons]
      omega
  have whole : (tx.vin.map CTxIn.serializeSize).sum ≤ tx.serializeSize := by
    unfold CTransaction.serializeSize sizeOfVector
    omega
  unfold MAX_TX_SIZE_AFTER_SAPLING at oversize
  omega

end Zcashd.Source

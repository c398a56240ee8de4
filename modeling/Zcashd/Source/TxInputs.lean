import Zcashd.Source.Undo
import Zcashd.Source.View

/-!
What block connection does with one transaction: the checks of its inputs against the view
(`src/coins.cpp:884-965`, `src/main.cpp:2051-2196`), the sums of its values
(`src/primitives/transaction.cpp:262-315`) and `UpdateCoins` (`src/main.cpp:1999-2027`).

Script verification, signature operation counts and the work of a block are parameters.
The optional address, spent and timestamp indexes are left out: they are written beside
the coins and read by no function modelled here.
-/
namespace Zcashd.Source

open Lib View

/-- Chain parameters and process flags, and code that block connection calls but that is not
modelled. -/
structure ChainEnv where
  consensus : ConsensusParams
  verifier : BlockVerifier
  merkle : ShieldedType → MerkleHash
  mmr : MMRLibrary
  undoLib : UndoLibrary
  fZIP209Enabled : Bool
  fCoinbaseEnforcedShieldingEnabled : Bool
  /-- `nScriptCheckThreads != 0`: script checks are queued instead of made at once. -/
  scriptCheckThreads : Bool
  /-- Whether checkpoints are enabled and the block is an ancestor of the last one. -/
  underCheckpoint : Uint256 → Bool
  /-- `GetSigOpCount(scriptSig)` of a pay-to-script-hash output, 0 for others. -/
  p2shSigOpCount : CTxIn → CTxOut → Nat
  /-- `CScriptCheck` of input `nIn` against the output it spends, with or without
  `SCRIPT_VERIFY_CHECKLOCKTIMEVERIFY`, under a branch id; the script error if it fails. -/
  verifyScript : CTransaction → Nat → CTxOut → Bool → Nat → Option String
  getBlockProof : Nat → Uint256

/-- A node for concrete runs: every proof and script is good. -/
def ChainEnv.regtest : ChainEnv where
  consensus := .regtest
  verifier := ⟨fun _ => true, fun _ _ => true, fun a b => 2 * a + b, fun _ _ => true, fun _ => 0⟩
  merkle := ShieldedType.linearHash
  mmr := .counting
  undoLib := ⟨.none, fun bytes => BitVec.ofNat 256 bytes.length⟩
  fZIP209Enabled := false
  fCoinbaseEnforcedShieldingEnabled := false
  scriptCheckThreads := false
  underCheckpoint _ := false
  p2shSigOpCount _ _ := 0
  verifyScript _ _ _ _ _ := none
  getBlockProof _ := 1

def COINBASE_MATURITY : Nat := 100

/-- The method calls as a handler of this environment runs them. -/
abbrev ChainEnv.onStack (env : ChainEnv) : Handler viewSignature Failure CCoinsView :=
  ViewOp.onStack env.merkle env.mmr

/-! Values -/

/-- `total += amount`, with the range checks that throw. -/
def addInRange (total amount : CAmount) : View CAmount := do
  let total ← sum total amount
  require (moneyRange amount && moneyRange total) .aborted
  pure total

def sumInRange : List CAmount → CAmount → View CAmount
  | [], total => pure total
  | amount :: rest, total => do
    let total ← addInRange total amount
    sumInRange rest total

/-- A negative `valueBalance` takes money from the transparent pool just as outputs do. -/
def getValueOut (tx : CTransaction) : View CAmount := do
  let nValueOut ← sumInRange (tx.vout.map CTxOut.nValue) 0
  let nValueOut ←
      (if tx.valueBalance ≤ 0 then addInRange nValueOut (-tx.valueBalance) else pure nValueOut)
  sumInRange (tx.vJoinSplit.map JSDescription.vpub_old) nValueOut

def getShieldedValueIn (tx : CTransaction) : View CAmount := do
  let nValue ← (if 0 ≤ tx.valueBalance then addInRange 0 tx.valueBalance else pure 0)
  sumInRange (tx.vJoinSplit.map JSDescription.vpub_new) nValue

def getOutputFor (txin : CTxIn) : View CTxOut := do
  let coins ← accessCoins txin.prevout.hash
  match coins.bind (fun c => c.output txin.prevout.n) with
  | some out => pure out
  | none => fail .aborted

/-- The loop of `GetValueIn`. -/
def sumInputs : List CTxIn → CAmount → View CAmount
  | [], nResult => pure nResult
  | txin :: rest, nResult => do
    let out ← getOutputFor txin
    let nResult ← sum nResult out.nValue
    sumInputs rest nResult

/-- `GetValueIn` of a transaction that is no coinbase. -/
def getValueIn (tx : CTransaction) : View CAmount := do
  let nResult ← sumInputs tx.vin 0
  let shielded ← getShieldedValueIn tx
  sum nResult shielded

/-! Inputs -/

/-- `HaveInputs` of a transaction that is no coinbase. -/
def haveInputs : List CTxIn → View Bool
  | [] => pure true
  | txin :: rest => do
    let coins ← accessCoins txin.prevout.hash
    match coins.bind (fun c => c.output txin.prevout.n) with
    | some _ => haveInputs rest
    | none => pure false

def anyNullifier (type : ShieldedType) : List Uint256 → View Bool
  | [] => pure false
  | nf :: rest => do
    let spent ← getNullifier type nf
    if spent then pure true else anyNullifier type rest

/-- The JoinSplits of `HaveShieldedRequirements`. An anchor may be the root after an earlier
JoinSplit of the transaction; `intermediates` holds those trees. -/
def haveJoinSplits (H : MerkleHash) :
    List JSDescription → List (Uint256 × IncrementalMerkleTree) → View Bool
  | [], _ => pure true
  | joinsplit :: rest, intermediates => do
    let spent ← anyNullifier .sprout joinsplit.nullifiers.toList
    if spent then pure false
    else
      let found ← (match intermediates.lookup joinsplit.anchor with
        | some tree => pure (some tree)
        | none => getAnchorAt .sprout joinsplit.anchor)
      match found with
      | none => pure false
      | some tree =>
        match tree.appendAll H joinsplit.commitments.toList with
        | none => fail .aborted
        | some tree => haveJoinSplits H rest (intermediates ++ [(tree.root H, tree)])

def haveSpends : List SpendDescription → View Bool
  | [] => pure true
  | spend :: rest => do
    let spent ← getNullifier .sapling spend.nullifier
    if spent then pure false
    else
      let tree ← getAnchorAt .sapling spend.anchor
      if tree.isSome then haveSpends rest else pure false

def haveShieldedRequirements (H : MerkleHash) (tx : CTransaction) : View Bool := do
  let joinSplits ← haveJoinSplits H tx.vJoinSplit []
  if joinSplits then haveSpends tx.vShieldedSpend else pure false

/-- `GetP2SHSigOpCount`. -/
def getP2SHSigOpCount (env : ChainEnv) : List CTxIn → View Nat
  | [] => pure 0
  | txin :: rest => do
    let prevout ← getOutputFor txin
    let later ← getP2SHSigOpCount env rest
    pure (env.p2shSigOpCount txin prevout + later)

/-! `Consensus::CheckTxInputs` -/

/-- The loop over the inputs, with the running `nValueIn`. -/
def checkTxInputValues (env : ChainEnv) (tx : CTransaction) (nSpendHeight : Nat) :
    List CTxIn → CAmount → View CAmount
  | [], nValueIn => pure nValueIn
  | txin :: rest, nValueIn => do
    let coins ← accessCoins txin.prevout.hash
    match coins with
    | none => fail .aborted
    | some c =>
      -- the height difference is an `int` in the source: it may be negative
      require (!(c.fCoinBase && decide ((nSpendHeight : Int) - c.nHeight < COINBASE_MATURITY)))
        (.invalid 0 "bad-txns-premature-spend-of-coinbase" false)
      require (!(c.fCoinBase && env.fCoinbaseEnforcedShieldingEnabled &&
          env.consensus.fCoinbaseMustBeShielded && !tx.vout.isEmpty))
        (.invalid 0 "bad-txns-coinbase-spend-has-transparent-outputs" false)
      let nValue := ((c.vout[txin.prevout.n]?).getD .null).nValue
      let nValueIn ← sum nValueIn nValue
      require (moneyRange nValue && moneyRange nValueIn)
        (.invalid 100 "bad-txns-inputvalues-outofrange" false)
      checkTxInputValues env tx nSpendHeight rest nValueIn

def checkTxInputs (env : ChainEnv) (tx : CTransaction) (nSpendHeight : Nat) : View Unit := do
  let inputs ← haveInputs tx.vin
  require inputs (.invalid 0 "" false)
  let requirements ← haveShieldedRequirements (env.merkle .sprout) tx
  require requirements (.invalid 0 "" false)
  let nValueIn ← checkTxInputValues env tx nSpendHeight tx.vin 0
  let shielded ← getShieldedValueIn tx
  let nValueIn ← sum nValueIn shielded
  require (moneyRange nValueIn) (.invalid 100 "bad-txns-inputvalues-outofrange" false)
  let nValueOut ← getValueOut tx
  require (decide (nValueOut ≤ nValueIn)) (.invalid 100 "bad-txns-in-belowout" false)
  let nTxFee ← sum nValueIn (-nValueOut)
  require (decide (0 ≤ nTxFee)) (.invalid 100 "bad-txns-fee-negative" false)
  let nFees ← sum 0 nTxFee
  require (moneyRange nFees) (.invalid 100 "bad-txns-fee-outofrange" false)

/-! Scripts -/

/-- `HexInt`: eight lower case digits. -/
def hexInt (val : Nat) : String :=
  let digits := String.ofList (Nat.toDigits 16 val)
  String.ofList (List.replicate (8 - digits.length) '0') ++ digits

/-- The refusal after a script check failed at once. An outdated branch id or a flag that is
not mandatory is named as the cause when the script passes without it. -/
def scriptFailure (env : ChainEnv) (tx : CTransaction) (nIn : Nat) (out : CTxOut) (branchId : Nat)
    (scriptError : String) : Failure :=
  let prevBranchId := ConsensusParams.prevEpochBranchId branchId
  if (env.verifyScript tx nIn out true prevBranchId).isNone then
    .invalid 10 ("old-consensus-branch-id (Expected " ++ hexInt branchId ++ ", found " ++
      hexInt prevBranchId ++ ")") false
  else if (env.verifyScript tx nIn out false branchId).isNone then
    .invalid 0 ("non-mandatory-script-verify-flag (" ++ scriptError ++ ")") false
  else .invalid 100 ("mandatory-script-verify-flag-failed (" ++ scriptError ++ ")") false

/-- The second loop of `ContextualCheckInputs`: whether the queued checks will pass. -/
def checkScripts (env : ChainEnv) (tx : CTransaction) (branchId : Nat) :
    Nat → List CTxIn → View Bool
  | _, [] => pure true
  | nIn, txin :: rest => do
    let coins ← accessCoins txin.prevout.hash
    match coins with
    | none => fail .aborted
    | some c =>
      let out := (c.vout[txin.prevout.n]?).getD .null
      match env.verifyScript tx nIn out true branchId with
      | none => checkScripts env tx branchId (nIn + 1) rest
      | some scriptError =>
        if env.scriptCheckThreads then do
          let _ ← checkScripts env tx branchId (nIn + 1) rest
          pure false
        else fail (scriptFailure env tx nIn out branchId scriptError)

/-- `ContextualCheckInputs` of a transaction that is no coinbase. -/
def contextualCheckInputs (env : ChainEnv) (tx : CTransaction) (nSpendHeight : Nat)
    (fScriptChecks : Bool) (branchId : Nat) :
    View Bool := do
  checkTxInputs env tx nSpendHeight
  if fScriptChecks then checkScripts env tx branchId 0 tx.vin else pure true

/-! `UpdateCoins` -/

/-- The undo information for an output, spending which left `spent` of its entry. -/
def undoFor (spent : CCoins) (out : CTxOut) : CTxInUndo :=
  if spent.vout.isEmpty then ⟨out, spent.fCoinBase, spent.nHeight, spent.nVersion⟩
  else ⟨out, false, 0, 0⟩

/-- Mark an outpoint spent, and construct undo information. -/
def spendInput (txin : CTxIn) : View CTxInUndo := do
  let coins ← accessCoins txin.prevout.hash
  match coins with
  | none => fail .aborted
  | some c =>
    match c.output txin.prevout.n, c.spend txin.prevout.n with
    | some out, some spent =>
      modifyCoins txin.prevout.hash (.assign spent)
      pure (undoFor spent out)
    | _, _ => fail .aborted

def spendInputs : List CTxIn → View (List CTxInUndo)
  | [] => pure []
  | txin :: rest => do
    let undo ← spendInput txin
    let later ← spendInputs rest
    pure (undo :: later)

def updateCoins (tx : CTransaction) (nHeight : Nat) : View CTxUndo := do
  let vprevout ← (if tx.isCoinBase then pure [] else spendInputs tx.vin)
  setNullifiers tx true
  modifyNewCoins tx.getHash (.assign (CCoins.fromTx tx nHeight))
  pure ⟨vprevout⟩

end Zcashd.Source

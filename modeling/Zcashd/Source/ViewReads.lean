import Zcashd.Source.DisconnectBlock

/-!
The checks of block connection only read the view: every call they make is one of the
reading methods, whatever the answers are.
-/
namespace Zcashd.Source

open Lib

/-- The function makes reading calls only. -/
def View.Reads {α : Type} (p : View α) : Prop := Program.Only ViewOp.IsRead p

namespace View.Reads

variable {α β : Type}

theorem pure (value : α) : Reads (Pure.pure value) := trivial

theorem fail (failure : Failure) : Reads (View.fail failure : View α) := trivial

theorem require (condition : Bool) (failure : Failure) : Reads (View.require condition failure) :=
  Program.only_require condition failure

theorem sum (a b : CAmount) : Reads (View.sum a b) := Program.only_perform trivial

theorem accessCoins (txid : Uint256) : Reads (View.accessCoins txid) := Program.only_perform trivial

variable (type : ShieldedType)

theorem getAnchorAt (rt : Uint256) : Reads (View.getAnchorAt type rt) :=
  Program.only_perform trivial

theorem getNullifier (nf : Uint256) : Reads (View.getNullifier type nf) :=
  Program.only_perform trivial

theorem getBestAnchor : Reads (View.getBestAnchor type) := Program.only_perform trivial

theorem getBestBlock : Reads View.getBestBlock := Program.only_perform trivial

theorem andThen {p : View α} {rest : α → View β} (first : Reads p)
    (then_ : ∀ value, Reads (rest value)) :
    Reads (p >>= rest) :=
  Program.only_bind first then_

theorem ite {condition : Prop} [Decidable condition] {yes no : View α} (first : Reads yes)
    (second : Reads no) : Reads (if condition then yes else no) := by
  split
  · exact first
  · exact second

end View.Reads

open View.Reads

/-! Values -/

theorem addInRange_reads (total amount : CAmount) : (addInRange total amount).Reads :=
  (sum _ _).andThen fun _ => (require _ _).andThen fun _ => pure _

theorem sumInRange_reads (amounts : List CAmount) (total : CAmount) :
    (sumInRange amounts total).Reads := by
  induction amounts generalizing total with
  | nil => exact pure _
  | cons _ _ ih => exact (addInRange_reads _ _).andThen ih

variable (tx : CTransaction)

theorem getValueOut_reads : (getValueOut tx).Reads := by
  refine (sumInRange_reads _ _).andThen fun _ =>
    andThen (ite (addInRange_reads _ _) (pure _)) fun _ => ?_
  exact sumInRange_reads _ _

theorem getShieldedValueIn_reads : (getShieldedValueIn tx).Reads :=
  andThen (ite (addInRange_reads _ _) (pure _)) fun _ => sumInRange_reads _ _

theorem getOutputFor_reads (txin : CTxIn) : (getOutputFor txin).Reads := by
  refine (accessCoins _).andThen fun _ => ?_
  split
  · exact pure _
  · exact fail _

variable (txins : List CTxIn)

theorem sumInputs_reads (total : CAmount) : (sumInputs txins total).Reads := by
  induction txins generalizing total with
  | nil => exact pure _
  | cons _ _ ih => exact (getOutputFor_reads _).andThen fun _ => (sum _ _).andThen ih

theorem getValueIn_reads : (getValueIn tx).Reads :=
  (sumInputs_reads _ _).andThen fun _ => (getShieldedValueIn_reads _).andThen fun _ => sum _ _

/-! Inputs -/

theorem haveInputs_reads : (haveInputs txins).Reads := by
  induction txins with
  | nil => exact pure _
  | cons _ _ ih =>
    refine (accessCoins _).andThen fun _ => ?_
    split
    · exact ih
    · exact pure _

theorem anyNullifier_reads (type : ShieldedType) (nfs : List Uint256) :
    (anyNullifier type nfs).Reads := by
  induction nfs with
  | nil => exact pure _
  | cons _ _ ih => exact (getNullifier _ _).andThen fun _ => ite (pure _) ih

variable (H : MerkleHash)

theorem haveJoinSplits_reads (joinSplits : List JSDescription)
    (intermediates : List (Uint256 × IncrementalMerkleTree)) :
    (haveJoinSplits H joinSplits intermediates).Reads := by
  induction joinSplits generalizing intermediates with
  | nil => exact pure _
  | cons _ _ ih =>
    refine (anyNullifier_reads _ _).andThen fun _ => ite (pure _) (andThen ?_ fun _ => ?_)
    · split
      · exact pure _
      · exact getAnchorAt _ _
    · split
      · exact pure _
      · split
        · exact fail _
        · exact ih _

theorem haveSpends_reads (spends : List SpendDescription) : (haveSpends spends).Reads := by
  induction spends with
  | nil => exact pure _
  | cons _ _ ih =>
    exact (getNullifier _ _).andThen fun _ =>
      ite (pure _) ((getAnchorAt _ _).andThen fun _ => ite ih (pure _))

theorem haveShieldedRequirements_reads (tx : CTransaction) :
    (haveShieldedRequirements H tx).Reads :=
  (haveJoinSplits_reads _ _ _).andThen fun _ => ite (haveSpends_reads _) (pure _)

section

variable (env : ChainEnv)
include env

theorem getP2SHSigOpCount_reads : (getP2SHSigOpCount env txins).Reads := by
  induction txins with
  | nil => exact pure _
  | cons _ _ ih => exact (getOutputFor_reads _).andThen fun _ => ih.andThen fun _ => pure _

theorem checkTxInputValues_reads (nSpendHeight : Nat)
    (txins : List CTxIn) (nValueIn : CAmount) :
    (checkTxInputValues env tx nSpendHeight txins nValueIn).Reads := by
  induction txins generalizing nValueIn with
  | nil => exact pure _
  | cons _ _ ih =>
    refine (accessCoins _).andThen fun _ => ?_
    split
    · exact fail _
    · refine (require _ _).andThen fun _ => (require _ _).andThen fun _ =>
        (sum _ _).andThen fun _ => ?_
      exact (require _ _).andThen fun _ => ih _

theorem checkTxInputs_reads (nSpendHeight : Nat) : (checkTxInputs env tx nSpendHeight).Reads := by
  refine (haveInputs_reads _).andThen fun _ => (require _ _).andThen fun _ => ?_
  refine (haveShieldedRequirements_reads _ _).andThen fun _ => (require _ _).andThen fun _ => ?_
  refine (checkTxInputValues_reads _ _ _ _ _).andThen fun _ =>
    (getShieldedValueIn_reads _).andThen fun _ => ?_
  refine (sum _ _).andThen fun _ => (require _ _).andThen fun _ =>
    (getValueOut_reads _).andThen fun _ => ?_
  refine (require _ _).andThen fun _ => (sum _ _).andThen fun _ => (require _ _).andThen fun _ => ?_
  exact (sum _ _).andThen fun _ => require _ _

theorem checkScripts_reads (branchId nIn : Nat) (txins : List CTxIn) :
    (checkScripts env tx branchId nIn txins).Reads := by
  induction txins generalizing nIn with
  | nil => exact pure _
  | cons _ _ ih =>
    refine (accessCoins _).andThen fun _ => ?_
    split
    · exact fail _
    · dsimp only
      split
      · exact ih _
      · exact ite ((ih _).andThen fun _ => pure _) (fail _)

theorem contextualCheckInputs_reads {tx : CTransaction} {nSpendHeight : Nat} {fScriptChecks : Bool}
    {branchId : Nat} :
    (contextualCheckInputs env tx nSpendHeight fScriptChecks branchId).Reads :=
  (checkTxInputs_reads _ _ _).andThen fun _ => ite (checkScripts_reads _ _ _ _ _) (pure _)

end

/-! Blocks -/

theorem ofExcept_reads {α : Type} (outcome : Except Failure α) : (View.ofExcept outcome).Reads := by
  cases outcome with
  | ok _ => exact pure _
  | error _ => exact fail _

theorem checkBestBlock_reads (pprev : Option CBlockIndex) : (checkBestBlock pprev).Reads :=
  andThen (Program.only_perform trivial) fun _ => require _ _

theorem checkTurnstile_reads (env : ChainEnv) (pindex : CBlockIndex) :
    (checkTurnstile env pindex).Reads :=
  (require _ _).andThen fun _ => require _ _

theorem checkBIP30_reads (txs : List CTransaction) : (checkBIP30 txs).Reads := by
  induction txs with
  | nil => exact pure _
  | cons _ _ ih => exact (accessCoins _).andThen fun _ => (require _ _).andThen fun _ => ih

theorem bestTree_reads (type : ShieldedType) : (bestTree type).Reads := by
  refine (getBestAnchor _).andThen fun _ => (getAnchorAt _ _).andThen fun _ => ?_
  split
  · exact fail _
  · exact pure _

variable (env : ChainEnv)
include env

theorem checkNonCoinBase_reads (nSigOps : Nat) : (checkNonCoinBase env tx nSigOps).Reads := by
  refine (haveInputs_reads _).andThen fun _ => (require _ _).andThen fun _ => ?_
  refine (haveShieldedRequirements_reads _ _).andThen fun _ => (require _ _).andThen fun _ => ?_
  exact (getP2SHSigOpCount_reads _ _).andThen fun _ => (require _ _).andThen fun _ => pure _

theorem addFees_reads (nSpendHeight : Nat) (fScriptChecks : Bool)
    (branchId : Nat) (nFees : CAmount) :
    (addFees env tx nSpendHeight fScriptChecks branchId nFees).Reads := by
  refine (getValueIn_reads _).andThen fun _ => (getValueOut_reads _).andThen fun _ =>
    (sum _ _).andThen fun _ => ?_
  exact (sum _ _).andThen fun _ => (contextualCheckInputs_reads _).andThen fun _ => pure _

theorem appendCommitments_reads
    (trees : ShieldedType → IncrementalMerkleTree) : (appendCommitments env tx trees).Reads := by
  unfold appendCommitments
  split
  · exact pure _
  · exact fail _

theorem checkLightClientRoot_reads (block : CBlock) (pindex : CBlockIndex)
    (saplingRoot : Uint256) : (checkLightClientRoot env block pindex saplingRoot).Reads :=
  ite (require _ _) (ite (andThen (Program.only_perform trivial) fun _ => require _ _)
    (ite (require _ _) (pure _)))

theorem checkReward_reads (coinbase : CTransaction) (pindex : CBlockIndex)
    (nFees : CAmount) : (checkReward env coinbase pindex nFees).Reads := by
  unfold checkReward
  split
  · exact fail _
  · exact (sum _ _).andThen fun _ => (getValueOut_reads _).andThen fun _ => require _ _

end Zcashd.Source

import Zcashd.Lib.Program
import Zcashd.Source.CoinsViewOps
import Zcashd.Source.CheckBlock

/-!
Block connection works on `CCoinsViewCache& view`. The functions of `src/main.cpp` that do
are programs over the methods they call, so the same text runs on a stack of caches and on
the flat state the stack stands for.

`CAmount` sums are operations too: an `int64_t` sum wraps (the build passes `-fwrapv`), and
being a call it can be asked of every run whether a sum left the range.

`AccessCoins` answers what `visible` leaves of the entry: none of the callers tells a pruned
entry from an absent one. `ModifyCoins` followed by an edit that depends on the entry is
`AccessCoins` and then `ModifyCoins` with the edited value assigned.
-/
namespace Zcashd.Source

open Lib Program

inductive ViewOp where
  | accessCoins (txid : Uint256)
  | modifyCoins (txid : Uint256) (edit : CoinsEdit)
  | modifyNewCoins (txid : Uint256) (edit : CoinsEdit)
  | getAnchorAt (type : ShieldedType) (rt : Uint256)
  | getNullifier (type : ShieldedType) (nf : Uint256)
  | getBestAnchor (type : ShieldedType)
  | pushAnchor (type : ShieldedType) (tree : IncrementalMerkleTree)
  | popAnchor (type : ShieldedType) (newrt : Uint256)
  | setNullifiers (tx : CTransaction) (spent : Bool)
  | getBestBlock
  | setBestBlock (hashBlock : Uint256)
  | getHistoryRoot (epochId : Nat)
  | pushHistoryNode (epochId : Nat) (node : HistoryNode)
  | popHistoryNode (epochId : Nat)
  | sum (a b : CAmount)

abbrev ViewOp.Answer : ViewOp → Type
  | accessCoins _ => Option CCoins
  | getAnchorAt _ _ => Option IncrementalMerkleTree
  | getNullifier _ _ => Bool
  | getBestAnchor _ | getBestBlock | getHistoryRoot _ => Uint256
  | sum _ _ => CAmount
  | modifyCoins _ _ | modifyNewCoins _ _ | pushAnchor _ _ | popAnchor _ _ | setNullifiers _ _
  | setBestBlock _ | pushHistoryNode _ _ | popHistoryNode _ => Unit

/-- The calls that change nothing a reader could see. -/
def ViewOp.IsRead : ViewOp → Prop
  | accessCoins _ | getAnchorAt _ _ | getNullifier _ _ | getBestAnchor _ | getBestBlock
      | getHistoryRoot _
  | sum _ _ => True
  | modifyCoins _ _ | modifyNewCoins _ _ | pushAnchor _ _ | popAnchor _ _ | setNullifiers _ _
  | setBestBlock _ | pushHistoryNode _ _ | popHistoryNode _ => False

abbrev viewSignature : Signature := ⟨ViewOp, ViewOp.Answer⟩

/-- A function that takes a view. -/
abbrev View (α : Type) := Program viewSignature Failure α

namespace View

def accessCoins (txid : Uint256) : View (Option CCoins) :=
  perform (S := viewSignature) (.accessCoins txid)

def modifyCoins (txid : Uint256) (edit : CoinsEdit) : View Unit :=
  perform (S := viewSignature) (.modifyCoins txid edit)

def modifyNewCoins (txid : Uint256) (edit : CoinsEdit) : View Unit :=
  perform (S := viewSignature) (.modifyNewCoins txid edit)

def getAnchorAt (type : ShieldedType) (rt : Uint256) : View (Option IncrementalMerkleTree) :=
  perform (S := viewSignature) (.getAnchorAt type rt)

def getNullifier (type : ShieldedType) (nf : Uint256) : View Bool :=
  perform (S := viewSignature) (.getNullifier type nf)

def getBestAnchor (type : ShieldedType) : View Uint256 :=
  perform (S := viewSignature) (.getBestAnchor type)

def pushAnchor (type : ShieldedType) (tree : IncrementalMerkleTree) : View Unit :=
  perform (S := viewSignature) (.pushAnchor type tree)

def popAnchor (type : ShieldedType) (newrt : Uint256) : View Unit :=
  perform (S := viewSignature) (.popAnchor type newrt)

def setNullifiers (tx : CTransaction) (spent : Bool) : View Unit :=
  perform (S := viewSignature) (.setNullifiers tx spent)

def getBestBlock : View Uint256 := perform (S := viewSignature) .getBestBlock

def setBestBlock (hashBlock : Uint256) : View Unit :=
  perform (S := viewSignature) (.setBestBlock hashBlock)

def getHistoryRoot (epochId : Nat) : View Uint256 :=
  perform (S := viewSignature) (.getHistoryRoot epochId)

def pushHistoryNode (epochId : Nat) (node : HistoryNode) : View Unit :=
  perform (S := viewSignature) (.pushHistoryNode epochId node)

def popHistoryNode (epochId : Nat) : View Unit :=
  perform (S := viewSignature) (.popHistoryNode epochId)

/-- `a + b` on `CAmount`. -/
def sum (a b : CAmount) : View CAmount := perform (S := viewSignature) (.sum a b)

def require (condition : Bool) (failure : Failure) : View Unit := Program.require condition failure

def fail {α : Type} (failure : Failure) : View α := stop failure

@[simp] theorem run_require_ok {σ : Type} {handler : Handler viewSignature Failure σ} {s : σ}
    {condition : Bool} {failure : Failure} {result : Unit × σ} :
    (require condition failure).run handler s = .ok result ↔ condition = true ∧ result = ((), s) :=
  Program.run_require_ok

end View

/-- `int64_t` with two's complement wrapping. -/
def wrapInt64 (n : Int) : Int := n.bmod (2 ^ 64)

def orAbort {σ : Type} : Option σ → Except Failure (Unit × σ)
  | some s => .ok ((), s)
  | none => .error .aborted

/-- The operations on the top cache of a stack. -/
def ViewOp.onStack (H : ShieldedType → MerkleHash) (lib : MMRLibrary) :
    Handler viewSignature Failure CCoinsView
  | .accessCoins txid, v =>
    .ok ((CCoinsView.accessCoins txid v).bind CCoins.visible, (CCoinsView.fetchCoins txid v).2)
  | .modifyCoins txid edit, v => orAbort (CCoinsView.modifyCoins txid edit v)
  | .modifyNewCoins txid edit, v => orAbort (CCoinsView.modifyNewCoins txid edit v)
  | .getAnchorAt type rt, v => .ok (CCoinsView.getAnchorAt H type rt v)
  | .getNullifier type nf, v => .ok (CCoinsView.getNullifier type nf v)
  | .getBestAnchor type, v => .ok (CCoinsView.getBestAnchor H type v)
  | .pushAnchor type tree, v => orAbort (CCoinsView.pushAnchor H type tree v)
  | .popAnchor type newrt, v => orAbort (CCoinsView.popAnchor H type newrt v)
  | .setNullifiers tx spent, v => orAbort (CCoinsView.setNullifiers tx spent v)
  | .getBestBlock, v => .ok (CCoinsView.getBestBlock v)
  | .setBestBlock hashBlock, v => orAbort (CCoinsView.setBestBlock hashBlock v)
  | .getHistoryRoot epochId, v =>
    .ok (CCoinsView.getHistoryRoot epochId v, (CCoinsView.selectHistoryCache epochId v).2)
  | .pushHistoryNode epochId node, v => orAbort (CCoinsView.pushHistoryNode lib epochId node v)
  | .popHistoryNode epochId, v => orAbort (CCoinsView.popHistoryNode lib epochId v)
  | .sum a b, v => .ok (wrapInt64 (a + b), v)

end Zcashd.Source

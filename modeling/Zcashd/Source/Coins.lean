import Zcashd.Source.Primitives

/-!
`CCoins` (`src/coins.h:77-250`, `src/coins.cpp:37-44`): the unspent outputs of one
transaction, with spent outputs nulled and trailing nulls dropped.

`visible` identifies an absent entry with a pruned one, which is how every reader
of the source treats them. A `CoinsEdit` is what a caller may do to the entry it got
from `ModifyCoins`: any change that does not look at the metadata a pruned entry
happens to keep, since `operator==` does not see it either.
-/
namespace Zcashd.Source

structure CCoins where
  fCoinBase : Bool
  vout : List CTxOut
  nHeight : Nat
  nVersion : Int
deriving DecidableEq, Repr

namespace CCoins

/-- `Clear`, also the empty constructor. -/
def clear : CCoins := ⟨false, [], 0, 0⟩

def cleanup (c : CCoins) : CCoins := { c with vout := c.vout.rdropWhile CTxOut.isNull }

def clearUnspendable (c : CCoins) : CCoins :=
  cleanup { c with
    vout := c.vout.map (fun out => if out.scriptPubKey.isUnspendable then .null else out) }

def fromTx (tx : CTransaction) (nHeight : Nat) : CCoins :=
  clearUnspendable ⟨tx.isCoinBase, tx.vout, nHeight, tx.nVersion⟩

def isAvailable (c : CCoins) (nPos : Nat) : Bool :=
  match c.vout[nPos]? with
  | some out => !out.isNull
  | none => false

/-- An output that is there to be spent. -/
def output (c : CCoins) (nPos : Nat) : Option CTxOut :=
  (c.vout[nPos]?).filter (fun out => !out.isNull)

def isPruned (c : CCoins) : Bool := c.vout.all CTxOut.isNull

/-- `Spend`; `none` when the position is out of range or already spent. -/
def spend (c : CCoins) (nPos : Nat) : Option CCoins :=
  if c.isAvailable nPos then some (cleanup { c with vout := c.vout.set nPos .null }) else none

/-- `operator==`: empty entries are always equal. -/
def equal (a b : CCoins) : Bool := (a.isPruned && b.isPruned) || a == b

/-- The entry as readers see it: a pruned one is the same as none. -/
def visible (c : CCoins) : Option CCoins := if c.isPruned then none else some c

/-- No trailing spent outputs. -/
def Clean (c : CCoins) : Prop := c.cleanup = c

@[simp] theorem isPruned_clear : clear.isPruned = true := rfl

@[simp] theorem visible_clear : clear.visible = none := rfl

variable {c : CCoins}

theorem visible_eq_none : c.visible = none ↔ c.isPruned = true := by
  unfold visible
  split <;> simp_all

theorem visible_of_not_pruned (unspent : c.isPruned = false) : c.visible = some c := by
  simp [visible, unspent]

theorem equal_iff_visible {a b : CCoins} : a.equal b = true ↔ a.visible = b.visible := by
  unfold equal visible
  cases ha : a.isPruned <;> cases hb : b.isPruned <;> simp
  · rintro rfl
    simp [ha] at hb
  · rintro rfl
    simp [ha] at hb

private theorem all_rdropWhile {α : Type} (p : α → Bool) (l : List α) :
    (l.rdropWhile p).all p = l.all p := by
  induction l using List.reverseRecOn with
  | nil => simp
  | append_singleton l x ih =>
    by_cases h : p x
    · simp [List.rdropWhile_concat_pos _ _ _ h, ih, h]
    · simp [List.rdropWhile_concat_neg _ _ _ h, h]

@[simp] theorem isPruned_cleanup (c : CCoins) : c.cleanup.isPruned = c.isPruned := by
  simp [cleanup, isPruned, all_rdropWhile]

@[simp] theorem cleanup_clean (c : CCoins) : c.cleanup.Clean := by
  simp [Clean, cleanup, List.rdropWhile_idempotent]

/-- On a clean entry `vout.empty()` is the same test as `IsPruned()`. -/
theorem Clean.vout_isEmpty (clean : c.Clean) : c.vout.isEmpty = c.isPruned := by
  unfold Clean cleanup at clean
  have dropped := congrArg CCoins.vout clean
  cases pruned : c.isPruned with
  | false =>
    cases hv : c.vout with
    | nil => simp [isPruned, hv] at pruned
    | cons _ _ => rfl
  | true =>
    have : c.vout.rdropWhile CTxOut.isNull = [] := by
      rw [List.rdropWhile_eq_nil_iff]
      simpa [isPruned, List.all_eq_true] using pruned
    rw [← dropped, this]
    rfl

end CCoins

/-- An edit of a `CCoins` through a `CCoinsModifier`. -/
structure CoinsEdit where
  run : CCoins → CCoins
  respects : ∀ a b, a.equal b = true → (run a).equal (run b) = true

namespace CoinsEdit

/-- The edit of the simulation tests: assign a whole `CCoins`. -/
def assign (c : CCoins) : CoinsEdit := ⟨fun _ => c, fun _ _ _ => by simp [CCoins.equal]⟩

private theorem cleanup_visible_congr {a b : CCoins} (same : a.visible = b.visible) :
    a.cleanup.visible = b.cleanup.visible := by
  unfold CCoins.visible at same ⊢
  cases ha : a.isPruned <;> cases hb : b.isPruned <;> simp_all

/-- What the edit leaves, as a function of what readers see before it: the entry is
cleaned up when the modifier is destroyed. -/
def onVisible (edit : CoinsEdit) (before : Option CCoins) : Option CCoins :=
  (edit.run (before.getD CCoins.clear)).cleanup.visible

theorem onVisible_visible (edit : CoinsEdit) (c : CCoins) :
    edit.onVisible c.visible = (edit.run c).cleanup.visible := by
  apply cleanup_visible_congr
  rw [← CCoins.equal_iff_visible]
  apply edit.respects
  rw [CCoins.equal_iff_visible]
  cases pruned : c.isPruned with
  | true =>
    have absent : c.visible = none := CCoins.visible_eq_none.mpr pruned
    simp [absent]
  | false => simp [CCoins.visible_of_not_pruned pruned]

end CoinsEdit

end Zcashd.Source

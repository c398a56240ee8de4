import Zcashd.Source.CoinsUndo

/-!
The part of the state that transactions change: unspent coins and revealed nullifiers. A
transaction spends its inputs, reveals its nullifiers and creates its outputs; the undo
data takes that back, in the reverse order.
-/
namespace Zcashd.Abstract

open Source CCoins Function

@[ext] structure Ledger where
  coins : Uint256 → Option CCoins
  nullifiers : ShieldedType → Uint256 → Bool

namespace Ledger

/-- `none` where the input is not there to be spent. -/
def spend (txin : CTxIn) (l : Ledger) : Option (CTxInUndo × Ledger) :=
  match l.coins txin.prevout.hash with
  | none => none
  | some c =>
    match c.output txin.prevout.n, c.spend txin.prevout.n with
    | some out, some spent =>
      some (undoFor spent out, { l with coins := update l.coins txin.prevout.hash spent.visible })
    | _, _ => none

def spendAll : List CTxIn → Ledger → Option (List CTxInUndo × Ledger)
  | [], l => some ([], l)
  | txin :: rest, l =>
    match l.spend txin with
    | none => none
    | some (undo, l) => (spendAll rest l).map (fun later => (undo :: later.1, later.2))

def reveal (tx : CTransaction) (spent : Bool) (l : Ledger) : Ledger :=
  { l with
    nullifiers := fun type nf => if nf ∈ tx.revealed type then spent else l.nullifiers type nf }

def create (tx : CTransaction) (nHeight : Nat) (l : Ledger) : Ledger :=
  { l with coins := update l.coins tx.getHash (CCoins.fromTx tx nHeight).visible }

def connect (tx : CTransaction) (nHeight : Nat) (l : Ledger) : Option (CTxUndo × Ledger) :=
  (if tx.isCoinBase then some ([], l) else spendAll tx.vin l).map
    (fun spent => (⟨spent.1⟩, (spent.2.reveal tx true).create tx nHeight))

def restore (undo : CTxInUndo) (out : COutPoint) (l : Ledger) : Bool × Ledger :=
  let restored := restoredCoins undo out.n ((l.coins out.hash).getD CCoins.clear)
  (restored.1, { l with coins := update l.coins out.hash restored.2.cleanup.visible })

def restoreAll : List (CTxInUndo × CTxIn) → Ledger → Bool × Ledger
  | [], l => (true, l)
  | (undo, txin) :: rest, l =>
    let first := l.restore undo txin.prevout
    let later := restoreAll rest first.2
    (first.1 && later.1, later.2)

/-- The entry as `DisconnectBlock` compares it with the block's own. -/
def matchesOutputs (tx : CTransaction) (nHeight : Nat) (coins : Option CCoins) : Bool :=
  let outs := (coins.getD CCoins.clear).clearUnspendable
  let outsBlock := CCoins.fromTx tx nHeight
  CCoins.equal (if outsBlock.nVersion < 0 then { outs with nVersion := outsBlock.nVersion }
    else outs) outsBlock

def remove (tx : CTransaction) (nHeight : Nat) (l : Ledger) : Bool × Ledger :=
  (matchesOutputs tx nHeight (l.coins tx.getHash),
    { l with coins := update l.coins tx.getHash none })

/-- `inputs` is false for the transaction without undo data. -/
def disconnect (tx : CTransaction) (txundo : Option CTxUndo) (nHeight : Nat) (l : Ledger) :
    Bool × Ledger :=
  let removed := l.remove tx nHeight
  let l := removed.2.reveal tx false
  match txundo with
  | none => (removed.1, l)
  | some txundo =>
    let restored := l.restoreAll (txundo.vprevout.zip tx.vin).reverse
    (removed.1 && restored.1, restored.2)

/-- The output an outpoint names, if it is unspent. -/
def output (l : Ledger) (o : COutPoint) : Option CTxOut :=
  (l.coins o.hash).bind (fun c => c.output o.n)

/-- Every unspent entry is one that blocks create. -/
def Sound (l : Ledger) : Prop := ∀ txid c, l.coins txid = some c → c.Sound

/-- Nothing of the transaction is in the ledger yet. -/
structure Fresh (tx : CTransaction) (l : Ledger) : Prop where
  coins : l.coins tx.getHash = none
  nullifiers : ∀ type, ∀ nf ∈ tx.revealed type, l.nullifiers type nf = false

variable {l l' : Ledger} {tx : CTransaction} {txin : CTxIn} {nHeight : Nat}

/-! Spending -/

theorem visible_sound {c spent : CCoins} {n : Nat} (sound : c.Sound)
    (spends : c.spend n = some spent) {left : CCoins} (kept : spent.visible = some left) :
    left.Sound := by
  have next := sound.spend spends
  unfold visible at kept
  grind

section

variable {undo : CTxInUndo} (ran : l.spend txin = some (undo, l'))
include ran

/-- What spending an input finds and leaves. -/
theorem spend_eq_some :
    ∃ c out spent, l.coins txin.prevout.hash = some c ∧ c.output txin.prevout.n = some out ∧
      c.spend txin.prevout.n = some spent ∧ undo = undoFor spent out ∧
      l' = { l with coins := update l.coins txin.prevout.hash spent.visible } := by
  unfold spend at ran
  grind

theorem Sound.spend (sound : l.Sound) :
    l'.Sound ∧ undo.Storable := by
  obtain ⟨c, _, spent, held, hit, spends, rfl, rfl⟩ := spend_eq_some ran
  refine ⟨?_, (sound _ c held).undoFor_storable hit spends⟩
  intro txid left _
  have old := sound txid left
  have spentSound : spent.visible = some left → left.Sound := visible_sound (sound _ c held) spends
  grind [update_apply]

variable {txid : Uint256}

theorem spend_none
    (absent : l.coins txid = none) : l'.coins txid = none := by
  obtain ⟨c, _, _, _, -, -, -, rfl⟩ := spend_eq_some ran
  grind [update_apply]

/-- Restoring the last spent output gives the ledger before it was spent. -/
theorem restore_spend (sound : l.Sound) :
    l'.restore undo txin.prevout = (true, l) := by
  obtain ⟨c, _, _, held, hit, spends, rfl, rfl⟩ := spend_eq_some ran
  have entry := sound _ c held
  have back := entry.restoredCoins_spend hit spends
  have kept : c.cleanup.visible = some c := by
    rw [show c.cleanup = c from entry.clean]
    exact visible_of_not_pruned entry.unspent
  unfold restore
  simp only [update_self, back, kept, update_idem, Prod.mk.injEq, true_and]
  rw [← held, update_eq_self]

variable (o : COutPoint)

/-- Spending an input makes that output unavailable and no other. -/
theorem spend_output :
    l'.output o = if o = txin.prevout then none else l.output o := by
  obtain ⟨c, _, _, held, -, spends, -, rfl⟩ := spend_eq_some ran
  unfold output
  dsimp only
  by_cases entry : o.hash = txin.prevout.hash
  · rw [entry, update_self, bind_output_visible, output_spend spends, held]
    by_cases position : o.n = txin.prevout.n
    · rw [if_pos position, if_pos]
      obtain ⟨_, n⟩ := o
      simp_all
    · rw [if_neg position, if_neg (fun equal => position (congrArg COutPoint.n equal))]
      rfl
  · rw [update_of_ne entry, if_neg (fun equal => entry (congrArg COutPoint.hash equal))]

theorem spend_available :
    l.output txin.prevout ≠ none := by
  obtain ⟨c, _, _, held, hit, -⟩ := spend_eq_some ran
  simp [output, held, hit]

end

variable {undos : List CTxInUndo}

theorem spendAll_cons {rest : List CTxIn}
    (ran : l.spendAll (txin :: rest) = some (undos, l')) :
    ∃ undo middle later, l.spend txin = some (undo, middle) ∧
      middle.spendAll rest = some (later, l') ∧ undos = undo :: later := by
  unfold spendAll at ran
  cases first : l.spend txin with
  | none =>
    rw [first] at ran
    cases ran
  | some pair =>
    obtain ⟨undo, middle⟩ := pair
    rw [first] at ran
    obtain ⟨⟨later, _⟩, after, equal⟩ := Option.map_eq_some_iff.mp ran
    cases equal
    exact ⟨undo, middle, later, rfl, after, rfl⟩

variable {txins : List CTxIn}

/-- What one spent input preserves, a run of them preserves. -/
theorem spendAll_induction {P : Ledger → Prop}
    (step : ∀ txin ∈ txins, ∀ l undo l', P l → l.spend txin = some (undo, l') → P l')
    (ran : l.spendAll txins = some (undos, l')) (start : P l) : P l' := by
  induction txins generalizing l undos with
  | nil =>
    cases ran
    exact start
  | cons txin _ ih =>
    obtain ⟨undo, middle, _, first, after, -⟩ := spendAll_cons ran
    exact ih (fun txin mem => step txin (List.mem_cons_of_mem _ mem)) after
      (step txin (by simp) l undo middle start first)

theorem Sound.spendAll (sound : l.Sound)
    (ran : l.spendAll txins = some (undos, l')) :
    l'.Sound ∧ undos.length = txins.length ∧ ∀ undo ∈ undos, undo.Storable := by
  induction txins generalizing l undos with
  | nil =>
    cases ran
    exact ⟨sound, rfl, nofun⟩
  | cons _ rest ih =>
    obtain ⟨_, _, _, first, after, rfl⟩ := spendAll_cons ran
    obtain ⟨middleSound, _⟩ := sound.spend first
    obtain ⟨lastSound, size, _⟩ := ih middleSound after
    exact ⟨lastSound, by simp [size], by grind⟩

section

variable (ran : l.spendAll txins = some (undos, l'))
include ran

theorem spendAll_output : l'.output o = if o ∈ txins.map CTxIn.prevout then none
    else l.output o := by
  induction txins generalizing l undos with
  | nil =>
    cases ran
    rfl
  | cons txin rest ih =>
    obtain ⟨_, _, _, first, after, -⟩ := spendAll_cons ran
    rw [ih after, spend_output first]
    by_cases head : o = txin.prevout <;> by_cases tail :
      o ∈ rest.map CTxIn.prevout <;> simp [head, tail]

/-- Every input was there to be spent before the first one was. -/
theorem spendAll_available (mem : txin ∈ txins) : l.output txin.prevout ≠ none := by
  induction txins generalizing l undos with
  | nil => cases mem
  | cons _ _ _ =>
    obtain ⟨_, _, _, first, _, -⟩ := spendAll_cons ran
    have here := spend_available first
    have left := spend_output first txin.prevout
    grind

theorem spendAll_none (absent : l.coins txid = none) : l'.coins txid = none :=
  spendAll_induction (P := fun other => other.coins txid = none)
    (fun _ _ _ _ _ absent step => spend_none step absent) ran absent

theorem spendAll_nullifiers : l'.nullifiers = l.nullifiers := by
  refine spendAll_induction (P := fun other => other.nullifiers = l.nullifiers) ?_ ran rfl
  intro _ _ _ _ _ same spent
  obtain ⟨-, -, -, -, -, -, -, rfl⟩ := spend_eq_some spent
  exact same

end

theorem restoreAll_append (first second : List (CTxInUndo × CTxIn)) (l : Ledger) :
    l.restoreAll (first ++ second) =
      ((l.restoreAll first).1 && ((l.restoreAll first).2.restoreAll second).1,
        ((l.restoreAll first).2.restoreAll second).2) := by
  induction first generalizing l with
  | nil => simp [restoreAll]
  | cons _ _ ih =>
    simp [restoreAll, ih, Bool.and_assoc]

/-- Restoring the inputs last one first gives the ledger before the first was spent. -/
theorem restoreAll_spendAll (sound : l.Sound)
    (ran : l.spendAll txins = some (undos, l')) :
    l'.restoreAll (undos.zip txins).reverse = (true, l) := by
  induction txins generalizing l undos with
  | nil =>
    cases ran
    rfl
  | cons _ _ ih =>
    obtain ⟨_, _, _, first, after, rfl⟩ := spendAll_cons ran
    have back := ih (sound.spend first).1 after
    rw [List.zip_cons_cons, List.reverse_cons, restoreAll_append, back]
    simp [restoreAll, restore_spend first sound]

/-! Transactions -/

/-- A coinbase spends nothing. -/
def spentBy (tx : CTransaction) : List CTxIn := if tx.isCoinBase then [] else tx.vin

section

variable {undo : CTxUndo} (ran : l.connect tx nHeight = some (undo, l'))
include ran

theorem connect_eq_some :
    ∃ undos middle, undo = ⟨undos⟩ ∧ l.spendAll (spentBy tx) = some (undos, middle) ∧
      l' = (middle.reveal tx true).create tx nHeight := by
  obtain ⟨⟨undos, middle⟩, spent, equal⟩ := Option.map_eq_some_iff.mp ran
  cases equal
  refine ⟨undos, middle, rfl, ?_, rfl⟩
  unfold spentBy
  split at spent <;> simp_all [spendAll]

theorem connect_output :
    l'.output o = if o.hash = tx.getHash then (fromTx tx nHeight).output o.n
      else if o ∈ (spentBy tx).map CTxIn.prevout then none else l.output o := by
  obtain ⟨_, _, -, spends, rfl⟩ := connect_eq_some ran
  by_cases new : o.hash = tx.getHash
  · rw [if_pos new]
    simp [output, create, new, bind_output_visible]
  · rw [if_neg new, ← spendAll_output spends]
    simp [output, create, reveal, update_of_ne new]

theorem connect_nullifiers
    (type : ShieldedType) (nf : Uint256) :
    l'.nullifiers type nf = if nf ∈ tx.revealed type then true else l.nullifiers type nf := by
  obtain ⟨_, _, -, spends, rfl⟩ := connect_eq_some ran
  simp [create, reveal, spendAll_nullifiers spends]

theorem connect_none
    (other : txid ≠ tx.getHash) (absent : l.coins txid = none) : l'.coins txid = none := by
  obtain ⟨_, _, -, spends, rfl⟩ := connect_eq_some ran
  exact (update_of_ne other _ _).trans (spendAll_none spends absent)

end

theorem reveal_reveal (unrevealed : ∀ type, ∀ nf ∈ tx.revealed type, l.nullifiers type nf = false) :
    (l.reveal tx true).reveal tx false = l := by
  refine Ledger.ext rfl (funext fun type => funext fun nf => ?_)
  simp only [reveal]
  grind

theorem matchesOutputs_fromTx (version : 0 ≤ tx.nVersion) :
    matchesOutputs tx nHeight (fromTx tx nHeight).visible = true := by
  have same : (fromTx tx nHeight).clearUnspendable = fromTx tx nHeight :=
    clearUnspendable_clearUnspendable _
  have pos : ¬ (fromTx tx nHeight).nVersion < 0 := by
    change ¬ tx.nVersion < 0
    omega
  unfold matchesOutputs
  simp only [pos, ↓reduceIte]
  rw [equal_iff_visible]
  cases pruned : (fromTx tx nHeight).isPruned with
  | true =>
    rw [visible_eq_none.mpr pruned]
    rfl
  | false => rw [visible_of_not_pruned pruned, Option.getD_some, same, visible_of_not_pruned pruned]

/-- `DisconnectBlock` takes one transaction back. -/
theorem disconnect_connect (sound : l.Sound) (fresh : l.Fresh tx) (version : 0 ≤ tx.nVersion)
    (ran : l.connect tx nHeight = some (undo, l')) :
    l'.disconnect tx (if tx.isCoinBase then none else some undo) nHeight = (true, l) := by
  obtain ⟨_, middle, rfl, spends, rfl⟩ := connect_eq_some ran
  have absent := spendAll_none spends fresh.coins
  have unrevealed : ∀ type, ∀ nf ∈ tx.revealed type, middle.nullifiers type nf = false := by
    rw [spendAll_nullifiers spends]
    exact fresh.nullifiers
  have gone : ((middle.reveal tx true).create tx nHeight).remove tx nHeight =
      (true, middle.reveal tx true) := by
    simp only [remove, create, reveal, update_self, matchesOutputs_fromTx version,
      update_idem, Prod.mk.injEq, true_and]
    rw [← absent, update_eq_self]
  unfold disconnect
  simp only [gone, reveal_reveal unrevealed]
  unfold spentBy at spends
  split at spends
  · rename_i coinBase
    cases spends
    rw [if_pos coinBase]
  · rename_i other
    simp [other, restoreAll_spendAll sound spends]

/-- Connecting a checked transaction keeps every entry sound. -/
theorem Sound.connect (sound : l.Sound) (checked : tx.Checked) (version : tx.nVersion < 2 ^ 31)
    (height : 0 < nHeight ∧ nHeight < 2 ^ 31) (ran : l.connect tx nHeight = some (undo, l')) :
    l'.Sound ∧ undo.vprevout.length = (spentBy tx).length ∧ ∀ u ∈ undo.vprevout, u.Storable := by
  obtain ⟨_, _, rfl, spends, rfl⟩ := connect_eq_some ran
  obtain ⟨middleSound, size, storable⟩ := sound.spendAll spends
  refine ⟨?_, size, storable⟩
  intro txid c held
  by_cases new : txid = tx.getHash
  · subst new
    simp only [create, reveal, update_self] at held
    unfold visible at held
    split at held
    · cases held
    · rename_i unspent
      cases held
      exact fromTx_sound checked.values height ⟨by have := checked.version; omega, version⟩
        (by simpa using unspent)
  · exact middleSound txid c ((update_of_ne new _ _).symm.trans held)

end Ledger

end Zcashd.Abstract

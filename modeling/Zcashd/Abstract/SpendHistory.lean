import Zcashd.Abstract.Ledger

/-!
Runs of transactions over a ledger. `Remembers` says what the ledger knows about those
connected so far: what they spent is gone, what they revealed is set, and what is unspent
was created by one of them. It follows that no transaction is connected twice, so each one
finds nothing of itself in the ledger, and that the undo data of a whole block takes it back.

The ids in `U` are those of which nothing was unspent at the start: all of them for a chain
from an empty ledger, those of its own transactions for a block after the check of BIP 30.
-/
namespace Zcashd.Abstract

open Source List

namespace Ledger

/-- None of the nullifiers of the transaction has been revealed. -/
def Unrevealed (tx : CTransaction) (l : Ledger) : Prop :=
  ∀ type, ∀ nf ∈ tx.revealed type, l.nullifiers type nf = false

/-- Transactions connected one after the other, each in a ledger that satisfies `P`. -/
inductive Connects (P : CTransaction → Ledger → Prop) (nHeight : Nat) :
    List CTransaction → Ledger → List CTxUndo → Ledger → Prop
  | nil (l : Ledger) : Connects P nHeight [] l [] l
  | cons {tx : CTransaction} {rest : List CTransaction} {l middle l' : Ledger} {undo : CTxUndo}
      {undos : List CTxUndo} (before : P tx l) (first : l.connect tx nHeight = some (undo, middle))
      (after : Connects P nHeight rest middle undos l') :
        Connects P nHeight (tx :: rest) l (undo :: undos) l'

structure Remembers (U : Set Uint256) (done : List CTransaction) (l : Ledger) : Prop where
  spent : ∀ tx ∈ done, ∀ txin ∈ spentBy tx, l.output txin.prevout = none
  sources : ∀ tx ∈ done, ∀ txin ∈ spentBy tx, txin.prevout.hash ∈ U →
    txin.prevout.hash ∈ done.map CTransaction.getHash
  revealed : ∀ tx ∈ done, ∀ type, ∀ nf ∈ tx.revealed type, l.nullifiers type nf = true
  absent : ∀ txid ∈ U, txid ∉ done.map CTransaction.getHash → l.coins txid = none

variable {U : Set Uint256} {done : List CTransaction} {l l' : Ledger} {tx : CTransaction}
  {nHeight : Nat}

namespace Remembers

theorem start (empty : ∀ txid ∈ U, l.coins txid = none) : Remembers U [] l where
  spent := nofun
  sources := nofun
  revealed := nofun
  absent txid mem _ := empty txid mem

variable {undo : CTxUndo} (remembers : Remembers U done l)
include remembers

/-- A transaction that was connected cannot be connected again. -/
theorem not_mem (checked : tx.Checked) (coinBase : tx.isCoinBase = true → tx ∉ done)
    (unrevealed : tx.isCoinBase = false → Unrevealed tx l)
    (ran : l.connect tx nHeight = some (undo, l')) :
    tx ∉ done := by
  intro again
  cases kind : tx.isCoinBase with
  | true => exact coinBase kind again
  | false =>
    obtain ⟨_, _, -, spends, -⟩ := connect_eq_some ran
    have inputs : spentBy tx = tx.vin := by simp [spentBy, kind]
    rcases checked.consumes with some | ⟨type, some⟩
    · obtain ⟨txin, _, shape⟩ := exists_cons_of_ne_nil some
      have mem : txin ∈ spentBy tx := by simp [inputs, shape]
      exact spendAll_available spends mem (remembers.spent tx again txin mem)
    · obtain ⟨nf, _, shape⟩ := exists_cons_of_ne_nil some
      have mem : nf ∈ tx.revealed type := by simp [shape]
      have set := remembers.revealed tx again type nf mem
      rw [unrevealed kind type nf mem] at set
      cases set

/-- An input that is there to be spent comes from a transaction connected before. -/
theorem source
    (ran : l.connect tx nHeight = some (undo, l')) {txin : CTxIn} (mem : txin ∈ spentBy tx)
    (known : txin.prevout.hash ∈ U) : txin.prevout.hash ∈ done.map CTransaction.getHash := by
  obtain ⟨_, _, -, spends, -⟩ := connect_eq_some ran
  by_contra unknown
  apply spendAll_available spends mem
  simp [output, remembers.absent _ known unknown]

theorem connect (known : tx.getHash ∈ U) (checked : tx.Checked)
    (distinct : ∀ other ∈ done, other.getHash = tx.getHash → other = tx)
    (coinBase : tx.isCoinBase = true → tx ∉ done)
    (unrevealed : tx.isCoinBase = false → Unrevealed tx l)
    (ran : l.connect tx nHeight = some (undo, l')) :
    l.Fresh tx ∧ tx ∉ done ∧ Remembers U (done ++ [tx]) l' := by
  have new := remembers.not_mem checked coinBase unrevealed ran
  have newHash : tx.getHash ∉ done.map CTransaction.getHash := by
    intro mem
    obtain ⟨other, old, same⟩ := mem_map.mp mem
    exact new (distinct other old same ▸ old)
  have absent := remembers.absent _ known newHash
  have fresh : l.Fresh tx := by
    refine ⟨absent, ?_⟩
    cases kind : tx.isCoinBase with
    | true =>
      intro type _ mem
      rw [checked.coinBase kind type] at mem
      cases mem
    | false => exact unrevealed kind
  -- no input of a transaction connected so far is an output of this one
  have inputHash :
      ∀ other ∈ done ++ [tx], ∀ txin ∈ spentBy other, txin.prevout.hash ≠ tx.getHash := by
    intro other mem txin spends same
    rcases mem_append.mp mem with old | last
    · exact newHash (same ▸ remembers.sources other old txin spends (same ▸ known))
    · rw [mem_singleton.mp last] at spends
      exact newHash (same ▸ remembers.source ran spends (same ▸ known))
  refine ⟨fresh, new, ?_, ?_, ?_, ?_⟩
  · intro other mem txin spends
    rw [connect_output ran, if_neg (inputHash other mem txin spends)]
    split
    · rfl
    · rename_i unspent
      rcases mem_append.mp mem with old | last
      · exact remembers.spent other old txin spends
      · rw [mem_singleton.mp last] at spends
        exact absurd (mem_map_of_mem spends) unspent
  · intro other mem txin spends inU
    rw [map_append, mem_append]
    left
    rcases mem_append.mp mem with old | last
    · exact remembers.sources other old txin spends inU
    · rw [mem_singleton.mp last] at spends
      exact remembers.source ran spends inU
  · intro other mem type nf reveals
    rw [connect_nullifiers ran]
    split
    · rfl
    · rename_i notHere
      rcases mem_append.mp mem with old | last
      · exact remembers.revealed other old type nf reveals
      · rw [mem_singleton.mp last] at reveals
        exact absurd reveals notHere
  · intro txid inU missing
    rw [map_append, mem_append, not_or] at missing
    exact connect_none ran (fun same => missing.2 (by simp [same]))
      (remembers.absent txid inU missing.1)

end Remembers

/-- The checks a run of transactions passed before it was connected: only the first may be a
coinbase, and different transactions have different ids. -/
structure Wellformed (done txs : List CTransaction) : Prop where
  checked : ∀ tx ∈ txs, tx.Checked
  coinBase : ∀ tx ∈ txs, tx.isCoinBase = true → tx ∉ done ∧ txs.head? = some tx ∧ tx ∉ txs.tail
  distinct : ∀ tx ∈ txs, ∀ other ∈ done ++ txs, other.getHash = tx.getHash → other = tx

variable {rest : List CTransaction}

theorem Wellformed.tail (wellformed : Wellformed done (tx :: rest)) :
    Wellformed (done ++ [tx]) rest := by
  refine ⟨fun other mem => wellformed.checked other (by simp [mem]), ?_, ?_⟩
  · intro other mem isCoinBase
    obtain ⟨-, _, last⟩ := wellformed.coinBase other (by simp [mem]) isCoinBase
    exact absurd mem last
  · intro other mem third old same
    exact wellformed.distinct other (by simp [mem]) third (by simpa using old) same

variable {txs : List CTransaction} {undos : List CTxUndo}

/-- Each transaction of a run finds nothing of itself in the ledger. -/
theorem Connects.fresh
    (connects : Connects (fun tx l => tx.isCoinBase = false → Unrevealed tx l) nHeight
      txs l undos l') (remembers : Remembers U done l) (known : ∀ tx ∈ txs, tx.getHash ∈ U)
    (wellformed : Wellformed done txs) :
    Connects Fresh nHeight txs l undos l' ∧ Remembers U (done ++ txs) l' := by
  induction connects generalizing done with
  | nil l => exact ⟨.nil l, by simpa using remembers⟩
  | @cons tx rest l _ _ _ _ unrevealed first _ ih =>
    obtain ⟨fresh, _, next⟩ :=
      remembers.connect (known tx (by simp)) (wellformed.checked tx (by simp))
      (fun other old same => wellformed.distinct tx (by simp) other (by simp [old]) same)
      (fun isCoinBase => (wellformed.coinBase tx (by simp) isCoinBase).1) unrevealed first
    obtain ⟨rest, last⟩ := ih next (fun other mem => known other (by simp [mem])) wellformed.tail
    exact ⟨.cons fresh first rest, by simpa using last⟩

/-! Taking a run back -/

def disconnectAll (nHeight : Nat) : List (CTransaction × Option CTxUndo) → Ledger → Bool × Ledger
  | [], l => (true, l)
  | (tx, txundo) :: rest, l =>
    let first := l.disconnect tx txundo nHeight
    let later := disconnectAll nHeight rest first.2
    (first.1 && later.1, later.2)

theorem disconnectAll_append (first second : List (CTransaction × Option CTxUndo)) (l : Ledger) :
    disconnectAll nHeight (first ++ second) l =
      ((disconnectAll nHeight first l).1 &&
        (disconnectAll nHeight second (disconnectAll nHeight first l).2).1,
        (disconnectAll nHeight second (disconnectAll nHeight first l).2).2) := by
  induction first generalizing l with
  | nil => simp [disconnectAll]
  | cons head _ ih =>
    obtain ⟨_, _⟩ := head
    simp [disconnectAll, ih, Bool.and_assoc]

/-- The undo data of a transaction as `DisconnectBlock` finds it: a coinbase has none. -/
def withUndo (tx : CTransaction) (undo : CTxUndo) : CTransaction × Option CTxUndo :=
  (tx, if tx.isCoinBase then none else some undo)

/-- Transactions as a parsed and checked block has them. -/
structure Acceptable (nHeight : Nat) (txs : List CTransaction) : Prop where
  checked : ∀ tx ∈ txs, tx.Checked
  version : ∀ tx ∈ txs, tx.nVersion < 2 ^ 31
  height : 0 < nHeight ∧ nHeight < 2 ^ 31

theorem Acceptable.tail (acceptable : Acceptable nHeight (tx :: rest)) : Acceptable nHeight rest :=
  ⟨fun tx mem => acceptable.checked tx (by simp [mem]),
    fun tx mem => acceptable.version tx (by simp [mem]), acceptable.height⟩

/-- Every entry stays sound, and the undo data fits the record format. -/
theorem Connects.sound {P : CTransaction → Ledger → Prop}
    (connects : Connects P nHeight txs l undos l') (acceptable : Acceptable nHeight txs)
    (sound : l.Sound) :
    l'.Sound ∧ List.Forall₂ (fun tx undo => undo.vprevout.length = (spentBy tx).length ∧
      ∀ u ∈ undo.vprevout, u.Storable) txs undos := by
  induction connects with
  | nil l => exact ⟨sound, .nil⟩
  | cons _ first _ ih =>
    obtain ⟨next, undoOk⟩ :=
      sound.connect (acceptable.checked _ (by simp)) (acceptable.version _ (by simp))
      acceptable.height first
    obtain ⟨last, rest⟩ := ih acceptable.tail next
    exact ⟨last, .cons undoOk rest⟩

/-- What a transaction does to the unspent outputs. -/
def enter (unspent : COutPoint → Option CTxOut) (tx : CTransaction) (o : COutPoint) :
    Option CTxOut :=
  if o.hash = tx.getHash then (CCoins.fromTx tx 0).output o.n
  else if o ∈ (spentBy tx).map CTxIn.prevout then none else unspent o

theorem Connects.outputs {P : CTransaction → Ledger → Prop}
    (connects : Connects P nHeight txs l undos l') :
    l'.output = txs.foldl enter l.output := by
  induction connects with
  | nil => rfl
  | cons _ first _ ih =>
    rw [ih, foldl_cons]
    congr
    funext _
    exact connect_output first

/-- Disconnecting the transactions last one first gives the ledger before the first. -/
theorem Connects.disconnectAll (connects : Connects Fresh nHeight txs l undos l')
    (acceptable : Acceptable nHeight txs) (sound : l.Sound) :
    disconnectAll nHeight (List.zipWith withUndo txs undos).reverse l' = (true, l) := by
  induction connects with
  | nil l => rfl
  | @cons tx _ l _ _ _ _ fresh first _ ih =>
    have checked := acceptable.checked tx (by simp)
    obtain ⟨next, -⟩ :=
      sound.connect checked (acceptable.version tx (by simp)) acceptable.height first
    have back := ih acceptable.tail next
    have version : 0 ≤ tx.nVersion := Int.le_of_lt checked.version
    rw [zipWith_cons_cons, reverse_cons, disconnectAll_append, back]
    simp [Ledger.disconnectAll, withUndo, disconnect_connect sound fresh version first]

end Ledger

end Zcashd.Abstract

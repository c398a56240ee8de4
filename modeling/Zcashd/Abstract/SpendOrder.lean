import Zcashd.Abstract.SpendHistory

/-!
What `Remembers` leaves of the transactions themselves: along a run from an empty ledger no
nullifier is revealed and no output spent twice, every output spent was created before, and
the nullifiers of the ledger are those of the run.
-/
namespace Zcashd.Abstract

open Source List CCoins

namespace Ledger

/-- The outpoints a run of transactions spends, in order. -/
def spentOutpoints (txs : List CTransaction) : List COutPoint :=
  txs.flatMap (fun tx => (spentBy tx).map CTxIn.prevout)

/-- The nullifiers it reveals in one pool. -/
def revealedNullifiers (type : ShieldedType) (txs : List CTransaction) : List Uint256 :=
  txs.flatMap (fun tx => tx.revealed type)

/-- The outpoint names an output of one of the transactions. -/
def CreatedBy (txs : List CTransaction) (o : COutPoint) (out : CTxOut) : Prop :=
  ∃ tx ∈ txs, tx.getHash = o.hash ∧ tx.vout[o.n]? = some out

/-- Whatever a transaction spends was created by one strictly before it. -/
def SourcesBefore (txs : List CTransaction) : Prop :=
  ∀ before tx after, txs = before ++ tx :: after →
    ∀ txin ∈ spentBy tx, ∃ out, CreatedBy before txin.prevout out

structure Orderly (done : List CTransaction) (l : Ledger) : Prop where
  revealed : ∀ type, (revealedNullifiers type done).Nodup
  spent : (spentOutpoints done).Nodup
  sources : SourcesBefore done
  nullifiers : ∀ type nf, l.nullifiers type nf = true ↔ nf ∈ revealedNullifiers type done
  outputs : ∀ o out, l.output o = some out → CreatedBy done o out

variable {U : Set Uint256} {done : List CTransaction} {l l' : Ledger} {tx : CTransaction}
  {nHeight : Nat} {out : CTxOut}

/-- The unspent outputs of a new entry are outputs of the transaction. -/
theorem fromTx_output {n : Nat} (hit : (fromTx tx nHeight).output n = some out) :
    tx.vout[n]? = some out := by
  rw [fromTx, clearUnspendable, output_cleanup, output_eq_some] at hit
  obtain ⟨held, notNull⟩ := hit
  rw [getElem?_map, Option.map_eq_some_iff] at held
  obtain ⟨_, here, rfl⟩ := held
  split at notNull
  · cases notNull
  · rename_i spendable
    rw [if_neg spendable]
    exact here

variable {txs : List CTransaction}

theorem CreatedBy.mono {o : COutPoint} (created : CreatedBy txs o out)
    (more : List CTransaction) : CreatedBy (txs ++ more) o out := by
  obtain ⟨tx, mem, names⟩ := created
  exact ⟨tx, mem_append_left more mem, names⟩

namespace Orderly

theorem start (nullifiers : ∀ type nf, l.nullifiers type nf = false)
    (coins : ∀ txid, l.coins txid = none) :
    Orderly [] l where
  revealed _ := .nil
  spent := .nil
  sources old tx after shape := by simp at shape
  nullifiers type nf := by simp [nullifiers, revealedNullifiers]
  outputs o out hit := by simp [output, coins] at hit

theorem append_sources (sources : SourcesBefore done)
    (now : ∀ txin ∈ spentBy tx, ∃ out, CreatedBy done txin.prevout out) :
    SourcesBefore (done ++ [tx]) := by
  intro old other after shape
  rcases eq_nil_or_concat after with rfl | ⟨rest, last, rfl⟩
  · obtain ⟨rfl, same⟩ := append_inj' shape rfl
    cases same
    exact now
  · have shape' : done ++ [tx] = (old ++ other :: rest) ++ [last] := by simpa using shape
    obtain ⟨rfl, -⟩ := append_inj' shape' rfl
    exact sources old other rest rfl

theorem connect {undo : CTxUndo} (orderly : Orderly done l) (remembers : Remembers U done l)
    (checked : tx.Checked) (unrevealed : tx.isCoinBase = false → Unrevealed tx l)
    (ran : l.connect tx nHeight = some (undo, l')) :
    Orderly (done ++ [tx]) l' := by
  obtain ⟨_, _, -, spends, -⟩ := connect_eq_some ran
  have fresh : Unrevealed tx l := by
    cases kind : tx.isCoinBase with
    | true =>
      intro type _ mem
      rw [checked.coinBase kind type] at mem
      cases mem
    | false => exact unrevealed kind
  refine ⟨?_, ?_, ?_, ?_, ?_⟩
  · intro type
    rw [revealedNullifiers, flatMap_append, flatMap_singleton, nodup_append]
    refine ⟨orderly.revealed type, checked.revealed type, ?_⟩
    rintro nf old _ new rfl
    have set := (orderly.nullifiers type nf).mpr old
    rw [fresh type nf new] at set
    cases set
  · rw [spentOutpoints, flatMap_append, flatMap_singleton, nodup_append]
    refine ⟨orderly.spent, ?_, ?_⟩
    · unfold spentBy
      split
      · exact .nil
      · exact checked.inputs
    · rintro o old _ new rfl
      obtain ⟨earlier, mem, spent⟩ := mem_flatMap.mp old
      obtain ⟨txin, belongs, rfl⟩ := mem_map.mp spent
      obtain ⟨_, belongs', same⟩ := mem_map.mp new
      apply spendAll_available spends belongs'
      rw [same]
      exact remembers.spent earlier mem txin belongs
  · apply append_sources orderly.sources
    intro _ mem
    obtain ⟨out, hit⟩ := Option.ne_none_iff_exists'.mp (spendAll_available spends mem)
    exact ⟨out, orderly.outputs _ _ hit⟩
  · intro type nf
    rw [connect_nullifiers ran, revealedNullifiers, flatMap_append, flatMap_singleton,
      mem_append]
    split
    · rename_i here
      exact ⟨fun _ => .inr here, fun _ => rfl⟩
    · rename_i notHere
      rw [orderly.nullifiers type nf]
      exact ⟨.inl, fun either => either.resolve_right notHere⟩
  · intro o out hit
    rw [connect_output ran] at hit
    split at hit
    · rename_i mine
      exact ⟨tx, by simp, mine.symm, fromTx_output hit⟩
    · split at hit
      · cases hit
      · exact (orderly.outputs o out hit).mono [tx]

theorem run {undos : List CTxUndo} (orderly : Orderly done l)
    (connects : Connects (fun tx l => tx.isCoinBase = false → Unrevealed tx l) nHeight
      txs l undos l') (remembers : Remembers U done l) (known : ∀ tx ∈ txs, tx.getHash ∈ U)
    (wellformed : Wellformed done txs) :
    Orderly (done ++ txs) l' ∧ Remembers U (done ++ txs) l' := by
  induction connects generalizing done with
  | nil l => exact ⟨by simpa using orderly, by simpa using remembers⟩
  | @cons tx _ l _ _ _ _ unrevealed first _ ih =>
    have checked := wellformed.checked tx (by simp)
    obtain ⟨-, -, next⟩ := remembers.connect (known tx (by simp)) checked
      (fun other old same => wellformed.distinct tx (by simp) other (by simp [old]) same)
      (fun isCoinBase => (wellformed.coinBase tx (by simp) isCoinBase).1) unrevealed first
    have now := orderly.connect remembers checked unrevealed first
    have last := ih now next (fun other mem => known other (by simp [mem])) wellformed.tail
    simpa using last

end Orderly

end Ledger

end Zcashd.Abstract

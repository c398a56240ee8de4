import Zcashd.Abstract.ChainLedger
import Zcashd.Abstract.SpendOrder

/-!
The transactions of a chain and the ledger after it. The genesis block's transaction is not
connected at all. A transaction that is no coinbase spends something and cannot be connected
twice; a coinbase can, once everything it created is spent, unless ids are never used again.
-/
namespace Zcashd.Abstract

open Lib Source List

/-- Neither spends nor reveals anything. -/
def Inert (tx : CTransaction) : Prop := Ledger.spentBy tx = [] ∧ ∀ type, tx.revealed type = []

namespace Ledger

/-- No nullifier is revealed and no output spent twice, and outputs are spent after they were
created. -/
structure SpendsOnce (txs : List CTransaction) : Prop where
  revealed : ∀ type, (revealedNullifiers type txs).Nodup
  spent : (spentOutpoints txs).Nodup
  sources : SourcesBefore txs

variable {first : List CTransaction} (inert : ∀ tx ∈ first, Inert tx)
include inert

theorem revealedNullifiers_inert (type : ShieldedType)
    (txs : List CTransaction) :
    revealedNullifiers type (first ++ txs) = revealedNullifiers type txs := by
  have nothing := flatMap_eq_nil_iff.mpr fun tx mem => (inert tx mem).2 type
  rw [revealedNullifiers, flatMap_append, nothing]
  rfl

theorem spentOutpoints_inert (txs : List CTransaction) :
    spentOutpoints (first ++ txs) = spentOutpoints txs := by
  have nothing : first.flatMap (fun tx => (spentBy tx).map CTxIn.prevout) = [] :=
    flatMap_eq_nil_iff.mpr fun tx mem => by rw [(inert tx mem).1, map_nil]
  rw [spentOutpoints, flatMap_append, nothing]
  rfl

theorem sourcesBefore_inert {txs : List CTransaction} (sources : SourcesBefore txs) :
    SourcesBefore (first ++ txs) := by
  induction first with
  | nil => exact sources
  | cons head _ ih =>
    have later := ih (fun tx mem => inert tx (by simp [mem]))
    intro old tx after shape
    cases old with
    | nil =>
      cases shape
      rw [(inert head (by simp)).1]
      exact nofun
    | cons _ old =>
      rw [cons_append, cons_append, cons_eq_cons] at shape
      obtain ⟨rfl, shape⟩ := shape
      intro txin mem
      obtain ⟨out, source, belongs, names⟩ := later old tx after shape txin mem
      exact ⟨out, source, mem_cons_of_mem _ belongs, names⟩

end Ledger

/-- Different transactions have different ids, and no coinbase has the id of another transaction,
not even that of an earlier copy of itself. -/
structure UniqueIds (txs : List CTransaction) : Prop where
  others : ∀ tx ∈ txs, ∀ other ∈ txs, tx.isCoinBase = false → other.isCoinBase = false →
    other.getHash = tx.getHash → other = tx
  coinbases : txs.Pairwise (fun tx other => tx.isCoinBase = true ∨ other.isCoinBase = true →
    tx.getHash ≠ other.getHash)

theorem UniqueIds.distinct {txs : List CTransaction} (unique : UniqueIds txs) :
    DistinctIds txs := by
  intro tx mem other mem' same
  by_contra ne
  have symmetric :
      Std.Symm (fun tx other : CTransaction => tx.isCoinBase = true ∨ other.isCoinBase = true →
      tx.getHash ≠ other.getHash) :=
    ⟨fun _ _ apart either equal => apart either.symm equal.symm⟩
  by_cases either : other.isCoinBase = true ∨ tx.isCoinBase = true
  · exact unique.coinbases.forall mem' mem ne either same
  · simp only [not_or, Bool.not_eq_true] at either
    exact ne (unique.others tx mem other mem' either.2 either.1 same)

variable {env : ChainEnv} {side : List CTransaction → Prop} {chain : List (CBlock × ConnectResult)}
  {l : Ledger}
  (state : ChainLedger env side chain l) (ids : ∀ txs, side txs → UniqueIds txs)
include state ids

/-- The genesis block's transaction is inert, the others were connected in order. -/
theorem ChainLedger.spends :
    ∃ first done, chainTxs chain = first ++ done ∧ (∀ tx ∈ first, Inert tx) ∧ l.Orderly done ∧
      Ledger.Remembers Set.univ done l := by
  induction state with
  | empty =>
    exact ⟨[], [], rfl, nofun, .start (fun _ _ => rfl) (fun _ => rfl),
      .start (fun _ _ => rfl)⟩
  | @genesis _ _ _ entered checked _ _ =>
    obtain ⟨coinbase, single⟩ := entered.genesisCoinBase rfl
    obtain ⟨_, _, shape, isCoinBase, -⟩ := checked.coinBase
    rw [single] at shape
    cases shape
    refine ⟨[coinbase], [], by simp [chainTxs, single], ?_, .start (fun _ _ => rfl) (fun _ => rfl),
      .start (fun _ _ => rfl)⟩
    intro tx mem
    obtain rfl := mem_singleton.mp mem
    refine ⟨by simp [Ledger.spentBy, isCoinBase], ?_⟩
    exact (checked.tx (by simp [single])).coinBase isCoinBase
  | @connect _ block _ _ f _ _ s _ l _ _ _ applied met ih =>
    obtain ⟨first, done, split, inert, orderly, remembers⟩ := ih
    have unique := ids _ met
    rw [chainTxs_cons, split] at unique ⊢
    have among : ∀ tx ∈ done ++ block.vtx, tx ∈ first ++ done ++ block.vtx := by
      intro _ _
      grind
    have own := applied.wellformed fun tx mem other mem' same =>
      unique.distinct tx (among tx (by simp [mem])) other (among other (by simp [mem'])) same
    have wellformed : Ledger.Wellformed done block.vtx := by
      refine ⟨own.checked, fun tx mem isCoinBase => ⟨?_, (own.coinBase tx mem isCoinBase).2⟩, ?_⟩
      · intro again
        have apart := (pairwise_append.mp unique.coinbases).2.2 tx (by simp [again]) tx mem
        exact apart (.inl isCoinBase) rfl
      · intro tx mem other mem' same
        exact unique.distinct tx (among tx (by simp [mem])) other (among other mem') same
    refine ⟨first, done ++ block.vtx, by rw [append_assoc], inert, ?_⟩
    exact orderly.run applied.connects remembers (fun _ _ => Set.mem_univ _) wellformed

/-- The same of all transactions of the chain. -/
theorem ChainLedger.spendsOnce : Ledger.SpendsOnce (chainTxs chain) ∧
    ∀ type nf, l.nullifiers type nf = true ↔
      nf ∈ Ledger.revealedNullifiers type (chainTxs chain) := by
  obtain ⟨_, _, split, inert, orderly, -⟩ := state.spends ids
  rw [split]
  refine ⟨⟨fun type => ?_, ?_, ?_⟩, fun type nf => ?_⟩
  · rw [Ledger.revealedNullifiers_inert inert]
    exact orderly.revealed type
  · rw [Ledger.spentOutpoints_inert inert]
    exact orderly.spent
  · exact Ledger.sourcesBefore_inert inert orderly.sources
  · rw [Ledger.revealedNullifiers_inert inert]
    exact orderly.nullifiers type nf

end Zcashd.Abstract

import Zcashd.Source.MempoolRemoval

/-!
# Removal from the memory pool

`CTxMemPool::remove` walks along the outputs that transactions of the pool spend while it erases
the map that leads it. `remove_exactly` says what is gone then: the transaction and, if asked, all
that descend from it in the pool, each listed once, with the entries of the others in the pool and
in its indexes untouched.
-/
namespace Zcashd.Guarantees.RecursiveRemoval

open Source Source.CTxMemPool AList

variable {pool : CTxMemPool} {tx : CTransaction}

/-- The loop ends for every pool whose indexes are in order and every transaction, where the id
tells the transaction. `removed` is the list the caller passes. -/
theorem remove_exactly (consistent : pool.Consistent)
    (sameTx : ∀ entry, pool.mapTx.lookup tx.hash = some entry → entry.tx = tx) (fRecursive : Bool)
    (removed : List CTransaction) :
    ∃ pool' gone, pool.remove tx fRecursive removed = some (pool', removed ++ gone) ∧
      (∀ id, id ∈ gone.map (·.hash) ↔ (id = tx.hash ∧ id ∈ pool.mapTx) ∨
        (fRecursive = true ∧ pool.Descendant tx id)) ∧
      (gone.map (·.hash)).Nodup ∧
      (∀ t ∈ gone, ∃ entry, pool.mapTx.lookup t.hash = some entry ∧ entry.tx = t) ∧
      (∀ id, pool'.mapTx.lookup id = if id ∈ gone.map (·.hash) then none
        else pool.mapTx.lookup id) ∧
      (∀ prevout, pool'.mapNextTx.lookup prevout =
        (pool.mapNextTx.lookup prevout).filter (fun inpoint => inpoint.ptx ∉ gone.map (·.hash))) ∧
      (∀ type nf, (pool'.mapNullifiers type).lookup nf =
        ((pool.mapNullifiers type).lookup nf).filter (fun id => id ∉ gone.map (·.hash))) ∧
      pool'.weightedTxTree.txIdAndWeights.Perm (pool.weightedTxTree.txIdAndWeights.filter
        (fun info => info.txId ∉ (removed ++ gone).map (·.hash))) ∧ pool'.Indexed := by
  have indexed := consistent.indexed
  obtain ⟨mid, tree, gone, ran, erased, weights, exact⟩ :=
    remove_exact indexed consistent.formed sameTx fRecursive removed
  have removal := erased.removal indexed
  refine ⟨_, gone, ran, exact, erased.nodup indexed, erased.stored indexed,
    fun id => ?_, erased.mapNextTx indexed,
    erased.mapNullifiers indexed, weights.perm consistent.formed,
      removal.indexed.withLimit mid.recentlyEvicted tree⟩
  split
  case isTrue listed =>
    rw [lookup_eq_none, removal.mem]
    exact fun both => both.2 listed
  case isFalse kept =>
    refine Option.ext fun entry => ?_
    exact (removal.kept id entry).trans (and_iff_left kept)

/-- A transaction with one output, and one that spends it. -/
def parent : CTransaction :=
  { hash := 1, fOverwintered := true, nVersion := 4, nVersionGroupId := 0x892F2085,
    vin := [⟨⟨9, 0⟩, []⟩], vout := [⟨5, []⟩],
    nExpiryHeight := 0, valueBalance := 0, vShieldedSpend := [], vShieldedOutput := [],
    vJoinSplit := [] }

def spending : CTransaction := { parent with hash := 2, vin := [⟨⟨1, 0⟩, []⟩] }

/-- A pool with both of them. -/
theorem family_held : ∃ pool : CTxMemPool, pool.Consistent ∧
    pool.mapTx.lookup 1 = some ⟨parent, 10000, 500, 700, false, 0⟩ ∧
    pool.mapTx.lookup 2 = some ⟨spending, 10000, 500, 700, false, 0⟩ := by
  let first : CTxMemPoolEntry := ⟨parent, 10000, 500, 700, false, 0⟩
  let second : CTxMemPoolEntry := ⟨spending, 10000, 500, 700, false, 0⟩
  have new : (empty 0 80000000 3600).Fresh first.tx := by
    refine ⟨by simp [empty], ?_, ?_⟩
    · intro _ _ held
      cases held
    · intro _ _ _ held
      cases held
  obtain ⟨one, added, indexed, mapTx, -⟩ := (indexed_empty 0 80000000 3600).addUnchecked new 700
  obtain ⟨_, added', ok⟩ := (consistent_empty 0 80000000 3600).addUnchecked new 700
  cases added.symm.trans added'
  have only : ∀ id entry, one.mapTx.lookup id = some entry → entry = first := by
    intro id _ held
    rw [mapTx] at held
    by_cases same : id = first.tx.hash
    · rw [same, lookup_insert] at held
      exact (Option.some.inj held).symm
    · rw [lookup_insert_ne same] at held
      cases held
  have next : one.Fresh second.tx := by
    refine ⟨by rw [mapTx, mem_insert]; decide, ?_, ?_⟩
    · intro id entry held
      rw [only id entry held]
      decide
    · intro type _ _ _ _ mem
      cases type <;> cases mem
  obtain ⟨two, added, -, mapTx', -⟩ := indexed.addUnchecked next 700
  obtain ⟨_, added', ok'⟩ := ok.addUnchecked next 700
  cases added.symm.trans added'
  refine ⟨two, ok', ?_, ?_⟩
  · rw [mapTx', lookup_insert_ne (by decide), mapTx]
    exact lookup_insert _
  · rw [mapTx']
    exact lookup_insert _

theorem remove_exactly_family : ∃ pool pool' : CTxMemPool, ∃ gone : List CTransaction,
    pool.mapTx.lookup 2 = some ⟨spending, 10000, 500, 700, false, 0⟩ ∧
    pool.remove parent true [] = some (pool', gone) ∧ 1 ∈ gone.map (·.hash) ∧
    2 ∈ gone.map (·.hash) := by
  obtain ⟨pool, consistent, one, two⟩ := family_held
  have sameTx : ∀ entry, pool.mapTx.lookup parent.hash = some entry → entry.tx = parent := by
    intro _ stored
    cases one.symm.trans stored
    rfl
  obtain ⟨pool', gone, ran, exact, -⟩ := remove_exactly consistent sameTx true []
  refine ⟨pool, pool', gone, two, ran, (exact 1).mpr (.inl ⟨rfl, ?_⟩),
    (exact 2).mpr (.inr ⟨rfl, .child ?_⟩)⟩
  · exact lookup_isSome.mp (by rw [one]; rfl)
  · exact ⟨_, two, 0, by decide, by decide⟩

end Zcashd.Guarantees.RecursiveRemoval

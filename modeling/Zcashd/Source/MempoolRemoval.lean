import Zcashd.Lib.Worklist
import Zcashd.Source.MempoolIndexes

/-!
What `CTxMemPool::remove` removes: the entries that its queue leads to along the outputs they
spend, each of them once. The entries and index entries of the others are as before.
-/
namespace Zcashd.Source.CTxMemPool

open Lib Lib.Worklist Relation List AList

variable {pool pool' : CTxMemPool} {hash : Uint256} {entry : CTxMemPoolEntry} {tx : CTransaction}
  {gone : List CTransaction}

/-- A transaction of the pool that spends an output of `tx`. -/
def Child (pool : CTxMemPool) (tx : CTransaction) (id : Uint256) : Prop :=
  ∃ entry, pool.mapTx.lookup id = some entry ∧
    ∃ i < tx.vout.length, (⟨tx.hash, i⟩ : COutPoint) ∈ prevouts entry.tx

/-- The transactions of the pool that spend an output of `tx`, directly or through others of the
pool. -/
inductive Descendant (pool : CTxMemPool) (tx : CTransaction) : Uint256 → Prop where
  | child {id : Uint256} (child : pool.Child tx id) : Descendant pool tx id
  | further {id id' : Uint256} {parent : CTxMemPoolEntry} (descendant : Descendant pool tx id)
      (stored : pool.mapTx.lookup id = some parent) (child : pool.Child parent.tx id') :
        Descendant pool tx id'

/-- One transaction of the pool spends an output of another. -/
def Spends (pool : CTxMemPool) (id id' : Uint256) : Prop :=
  ∃ parent, pool.mapTx.lookup id = some parent ∧ pool.Child parent.tx id'

variable {id : Uint256}

theorem Child.mem (child : pool.Child tx id) : id ∈ pool.mapTx := by
  obtain ⟨_, held, -⟩ := child
  exact lookup_isSome.mp (by rw [held]; rfl)

/-- The pointers of `mapNextTx` lead to the children. -/
theorem mem_spenders (indexed : pool.Indexed) {hit : List Uint256}
    (spent : pool.spenders tx.hash tx.vout.length = some hit) : id ∈ hit ↔ pool.Child tx id := by
  rw [mem_mapM spent]
  simp only [mem_filterMap, mem_range, Option.map_eq_some_iff]
  constructor
  · rintro ⟨_, ⟨i, bound, hit⟩, entry, held, rfl⟩
    have points := congrArg (Option.map CInPoint.ptx) hit
    obtain ⟨_, there, spends⟩ := (indexed.nextTx _ _).mp points
    cases held.symm.trans there
    rw [Child, indexed.key _ _ held]
    exact ⟨entry, held, i, bound, spends⟩
  · rintro ⟨entry, held, i, bound, spends⟩
    obtain ⟨inpoint, hit, rfl⟩ :=
      Option.map_eq_some_iff.mp ((indexed.nextTx _ _).mpr ⟨entry, held, spends⟩)
    exact ⟨inpoint, ⟨i, bound, hit⟩, entry, held, indexed.key _ _ held⟩

/-- One entry after the other leaves the pool. -/
inductive Erased : CTxMemPool → CTxMemPool → List CTransaction → Prop where
  | nil {pool : CTxMemPool} : Erased pool pool []
  | cons {pool pool' : CTxMemPool} {hash : Uint256} {entry : CTxMemPoolEntry}
      {gone : List CTransaction}
      (stored : pool.mapTx.lookup hash = some entry)
        (rest : Erased (pool.eraseEntry hash entry) pool' gone) :
      Erased pool pool' (entry.tx :: gone)

section

variable (erased : Erased pool pool' gone) (indexed : pool.Indexed)
include erased indexed

theorem Erased.removal : Removal pool pool' gone := by
  induction erased with
  | nil => exact .refl indexed
  | cons held _ ih => exact .cons indexed held (ih (indexed.eraseEntry held))

theorem Erased.nodup : (hashes gone).Nodup := by
  induction erased with
  | nil => exact nodup_nil
  | @cons _ _ hash entry _ held rest ih =>
    have indexed' := indexed.eraseEntry held
    rw [hashes, map_cons, nodup_cons]
    refine ⟨fun mem => ?_, ih indexed'⟩
    have inside := (rest.removal indexed').inside _ mem
    rw [CTxMemPool.eraseEntry, mem_erase] at inside
    exact inside.1 (indexed.key hash entry held)

/-- What was listed is the transaction of the entry. -/
theorem Erased.stored :
    ∀ tx ∈ gone, ∃ entry, pool.mapTx.lookup tx.hash = some entry ∧ entry.tx = tx := by
  induction erased with
  | nil => nofun
  | @cons _ _ hash entry _ held _ ih =>
    intro tx _
    have key := indexed.key hash entry held
    have old := ih (indexed.eraseEntry held) tx
    unfold CTxMemPool.eraseEntry at old
    grind

end

variable {V : Type}

/-- Erasing the terms of one document is erasing what belongs to it. -/
theorem erase_terms {K D T : Type} [DecidableEq K] [DecidableEq T] {terms : D → List T}
    {store : AList (fun _ : K => D)} {m : AList (fun _ : T => V)} {owner : V → K}
    (index : IsIndex terms store (fun t => (m.lookup t).map owner)) {key : K} {document : D}
    (held : store.lookup key = some document) {t : T} :
    (if t ∈ terms document then none else m.lookup t) =
      (m.lookup t).filter (fun v => owner v ≠ key) := by
  cases hit : m.lookup t with
  | none => simp
  | some v =>
    have owned : t ∈ terms document ↔ owner v = key := by
      have points := index t key
      simpa [hit, held] using points.symm
    by_cases mem : t ∈ terms document <;> simp [Option.filter, mem, ← owned]

variable {hit : Option V} {owner : V → Uint256}

/-- The ids of what is gone, one after the other. -/
theorem filter_gone :
    (hit.filter (fun v => owner v ≠ tx.hash)).filter (fun v => owner v ∉ hashes gone) =
      hit.filter (fun v => owner v ∉ hashes (tx :: gone)) := by
  cases hit with
  | none => rfl
  | some v =>
    by_cases here : owner v = tx.hash <;> simp [Option.filter, here, mem_hashes_cons]

theorem filter_none_gone : hit = hit.filter (fun v => owner v ∉ hashes []) := by
  cases hit <;> simp [Option.filter, hashes]

/-- The index of spent outpoints loses the inputs of what is gone, and nothing else. -/
theorem Erased.mapNextTx (erased : Erased pool pool' gone) (indexed : pool.Indexed)
    (prevout : COutPoint) :
    pool'.mapNextTx.lookup prevout = (pool.mapNextTx.lookup prevout).filter
      (fun inpoint => inpoint.ptx ∉ hashes gone) := by
  induction erased with
  | nil => exact filter_none_gone
  | @cons pool _ hash entry _ held _ ih =>
    have first : (pool.eraseEntry hash entry).mapNextTx.lookup prevout =
        (pool.mapNextTx.lookup prevout).filter (fun inpoint => inpoint.ptx ≠ hash) :=
      (lookup_foldl_erase CTxIn.prevout entry.tx.vin pool.mapNextTx prevout).trans
        (erase_terms indexed.nextTx held)
    rw [ih (indexed.eraseEntry held), first, ← indexed.key hash entry held, filter_gone]

theorem Erased.mapNullifiers (erased : Erased pool pool' gone) (indexed : pool.Indexed)
    (type : ShieldedType) (nf : Uint256) :
    (pool'.mapNullifiers type).lookup nf =
      ((pool.mapNullifiers type).lookup nf).filter (fun id => id ∉ hashes gone) := by
  induction erased with
  | nil => exact filter_none_gone
  | @cons pool _ hash entry _ held _ ih =>
    have index : IsIndex (fun entry : CTxMemPoolEntry => entry.tx.revealed type) pool.mapTx
        (fun nf => ((pool.mapNullifiers type).lookup nf).map id) := by
      simp only [Option.map_id_fun, id]
      exact indexed.nullifiers type
    have first : ((pool.eraseEntry hash entry).mapNullifiers type).lookup nf =
        ((pool.mapNullifiers type).lookup nf).filter (fun id => id ≠ hash) := by
      refine (lookup_foldl_erase id (entry.tx.revealed type) (pool.mapNullifiers type) nf).trans ?_
      rw [map_id]
      exact erase_terms index held
    rw [ih (indexed.eraseEntry held), first, ← indexed.key hash entry held]
    exact filter_gone

/-- The graph of the pool without an entry. -/
theorem without_eraseEntry :
    Without hash (· ∈ pool.mapTx) pool.Spends (· ∈ (pool.eraseEntry hash entry).mapTx)
      (pool.eraseEntry hash entry).Spends := by
  have erased : (pool.eraseEntry hash entry).mapTx = pool.mapTx.erase hash := rfl
  have lookup : ∀ id other, (pool.mapTx.erase hash).lookup id = some other ↔
      pool.mapTx.lookup id = some other ∧ id ≠ hash := by
    intro _ _
    grind
  constructor
  · intro _
    rw [erased, mem_erase, and_comm]
  · intro _ _
    simp only [Spends, Child, erased, lookup]
    grind

variable {removed removed' : List CTransaction}

/-- The loop of a recursive removal takes what its queue leads to. -/
theorem removeLoop_recursive {txToRemove : List Uint256} (indexed : pool.Indexed)
    (ran : removeLoop true txToRemove pool removed = some (pool', removed')) :
    ∃ gone, removed' = removed ++ gone ∧ Erased pool pool' gone ∧
      ∀ id, id ∈ hashes gone ↔ LedTo (· ∈ pool.mapTx) pool.Spends txToRemove id := by
  fun_induction removeLoop true txToRemove pool removed with
  | case1 _ _ =>
    cases ran
    exact ⟨[], by rw [append_nil], .nil, by simp [hashes, LedTo]⟩
  | case2 _ _ _ _ absent ih =>
    obtain ⟨gone, listed, erased, exact⟩ := ih indexed ran
    refine ⟨gone, listed, erased, fun id => ?_⟩
    rw [exact, ledTo_cons_dead (lookup_eq_none.mp absent)]
  | case3 _ _ _ _ _ _ _ => cases ran
  | case4 pool _ hash _ entry held children spent ih =>
    obtain ⟨gone, listed, erased, exact⟩ := ih (indexed.eraseEntry held) ran
    have key := indexed.key hash entry held
    have inside : hash ∈ pool.mapTx := lookup_isSome.mp (by rw [held]; rfl)
    have next : ∀ id, id ∈ children ↔ pool.Spends hash id := by
      intro _
      rw [dif_pos rfl, ← key] at spent
      rw [mem_spenders indexed spent, Spends, held]
      simp
    refine ⟨entry.tx :: gone, by rw [listed, append_assoc, singleton_append], .cons held erased,
      fun id => ?_⟩
    rw [mem_hashes_cons, exact, key, ledTo_cons_alive inside (without_eraseEntry) next]
    rintro _ ⟨_, -, child⟩
    exact child.mem

/-- Without recursion the loop takes the entry with the id. -/
theorem removeLoop_single
    (ran : removeLoop false [hash] pool removed = some (pool', removed')) :
    ∃ gone, removed' = removed ++ gone ∧ Erased pool pool' gone ∧
      (gone = [] ∧ hash ∉ pool.mapTx ∨
        ∃ entry, pool.mapTx.lookup hash = some entry ∧ gone = [entry.tx]) := by
  rw [removeLoop] at ran
  split at ran
  case h_1 absent =>
    rw [removeLoop] at ran
    cases ran
    exact ⟨[], by rw [append_nil], .nil, .inl ⟨rfl, lookup_eq_none.mp absent⟩⟩
  case h_2 entry held =>
    split at ran
    case h_1 => cases ran
    case h_2 children noChildren =>
      cases noChildren
      rw [nil_append, removeLoop] at ran
      cases ran
      exact ⟨[entry.tx], rfl, .cons held .nil, .inr ⟨entry, held, rfl⟩⟩

theorem descendant_iff : pool.Descendant tx id ↔
    ∃ child, pool.Child tx child ∧ ReflTransGen pool.Spends child id := by
  constructor
  · intro descendant
    induction descendant with
    | child child => exact ⟨_, child, .refl⟩
    | further _ held child ih =>
      obtain ⟨first, isChild, path⟩ := ih
      exact ⟨first, isChild, path.tail ⟨_, held, child⟩⟩
  · rintro ⟨_, isChild, path⟩
    induction path with
    | refl => exact .child isChild
    | tail _ next ih =>
      obtain ⟨_, held, child⟩ := next
      exact .further ih held child

/-- What a removal takes: the transaction, if it is in the pool, and if asked its descendants. -/
def Affected (pool : CTxMemPool) (tx : CTransaction) (fRecursive : Bool) (id : Uint256) : Prop :=
  (id = tx.hash ∧ id ∈ pool.mapTx) ∨ (fRecursive = true ∧ pool.Descendant tx id)

/-- The queue a recursive removal starts with leads to the transaction and its descendants. -/
theorem ledTo_start (indexed : pool.Indexed)
    (sameTx : ∀ entry, pool.mapTx.lookup tx.hash = some entry → entry.tx = tx)
    {children : List Uint256} (spent : pool.orphans tx true = some children) (id : Uint256) :
    LedTo (· ∈ pool.mapTx) pool.Spends (tx.hash :: children) id ↔ pool.Affected tx true id := by
  rw [orphans] at spent
  by_cases inside : tx.hash ∈ pool.mapTx
  · simp only [inside, decide_true, Bool.not_true, Bool.and_false, Bool.false_eq_true, if_false,
      Option.some.injEq] at spent
    subst spent
    obtain ⟨entry, held⟩ := Option.isSome_iff_exists.mp (lookup_isSome.mpr inside)
    have next : ∀ child, pool.Spends tx.hash child ↔ pool.Child tx child := by
      intro _
      rw [Spends, held]
      simp [sameTx entry held]
    simp only [LedTo, mem_singleton, exists_eq_left, Affected, true_and, descendant_iff, inside,
      ReflTransGen.cases_head_iff (a := tx.hash), next]
    grind
  · simp only [inside, decide_false, Bool.not_false, Bool.and_true, if_true] at spent
    rw [ledTo_cons_dead inside, Affected, descendant_iff]
    constructor
    · rintro ⟨child, mem, -, path⟩
      exact .inr ⟨rfl, child, (mem_spenders indexed spent).mp mem, path⟩
    · rintro (⟨rfl, mem⟩ | ⟨-, child, isChild, path⟩)
      · exact absurd mem inside
      · exact ⟨child, (mem_spenders indexed spent).mpr isChild, isChild.mem, path⟩

/-- `remove` takes exactly what is affected, and the weights of all that are listed then. -/
theorem remove_exact (indexed : pool.Indexed) (formed : pool.weightedTxTree.WellFormed)
    (sameTx : ∀ entry, pool.mapTx.lookup tx.hash = some entry → entry.tx = tx) (fRecursive : Bool)
    (removed : List CTransaction) :
    ∃ mid tree gone, pool.remove tx fRecursive removed =
      some ({ mid with weightedTxTree := tree }, removed ++ gone) ∧
      Erased pool mid gone ∧
        WeightedTxTree.RemovedAll pool.weightedTxTree (hashes (removed ++ gone)) tree ∧
      ∀ id, id ∈ hashes gone ↔ pool.Affected tx fRecursive id := by
  obtain ⟨children, spent⟩ : ∃ children, pool.orphans tx fRecursive = some children := by
    rw [orphans]
    split
    · exact indexed.spenders _ _
    · exact ⟨[], rfl⟩
  obtain ⟨mid, listed, ran, -, sameTree, -⟩ :
    ∃ mid gone, removeLoop fRecursive (tx.hash :: children) pool removed =
      some (mid, removed ++ gone) ∧ _ ∧ _ ∧ _ :=
    removeLoop_removes indexed
  obtain ⟨gone, same, erased, exact⟩ :
      ∃ gone, removed ++ listed = removed ++ gone ∧ Erased pool mid gone ∧
      ∀ id, id ∈ hashes gone ↔ pool.Affected tx fRecursive id := by
    cases fRecursive with
    | true =>
      obtain ⟨gone, same, erased, exact⟩ := removeLoop_recursive indexed ran
      exact ⟨gone, same, erased, fun id => (exact id).trans (ledTo_start indexed sameTx spent id)⟩
    | false =>
      cases spent
      obtain ⟨gone, same, erased, shape⟩ := removeLoop_single ran
      refine ⟨gone, same, erased, fun id => ?_⟩
      obtain ⟨rfl, _⟩ | ⟨_, held, rfl⟩ := shape
      · simp only [hashes, map_nil, not_mem_nil, Affected]
        grind
      · have inside : tx.hash ∈ pool.mapTx := lookup_isSome.mp (by rw [held]; rfl)
        simp only [hashes, map_singleton, mem_singleton, Affected]
        grind
  obtain ⟨tree, weights, removedAll⟩ := formed.removedAll (hashes (removed ++ gone))
  refine ⟨mid, tree, gone, ?_, erased, removedAll, exact⟩
  rw [hashes, foldlM_map] at weights
  rw [CTxMemPool.remove, spent]
  simp only [Option.bind_eq_bind, Option.bind_some, ran, sameTree, same, weights]
  rfl

end Zcashd.Source.CTxMemPool

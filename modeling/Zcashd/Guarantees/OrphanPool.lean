import Zcashd.Source.OrphanTransactions

/-!
# Orphan transactions

The index by previous transaction is exact after every sequence of calls. `EraseOrphansFor` and
`LimitOrphanTxSize` erase entries of the map they walk over. A fault of the model is an iterator
that is used after its entry was erased, and a loop that is not over after as many rounds as there
are entries, so that none of the loops does either is part of `orphan_index_exact`.
-/
namespace Zcashd.Guarantees.OrphanPool

open Source Orphans OrphanMap

/-- After any calls, and for any further call of the two functions with loops. -/
theorem orphan_index_exact (calls : List Call) :
    ∃ s : Orphans, calls.foldlM call Orphans.empty = .ok s ∧
    (∀ prev orphans, s.mapOrphanTransactionsByPrev.lookup prev = some orphans →
      orphans ≠ ∅ ∧ ∀ hash, hash ∈ orphans ↔ s.HasInput hash prev) ∧
    (∀ prev, s.mapOrphanTransactionsByPrev.lookup prev = none → ∀ hash, ¬ s.HasInput hash prev) ∧
    (∀ nMaxOrphans getRandHash, ∃ nEvicted t,
      s.limitOrphanTxSize nMaxOrphans getRandHash = .ok (nEvicted, t) ∧
      t.mapOrphanTransactions.length ≤ nMaxOrphans ∧
      t.mapOrphanTransactions.Sublist s.mapOrphanTransactions ∧
      nEvicted + t.mapOrphanTransactions.length = s.mapOrphanTransactions.length) ∧
    (∀ peer, ∃ nErased t, s.eraseOrphansFor peer = .ok (nErased, t) ∧
      t.mapOrphanTransactions = s.mapOrphanTransactions.filter
        (fun entry => entry.2.fromPeer != peer)) := by
  obtain ⟨s, ran, exact⟩ := exact_empty.calls calls
  refine ⟨s, ran, exact.indexed, exact.complete, ?_, ?_⟩
  · intro nMaxOrphans getRandHash
    obtain ⟨nEvicted, t, evicted, _, rest⟩ :=
      exact.limitLoop nMaxOrphans getRandHash (Nat.le_refl _)
    exact ⟨nEvicted, t, evicted, rest⟩
  · intro peer
    obtain ⟨nErased, t, erased, _, rest⟩ := exact.eraseOrphansFor peer
    exact ⟨nErased, t, erased, rest⟩

end Zcashd.Guarantees.OrphanPool

import Zcashd.Source.KeyPool

/-!
# Reservations of pool keys

`TopUpKeyPool` numbers new records from the last index in `setKeyPool`, and `NewKeyPool` from 1.
Neither looks at the reservations, whose indexes are out of the set while their records are
still there. As long as no call writes to the index of an outstanding reservation, keys are
handed out exclusively and every index in the set has its record. A call that does can be
followed by calls that leave an index without a record.
-/
namespace Zcashd.Guarantees.KeyReservations

open Lib Source Source.Reservations

/-- `start` is a wallet as it is loaded, with no reservations. -/
theorem reservations_exclusive {K : Type} [DecidableEq K] (newKey : Nat → K)
    (injective : Function.Injective newKey) (start : KeyPool K)
    (loaded : Sound newKey ⟨start, [], []⟩) (s : Reservations K)
    (reached : Reached (step newKey) Spares ⟨start, [], []⟩ s) :
    (s.outstanding.map Prod.snd ++ s.kept).Nodup ∧
    (∀ nIndex ∈ s.wallet.setKeyPool, nIndex ∈ s.wallet.records) ∧
    (∀ locked keypool, ∃ reservation,
      (s.wallet.reserveKeyFromKeyPool newKey locked keypool).1 = .ok reservation) ∧
    ∀ c s', s.step newKey c = some s' → ¬ s.Spares c → s'.MayUnstock newKey := by
  have sound : Sound newKey s := reached.invariant loaded fun _ _ _ sound spares taken =>
    sound.step injective spares taken
  refine ⟨sound.exclusive, sound.stored, ?_, ?_⟩
  · intro locked keypool
    obtain ⟨_, _, ⟨_, ran⟩ | ⟨_, _, _, _, ran⟩⟩ :=
      KeyPool.reserveKeyFromKeyPool_spec newKey sound.stocked locked keypool
    · exact ⟨none, by rw [ran]⟩
    · exact ⟨_, by rw [ran]⟩
  · intro c s' taken unspared
    exact unspared_unstocks sound taken unspared

/-- A new wallet. -/
def created : KeyPool Nat := ⟨∅, ∅, [], 0⟩

theorem created_sound : Sound (fun n => n) ⟨created, [], []⟩ where
  indexes := List.nodup_nil
  taken := nofun
  reserved := nofun
  stored := nofun
  distinct i j key record := by simp [created] at record
  unkept i key record := by simp [created] at record
  kept := List.nodup_nil
  recordKeys i key record := by simp [created] at record
  keptKeys := nofun
  fresh := nofun

/-- Two keys are reserved from a pool of two and a spare one; the first is kept and the second
returned, after which the pool is topped up again. -/
def exchanges : List (Call Nat) :=
  [.reserveKeyFromKeyPool false 2, .reserveKeyFromKeyPool false 2, .keepKey (1, 0),
    .returnKey (2, 1), .topUpKeyPool false 2 4, .reserveKeyFromKeyPool true 2]

theorem reservations_exclusive_exchanges :
    ∃ s, runAll (step (fun n => n)) Spares exchanges ⟨created, [], []⟩ = some s ∧
      s.outstanding = [(2, 1)] ∧ s.kept = [0] ∧ (s.outstanding.map Prod.snd ++ s.kept).Nodup := by
  have ran : ∃ s, runAll (step (fun n => n)) Spares exchanges ⟨created, [], []⟩ = some s ∧
      s.outstanding = [(2, 1)] ∧ s.kept = [0] := ⟨_, rfl, rfl, rfl⟩
  obtain ⟨s, ran, outstanding, kept⟩ := ran
  have exclusive :=
    reservations_exclusive (fun n => n) (fun _ _ same => same) created created_sound s
    (Reached.start.runAll ran)
  exact ⟨s, ran, outstanding, kept, exclusive.1⟩

/-- With `-keypool=0` two reservations are given the index 1. The second one wrote its key over
the record of the first, so when the first is returned the key of the second is handed out
again; and when the first is kept instead, the second one's index has no record any more, and a
reservation throws. -/
theorem reserved_index_written_again :
    (∃ s, [Call.reserveKeyFromKeyPool false 0, .reserveKeyFromKeyPool false 0, .returnKey (1, 0),
        .reserveKeyFromKeyPool false 0].foldlM (step (fun n => n)) ⟨created, [], []⟩ = some s ∧
      s.outstanding = [(1, 1), (1, 1)]) ∧
    ∃ s, [Call.reserveKeyFromKeyPool false 0, .reserveKeyFromKeyPool false 0, .keepKey (1, 0),
        .returnKey (1, 1)].foldlM (step (fun n => n)) ⟨created, [], []⟩ = some s ∧
      1 ∈ s.wallet.setKeyPool ∧ 1 ∉ s.wallet.records ∧
      (s.wallet.reserveKeyFromKeyPool (fun n => n) false 0).1 =
        .error "ReserveKeyFromKeyPool(): read failed" :=
  ⟨⟨_, rfl, rfl⟩, ⟨_, rfl, by decide, by decide, by rfl⟩⟩

end Zcashd.Guarantees.KeyReservations

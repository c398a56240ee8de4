import Zcashd.Source.FeeRate
import Zcashd.Source.WeightSums

/-!
# The order of fee rates

For a fee that is not negative, and for few others, `CFeeRate` is the exact quotient per 1000 bytes
rounded towards zero, and keeps the order of the quotients. Any other negative fee is divided as a
number of 64 bits without a sign: its rate is positive, and above that of every transaction that
pays nothing. So the condition on a transaction is exact.
-/
namespace Zcashd.Guarantees.FeeOrder

open Source Int

/-- The fees and sizes that the product is computed for without overflow. -/
structure InRange (nFee : Int) (nSize : Nat) : Prop where
  lower : -2 ^ 63 ≤ nFee * 1000
  upper : nFee * 1000 < 2 ^ 63
  positive : 0 < nSize

/-- Where the quotient of the numbers without a sign is that of the fee: a size of 1 takes the
product back to where it was, and one above `2 ^ 64 + nFee * 1000` makes it 0. -/
def Divides (nFee : Int) (nSize : Nat) : Prop := 0 ≤ nFee ∨ nSize = 1 ∨ 2 ^ 64 + nFee * 1000 < nSize

variable {fee₁ fee₂ : Int} {size₁ size₂ : Nat}

theorem InRange.nSatoshisPerK (inRange : InRange fee₁ size₁) : Source.nSatoshisPerK fee₁ size₁ =
    wrapInt64 ((if 0 ≤ fee₁ then fee₁ * 1000 else 2 ^ 64 + fee₁ * 1000) / size₁) := by
  obtain ⟨lower, upper, positive⟩ := inRange
  have product : wrapInt64 (fee₁ * 1000) % 2 ^ 64 = if 0 ≤ fee₁ then fee₁ * 1000
      else 2 ^ 64 + fee₁ * 1000 := by
    rw [wrapInt64_eq lower upper]
    split <;> omega
  rw [Source.nSatoshisPerK, if_pos positive, product]

/-- A quotient of numbers that are not negative is not above the number. -/
theorem wrapInt64_quotient {n : Int} (nonneg : 0 ≤ n) (upper : n < 2 ^ 63) :
    wrapInt64 (n / size₁) = n / size₁ := by
  have least : 0 ≤ n / size₁ := ediv_nonneg nonneg (natCast_nonneg _)
  have most : n / size₁ ≤ n := ediv_le_self _ nonneg
  exact wrapInt64_eq (by omega) (by omega)

theorem nSatoshisPerK_eq (inRange : InRange fee₁ size₁) (divides : Divides fee₁ size₁) :
    nSatoshisPerK fee₁ size₁ = (fee₁ * 1000).tdiv size₁ := by
  rw [inRange.nSatoshisPerK]
  obtain ⟨lower, upper, positive⟩ := inRange
  split
  · rw [wrapInt64_quotient (by omega) upper, tdiv_eq_ediv_of_nonneg (by omega)]
  · rename_i negative
    rcases divides.resolve_left negative with rfl | large
    · rw [Nat.cast_one, Int.ediv_one, Int.tdiv_one]
      simp only [wrapInt64, bmod_def]
      omega
    · rw [ediv_eq_zero_of_lt (by omega) large, ← Int.neg_neg (fee₁ * 1000), Int.neg_tdiv,
        tdiv_eq_zero_of_lt (by omega) (by omega)]
      rfl

/-- Otherwise the rate is positive. -/
theorem nSatoshisPerK_pos (inRange : InRange fee₁ size₁) (wrong : ¬ Divides fee₁ size₁) :
    0 < nSatoshisPerK fee₁ size₁ := by
  unfold Divides at wrong
  have rate := inRange.nSatoshisPerK
  obtain ⟨lower, upper, positive⟩ := inRange
  rw [if_neg (by omega)] at rate
  have least : 1 ≤ (2 ^ 64 + fee₁ * 1000) / (size₁ : Int) :=
    (Int.le_ediv_iff_mul_le (by omega)).mpr (by omega)
  have most : (2 ^ 64 + fee₁ * 1000) / (size₁ : Int) < 2 ^ 63 :=
    (Int.ediv_lt_iff_lt_mul (by omega)).mpr (by omega)
  rw [rate, wrapInt64_eq (by omega) most]
  exact least

theorem nSatoshisPerK_mono (inRange₁ : InRange fee₁ size₁) (inRange₂ : InRange fee₂ size₂)
    (divides₁ : Divides fee₁ size₁) (divides₂ : Divides fee₂ size₂)
    (less : fee₁ * size₂ ≤ fee₂ * size₁) :
    nSatoshisPerK fee₁ size₁ ≤ nSatoshisPerK fee₂ size₂ := by
  have positive₁ := Int.natCast_pos.mpr inRange₁.positive
  have positive₂ := Int.natCast_pos.mpr inRange₂.positive
  rw [nSatoshisPerK_eq inRange₁ divides₁,
    nSatoshisPerK_eq inRange₂ divides₂, ← mul_tdiv_mul_of_pos_left _ _ positive₂,
    ← mul_tdiv_mul_of_pos_left (fee₂ * 1000) _ positive₁, Int.mul_comm size₂ size₁]
  apply Int.tdiv_le_tdiv (Int.mul_pos positive₁ positive₂)
  rw [Int.mul_right_comm, Int.mul_right_comm fee₂]
  omega

variable {P : Type} [LinearOrder P]

theorem feeRate_le {front other : TxPriority P}
    (first : txPriorityCompare true front other = false) :
    other.feeRate ≤ front.feeRate := by
  unfold txPriorityCompare at first
  grind

/-- **The order of fee rates.** Between transactions that meet the condition a lower quotient has no
higher rate; one that does not ranks above every transaction that pays nothing. Nothing left in the
heap that meets the condition when a transaction that does is taken pays more than it, up to the
rounding, whatever rounds there are. -/
theorem fee_order_kept (P : Type) [LinearOrder P] :
    (∀ fee₁ size₁ fee₂ size₂, InRange fee₁ size₁ → InRange fee₂ size₂ →
      Divides fee₁ size₁ → Divides fee₂ size₂ →
      fee₁ * size₂ ≤ fee₂ * size₁ → nSatoshisPerK fee₁ size₁ ≤ nSatoshisPerK fee₂ size₂) ∧
    (∀ fee size, InRange fee size → ¬ Divides fee size → fee < 0 ∧
      ∀ size', nSatoshisPerK 0 size' < nSatoshisPerK fee size) ∧
    ∀ (vecPriority : List (TxPriority P)) taken, FeeSorted vecPriority taken →
      ∀ round ∈ taken, ∀ other ∈ round.2,
      InRange other.nFee other.nTxSize → InRange round.1.nFee round.1.nTxSize →
      Divides other.nFee other.nTxSize → Divides round.1.nFee round.1.nTxSize →
      (other.nFee * 1000).tdiv other.nTxSize ≤ (round.1.nFee * 1000).tdiv round.1.nTxSize := by
  refine ⟨fun _ _ _ _ => nSatoshisPerK_mono,
    fun fee size inRange wrong => ⟨?_, fun size' => ?_⟩, ?_⟩
  · exact not_le.mp fun nonneg => wrong (.inl nonneg)
  · have free : nSatoshisPerK 0 size' = 0 := by
      simp [Source.nSatoshisPerK, wrapInt64]
    rw [free]
    exact nSatoshisPerK_pos inRange wrong
  intro vecPriority taken sorted
  induction sorted with
  | stop => simp
  | take _ _ first _ ih =>
    intro round member other left inRange inRange' divides divides'
    rcases List.mem_cons.mp member with rfl | later
    · rw [← nSatoshisPerK_eq inRange divides, ← nSatoshisPerK_eq inRange' divides']
      exact feeRate_le (first other left)
    · exact ih round later other left inRange inRange' divides divides'

/-- Fees of 1 and 2 for 200 bytes, and of `-1` for one byte. -/
theorem fee_order_kept_two : nSatoshisPerK (-1) 1 ≤ nSatoshisPerK 2 200 ∧
    (1 * 1000 : Int).tdiv (200 : Nat) ≤ (2 * 1000 : Int).tdiv (200 : Nat) := by
  obtain ⟨order, _, rounds⟩ := fee_order_kept Nat
  have one : InRange 1 200 := ⟨by decide, by decide, by decide⟩
  have two : InRange 2 200 := ⟨by decide, by decide, by decide⟩
  refine ⟨order _ _ _ _ ⟨by decide, by decide, by decide⟩ two (.inr (.inl rfl)) (.inl (by decide))
    (by decide), ?_⟩
  exact rounds [⟨0, 1, 200⟩, ⟨0, 2, 200⟩] [(⟨0, 2, 200⟩, [⟨0, 1, 200⟩])]
    (.take [] (.swap ..) (by decide +kernel) (.stop _)) _ (.head _) _ (.head _) one two
      (.inl (by decide)) (.inl (by decide))

/-- A fee of `-1` for 200 bytes has a higher rate than one of a million. -/
theorem negative_fee_first : nSatoshisPerK 1000000 200 < nSatoshisPerK (-1) 200 ∧
    FeeSorted [(⟨0, -1, 200⟩ : TxPriority Nat), ⟨0, 1000000, 200⟩]
      [(⟨0, -1, 200⟩, [⟨0, 1000000, 200⟩])] :=
  ⟨by decide +kernel, .take [] (.refl _) (by decide +kernel) (.stop _)⟩

end Zcashd.Guarantees.FeeOrder

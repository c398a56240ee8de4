import Zcashd.Source.ProofOfWork

/-!
# The work of a chain

`GetBlockProof` is the quotient of `2 ^ 256` by the target plus one, although `2 ^ 256` is no
number of 256 bits: the code divides the complement of the target and adds one. `nChainWork` is the
sum of these quotients while it is below `2 ^ 256`, so it grows with every block whose target
`CheckProofOfWork` lets through. All of this is about the numbers that the limbs of the results
stand for; the loops over the limbs are in `Source.ArithUint256`.
-/
namespace Zcashd.Guarantees.ChainWork

open Source BaseUint ProofOfWork List

/-- The encoding stands for a target. -/
def Valid (nBits : UInt32) : Prop :=
  (setCompact nBits).fNegative = false ∧ (setCompact nBits).fOverflow = false ∧
    (setCompact nBits).bnTarget.toNat ≠ 0

instance (nBits : UInt32) : Decidable (Valid nBits) := inferInstanceAs (Decidable (_ ∧ _ ∧ _))

/-- The work as a number. -/
def work (nBits : UInt32) : Nat :=
  if Valid nBits then 2 ^ 256 / ((setCompact nBits).bnTarget.toNat + 1) else 0

/-- A decoded number with more than three bytes is even, so none is the largest of 256 bits. -/
theorem bnTarget_lt (nBits : UInt32) : (setCompact nBits).bnTarget.toNat + 1 < 2 ^ 256 := by
  have mantissa : nBits.toNat &&& 0x007fffff ≤ 0x007fffff := Nat.and_le_right
  unfold setCompact
  dsimp only
  split
  · have small :=
      (Nat.shiftRight_le (nBits.toNat &&& 0x007fffff) (8 * (3 - nBits.toNat >>> 24))).trans mantissa
    rw [toNat_ofUint64 (by omega)]
    omega
  · have even : 2 ∣
        ((BaseUint.ofUint64 (nBits.toNat &&& 0x007fffff)).shiftLeft
        (8 * (nBits.toNat >>> 24 - 3))).toNat := by
      rw [toNat_shiftLeft, Nat.shiftLeft_eq, Nat.dvd_mod_iff (by decide)]
      exact Dvd.dvd.mul_left (dvd_pow_self 2 (by omega)) _
    have := toNat_lt
      ((BaseUint.ofUint64 (nBits.toNat &&& 0x007fffff)).shiftLeft (8 * (nBits.toNat >>> 24 - 3)))
    omega

theorem getBlockProof_eq (nBits : UInt32) :
    ∃ proof, getBlockProof nBits = some proof ∧ proof.toNat = work nBits := by
  have bound := bnTarget_lt nBits
  unfold getBlockProof work
  by_cases valid : Valid nBits
  · obtain ⟨pos, fits, nonzero⟩ := valid
    rw [if_neg (by simp [pos, fits, equalTo_zero, nonzero]), if_pos ⟨pos, fits, nonzero⟩]
    generalize (setCompact nBits).bnTarget = t at *
    have one : (BaseUint.ofUint64 1).toNat = 1 := toNat_ofUint64 (by decide)
    have next : (t.add (.ofUint64 1)).toNat = t.toNat + 1 := by
      rw [toNat_add, one, Nat.mod_eq_of_lt bound]
    obtain ⟨quotient, divided, number⟩ :=
      divide_eq t.complement (b := t.add (.ofUint64 1)) (by omega)
    have whole : quotient.toNat + 1 = 2 ^ 256 / (t.toNat + 1) := by
      rw [number, next, toNat_complement, Nat.div_eq_sub_div (by omega) (Nat.le_of_lt bound)]
      congr 2
      omega
    have small : 2 ^ 256 / (t.toNat + 1) ≤ 2 ^ 256 / 2 := Nat.div_le_div_left (by omega) (by decide)
    refine ⟨quotient.add (.ofUint64 1), by rw [divided]; rfl, ?_⟩
    rw [toNat_add, one, whole]
    exact Nat.mod_eq_of_lt (small.trans_lt (by decide))
  · rw [if_neg valid, if_pos]
    · exact ⟨_, rfl, toNat_ofUint64 (by decide)⟩
    · have zero : (setCompact nBits).bnTarget.equalTo 0 = true ↔ _ := equalTo_zero
      unfold Valid at valid
      grind

variable {nBits : UInt32}

theorem nChainWork_append {chain : List UInt32} {old : BaseUint}
    (known : nChainWork chain = some old) :
    ∃ proof, proof.toNat = work nBits ∧ nChainWork (chain ++ [nBits]) = some (old.add proof) := by
  obtain ⟨proof, computed, number⟩ := getBlockProof_eq nBits
  refine ⟨proof, number, ?_⟩
  unfold nChainWork at known ⊢
  rw [foldlM_append, known]
  simp [computed]

/-- The sum is exact while it is below `2 ^ 256`. -/
theorem nChainWork_eq (chain : List UInt32) (fits : (chain.map work).sum < 2 ^ 256) :
    ∃ total, nChainWork chain = some total ∧ total.toNat = (chain.map work).sum := by
  induction chain using reverseRecOn with
  | nil => exact ⟨_, rfl, toNat_ofUint64 (by decide)⟩
  | append_singleton _ _ ih =>
    simp only [map_append, map_singleton, List.sum_append, sum_singleton] at fits ⊢
    obtain ⟨_, known, sum⟩ := ih (by omega)
    obtain ⟨_, number, after⟩ := nChainWork_append known
    refine ⟨_, after, ?_⟩
    rw [toNat_add, sum, number, Nat.mod_eq_of_lt fits]

theorem work_pos (valid : Valid nBits) : 0 < work nBits := by
  rw [work, if_pos valid]
  exact Nat.div_pos (Nat.le_of_lt (bnTarget_lt nBits)) (Nat.succ_pos _)

theorem valid_of_inRange {powLimit : Uint256} (passes : targetInRange powLimit nBits = true) :
    Valid nBits := by
  have zero : (setCompact nBits).bnTarget.equalTo 0 = true ↔ _ := equalTo_zero
  unfold targetInRange at passes
  unfold Valid
  grind

/-- **Chain work.** The work of a block is the exact quotient, or 0 for an encoding that stands for
no target. A block whose target is in range adds to the work of its chain while the sum is below
`2 ^ 256`, and a smaller target never gives less. -/
theorem chain_work :
    (∀ nBits, ∃ proof, getBlockProof nBits = some proof ∧ proof.toNat =
      if Valid nBits then 2 ^ 256 / ((setCompact nBits).bnTarget.toNat + 1) else 0) ∧
    (∀ (powLimit : Uint256) (chain : List UInt32) (nBits : UInt32),
      (∀ other ∈ chain ++ [nBits], targetInRange powLimit other = true) →
      ((chain ++ [nBits]).map work).sum < 2 ^ 256 →
      ∃ before after, nChainWork chain = some before ∧ nChainWork (chain ++ [nBits]) = some after ∧
        before.compareTo after < 0 ∧ before.toNat < after.toNat ∧
        after.toNat = ((chain ++ [nBits]).map work).sum) ∧
    ∀ a b proof proof', Valid a → Valid b →
      (setCompact a).bnTarget.toNat ≤ (setCompact b).bnTarget.toNat →
      getBlockProof a = some proof → getBlockProof b = some proof' →
      proof'.toNat ≤ proof.toNat := by
  refine ⟨getBlockProof_eq, fun powLimit chain nBits inRange fits => ?_, ?_⟩
  · have positive := work_pos (valid_of_inRange (inRange nBits (by simp)))
    obtain ⟨after, known', sum'⟩ := nChainWork_eq _ fits
    simp only [map_append, map_singleton, List.sum_append, sum_singleton] at fits sum' ⊢
    obtain ⟨before, known, _⟩ := nChainWork_eq chain (by omega)
    have increases : before.toNat < after.toNat := by omega
    exact ⟨before, after, known, known', compareTo_neg.mpr increases, increases, sum'⟩
  · intro a b _ _ valid valid' less computed computed'
    obtain ⟨_, same, number⟩ := getBlockProof_eq a
    obtain ⟨_, same', number'⟩ := getBlockProof_eq b
    cases computed.symm.trans same
    cases computed'.symm.trans same'
    rw [number, number', work, work, if_pos valid, if_pos valid']
    exact Nat.div_le_div_left (Nat.succ_le_succ less) (Nat.succ_pos _)

/-- Two blocks of the least work on the main network. -/
theorem chain_work_two : ∃ before after, nChainWork [0x1f07ffff] = some before ∧
    nChainWork ([0x1f07ffff] ++ [0x1f07ffff]) = some after ∧ before.toNat < after.toNat ∧
    after.toNat = 8192 + 8192 := by
  obtain ⟨powLimit, inRange⟩ : ∃ powLimit, targetInRange powLimit 0x1f07ffff = true :=
    ⟨BitVec.ofNat 256 (2 ^ 243 - 1), by decide +kernel⟩
  have least : work 0x1f07ffff = 8192 := by decide +kernel
  generalize (0x1f07ffff : UInt32) = nBits at *
  have total : (([nBits] ++ [nBits]).map work).sum = 8192 + 8192 := by simp [least]
  obtain ⟨before, after, known, known', -, increases, sum⟩ :=
    chain_work.2.1 powLimit [nBits] nBits (by simp [inRange]) (by rw [total]; norm_num)
  exact ⟨before, after, known, known', increases, sum.trans total⟩

end Zcashd.Guarantees.ChainWork

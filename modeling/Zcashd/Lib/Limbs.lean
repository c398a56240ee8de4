import Mathlib

/-!
Numbers in limbs of 32 bits, the least significant first. Limbs are a function of their position, of
which the first `n` count: `value` is their number, as a sum and by its bits.

Operators on such numbers are loops over the limbs. A round writes one of them, and
`value_update` says what that does to the number; shifts are compared bit by bit.
-/
namespace Zcashd.Lib.Limbs

open Function

def value (pn : Nat → BitVec 32) : Nat → Nat
  | 0 => 0
  | n + 1 => value pn n + (pn n).toNat * 2 ^ (32 * n)

variable {pn pn' : Nat → BitVec 32} {n i : Nat}

theorem pow_limb (n : Nat) : 2 ^ (32 * (n + 1)) = 2 ^ 32 * 2 ^ (32 * n) := by
  rw [Nat.mul_succ, Nat.pow_add, Nat.mul_comm]

theorem value_congr (same : ∀ i < n, pn i = pn' i) : value pn n = value pn' n := by
  induction n with
  | zero => rfl
  | succ n ih => rw [value, value, ih fun i below => same i (by omega), same n (by omega)]

theorem value_lt (pn : Nat → BitVec 32) (n : Nat) : value pn n < 2 ^ (32 * n) := by
  induction n with
  | zero => exact Nat.one_pos
  | succ n ih =>
    have limb : ((pn n).toNat + 1) * 2 ^ (32 * n) ≤ 2 ^ 32 * 2 ^ (32 * n) :=
      Nat.mul_le_mul_right _ (pn n).isLt
    rw [value, pow_limb]
    rw [Nat.succ_mul] at limb
    omega

theorem value_update (x : BitVec 32) (inside : i < n) :
    value (update pn i x) n + (pn i).toNat * 2 ^ (32 * i) =
      value pn n + x.toNat * 2 ^ (32 * i) := by
  induction n with
  | zero => omega
  | succ n ih =>
    rw [value, value]
    rcases Nat.lt_succ_iff_lt_or_eq.mp inside with below | rfl
    · rw [update_of_ne (by omega)]
      have := ih below
      omega
    · have lower : value (update pn i x) i = value pn i :=
        value_congr fun j below => update_of_ne (by omega) ..
      rw [update_self, lower]
      omega

theorem testBit_value (pn : Nat → BitVec 32) (n i : Nat) :
    (value pn n).testBit i = (decide (i < 32 * n) && (pn (i / 32)).getLsbD (i % 32)) := by
  induction n with
  | zero => simp [value]
  | succ n ih =>
    rw [value, Nat.add_comm, Nat.mul_comm, Nat.testBit_two_pow_mul_add _ (value_lt pn n)]
    by_cases below : i < 32 * n
    · rw [if_pos below, ih]
      simp [below, Nat.lt_of_lt_of_le below (Nat.mul_le_mul_left 32 (Nat.le_succ n))]
    rw [if_neg below]
    by_cases here : i < 32 * (n + 1)
    · have limb : i / 32 = n := by omega
      have bit : i - 32 * n = i % 32 := by omega
      simp [here, limb, bit, BitVec.getLsbD]
    · simp only [here, decide_false, Bool.false_and]
      exact BitVec.getLsbD_of_ge _ _ (by omega)

theorem value_eq_of_bits {m : Nat} (below : m < 2 ^ (32 * n))
    (bits : ∀ i < 32 * n, (pn (i / 32)).getLsbD (i % 32) = m.testBit i) : value pn n = m := by
  apply Nat.eq_of_testBit_eq
  intro i
  rw [testBit_value]
  by_cases inside : i < 32 * n
  · simp [inside, bits i inside]
  · simp only [inside, decide_false, Bool.false_and]
    exact (Nat.testBit_lt_two_pow
      (below.trans_le (Nat.pow_le_pow_right (by decide) (by omega)))).symm

end Zcashd.Lib.Limbs

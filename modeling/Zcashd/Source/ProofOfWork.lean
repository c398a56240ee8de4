import Zcashd.Source.ArithUint256

/-!
The work of a block (`src/pow.cpp:134-166`), with the division and the compact encoding of targets
it rests on (`src/arith_uint256.cpp:83-107, 203-228`), over the limbs of `base_uint<256>`. `none` is
the exception of a division by zero.
-/
namespace Zcashd.Source.ProofOfWork

open BaseUint

/-- The loop of `operator/=`, with the `shift + 1` rounds it has to go. -/
def divLoop (div num quotient : BaseUint) : Nat → BaseUint
  | 0 => quotient
  | shift + 1 =>
    if 0 ≤ num.compareTo div then
      divLoop (div.shiftRight 1) (num.sub div) (quotient.setBit shift) shift
    else divLoop (div.shiftRight 1) num quotient shift

/-- `operator/=`. -/
def divide (num b : BaseUint) : Option BaseUint :=
  let num_bits := num.bits
  let div_bits := b.bits
  if div_bits = 0 then none
  else if num_bits < div_bits then some (.ofUint64 0)
  else
    let shift := num_bits - div_bits
    some (divLoop (b.shiftLeft shift) num (.ofUint64 0) (shift + 1))

/-- What `SetCompact` decodes. -/
structure Compact where
  bnTarget : BaseUint
  fNegative : Bool
  fOverflow : Bool

def setCompact (nCompact : UInt32) : Compact :=
  let nSize := nCompact.toNat >>> 24
  let mantissa := nCompact.toNat &&& 0x007fffff
  let nWord := if nSize ≤ 3 then mantissa >>> (8 * (3 - nSize)) else mantissa
  { bnTarget := if nSize ≤ 3 then .ofUint64 nWord
      else (BaseUint.ofUint64 nWord).shiftLeft (8 * (nSize - 3))
    fNegative := nWord != 0 && nCompact.toNat &&& 0x00800000 != 0
    fOverflow :=
      nWord != 0 && (decide (34 < nSize) || decide (0xff < nWord) && decide (33 < nSize) ||
      decide (0xffff < nWord) && decide (32 < nSize)) }

/-- The range test of `CheckProofOfWork`. -/
def targetInRange (powLimit : Uint256) (nBits : UInt32) : Bool :=
  let target := setCompact nBits
  !(target.fNegative || target.bnTarget.equalTo 0 || target.fOverflow ||
    decide (0 < target.bnTarget.compareTo (ofUint256 powLimit)))

def checkProofOfWork (hash : Uint256) (nBits : UInt32) (powLimit : Uint256) : Bool :=
  targetInRange powLimit nBits &&
    !decide (0 < (ofUint256 hash).compareTo (setCompact nBits).bnTarget)

def getBlockProof (nBits : UInt32) : Option BaseUint :=
  let target := setCompact nBits
  if target.fNegative || target.fOverflow || target.bnTarget.equalTo 0 then some (.ofUint64 0)
  else (divide target.bnTarget.complement (target.bnTarget.add (.ofUint64 1))).map
    (·.add (.ofUint64 1))

/-- `nChainWork` of the last of the blocks that `AddToBlockIndex` made entries for. -/
def nChainWork (chain : List UInt32) : Option BaseUint :=
  chain.foldlM (fun nChainWork nBits => (getBlockProof nBits).map nChainWork.add) (.ofUint64 0)

/-- What is left of the number is below the divisor at the last position, and the bits of the
quotient from the position on are set. -/
theorem divLoop_spec {d q rounds : Nat} {div num quotient : BaseUint} (room : rounds ≤ 256)
    (aligned : rounds ≠ 0 → 2 * div.toNat = d * 2 ^ rounds) (less : num.toNat < d * 2 ^ rounds)
    (multiple : quotient.toNat = 2 ^ rounds * q) :
    (divLoop div num quotient rounds).toNat = 2 ^ rounds * q + num.toNat / d := by
  induction rounds generalizing q div num quotient with
  | zero =>
    rw [Nat.pow_zero, Nat.mul_one] at less
    rw [divLoop, multiple, Nat.div_eq_of_lt less, Nat.add_zero]
  | succ shift ih =>
    have double : 2 ^ (shift + 1) = 2 * 2 ^ shift := Nat.pow_succ'
    have here : div.toNat = d * 2 ^ shift := by
      have := aligned (Nat.succ_ne_zero shift)
      rw [double, Nat.mul_left_comm] at this
      omega
    have next : shift ≠ 0 → 2 * (div.shiftRight 1).toNat = d * 2 ^ shift := by
      intro more
      obtain ⟨_, rfl⟩ := Nat.exists_eq_succ_of_ne_zero more
      rw [toNat_shiftRight, Nat.shiftRight_eq_div_pow, here, Nat.pow_succ, ← Nat.mul_assoc]
      omega
    rw [double, Nat.mul_assoc, Nat.mul_left_comm] at multiple ⊢
    rw [divLoop]
    split
    · rename_i fits
      have within : d * 2 ^ shift ≤ num.toNat := by
        rw [← here]
        exact not_lt.mp (compareTo_neg.not.mp (not_lt.mpr fits))
      have rest : (num.sub div).toNat = num.toNat - d * 2 ^ shift := by
        rw [toNat_sub (here ▸ within), here]
      have set : (quotient.setBit shift).toNat = 2 ^ shift * (2 * q + 1) := by
        rw [toNat_setBit (by omega), multiple, ← Nat.mul_assoc, ← Nat.pow_succ,
          ← Nat.two_pow_add_eq_or_of_lt (Nat.pow_lt_pow_right (by decide) (Nat.lt_succ_self shift)),
            Nat.pow_succ]
        ring
      rw [ih (by omega) next (by rw [rest]; rw [double, Nat.mul_left_comm] at less; omega) set,
        rest, Nat.sub_mul_div]
      have : 2 ^ shift ≤ num.toNat / d := by
        rw [Nat.le_div_iff_mul_le, Nat.mul_comm]
        · exact within
        · exact Nat.pos_of_lt_mul_right less
      rw [Nat.mul_add]
      omega
    · rename_i above
      have small : num.toNat < d * 2 ^ shift := by
        rw [← here]
        exact compareTo_neg.mp (not_le.mp above)
      exact ih (by omega) next small multiple

theorem divide_eq (num : BaseUint) {b : BaseUint} (positive : 0 < b.toNat) :
    ∃ quotient, divide num b = some quotient ∧ quotient.toNat = num.toNat / b.toNat := by
  have numUpper := Nat.lt_size_self num.toNat
  have numSize : num.toNat.size ≤ 256 := Nat.size_le.mpr num.toNat_lt
  have upper := Nat.lt_size_self b.toNat
  obtain ⟨top, size⟩ := Nat.exists_eq_succ_of_ne_zero (Nat.size_pos.mpr positive).ne'
  have lower : 2 ^ b.toNat.size ≤ 2 * b.toNat := by
    have : 2 ^ top ≤ b.toNat := Nat.lt_size.mp (by omega)
    rw [size, Nat.pow_succ']
    omega
  simp only [divide, bits_eq]
  rw [if_neg (by omega)]
  split
  · rename_i shorter
    have less : num.toNat < b.toNat := by
      by_contra above
      exact absurd (Nat.size_le_size (Nat.not_lt.mp above)) (Nat.not_le.mpr shorter)
    exact ⟨_, rfl, (Nat.div_eq_of_lt less).symm ▸ toNat_ofUint64 (by decide)⟩
  · obtain ⟨shift, length⟩ := Nat.exists_eq_add_of_le (Nat.le_of_not_lt ‹_›)
    have whole : 2 ^ num.toNat.size = 2 ^ b.toNat.size * 2 ^ shift := by rw [length, Nat.pow_add]
    have shifted : (b.shiftLeft shift).toNat = b.toNat * 2 ^ shift := by
      rw [toNat_shiftLeft, Nat.shiftLeft_eq, Nat.mod_eq_of_lt]
      calc b.toNat * 2 ^ shift < 2 ^ b.toNat.size * 2 ^ shift :=
        Nat.mul_lt_mul_of_pos_right upper (Nat.two_pow_pos shift)
        _ ≤ 2 ^ 256 := whole ▸ Nat.pow_le_pow_right (by decide) numSize
    have zero : (BaseUint.ofUint64 0).toNat = 2 ^ (shift + 1) * 0 := toNat_ofUint64 (by decide)
    refine ⟨_, rfl, ?_⟩
    have less := calc num.toNat < 2 ^ b.toNat.size * 2 ^ shift := whole ▸ numUpper
        _ ≤ 2 * b.toNat * 2 ^ shift := Nat.mul_le_mul_right _ lower
        _ = b.toNat * 2 ^ (shift + 1) := by ring
    rw [length, Nat.add_sub_cancel_left,
      divLoop_spec (by omega) (fun _ => by rw [shifted]; ring) less zero]
    simp

end Zcashd.Source.ProofOfWork

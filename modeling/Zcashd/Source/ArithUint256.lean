import Zcashd.Lib.Limbs
import Zcashd.Source.Primitives

/-!
The numbers of 256 bits that work and targets are computed with (`src/arith_uint256.h`,
`src/arith_uint256.cpp:21-52, 83-132, 170-184`): `base_uint<256>` has eight limbs of 32 bits, and
each operator is a loop over them. The loops come first, over limbs given by their position, with
one lemma each that says what the loop does to the number; the operators on the eight limbs follow.

Left out are the operators that nothing here uses: multiplication, the bitwise operators with a
second number, decrement, and the conversions to text and to `double`.
-/
namespace Zcashd.Source

open Lib Limbs Function BitVec

/-- `base_uint<256>`. -/
structure BaseUint where
  pn : Vector (BitVec 32) 8

namespace BaseUint

/-! The loops over the limbs -/

variable (a b pn : Nat → BitVec 32)

/-- `carry` before limb `i`; it is at most 1, so that `n` is far from the end of a `uint64_t`. -/
def carry : Nat → Nat
  | 0 => 0
  | i + 1 => (carry i + (a i).toNat + (b i).toNat) >>> 32

/-- The limbs after the loop of `operator+=`. -/
def sum (i : Nat) : BitVec 32 :=
  .ofNat 32 ((carry a b i + (a i).toNat + (b i).toNat) &&& 0xffffffff)

/-- The loop of `operator++`, from limb `i` on with so many limbs left. -/
def increment (pn : Nat → BitVec 32) (i : Nat) : Nat → Nat → BitVec 32
  | 0 => pn
  | left + 1 =>
    if pn i + 1 = 0 then increment (update pn i (pn i + 1)) (i + 1) left else update pn i (pn i + 1)

/-- `pn[i] |= x`. -/
def orAt (pn : Nat → BitVec 32) (i : Nat) (x : BitVec 32) : Nat → BitVec 32 :=
  update pn i (pn i ||| x)

/-- The loop of `operator<<=`, after `i` rounds. -/
def shiftLeftLoop (width k shift : Nat) : Nat → Nat → BitVec 32
  | 0 => 0
  | i + 1 =>
    let pn := shiftLeftLoop width k shift i
    let pn := if i + k + 1 < width ∧ shift ≠ 0 then orAt pn (i + k + 1) (a i >>> (32 - shift))
      else pn
    if i + k < width then orAt pn (i + k) (a i <<< shift) else pn

/-- The loop of `operator>>=`, after `i` rounds. -/
def shiftRightLoop (k shift : Nat) : Nat → Nat → BitVec 32
  | 0 => 0
  | i + 1 =>
    let pn := shiftRightLoop k shift i
    let pn := if i ≥ k + 1 ∧ shift ≠ 0 then orAt pn (i - k - 1) (a i <<< (32 - shift)) else pn
    if i ≥ k then orAt pn (i - k) (a i >>> shift) else pn

/-- The loop of `CompareTo`, with the limbs below `i` left. -/
def compareLoop : Nat → Int
  | 0 => 0
  | i + 1 => if a i < b i then -1 else if b i < a i then 1 else compareLoop i

/-- The loop of `EqualTo`, with the limbs from 2 to below `i + 2` left. -/
def equalLoop (n : Nat) : Nat → Bool
  | 0 => pn 1 == .ofNat 32 (n >>> 32) && pn 0 == .ofNat 32 (n &&& 0xffffffff)
  | i + 1 => if pn (i + 2) ≠ 0 then false else equalLoop n i

/-- The inner loop of `bits()`: the bits from the given one down to bit 1. -/
def limbBits (limb : BitVec 32) : Nat → Nat
  | 0 => 1
  | bits + 1 => if limb.getLsbD (bits + 1) then bits + 2 else limbBits limb bits

/-- The outer loop of `bits()`, with the limbs below `pos` left. -/
def bitsLoop : Nat → Nat
  | 0 => 0
  | pos + 1 => if pn pos ≠ 0 then 32 * pos + limbBits (pn pos) 31 else bitsLoop pos

variable {a b pn} {n : Nat}

theorem toNat_low (m : Nat) : (BitVec.ofNat 32 (m &&& 0xffffffff)).toNat = m % 2 ^ 32 := by
  rw [toNat_ofNat, show 0xffffffff = 2 ^ 32 - 1 from rfl, Nat.and_two_pow_sub_one_eq_mod,
    Nat.mod_mod]

theorem value_sum : value (sum a b) n + carry a b n * 2 ^ (32 * n) = value a n + value b n := by
  induction n with
  | zero => rfl
  | succ n ih =>
    have limb := Nat.mod_add_div (carry a b n + (a n).toNat + (b n).toNat) (2 ^ 32)
    have low : (sum a b n).toNat = (carry a b n + (a n).toNat + (b n).toNat) % 2 ^ 32 :=
      toNat_low _
    have high : carry a b (n + 1) = (carry a b n + (a n).toNat + (b n).toNat) / 2 ^ 32 :=
      Nat.shiftRight_eq_div_pow ..
    rw [value, value, value, low, high, pow_limb]
    generalize (carry a b n + (a n).toNat + (b n).toNat) / 2 ^ 32 = q at *
    generalize (carry a b n + (a n).toNat + (b n).toNat) % 2 ^ 32 = r at *
    generalize 2 ^ (32 * n) = p at *
    have := congrArg (· * p) limb
    simp only [Nat.add_mul] at this
    rw [← Nat.mul_assoc, Nat.mul_comm q]
    omega

theorem value_complement : value (fun i => ~~~pn i) n + value pn n + 1 = 2 ^ (32 * n) := by
  induction n with
  | zero => rfl
  | succ n ih =>
    have limb : (~~~pn n).toNat + (pn n).toNat + 1 = 2 ^ 32 := by
      rw [toNat_not]
      have := (pn n).isLt
      omega
    rw [value, value, pow_limb, ← limb, Nat.add_mul, Nat.add_mul]
    omega

theorem value_increment (pn : Nat → BitVec 32) (i left : Nat) :
    value (increment pn i left) (i + left) =
      (value pn (i + left) + 2 ^ (32 * i)) % 2 ^ (32 * (i + left)) := by
  induction left generalizing pn i with
  | zero =>
    rw [Nat.add_zero, Nat.add_mod_right, Nat.mod_eq_of_lt (value_lt pn i)]
    rfl
  | succ left ih =>
    have written : value (update pn i _) _ + _ = _ :=
      value_update (pn i + 1) (by omega : i < i + (left + 1))
    rw [increment]
    split
    · rename_i zero
      have limb : (pn i).toNat + 1 = 2 ^ 32 := by bv_omega
      have next := ih (update pn i (pn i + 1)) (i + 1)
      rw [Nat.add_right_comm, Nat.add_assoc] at next
      have same : value (update pn i (pn i + 1)) (i + (left + 1)) + 2 ^ (32 * (i + 1)) =
          value pn (i + (left + 1)) + 2 ^ (32 * i) := by
        rw [pow_limb, ← limb, Nat.add_mul, Nat.one_mul, ← Nat.add_assoc, written, zero]
        simp
      rw [next, same]
    · rename_i nonzero
      have limb : (pn i + 1).toNat = (pn i).toNat + 1 := by bv_omega
      have below := value_lt (update pn i (pn i + 1)) (i + (left + 1))
      have same : value (update pn i (pn i + 1)) (i + (left + 1)) =
          value pn (i + (left + 1)) + 2 ^ (32 * i) := by
        rw [limb, Nat.add_mul, Nat.one_mul] at written
        omega
      rw [← same, Nat.mod_eq_of_lt below]

theorem compareLoop_spec : (compareLoop a b n < 0 ↔ value a n < value b n) ∧
    (0 < compareLoop a b n ↔ value b n < value a n) := by
  induction n with
  | zero => simp [compareLoop, value]
  | succ n ih =>
    have first := value_lt a n
    have second := value_lt b n
    rw [compareLoop, value, value]
    split
    · rename_i less
      have : ((a n).toNat + 1) * 2 ^ (32 * n) ≤ (b n).toNat * 2 ^ (32 * n) :=
        Nat.mul_le_mul_right _ less
      rw [Nat.succ_mul] at this
      omega
    split
    · rename_i less
      have : ((b n).toNat + 1) * 2 ^ (32 * n) ≤ (a n).toNat * 2 ^ (32 * n) :=
        Nat.mul_le_mul_right _ less
      rw [Nat.succ_mul] at this
      omega
    · rename_i above below
      have same : a n = b n := BitVec.le_antisymm (BitVec.not_lt.mp below) (BitVec.not_lt.mp above)
      rw [same]
      omega

theorem equalLoop_spec {m i : Nat} (below : m < 2 ^ 64) :
    equalLoop pn m i = true ↔ value pn (i + 2) = m := by
  induction i with
  | zero =>
    have high : (BitVec.ofNat 32 (m >>> 32)).toNat = m / 2 ^ 32 := by
      rw [toNat_ofNat, Nat.shiftRight_eq_div_pow]
      omega
    simp only [equalLoop, Bool.and_eq_true, beq_iff_eq, value, ← toNat_inj, toNat_low, high]
    omega
  | succ i ih =>
    rw [equalLoop]
    split
    · rename_i nonzero
      have limb : 1 ≤ (pn (i + 2)).toNat := by bv_omega
      have large : 2 ^ 64 ≤ (pn (i + 2)).toNat * 2 ^ (32 * (i + 2)) :=
        (Nat.pow_le_pow_right (by decide) (by omega)).trans (Nat.le_mul_of_pos_left _ limb)
      have whole : value pn (i + 2 + 1) =
          value pn (i + 2) + (pn (i + 2)).toNat * 2 ^ (32 * (i + 2)) := rfl
      rw [Nat.add_right_comm, whole]
      simp only [Bool.false_eq_true, false_iff]
      omega
    · rename_i zero
      have whole : value pn (i + 2 + 1) = value pn (i + 2) + (pn (i + 2)).toNat * _ := rfl
      rw [ih, Nat.add_right_comm, whole, not_not.mp zero]
      simp

theorem size_eq {m k : Nat} (lower : 2 ^ k ≤ m) (upper : m < 2 ^ (k + 1)) : m.size = k + 1 :=
  Nat.le_antisymm (Nat.size_le.mpr upper) (Nat.lt_size.mpr lower)

theorem limbBits_eq {limb : BitVec 32} {m : Nat} (nonzero : limb ≠ 0)
    (below : limb.toNat < 2 ^ (m + 1)) :
    limbBits limb m = limb.toNat.size := by
  induction m with
  | zero =>
    have one : limb.toNat = 1 := by bv_omega
    rw [one]
    rfl
  | succ m ih =>
    rw [limbBits]
    split
    · rename_i set
      exact (size_eq (Nat.ge_two_pow_of_testBit set) below).symm
    · rename_i clear
      apply ih
      apply Nat.lt_pow_two_of_testBit
      intro i above
      rcases Nat.eq_or_lt_of_le above with rfl | higher
      · exact Bool.eq_false_of_not_eq_true clear
      · exact Nat.testBit_lt_two_pow (below.trans_le (Nat.pow_le_pow_right (by decide) higher))

theorem bitsLoop_eq : bitsLoop pn n = (value pn n).size := by
  induction n with
  | zero => rfl
  | succ pos ih =>
    rw [bitsLoop, value]
    split
    · rename_i nonzero
      obtain ⟨t, size⟩ := Nat.exists_eq_succ_of_ne_zero
        (Nat.size_eq_zero.not.mpr fun zero => nonzero (eq_of_toNat_eq zero))
      have lower : 2 ^ t ≤ (pn pos).toNat := Nat.lt_size.mp (by omega)
      have upper : (pn pos).toNat + 1 ≤ 2 ^ (t + 1) := Nat.size_le.mp size.le
      have low := value_lt pn pos
      rw [limbBits_eq nonzero (pn pos).isLt, size, Nat.add_succ]
      refine (size_eq ?_ ?_).symm
      · rw [Nat.add_comm, Nat.pow_add]
        exact (Nat.mul_le_mul_right _ lower).trans (Nat.le_add_left ..)
      · have whole := Nat.mul_le_mul_right (2 ^ (32 * pos)) upper
        rw [Nat.add_assoc, Nat.add_comm (32 * pos), Nat.pow_add 2 (t + 1)]
        rw [Nat.succ_mul] at whole
        omega
    · rename_i zero
      rw [ih, not_not.mp zero]
      simp

theorem getLsbD_orAt {c : Prop} [Decidable c] {pn : Nat → BitVec 32} {i j t : Nat} {x : BitVec 32} :
    ((if c then orAt pn i x else pn) j).getLsbD t = true ↔
      (pn j).getLsbD t = true ∨ (c ∧ j = i) ∧ x.getLsbD t = true := by
  unfold orAt
  split
  · by_cases here : j = i <;> simp_all
  · simp_all

/-- What the rounds of a loop add up to. -/
theorem exists_round {f x : Nat → Prop} (start : ¬ f 0)
    (round : ∀ i, f (i + 1) ↔ f i ∨ x i) (n : Nat) :
    f n ↔ ∃ i < n, x i := by
  induction n with
  | zero => simp [start]
  | succ n ih => rw [round, ih, Nat.exists_lt_succ_right]

theorem value_shiftLeftLoop (shift : Nat) :
    value (shiftLeftLoop a n (shift / 32) (shift % 32) n) n =
      value a n <<< shift % 2 ^ (32 * n) := by
  apply value_eq_of_bits (Nat.mod_lt _ (Nat.two_pow_pos _))
  intro p inside
  have rounds := exists_round
    (f := fun i => (shiftLeftLoop a n (shift / 32) (shift % 32) i (p / 32)).getLsbD (p % 32) = true)
      (by simp [shiftLeftLoop])
    (fun i => by rw [shiftLeftLoop, getLsbD_orAt, getLsbD_orAt]; exact or_assoc) n
  rw [Bool.eq_iff_iff, rounds]
  simp only [Nat.testBit_mod_two_pow, Nat.testBit_shiftLeft, testBit_value, inside,
    show p - shift < 32 * n by omega, getLsbD_ushiftRight, getLsbD_shiftLeft, Bool.and_eq_true,
    decide_true, Bool.true_and, decide_eq_true_eq, Bool.not_eq_true', decide_eq_false_iff_not]
  constructor
  · rintro ⟨i, below, ⟨here, high⟩ | ⟨here, low, set⟩⟩
    · have := lt_of_getLsbD high
      have source : (p - shift) / 32 = i ∧ (p - shift) % 32 = 32 - shift % 32 + p % 32 := by omega
      exact ⟨by omega, by rw [source.1, source.2]; exact high⟩
    · have source : (p - shift) / 32 = i ∧ (p - shift) % 32 = p % 32 - shift % 32 := by omega
      exact ⟨by omega, by rw [source.1, source.2]; exact set⟩
  · rintro ⟨reached, set⟩
    refine ⟨(p - shift) / 32, by omega, ?_⟩
    by_cases low : shift % 32 ≤ p % 32
    · have source : (p - shift) % 32 = p % 32 - shift % 32 := by omega
      rw [source] at set
      exact .inr ⟨by omega, ⟨by omega, by omega⟩, set⟩
    · have source : (p - shift) % 32 = 32 - shift % 32 + p % 32 := by omega
      rw [source] at set
      exact .inl ⟨by omega, set⟩

theorem value_shiftRightLoop (shift : Nat) :
    value (shiftRightLoop a (shift / 32) (shift % 32) n) n = value a n >>> shift := by
  have small := value_lt a n
  apply value_eq_of_bits ((Nat.shiftRight_le ..).trans_lt small)
  intro p inside
  have rounds := exists_round
    (f := fun i => (shiftRightLoop a (shift / 32) (shift % 32) i (p / 32)).getLsbD (p % 32) = true)
      (by simp [shiftRightLoop])
    (fun i => by rw [shiftRightLoop, getLsbD_orAt, getLsbD_orAt]; exact or_assoc) n
  rw [Bool.eq_iff_iff, rounds]
  simp only [Nat.testBit_shiftRight, testBit_value, getLsbD_ushiftRight, getLsbD_shiftLeft,
    Bool.and_eq_true, decide_eq_true_eq, Bool.not_eq_true', decide_eq_false_iff_not]
  constructor
  · rintro ⟨i, below, ⟨here, high, set⟩ | ⟨here, low⟩⟩
    · have source : (shift + p) / 32 = i ∧ (shift + p) % 32 = p % 32 - (32 - shift % 32) := by omega
      exact ⟨by omega, by rw [source.1, source.2]; exact set⟩
    · have := lt_of_getLsbD low
      have source : (shift + p) / 32 = i ∧ (shift + p) % 32 = shift % 32 + p % 32 := by omega
      exact ⟨by omega, by rw [source.1, source.2]; exact low⟩
  · rintro ⟨reached, set⟩
    refine ⟨(shift + p) / 32, by omega, ?_⟩
    by_cases low : shift % 32 + p % 32 < 32
    · have source : (shift + p) % 32 = shift % 32 + p % 32 := by omega
      rw [source] at set
      exact .inr ⟨by omega, set⟩
    · have source : (shift + p) % 32 = p % 32 - (32 - shift % 32) := by omega
      rw [source] at set
      exact .inl ⟨by omega, ⟨by omega, by omega⟩, set⟩

/-! The operators -/

/-- `pn[i]`. -/
def limb (x : BaseUint) (i : Nat) : BitVec 32 := x.pn[i]?.getD 0

def ofLimbs (pn : Nat → BitVec 32) : BaseUint := ⟨.ofFn fun i => pn i⟩

/-- The number that the limbs stand for. -/
def toNat (x : BaseUint) : Nat := value x.limb 8

/-- `operator=(uint64_t)`. -/
def ofUint64 (n : Nat) : BaseUint := ofLimbs fun
  | 0 => .ofNat 32 n
  | 1 => .ofNat 32 (n >>> 32)
  | _ => 0

/-- `UintToArith256`. -/
def ofUint256 (n : Uint256) : BaseUint := ofLimbs fun i => n.extractLsb' (32 * i) 32

/-- `operator~`. -/
def complement (x : BaseUint) : BaseUint := ofLimbs fun i => ~~~x.limb i

/-- `operator-` of one number. -/
def neg (x : BaseUint) : BaseUint := ofLimbs (increment x.complement.limb 0 8)

/-- `operator+=`. -/
def add (x y : BaseUint) : BaseUint := ofLimbs (sum x.limb y.limb)

/-- `operator-=`. -/
def sub (x y : BaseUint) : BaseUint := x.add y.neg

/-- `operator<<=`. -/
def shiftLeft (x : BaseUint) (shift : Nat) : BaseUint :=
  ofLimbs (shiftLeftLoop x.limb 8 (shift / 32) (shift % 32) 8)

/-- `operator>>=`. -/
def shiftRight (x : BaseUint) (shift : Nat) : BaseUint :=
  ofLimbs (shiftRightLoop x.limb (shift / 32) (shift % 32) 8)

def compareTo (x y : BaseUint) : Int := compareLoop x.limb y.limb 8

/-- `EqualTo` for a `uint64_t`. -/
def equalTo (x : BaseUint) (n : Nat) : Bool := equalLoop x.limb n 6

def bits (x : BaseUint) : Nat := bitsLoop x.limb 8

/-- `pn[shift / 32] |= (1 << (shift & 31))`. -/
def setBit (x : BaseUint) (shift : Nat) : BaseUint :=
  ofLimbs (orAt x.limb (shift / 32) (1 <<< (shift % 32)))

variable {x y : BaseUint}

theorem toNat_ofLimbs (pn : Nat → BitVec 32) : (ofLimbs pn).toNat = value pn 8 :=
  value_congr fun i inside => by simp [limb, ofLimbs, inside]

theorem toNat_lt (x : BaseUint) : x.toNat < 2 ^ 256 := value_lt x.limb 8

theorem toNat_ofUint64 {n : Nat} (fits : n < 2 ^ 64) : (ofUint64 n).toNat = n := by
  rw [ofUint64, toNat_ofLimbs]
  simp only [value, toNat_ofNat, Nat.shiftRight_eq_div_pow, show (0 : BitVec 32).toNat = 0 from rfl]
  omega

theorem toNat_ofUint256 (n : Uint256) : (ofUint256 n).toNat = n.toNat := by
  rw [ofUint256, toNat_ofLimbs]
  apply value_eq_of_bits n.isLt
  intro i _
  rw [getLsbD_extractLsb', Nat.div_add_mod]
  simp [Nat.mod_lt, testBit_toNat]

theorem toNat_complement (x : BaseUint) : x.complement.toNat = 2 ^ 256 - 1 - x.toNat := by
  have whole : value (fun i => ~~~x.limb i) 8 + _ + 1 = 2 ^ 256 := value_complement
  rw [complement, toNat_ofLimbs, toNat]
  omega

theorem toNat_add (x y : BaseUint) : (x.add y).toNat = (x.toNat + y.toNat) % 2 ^ 256 := by
  have whole : value _ 8 + _ * 2 ^ 256 = _ := value_sum (a := x.limb) (b := y.limb)
  have small : value _ 8 < 2 ^ 256 := value_lt (sum x.limb y.limb) 8
  rw [add, toNat_ofLimbs, toNat, toNat, ← whole, Nat.add_mul_mod_self_right, Nat.mod_eq_of_lt small]

theorem toNat_sub (less : y.toNat ≤ x.toNat) : (x.sub y).toNat = x.toNat - y.toNat := by
  have negated : y.neg.toNat = (2 ^ 256 - 1 - y.toNat + 1) % 2 ^ 256 := by
    rw [neg, toNat_ofLimbs, ← toNat_complement]
    exact value_increment y.complement.limb 0 8
  have := x.toNat_lt
  rw [sub, toNat_add, negated]
  omega

theorem toNat_shiftLeft (x : BaseUint) (shift : Nat) :
    (x.shiftLeft shift).toNat = x.toNat <<< shift % 2 ^ 256 := by
  rw [shiftLeft, toNat_ofLimbs]
  exact value_shiftLeftLoop shift

theorem toNat_shiftRight (x : BaseUint) (shift : Nat) :
    (x.shiftRight shift).toNat = x.toNat >>> shift := by
  rw [shiftRight, toNat_ofLimbs, value_shiftRightLoop, toNat]

theorem compareTo_neg : x.compareTo y < 0 ↔ x.toNat < y.toNat := compareLoop_spec.1

theorem compareTo_pos : 0 < x.compareTo y ↔ y.toNat < x.toNat := compareLoop_spec.2

theorem equalTo_zero : x.equalTo 0 = true ↔ x.toNat = 0 := equalLoop_spec (by decide)

theorem bits_eq (x : BaseUint) : x.bits = x.toNat.size := bitsLoop_eq

theorem toNat_setBit {shift : Nat} (inside : shift < 256) :
    (x.setBit shift).toNat = x.toNat ||| 2 ^ shift := by
  rw [setBit, toNat_ofLimbs]
  apply value_eq_of_bits (Nat.or_lt_two_pow x.toNat_lt (Nat.pow_lt_pow_right (by decide) inside))
  intro i below
  have written : ((if True then orAt x.limb (shift / 32) (twoPow 32 (shift % 32)) else x.limb)
      (i / 32)).getLsbD (i % 32) = true ↔ _ := getLsbD_orAt
  rw [if_pos trivial, getLsbD_twoPow] at written
  have bit : x.toNat.testBit i = (x.limb (i / 32)).getLsbD (i % 32) := by
    rw [toNat, testBit_value]
    simp [below]
  rw [Bool.eq_iff_iff, Nat.testBit_or, bit, Bool.or_eq_true, Nat.testBit_two_pow]
  refine written.trans (or_congr_right ?_)
  simp only [true_and, Bool.and_eq_true, decide_eq_true_eq]
  omega

end BaseUint

end Zcashd.Source

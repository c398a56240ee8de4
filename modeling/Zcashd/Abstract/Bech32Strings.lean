import Zcashd.Source.Bech32
import Zcashd.Lib.OptionLoops

/-!
# Bech32 strings

The checksum: a round of `PolyMod` is linear in what it reads, so of all groups of six symbols
behind a string exactly one makes the checksum right, the one `CreateChecksum` computes. A string
that can be decoded is the encoding of what it decodes to, in lower or in upper case. Regrouping
bits keeps the number they stand for.
-/
namespace Zcashd.Abstract.Bech32Strings

open Lib Radix Source Source.Base58 Source.Bech32 List Nat

section

variable {frombits tobits : Nat}

theorem and_mask (n k : Nat) : n &&& (1 <<< k - 1) = n % 2 ^ k := by
  rw [one_shiftLeft, and_two_pow_sub_one_eq_mod]

variable {bits count padding : Nat}

/-- The inner loop takes the groups off the front of the bits. -/
theorem convertOut_spec (pos : 0 < tobits) (acc : Nat) {rounds : Nat} (enough : bits ≤ rounds) :
    let out := convertOut tobits acc rounds bits
    out.2 < tobits ∧ tobits * out.1.length + out.2 = bits ∧ (∀ v ∈ out.1, v < 2 ^ tobits) ∧
      value (2 ^ tobits) out.1 * 2 ^ out.2 + acc % 2 ^ out.2 = acc % 2 ^ bits := by
  induction rounds generalizing bits with
  | zero =>
    obtain rfl : bits = 0 := by omega
    simp [convertOut, pos]
  | succ rounds ih =>
    unfold convertOut
    split
    · obtain ⟨few, count, small, number⟩ := ih (by omega : bits - tobits ≤ rounds)
      dsimp only
      refine ⟨few, by rw [length_cons, mul_succ]; omega, ?_, ?_⟩
      · simp only [mem_cons, forall_eq_or_imp, and_mask]
        exact ⟨Nat.mod_lt _ (Nat.two_pow_pos _), small⟩
      · obtain ⟨others, isOthers⟩ :
            ∃ others, convertOut tobits acc rounds (bits - tobits) = others := ⟨_, rfl⟩
        rw [isOthers] at count number ⊢
        have width : (2 ^ tobits) ^ others.1.length * 2 ^ others.2 = 2 ^ (bits - tobits) := by
          rw [← pow_mul, ← pow_add, count]
        have whole : 2 ^ bits = 2 ^ (bits - tobits) * 2 ^ tobits := by
          rw [← pow_add]
          congr 1
          omega
        rw [← singleton_append, value_append, value_singleton, and_mask, shiftRight_eq_div_pow,
          whole, mod_mul, ← number, ← width]
        ring
    · simp
      omega

variable {input : List Nat}

/-- The outer loop keeps the number that has been read. -/
theorem convertLoop_spec (pos : 0 < tobits) (small : ∀ v ∈ input, v < 2 ^ frombits) (acc : Nat)
    (few : bits < tobits) :
    let out := convertLoop frombits tobits input acc bits
    out.2.2 < tobits ∧ tobits * out.1.length + out.2.2 = bits + frombits * input.length ∧
      (∀ v ∈ out.1, v < 2 ^ tobits) ∧
      value (2 ^ tobits) out.1 * 2 ^ out.2.2 + out.2.1 % 2 ^ out.2.2 =
        (acc % 2 ^ bits) * 2 ^ (frombits * input.length) + value (2 ^ frombits) input := by
  induction input generalizing acc bits with
  | nil => simp [convertLoop, few]
  | cons v input ih =>
    have bound := small v mem_cons_self
    -- the mask keeps the bits that are still to be put out
    obtain ⟨acc', isAcc⟩ :
        ∃ acc', ((acc <<< frombits) ||| v) &&& (1 <<< (frombits + tobits - 1) - 1) =
        acc' := ⟨_, rfl⟩
    have kept : acc' % 2 ^ (bits + frombits) = (acc % 2 ^ bits) * 2 ^ frombits + v := by
      have low : (2 ^ frombits * acc + v) % 2 ^ frombits = v := by
        rw [mul_add_mod, mod_eq_of_lt bound]
      have high : (2 ^ frombits * acc + v) / 2 ^ frombits = acc := by
        rw [Nat.mul_add_div (Nat.two_pow_pos _), Nat.div_eq_of_lt bound, Nat.add_zero]
      rw [← isAcc, and_mask, ← Nat.shiftLeft_add_eq_or_of_lt bound, Nat.shiftLeft_eq,
        Nat.mul_comm acc,
        mod_mod_of_dvd _ (pow_dvd_pow 2 (by omega)), add_comm bits, pow_add, mod_mul, low, high]
      ring
    obtain ⟨out, isOut⟩ :
        ∃ out, convertOut tobits acc' (bits + frombits) (bits + frombits) = out := ⟨_, rfl⟩
    obtain ⟨left, count, inOut, number⟩ := convertOut_spec pos acc' (le_refl (bits + frombits))
    simp only [isOut] at left count inOut number
    obtain ⟨others, isOthers⟩ :
        ∃ others, convertLoop frombits tobits input acc' out.2 = others := ⟨_, rfl⟩
    obtain ⟨leftOthers, countOthers, inOthers, numberOthers⟩ :=
      ih (fun v mem => small v (mem_cons_of_mem _ mem)) acc' left
    simp only [isOthers] at leftOthers countOthers inOthers numberOthers
    simp only [convertLoop, isAcc, isOut, isOthers]
    refine ⟨leftOthers, ?_, ?_, ?_⟩
    · rw [length_append, length_cons, mul_add, mul_succ]
      omega
    · intro v _
      grind
    · have width : (2 ^ tobits) ^ others.1.length * 2 ^ others.2.2 =
          2 ^ out.2 * 2 ^ (frombits * input.length) := by
        rw [← pow_mul, ← pow_add, ← pow_add, countOthers]
      have digits : (2 ^ frombits) ^ input.length = 2 ^ (frombits * input.length) := by
        rw [← pow_mul]
      rw [kept] at number
      rw [value_append, ← singleton_append, value_append, value_singleton, length_append,
        length_singleton, digits]
      calc _ = value (2 ^ tobits) out.1 * ((2 ^ tobits) ^ others.1.length * 2 ^ others.2.2) +
            (value (2 ^ tobits) others.1 * 2 ^ others.2.2 + others.2.1 % 2 ^ others.2.2) := by ring
        _ = (value (2 ^ tobits) out.1 * 2 ^ out.2 + acc' % 2 ^ out.2) *
          2 ^ (frombits * input.length) +
            value (2 ^ frombits) input := by rw [width, numberOthers]; ring
        _ = _ := by rw [number, mul_add, pow_add]; ring

theorem groups_eq {width a b r : Nat} (same : width * a = width * b + r) (bound : r < 2 * width) :
    (r = 0 ∧ a = b) ∨ (r = width ∧ a = b + 1) := by
  have above : b ≤ a := by
    by_contra below
    have := mul_le_mul_left width (by omega : a + 1 ≤ b)
    rw [mul_succ] at this
    omega
  obtain ⟨more, rfl⟩ := Nat.exists_eq_add_of_le above
  rw [Nat.mul_add] at same
  match more with
  | 0 => exact .inl ⟨by omega, rfl⟩
  | 1 => exact .inr ⟨by omega, rfl⟩
  | more + 2 =>
    have := mul_le_mul_left width (by omega : 2 ≤ more + 2)
    omega

/-- The last bits, moved to the front of a group. -/
theorem last_group {acc : Nat} (few : bits < tobits) :
    (acc <<< (tobits - bits)) &&& (1 <<< tobits - 1) = acc % 2 ^ bits * 2 ^ (tobits - bits) := by
  have width : 2 ^ tobits = 2 ^ bits * 2 ^ (tobits - bits) := by
    rw [← pow_add]
    congr 1
    omega
  rw [and_mask, shiftLeft_eq, width, mul_mod_mul_right]

/-- Regrouping with padding: the bits are filled up with zeros. -/
theorem convertBits_pad (small : ∀ v ∈ input, v < 2 ^ frombits)
    (size : tobits * count = frombits * input.length + padding) (less : padding < tobits) :
    ∃ out, convertBits frombits tobits true input = some out ∧ out.length = count ∧
      (∀ v ∈ out, v < 2 ^ tobits) ∧
      value (2 ^ tobits) out = value (2 ^ frombits) input * 2 ^ padding := by
  obtain ⟨few, length, inOut, number⟩ := convertLoop_spec (by omega) small 0 (by omega : 0 < tobits)
  unfold convertBits
  obtain ⟨⟨out, acc, bits⟩, ran⟩ : ∃ out, convertLoop frombits tobits input 0 0 = out := ⟨_, rfl⟩
  simp only [ran] at few length inOut number ⊢
  rw [zero_mod, zero_mul, zero_add] at number
  rw [zero_add] at length
  rcases groups_eq (by omega : tobits * count = tobits * out.length + (bits + padding))
    (by omega) with ⟨_, same⟩ | ⟨full, same⟩
  · obtain ⟨rfl, rfl⟩ : bits = 0 ∧ padding = 0 := by omega
    refine ⟨out, by simp, same.symm, inOut, ?_⟩
    simpa [mod_one] using number
  · have width : 2 ^ tobits = 2 ^ bits * 2 ^ padding := by rw [← pow_add, full]
    rw [if_pos trivial, if_pos (by omega), last_group few, (by omega : tobits - bits = padding)]
    refine ⟨_, rfl, by simp [same], ?_, ?_⟩
    · have inside : acc % 2 ^ bits * 2 ^ padding < 2 ^ tobits := by
        rw [width]
        exact Nat.mul_lt_mul_of_pos_right (Nat.mod_lt _ (Nat.two_pow_pos _)) (Nat.two_pow_pos _)
      simpa [or_imp, forall_and, inside] using inOut
    · rw [value_append, value_singleton, length_singleton, pow_one, ← number]
      calc value (2 ^ tobits) out * 2 ^ tobits + acc % 2 ^ bits * 2 ^ padding =
            value (2 ^ tobits) out * (2 ^ bits * 2 ^ padding) +
              acc % 2 ^ bits * 2 ^ padding := by rw [width]
        _ = _ := by ring

/-- Regrouping without padding: the bits that are left over must be zeros. -/
theorem convertBits_exact (small : ∀ v ∈ input, v < 2 ^ frombits)
    (size : frombits * input.length = tobits * count + padding) (less : padding < tobits) :
    ∃ out, out.length = count ∧ (∀ v ∈ out, v < 2 ^ tobits) ∧
      value (2 ^ frombits) input / 2 ^ padding = value (2 ^ tobits) out ∧
      convertBits frombits tobits false input =
        if frombits ≤ padding ∨ value (2 ^ frombits) input % 2 ^ padding ≠ 0 then none
        else some out := by
  obtain ⟨few, length, inOut, number⟩ := convertLoop_spec (by omega) small 0 (by omega : 0 < tobits)
  unfold convertBits
  obtain ⟨⟨out, acc, bits⟩, ran⟩ : ∃ out, convertLoop frombits tobits input 0 0 = out := ⟨_, rfl⟩
  simp only [ran] at few length inOut number ⊢
  rw [zero_mod, zero_mul, zero_add] at number
  rw [zero_add, size] at length
  obtain ⟨rfl, rfl⟩ : bits = padding ∧ out.length = count := by
    have quotient := congrArg (· / tobits) length
    have remainder := congrArg (· % tobits) length
    simp only [mul_add_mod, mod_eq_of_lt few, mod_eq_of_lt less,
      mul_add_div (by omega : 0 < tobits),
      div_eq_of_lt few, div_eq_of_lt less, add_zero] at quotient remainder
    exact ⟨remainder, quotient⟩
  have bound : acc % 2 ^ bits < 2 ^ bits := Nat.mod_lt _ (Nat.two_pow_pos _)
  refine ⟨out, rfl, inOut, ?_, ?_⟩
  · rw [← number, Nat.mul_comm, Nat.mul_add_div (Nat.two_pow_pos _), Nat.div_eq_of_lt bound,
      Nat.add_zero]
  · have left : value (2 ^ frombits) input % 2 ^ bits = acc % 2 ^ bits := by
      rw [← number, mul_comm, mul_add_mod, mod_mod]
    have zero : acc % 2 ^ bits * 2 ^ (tobits - bits) ≠ 0 ↔ acc % 2 ^ bits ≠ 0 := by
      simp
    simp only [Bool.false_eq_true, if_false, last_group few, left, zero]

end

section

/-- What a round of `PolyMod` adds for the bits that are shifted out. -/
def feedback (c0 : BitVec 32) : BitVec 32 :=
  (if c0.getLsbD 0 then 0x3b6a57b2 else 0) ^^^ (if c0.getLsbD 1 then 0x26508e6d else 0) ^^^
    (if c0.getLsbD 2 then 0x1ea119fa else 0) ^^^ (if c0.getLsbD 3 then 0x3d4233dd else 0) ^^^
    (if c0.getLsbD 4 then 0x2a1462b3 else 0)

theorem polyModStep_eq (c : BitVec 32) (v : Nat) :
    polyModStep c v = ((c &&& 0x1ffffff) <<< 5) ^^^ BitVec.ofNat 32 v ^^^ feedback (c >>> 25) := by
  simp only [polyModStep, feedback]
  cases (c >>> 25).getLsbD 0 <;> cases (c >>> 25).getLsbD 1 <;> cases (c >>> 25).getLsbD 2 <;>
    cases (c >>> 25).getLsbD 3 <;> cases (c >>> 25).getLsbD 4 <;> simp [BitVec.xor_assoc]

/-- The bits of a word from `k` on are zero. -/
def Below (k : Nat) (t : BitVec 32) : Prop := ∀ i, k ≤ i → t.getLsbD i = false

variable {c t : BitVec 32} {k v : Nat}

theorem Below.xor {t' : BitVec 32} (below : Below k t) (below' : Below k t') :
    Below k (t ^^^ t') := by
  intro i above
  rw [BitVec.getLsbD_xor, below i above, below' i above]
  rfl

theorem Below.mono {k' : Nat} (below : Below k t) (more : k ≤ k') : Below k' t :=
  fun i above => below i (more.trans above)

theorem below_iff : Below k t ↔ t.toNat < 2 ^ k := by
  constructor
  · intro below
    exact lt_pow_two_of_testBit _ below
  · intro small i above
    exact Nat.testBit_lt_two_pow (small.trans_le (Nat.pow_le_pow_right (by decide) above))

theorem below_ofNat (small : v < 2 ^ k) : Below k (BitVec.ofNat 32 v) :=
  below_iff.mpr (lt_of_le_of_lt (mod_le _ _) small)

theorem Below.shiftLeft (below : Below k t) (n : Nat) : Below (k + n) (t <<< n) := by
  intro i _
  rw [BitVec.getLsbD_shiftLeft, below (i - n) (by omega), Bool.and_false]

theorem below_feedback (c0 : BitVec 32) : Below 30 (feedback c0) := by
  have constant :
      ∀ (b : Bool) (g : BitVec 32), g.toNat < 2 ^ 30 → Below 30 (if b then g else 0) := by
    intro b g small
    cases b
    · exact below_iff.mpr (by simp)
    · exact below_iff.mpr small
  exact ((((constant _ _ (by decide)).xor (constant _ _ (by decide))).xor
    (constant _ _ (by decide))).xor
    (constant _ _ (by decide))).xor (constant _ _ (by decide))

theorem and_low (c : BitVec 32) : Below 25 (c &&& 0x1ffffff) := by
  have mask : Below 25 (0x1ffffff : BitVec 32) := below_iff.mpr (by decide)
  intro i above
  rw [BitVec.getLsbD_and, mask i above, Bool.and_false]

theorem below_polyModStep (small : v < 32) : Below 30 (polyModStep c v) := by
  rw [polyModStep_eq]
  exact (((and_low c).shiftLeft 5).xor ((below_ofNat (k := 5) small).mono (by decide))).xor
    (below_feedback _)

/-- A round is linear in the bits that it does not shift out. -/
theorem polyModStep_xor (below : Below 25 t) :
    polyModStep (c ^^^ t) v = polyModStep c 0 ^^^ ((t <<< 5) ^^^ BitVec.ofNat 32 v) := by
  have out : t >>> 25 = 0 := by
    apply BitVec.eq_of_getLsbD_eq
    intro i _
    rw [BitVec.getLsbD_ushiftRight, below (25 + i) (by omega)]
    simp
  have kept : t &&& 0x1ffffff = t := by
    apply BitVec.eq_of_getLsbD_eq
    intro i bound
    have mask : ∀ i : Fin 32, (0x1ffffff : BitVec 32).getLsbD i = decide (i.val < 25) := by decide
    rw [BitVec.getLsbD_and, mask ⟨i, bound⟩]
    by_cases low : i < 25
    · simp [low]
    · simp [low, below i (by omega)]
  have spread : (c ^^^ t) &&& 0x1ffffff = (c &&& 0x1ffffff) ^^^ t := by
    conv_rhs => rw [← kept]
    apply BitVec.eq_of_getLsbD_eq
    intro i _
    simp [Bool.and_xor_distrib_right]
  have shifted : (c ^^^ t) >>> 25 = c >>> 25 := by
    rw [BitVec.ushiftRight_xor_distrib, out]
    exact BitVec.xor_zero
  have zero : ((c &&& 0x1ffffff) <<< 5) ^^^ BitVec.ofNat 32 0 = (c &&& 0x1ffffff) <<< 5 :=
    BitVec.xor_zero
  rw [polyModStep_eq, polyModStep_eq, shifted, spread, BitVec.shiftLeft_xor_distrib, zero]
  ac_rfl

theorem shiftLeft_xor_eq_add {n : Nat} (small : v < 32) : (n <<< 5) ^^^ v = n * 32 + v := by
  have disjoint : (n <<< 5) ^^^ v = (n <<< 5) ||| v := by
    apply eq_of_testBit_eq
    intro i
    rw [testBit_xor, testBit_or, testBit_shiftLeft]
    by_cases low : 5 ≤ i
    · rw [Nat.testBit_lt_two_pow
        (small.trans_le (Nat.pow_le_pow_right (by decide) low : 2 ^ 5 ≤ 2 ^ i))]
      simp
    · simp [low]
  rw [disjoint, ← shiftLeft_add_eq_or_of_lt (i := 5) small, shiftLeft_eq]

theorem toNat_shiftLeft_xor (low : t.toNat < 2 ^ 25) (small : v < 32) :
    ((t <<< 5) ^^^ BitVec.ofNat 32 v).toNat = t.toNat * 32 + v := by
  have left : t.toNat <<< 5 % 2 ^ 32 = t.toNat <<< 5 := by
    apply mod_eq_of_lt
    rw [shiftLeft_eq]
    omega
  have right : v % 2 ^ 32 = v := mod_eq_of_lt (by omega)
  rw [BitVec.toNat_xor, BitVec.toNat_shiftLeft, BitVec.toNat_ofNat, left, right,
    shiftLeft_xor_eq_add small]

/-- Up to six symbols are not shifted out: they stay as a number of their own. -/
theorem foldl_polyModStep {symbols : List Nat} (small : ∀ v ∈ symbols, v < 32)
    (few : symbols.length ≤ 6) (room : t.toNat < 2 ^ (5 * (6 - symbols.length))) :
    symbols.foldl polyModStep (c ^^^ t) = (replicate symbols.length 0).foldl polyModStep c ^^^
      BitVec.ofNat 32 (t.toNat * 32 ^ symbols.length + value 32 symbols) := by
  induction symbols generalizing c t with
  | nil => simp
  | cons v symbols ih =>
    have bound := small v mem_cons_self
    rw [length_cons] at few room
    have low : t.toNat < 2 ^ 25 := room.trans_le (Nat.pow_le_pow_right (by decide) (by omega))
    have next := toNat_shiftLeft_xor low bound
    have number : value 32 (v :: symbols) = v * 32 ^ symbols.length + value 32 symbols := by
      rw [← singleton_append, value_append, value_singleton]
    rw [foldl_cons, polyModStep_xor (below_iff.mpr low), length_cons, replicate_succ, foldl_cons, ih
      (fun v mem => small v (mem_cons_of_mem _ mem)) (by omega), next, number]
    · congr 2
      ring
    · rw [next]
      have more : 2 ^ (5 * (6 - symbols.length)) = 2 ^ (5 * (6 - (symbols.length + 1))) * 32 := by
        rw [(by omega : 5 * (6 - symbols.length) = 5 * (6 - (symbols.length + 1)) + 5), pow_add]
        rfl
      omega

/-- The last six symbols are added to what there would be with zeros. -/
theorem polyMod_append {symbols : List Nat} (front : List Nat) (small : ∀ v ∈ symbols, v < 32)
    (six : symbols.length = 6) :
    polyMod (front ++ symbols) = polyMod (front ++ replicate 6 0) ^^^ BitVec.ofNat 32
      (value 32 symbols) := by
  have linear := foldl_polyModStep (c := polyMod front) (t := 0) small (by omega) (by simp [six])
  have zero : polyMod front ^^^ 0 = polyMod front := BitVec.xor_zero
  rw [zero, six] at linear
  simpa [polyMod, foldl_append] using linear

variable {hrp : Bytes} {values symbols : List Nat}

/-- The number that `CreateChecksum` takes apart. -/
def checksumNumber (hrp : Bytes) (values : List Nat) : BitVec 32 :=
  polyMod (expandHRP hrp ++ values ++ List.replicate 6 0) ^^^ 1

theorem checksumNumber_lt (hrp : Bytes) (values : List Nat) :
    (checksumNumber hrp values).toNat < 2 ^ 30 := by
  apply below_iff.mp
  apply Below.xor _ (below_iff.mpr (by decide))
  have last : expandHRP hrp ++ values ++ replicate 6 0 =
      (expandHRP hrp ++ values ++ replicate 5 0) ++ [0] := by
    simp [replicate_succ]
  rw [polyMod, last, foldl_append]
  exact below_polyModStep (by decide)

theorem createChecksum_eq : createChecksum hrp values =
    [0, 1, 2, 3, 4, 5].map fun i => (checksumNumber hrp values).toNat / 2 ^ (5 * (5 - i)) % 32 := by
  apply map_congr_left
  intro i _
  rw [BitVec.toNat_and, BitVec.toNat_ushiftRight, shiftRight_eq_div_pow]
  exact and_two_pow_sub_one_eq_mod _ 5

theorem length_createChecksum : (createChecksum hrp values).length = 6 := by
  simp [createChecksum]

theorem createChecksum_lt : ∀ v ∈ createChecksum hrp values, v < 32 := by
  rw [createChecksum_eq]
  intro v mem
  obtain ⟨i, -, rfl⟩ := mem_map.mp mem
  exact mod_lt _ (by decide)

theorem value_createChecksum :
    value 32 (createChecksum hrp values) = (checksumNumber hrp values).toNat := by
  have bound := checksumNumber_lt hrp values
  rw [createChecksum_eq]
  simp only [value, map_cons, map_nil, reverse_cons, reverse_nil, nil_append, cons_append,
    ofDigits_cons, ofDigits_nil]
  omega

/-- Exactly one checksum is right. -/
theorem verifyChecksum_append (small : ∀ v ∈ symbols, v < 32) (six : symbols.length = 6) :
    verifyChecksum hrp (values ++ symbols) = true ↔ symbols = createChecksum hrp values := by
  have number : verifyChecksum hrp (values ++ symbols) = true ↔
      BitVec.ofNat 32 (value 32 symbols) = checksumNumber hrp values := by
    rw [verifyChecksum, beq_iff_eq, ← append_assoc, polyMod_append _ small six, checksumNumber]
    constructor
    · intro right
      rw [← right, ← BitVec.xor_assoc, BitVec.xor_self, BitVec.zero_xor]
    · intro same
      rw [same, ← BitVec.xor_assoc, BitVec.xor_self, BitVec.zero_xor]
  have bound : value 32 symbols < 2 ^ 30 := by
    have := value_lt (by decide) small
    rwa [six] at this
  rw [number]
  constructor
  · intro same
    apply value_inj (by decide) (by rw [six, length_createChecksum]) small createChecksum_lt
    rw [value_createChecksum, ← same, BitVec.toNat_ofNat, mod_eq_of_lt (by omega)]
  · intro same
    rw [same, value_createChecksum, BitVec.ofNat_toNat, BitVec.setWidth_eq]

end

section

theorem charset_spec :
    ∀ v < 32, revChar (CHARSET.getD v 0) = some v ∧ isUpper (CHARSET.getD v 0) = false ∧
    33 ≤ CHARSET.getD v 0 ∧ CHARSET.getD v 0 ≤ 126 ∧ CHARSET.getD v 0 ≠ ofChar '1' := by
  decide +kernel

theorem revChar_some {c : UInt8} (hit : revChar c = some v) :
    v < 32 ∧ CHARSET.getD v 0 = lowerCase c ∧ c ≠ ofChar '1' := by
  have all : ∀ n < 256, ∀ v ∈ revChar (UInt8.ofNat n), v < 32 ∧
      CHARSET.getD v 0 = lowerCase (UInt8.ofNat n) ∧ UInt8.ofNat n ≠ ofChar '1' := by decide +kernel
  have here := all c.toNat c.toNat_lt
  rw [UInt8.ofNat_toNat] at here
  exact here v hit

variable {str : Bytes} {ch : UInt8}

theorem rfind_some {pos : Nat} (hit : rfind str ch = some pos) :
    str = str.take pos ++ ch :: str.drop (pos + 1) := by
  obtain ⟨i, last, rfl⟩ := Option.map_eq_some_iff.mp hit
  obtain ⟨bound, same, -⟩ := findIdx?_eq_some_iff_getElem.mp last
  rw [length_reverse] at bound
  rw [getElem_reverse] at same
  have here : str.length - 1 - i < str.length := by omega
  conv_lhs => rw [← take_append_drop (str.length - 1 - i) str, drop_eq_getElem_cons here]
  rw [beq_iff_eq.mp same]

/-- A character that does not occur behind a place is last found there. -/
theorem rfind_eq {front back : Bytes} (absent : ch ∉ back) :
    rfind (front ++ ch :: back) ch = some front.length := by
  have index : (front ++ ch :: back).reverse.findIdx? (· == ch) = some back.length := by
    rw [reverse_append, reverse_cons, append_assoc, findIdx?_append]
    have none : back.reverse.findIdx? (· == ch) = none := by
      rw [findIdx?_eq_none_iff]
      grind
    rw [none]
    simp [findIdx?_cons]
  rw [Bech32.rfind, index, Option.map_some, length_append, length_cons]
  congr 1
  omega

variable {values : List Nat}

theorem mapM_revChar (mapped : str.mapM revChar = some values) :
    values.length = str.length ∧ (∀ v ∈ values, v < 32) ∧
    (values.map fun v => CHARSET.getD v 0) = str.map lowerCase := by
  have each := mapM_forall₂ mapped
  clear mapped
  induction each with
  | nil => simp
  | cons first _ _ =>
    obtain ⟨_, _, -⟩ := revChar_some first
    grind

theorem mapM_charset (small : ∀ v ∈ values, v < 32) :
    (values.map fun v => CHARSET.getD v 0).mapM revChar = some values := by
  induction values with
  | nil => rfl
  | cons v _ ih =>
    have first := (charset_spec v (small v mem_cons_self)).1
    rw [map_cons, mapM_cons, first, ih (fun v mem => small v (mem_cons_of_mem _ mem))]
    rfl

/-- The string of a human-readable part and symbols that already end with their checksum. -/
theorem encode_eq (small : ∀ v ∈ values, v < 32) :
    encode hrp values = hrp ++ ofChar '1' :: (values ++ createChecksum hrp values).map fun v =>
      CHARSET.getD v 0 := by
  have fits : ((values ++ createChecksum hrp values).any fun c => decide (32 ≤ c)) = false := by
    have checksum : ∀ v ∈ createChecksum hrp values, v < 32 := createChecksum_lt
    grind
  simp [encode, fits]

/-- What is decoded is an encoding, but for the case of its letters. -/
theorem encode_decode (decoded : decode str = (hrp, values)) (accepted : (hrp, values) ≠ ([], [])) :
    (∀ v ∈ values, v < 32) ∧ encode hrp values = str.map lowerCase := by
  have failed : ∀ {P : Prop}, ([], []) = (hrp, values) → P := fun same => absurd same.symm accepted
  unfold decode at decoded
  split at decoded
  · exact failed decoded
  split at decoded
  · exact failed decoded
  split at decoded
  · exact failed decoded
  rename_i pos hit
  split at decoded
  · exact failed decoded
  split at decoded
  · exact failed decoded
  rename_i symbols mapped
  dsimp only at decoded
  split at decoded
  · exact failed decoded
  rename_i verified
  cases decoded
  obtain ⟨length, small, chars⟩ := mapM_revChar mapped
  rw [length_drop] at length
  have parts := take_append_drop (symbols.length - 6) symbols
  have front : ∀ v ∈ symbols.take (symbols.length - 6), v < 32 :=
    fun v mem => small v (mem_of_mem_take mem)
  have checksum : symbols.drop (symbols.length - 6) =
      createChecksum ((str.take pos).map lowerCase) (symbols.take (symbols.length - 6)) := by
    apply (verifyChecksum_append (fun v mem => small v (mem_of_mem_drop mem))
      (by rw [length_drop]; omega)).mp
    rw [parts]
    simpa using verified
  refine ⟨front, ?_⟩
  rw [encode_eq front, ← checksum, parts, chars]
  conv_rhs => rw [rfind_some hit, map_append, map_cons]
  rfl

theorem lowerCase_eq {c : UInt8} (notUpper : isUpper c = false) : lowerCase c = c := by
  unfold isUpper at notUpper
  unfold lowerCase
  grind

/-- A human-readable part as the networks have them. -/
structure Readable (hrp : Bytes) : Prop where
  nonempty : hrp ≠ []
  printable : ∀ c ∈ hrp, 33 ≤ c ∧ c ≤ 126 ∧ isUpper c = false

theorem decode_encode (readable : Readable hrp) (small : ∀ v ∈ values, v < 32)
    (short : hrp.length + values.length + 7 ≤ 1023) :
    decode (encode hrp values) = (hrp, values) := by
  have checksum : (createChecksum hrp values).length = 6 := length_createChecksum
  obtain ⟨symbols, isSymbols⟩ : ∃ symbols, values ++ createChecksum hrp values = symbols := ⟨_, rfl⟩
  have size : symbols.length = values.length + 6 := by rw [← isSymbols, length_append, checksum]
  have inside : ∀ v ∈ symbols, v < 32 := by
    have lower : ∀ v ∈ createChecksum hrp values, v < 32 := createChecksum_lt
    grind
  have chars : ∀ c ∈ symbols.map (fun v => CHARSET.getD v 0), 33 ≤ c ∧ c ≤ 126 ∧ isUpper c = false ∧
      c ≠ ofChar '1' := by
    grind [charset_spec]
  rw [encode_eq small, isSymbols]
  have all : ∀ c ∈ hrp ++ ofChar '1' :: symbols.map (fun v => CHARSET.getD v 0), 33 ≤ c ∧ c ≤ 126 ∧
      isUpper c = false := by
    have one : 33 ≤ ofChar '1' ∧ ofChar '1' ≤ 126 ∧ isUpper (ofChar '1') = false := by decide
    have printable := readable.printable
    grind
  have printable : ((hrp ++ ofChar '1' :: symbols.map fun v => CHARSET.getD v 0).any
      fun c => decide (c < 33) || decide (c > 126)) = false := by
    simp only [any_eq_false, Bool.or_eq_true, decide_eq_true_eq, not_or, gt_iff_lt, UInt8.not_lt]
    exact fun c mem => ⟨(all c mem).1, (all c mem).2.1⟩
  have oneCase :
      (hrp ++ ofChar '1' :: symbols.map fun v => CHARSET.getD v 0).any isUpper = false := by
    rw [any_eq_false]
    intro c mem
    simp [(all c mem).2.2]
  have lower : hrp.map lowerCase = hrp := by
    conv_rhs => rw [← map_id hrp]
    exact map_congr_left fun c mem => lowerCase_eq (readable.printable c mem).2.2
  have verified : verifyChecksum hrp symbols = true := by
    rw [← isSymbols]
    exact (verifyChecksum_append createChecksum_lt checksum).mpr rfl
  have old : 0 < hrp.length := length_pos_of_ne_nil readable.nonempty
  have length : (hrp ++ ofChar '1' :: symbols.map fun v => CHARSET.getD v 0).length =
      hrp.length + values.length + 7 := by
    rw [length_append, length_cons, length_map, size]
    omega
  have behind : (hrp ++ ofChar '1' :: symbols.map fun v => CHARSET.getD v 0).drop (hrp.length + 1) =
      symbols.map fun v => CHARSET.getD v 0 := by
    rw [← drop_drop, drop_left]
    rfl
  unfold decode
  rw [printable, oneCase, rfind_eq (fun mem => (chars _ mem).2.2.2 rfl)]
  simp only [Bool.false_eq_true, if_false, Bool.and_false]
  rw [if_neg (by omega), behind, mapM_charset inside]
  simp only [take_left, lower, verified, Bool.not_true, Bool.false_eq_true, if_false]
  rw [size, Nat.add_sub_cancel, ← isSymbols, take_left]

end

end Zcashd.Abstract.Bech32Strings

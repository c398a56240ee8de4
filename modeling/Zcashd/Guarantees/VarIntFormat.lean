import Zcashd.Source.Serialize

/-!
# The VARINT format

`WriteVarInt` writes a number in digits of base 128, where each digit but the last stands for one
more than it says. Without a bound on the numbers this is a bijection between numbers and digit
strings. `ReadVarInt` computes in a word of fixed width and lets it wrap around: a digit string that
stands for a number beyond the width is read as what is left of it, so it is a second encoding of a
smaller number.
-/
namespace Zcashd.Guarantees.VarIntFormat

open Lib Source List

/-! Digit strings -/

/-- The number that digits with a continuation bit add up to, after `n`. -/
def continued (n : Nat) (front : Bytes) : Nat :=
  front.foldl (fun n chData => n * 128 + chData.toNat % 128 + 1) n

/-- The number that a digit string stands for, in unbounded integers. -/
def numberOf (digits : Bytes) : Nat :=
  continued 0 digits.dropLast * 128 + (digits.getLastD 0).toNat % 128

/-- All digits but the last have the continuation bit. -/
structure IsNumber (front : Bytes) (last : UInt8) : Prop where
  front : ∀ chData ∈ front, 128 ≤ chData.toNat
  last : last.toNat < 128

variable {front rest input : Bytes} {last : UInt8} {bits n room : Nat}

theorem numberOf_append :
    numberOf (front ++ [last]) = continued 0 front * 128 + last.toNat % 128 := by
  simp [numberOf]

theorem continued_append (chData : UInt8) :
    continued n (front ++ [chData]) = continued n front * 128 + chData.toNat % 128 + 1 := by
  simp [continued]

/-- Each digit is worth at least one, so a longer string stands for a larger number. -/
theorem pow_le_continued (ne : front ≠ []) : 128 ^ (front.length - 1) ≤ continued 0 front := by
  induction front using reverseRecOn with
  | nil => exact absurd rfl ne
  | append_singleton front _ ih =>
    rw [continued_append, length_append, length_singleton, Nat.add_sub_cancel]
    cases front with
    | nil => simp
    | cons _ _ =>
      have old := ih (by simp)
      rw [length_cons, Nat.add_sub_cancel] at old
      rw [length_cons, Nat.pow_succ]
      omega

theorem pow_le_numberOf (ne : front ≠ []) : 128 ^ front.length ≤ numberOf (front ++ [last]) := by
  have least := pow_le_continued ne
  have shape : front.length = front.length - 1 + 1 := by
    have := length_pos_iff.mpr ne
    omega
  rw [numberOf_append, shape, Nat.pow_succ]
  omega

/-! Writing -/

theorem getSizeOfVarInt_le (pos : 0 < room) (enough : n < 128 ^ room) :
    getSizeOfVarInt n ≤ room := by
  induction room generalizing n with
  | zero => omega
  | succ room ih =>
    rw [getSizeOfVarInt]
    split
    · omega
    · rename_i large
      cases room with
      | zero => omega
      | succ room =>
        have := ih (by omega) (by omega : n / 128 - 1 < 128 ^ (room + 1))
        omega

theorem length_varIntDigits (first : Bool) (fits : getSizeOfVarInt n ≤ room) :
    (varIntDigits room first n).length = getSizeOfVarInt n := by
  induction room generalizing first n with
  | zero =>
    rw [getSizeOfVarInt] at fits
    split at fits <;> omega
  | succ _ ih =>
    rw [getSizeOfVarInt] at fits ⊢
    rw [varIntDigits, length_cons]
    by_cases small : n ≤ 0x7F
    · simp [small]
    · rw [if_neg small] at fits
      rw [if_neg small, if_neg small, ih false (by omega)]

theorem ofNat_digit {chData : UInt8} (high : 128 ≤ chData.toNat) :
    UInt8.ofNat (chData.toNat % 128 + 128) = chData := by
  have bound := chData.toNat_lt
  rw [show chData.toNat % 128 + 128 = chData.toNat by omega, UInt8.ofNat_toNat]

/-- A number of more digits is left over when the last one is taken. -/
theorem continued_div (some : front ≠ []) {low : Nat} (small : low < 128) :
    ¬ continued 0 front * 128 + low ≤ 0x7F ∧
    (continued 0 front * 128 + low) / 128 = continued 0 front := by
  have least := pow_le_continued some
  have pos := Nat.pow_pos (n := front.length - 1) (show 0 < 128 by decide)
  omega

/-- The continuing digits of a number are the ones `WriteVarInt` computes. -/
theorem varIntDigits_continued (ne : front ≠ []) (high : ∀ chData ∈ front, 128 ≤ chData.toNat)
    (fits : front.length ≤ room) :
    varIntDigits room false (continued 0 front - 1) = front.reverse := by
  induction front using reverseRecOn generalizing room with
  | nil => exact absurd rfl ne
  | append_singleton front chData ih =>
    rw [length_append, length_singleton] at fits
    obtain ⟨room, rfl⟩ : ∃ less, room = less + 1 := ⟨room - 1, by omega⟩
    rw [continued_append, Nat.add_sub_cancel, varIntDigits, reverse_append, reverse_singleton,
      singleton_append]
    have low : (continued 0 front * 128 + chData.toNat % 128) % 128 = chData.toNat % 128 := by omega
    rw [low, if_neg (by decide), ofNat_digit (high chData (by simp))]
    congr 1
    by_cases single : front = []
    · subst single
      rw [if_pos (by simp only [continued, foldl_nil]; omega), reverse_nil]
    · obtain ⟨more, rest⟩ := continued_div single (Nat.mod_lt chData.toNat (by decide))
      rw [if_neg more, rest]
      exact ih single (fun c mem => high c (mem_append_left _ mem)) (by omega)

/-- A digit string that fits into the buffer is what `WriteVarInt` writes for its number. -/
theorem writeVarInt_numberOf (isNumber : IsNumber front last)
    (fits : front.length + 1 ≤ (bits + 6) / 7) :
    writeVarInt bits (numberOf (front ++ [last])) = front ++ [last] := by
  have lastBound := isNumber.last
  obtain ⟨room, shape⟩ : ∃ room, (bits + 6) / 7 = room + 1 := ⟨(bits + 6) / 7 - 1, by omega⟩
  have low : (continued 0 front * 128 + last.toNat % 128) % 128 = last.toNat := by omega
  rw [writeVarInt, shape, numberOf_append, varIntDigits, low, if_pos rfl, Nat.add_zero,
    UInt8.ofNat_toNat, reverse_cons]
  congr 1
  by_cases single : front = []
  · subst single
    rw [if_pos (by simp only [continued, foldl_nil]; omega), reverse_nil]
  · obtain ⟨more, rest⟩ := continued_div single (Nat.mod_lt last.toNat (by decide))
    rw [if_neg more, rest, varIntDigits_continued single isNumber.front (by omega), reverse_reverse]

/-! Reading -/

/-- `ReadVarInt` reads digits up to the first one without the bit, and returns their number modulo
the width. -/
theorem readVarIntFrom_some {m : Nat}
    (read : readVarIntFrom bits (n % 2 ^ bits) input = some (m, rest)) :
    ∃ front last, input = front ++ last :: rest ∧ IsNumber front last ∧
      m = (continued n front * 128 + last.toNat % 128) % 2 ^ bits := by
  induction input generalizing n with
  | nil => cases read
  | cons chData _ ih =>
    have wrapped : (n % 2 ^ bits * 128 + chData.toNat % 128) % 2 ^ bits =
        (n * 128 + chData.toNat % 128) % 2 ^ bits := by
      rw [Nat.add_mod, Nat.mod_mul_mod, ← Nat.add_mod]
    rw [readVarIntFrom] at read
    split at read
    · rename_i more
      rw [wrapped, Nat.mod_add_mod] at read
      obtain ⟨front, last, rfl, isNumber, value⟩ := ih read
      refine ⟨chData :: front, last, rfl, ⟨?_, isNumber.last⟩, value⟩
      simp only [mem_cons, forall_eq_or_imp]
      exact ⟨more, isNumber.front⟩
    · rename_i done
      cases read
      exact ⟨[], chData, rfl, ⟨by simp, by omega⟩, wrapped⟩

/-! What `WriteVarInt` writes stands for the number. -/

theorem continued_varIntDigits (fits : getSizeOfVarInt n ≤ room) :
    continued 0 (varIntDigits room false n).reverse = n + 1 := by
  induction room generalizing n with
  | zero =>
    rw [getSizeOfVarInt] at fits
    split at fits <;> omega
  | succ _ ih =>
    have digit : (UInt8.ofNat (n % 128 + 128)).toNat % 128 = n % 128 := by
      rw [UInt8.toNat_ofNat', Nat.mod_mod_of_dvd _ (by decide)]
      omega
    rw [varIntDigits, if_neg (by decide), reverse_cons, continued_append, digit]
    by_cases small : n ≤ 0x7F
    · rw [if_pos small]
      simp only [reverse_nil, continued, foldl_nil]
      omega
    · rw [getSizeOfVarInt, if_neg small] at fits
      rw [if_neg small, ih (by omega)]
      omega

theorem numberOf_writeVarInt (fits : getSizeOfVarInt n ≤ (bits + 6) / 7) :
    numberOf (writeVarInt bits n) = n := by
  have some : 1 ≤ getSizeOfVarInt n := by
    rw [getSizeOfVarInt]
    split <;> omega
  obtain ⟨room, shape⟩ : ∃ room, (bits + 6) / 7 = room + 1 := ⟨(bits + 6) / 7 - 1, by omega⟩
  have digit : (UInt8.ofNat (n % 128)).toNat % 128 = n % 128 := by
    rw [UInt8.toNat_ofNat', Nat.mod_eq_of_lt (by omega)]
    omega
  rw [writeVarInt, shape, varIntDigits, if_pos rfl, Nat.add_zero, reverse_cons,
    numberOf_append, digit]
  by_cases small : n ≤ 0x7F
  · rw [if_pos small]
    simp only [reverse_nil, continued, foldl_nil]
    omega
  · rw [getSizeOfVarInt, if_neg small] at fits
    rw [if_neg small, continued_varIntDigits (by omega)]
    omega

/-- At every width a number is read back from its encoding, which has the computed size and stays
inside the buffer; and the bytes that `ReadVarInt` takes are the encoding of what it returns exactly
when the number they stand for is below the width. -/
theorem varint_encodings (bits : Nat) (width : bits ∈ [8, 16, 32, 64]) :
    (∀ n < 2 ^ bits, getSizeOfVarInt n ≤ (bits + 6) / 7 ∧
      (writeVarInt bits n).length = getSizeOfVarInt n ∧
      ∀ rest, readVarInt bits (writeVarInt bits n ++ rest) = some (n, rest)) ∧
    (∀ input n rest, readVarInt bits input = some (n, rest) →
      ∃ consumed, input = consumed ++ rest ∧
        (consumed = writeVarInt bits n ↔ numberOf consumed < 2 ^ bits)) := by
  have positive : 0 < bits := by
    simp only [mem_cons, not_mem_nil, or_false] at width
    omega
  have size : ∀ n < 2 ^ bits, getSizeOfVarInt n ≤ (bits + 6) / 7 := fun n fits =>
    getSizeOfVarInt_le (by omega) (Nat.lt_of_lt_of_le fits (two_pow_le_digits bits))
  constructor
  · intro n fits
    refine ⟨size n fits, ?_, readVarInt_writeVarInt fits positive⟩
    rw [writeVarInt, length_reverse, length_varIntDigits true (size n fits)]
  · intro _ n _ read
    rw [readVarInt, ← Nat.zero_mod] at read
    obtain ⟨front, last, rfl, isNumber, value⟩ := readVarIntFrom_some read
    refine ⟨front ++ [last], by simp, ?_⟩
    rw [← numberOf_append] at value
    constructor
    · intro same
      have fits : n < 2 ^ bits := value ▸ Nat.mod_lt _ (Nat.two_pow_pos bits)
      rw [same, numberOf_writeVarInt (size n fits)]
      exact fits
    · intro fits
      rw [Nat.mod_eq_of_lt fits] at value
      have short : front.length + 1 ≤ (bits + 6) / 7 := by
        by_cases single : front = []
        · subst single
          simp only [length_nil]
          omega
        · have least := Nat.lt_of_le_of_lt (pow_le_numberOf single)
            (Nat.lt_of_lt_of_le fits (two_pow_le_digits bits))
          exact (Nat.pow_lt_pow_iff_right (by decide)).mp least
      rw [value, writeVarInt_numberOf isNumber short]

theorem varint_encodings_byte : 8 ∈ [8, 16, 32, 64] ∧
    ∀ rest, readVarInt 8 (writeVarInt 8 255 ++ rest) = some (255, rest) :=
  ⟨by decide, ((varint_encodings 8 (by decide)).1 255 (by decide)).2.2⟩

/-- Two encodings of one number are accepted, at the smallest and at the largest width. -/
theorem two_encodings_accepted :
    (readVarInt 8 [0x80, 0x00] = some (128, []) ∧ readVarInt 8 [0x82, 0x00] = some (128, []) ∧
      writeVarInt 8 128 = [0x80, 0x00]) ∧
    (readVarInt 64 [0x00] = some (0, []) ∧
      readVarInt 64 [0x80, 0xfe, 0xfe, 0xfe, 0xfe, 0xfe, 0xfe, 0xfe, 0xff, 0x00] = some (0, []) ∧
      writeVarInt 64 0 = [0x00]) := by
  decide +kernel

end Zcashd.Guarantees.VarIntFormat

import Zcashd.Lib.Codec
import Zcashd.Source.Primitives

/-!
Integers on the wire (`src/serialize.h`): little endian words, `CompactSize` and `VARINT`.
`VARINT` digits come out least significant first in the source's buffer `tmp` and are
written in reverse.
-/
namespace Zcashd.Source

open Lib Decoder List UInt8

/-- `ser_writedata8` to `ser_writedata64`: the low `count` bytes, least significant first. -/
def writeData : Nat → Nat → Bytes
  | 0, _ => []
  | count + 1, n => UInt8.ofNat (n % 256) :: writeData count (n / 256)

def readData : Nat → Decoder Nat
  | 0 => pure 0
  | count + 1 => do
    let low ← Decoder.byte
    let high ← readData count
    pure (low.toNat + 256 * high)

variable {n least m bits : Nat}

theorem readData_writeData {count : Nat} (bound : n < 256 ^ count) :
    Decodes (readData count) (writeData count n) n := by
  induction count generalizing n with
  | zero =>
    have : n = 0 := by simpa using bound
    subst this
    exact Decodes.pure 0
  | succ count ih =>
    have high : n / 256 < 256 ^ count := by
      rw [Nat.pow_succ] at bound
      exact Nat.div_lt_of_lt_mul (by rwa [Nat.mul_comm] at bound)
    have value : (ofNat (n % 256)).toNat + 256 * (n / 256) = n := by
      rw [toNat_ofNat', Nat.mod_eq_of_lt (Nat.mod_lt n (by decide))]
      omega
    have rest := (ih high).last (fun high => (ofNat (n % 256)).toNat + 256 * high)
    rw [value] at rest
    exact (Decodes.byte _).bind rest

@[simp] theorem length_writeData (count n : Nat) : (writeData count n).length = count := by
  induction count generalizing n with
  | zero => rfl
  | succ _ ih => simp [writeData, ih]

theorem readData_exact (count : Nat) :
    Exact (readData count) (writeData count) (fun n => n < 256 ^ count) := by
  apply Exact.of_decodes (fun n bound => readData_writeData bound)
  induction count with
  | zero =>
    intro _ n _ read
    obtain ⟨rfl, rfl⟩ := pure_eq_some.mp read
    exact ⟨by decide, rfl⟩
  | succ _ ih =>
    intro _ n _ read
    obtain ⟨low, _, first, read⟩ := bind_eq_some.mp read
    obtain ⟨high, _, others, read⟩ := bind_eq_some.mp read
    obtain ⟨rfl, rfl⟩ := pure_eq_some.mp read
    obtain ⟨-, rfl⟩ := (Exact.byte _ _ _).mp first
    obtain ⟨_, rfl⟩ := ih _ _ _ others
    have small := low.toNat_lt
    have lowByte : (low.toNat + 256 * high) % 256 = low.toNat := by omega
    have highBytes : (low.toNat + 256 * high) / 256 = high := by omega
    constructor
    · rw [Nat.pow_succ]
      omega
    · rw [writeData, lowByte, highBytes, UInt8.ofNat_toNat]
      rfl

def writeUint256 (h : Uint256) : Bytes := writeData 32 h.toNat

def readUint256 : Decoder Uint256 := do
  let n ← readData 32
  pure (BitVec.ofNat 256 n)

theorem readUint256_writeUint256 (h : Uint256) : Decodes readUint256 (writeUint256 h) h := by
  have bound : h.toNat < 256 ^ 32 := h.isLt
  have read := (readData_writeData bound).last (BitVec.ofNat 256)
  rwa [BitVec.ofNat_toNat, BitVec.setWidth_eq] at read

theorem readUint256_exact : Exact readUint256 writeUint256 (fun _ => True) := by
  refine (readData_exact 32).map (BitVec.ofNat 256) BitVec.toNat (fun n bound => ?_)
    (fun h _ => ⟨h.isLt, ?_⟩)
  · have value : (BitVec.ofNat 256 n).toNat = n := by
      rw [BitVec.toNat_ofNat]
      exact Nat.mod_eq_of_lt bound
    exact ⟨trivial, value, by rw [writeUint256, value]⟩
  · rw [BitVec.ofNat_toNat, BitVec.setWidth_eq]

/-! `CompactSize` -/

/-- Limit on the sizes `ReadCompactSize` accepts. -/
def MAX_SIZE : Nat := 0x02000000

def writeCompactSize (nSize : Nat) : Bytes :=
  if nSize < 253 then writeData 1 nSize
  else if nSize ≤ 0xFFFF then writeData 1 253 ++ writeData 2 nSize
  else if nSize ≤ 0xFFFFFFFF then writeData 1 254 ++ writeData 4 nSize
  else writeData 1 255 ++ writeData 8 nSize

/-- A size not in its shortest form or above `MAX_SIZE` is refused. -/
def canonicalSize (least nSizeRet : Nat) : Decoder Nat :=
  if nSizeRet < least ∨ MAX_SIZE < nSizeRet then Decoder.fail else pure nSizeRet

def readCompactSize : Decoder Nat := do
  let chSize ← readData 1
  if chSize < 253 then canonicalSize 0 chSize
  else if chSize = 253 then readData 2 >>= canonicalSize 253
  else if chSize = 254 then readData 4 >>= canonicalSize 0x10000
  else readData 8 >>= canonicalSize 0x100000000

theorem canonicalSize_decodes (low : least ≤ n) (high : n ≤ MAX_SIZE) :
    Decodes (canonicalSize least n) [] n := by
  unfold canonicalSize
  rw [if_neg (by omega)]
  exact Decodes.pure n

theorem readCompactSize_writeCompactSize (small : n ≤ MAX_SIZE) :
    Decodes readCompactSize (writeCompactSize n) n := by
  have limit : MAX_SIZE = 33554432 := rfl
  unfold writeCompactSize
  by_cases one : n < 253
  · rw [if_pos one, ← append_nil (writeData 1 n)]
    refine (readData_writeData (by omega)).bind ?_
    rw [if_pos one]
    exact canonicalSize_decodes (Nat.zero_le n) small
  rw [if_neg one]
  by_cases two : n ≤ 0xFFFF
  · rw [if_pos two]
    refine (readData_writeData (by decide)).bind ?_
    rw [if_neg (by decide), if_pos rfl, ← append_nil (writeData 2 n)]
    exact (readData_writeData (by omega)).bind (canonicalSize_decodes (by omega) small)
  rw [if_neg two, if_pos (by omega)]
  refine (readData_writeData (by decide)).bind ?_
  rw [if_neg (by decide), if_neg (by decide), if_pos rfl, ← append_nil (writeData 4 n)]
  exact (readData_writeData (by omega)).bind (canonicalSize_decodes (by omega) small)

theorem canonicalSize_eq_some {input rest : Bytes} :
    canonicalSize least n input = some (m, rest) ↔ m = n ∧ input = rest ∧ least ≤ n ∧
    n ≤ MAX_SIZE := by
  unfold canonicalSize
  split
  case isTrue refused =>
    constructor
    · rintro ⟨⟩
    · rintro ⟨-, -, _⟩
      omega
  case isFalse accepted =>
    rw [pure_eq_some]
    constructor
    · rintro ⟨rfl, rfl⟩
      exact ⟨rfl, rfl, by omega, by omega⟩
    · rintro ⟨rfl, rfl, -⟩
      exact ⟨rfl, rfl⟩

/-- One form for each size. -/
theorem readCompactSize_exact : Exact readCompactSize writeCompactSize (fun n => n ≤ MAX_SIZE) := by
  apply Exact.of_decodes (fun n small => readCompactSize_writeCompactSize small)
  intro _ n _ read
  have limit : MAX_SIZE = 33554432 := rfl
  obtain ⟨_, _, first, body⟩ := bind_eq_some.mp read
  obtain ⟨-, rfl⟩ := (readData_exact 1 _ _ _).mp first
  split at body
  case isTrue one =>
    obtain ⟨rfl, rfl, -, high⟩ := canonicalSize_eq_some.mp body
    exact ⟨high, by rw [writeCompactSize, if_pos one]⟩
  case isFalse one =>
    split at body
    case isTrue two =>
      obtain ⟨_, _, second, last⟩ := bind_eq_some.mp body
      obtain ⟨_, rfl⟩ := (readData_exact 2 _ _ _).mp second
      obtain ⟨rfl, rfl, _, high⟩ := canonicalSize_eq_some.mp last
      refine ⟨high, ?_⟩
      rw [writeCompactSize, if_neg (by omega), if_pos (by omega), two, append_assoc]
    case isFalse two =>
      split at body
      case isTrue four =>
        obtain ⟨_, _, second, last⟩ := bind_eq_some.mp body
        obtain ⟨_, rfl⟩ := (readData_exact 4 _ _ _).mp second
        obtain ⟨rfl, rfl, _, high⟩ := canonicalSize_eq_some.mp last
        refine ⟨high, ?_⟩
        rw [writeCompactSize, if_neg (by omega), if_neg (by omega), if_pos (by omega), four,
          append_assoc]
      case isFalse four =>
        obtain ⟨_, _, _, last⟩ := bind_eq_some.mp body
        obtain ⟨rfl, rfl, _⟩ := canonicalSize_eq_some.mp last
        omega

/-! `VARINT` -/

/-- `GetSizeOfVarInt`, which runs the loop of `WriteVarInt` and counts. -/
def getSizeOfVarInt (n : Nat) : Nat := if n ≤ 0x7F then 1 else getSizeOfVarInt (n / 128 - 1) + 1

/-- The buffer `tmp` of `WriteVarInt`; only the first digit has no continuation bit. -/
def varIntDigits : Nat → Bool → Nat → Bytes
  | 0, _, _ => []
  | room + 1, first, n =>
    UInt8.ofNat (n % 128 + if first then 0 else 128) ::
      if n ≤ 0x7F then [] else varIntDigits room false (n / 128 - 1)

/-- `WriteVarInt` of an integer of `bits` bits: `tmp` has room for `(bits + 6) / 7` digits. -/
def writeVarInt (bits n : Nat) : Bytes := (varIntDigits ((bits + 6) / 7) true n).reverse

/-- The loop of `ReadVarInt`, whose accumulator wraps at its width. -/
def readVarIntFrom (bits : Nat) : Nat → Decoder Nat
  | _, [] => none
  | n, chData :: rest =>
    let next := (n * 128 + chData.toNat % 128) % 2 ^ bits
    if 128 ≤ chData.toNat then readVarIntFrom bits ((next + 1) % 2 ^ bits) rest
    else some (next, rest)

def readVarInt (bits : Nat) : Decoder Nat := readVarIntFrom bits 0

/-- One more digit that continues a number. -/
theorem readVarIntFrom_digit (fits : m + 1 < 2 ^ bits) (number : n * 128 + m % 128 = m)
    {rest : Bytes} :
    readVarIntFrom bits n (ofNat (m % 128 + 128) :: rest) = readVarIntFrom bits (m + 1) rest := by
  have digit : (ofNat (m % 128 + 128)).toNat = m % 128 + 128 := by
    rw [toNat_ofNat', Nat.mod_eq_of_lt (by omega)]
  have low : (m % 128 + 128) % 128 = m % 128 := by omega
  simp only [readVarIntFrom, digit, low, number]
  rw [if_pos (by omega), Nat.mod_eq_of_lt (a := m) (by omega), Nat.mod_eq_of_lt fits]

/-- The digits that continue a number leave it, plus one, in the accumulator. -/
theorem readVarIntFrom_digits {room : Nat} (fits : m + 1 < 2 ^ bits) (enough : m < 128 ^ (room + 1))
    (rest : Bytes) : readVarIntFrom bits 0 ((varIntDigits (room + 1) false m).reverse ++ rest) =
      readVarIntFrom bits (m + 1) rest := by
  induction room generalizing m rest with
  | zero =>
    have small : m ≤ 0x7F := by omega
    simp only [varIntDigits, Bool.false_eq_true, ↓reduceIte, small, reverse_singleton,
      singleton_append]
    exact readVarIntFrom_digit fits (by omega)
  | succ room ih =>
    rw [varIntDigits]
    by_cases small : m ≤ 0x7F
    · simp only [Bool.false_eq_true, ↓reduceIte, small, reverse_singleton, singleton_append]
      exact readVarIntFrom_digit fits (by omega)
    · have smaller : m / 128 - 1 < 128 ^ (room + 1) := by
        have : m / 128 < 128 ^ (room + 1) := by
          rw [Nat.pow_succ] at enough
          exact Nat.div_lt_of_lt_mul (by rwa [Nat.mul_comm] at enough)
        omega
      have old := ih (m := m / 128 - 1) (by omega) smaller
        (ofNat (m % 128 + 128) :: rest)
      simp only [Bool.false_eq_true, ↓reduceIte, small, reverse_cons, append_assoc,
        singleton_append]
      rw [old, show m / 128 - 1 + 1 = m / 128 by omega]
      exact readVarIntFrom_digit fits (by omega)

theorem two_pow_le_digits (bits : Nat) : 2 ^ bits ≤ 128 ^ ((bits + 6) / 7) := by
  rw [show 128 = 2 ^ 7 by rfl, ← Nat.pow_mul]
  exact Nat.pow_le_pow_right (by decide) (by omega)

theorem readVarInt_writeVarInt (fits : n < 2 ^ bits) (pos : 0 < bits) :
    Decodes (readVarInt bits) (writeVarInt bits n) n := by
  intro _
  obtain ⟨room, shape⟩ : ∃ room, (bits + 6) / 7 = room + 1 := ⟨(bits + 6) / 7 - 1, by omega⟩
  have enough : n < 128 ^ (room + 1) := by
    rw [← shape]
    exact Nat.lt_of_lt_of_le fits (two_pow_le_digits bits)
  have digit : (ofNat (n % 128)).toNat = n % 128 := by
    rw [toNat_ofNat', Nat.mod_eq_of_lt (by omega)]
  have low : n % 128 % 128 = n % 128 := by omega
  simp only [readVarInt, writeVarInt, shape, varIntDigits, ↓reduceIte, Nat.add_zero, reverse_cons,
    append_assoc, singleton_append]
  by_cases small : n ≤ 0x7F
  · simp only [small, ↓reduceIte, reverse_nil, nil_append, readVarIntFrom, digit, low]
    rw [if_neg (by omega), Nat.mod_eq_of_lt (by omega), show 0 * 128 + n % 128 = n by omega]
  · simp only [small, ↓reduceIte]
    obtain ⟨old, rfl⟩ : ∃ old, room = old + 1 := by
      cases room with
      | zero => omega
      | succ old => exact ⟨old, rfl⟩
    have smaller : n / 128 - 1 < 128 ^ (old + 1) := by
      have : n / 128 < 128 ^ (old + 1) := by
        rw [Nat.pow_succ] at enough
        exact Nat.div_lt_of_lt_mul (by rwa [Nat.mul_comm] at enough)
      omega
    rw [readVarIntFrom_digits (by omega) smaller, show n / 128 - 1 + 1 = n / 128 by omega]
    simp only [readVarIntFrom, digit, low]
    rw [if_neg (by omega), show n / 128 * 128 + n % 128 = n by omega, Nat.mod_eq_of_lt fits]

end Zcashd.Source

import Zcashd.Abstract.Base58Strings
import Zcashd.Abstract.Bech32Strings

/-!
# Base58 and Bech32

Both encodings are undone by their decoders, and a string that is decoded is the encoding of the
result: for Base58 up to white space and to the first zero byte, for Bech32 up to case. The buffers
of the Base58 loops are large enough on every input, also on one that is refused half way through.
-/
namespace Zcashd.Guarantees.TextCodecs

open Lib Radix Source Source.Base58 Abstract.Base58Strings List

theorem encodeBase58_overflow {data : Bytes} (many : 2 ^ 31 ≤ (data.takeWhile (· == 0)).length) :
    encodeBase58 data = .error .signedOverflow := by
  simp only [encodeBase58, countZeroes, if_neg (Nat.not_lt.mpr many), bind, Except.bind]

/-- **Base58.** Every vector comes back from its encoding, and a string is refused or is, up to its
first zero byte and without the white space around it, the encoding of what it is decoded to. The
one thing that can go wrong is that `zeroes` overflows. No assertion fails: the loop of
`DecodeBase58` gets through any digits, whatever the `n` characters behind them are. -/
theorem base58_round_trip (data str : Bytes) (digits : List (Fin 58)) (n : Nat) :
    (if (data.takeWhile (· == 0)).length < 2 ^ 31 then
      ∃ text, encodeBase58 data = .ok text ∧ decodeBase58 text = .ok (some data)
    else encodeBase58 data = .error .signedOverflow) ∧
    (decodeBase58 str = .ok none ∨
      (∃ result, decodeBase58 str = .ok (some result) ∧
        encodeBase58 result = .ok (trim (cString str))) ∨
      2 ^ 31 ≤ (((cString str).dropWhile isspace).takeWhile (· == ofChar '1')).length ∧
        decodeBase58 str = .error .signedOverflow) ∧
    ∃ b256, mulAddAll 256 58 (digits.map Fin.val)
      (List.replicate ((digits.length + n) * 733 / 1000 + 1) 0) = .ok b256 := by
  refine ⟨?_, ?_, ?_⟩
  · split
    · rename_i few
      obtain ⟨text, encoded, decoded, solid⟩ := decode_encode (zeros_digitsOf data ▸ few)
      exact ⟨text, encoded, by rw [decodeBase58, cString_eq solid, decoded]⟩
    · rename_i many
      exact encodeBase58_overflow (Nat.not_lt.mp many)
  · rcases decodeCString_cases with refused | ⟨_, _, small, ends, line, few⟩ | overflow
    · exact .inl refused
    · have whole := decodeCString_eq small ends line few
      split at whole
      · exact .inl whole
      · exact .inr (.inl ⟨_, whole, encode_decode whole⟩)
    · exact .inr (.inr overflow)
  · have small : ∀ d ∈ digits.map Fin.val, d < 58 := by simp
    obtain ⟨b256, ran, -⟩ := decode_carries small n
    rw [length_map] at ran
    exact ⟨b256, ran⟩

/-- `2 ^ 31` zero bytes cannot be counted, and what stands behind a zero byte is not decoded. -/
theorem base58_exceptions : encodeBase58 (List.replicate (2 ^ 31) 0) = .error .signedOverflow ∧
    ∃ str, decodeBase58 str = .ok (some [1]) ∧ encodeBase58 [1] ≠ .ok (trim str) := by
  constructor
  · apply encodeBase58_overflow
    rw [takeWhile_replicate_eq_filter, filter_replicate_of_pos (by decide), length_replicate]
  · exact ⟨[ofChar '2', 0, ofChar '2'], by decide +kernel, by decide +kernel⟩

open Source.Bech32 Abstract.Bech32Strings

/-- **Bech32.** A pair comes back from its encoding, and the strings that stand for a pair are the
encoding of it up to case. -/
theorem bech32_round_trip (hrp str : Bytes) (values : List Nat) :
    (Readable hrp → (∀ v ∈ values, v < 32) → (encode hrp values).length ≤ 1023 →
      decode (encode hrp values) = (hrp, values)) ∧
    (decode str ≠ ([], []) → str.map lowerCase = encode (decode str).1 (decode str).2 ∧
      ∀ other, decode other = decode str → other.map lowerCase = str.map lowerCase) := by
  constructor
  · intro readable small short
    apply Abstract.Bech32Strings.decode_encode readable small
    simp only [encode_eq small, length_append, length_cons, length_map,
      length_createChecksum] at short
    omega
  · intro accepted
    have spelling : ∀ other, decode other = decode str →
        encode (decode str).1 (decode str).2 = other.map lowerCase :=
      fun other same => (Abstract.Bech32Strings.encode_decode same accepted).2
    exact ⟨(spelling str rfl).symm,
      fun other same => (spelling other same).symm.trans (spelling str rfl)⟩

/-- All 32 values under the prefix `abcdef`, also in upper case. -/
theorem bech32_round_trip_values :
    decode (encode ("abcdef".toList.map ofChar) (range 32)) =
      ("abcdef".toList.map ofChar, range 32) ∧
    ("ABCDEF1QPZRY9X8GF2TVDW0S3JN54KHCE6MUA7LMQQQXW".toList.map ofChar).map lowerCase =
      "abcdef1qpzry9x8gf2tvdw0s3jn54khce6mua7lmqqqxw".toList.map ofChar := by
  have round := bech32_round_trip ("abcdef".toList.map ofChar)
    ("ABCDEF1QPZRY9X8GF2TVDW0S3JN54KHCE6MUA7LMQQQXW".toList.map ofChar) (range 32)
  refine ⟨round.1 ⟨by decide, by decide +kernel⟩ (by simp) (by decide +kernel), ?_⟩
  rw [(round.2 (by decide +kernel)).1]
  decide +kernel

end Zcashd.Guarantees.TextCodecs

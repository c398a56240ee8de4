import Zcashd.Abstract.Base58Strings
import Zcashd.Abstract.Bech32Strings
import Zcashd.Source.KeyIO

/-!
# Addresses as strings

An address that is read back from its own string is the address, on every network. The other way
round, a string that is read as an address is its encoding, but for white space around it (Base58)
and for the case of its letters (Bech32). There is one exception: a Base58 string is read up to its
first zero byte only, so anything may stand behind one.
-/
namespace Zcashd.Guarantees.AddressStrings

open Option

open Lib Radix Source Source.Base58 Source.KeyIO Abstract.Base58Strings Bech32
  Abstract.Bech32Strings List UInt8
open SproutPaymentAddress

variable {H : HashFunction} {network : Network}

section

theorem hasPrefix_iff {front data : Bytes} {size : Nat} :
    hasPrefix front size data = true ↔ ∃ body, body.length = size ∧ data = front ++ body := by
  simp only [hasPrefix, Bool.and_eq_true, beq_iff_eq]
  constructor
  · rintro ⟨length, start⟩
    refine ⟨data.drop front.length, by rw [length_drop]; omega, ?_⟩
    conv_lhs => rw [← take_append_drop front.length data, start]
  · rintro ⟨_, _, rfl⟩
    exact ⟨by rw [length_append]; omega, take_left⟩

variable (type : Base58Type)

/-- No data starts with a zero byte. -/
theorem zeros_prefix (body : Bytes) : zeros (digitsOf (base58Prefix network type ++ body)) = 0 := by
  cases network <;> cases type <;> rfl

theorem length_base58Prefix : (base58Prefix network type).length = 2 := by
  cases network <;> cases type <;> rfl

theorem script_not_pubkey (body : Bytes) (size : Nat) :
    hasPrefix (base58Prefix network .PUBKEY_ADDRESS) size
      (base58Prefix network .SCRIPT_ADDRESS ++ body) = false := by
  cases network <;> simp [hasPrefix, base58Prefix]

/-- Data behind a prefix comes back from its string. -/
theorem decode_encode_prefix {type : Base58Type} {body : Bytes} :
    ∃ str, encodeBase58Check H (base58Prefix network type ++ body) = .ok str ∧
      decodeBase58Check H str = .ok (some (base58Prefix network type ++ body)) := by
  apply decode_encodeCheck
  rw [append_assoc, zeros_prefix]
  decide

end

theorem toList_copyBlob {n : Nat} {data : Bytes} (length : data.length = n) :
    (copyBlob n data).toList = data := by
  subst length
  apply ext_getElem
  · simp
  · intro i _ _
    simp [copyBlob]

theorem copyBlob_toList {n : Nat} (blob : Wire.Blob n) : copyBlob n blob.toList = blob :=
  Vector.toList_inj.mp (toList_copyBlob (by simp))

/-- What is read as a destination is the encoding of that destination. -/
theorem encode_decodeDestination {str : Bytes} {dest : CTxDestination}
    (decoded : decodeDestination H network str = .ok dest) (valid : dest ≠ .CNoDestination) :
    encodeDestination H network dest = .ok (trim (cString str)) := by
  unfold decodeDestination at decoded
  obtain ⟨hit, plain, decoded⟩ := except_bind_ok.mp decoded
  cases hit with
  | none =>
    cases decoded
    exact absurd rfl valid
  | some _ =>
    rw [← encode_decodeCheck plain]
    dsimp only at decoded
    split at decoded
    · rename_i pubkey
      obtain ⟨_, length, rfl⟩ := hasPrefix_iff.mp pubkey
      cases decoded
      rw [encodeDestination, drop_left, toList_copyBlob length]
    · split at decoded
      · rename_i script
        obtain ⟨_, length, rfl⟩ := hasPrefix_iff.mp script
        cases decoded
        rw [encodeDestination, drop_left, toList_copyBlob length]
      · cases decoded
        exact absurd rfl valid

theorem decode_encodeDestination (H : HashFunction) (network : Network) (dest : CTxDestination) :
    ∃ str, encodeDestination H network dest = .ok str ∧
      decodeDestination H network str = .ok dest := by
  cases dest with
  | CNoDestination => exact ⟨[], rfl, rfl⟩
  | CKeyID hash =>
    obtain ⟨str, encoded, decoded⟩ := decode_encode_prefix
    refine ⟨str, encoded, ?_⟩
    unfold decodeDestination
    rw [decoded]
    simp only [bind, Except.bind]
    rw [if_pos (hasPrefix_iff.mpr ⟨hash.toList, by simp, rfl⟩), drop_left, copyBlob_toList]
  | CScriptID hash =>
    obtain ⟨str, encoded, decoded⟩ := decode_encode_prefix
    refine ⟨str, encoded, ?_⟩
    unfold decodeDestination
    rw [decoded]
    simp only [bind, Except.bind, script_not_pubkey]
    rw [if_neg (by simp), if_pos (hasPrefix_iff.mpr ⟨hash.toList, by simp, rfl⟩), drop_left,
      copyBlob_toList]

section

variable {data : Bytes}

/-- Data of the right size is the encoding of what is read from it. -/
theorem readAll_eq_ok {T : Type} {read : Decoder T} {bytes : T → Bytes} {size : Nat}
    (exact : Exact read bytes (fun _ => True)) (length : ∀ value, (bytes value).length = size)
    (whole : data.length = size) {value : T} :
    readAll read data = .ok value ↔ data = bytes value := by
  unfold readAll
  constructor
  · intro done
    split at done
    · cases done
    · rename_i _ rest reads
      cases done
      have same := ((exact _ _ _).mp reads).2
      have sizes := congrArg List.length same
      rw [length_append, length, whole] at sizes
      have nothing : rest = [] := eq_nil_of_length_eq_zero (by omega)
      rw [same, nothing, append_nil]
  · rintro rfl
    have reads := exact.decodes (a := value) trivial []
    rw [append_nil] at reads
    rw [reads]

/-! The five-bit groups of a Sapling address. -/

theorem groups_of_bytes (size : data.length = 43) :
    ∃ groups, convertBits 8 5 true (data.map toNat) = some groups ∧ groups.length = 69 ∧
      (∀ v ∈ groups, v < 32) ∧ value 32 groups = value 256 (digitsOf data) * 2 := by
  have length : 5 * 69 = 8 * (digitsOf data).length + 1 := by rw [digitsOf, length_map, size]
  exact convertBits_pad (digitsOf_lt data) length (by decide)

variable {groups : List Nat}

theorem bytes_of_groups (size : groups.length = 69) (small : ∀ v ∈ groups, v < 32) :
    ∃ digits, digits.length = 43 ∧ (∀ v ∈ digits, v < 256) ∧
      value 32 groups / 2 = value 256 digits ∧
      convertBits 5 8 false groups = if value 32 groups % 2 ≠ 0 then none else some digits := by
  have length : 5 * groups.length = 8 * 43 + 1 := by rw [size]
  obtain ⟨digits, sizes, bytes, half, run⟩ := convertBits_exact small length (by decide)
  exact ⟨digits, sizes, bytes, half, by simpa using run⟩

/-- Bytes read from groups are written as the same groups. -/
theorem groups_back {digits : List Nat} (size : groups.length = 69) (small : ∀ v ∈ groups, v < 32)
    (converted : convertBits 5 8 false groups = some digits) :
    (bytesOf digits).length = 43 ∧
    convertBits 8 5 true ((bytesOf digits).map toNat) = some groups := by
  obtain ⟨_, length, bytes, _, result⟩ := bytes_of_groups size small
  rw [converted] at result
  split at result
  · cases result
  · cases result
    have sizeBytes : (bytesOf digits).length = 43 := by rw [bytesOf, length_map, length]
    obtain ⟨_, run, backLength, backSmall, double⟩ := groups_of_bytes sizeBytes
    rw [digitsOf_bytesOf bytes] at double
    refine ⟨sizeBytes, ?_⟩
    rw [run, value_inj (by decide) (backLength.trans size.symm) backSmall small (by omega)]

/-- Groups written for bytes are read as the same bytes. -/
theorem bytes_back (size : data.length = 43)
    (converted : convertBits 8 5 true (data.map toNat) = some groups) :
    groups.length = 69 ∧ (∀ v ∈ groups, v < 32) ∧
    convertBits 5 8 false groups = some (digitsOf data) := by
  obtain ⟨_, run, length, small, _⟩ := groups_of_bytes size
  rw [converted] at run
  cases run
  obtain ⟨digits, digitsLength, bytes, _, result⟩ := bytes_of_groups length small
  refine ⟨length, small, ?_⟩
  rw [result, if_neg (by omega)]
  have same : value 256 digits = value 256 (digitsOf data) := by omega
  rw [value_inj (by decide) (by rw [digitsLength, digitsOf, length_map, size]) bytes
    (digitsOf_lt data) same]

theorem readable_bech32HRP : Abstract.Bech32Strings.Readable (bech32HRP network) := by
  cases network <;> constructor <;> decide +kernel

variable {str : Bytes}

/-- What is read as a Sprout address is the encoding of that address. -/
theorem encode_decodeSprout {zaddr : SproutPaymentAddress}
    (decoded : decodePaymentAddress H network str = .ok (.sprout zaddr)) :
    encodePaymentAddress H network (.sprout zaddr) = .ok (trim (cString str)) := by
  unfold decodePaymentAddress decodeAny at decoded
  obtain ⟨_, plain, decoded⟩ := except_bind_ok.mp decoded
  dsimp only at decoded
  split at decoded
  · rename_i _ isSprout
    obtain ⟨rfl, sized⟩ := filter_eq_some_iff.mp isSprout
    obtain ⟨_, length, rfl⟩ := hasPrefix_iff.mp sized
    rw [drop_left] at decoded
    obtain ⟨_, read, done⟩ := except_bind_ok.mp decoded
    cases done
    obtain rfl := (readAll_eq_ok unserialize_exact length_bytes length).mp read
    exact encode_decodeCheck plain
  · split at decoded
    · split at decoded
      · obtain ⟨_, _, done⟩ := except_bind_ok.mp decoded
        cases done
      · cases decoded
    · cases decoded

/-- What is read as a Sapling address is the encoding of that address, in lower case. -/
theorem encode_decodeSapling {zaddr : SaplingPaymentAddress}
    (decoded : decodePaymentAddress H network str = .ok (.sapling zaddr)) :
    encodePaymentAddress H network (.sapling zaddr) = .ok (str.map lowerCase) := by
  unfold decodePaymentAddress decodeAny at decoded
  obtain ⟨_, -, decoded⟩ := except_bind_ok.mp decoded
  dsimp only at decoded
  split at decoded
  · obtain ⟨_, _, done⟩ := except_bind_ok.mp decoded
    cases done
  · split at decoded
    · rename_i shape
      obtain ⟨values, isValues⟩ : ∃ values, (decode str).2 = values := ⟨_, rfl⟩
      rw [isValues] at decoded shape
      have pair : decode str = (bech32HRP network, values) := Prod.ext shape.1 isValues
      obtain ⟨small, canonical⟩ :=
        encode_decode pair (by simp [readable_bech32HRP.nonempty])
      split at decoded
      · rename_i _ converted
        obtain ⟨_, read, done⟩ := except_bind_ok.mp decoded
        cases done
        obtain ⟨length, back⟩ := groups_back shape.2 small converted
        have bytes :=
          (readAll_eq_ok SaplingPaymentAddress.unserialize_exact SaplingPaymentAddress.length_bytes
          length).mp read
        rw [bytes] at back
        rw [encodePaymentAddress, back, getD_some, canonical]
      · cases decoded
    · cases decoded

theorem decode_encodeSprout (H : HashFunction) (network : Network) (zaddr : SproutPaymentAddress) :
    ∃ str, encodePaymentAddress H network (.sprout zaddr) = .ok str ∧
      decodePaymentAddress H network str = .ok (.sprout zaddr) := by
  obtain ⟨str, encoded, decoded⟩ := decode_encode_prefix
  refine ⟨str, encoded, ?_⟩
  have length := length_bytes zaddr
  have sized :
      hasPrefix (base58Prefix network .ZCPAYMENT_ADDRRESS) SerializedSproutPaymentAddressSize
      (base58Prefix network .ZCPAYMENT_ADDRRESS ++ zaddr.bytes) = true :=
        hasPrefix_iff.mpr ⟨_, length, rfl⟩
  have read := (readAll_eq_ok unserialize_exact length_bytes length).mpr rfl
  unfold decodePaymentAddress decodeAny
  rw [decoded]
  simp only [bind, Except.bind, filter_some, sized, if_true, drop_left, read, pure, Except.pure]

/-- The string of a Sapling address is too short for a Sprout address. -/
theorem not_sprout {values : List Nat} (length : values.length = 69)
    (small : ∀ v ∈ values, v < 32) :
    ∃ hit, decodeBase58Check H (encode (bech32HRP network) values) = .ok hit ∧
      hit.filter (hasPrefix (base58Prefix network .ZCPAYMENT_ADDRRESS)
        SerializedSproutPaymentAddressSize) = none := by
  obtain ⟨str, isStr⟩ : ∃ str, encode (bech32HRP network) values = str := ⟨_, rfl⟩
  have starts : ∃ line, str = ofChar 'z' :: line ∧ str.length ≤ 91 := by
    rw [encode_eq small] at isStr
    subst isStr
    cases network <;> exact ⟨_, rfl, by simp [bech32HRP, length, length_createChecksum]⟩
  obtain ⟨line, rfl, _⟩ := starts
  obtain ⟨hit, decoded, bound⟩ : ∃ hit, decodeBase58Check H (ofChar 'z' :: line) = .ok hit ∧ _ :=
    decodeCheck_starts H (by decide) (by decide) (by decide)
  refine ⟨hit, by rw [isStr, decoded], ?_⟩
  apply filter_eq_none_iff.mpr
  intro _ isData sized
  obtain ⟨_, size, rfl⟩ := hasPrefix_iff.mp sized
  have := bound _ isData
  rw [length_append, length_base58Prefix, size, SerializedSproutPaymentAddressSize] at this
  omega

theorem decode_encodeSapling (H : HashFunction) (network : Network)
    (zaddr : SaplingPaymentAddress) :
    ∃ str, encodePaymentAddress H network (.sapling zaddr) = .ok str ∧
      decodePaymentAddress H network str = .ok (.sapling zaddr) := by
  have length := SaplingPaymentAddress.length_bytes zaddr
  obtain ⟨groups, converted, -⟩ := groups_of_bytes length
  obtain ⟨size, small, back⟩ := bytes_back length converted
  refine ⟨_, rfl, ?_⟩
  rw [converted, getD_some]
  obtain ⟨_, decoded, notSprout⟩ := not_sprout size small
  have read : readAll SaplingPaymentAddress.unserialize ((digitsOf zaddr.bytes).map ofNat) =
      .ok zaddr := by
    have whole : (digitsOf zaddr.bytes).map ofNat = zaddr.bytes := bytesOf_digitsOf zaddr.bytes
    rw [whole]
    exact (readAll_eq_ok SaplingPaymentAddress.unserialize_exact SaplingPaymentAddress.length_bytes
      length).mpr rfl
  have short : (bech32HRP network).length + groups.length + 7 ≤ 1023 := by
    rw [size]
    cases network <;> decide
  have pair := decode_encode (readable_bech32HRP) small short
  unfold decodePaymentAddress decodeAny
  rw [decoded]
  simp only [bind, Except.bind, notSprout, pair]
  rw [if_pos ⟨trivial, size⟩, back]
  simp only [read, pure, Except.pure]

end

/-- Addresses come back from their strings, and strings from the addresses they are read as: a
Base58 string without the white space around it unless it has a zero byte, a Bech32 string in lower
case. -/
theorem address_strings_canonical (H : HashFunction) (network : Network) :
    (∀ str dest, decodeDestination H network str = .ok dest → dest ≠ .CNoDestination →
      ∃ e, encodeDestination H network dest = .ok e ∧ (e = trim str ↔ (0 : UInt8) ∉ str)) ∧
    (∀ str zaddr, decodePaymentAddress H network str = .ok (.sprout zaddr) →
      ∃ e, encodePaymentAddress H network (.sprout zaddr) = .ok e ∧
        (e = trim str ↔ (0 : UInt8) ∉ str)) ∧
    (∀ str zaddr, decodePaymentAddress H network str = .ok (.sapling zaddr) →
      encodePaymentAddress H network (.sapling zaddr) = .ok (str.map Bech32.lowerCase)) ∧
    (∀ dest, ∃ e, encodeDestination H network dest = .ok e ∧
      decodeDestination H network e = .ok dest) ∧
    (∀ zaddr, ∃ e, encodePaymentAddress H network zaddr = .ok e ∧
      decodePaymentAddress H network e = .ok zaddr) := by
  refine ⟨?_, ?_, ?_, decode_encodeDestination H network, ?_⟩
  · intro str _ decoded valid
    exact ⟨_, encode_decodeDestination decoded valid, trim_cString_iff str⟩
  · intro str _ decoded
    exact ⟨_, encode_decodeSprout decoded, trim_cString_iff str⟩
  · intro _ _ decoded
    exact encode_decodeSapling decoded
  · intro zaddr
    cases zaddr with
    | InvalidEncoding => exact ⟨[], rfl, by cases network <;> rfl⟩
    | sprout zaddr => exact decode_encodeSprout H network zaddr
    | sapling zaddr => exact decode_encodeSapling H network zaddr

/-- What stands behind a zero byte is ignored (here with a hash that is always zero). -/
theorem read_behind_zero_byte :
    ∃ (H : HashFunction) (dest : CTxDestination) (e : Bytes), dest ≠ .CNoDestination ∧
      encodeDestination H .main dest = .ok e ∧ decodeDestination H .main (e ++ [0, 33]) = .ok dest ∧
      trim (e ++ [0, 33]) = e ++ [0, 33] ∧ e ≠ trim (e ++ [0, 33]) := by
  refine ⟨fun _ => Vector.replicate 32 0, .CKeyID (Vector.replicate 20 0),
    ['t', '1', 'H', 's', 'c', '1', 'L', 'R',
      '8', 'y', 'K', 'n', 'b', 'b', 'e', '3', 't', 'w', 'R', 'p', '8', '8', 'p',
      '6', 'v', 'F', 'f', 'C', '5', 'n', 'o', 'd', 'W', 'N', 'B'].map ofChar, nofun, ?_, ?_, ?_, ?_⟩
  all_goals decide +kernel

end Zcashd.Guarantees.AddressStrings

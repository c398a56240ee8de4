import Zcashd.Source.Base58
import Zcashd.Lib.OptionLoops

/-!
# Base58 strings

Base58 is the change of base `Radix.recode` between digits of base 58 and of base 256. The arrays
the loops work on are large enough, so no assertion fails; a string that can be decoded is the
encoding of what it decodes to but for white space around it, and but for everything from a zero
byte on.
-/
namespace Zcashd.Abstract.Base58Strings

open Lib Radix Source Source.Base58 List Nat

variable {c : UInt8}

theorem charOf_digitOf {digit : Nat} (hit : digitOf c = some digit) :
    digit < 58 ∧ charOf digit = c := by
  obtain ⟨bound, same, -⟩ := findIdx?_eq_some_iff_getElem.mp hit
  refine ⟨bound, ?_⟩
  rw [charOf, getD_eq_getElem?_getD, getElem?_eq_getElem bound, Option.getD_some]
  simpa using same

theorem charOf_spec :
    ∀ digit < 58, digitOf (charOf digit) = some digit ∧ isspace (charOf digit) = false ∧
    charOf digit ≠ 0 ∧ (charOf digit = ofChar '1' ↔ digit = 0) := by
  decide +kernel

section

variable {base mult : Nat} {carries digits : List Nat}

/-- The loops compute the number, as long as it fits into the array. -/
theorem mulAddAll_ok (pos : 0 < base) (times : 0 < mult) (inArray : ∀ d ∈ digits, d < base)
    (fits : ofDigits base digits * mult ^ carries.length + value mult carries <
      base ^ digits.length) :
    ∃ result, mulAddAll base mult carries digits = .ok result ∧ (∀ d ∈ result, d < base) ∧
      ofDigits base result = ofDigits base digits * mult ^ carries.length + value mult carries := by
  induction carries generalizing digits with
  | nil => exact ⟨digits, rfl, inArray, by simp⟩
  | cons carry carries ih =>
    have number : value mult (carry :: carries) =
        carry * mult ^ carries.length + value mult carries := by
      rw [← singleton_append, value_append, value_singleton]
    have total : (ofDigits base digits * mult + carry) * mult ^ carries.length +
        value mult carries =
        ofDigits base digits * mult ^ (carry :: carries).length + value mult
          (carry :: carries) := by
      rw [number, length_cons, pow_succ]
      ring
    rw [← total] at fits ⊢
    have grows : ofDigits base digits * mult + carry ≤
        (Nat.ofDigits base digits * mult + carry) * mult ^ carries.length :=
      Nat.le_mul_of_pos_right _ (Nat.pow_pos times)
    obtain ⟨none, sum⟩ :=
      mulAdd_fits (by omega : Nat.ofDigits base digits * mult + carry < base ^ digits.length)
    rw [mulAddAll]
    simp only [none, ne_eq, not_true, if_false]
    rw [← sum]
    apply ih (mulAdd_lt pos)
    rw [sum, length_mulAdd]
    exact fits

/-- `num / den` is at least the ratio of the logarithms. -/
theorem pow_le_of_ratio {b b' num den : Nat} (pos : 0 < den) (base : 0 < b')
    (ratio : b ^ den ≤ b' ^ num) (n : Nat) :
    b ^ n ≤ b' ^ (n * num / den + 1) := by
  have rounded : n * num < den * (n * num / den + 1) := lt_mul_div_succ _ pos
  have powers : (b ^ n) ^ den ≤ (b' ^ (n * num / den + 1)) ^ den := by
    calc (b ^ n) ^ den = (b ^ den) ^ n := by rw [← pow_mul, ← pow_mul, Nat.mul_comm]
      _ ≤ (b' ^ num) ^ n := Nat.pow_le_pow_left ratio n
      _ = b' ^ (n * num) := by rw [← pow_mul, Nat.mul_comm]
      _ ≤ b' ^ (den * (n * num / den + 1)) := Nat.pow_le_pow_right base rounded.le
      _ = (b' ^ (n * num / den + 1)) ^ den := by rw [← pow_mul, Nat.mul_comm]
  exact le_of_pow_le_pow_left₀ (by omega) (zero_le _) powers

theorem decode_room (n : Nat) : 58 ^ n ≤ 256 ^ (n * 733 / 1000 + 1) :=
  pow_le_of_ratio (by decide) (by decide) (by decide +kernel) n

theorem encode_room {n : Nat} : 256 ^ n ≤ 58 ^ (n * 138 / 100 + 1) :=
  pow_le_of_ratio (by decide) (by decide) (by decide +kernel) n

/-- The loop from zeros on, with leading zeros skipped at the end. -/
theorem mulAddAll_strip {room : Nat} (base_gt : 1 < base) (mult_gt : 1 < mult)
    (inside : ∀ d ∈ carries, d < mult) (enough : mult ^ carries.length ≤ base ^ room) :
    ∃ result, mulAddAll base mult carries (replicate room 0) = .ok result ∧
      strip result.reverse = shortest base (value mult carries) := by
  have start : ofDigits base (replicate room 0) = 0 := ofDigits_replicate_zero ..
  have bound := value_lt mult_gt inside
  obtain ⟨result, ran, digits, number⟩ :
      ∃ result, mulAddAll base mult carries (replicate room 0) = .ok result ∧
      (∀ d ∈ result, d < base) ∧ ofDigits base result = _ := by
    apply mulAddAll_ok (by omega) (by omega)
    · intro d mem
      have := (mem_replicate.mp mem).2
      omega
    · rw [start, length_replicate]
      omega
  refine ⟨result, ran, ?_⟩
  rw [strip_eq base_gt (fun d mem => digits d (mem_reverse.mp mem)), value, reverse_reverse,
    number, start]
  simp

/-- The loop of `DecodeBase58` over digits that `n` more characters follow. -/
theorem decode_carries (inside : ∀ d ∈ carries, d < 58) (n : Nat) :
    ∃ b256, mulAddAll 256 58 carries
      (replicate ((carries.length + n) * 733 / 1000 + 1) 0) = .ok b256 ∧
      strip b256.reverse = shortest 256 (value 58 carries) := by
  apply mulAddAll_strip (by decide) (by decide) inside
  apply (decode_room _).trans
  apply Nat.pow_le_pow_right (by decide)
  omega

end

section

/-- White space around a string is not part of it. -/
def trim (s : Bytes) : Bytes := ((s.dropWhile isspace).reverse.dropWhile isspace).reverse

def bytesOf (digits : List Nat) : Bytes := digits.map UInt8.ofNat

def digitsOf (bytes : Bytes) : List Nat := bytes.map UInt8.toNat

theorem bytesOf_digitsOf (bytes : Bytes) : bytesOf (digitsOf bytes) = bytes := by
  simp [bytesOf, digitsOf, Function.comp_def]

variable {digits : List Nat}

theorem digitsOf_bytesOf (small : ∀ d ∈ digits, d < 256) : digitsOf (bytesOf digits) = digits := by
  simp only [digitsOf, bytesOf, map_map]
  refine (map_congr_left fun d mem => ?_).trans (map_id digits)
  simpa using small d mem

theorem digitsOf_lt (bytes : Bytes) : ∀ d ∈ digitsOf bytes, d < 256 := by
  intro d mem
  obtain ⟨byte, -, rfl⟩ := mem_map.mp mem
  exact byte.toNat_lt

/-- The digits end with the string or with a space. -/
def EndsDigits (rest : Bytes) : Prop := ∀ c ∈ rest.head?, isspace c = true

variable {rest : Bytes} {s str : Bytes}

theorem readDigits_some (read : readDigits s = some (digits, rest)) :
    s = digits.map charOf ++ rest ∧ (∀ d ∈ digits, d < 58) ∧ EndsDigits rest := by
  induction s generalizing digits with
  | nil =>
    cases read
    simp [EndsDigits]
  | cons c s _ =>
    unfold readDigits at read
    split at read
    · rename_i space
      cases read
      simp [EndsDigits, space]
    · split at read
      · cases read
      · rename_i digit hit
        obtain ⟨⟨_, _⟩, _, same⟩ := Option.map_eq_some_iff.mp read
        cases same
        obtain ⟨_, _⟩ := charOf_digitOf hit
        grind

theorem readDigits_eq (small : ∀ d ∈ digits, d < 58) (ends : EndsDigits rest) :
    readDigits (digits.map charOf ++ rest) = some (digits, rest) := by
  induction digits with
  | nil =>
    cases rest with
    | nil => rfl
    | cons c _ => simp [readDigits, ends c rfl]
  | cons d _ ih =>
    obtain ⟨digit, noSpace, -⟩ := charOf_spec d (small d mem_cons_self)
    rw [map_cons, cons_append, readDigits]
    simp [digit, noSpace, ih (fun d mem => small d (mem_cons_of_mem _ mem))]

theorem trim_eq {body : Bytes} (split : s.dropWhile isspace = body ++ rest)
    (solid : ∀ c ∈ body, isspace c = false) (spaces : rest.dropWhile isspace = []) :
    trim s = body := by
  have trailing : rest.reverse.dropWhile isspace = [] := by
    simpa [dropWhile_eq_nil_iff] using spaces
  rw [trim, split, reverse_append, dropWhile_append, trailing]
  have kept : body.reverse.dropWhile isspace = body.reverse := by
    rw [dropWhile_eq_self_iff]
    grind
  simp [kept]

theorem charOf_zero : charOf 0 = ofChar '1' := (charOf_spec 0 (by decide)).2.2.2.mpr rfl

/-- Leading zeros are the ones in front. -/
theorem takeWhile_one (small : ∀ d ∈ digits, d < 58) (ends : EndsDigits rest) :
    (digits.map charOf ++ rest).takeWhile (· == ofChar '1') =
      replicate (zeros digits) (ofChar '1') := by
  induction digits with
  | nil =>
    cases rest with
    | nil => rfl
    | cons c _ =>
      have other : c ≠ ofChar '1' := by
        rintro rfl
        exact absurd (ends _ rfl) (by decide)
      simp [other, zeros]
  | cons d _ ih =>
    have one := (charOf_spec d (small d mem_cons_self)).2.2.2
    rw [map_cons, cons_append, takeWhile_cons, zeros, takeWhile_cons]
    by_cases zero : d = 0
    · subst zero
      simp only [charOf_zero, beq_self_eq_true, if_true, length_cons, replicate_succ,
        cons.injEq, true_and]
      exact ih (fun d mem => small d (mem_cons_of_mem _ mem))
    · simp [zero, mt one.mp zero]

variable {psz : Bytes}

/-- What `DecodeBase58` makes of digits. -/
theorem decodeCString_eq (small : ∀ d ∈ digits, d < 58) (ends : EndsDigits rest)
    (split : psz.dropWhile isspace = digits.map charOf ++ rest) (few : zeros digits < 2 ^ 31) :
    decodeCString psz = .ok (if rest.dropWhile isspace ≠ [] then none
      else some (bytesOf (recode 58 256 digits))) := by
  have after : (digits.map charOf ++ rest).drop (zeros digits) =
      (strip digits).map charOf ++ rest := by
    have parts : digits.map charOf =
        replicate (zeros digits) (charOf 0) ++ (strip digits).map charOf := by
      conv_lhs => rw [← zeros_append_strip digits, map_append, map_replicate]
    rw [parts, append_assoc]
    exact drop_left' (by simp)
  have smaller : ∀ d ∈ strip digits, d < 58 :=
    fun d mem => small d ((dropWhile_sublist _).subset mem)
  have number : value 58 (strip digits) = value 58 digits := by
    conv_rhs => rw [← zeros_append_strip digits, value_replicate_append]
  have size : ((strip digits).map charOf ++ rest).length = (strip digits).length + rest.length := by
    simp
  obtain ⟨_, ran, stripped⟩ := decode_carries smaller rest.length
  unfold decodeCString
  simp only [split, takeWhile_one small ends, length_replicate, countZeroes, if_pos few, bind,
    Except.bind, after, size, readDigits_eq smaller ends, ran, stripped, number]
  split
  · rfl
  · simp [bytesOf, recode]

variable {line : Bytes}

/-- The ones in front are digits too. -/
theorem line_digits (few : (line.takeWhile (· == ofChar '1')).length < 2 ^ 31)
    (read : readDigits (line.drop (line.takeWhile (· == ofChar '1')).length) =
      some (digits, rest)) :
    ∃ all, (∀ d ∈ all, d < 58) ∧ EndsDigits rest ∧ line = all.map charOf ++ rest ∧
      zeros all < 2 ^ 31 := by
  obtain ⟨split, _, ends⟩ := readDigits_some read
  have ones : line.takeWhile (· == ofChar '1') = replicate (line.takeWhile (· == ofChar '1')).length
      (ofChar '1') := by
    apply eq_replicate_of_mem
    intro c mem
    simpa using mem_takeWhile_imp mem
  have smaller : ∀ d ∈ replicate (line.takeWhile (· == ofChar '1')).length 0 ++ digits, d < 58 := by
    grind
  have whole : line =
      (replicate (line.takeWhile (· == ofChar '1')).length 0 ++ digits).map charOf ++ rest := by
    have front := prefix_iff_eq_take.mp ( takeWhile_prefix (p := (· == ofChar '1')) (l := line))
    have parts := take_append_drop (line.takeWhile (· == ofChar '1')).length line
    rw [← front] at parts
    rw [map_append, map_replicate, charOf_zero, ← ones, append_assoc, ← split]
    exact parts.symm
  refine ⟨_, smaller, ends, whole, ?_⟩
  have count := congrArg length (takeWhile_one smaller ends)
  rw [← whole, length_replicate] at count
  rwa [← count]

/-- No assertion fails: `DecodeBase58` returns unless the ones in front cannot be counted. -/
theorem decodeCString_cases : decodeCString psz = .ok none ∨
    (∃ digits rest, (∀ d ∈ digits, d < 58) ∧ EndsDigits rest ∧
      psz.dropWhile isspace = digits.map charOf ++ rest ∧ zeros digits < 2 ^ 31) ∨
    (2 ^ 31 ≤ ((psz.dropWhile isspace).takeWhile (· == ofChar '1')).length ∧
      decodeCString psz = .error .signedOverflow) := by
  by_cases few : ((psz.dropWhile isspace).takeWhile (· == ofChar '1')).length < 2 ^ 31
  · cases read :
      readDigits ((psz.dropWhile isspace).drop
      ((psz.dropWhile isspace).takeWhile (· == ofChar '1')).length) with
    | none =>
      left
      simp only [decodeCString, countZeroes, if_pos few, bind, Except.bind, read]
    | some hit =>
      obtain ⟨all, small, ends, line, bound⟩ := line_digits few read
      exact .inr (.inl ⟨all, hit.2, small, ends, line, bound⟩)
  · refine .inr (.inr ⟨by omega, ?_⟩)
    simp only [decodeCString, countZeroes, if_neg few, bind, Except.bind]

variable {data : Bytes}

/-- A string that is decoded is digits with white space around them. -/
theorem decodeCString_some (decoded : decodeCString psz = .ok (some data)) :
    ∃ digits, (∀ d ∈ digits, d < 58) ∧ trim psz = digits.map charOf ∧ zeros digits < 2 ^ 31 ∧
      data = bytesOf (recode 58 256 digits) := by
  rcases decodeCString_cases with none | ⟨digits, _, small, ends, line, few⟩ | ⟨-, overflow⟩
  · cases none.symm.trans decoded
  · have whole := decodeCString_eq small ends line few
    rw [decoded] at whole
    split at whole
    · cases whole
    · rename_i trailing
      cases whole
      refine ⟨digits, small, trim_eq line ?_ (not_not.mp trailing), few, rfl⟩
      grind [charOf_spec]
  · cases overflow.symm.trans decoded

/-- With no one in front the data is shorter than the string, and the ones can be counted. -/
theorem decodeCString_starts (solid : isspace c = false) (notOne : c ≠ ofChar '1') :
    ∃ result, decodeCString (c :: line) = .ok result ∧
      ∀ data, result = some data → data.length ≤ (c :: line).length * 733 / 1000 + 1 := by
  have front : (c :: line).dropWhile isspace = c :: line := by
    rw [dropWhile_cons_of_neg (by simp [solid])]
  rcases decodeCString_cases with none | ⟨digits, _, small, ends, split, few⟩ | ⟨many, -⟩
  · exact ⟨_, none, nofun⟩
  · refine ⟨_, decodeCString_eq small ends split few, ?_⟩
    intro _ hit
    have noZeros : zeros digits = 0 := by
      cases digits with
      | nil => rfl
      | cons d _ =>
        rw [front, map_cons, cons_append] at split
        have first : charOf d = c := (cons.inj split).1.symm
        have nonzero : d ≠ 0 :=
          fun zero => notOne (first ▸ (charOf_spec d (small d mem_cons_self)).2.2.2.mpr zero)
        simp [zeros, nonzero]
    have shorter : digits.length ≤ (c :: line).length := by
      rw [← front, split, length_append, length_map]
      omega
    have bound := calc value 58 digits < 58 ^ digits.length := value_lt (by decide) small
        _ ≤ 58 ^ (c :: line).length := Nat.pow_le_pow_right (by decide) shorter
        _ ≤ 256 ^ ((c :: line).length * 733 / 1000 + 1) := decode_room _
    split at hit
    · cases hit
    · cases hit
      rw [bytesOf, length_map, recode, noZeros, replicate_zero, nil_append]
      exact length_shortest_le (by decide) bound
  · rw [front, takeWhile_cons_of_neg (by simpa using notOne)] at many
    simp at many

theorem zeros_digitsOf (data : Bytes) :
    zeros (digitsOf data) = (data.takeWhile (· == 0)).length := by
  rw [zeros, digitsOf, takeWhile_map, length_map]
  congr 2
  funext byte
  simp [← UInt8.toNat_inj]

/-- `EncodeBase58` is the change of base. -/
theorem encodeBase58_eq (few : zeros (digitsOf data) < 2 ^ 31) :
    encodeBase58 data = .ok ((recode 256 58 (digitsOf data)).map charOf) := by
  have after : (data.drop (zeros (digitsOf data))).map UInt8.toNat = strip (digitsOf data) := by
    rw [map_drop]
    exact drop_zeros (digitsOf data)
  have smaller : ∀ d ∈ strip (digitsOf data), d < 256 :=
    fun d mem => digitsOf_lt data d ((dropWhile_sublist _).subset mem)
  have number : value 256 (strip (digitsOf data)) = value 256 (digitsOf data) := by
    conv_rhs => rw [← zeros_append_strip (digitsOf data), value_replicate_append]
  have size : (data.drop (zeros (digitsOf data))).length = (strip (digitsOf data)).length := by
    rw [← after, length_map]
  obtain ⟨_, ran, stripped⟩ := mulAddAll_strip (by decide) (by decide) smaller
    (encode_room)
  unfold encodeBase58
  simp only [← zeros_digitsOf, countZeroes, if_pos few, bind, Except.bind, after, size, ran,
    stripped, number, recode, map_append, map_replicate, charOf_zero]

theorem zeros_bytesOf (digits : List Nat) :
    zeros (digitsOf (bytesOf (recode 58 256 digits))) = zeros digits := by
  rw [digitsOf_bytesOf (digits_recode (by decide)), zeros_recode]

/-- Decoding and encoding again takes the white space away. -/
theorem encode_decode (decoded : decodeCString psz = .ok (some data)) :
    encodeBase58 data = .ok (trim psz) := by
  obtain ⟨_, small, trimmed, _, rfl⟩ := decodeCString_some decoded
  rw [encodeBase58_eq (by rwa [zeros_bytesOf]), digitsOf_bytesOf (digits_recode (by decide)),
    recode_recode (by decide) small, trimmed]

/-- An encoding is decoded to what it encodes; it has no zero byte. -/
theorem decode_encode (few : zeros (digitsOf data) < 2 ^ 31) :
    ∃ str, encodeBase58 data = .ok str ∧ decodeCString str = .ok (some data) ∧
    (0 : UInt8) ∉ str := by
  have small : ∀ d ∈ recode 256 58 (digitsOf data), d < 58 := digits_recode (by decide)
  refine ⟨_, encodeBase58_eq few, ?_, ?_⟩
  · have solid : ((recode 256 58 (digitsOf data)).map charOf).dropWhile isspace =
        (recode 256 58 (digitsOf data)).map charOf ++ [] := by
      rw [append_nil, dropWhile_eq_self_iff]
      grind [charOf_spec]
    rw [decodeCString_eq small (by simp [EndsDigits]) solid (by rwa [zeros_recode]),
      recode_recode (by decide) (digitsOf_lt data), bytesOf_digitsOf]
    rfl
  · grind [charOf_spec]

end

section

variable {H : HashFunction}

theorem length_checksum (H : HashFunction) (data : Bytes) : (checksum H data).length = 4 := by
  simp [checksum]

/-- What `DecodeBase58Check` accepts is an encoding with white space around it, up to a zero
byte. -/
theorem encode_decodeCheck (decoded : decodeBase58Check H str = .ok (some data)) :
    encodeBase58Check H data = .ok (trim (cString str)) := by
  obtain ⟨result, plain, decoded⟩ := except_bind_ok.mp decoded
  cases result with
  | none => cases decoded
  | some _ =>
    dsimp only at decoded
    split at decoded <;> try cases decoded
    split at decoded <;> try cases decoded
    rename_i same
    rw [encodeBase58Check, not_not.mp same, take_append_drop]
    exact encode_decode plain

theorem cString_eq (solid : (0 : UInt8) ∉ str) : cString str = str := by
  rw [cString, takeWhile_eq_self_iff]
  intro c mem
  simp only [bne_iff_ne, ne_eq]
  rintro rfl
  exact solid mem

theorem mem_trim (solid : isspace c = false) : c ∈ trim s ↔ c ∈ s := by
  have kept : ∀ l : Bytes, c ∈ l.dropWhile isspace ↔ c ∈ l := by
    intro l
    refine ⟨fun mem => (dropWhile_sublist _).subset mem, fun mem => ?_⟩
    rw [← takeWhile_append_dropWhile (p := isspace) (l := l), mem_append] at mem
    rcases mem with space | rest
    · have := mem_takeWhile_imp space
      rw [solid] at this
      cases this
    · exact rest
  rw [trim, mem_reverse, kept, mem_reverse, kept]

/-- What stands behind a zero byte is lost. -/
theorem trim_cString_iff (s : Bytes) : trim (cString s) = trim s ↔ (0 : UInt8) ∉ s := by
  constructor
  · intro same zero
    have inside : (0 : UInt8) ∈ trim (cString s) := by
      rw [same]
      exact (mem_trim rfl).mpr zero
    have := mem_takeWhile_imp ((mem_trim rfl).mp inside)
    simp at this
  · intro solid
    rw [cString_eq solid]

theorem decodeCheck_starts (H : HashFunction) (solid : isspace c = false)
    (notOne : c ≠ ofChar '1') (nonzero : c ≠ 0) :
    ∃ result, decodeBase58Check H (c :: line) = .ok result ∧
      ∀ data, result = some data → data.length + 4 ≤ (c :: line).length * 733 / 1000 + 1 := by
  have text : cString (c :: line) = c :: cString line :=
    takeWhile_cons_of_pos (by simpa using nonzero)
  have shorter : (c :: cString line).length ≤ (c :: line).length := by
    rw [← text]
    exact (takeWhile_sublist _).length_le
  obtain ⟨plain, decoded, bound⟩ := decodeCString_starts solid notOne
  unfold decodeBase58Check decodeBase58
  rw [text, decoded]
  cases plain with
  | none => exact ⟨none, rfl, nofun⟩
  | some vch =>
    have size := bound vch rfl
    simp only [bind, Except.bind]
    split
    · exact ⟨none, rfl, nofun⟩
    · split
      · exact ⟨none, rfl, nofun⟩
      · refine ⟨_, rfl, ?_⟩
        rintro _ ⟨⟩
        rw [length_take]
        omega

theorem decode_encodeCheck (few : zeros (digitsOf (data ++ checksum H data)) < 2 ^ 31) :
    ∃ str, encodeBase58Check H data = .ok str ∧ decodeBase58Check H str = .ok (some data) := by
  obtain ⟨str, encoded, decoded, solid⟩ := decode_encode few
  refine ⟨str, encoded, ?_⟩
  have size : (data ++ checksum H data).length - 4 = data.length := by
    rw [length_append, length_checksum]
    omega
  unfold decodeBase58Check decodeBase58
  rw [cString_eq solid, decoded]
  simp only [bind, Except.bind, size, take_left, drop_left, ne_eq, not_true, if_false]
  rw [if_neg (by rw [length_append, length_checksum]; omega)]

end

end Zcashd.Abstract.Base58Strings

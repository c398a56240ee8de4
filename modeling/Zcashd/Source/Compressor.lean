import Zcashd.Source.Serialize

/-!
Compact outputs (`src/compressor.{h,cpp}`): amounts with their trailing zeros counted, and
six script templates stored as a code and a hash or key. What the template for uncompressed
keys needs of secp256k1 is a parameter, with the one law that makes it reversible.
-/
namespace Zcashd.Source

open Lib List

def OP_DUP : UInt8 := 0x76
def OP_EQUAL : UInt8 := 0x87
def OP_EQUALVERIFY : UInt8 := 0x88
def OP_HASH160 : UInt8 := 0xa9
def OP_CHECKSIG : UInt8 := 0xac

/-- `CPubKey::IsFullyValid` and `CPubKey::Decompress`. A valid key on the curve is determined
by its first coordinate and the parity of its second. -/
structure PubKeyLibrary where
  isFullyValid : Bytes → Bool
  decompress : Bytes → Option Bytes
  decompress_valid : ∀ x y : Bytes, x.length = 32 → y.length = 32 →
    isFullyValid (0x04 :: x ++ y) = true →
    decompress ((if (y.getLast?.getD 0).toNat % 2 = 1 then 0x03 else 0x02) :: x) =
      some (0x04 :: x ++ y)

/-- No uncompressed key is valid: the library of concrete runs. -/
def PubKeyLibrary.none : PubKeyLibrary := ⟨fun _ => false, fun _ => .none, nofun⟩

/-! Amounts -/

/-- `while (n % 10 == 0 && e < 9)`: what is left of `n`, and `e`. -/
def stripZeros : Nat → Nat → Nat × Nat
  | 0, n => (n, 0)
  | rounds + 1, n =>
    if n % 10 = 0 then
      let stripped := stripZeros rounds (n / 10)
      (stripped.1, stripped.2 + 1)
    else (n, 0)

def compressAmount (n : Nat) : Nat :=
  if n = 0 then 0
  else
    let (n, e) := stripZeros 9 n
    if e < 9 then (1 + (n / 10 * 9 + n % 10 - 1) * 10 + e) % 2 ^ 64
    else (1 + (n - 1) * 10 + 9) % 2 ^ 64

/-- `while (e) n *= 10`. -/
def timesTen : Nat → Nat → Nat
  | 0, n => n
  | e + 1, n => timesTen e (n * 10 % 2 ^ 64)

def decompressAmount (x : Nat) : Nat :=
  if x = 0 then 0
  else
    let e := (x - 1) % 10
    let x := (x - 1) / 10
    timesTen e (if e < 9 then x / 9 * 10 + (x % 9 + 1) else x + 1)

theorem stripZeros_spec (rounds n : Nat) :
    n = (stripZeros rounds n).1 * 10 ^ (stripZeros rounds n).2 ∧ (stripZeros rounds n).2 ≤ rounds ∧
      ((stripZeros rounds n).2 < rounds → (stripZeros rounds n).1 % 10 ≠ 0) := by
  induction rounds generalizing n with
  | zero => simp [stripZeros]
  | succ _ ih =>
    rw [stripZeros]
    by_cases round : n % 10 = 0
    · rw [if_pos round]
      obtain ⟨value, few, last⟩ := ih (n / 10)
      refine ⟨?_, Nat.succ_le_succ few, fun fewer => last (by simpa using fewer)⟩
      rw [Nat.pow_succ, ← Nat.mul_assoc, ← value]
      omega
    · rw [if_neg round]
      exact ⟨by simp, Nat.zero_le _, fun _ => round⟩

theorem timesTen_eq {e n : Nat} (fits : n * 10 ^ e < 2 ^ 64) : timesTen e n = n * 10 ^ e := by
  induction e generalizing n with
  | zero => simp [timesTen]
  | succ e ih =>
    have product : n * 10 ^ (e + 1) = n * 10 * 10 ^ e := by
      rw [Nat.pow_succ, Nat.mul_comm (10 ^ e), Nat.mul_assoc]
    have smaller : n * 10 < 2 ^ 64 := by
      have : n * 10 ≤ n * 10 * 10 ^ e := Nat.le_mul_of_pos_right _ (Nat.pow_pos (by decide))
      omega
    rw [timesTen, Nat.mod_eq_of_lt smaller, ih (by omega), product]

/-- Amounts up to a tenth of the word come back. -/
theorem decompressAmount_compressAmount {n : Nat} (small : n < 2 ^ 60) :
    compressAmount n < 2 ^ 64 ∧ decompressAmount (compressAmount n) = n := by
  unfold compressAmount
  by_cases zero : n = 0
  · simp [zero, decompressAmount]
  rw [if_neg zero]
  obtain ⟨value, few, last⟩ := stripZeros_spec 9 n
  generalize stripZeros 9 n = stripped at value few last
  obtain ⟨m, e⟩ := stripped
  dsimp only at value few last ⊢
  have le : m ≤ n := by
    rw [value]
    exact Nat.le_mul_of_pos_right _ (Nat.pow_pos (by decide))
  by_cases exponent : e < 9
  · have digit := last exponent
    rw [if_pos exponent, Nat.mod_eq_of_lt (by omega)]
    refine ⟨by omega, ?_⟩
    have shape : 1 + (m / 10 * 9 + m % 10 - 1) * 10 + e - 1 =
        (m / 10 * 9 + m % 10 - 1) * 10 + e := by omega
    rw [decompressAmount, if_neg (by omega), shape]
    dsimp only
    rw [show ((m / 10 * 9 + m % 10 - 1) * 10 + e) % 10 = e by omega,
      show ((m / 10 * 9 + m % 10 - 1) * 10 + e) / 10 = m / 10 * 9 + m % 10 - 1 by omega,
      if_pos exponent,
      show (m / 10 * 9 + m % 10 - 1) / 9 * 10 + ((m / 10 * 9 + m % 10 - 1) % 9 + 1) = m by omega,
      timesTen_eq (by omega)]
    exact value.symm
  · obtain rfl : e = 9 := by omega
    rw [if_neg exponent, Nat.mod_eq_of_lt (by omega)]
    refine ⟨by omega, ?_⟩
    rw [decompressAmount, if_neg (by omega),
      show 1 + (m - 1) * 10 + 9 - 1 = (m - 1) * 10 + 9 by omega]
    dsimp only
    rw [show ((m - 1) * 10 + 9) % 10 = 9 by omega, if_neg (by omega),
      show ((m - 1) * 10 + 9) / 10 + 1 = m by omega, timesTen_eq (by omega)]
    exact value.symm

/-! Scripts -/

def isToKeyID (script : CScript) : Option Bytes :=
  if script.length = 25 ∧ script.take 3 = [OP_DUP, OP_HASH160, 20] ∧
      script.drop 23 = [OP_EQUALVERIFY, OP_CHECKSIG] then
    some ((script.drop 3).take 20)
  else none

def isToScriptID (script : CScript) : Option Bytes :=
  if script.length = 23 ∧ script.take 2 = [OP_HASH160, 20] ∧ script.drop 22 = [OP_EQUAL] then
    some ((script.drop 2).take 20)
  else none

def isToPubKey (lib : PubKeyLibrary) (script : CScript) : Option Bytes :=
  if script.length = 35 ∧ script.take 1 = [33] ∧ script.drop 34 = [OP_CHECKSIG] ∧
      ((script.drop 1).head? = some 0x02 ∨ (script.drop 1).head? = some 0x03) then
    some ((script.drop 1).take 33)
  else if script.length = 67 ∧ script.take 1 = [65] ∧ script.drop 66 = [OP_CHECKSIG] ∧
      (script.drop 1).head? = some 0x04 ∧ lib.isFullyValid ((script.drop 1).take 65) = true then
    some ((script.drop 1).take 65)
  else none

/-- The code of a key: its own first byte, or 4 or 5 by the parity of an uncompressed one. -/
def keyCode (pubkey : Bytes) : UInt8 :=
  if pubkey.head? = some 0x04 then (if (pubkey.getLast?.getD 0).toNat % 2 = 1 then 0x05 else 0x04)
  else pubkey.head?.getD 0

def compress (lib : PubKeyLibrary) (script : CScript) : Option Bytes :=
  match isToKeyID script with
  | some keyID => some (0x00 :: keyID)
  | none =>
    match isToScriptID script with
    | some scriptID => some (0x01 :: scriptID)
    | none => (isToPubKey lib script).map (fun pubkey => keyCode pubkey :: (pubkey.drop 1).take 32)

def getSpecialSize (nSize : Nat) : Nat :=
  if nSize = 0 ∨ nSize = 1 then 20 else if nSize = 2 ∨ nSize = 3 ∨ nSize = 4 ∨
    nSize = 5 then 32 else 0

/-- `Decompress`; a key that does not decompress leaves the script as it was, empty. -/
def decompress (lib : PubKeyLibrary) (nSize : Nat) (input : Bytes) : CScript :=
  match nSize with
  | 0 => [OP_DUP, OP_HASH160, 20] ++ input ++ [OP_EQUALVERIFY, OP_CHECKSIG]
  | 1 => [OP_HASH160, 20] ++ input ++ [OP_EQUAL]
  | 2 => 33 :: 0x02 :: input ++ [OP_CHECKSIG]
  | 3 => 33 :: 0x03 :: input ++ [OP_CHECKSIG]
  | 4 =>
    ((lib.decompress (0x02 :: input)).map (fun pubkey => 65 :: pubkey ++ [OP_CHECKSIG])).getD []
  | 5 =>
    ((lib.decompress (0x03 :: input)).map (fun pubkey => 65 :: pubkey ++ [OP_CHECKSIG])).getD []
  | _ => []

def nSpecialScripts : Nat := 6

/-- `CScriptCompressor::Serialize`. -/
def writeScript (lib : PubKeyLibrary) (script : CScript) : Bytes :=
  match compress lib script with
  | some compr => compr
  | none => writeVarInt 32 (script.length + nSpecialScripts) ++ script

/-- `CScriptCompressor::Unserialize` into an empty script. -/
def readScript (lib : PubKeyLibrary) : Decoder CScript := do
  let nSize ← readVarInt 32
  if nSize < nSpecialScripts then
    let vch ← Decoder.take (getSpecialSize nSize)
    pure (decompress lib nSize vch)
  else if nSize - nSpecialScripts > MAX_SCRIPT_SIZE then
    let _ ← Decoder.take (nSize - nSpecialScripts)
    pure [OP_RETURN]
  else Decoder.take (nSize - nSpecialScripts)

/-- `CTxOutCompressor`. -/
def writeTxOut (lib : PubKeyLibrary) (txout : CTxOut) : Bytes :=
  writeVarInt 64 (compressAmount (txout.nValue % 2 ^ 64).toNat) ++
    writeScript lib txout.scriptPubKey

def readTxOut (lib : PubKeyLibrary) : Decoder CTxOut := do
  let nVal ← readVarInt 64
  let script ← readScript lib
  pure ⟨(decompressAmount nVal : Int).bmod (2 ^ 64), script⟩

/-- A special form: its code is a one byte `VARINT`, the rest has the size the code says. -/
theorem readScript_special {lib : PubKeyLibrary} {code : UInt8} {body : Bytes} {script : CScript}
    (special : code.toNat < nSpecialScripts) (size : body.length = getSpecialSize code.toNat)
    (value : decompress lib code.toNat body = script) :
    Decodes (readScript lib) (code :: body) script := by
  have limit : nSpecialScripts = 6 := rfl
  have digit : Decodes (readVarInt 32) [code] code.toNat := by
    intro rest
    change readVarIntFrom 32 0 (code :: rest) = _
    rw [readVarIntFrom, if_neg (by omega), Nat.mod_eq_of_lt (by omega),
      show 0 * 128 + code.toNat % 128 = code.toNat by omega]
  refine digit.bind ?_
  rw [if_pos special, ← size, ← value]
  exact (Decodes.take body).last (decompress lib code.toNat)

/-- A list in three parts, the outer two known. -/
private theorem parts {α : Type} {l first last : List α} (i n : Nat) (front : l.take i = first)
    (back : l.drop (i + n) = last) : l = first ++ ((l.drop i).take n ++ last) := by
  rw [← front, ← back, ← drop_drop, take_append_drop, take_append_drop]

/-- A key with its first byte set apart. -/
private theorem key_shape {script : CScript} {first : UInt8} {n : Nat}
    (head : (script.drop 1).head? = some first) :
    (script.drop 1).take (n + 1) = first :: (script.drop 2).take n := by
  cases tail : script.drop 1 with
  | nil => rw [tail] at head; cases head
  | cons b rest =>
    rw [tail] at head
    have second : script.drop 2 = rest := by rw [← drop_drop (i := 1) (j := 1), tail]; rfl
    rw [take_succ_cons, second]
    simpa using head

section

variable {lib : PubKeyLibrary} {script : CScript}

private theorem readScript_keyID {keyID : Bytes} (hit : isToKeyID script = some keyID) :
    Decodes (readScript lib) (0x00 :: keyID) script := by
  unfold isToKeyID at hit
  split at hit
  · rename_i shape
    obtain ⟨size, front, back⟩ := shape
    cases hit
    refine readScript_special (by decide) (by simp [size, getSpecialSize]) ?_
    simpa [decompress] using (parts 3 20 front back).symm
  · cases hit

private theorem readScript_scriptID {scriptID : Bytes} (hit : isToScriptID script = some scriptID) :
    Decodes (readScript lib) (0x01 :: scriptID) script := by
  unfold isToScriptID at hit
  split at hit
  · rename_i shape
    obtain ⟨size, front, back⟩ := shape
    cases hit
    refine readScript_special (by decide) (by simp [size, getSpecialSize]) ?_
    simpa [decompress] using (parts 2 20 front back).symm
  · cases hit

/-- A compressed key: its first byte is its code. -/
private theorem readScript_shortKey {first : UInt8} (code : first = 0x02 ∨ first = 0x03)
    (size : script.length = 35) (front : script.take 1 = [33])
    (back : script.drop 34 = [OP_CHECKSIG]) (head : (script.drop 1).head? = some first) :
    Decodes (readScript lib) (first :: (script.drop 2).take 32) script := by
  have whole := parts 1 33 front back
  rw [key_shape head] at whole
  rcases code with rfl | rfl
  · exact readScript_special (by decide) (by simp [size, getSpecialSize]) whole.symm
  · exact readScript_special (by decide) (by simp [size, getSpecialSize]) whole.symm

/-- An uncompressed key: half of it is stored, the library finds the other half. -/
private theorem readScript_longKey (size : script.length = 67) (front : script.take 1 = [65])
    (back : script.drop 66 = [OP_CHECKSIG]) (head : (script.drop 1).head? = some 0x04)
    (valid : lib.isFullyValid ((script.drop 1).take 65) = true) :
    Decodes (readScript lib) (keyCode ((script.drop 1).take 65) :: (script.drop 2).take 32)
      script := by
  have whole := parts 1 65 front back
  have halves : (script.drop 2).take 64 = (script.drop 2).take 32 ++ (script.drop 34).take 32 := by
    rw [← drop_drop (i := 32) (j := 2), ← take_add]
  have key : (script.drop 1).take 65 =
      0x04 :: (script.drop 2).take 32 ++ (script.drop 34).take 32 := by
    rw [key_shape head, halves]
    rfl
  have last : (0x04 :: (script.drop 2).take 32 ++ (script.drop 34).take 32).getLast? =
      ((script.drop 34).take 32).getLast? := by
    apply getLast?_append_of_ne_nil
    intro nil
    have : ((script.drop 34).take 32).length = 32 := by simp [size]
    rw [nil] at this
    cases this
  have hit := lib.decompress_valid ((script.drop 2).take 32) ((script.drop 34).take 32)
    (by simp [size]) (by simp [size]) (key ▸ valid)
  rw [key] at whole ⊢
  unfold keyCode
  rw [if_pos (by rfl), last]
  split at hit
  · rename_i odd
    rw [if_pos odd]
    refine readScript_special (by decide) (by simp [size, getSpecialSize]) ?_
    simpa [decompress, hit] using whole.symm
  · rename_i even
    rw [if_neg even]
    refine readScript_special (by decide) (by simp [size, getSpecialSize]) ?_
    simpa [decompress, hit] using whole.symm

private theorem readScript_pubKey {pubkey : Bytes} (hit : isToPubKey lib script = some pubkey) :
    Decodes (readScript lib) (keyCode pubkey :: (pubkey.drop 1).take 32) script := by
  unfold isToPubKey at hit
  split at hit
  · rename_i shape
    obtain ⟨size, front, back, head⟩ := shape
    cases hit
    obtain ⟨first, code, head⟩ : ∃ first : UInt8, (first = 0x02 ∨ first = 0x03) ∧
        (script.drop 1).head? = some first := by
      rcases head with two | three
      · exact ⟨_, Or.inl rfl, two⟩
      · exact ⟨_, Or.inr rfl, three⟩
    have codeEq : keyCode (first :: (script.drop 2).take 32) = first := by
      rcases code with rfl | rfl <;> rfl
    rw [key_shape head, codeEq]
    simpa [take_take] using readScript_shortKey code size front back head
  · split at hit
    · rename_i shape
      obtain ⟨size, front, back, head, valid⟩ := shape
      cases hit
      have read := readScript_longKey size front back head valid
      have body : (((script.drop 1).take 65).drop 1).take 32 = (script.drop 2).take 32 := by
        rw [key_shape head]
        simp [take_take]
      rw [body]
      exact read
    · cases hit

theorem readScript_writeScript (lib : PubKeyLibrary) (short : script.length ≤ MAX_SCRIPT_SIZE) :
    Decodes (readScript lib) (writeScript lib script) script := by
  have limit : MAX_SCRIPT_SIZE = 10000 := rfl
  have templates : nSpecialScripts = 6 := rfl
  unfold writeScript compress
  cases keyID : isToKeyID script with
  | some _ => exact readScript_keyID keyID
  | none =>
    cases scriptID : isToScriptID script with
    | some _ => exact readScript_scriptID scriptID
    | none =>
      cases pubKey : isToPubKey lib script with
      | some _ => exact readScript_pubKey pubKey
      | none =>
        refine (readVarInt_writeVarInt (by omega) (by decide)).bind ?_
        rw [if_neg (by omega), if_neg (by omega), Nat.add_sub_cancel]
        exact Decodes.take script

/-- Outputs that `CheckTransaction` lets through come back unchanged. -/
theorem readTxOut_writeTxOut (lib : PubKeyLibrary) {txout : CTxOut}
    (range : moneyRange txout.nValue = true) (short : txout.scriptPubKey.length ≤ MAX_SCRIPT_SIZE) :
    Decodes (readTxOut lib) (writeTxOut lib txout) txout := by
  obtain ⟨nValue, script⟩ := txout
  obtain ⟨low, high⟩ := moneyRange_iff.mp range
  dsimp only at low high
  obtain ⟨amount, rfl⟩ : ∃ amount : Nat, nValue = amount :=
    ⟨nValue.toNat, (Int.toNat_of_nonneg low).symm⟩
  have small : amount < 2 ^ 60 := by omega
  have word : ((amount : Int) % 2 ^ 64).toNat = amount := by omega
  obtain ⟨fits, back⟩ := decompressAmount_compressAmount small
  have value : ((decompressAmount (compressAmount amount) : Nat) : Int).bmod (2 ^ 64) = amount := by
    rw [back, Int.bmod_def]
    omega
  unfold writeTxOut readTxOut
  rw [word]
  refine (readVarInt_writeVarInt fits (by decide)).bind ?_
  have last := (readScript_writeScript lib short).last
    (fun script =>
      (⟨((decompressAmount (compressAmount amount) : Nat) : Int).bmod (2 ^ 64), script⟩ : CTxOut))
  rw [value] at last
  simpa only [value] using last

end

end Zcashd.Source

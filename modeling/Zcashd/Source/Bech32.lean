import Zcashd.Source.Base58

/-!
Bech32 strings (`src/bech32.cpp`) and the regrouping of bits (`ConvertBits` in
`src/utilstrencodings.h`). The elements of a `std::vector<uint8_t>` are numbers, which are below
256; `acc` and `bits` of `ConvertBits` never come near the width of a `size_t`.
-/
namespace Zcashd.Source.Bech32

open Lib Base58

def CHARSET : List UInt8 :=
  ['q', 'p', 'z', 'r', 'y', '9', 'x', '8', 'g', 'f', '2', 't', 'v', 'd', 'w', '0', 's', '3', 'j',
    'n', '5', '4', 'k', 'h', 'c', 'e', '6', 'm', 'u', 'a', '7', 'l'].map ofChar

def CHARSET_REV : List Int :=
  [-1, -1, -1, -1, -1, -1, -1, -1, -1, -1, -1, -1, -1, -1, -1, -1,
    -1, -1, -1, -1, -1, -1, -1, -1, -1, -1, -1, -1, -1, -1, -1, -1,
    -1, -1, -1, -1, -1, -1, -1, -1, -1, -1, -1, -1, -1, -1, -1, -1,
    15, -1, 10, 17, 21, 20, 26, 30, 7, 5, -1, -1, -1, -1, -1, -1,
    -1, 29, -1, 24, 13, 25, 9, 8, 23, -1, 18, 22, 31, 27, 19, -1,
    1, 0, 3, 16, 11, 28, 12, 14, 6, 4, 2, -1, -1, -1, -1, -1,
    -1, 29, -1, 24, 13, 25, 9, 8, 23, -1, 18, 22, 31, 27, 19, -1,
    1, 0, 3, 16, 11, 28, 12, 14, 6, 4, 2, -1, -1, -1, -1, -1]

/-- One round of `PolyMod`. -/
def polyModStep (c : BitVec 32) (v : Nat) : BitVec 32 :=
  let c0 := c >>> 25
  let c := ((c &&& 0x1ffffff) <<< 5) ^^^ BitVec.ofNat 32 v
  let c := if c0.getLsbD 0 then c ^^^ 0x3b6a57b2 else c
  let c := if c0.getLsbD 1 then c ^^^ 0x26508e6d else c
  let c := if c0.getLsbD 2 then c ^^^ 0x1ea119fa else c
  let c := if c0.getLsbD 3 then c ^^^ 0x3d4233dd else c
  if c0.getLsbD 4 then c ^^^ 0x2a1462b3 else c

def polyMod (v : List Nat) : BitVec 32 := v.foldl polyModStep 1

def lowerCase (c : UInt8) : UInt8 :=
  if ofChar 'A' ≤ c ∧ c ≤ ofChar 'Z' then c - ofChar 'A' + ofChar 'a' else c

def expandHRP (hrp : Bytes) : List Nat :=
  hrp.map (fun c => c.toNat >>> 5) ++ 0 :: hrp.map (fun c => c.toNat &&& 0x1f)

def verifyChecksum (hrp : Bytes) (values : List Nat) : Bool :=
  polyMod (expandHRP hrp ++ values) == 1

def createChecksum (hrp : Bytes) (values : List Nat) : List Nat :=
  let enc := expandHRP hrp ++ values ++ List.replicate 6 0
  let mod := polyMod enc ^^^ 1
  [0, 1, 2, 3, 4, 5].map fun i => ((mod >>> (5 * (5 - i))) &&& 31).toNat

def encode (hrp : Bytes) (values : List Nat) : Bytes :=
  let combined := values ++ createChecksum hrp values
  if combined.any (32 ≤ ·) then []
  else hrp ++ ofChar '1' :: combined.map fun c => CHARSET.getD c 0

/-- The last position of a character. -/
def rfind (str : Bytes) (ch : UInt8) : Option Nat :=
  (str.reverse.findIdx? (· == ch)).map (str.length - 1 - ·)

def isLower (c : UInt8) : Bool := decide (ofChar 'a' ≤ c) && decide (c ≤ ofChar 'z')

def isUpper (c : UInt8) : Bool := decide (ofChar 'A' ≤ c) && decide (c ≤ ofChar 'Z')

/-- The value of a character, if it has one. -/
def revChar (c : UInt8) : Option Nat :=
  let rev := if c < 33 ∨ c > 126 then -1 else CHARSET_REV.getD c.toNat (-1)
  if rev = -1 then none else some rev.toNat

/-- The empty pair on failure. -/
def decode (str : Bytes) : Bytes × List Nat :=
  if str.any fun c => decide (c < 33) || decide (c > 126) then ([], [])
  else if str.any isLower && str.any isUpper then ([], [])
  else
    match rfind str (ofChar '1') with
    | none => ([], [])
    | some pos =>
      if str.length > 1023 ∨ pos = 0 ∨ pos + 7 > str.length then ([], [])
      else
        match (str.drop (pos + 1)).mapM revChar with
        | none => ([], [])
        | some values =>
          let hrp := (str.take pos).map lowerCase
          if !verifyChecksum hrp values then ([], [])
          else (hrp, values.take (values.length - 6))

/-! Regrouping bits -/

/-- The inner loop of `ConvertBits`: the groups that are complete, and the bits that are left. -/
def convertOut (tobits acc : Nat) : Nat → Nat → List Nat × Nat
  | 0, bits => ([], bits)
  | rounds + 1, bits =>
    if tobits ≤ bits then
      let others := convertOut tobits acc rounds (bits - tobits)
      (((acc >>> (bits - tobits)) &&& (1 <<< tobits - 1)) :: others.1, others.2)
    else ([], bits)

/-- The outer loop: what is put out, `acc` and `bits`. There is a round of the inner loop for each
bit at most. -/
def convertLoop (frombits tobits : Nat) : List Nat → Nat → Nat → List Nat × Nat × Nat
  | [], acc, bits => ([], acc, bits)
  | v :: rest, acc, bits =>
    let acc := ((acc <<< frombits) ||| v) &&& (1 <<< (frombits + tobits - 1) - 1)
    let out := convertOut tobits acc (bits + frombits) (bits + frombits)
    let others := convertLoop frombits tobits rest acc out.2
    (out.1 ++ others.1, others.2)

def convertBits (frombits tobits : Nat) (pad : Bool) (input : List Nat) : Option (List Nat) :=
  let (out, acc, bits) := convertLoop frombits tobits input 0 0
  if pad then
    if bits ≠ 0 then some (out ++ [(acc <<< (tobits - bits)) &&& (1 <<< tobits - 1)]) else some out
  else if frombits ≤ bits ∨ (acc <<< (tobits - bits)) &&& (1 <<< tobits - 1) ≠ 0 then none
  else some out

end Zcashd.Source.Bech32

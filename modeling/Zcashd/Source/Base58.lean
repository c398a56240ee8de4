import Zcashd.Lib.Radix
import Zcashd.Source.Wire

/-!
Base58 with and without a checksum (`src/base58.cpp`). A `const char*` is the list of its bytes
up to the terminating zero. `b256` and `b58` are kept in the order in which the inner loops go
over them, the least significant digit first.
-/
namespace Zcashd.Source.Base58

open Lib

/-- Undefined behaviour, a failing assertion or an exception. -/
inductive Fault where
  /-- `zeroes` is an `int`. -/
  | signedOverflow
  | assertion
  /-- `CDataStream::read` throws. -/
  | endOfData
deriving DecidableEq, Repr

def ofChar (c : Char) : UInt8 := UInt8.ofNat c.toNat

def pszBase58 : List UInt8 :=
  ['1', '2', '3', '4', '5', '6', '7', '8', '9',
    'A', 'B', 'C', 'D', 'E', 'F', 'G', 'H', 'J', 'K', 'L', 'M', 'N',
    'P', 'Q', 'R', 'S', 'T', 'U', 'V', 'W', 'X', 'Y', 'Z',
    'a', 'b', 'c', 'd', 'e', 'f', 'g', 'h', 'i', 'j', 'k',
    'm', 'n', 'o', 'p', 'q', 'r', 's', 't', 'u', 'v', 'w', 'x', 'y', 'z'].map ofChar

/-- In the C locale. -/
def isspace (c : UInt8) : Bool := c == 0x20 || (decide (0x09 ≤ c) && decide (c ≤ 0x0d))

/-- `strchr(pszBase58, c) - pszBase58`. -/
def digitOf (c : UInt8) : Option Nat := pszBase58.findIdx? (· == c)

def charOf (digit : Nat) : UInt8 := pszBase58.getD digit 0

/-- `zeroes++`, as often as the first loop does it. -/
def countZeroes (zeroes : Nat) : Except Fault Nat :=
  if zeroes < 2 ^ 31 then .ok zeroes else .error .signedOverflow

/-- The outer loops: `digits * mult + carry` for each digit that is read. -/
def mulAddAll (base mult : Nat) : List Nat → List Nat → Except Fault (List Nat)
  | [], digits => .ok digits
  | carry :: rest, digits =>
    let step := Radix.mulAdd base mult carry digits
    if step.2 ≠ 0 then .error .assertion else mulAddAll base mult rest step.1

/-- The characters up to a space as digits, and what comes after them. -/
def readDigits : Bytes → Option (List Nat × Bytes)
  | [] => some ([], [])
  | c :: rest =>
    if isspace c then some ([], c :: rest)
    else
      match digitOf c with
      | none => none
      | some digit => (readDigits rest).map fun read => (digit :: read.1, read.2)

/-- `DecodeBase58` of a C string. An unknown character makes it return `false`, whatever was
computed from those before it. -/
def decodeCString (psz : Bytes) : Except Fault (Option Bytes) := do
  let psz := psz.dropWhile isspace
  let zeroes ← countZeroes (psz.takeWhile (· == ofChar '1')).length
  let psz := psz.drop zeroes
  match readDigits psz with
  | none => .ok none
  | some (digits, rest) =>
    let b256 ← mulAddAll 256 58 digits (List.replicate (psz.length * 733 / 1000 + 1) 0)
    if rest.dropWhile isspace ≠ [] then .ok none
    else .ok (some (List.replicate zeroes 0 ++ (Radix.strip b256.reverse).map UInt8.ofNat))

/-- `c_str()`. -/
def cString (str : Bytes) : Bytes := str.takeWhile (· != 0)

def decodeBase58 (str : Bytes) : Except Fault (Option Bytes) := decodeCString (cString str)

def encodeBase58 (vch : Bytes) : Except Fault Bytes := do
  let zeroes ← countZeroes (vch.takeWhile (· == 0)).length
  let rest := vch.drop zeroes
  let b58 ← mulAddAll 58 256 (rest.map UInt8.toNat) (List.replicate (rest.length * 138 / 100 + 1) 0)
  .ok (List.replicate zeroes (ofChar '1') ++ (Radix.strip b58.reverse).map charOf)

/-- `Hash`, SHA-256 twice. -/
abbrev HashFunction := Bytes → Wire.Blob 32

def checksum (H : HashFunction) (vch : Bytes) : Bytes := (H vch).toList.take 4

def encodeBase58Check (H : HashFunction) (vchIn : Bytes) : Except Fault Bytes :=
  encodeBase58 (vchIn ++ checksum H vchIn)

def decodeBase58Check (H : HashFunction) (str : Bytes) : Except Fault (Option Bytes) := do
  match ← decodeBase58 str with
  | none => .ok none
  | some vch =>
    if vch.length < 4 then .ok none
    else if checksum H (vch.take (vch.length - 4)) ≠ vch.drop (vch.length - 4) then .ok none
    else .ok (some (vch.take (vch.length - 4)))

end Zcashd.Source.Base58

import Zcashd.Source.Bech32
import Zcashd.Source.BlockFiles
import Zcashd.Source.WireExact

/-!
Addresses as strings (`src/key_io.cpp`), for transparent destinations and for payment addresses of
the two shielded pools, with the prefixes of the networks (`src/chainparams.cpp`).

Transparent and Sprout addresses are Base58 strings with a checksum, Sapling addresses are Bech32
strings. A string that is none of the network's is `CNoDestination`, or `InvalidEncoding`.
-/
namespace Zcashd.Source.KeyIO

open Lib Base58 Wire

inductive Base58Type where
  | PUBKEY_ADDRESS
  | SCRIPT_ADDRESS
  | ZCPAYMENT_ADDRRESS
deriving DecidableEq, Repr

def base58Prefix : Network → Base58Type → Bytes
  | .main, .PUBKEY_ADDRESS => [0x1C, 0xB8]
  | .main, .SCRIPT_ADDRESS => [0x1C, 0xBD]
  | .main, .ZCPAYMENT_ADDRRESS => [0x16, 0x9A]
  | .testnet, .PUBKEY_ADDRESS => [0x1D, 0x25]
  | .testnet, .SCRIPT_ADDRESS => [0x1C, 0xBA]
  | .testnet, .ZCPAYMENT_ADDRRESS => [0x16, 0xB6]
  | .regtest, .PUBKEY_ADDRESS => [0x1D, 0x25]
  | .regtest, .SCRIPT_ADDRESS => [0x1C, 0xBA]
  | .regtest, .ZCPAYMENT_ADDRRESS => [0x16, 0xB6]

/-- `Bech32HRP(SAPLING_PAYMENT_ADDRESS)`. -/
def bech32HRP : Network → Bytes
  | .main => ['z', 's'].map ofChar
  | .testnet => ['z', 't', 'e', 's', 't', 's', 'a', 'p', 'l', 'i', 'n', 'g'].map ofChar
  | .regtest =>
    ['z', 'r', 'e', 'g', 't', 'e', 's', 't', 's', 'a', 'p', 'l', 'i', 'n', 'g'].map ofChar

/-! Transparent destinations -/

inductive CTxDestination where
  | CNoDestination
  | CKeyID (hash : Blob 20)
  | CScriptID (hash : Blob 20)
deriving DecidableEq, Repr

variable (H : HashFunction) (network : Network)

/-- `DestinationEncoder`. -/
def encodeDestination : CTxDestination → Except Fault Bytes
  | .CKeyID hash => encodeBase58Check H (base58Prefix network .PUBKEY_ADDRESS ++ hash.toList)
  | .CScriptID hash => encodeBase58Check H (base58Prefix network .SCRIPT_ADDRESS ++ hash.toList)
  | .CNoDestination => .ok []

/-- `std::copy` into an array of `n` bytes. -/
def copyBlob (n : Nat) (data : Bytes) : Blob n := Vector.ofFn fun i => data.getD i.val 0

/-- The size is right and the data starts with the bytes given. -/
def hasPrefix (front : Bytes) (size : Nat) (data : Bytes) : Bool :=
  data.length == size + front.length && data.take front.length == front

def decodeDestination (str : Bytes) : Except Fault CTxDestination := do
  match ← decodeBase58Check H str with
  | none => .ok .CNoDestination
  | some data =>
    let pubkeyPrefix := base58Prefix network .PUBKEY_ADDRESS
    let scriptPrefix := base58Prefix network .SCRIPT_ADDRESS
    if hasPrefix pubkeyPrefix 20 data then
      .ok (.CKeyID (copyBlob 20 (data.drop pubkeyPrefix.length)))
    else if hasPrefix scriptPrefix 20 data then
      .ok (.CScriptID (copyBlob 20 (data.drop scriptPrefix.length)))
    else .ok .CNoDestination

/-! Payment addresses -/

structure SproutPaymentAddress where
  a_pk : Uint256
  pk_enc : Uint256
deriving DecidableEq, Repr

def SproutPaymentAddress.bytes (zaddr : SproutPaymentAddress) : Bytes :=
  writeUint256 zaddr.a_pk ++ writeUint256 zaddr.pk_enc

def SproutPaymentAddress.unserialize : Decoder SproutPaymentAddress := do
  let a_pk ← readUint256
  let pk_enc ← readUint256
  pure ⟨a_pk, pk_enc⟩

structure SaplingPaymentAddress where
  d : Blob 11
  pk_d : Uint256
deriving DecidableEq, Repr

def SaplingPaymentAddress.bytes (zaddr : SaplingPaymentAddress) : Bytes :=
  writeBlob zaddr.d ++ writeUint256 zaddr.pk_d

def SaplingPaymentAddress.unserialize : Decoder SaplingPaymentAddress := do
  let d ← readBlob 11
  let pk_d ← readUint256
  pure ⟨d, pk_d⟩

/-- `boost::variant<InvalidEncoding, T2, T3>`. -/
inductive AnyEncoding (T2 T3 : Type) where
  | InvalidEncoding
  | sprout (value : T2)
  | sapling (value : T3)
deriving DecidableEq, Repr

abbrev PaymentAddress := AnyEncoding SproutPaymentAddress SaplingPaymentAddress

/-- `PaymentAddressEncoder`. With padding `ConvertBits` does not fail. -/
def encodePaymentAddress : PaymentAddress → Except Fault Bytes
  | .sprout zaddr => encodeBase58Check H (base58Prefix network .ZCPAYMENT_ADDRRESS ++ zaddr.bytes)
  | .sapling zaddr =>
    let data := (Bech32.convertBits 8 5 true (zaddr.bytes.map UInt8.toNat)).getD []
    .ok (Bech32.encode (bech32HRP network) data)
  | .InvalidEncoding => .ok []

/-- `ss >> ret`. -/
def readAll {T : Type} (read : Decoder T) (data : Bytes) : Except Fault T :=
  match read data with
  | none => .error .endOfData
  | some (value, _) => .ok value

def decodeAny {T2 T3 : Type} (readSprout : Decoder T2) (readSapling : Decoder T3) (str : Bytes)
    (sprout : Base58Type × Nat) (sapling : Nat) : Except Fault (AnyEncoding T2 T3) := do
  let front := base58Prefix network sprout.1
  match (← decodeBase58Check H str).filter (hasPrefix front sprout.2) with
  | some data => return .sprout (← readAll readSprout (data.drop front.length))
  | none =>
    let bech := Bech32.decode str
    if bech.1 = bech32HRP network ∧ bech.2.length = sapling then
      match Bech32.convertBits 5 8 false bech.2 with
      | some data => return .sapling (← readAll readSapling (data.map UInt8.ofNat))
      | none => return .InvalidEncoding
    else return .InvalidEncoding

def SerializedSproutPaymentAddressSize : Nat := 64

def ConvertedSaplingPaymentAddressSize : Nat := ((32 + 11) * 8 + 4) / 5

def decodePaymentAddress (str : Bytes) : Except Fault PaymentAddress :=
  decodeAny H network SproutPaymentAddress.unserialize SaplingPaymentAddress.unserialize str
    (.ZCPAYMENT_ADDRRESS, SerializedSproutPaymentAddressSize) ConvertedSaplingPaymentAddressSize

/-! The serialisation of the addresses is exact. -/

theorem SproutPaymentAddress.unserialize_exact :
    Exact SproutPaymentAddress.unserialize SproutPaymentAddress.bytes (fun _ => True) := by
  have whole : Continues (fun _ => True) SproutPaymentAddress.unserialize _ _ :=
    .field readUint256_exact SproutPaymentAddress.a_pk (fun _ =>
    .last readUint256_exact SproutPaymentAddress.pk_enc (fun _ zaddr => by cases zaddr; grind))
  exact whole.exact.congr (fun _ => by simp) (fun _ _ => rfl)

theorem SaplingPaymentAddress.unserialize_exact :
    Exact SaplingPaymentAddress.unserialize SaplingPaymentAddress.bytes (fun _ => True) := by
  have whole : Continues (fun _ => True) SaplingPaymentAddress.unserialize _ _ :=
    .field (readBlob_exact 11) SaplingPaymentAddress.d (fun _ =>
    .last readUint256_exact SaplingPaymentAddress.pk_d (fun _ zaddr => by cases zaddr; grind))
  exact whole.exact.congr (fun _ => by simp) (fun _ _ => rfl)

theorem SproutPaymentAddress.length_bytes (zaddr : SproutPaymentAddress) :
    zaddr.bytes.length = 64 := by
  simp [SproutPaymentAddress.bytes, writeUint256]

theorem SaplingPaymentAddress.length_bytes (zaddr : SaplingPaymentAddress) :
    zaddr.bytes.length = 43 := by
  simp [SaplingPaymentAddress.bytes, writeUint256, writeBlob, writeArray]

end Zcashd.Source.KeyIO

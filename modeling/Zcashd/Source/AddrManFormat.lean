import Zcashd.Source.AddrMan
import Zcashd.Source.WireExact

/-!
# The format of the address manager

`Serialize`, `Unserialize` and `Clear` of `CAddrMan` (`src/addrman.h:284-458`) for streams with
`SER_DISK`, as `peers.dat` is written. `Unserialize` reads and builds in turn; here all is read
before anything is built, since nothing that is read depends on what has been built. `none` is an
exception of the stream. A count below 0, which no manager writes, is read as 0.
-/
namespace Zcashd.Source.AddrMan

open Lib Wire

/-- The fields of an entry that are written; the others are in memory only. -/
structure Persistent extends CAddress where
  source : CNetAddr
  nLastSuccess : Int64
  nAttempts : Int32
deriving DecidableEq

def CAddrInfo.persistent (info : CAddrInfo) : Persistent := { info with }

/-- `s >> info` for an entry that is there already. -/
def Persistent.into (data : Persistent) (info : CAddrInfo) : CAddrInfo :=
  { info with
    toCAddress := data.toCAddress
    source := data.source
    nLastSuccess := data.nLastSuccess
    nAttempts := data.nAttempts }

def writeInt (n : Int32) : Bytes := writeUInt32 n.toUInt32

def readInt : Decoder Int32 := do
  let n ← readUInt32
  pure n.toInt32

/-- `CService`: the port is in network order. -/
def CService.bytes (s : CService) : Bytes :=
  writeBlob s.ip ++ [(s.port / 0x100).toUInt8, (s.port &&& 0xFF).toUInt8]

def readService : Decoder CService := do
  let ip ← readBlob 16
  let high ← Decoder.byte
  let low ← Decoder.byte
  pure ⟨⟨ip⟩, high.toUInt16 * 0x100 + low.toUInt16⟩

/-- `nVersion` is the one of the stream. -/
def Persistent.bytes (nVersion : Int32) (data : Persistent) : Bytes :=
  writeInt nVersion ++
    (writeUInt32 data.nTime ++ (writeData 8 data.nServices.toNat ++ (data.toCService.bytes ++
    (writeBlob data.source.ip ++ (writeAmount data.nLastSuccess ++ writeInt data.nAttempts)))))

def readPersistent : Decoder Persistent := do
  let _ ← readInt
  let nTime ← readUInt32
  let nServices ← readData 8
  let service ← readService
  let source ← readBlob 16
  let nLastSuccess ← readAmount
  let nAttempts ← readInt
  pure ⟨⟨service, .ofNat nServices, nTime⟩, ⟨source⟩, nLastSuccess, nAttempts⟩

/-- The mark in the number of buckets, `1 << 30`, for every version but 0. -/
def markBuckets (nVersion : UInt8) (nUBuckets : Int32) : Int32 :=
  if nVersion ≠ 0 then nUBuckets ^^^ 0x40000000 else nUBuckets

/-- What a file holds, with the number of buckets unmarked. -/
structure Dump where
  nVersion : UInt8
  nKeySize : UInt8
  nKey : Uint256
  nNew : Int32
  nTried : Int32
  nUBuckets : Int32
  news : List Persistent
  trieds : List Persistent
  buckets : List (List Int32)

def Dump.bytes (nVersion : Int32) (dump : Dump) : Bytes :=
  [dump.nVersion] ++
    ([dump.nKeySize] ++ (writeUint256 dump.nKey ++ (writeInt dump.nNew ++ (writeInt dump.nTried ++
    (writeInt (markBuckets dump.nVersion dump.nUBuckets) ++ (dump.news.flatMap (·.bytes nVersion) ++
      (dump.trieds.flatMap (·.bytes nVersion) ++
        dump.buckets.flatMap
          (fun bucket => writeInt (.ofNat bucket.length) ++ bucket.flatMap writeInt))))))))

/-- The number of elements and the elements. -/
def readBucket : Decoder (List Int32) := do
  let nSize ← readInt
  readInt.times nSize.toInt.toNat

def readDump : Decoder Dump := do
  let nVersion ← Decoder.byte
  let nKeySize ← Decoder.byte
  if nKeySize ≠ 32 then Decoder.fail
  else do
    let nKey ← readUint256
    let nNew ← readInt
    let nTried ← readInt
    let nUBuckets ← readInt
    let nUBuckets := markBuckets nVersion nUBuckets
    if (ADDRMAN_NEW_BUCKET_COUNT * ADDRMAN_BUCKET_SIZE : Nat) < nNew.toInt then Decoder.fail
    else if (ADDRMAN_TRIED_BUCKET_COUNT * ADDRMAN_BUCKET_SIZE : Nat) < nTried.toInt then
      Decoder.fail
    else do
      let news ← readPersistent.times nNew.toInt.toNat
      let trieds ← readPersistent.times nTried.toInt.toNat
      let buckets ← readBucket.times nUBuckets.toInt.toNat
      pure { nVersion, nKeySize, nKey, nNew, nTried, nUBuckets, news, trieds, buckets }

namespace CAddrMan

/-! `Serialize` -/

/-- The loop over the entries for those in new buckets, with `mapUnkIds`. -/
def dumpNew (nNew : Int) : List (Σ _ : Nat, CAddrInfo) → Nat → AList (fun _ : Nat => Nat) →
    Result (List Persistent × AList (fun _ : Nat => Nat))
  | [], _, mapUnkIds => .ok ([], mapUnkIds)
  | entry :: rest, nIds, mapUnkIds =>
    if entry.2.nRefCount ≠ 0 then do
      assertThat ((nIds : Int) ≠ nNew)
      let (news, ids) ← dumpNew nNew rest (nIds + 1) (mapUnkIds.insert entry.1 nIds)
      pure (entry.2.persistent :: news, ids)
    else dumpNew nNew rest nIds (mapUnkIds.insert entry.1 nIds)

/-- The loop for the tried ones. -/
def dumpTried (nTried : Int) : List (Σ _ : Nat, CAddrInfo) → Nat → Result (List Persistent)
  | [], _ => .ok []
  | entry :: rest, nIds =>
    if entry.2.fInTried then do
      assertThat ((nIds : Int) ≠ nTried)
      let trieds ← dumpTried nTried rest (nIds + 1)
      pure (entry.2.persistent :: trieds)
    else dumpTried nTried rest nIds

variable (m : CAddrMan)

/-- The indexes of a new bucket, in the order of the positions. -/
def dumpBucket (mapUnkIds : AList (fun _ : Nat => Nat)) (bucket : Fin ADDRMAN_NEW_BUCKET_COUNT) :
    List Int32 :=
  ((List.finRange ADDRMAN_BUCKET_SIZE).filterMap (fun i => m.vvNew (bucket, i))).map
    (fun nId => .ofNat ((mapUnkIds.lookup nId).getD 0))

def dump : Result Dump := do
  let (news, mapUnkIds) ← dumpNew m.nNew (inOrder m.mapInfo.entries) 0 ∅
  let trieds ← dumpTried m.nTried (inOrder m.mapInfo.entries) 0
  pure {
    nVersion := 1
    nKeySize := 32
    nKey := m.nKey
    nNew := .ofInt m.nNew
    nTried := .ofInt m.nTried
    nUBuckets := .ofNat ADDRMAN_NEW_BUCKET_COUNT
    news
    trieds
    buckets := (List.finRange _).map (m.dumpBucket mapUnkIds) }

def serialize (nVersion : Int32) : Result Bytes := do
  let dump ← m.dump
  pure (dump.bytes nVersion)

/-! `Unserialize` -/

/-- `Clear`, with the key that is drawn: the entries and the index by address stay. -/
def clear (nKey : Uint256) : CAddrMan :=
  { m with
    vRandom := []
    nKey := nKey
    vvNew := fun _ => none
    vvTried := fun _ => none
    nIdCount := 0
    nTried := 0
    nNew := 0 }

variable (H : AddrHash)

/-- The entry gets a reference by its source if the bucket data cannot be used. -/
def giveReference (n : Nat) (info : CAddrInfo) : CAddrMan :=
  let slot := newSlot H m.nKey info.toCService (getNewBucket H m.nKey info.toCNetAddr info.source)
  if m.vvNew slot = none then
    { m.setInfo n { info with nRefCount := info.nRefCount + 1 } with
      vvNew := Function.update m.vvNew slot (some n) }
  else m

/-- A round of the loop over the new entries. -/
def restoreNew (usable : Bool) (n : Nat) (data : Persistent) : CAddrMan :=
  let info := { data.into (m.infoOrDefault n) with nRandomPos := some m.vRandom.length }
  let m : CAddrMan := { m.setInfo n info with
    mapAddr := m.mapAddr.insert info.toCNetAddr n
    vRandom := m.vRandom ++ [n] }
  if usable then m else m.giveReference H n info

def restoreNews (usable : Bool) : Nat → List Persistent → CAddrMan → CAddrMan
  | _, [], m => m
  | n, data :: rest, m => restoreNews usable (n + 1) rest (m.restoreNew H usable n data)

/-- A round of the loop over the tried entries, with `nLost`. -/
def restoreTried (nLost : Nat) (data : Persistent) : CAddrMan × Nat :=
  let info := data.into defaultInfo
  let slot := triedSlot H m.nKey info.toCService
  if m.vvTried slot = none then
    ({ m.setInfo m.nIdCount { info with nRandomPos := some m.vRandom.length, fInTried := true } with
      vRandom := m.vRandom ++ [m.nIdCount]
      mapAddr := m.mapAddr.insert info.toCNetAddr m.nIdCount
      vvTried := Function.update m.vvTried slot (some m.nIdCount)
      nIdCount := m.nIdCount + 1 }, nLost)
  else (m, nLost + 1)

def restoreTrieds : List Persistent → CAddrMan → Nat → CAddrMan × Nat
  | [], m, nLost => (m, nLost)
  | data :: rest, m, nLost =>
    restoreTrieds rest (m.restoreTried H nLost data).1 (m.restoreTried H nLost data).2

/-- An index read for a bucket. -/
def restoreIndex (usable : Bool) (bucket : Nat) (nIndex : Int32) : CAddrMan :=
  if 0 ≤ nIndex.toInt ∧ nIndex.toInt < m.nNew then
    let n := nIndex.toInt.toNat
    let info := m.infoOrDefault n
    if inside : bucket < ADDRMAN_NEW_BUCKET_COUNT then
      let slot := newSlot H m.nKey info.toCService ⟨bucket, inside⟩
      if usable ∧ m.vvNew slot = none ∧ info.nRefCount < ADDRMAN_NEW_BUCKETS_PER_ADDRESS then
        { m.setInfo n { info with nRefCount := info.nRefCount + 1 } with
          vvNew := Function.update m.vvNew slot (some n) }
      else m
    else m
  else m

def restoreBuckets (usable : Bool) : Nat → List (List Int32) → CAddrMan → CAddrMan
  | _, [], m => m
  | bucket, indexes :: rest, m =>
    restoreBuckets usable (bucket + 1) rest
      (indexes.foldl (fun m nIndex => m.restoreIndex H usable bucket nIndex) m)

/-- Entries that are neither tried nor in a bucket are deleted. -/
def prune : List Nat → CAddrMan → Result CAddrMan
  | [], m => .ok m
  | nId :: rest, m =>
    match m.mapInfo.lookup nId with
    | none => prune rest m
    | some info =>
      if info.fInTried = false ∧ info.nRefCount = 0 then do
        let m ← m.delete nId
        prune rest m
      else prune rest m

/-- What is built from a file, before the last loop. -/
def built (dump : Dump) : CAddrMan :=
  let usable : Bool := dump.nVersion == 1 && dump.nUBuckets == .ofNat ADDRMAN_NEW_BUCKET_COUNT
  let m : CAddrMan :=
    { m with nKey := dump.nKey, nNew := dump.nNew.toInt, nTried := dump.nTried.toInt }
  let m := restoreNews H usable 0 dump.news m
  let m : CAddrMan := { m with nIdCount := dump.news.length }
  let restored := restoreTrieds H dump.trieds m 0
  let m : CAddrMan := { restored.1 with nTried := restored.1.nTried - restored.2 }
  restoreBuckets H usable 0 dump.buckets m

/-- `Unserialize`; `nKey` is the key drawn by `Clear`. -/
def unserialize (nKey : Uint256) (input : Bytes) : Option (Result CAddrMan) := do
  let (dump, _) ← readDump input
  let m := (m.clear nKey).built H dump
  pure (prune ((inOrder m.mapInfo.entries).map (·.1)) m)

end CAddrMan

end Zcashd.Source.AddrMan

import Zcashd.Source.Wire

/-!
# The address manager

`CAddrMan` (`src/addrman.{h,cpp}`): addresses in two hash tables, `new` and `tried`, with a
reference count for the slots of `new` and a vector in random order. The hash function, the
grouping of addresses and the test for routable ones are parameters.

Ids are natural numbers and the mark -1 of a free slot is `none`. The random numbers and the
clock are arguments of the operations. `Failure.assertion` is a failed assertion or a map entry
that is missing; `Failure.overflow` is the signed overflow of `nIdCount` or of `nAttempts`, for
which the source has no behaviour.
-/
namespace Zcashd.Source.AddrMan

open Lib Wire Function

structure CNetAddr where
  ip : Blob 16
deriving DecidableEq

structure CService extends CNetAddr where
  port : UInt16
deriving DecidableEq

structure CAddress extends CService where
  nServices : UInt64
  nTime : UInt32
deriving DecidableEq

/-- `nRandomPos` is -1 until it is set. -/
structure CAddrInfo extends CAddress where
  source : CNetAddr
  nLastSuccess : Int64
  nLastTry : Int64
  nAttempts : Int32
  nRefCount : Int
  fInTried : Bool
  nRandomPos : Option Nat
deriving DecidableEq

/-- The constructor, with `Init`. -/
def CAddrInfo.ofAddress (addr : CAddress) (source : CNetAddr) : CAddrInfo :=
  { addr with
    source := source
    nLastSuccess := 0
    nLastTry := 0
    nAttempts := 0
    nRefCount := 0
    fInTried := false
    nRandomPos := none }

/-- `CAddrInfo()`: `NODE_NETWORK` and an early time. -/
def defaultInfo : CAddrInfo :=
  .ofAddress ⟨⟨⟨Vector.replicate 16 0⟩, 0⟩, 1, 100000000⟩ ⟨Vector.replicate 16 0⟩

def ADDRMAN_TRIED_BUCKET_COUNT : Nat := 256
def ADDRMAN_NEW_BUCKET_COUNT : Nat := 1024
def ADDRMAN_BUCKET_SIZE : Nat := 64
def ADDRMAN_TRIED_BUCKETS_PER_GROUP : UInt64 := 8
def ADDRMAN_NEW_BUCKETS_PER_SOURCE_GROUP : UInt64 := 64
def ADDRMAN_NEW_BUCKETS_PER_ADDRESS : Int := 8
def ADDRMAN_HORIZON_DAYS : Int := 30
def ADDRMAN_RETRIES : Int32 := 3
def ADDRMAN_MAX_FAILURES : Int32 := 10
def ADDRMAN_MIN_FAIL_DAYS : Int := 7
def ADDRMAN_GETADDR_MAX_PCT : Nat := 23
def ADDRMAN_GETADDR_MAX : Nat := 2500

/-- A slot: the bucket and the position in it. -/
abbrev Slot (buckets : Nat) := Fin buckets × Fin ADDRMAN_BUCKET_SIZE

/-- What the manager takes from elsewhere; `cheapHash` is `GetCheapHash` of a `CHashWriter`. -/
structure AddrHash where
  cheapHash : Bytes → UInt64
  getGroup : CNetAddr → Bytes
  isRoutable : CNetAddr → Bool

/-- `CService::GetKey`. -/
def CService.getKey (s : CService) : Bytes :=
  s.ip.toList ++ [(s.port / 0x100).toUInt8, (s.port &&& 0xFF).toUInt8]

section

variable (H : AddrHash) (nKey : Uint256)

def getTriedBucket (s : CService) : Fin ADDRMAN_TRIED_BUCKET_COUNT :=
  let hash1 := H.cheapHash (writeUint256 nKey ++ Wire.writeScript s.getKey)
  let hash2 := H.cheapHash (writeUint256 nKey ++ (Wire.writeScript (H.getGroup s.toCNetAddr) ++
    writeData 8 (hash1 % ADDRMAN_TRIED_BUCKETS_PER_GROUP).toNat))
  ⟨hash2.toNat % ADDRMAN_TRIED_BUCKET_COUNT, Nat.mod_lt _ (by decide)⟩

def getNewBucket (addr src : CNetAddr) : Fin ADDRMAN_NEW_BUCKET_COUNT :=
  let vchSourceGroupKey := H.getGroup src
  let hash1 :=
    H.cheapHash (writeUint256 nKey ++
    (Wire.writeScript (H.getGroup addr) ++ Wire.writeScript vchSourceGroupKey))
  let hash2 := H.cheapHash (writeUint256 nKey ++ (Wire.writeScript vchSourceGroupKey ++
    writeData 8 (hash1 % ADDRMAN_NEW_BUCKETS_PER_SOURCE_GROUP).toNat))
  ⟨hash2.toNat % ADDRMAN_NEW_BUCKET_COUNT, Nat.mod_lt _ (by decide)⟩

/-- The letter is `N` for a new bucket and `K` for a tried one. -/
def getBucketPosition (s : CService) (fNew : Bool) (nBucket : Nat) : Fin ADDRMAN_BUCKET_SIZE :=
  let hash1 :=
    H.cheapHash (writeUint256 nKey ++ ((if fNew then 78 else 75) :: (writeData 4 nBucket ++
    Wire.writeScript s.getKey)))
  ⟨hash1.toNat % ADDRMAN_BUCKET_SIZE, Nat.mod_lt _ (by decide)⟩

/-- The slot of a tried entry. -/
def triedSlot (s : CService) : Slot ADDRMAN_TRIED_BUCKET_COUNT :=
  let nKBucket := getTriedBucket H nKey s
  (nKBucket, getBucketPosition H nKey s false nKBucket)

/-- The slot of an entry in a new bucket. -/
def newSlot (s : CService) (nUBucket : Fin ADDRMAN_NEW_BUCKET_COUNT) :
    Slot ADDRMAN_NEW_BUCKET_COUNT :=
  (nUBucket, getBucketPosition H nKey s true nUBucket)

end

def CAddrInfo.isTerrible (info : CAddrInfo) (nNow : Int) : Bool :=
  if info.nLastTry ≠ 0 ∧ nNow - 60 ≤ info.nLastTry.toInt then false
  else if nNow + 10 * 60 < info.nTime.toNat then true
  else if info.nTime = 0 ∨ ADDRMAN_HORIZON_DAYS * 24 * 60 * 60 < nNow - info.nTime.toNat then true
  else if info.nLastSuccess = 0 ∧ ADDRMAN_RETRIES ≤ info.nAttempts then true
  else decide (ADDRMAN_MIN_FAIL_DAYS * 24 * 60 * 60 < nNow - info.nLastSuccess.toInt ∧
    ADDRMAN_MAX_FAILURES ≤ info.nAttempts)

structure CAddrMan where
  nIdCount : Nat
  mapInfo : AList (fun _ : Nat => CAddrInfo)
  mapAddr : AList (fun _ : CNetAddr => Nat)
  vRandom : List Nat
  nTried : Int
  vvTried : Slot ADDRMAN_TRIED_BUCKET_COUNT → Option Nat
  nNew : Int
  vvNew : Slot ADDRMAN_NEW_BUCKET_COUNT → Option Nat
  nKey : Uint256

inductive Failure where
  | assertion
  | overflow
deriving DecidableEq, Repr

abbrev Result := Except Failure

def assertThat (condition : Prop) [Decidable condition] : Result Unit :=
  if condition then .ok () else .error .assertion

namespace CAddrMan

/-- The constructor, with the key that is drawn. -/
def empty (nKey : Uint256) : CAddrMan where
  nIdCount := 0
  mapInfo := ∅
  mapAddr := ∅
  vRandom := []
  nTried := 0
  vvTried _ := none
  nNew := 0
  vvNew _ := none
  nKey := nKey

variable (m : CAddrMan)

/-- `mapInfo[nId]` of an entry that is there. -/
def infoOf (nId : Nat) : Result CAddrInfo :=
  match m.mapInfo.lookup nId with
  | some info => .ok info
  | none => .error .assertion

/-- A field of `mapInfo[nId]` is assigned. -/
def setInfo (nId : Nat) (info : CAddrInfo) : CAddrMan :=
  { m with mapInfo := m.mapInfo.insert nId info }

def find (addr : CNetAddr) : Option (Nat × CAddrInfo) := do
  let nId ← m.mapAddr.lookup addr
  let info ← m.mapInfo.lookup nId
  pure (nId, info)

def create (addr : CAddress) (addrSource : CNetAddr) : Result (Nat × CAddrMan) :=
  if m.nIdCount < 2 ^ 31 - 1 then
    let nId := m.nIdCount
    .ok (nId, { m with
      nIdCount := nId + 1
      mapInfo := m.mapInfo.insert nId
        { CAddrInfo.ofAddress addr addrSource with nRandomPos := some m.vRandom.length }
      mapAddr := m.mapAddr.insert addr.toCNetAddr nId
      vRandom := m.vRandom ++ [nId] })
  else .error .overflow

def swapRandom (nRndPos1 nRndPos2 : Nat) : Result CAddrMan :=
  if nRndPos1 = nRndPos2 then .ok m
  else
    match m.vRandom[nRndPos1]?, m.vRandom[nRndPos2]? with
    | some nId1, some nId2 => do
      let info1 ← m.infoOf nId1
      let m := m.setInfo nId1 { info1 with nRandomPos := some nRndPos2 }
      let info2 ← m.infoOf nId2
      let m := m.setInfo nId2 { info2 with nRandomPos := some nRndPos1 }
      pure { m with vRandom := (m.vRandom.set nRndPos1 nId2).set nRndPos2 nId1 }
    | _, _ => .error .assertion

/-- A position of -1 is beyond the vector. -/
def delete (nId : Nat) : Result CAddrMan := do
  let info ← m.infoOf nId
  assertThat (info.fInTried = false)
  assertThat (info.nRefCount = 0)
  match info.nRandomPos with
  | none => .error .assertion
  | some nRandomPos => do
    let m ← m.swapRandom nRandomPos (m.vRandom.length - 1)
    pure { m with
      vRandom := m.vRandom.dropLast
      mapAddr := m.mapAddr.erase info.toCNetAddr
      mapInfo := m.mapInfo.erase nId
      nNew := m.nNew - 1 }

def clearNew (slot : Slot ADDRMAN_NEW_BUCKET_COUNT) : Result CAddrMan :=
  match m.vvNew slot with
  | none => .ok m
  | some nIdDelete => do
    let infoDelete ← m.infoOf nIdDelete
    assertThat (0 < infoDelete.nRefCount)
    let m : CAddrMan :=
      { m.setInfo nIdDelete { infoDelete with nRefCount := infoDelete.nRefCount - 1 } with
      vvNew := update m.vvNew slot none }
    if infoDelete.nRefCount - 1 = 0 then m.delete nIdDelete else pure m

variable (H : AddrHash)

/-- The loop of `MakeTried` over the buckets, on the table and the reference count. -/
def removeSlots (nKey : Uint256) (s : CService) (nId : Nat) :
    List (Fin ADDRMAN_NEW_BUCKET_COUNT) → (Slot ADDRMAN_NEW_BUCKET_COUNT → Option Nat) → Int →
      (Slot ADDRMAN_NEW_BUCKET_COUNT → Option Nat) × Int
  | [], vvNew, nRefCount => (vvNew, nRefCount)
  | bucket :: rest, vvNew, nRefCount =>
    let slot := newSlot H nKey s bucket
    if vvNew slot = some nId then
      removeSlots nKey s nId rest (update vvNew slot none) (nRefCount - 1)
    else removeSlots nKey s nId rest vvNew nRefCount

/-- The tried entry in the slot goes back to the new table, in place of whatever is there. -/
def evict (slot : Slot ADDRMAN_TRIED_BUCKET_COUNT) : Result CAddrMan :=
  match m.vvTried slot with
  | none => .ok m
  | some nIdEvict => do
    let infoOld ← m.infoOf nIdEvict
    let infoOld := { infoOld with fInTried := false }
    let m : CAddrMan := { m.setInfo nIdEvict infoOld with
      vvTried := update m.vvTried slot none
      nTried := m.nTried - 1 }
    let newPlace := newSlot H m.nKey infoOld.toCService
      (getNewBucket H m.nKey infoOld.toCNetAddr infoOld.source)
    let m ← m.clearNew newPlace
    assertThat (m.vvNew newPlace = none)
    let infoOld ← m.infoOf nIdEvict
    pure { m.setInfo nIdEvict { infoOld with nRefCount := 1 } with
      vvNew := update m.vvNew newPlace (some nIdEvict)
      nNew := m.nNew + 1 }

def makeTried (nId : Nat) : Result CAddrMan := do
  let info ← m.infoOf nId
  let removed := removeSlots H m.nKey info.toCService nId (List.finRange _) m.vvNew info.nRefCount
  let m : CAddrMan := { m.setInfo nId { info with nRefCount := removed.2 } with
    vvNew := removed.1
    nNew := m.nNew - 1 }
  assertThat (removed.2 = 0)
  let slot := triedSlot H m.nKey info.toCService
  let m ← m.evict H slot
  assertThat (m.vvTried slot = none)
  let info ← m.infoOf nId
  pure { m.setInfo nId { info with fInTried := true } with
    vvTried := update m.vvTried slot (some nId)
    nTried := m.nTried + 1 }

/-- The loop of `Good_` that looks for a bucket the entry is in. -/
def inNewBucket (s : CService) (nId nRnd : Nat) : Bool :=
  (List.range ADDRMAN_NEW_BUCKET_COUNT).any (fun n =>
    let nB : Fin ADDRMAN_NEW_BUCKET_COUNT :=
      ⟨(n + nRnd) % ADDRMAN_NEW_BUCKET_COUNT, Nat.mod_lt _ (by decide)⟩
    m.vvNew (newSlot H m.nKey s nB) == some nId)

def good (addr : CService) (nTime : Int64) (nRnd : Nat) : Result CAddrMan :=
  match m.find addr.toCNetAddr with
  | none => .ok m
  | some (nId, info) =>
    if info.toCService ≠ addr then .ok m
    else
      let m := m.setInfo nId { info with nLastSuccess := nTime, nLastTry := nTime, nAttempts := 0 }
      if info.fInTried then .ok m
      else if m.inNewBucket H info.toCService nId nRnd then m.makeTried H nId
      else .ok m

/-- Whether the entry may have the slot. -/
def fInsert (slot : Slot ADDRMAN_NEW_BUCKET_COUNT) (info : CAddrInfo) (nNow : Int) : Result Bool :=
  match m.vvNew slot with
  | none => .ok true
  | some nIdExisting => do
    let infoExisting ← m.infoOf nIdExisting
    pure (infoExisting.isTerrible nNow || decide (1 < infoExisting.nRefCount) && decide
      (info.nRefCount = 0))

/-- The end of `Add_`: the entry is put into the new bucket for its source, if it may. -/
def addToBucket (nId : Nat) (source : CNetAddr) (nNow : Int) : Result CAddrMan := do
  let info ← m.infoOf nId
  let slot := newSlot H m.nKey info.toCService (getNewBucket H m.nKey info.toCNetAddr source)
  if m.vvNew slot = some nId then pure m
  else do
    let fInsert ← m.fInsert slot info nNow
    if fInsert then do
      let m ← m.clearNew slot
      let info ← m.infoOf nId
      pure { m.setInfo nId { info with nRefCount := info.nRefCount + 1 } with
        vvNew := update m.vvNew slot (some nId) }
    else if info.nRefCount = 0 then m.delete nId
    else pure m

/-- `nTime` and `nServices` of an entry that is there already. -/
def refreshed (info : CAddrInfo) (addr : CAddress) (nTimePenalty nNow : Int) : CAddrInfo :=
  let nUpdateInterval : Int :=
    if nNow - addr.nTime.toNat < 24 * 60 * 60 then 60 * 60 else 24 * 60 * 60
  { info with
    nTime :=
      if addr.nTime ≠ 0 ∧
        (info.nTime = 0 ∨
        (info.nTime.toNat : Int) < addr.nTime.toNat - nUpdateInterval - nTimePenalty) then
        UInt32.ofNat (max 0 (addr.nTime.toNat - nTimePenalty)).toNat
      else info.nTime
    nServices := info.nServices ||| addr.nServices }

/-- `nRnd` is what `RandomInt` draws in the stochastic test. -/
def add (addr : CAddress) (source : CNetAddr) (nTimePenalty nNow : Int) (nRnd : Nat) :
    Result CAddrMan :=
  if H.isRoutable addr.toCNetAddr = false then .ok m
  else
    match m.find addr.toCNetAddr with
    | some (nId, info) =>
      let info := refreshed info addr nTimePenalty nNow
      let m := m.setInfo nId info
      if addr.nTime = 0 ∨ (info.nTime ≠ 0 ∧ addr.nTime ≤ info.nTime) then .ok m
      else if info.fInTried then .ok m
      else if info.nRefCount = ADDRMAN_NEW_BUCKETS_PER_ADDRESS then .ok m
      else
        let nFactor := 2 ^ info.nRefCount.toNat
        if 1 < nFactor ∧ nRnd % nFactor ≠ 0 then .ok m
        else m.addToBucket H nId source nNow
    | none => do
      let (nId, m) ← m.create addr source
      let info ← m.infoOf nId
      let m : CAddrMan :=
        { m.setInfo nId
        { info with nTime := UInt32.ofNat (max 0 (info.nTime.toNat - nTimePenalty)).toNat } with
        nNew := m.nNew + 1 }
      m.addToBucket H nId source nNow

def attempt (addr : CService) (nTime : Int64) : Result CAddrMan :=
  match m.find addr.toCNetAddr with
  | none => .ok m
  | some (nId, info) =>
    if info.toCService ≠ addr then .ok m
    else if info.nAttempts = Int32.maxValue then .error .overflow
    else .ok (m.setInfo nId { info with nLastTry := nTime, nAttempts := info.nAttempts + 1 })

def connected (addr : CService) (nTime : Int64) : CAddrMan :=
  match m.find addr.toCNetAddr with
  | none => m
  | some (nId, info) =>
    if info.toCService ≠ addr then m
    else if 20 * 60 < nTime.toInt - info.nTime.toNat then
      m.setInfo nId { info with nTime := UInt32.ofNat (nTime.toInt % 2 ^ 32).toNat }
    else m

/-! Selection -/

/-- A round of the outer loop of `Select_`: where it starts, how it goes on from free slots, and
whether the entry it finds passes the test of its chance. -/
structure SelectRound (buckets : Nat) where
  start : Slot buckets
  steps : List (Slot buckets)
  chosen : Bool

/-- `kMaxRetries`. -/
def MAX_RETRIES : Nat := 200000

inductive Search where
  | found (nId : Nat)
  | gaveUp
  | searching
deriving DecidableEq, Repr

/-- The inner loop of `Select_`; `i` counts the free slots. -/
def searchSlot {buckets : Nat} (table : Slot buckets → Option Nat) :
    Nat → Slot buckets → List (Slot buckets) → Search
  | i, slot, steps =>
    match table slot, steps with
    | some nId, _ => .found nId
    | none, [] => .searching
    | none, next :: steps =>
      if MAX_RETRIES < i then .gaveUp else searchSlot table (i + 1) next steps

/-- The outer loop; `none` as a result is an address without data or a loop that goes on. -/
def selectFrom {buckets : Nat} (table : Slot buckets → Option Nat) :
    List (SelectRound buckets) → Result (Option CAddrInfo)
  | [] => .ok none
  | round :: rest =>
    match searchSlot table 0 round.start round.steps with
    | .gaveUp | .searching => .ok none
    | .found nId => do
      let info ← m.infoOf nId
      if round.chosen then pure (some info) else selectFrom table rest

/-- `coin` is the draw between the tables. -/
def select (newOnly coin : Bool) (triedRounds : List (SelectRound ADDRMAN_TRIED_BUCKET_COUNT))
    (newRounds : List (SelectRound ADDRMAN_NEW_BUCKET_COUNT)) : Result (Option CAddrInfo) :=
  if m.vRandom.length = 0 then .ok none
  else if newOnly ∧ m.nNew = 0 then .ok none
  else if ¬ newOnly ∧ 0 < m.nTried ∧ (m.nNew = 0 ∨ coin) then m.selectFrom m.vvTried triedRounds
  else m.selectFrom m.vvNew newRounds

/-- The loop of `GetAddr_` from position `n` on. -/
def getAddrFrom (nNow : Int) (nNodes : Nat) (draw : Nat → Nat) :
    Nat → Nat → CAddrMan → List CAddress → Result (CAddrMan × List CAddress)
  | 0, _, m, vAddr => .ok (m, vAddr)
  | rounds + 1, n, m, vAddr =>
    if nNodes ≤ vAddr.length then .ok (m, vAddr)
    else do
      let nRndPos := draw n % (m.vRandom.length - n) + n
      let m ← m.swapRandom n nRndPos
      match m.vRandom[n]? with
      | none => .error .assertion
      | some nId => do
        let ai ← m.infoOf nId
        getAddrFrom nNow nNodes draw rounds (n + 1) m
          (if ai.isTerrible nNow then vAddr else vAddr ++ [ai.toCAddress])

def getAddr (nNow : Int) (draw : Nat → Nat) : Result (CAddrMan × List CAddress) :=
  let nNodes := min (ADDRMAN_GETADDR_MAX_PCT * m.vRandom.length / 100) ADDRMAN_GETADDR_MAX
  getAddrFrom nNow nNodes draw m.vRandom.length 0 m []

/-! `Check_` -/

/-- The entries of a `std::map` in the order of its iterator. -/
def inOrder {β : Type} (entries : List (Σ _ : Nat, β)) : List (Σ _ : Nat, β) :=
  entries.insertionSort (fun a b => a.1 ≤ b.1)

/-- `mapInfo[nId]`, which makes an entry if there is none. -/
def infoOrDefault (nId : Nat) : CAddrInfo := (m.mapInfo.lookup nId).getD defaultInfo

/-- `setTried` and `mapNew`. -/
abbrev CheckSets := List Nat × AList (fun _ : Nat => Int)

/-- An entry goes into one of the two sets. -/
def checkKind (nId : Nat) (info : CAddrInfo) (sets : CheckSets) : Except Int CheckSets :=
  if info.fInTried then
    if info.nLastSuccess = 0 then .error (-1)
    else if info.nRefCount ≠ 0 then .error (-2)
    else .ok (nId :: sets.1, sets.2)
  else if info.nRefCount < 0 ∨ ADDRMAN_NEW_BUCKETS_PER_ADDRESS < info.nRefCount then .error (-3)
  else if info.nRefCount = 0 then .error (-4)
  else .ok (sets.1, sets.2.insert nId info.nRefCount)

/-- `mapAddr[info]` is 0 for an address that is not there. -/
def checkIndexes (nId : Nat) (info : CAddrInfo) : Except Int Unit :=
  if (m.mapAddr.lookup info.toCNetAddr).getD 0 ≠ nId then .error (-5)
  else if info.nRandomPos.bind (m.vRandom[·]?) ≠ some nId then .error (-14)
  else if info.nLastTry < 0 then .error (-6)
  else if info.nLastSuccess < 0 then .error (-8)
  else .ok ()

def checkEntries : List (Σ _ : Nat, CAddrInfo) → CheckSets → Except Int CheckSets
  | [], sets => .ok sets
  | entry :: rest, sets => do
    let sets ← checkKind entry.1 entry.2 sets
    m.checkIndexes entry.1 entry.2
    checkEntries rest sets

/-- The slots of a table in the order of the two loops. -/
def allSlots (buckets : Nat) : List (Slot buckets) :=
  (List.finRange buckets).flatMap
    (fun n => (List.finRange ADDRMAN_BUCKET_SIZE).map (fun i => (n, i)))

def checkTried : List (Slot ADDRMAN_TRIED_BUCKET_COUNT) → List Nat → Except Int (List Nat)
  | [], setTried => .ok setTried
  | slot :: rest, setTried =>
    match m.vvTried slot with
    | none => checkTried rest setTried
    | some nId =>
      if nId ∉ setTried then .error (-11)
      else if getTriedBucket H m.nKey (m.infoOrDefault nId).toCService ≠ slot.1 then .error (-17)
      else if getBucketPosition H m.nKey (m.infoOrDefault nId).toCService false slot.1 ≠ slot.2 then
        .error (-18)
      else checkTried rest (setTried.erase nId)

def checkNew : List (Slot ADDRMAN_NEW_BUCKET_COUNT) → AList (fun _ : Nat => Int) →
    Except Int (AList (fun _ : Nat => Int))
  | [], mapNew => .ok mapNew
  | slot :: rest, mapNew =>
    match m.vvNew slot with
    | none => checkNew rest mapNew
    | some nId =>
      match mapNew.lookup nId with
      | none => .error (-12)
      | some nRefs =>
        if getBucketPosition H m.nKey (m.infoOrDefault nId).toCService true slot.1 ≠ slot.2 then
          .error (-19)
        else if nRefs - 1 = 0 then checkNew rest (mapNew.erase nId)
        else checkNew rest (mapNew.insert nId (nRefs - 1))

/-- All checks but the one of the key. -/
def checkTables : Except Int Unit :=
  if (m.vRandom.length : Int) ≠ m.nTried + m.nNew then .error (-7)
  else do
    let (setTried, mapNew) ← m.checkEntries (inOrder m.mapInfo.entries) ([], ∅)
    if (setTried.length : Int) ≠ m.nTried then .error (-9)
    else if (mapNew.entries.length : Int) ≠ m.nNew then .error (-10)
    else do
      let setTried ← m.checkTried H (allSlots _) setTried
      let mapNew ← m.checkNew H (allSlots _) mapNew
      if setTried ≠ [] then .error (-13)
      else if mapNew.entries ≠ [] then .error (-15)
      else .ok ()

/-- `Check_`. -/
def check : Int :=
  match m.checkTables H with
  | .ok _ => if m.nKey = 0 then -16 else 0
  | .error code => code

end CAddrMan

/-! Operations -/

inductive Operation where
  | add (addr : CAddress) (source : CNetAddr) (nTimePenalty nNow : Int) (nRnd : Nat)
  | good (addr : CService) (nTime : Int64) (nRnd : Nat)
  | attempt (addr : CService) (nTime : Int64)
  | connected (addr : CService) (nTime : Int64)
  | select (newOnly coin : Bool)
      (triedRounds : List (CAddrMan.SelectRound ADDRMAN_TRIED_BUCKET_COUNT))
      (newRounds : List (CAddrMan.SelectRound ADDRMAN_NEW_BUCKET_COUNT))
  | getAddr (nNow : Int) (draw : Nat → Nat)

/-- The times an operation is called with are positive. -/
def Operation.TimesPositive : Operation → Prop
  | .good _ nTime _ | .attempt _ nTime | .connected _ nTime => 0 < nTime
  | _ => True

def step (H : AddrHash) (m : CAddrMan) : Operation → Result CAddrMan
  | .add addr source nTimePenalty nNow nRnd => m.add H addr source nTimePenalty nNow nRnd
  | .good addr nTime nRnd => m.good H addr nTime nRnd
  | .attempt addr nTime => m.attempt addr nTime
  | .connected addr nTime => .ok (m.connected addr nTime)
  | .select newOnly coin triedRounds newRounds => do
    let _ ← m.select newOnly coin triedRounds newRounds
    pure m
  | .getAddr nNow draw => do
    let (m, _) ← m.getAddr nNow draw
    pure m

end Zcashd.Source.AddrMan

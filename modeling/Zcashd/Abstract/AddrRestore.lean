import Zcashd.Source.AddrManFormat
import Zcashd.Abstract.AddrCheck

/-!
# Reading an address manager back

What a manager that passes `Check_` writes, and what `Unserialize` makes of it in a manager that
may hold entries already.
-/
namespace Zcashd.Abstract.AddrTables

open Lib Source Source.Wire Source.AddrMan CAddrMan List Function Nat AList

/-! The bytes -/

theorem readInt_decodes (n : Int32) : Decodes readInt (writeInt n) n := by
  have read :=
    (readUInt32_exact.decodes trivial : Decodes readUInt32 (writeInt n) n.toUInt32).last (·.toInt32)
  rw [show n.toUInt32.toInt32 = n from Int32.toInt32_toUInt32 n] at read
  exact read

theorem readService_decodes (s : CService) : Decodes readService s.bytes s := by
  have port : (s.port / 0x100).toUInt8.toUInt16 * 0x100 + (s.port &&& 0xFF).toUInt8.toUInt16 =
      s.port := by
    apply UInt16.toNat_inj.mp
    have small := s.port.toNat_lt
    have low : s.port.toNat &&& 255 = s.port.toNat % 256 := and_two_pow_sub_one_eq_mod _ 8
    change ((s.port.toNat / 256 % 2 ^ 8 * 256 % 2 ^ 16) + (s.port.toNat &&& 255) % 2 ^ 8) % 2 ^ 16 =
      s.port.toNat
    rw [low]
    omega
  refine ((readBlob_exact 16).decodes trivial).bind (Decodes.bind (.byte _) ?_)
  have last := (Decodes.byte (s.port &&& 0xFF).toUInt8).last
    (fun low => (⟨⟨s.ip⟩, (s.port / 0x100).toUInt8.toUInt16 * 0x100 + low.toUInt16⟩ : CService))
  rw [port] at last
  exact last

variable (nVersion : Int32)

theorem readPersistent_decodes (data : Persistent) :
    Decodes readPersistent (data.bytes nVersion) data := by
  refine (readInt_decodes nVersion).bind ?_
  refine (readUInt32_exact.decodes trivial).bind ?_
  refine ((readData_exact 8).decodes data.nServices.toNat_lt).bind ?_
  refine (readService_decodes data.toCService).bind ?_
  refine ((readBlob_exact 16).decodes trivial).bind ?_
  refine (readAmount_exact.decodes trivial).bind ?_
  have last := (readInt_decodes data.nAttempts).last (fun nAttempts =>
    (⟨⟨data.toCService, .ofNat data.nServices.toNat, data.nTime⟩, ⟨data.source.ip⟩,
      data.nLastSuccess, nAttempts⟩ : Persistent))
  rw [UInt64.ofNat_toNat] at last ⊢
  exact last

theorem readBucket_decodes {bucket : List Int32} (small : bucket.length < 2 ^ 31) :
    Decodes readBucket (writeInt (.ofNat bucket.length) ++ bucket.flatMap writeInt) bucket := by
  refine (readInt_decodes _).bind ?_
  have count : (Int32.ofNat bucket.length).toInt.toNat = bucket.length := by
    rw [Int32.toInt_ofNat_of_lt small, Int.toNat_natCast]
  rw [count]
  exact Decodes.times fun n _ => readInt_decodes n

theorem markBuckets_markBuckets (nVersion : UInt8) (nUBuckets : Int32) :
    markBuckets nVersion (markBuckets nVersion nUBuckets) = nUBuckets := by
  unfold markBuckets
  split
  · rw [Int32.xor_assoc, Int32.xor_self, Int32.xor_zero]
  · rfl

/-- The counts of a dump are those of its lists, and within the limits. -/
structure Dump.WellFormed (dump : Dump) : Prop where
  keySize : dump.nKeySize = 32
  news : dump.nNew.toInt.toNat = dump.news.length
  trieds : dump.nTried.toInt.toNat = dump.trieds.length
  buckets : dump.nUBuckets.toInt.toNat = dump.buckets.length
  fewNew : dump.nNew.toInt ≤ (ADDRMAN_NEW_BUCKET_COUNT * ADDRMAN_BUCKET_SIZE : Nat)
  fewTried : dump.nTried.toInt ≤ (ADDRMAN_TRIED_BUCKET_COUNT * ADDRMAN_BUCKET_SIZE : Nat)
  sizes : ∀ bucket ∈ dump.buckets, bucket.length < 2 ^ 31

theorem readDump_decodes {dump : Dump} (formed : Dump.WellFormed dump) :
    Decodes readDump (dump.bytes nVersion) dump := by
  refine (Decodes.byte dump.nVersion).bind ?_
  refine (Decodes.byte dump.nKeySize).bind ?_
  rw [if_neg (not_not.mpr formed.keySize)]
  refine (readUint256_exact.decodes trivial).bind ?_
  refine (readInt_decodes dump.nNew).bind ?_
  refine (readInt_decodes dump.nTried).bind ?_
  refine (readInt_decodes _).bind ?_
  rw [markBuckets_markBuckets, if_neg (Int.not_lt.mpr formed.fewNew),
    if_neg (Int.not_lt.mpr formed.fewTried), formed.news, formed.trieds, formed.buckets]
  refine (Decodes.times fun data _ => readPersistent_decodes nVersion data).bind ?_
  refine (Decodes.times fun data _ => readPersistent_decodes nVersion data).bind ?_
  exact (Decodes.times fun bucket mem => readBucket_decodes (formed.sizes bucket mem)).last
    fun buckets =>
    { dump with buckets }

/-! What is written -/

section

/-- The entries in new buckets, in the order of their ids. -/
def newEntries (entries : List (Σ _ : Nat, CAddrInfo)) : List (Σ _ : Nat, CAddrInfo) :=
  entries.filter (fun entry => entry.2.nRefCount ≠ 0)

def triedEntries (entries : List (Σ _ : Nat, CAddrInfo)) : List (Σ _ : Nat, CAddrInfo) :=
  entries.filter (fun entry => entry.2.fInTried)

variable (entries : List (Σ _ : Nat, CAddrInfo))

theorem dumpNew_eq {nNew : Int} (nIds : Nat) (mapUnkIds : AList (fun _ : Nat => Nat))
    (fits : nIds + (newEntries entries).length ≤ nNew) (nodup : entries.NodupKeys) :
    ∃ ids, dumpNew nNew entries nIds mapUnkIds =
      .ok ((newEntries entries).map (·.2.persistent), ids) ∧
      (∀ i entry, (newEntries entries)[i]? = some entry → ids.lookup entry.1 = some (nIds + i)) ∧
      ∀ nId, nId ∉ entries.keys → ids.lookup nId = mapUnkIds.lookup nId := by
  induction entries generalizing nIds mapUnkIds with
  | nil => exact ⟨mapUnkIds, rfl, nofun, fun nId _ => rfl⟩
  | cons entry rest ih =>
    rw [nodupKeys_cons] at nodup
    unfold dumpNew
    by_cases refs : entry.2.nRefCount ≠ 0
    · have split : newEntries (entry :: rest) = entry :: newEntries rest :=
        filter_cons_of_pos (by simpa using refs)
      rw [split, length_cons] at fits
      obtain ⟨ids, ran, indexes, others⟩ :=
        ih (nIds + 1) (mapUnkIds.insert entry.1 nIds) (by push_cast; omega) nodup.2
      refine ⟨ids, ?_, ?_, ?_⟩
      · rw [if_pos refs, split, ran]
        rw [show assertThat ((nIds : Int) ≠ nNew) = .ok () from if_pos (by omega)]
        rfl
      · intro i _ here
        grind [update_apply]
      · grind [keys_cons]
    · have split : newEntries (entry :: rest) = newEntries rest :=
        filter_cons_of_neg (by simpa using refs)
      rw [split] at fits
      obtain ⟨ids, ran, indexes, others⟩ := ih nIds (mapUnkIds.insert entry.1 nIds) fits nodup.2
      refine ⟨ids, ?_, ?_, ?_⟩
      · rw [if_neg refs, split, ran]
      · rwa [split]
      · grind [keys_cons]

theorem dumpTried_eq {nTried : Int} (nIds : Nat)
    (fits : nIds + (triedEntries entries).length ≤ nTried) :
    dumpTried nTried entries nIds = .ok ((triedEntries entries).map (·.2.persistent)) := by
  induction entries generalizing nIds with
  | nil => rfl
  | cons entry rest ih =>
    unfold dumpTried
    cases inTried : entry.2.fInTried with
    | true =>
      have split : triedEntries (entry :: rest) = entry :: triedEntries rest :=
        filter_cons_of_pos inTried
      rw [split, length_cons] at fits
      rw [if_pos rfl, split, ih (nIds + 1) (by push_cast; omega)]
      rw [show assertThat ((nIds : Int) ≠ nTried) = .ok () from if_pos (by omega)]
      rfl
    | false =>
      have split : triedEntries (entry :: rest) = triedEntries rest :=
        filter_cons_of_neg (by simpa using inTried)
      rw [split] at fits
      rw [if_neg (by simp), split, ih nIds fits]

end

/-! What is built from it -/

section

variable {H : AddrHash} {m r : CAddrMan}

/-- The new entries are in their places; their references and whether they are tried is as it
was. -/
structure NewsPlaced (n : Nat) (l : List Persistent) (m r : CAddrMan) : Prop where
  nKey : r.nKey = m.nKey
  nNew : r.nNew = m.nNew
  nTried : r.nTried = m.nTried
  vvNew : r.vvNew = m.vvNew
  vvTried : r.vvTried = m.vvTried
  vRandom : r.vRandom = m.vRandom ++ List.range' n l.length
  mapAddr : r.mapAddr =
    (l.zipIdx n).foldl (fun map placed => map.insert placed.1.toCNetAddr placed.2) m.mapAddr
  stored : ∀ i data, l[i]? = some data → r.mapInfo.lookup (n + i) =
    some { data.into (m.infoOrDefault (n + i)) with nRandomPos := some (m.vRandom.length + i) }
  others : ∀ j, j < n ∨ n + l.length ≤ j → r.mapInfo.lookup j = m.mapInfo.lookup j

theorem restoreNews_placed (n : Nat) (l : List Persistent) (m : CAddrMan) :
    NewsPlaced n l m (restoreNews H true n l m) := by
  induction l generalizing n m with
  | nil => exact ⟨rfl, rfl, rfl, rfl, rfl, (append_nil _).symm, rfl, nofun, fun j _ => rfl⟩
  | cons data rest ih =>
    have placed := ih (n + 1) (m.restoreNew H true n data)
    unfold restoreNews
    refine ⟨placed.nKey, placed.nNew, placed.nTried, placed.vvNew, placed.vvTried, ?_,
      placed.mapAddr, ?_, ?_⟩
    · rw [placed.vRandom, length_cons, range'_succ]
      exact append_assoc _ [n] _
    · intro i data' here
      cases i with
      | zero =>
        cases here
        rw [add_zero, add_zero, placed.others _ (.inl (lt_succ_self n))]
        exact lookup_insert _
      | succ i =>
        have inRest := placed.stored i data' here
        have old : (m.restoreNew H true n data).infoOrDefault (n + 1 + i) =
            m.infoOrDefault (n + 1 + i) :=
          congrArg (Option.getD · _) (lookup_insert_ne (by omega))
        have length : (m.restoreNew H true n data).vRandom.length = m.vRandom.length + 1 :=
          length_append
        grind
    · intro j outside
      rw [length_cons] at outside
      rw [placed.others j (by omega)]
      exact lookup_insert_ne (by omega)

/-- The tried entries are in their places. -/
structure TriedsPlaced (H : AddrHash) (l : List Persistent) (m r : CAddrMan) : Prop where
  nKey : r.nKey = m.nKey
  nNew : r.nNew = m.nNew
  nTried : r.nTried = m.nTried
  vvNew : r.vvNew = m.vvNew
  nIdCount : r.nIdCount = m.nIdCount + l.length
  vRandom : r.vRandom = m.vRandom ++ List.range' m.nIdCount l.length
  mapAddr : r.mapAddr = (l.zipIdx m.nIdCount).foldl
    (fun map placed => map.insert placed.1.toCNetAddr placed.2) m.mapAddr
  stored : ∀ i data, l[i]? = some data → r.mapInfo.lookup (m.nIdCount + i) =
    some { data.into defaultInfo with nRandomPos := some (m.vRandom.length + i), fInTried := true }
  others : ∀ j, j < m.nIdCount ∨ m.nIdCount + l.length ≤ j → r.mapInfo.lookup j = m.mapInfo.lookup j
  vvTried : ∀ slot j, r.vvTried slot = some j ↔ m.vvTried slot = some j ∨
    ∃ i data, l[i]? = some data ∧ triedSlot H m.nKey data.toCService = slot ∧ j = m.nIdCount + i

/-- No two of the entries have the same slot, and the slots are free. -/
theorem restoreTrieds_placed (l : List Persistent) (m : CAddrMan) (nLost : Nat)
    (apart : (l.map (fun data => triedSlot H m.nKey data.toCService)).Nodup)
    (free : ∀ data ∈ l, m.vvTried (triedSlot H m.nKey data.toCService) = none) :
    ∃ r, restoreTrieds H l m nLost = (r, nLost) ∧ TriedsPlaced H l m r := by
  induction l generalizing m with
  | nil =>
    refine ⟨m, rfl, rfl, rfl, rfl, rfl, rfl, (append_nil _).symm, rfl, nofun, fun j _ => rfl, ?_⟩
    simp
  | cons data rest ih =>
    rw [map_cons, nodup_cons] at apart
    rw [forall_mem_cons] at free
    let m1 : CAddrMan := { m.setInfo m.nIdCount
        { data.into defaultInfo with nRandomPos := some m.vRandom.length, fInTried := true } with
      vRandom := m.vRandom ++ [m.nIdCount]
      mapAddr := m.mapAddr.insert data.toCNetAddr m.nIdCount
      vvTried := update m.vvTried (triedSlot H m.nKey data.toCService) (some m.nIdCount)
      nIdCount := m.nIdCount + 1 }
    have round : m.restoreTried H nLost data = (m1, nLost) := if_pos free.1
    have ne : ∀ data' ∈ rest, triedSlot H m.nKey data'.toCService ≠
        triedSlot H m.nKey data.toCService := by
      intro data' mem same
      exact apart.1 (mem_map.mpr ⟨data', mem, same⟩)
    have free1 : ∀ data' ∈ rest, m1.vvTried (triedSlot H m1.nKey data'.toCService) = none := by
      intro data' mem
      exact (update_of_ne (ne data' mem) _ _).trans (free.2 data' mem)
    obtain ⟨r, ran, placed⟩ := ih m1 apart.2 free1
    refine ⟨r, ?_, placed.nKey, placed.nNew, placed.nTried, placed.vvNew, ?_, ?_,
      placed.mapAddr, ?_, ?_, ?_⟩
    · unfold restoreTrieds
      rw [round]
      exact ran
    · rw [placed.nIdCount, length_cons]
      change m.nIdCount + 1 + rest.length = _
      omega
    · rw [placed.vRandom, length_cons, range'_succ]
      exact append_assoc _ [m.nIdCount] _
    · intro i data' here
      cases i with
      | zero =>
        cases here
        rw [add_zero, add_zero, placed.others _ (.inl (lt_succ_self _))]
        exact lookup_insert _
      | succ i =>
        have inRest := placed.stored i data' here
        grind
    · intro j outside
      rw [length_cons] at outside
      rw [placed.others j (by change j < m.nIdCount + 1 ∨ m.nIdCount + 1 + rest.length ≤ j; omega)]
      exact lookup_insert_ne (by omega)
    · intro slot j
      have key1 : m1.nKey = m.nKey := rfl
      have count1 : m1.nIdCount = m.nIdCount + 1 := rfl
      rw [placed.vvTried, key1, count1]
      constructor
      · rintro (_ | ⟨i, data', here, place, rfl⟩)
        · have first : (data :: rest)[0]? = some data := rfl
          grind [update_apply]
        · exact .inr ⟨i + 1, data', here, place, by omega⟩
      · grind [update_apply]

/-- References were handed out: an entry has as many more as there are slots that name it. -/
structure Filled (m r : CAddrMan) : Prop where
  nKey : r.nKey = m.nKey
  nNew : r.nNew = m.nNew
  nTried : r.nTried = m.nTried
  nIdCount : r.nIdCount = m.nIdCount
  vRandom : r.vRandom = m.vRandom
  mapAddr : r.mapAddr = m.mapAddr
  vvTried : r.vvTried = m.vvTried
  entries : ∀ i, r.mapInfo.lookup i =
    (m.mapInfo.lookup i).map
      (fun info => { info with nRefCount := info.nRefCount + slotCount r.vvNew i })
  named : ∀ slot i, r.vvNew slot = some i → (i : Int) < m.nNew

theorem filled_start (empty : m.vvNew = fun _ => none) : Filled m m := by
  have none : ∀ i, slotCount m.vvNew i = 0 := by
    intro i
    rw [slotCount_eq_zero, empty]
    exact fun _ => nofun
  refine ⟨rfl, rfl, rfl, rfl, rfl, rfl, rfl, ?_, ?_⟩
  · intro i
    simp [none]
  · simp [empty]

variable {info : CAddrInfo}

theorem Filled.lookup (filled : Filled m r) {i : Nat} (held : m.mapInfo.lookup i = some info) :
    r.mapInfo.lookup i = some { info with nRefCount := info.nRefCount + slotCount r.vvNew i } := by
  rw [filled.entries, held]
  rfl

variable {slot : Slot ADDRMAN_NEW_BUCKET_COUNT}

/-- An entry takes a free slot. -/
theorem Filled.occupy (filled : Filled m r) {i : Nat} (held : m.mapInfo.lookup i = some info)
    (isNew : (i : Int) < m.nNew) (free : r.vvNew slot = none) :
    Filled m { r.setInfo i { info with nRefCount := info.nRefCount + slotCount r.vvNew i + 1 } with
      vvNew := update r.vvNew slot (some i) } := by
  refine ⟨filled.nKey, filled.nNew, filled.nTried, filled.nIdCount, filled.vRandom, filled.mapAddr,
    filled.vvTried, ?_, ?_⟩
  · intro j
    change (r.mapInfo.insert i _).lookup j = (m.mapInfo.lookup j).map fun info' =>
      { info' with nRefCount := info'.nRefCount + slotCount (update r.vvNew slot (some i)) j }
    by_cases same : j = i
    · have more : info.nRefCount + slotCount r.vvNew i + 1 = info.nRefCount +
          (slotCount r.vvNew i + 1 : Nat) := by omega
      rw [same, lookup_insert, held, slotCount_set free, Option.map_some, more]
    · rw [lookup_insert_ne same, slotCount_set_of_ne free same]
      exact filled.entries j
  · intro other j _
    have named := filled.named other j
    grind [update_apply]

theorem restoreIndex_filled (filled : Filled m r)
    (known : ∀ i : Nat, (i : Int) < m.nNew → ∃ info, m.mapInfo.lookup i = some info) {usable : Bool}
    {bucket : Nat} {nIndex : Int32} :
    Filled m (r.restoreIndex H usable bucket nIndex) := by
  unfold restoreIndex
  split
  · rename_i inRange
    have isNew : (nIndex.toInt.toNat : Int) < m.nNew := by
      rw [filled.nNew] at inRange
      omega
    obtain ⟨_, held⟩ := known _ isNew
    dsimp only
    rw [infoOrDefault_eq (filled.lookup held)]
    grind [filled.occupy]
  · exact filled

/-- The index for a slot, as the file tells it. -/
def restoreSlot (H : AddrHash) (target : Slot ADDRMAN_NEW_BUCKET_COUNT → Option Nat) (m : CAddrMan)
    (slot : Slot ADDRMAN_NEW_BUCKET_COUNT) : CAddrMan :=
  match target slot with
  | none => m
  | some n => m.restoreIndex H true slot.1 (.ofNat n)

section

variable (target : Slot ADDRMAN_NEW_BUCKET_COUNT → Option Nat)
include target

/-- The loops over the buckets are one loop over the slots. -/
theorem restoreBuckets_eq (m : CAddrMan) : restoreBuckets H true 0 ((finRange _).map (fun bucket =>
      ((finRange ADDRMAN_BUCKET_SIZE).filterMap (fun i => target (bucket, i))).map .ofNat)) m =
    (allSlots _).foldl (restoreSlot H target) m := by
  have loop : ∀ (buckets : List (Fin ADDRMAN_NEW_BUCKET_COUNT)) (first : Nat) (m : CAddrMan),
      buckets.map Fin.val = range' first buckets.length →
      restoreBuckets H true first (buckets.map (fun bucket =>
        ((finRange ADDRMAN_BUCKET_SIZE).filterMap (fun i => target (bucket, i))).map .ofNat)) m =
      (buckets.flatMap (fun n => (finRange ADDRMAN_BUCKET_SIZE).map (fun i => (n, i)))).foldl
        (restoreSlot H target) m := by
    intro buckets
    induction buckets with
    | nil =>
      intro _ m _
      rfl
    | cons bucket _ ih =>
      intro first m numbered
      rw [map_cons, length_cons, range'_succ, cons.injEq] at numbered
      rw [map_cons, flatMap_cons, foldl_append, ← ih (first + 1) _ numbered.2]
      rw [restoreBuckets, foldl_map, foldl_filterMap, foldl_map]
      congr 2
      funext m i
      unfold restoreSlot
      rw [numbered.1]
      cases target (bucket, i) <;> rfl
  exact loop (finRange _) 0 m (by simp [range'_eq_map_range])

theorem restoreSlots_filled (slots : List (Slot ADDRMAN_NEW_BUCKET_COUNT)) (filled : Filled m r)
    (known : ∀ i : Nat, (i : Int) < m.nNew → ∃ info, m.mapInfo.lookup i = some info) :
    Filled m (slots.foldl (restoreSlot H target) r) := by
  induction slots generalizing r with
  | nil => exact filled
  | cons _ _ ih =>
    apply ih
    unfold restoreSlot
    split
    · exact filled
    · exact restoreIndex_filled filled known

end

/-- Every entry fits the slots it is to have, and all its references with those it has already. -/
def Fits (H : AddrHash) (target : Slot ADDRMAN_NEW_BUCKET_COUNT → Option Nat)
    (m : CAddrMan) : Prop :=
  ∀ slot n, target slot = some n → n < 2 ^ 31 ∧
    (n : Int) < m.nNew ∧ ∃ info, m.mapInfo.lookup n = some info ∧
    newSlot H m.nKey info.toCService slot.1 = slot ∧
    info.nRefCount + slotCount target n ≤ ADDRMAN_NEW_BUCKETS_PER_ADDRESS

variable {target : Slot ADDRMAN_NEW_BUCKET_COUNT → Option Nat}

section

variable (fits : Fits H target m)
include fits

theorem restoreSlot_exact (filled : Filled m r)
    (partly : ∀ slot n, r.vvNew slot = some n → target slot = some n)
    (free : r.vvNew slot = none) : Filled m (restoreSlot H target r slot) ∧
      (restoreSlot H target r slot).vvNew = update r.vvNew slot (target slot) := by
  unfold restoreSlot
  cases wanted : target slot with
  | none =>
    refine ⟨filled, ?_⟩
    have same : update r.vvNew slot none = r.vvNew := by rw [← free, update_eq_self]
    exact same.symm
  | some n =>
    obtain ⟨small, isNew, info, held, place, _⟩ := fits slot n wanted
    have index : (Int32.ofNat n).toInt = n := Int32.toInt_ofNat_of_lt small
    have inRange : 0 ≤ (Int32.ofNat n).toInt ∧ (Int32.ofNat n).toInt < r.nNew := by
      rw [index, filled.nNew]
      exact ⟨Int.natCast_nonneg n, isNew⟩
    have room : slotCount r.vvNew n + 1 ≤ slotCount target n := by
      rw [← slotCount_set free]
      apply slotCount_mono
      intro other used
      by_cases here : other = slot
      · rw [here]
        exact wanted
      · rw [update_of_ne here] at used
        exact partly other n used
    have slotEq : newSlot H r.nKey info.toCService slot.1 = slot := by
      rw [filled.nKey]
      exact place
    have ran : r.restoreIndex H true slot.1 (.ofNat n) =
        { r.setInfo n { info with nRefCount := info.nRefCount + slotCount r.vvNew n + 1 } with
          vvNew := update r.vvNew slot (some n) } := by
      unfold restoreIndex
      rw [if_pos inRange, index, Int.toNat_natCast]
      dsimp only
      rw [infoOrDefault_eq (filled.lookup held), dif_pos slot.1.isLt]
      dsimp only
      rw [slotEq, if_pos ⟨rfl, free, by omega⟩]
    dsimp only
    rw [ran]
    exact ⟨filled.occupy held isNew free, rfl⟩

theorem restoreSlots_exact (slots done : List (Slot ADDRMAN_NEW_BUCKET_COUNT))
    (nodup : (done ++ slots).Nodup) (filled : Filled m r)
    (table : ∀ slot, r.vvNew slot = if slot ∈ done then target slot else none)
    (slot : Slot ADDRMAN_NEW_BUCKET_COUNT) :
    (slots.foldl (restoreSlot H target) r).vvNew slot = if slot ∈ done ++ slots then target slot
      else none := by
  induction slots generalizing r done with
  | nil =>
    rw [append_nil]
    exact table slot
  | cons head _ ih =>
    have fresh : head ∉ done := by grind [nodup_append]
    have free : r.vvNew head = none := by
      rw [table, if_neg fresh]
    have partly : ∀ slot n, r.vvNew slot = some n → target slot = some n := by
      grind
    obtain ⟨filled', updated⟩ := restoreSlot_exact fits filled partly free
    have next := ih (done ++ [head]) (by rw [append_assoc]; exact nodup) filled' (by
      intro other
      rw [updated]
      by_cases here : other = head
      · rw [here, update_self, if_pos (by simp)]
      · rw [update_of_ne here, table]
        simp [here])
    rw [append_assoc] at next
    exact next

theorem restoreAllSlots_exact
    (empty : m.vvNew = fun _ => none) (slot : Slot ADDRMAN_NEW_BUCKET_COUNT) :
    ((allSlots _).foldl (restoreSlot H target) m).vvNew slot = target slot := by
  have start : ∀ slot, m.vvNew slot = if slot ∈ ([] : List (Slot ADDRMAN_NEW_BUCKET_COUNT)) then
      target slot
    else none := by
    intro _
    rw [empty, if_neg not_mem_nil]
  rw [restoreSlots_exact fits (allSlots _) [] (by rw [nil_append]; exact nodup_allSlots _)
    (filled_start empty) start, nil_append, if_pos (mem_allSlots slot)]

end

end

end Zcashd.Abstract.AddrTables

import Zcashd.Abstract.AddrRestore

/-!
# The order of the file

The new entries come first in the file and the tried ones after them, each in the order of their
ids. The place of an entry in this order is its id when the file is read.
-/
namespace Zcashd.Abstract.AddrTables

open Lib Source Source.Wire Source.AddrMan CAddrMan Checked List

variable {H : AddrHash} {m d r : CAddrMan}

def fileNew (m : CAddrMan) : List (Σ _ : Nat, CAddrInfo) :=
  newEntries (CAddrMan.inOrder m.mapInfo.entries)

def fileTried (m : CAddrMan) : List (Σ _ : Nat, CAddrInfo) :=
  triedEntries (CAddrMan.inOrder m.mapInfo.entries)

variable {entry : Σ _ : Nat, CAddrInfo}

theorem mem_fileNew : entry ∈ fileNew m ↔ m.mapInfo.lookup entry.1 = some entry.2 ∧
    entry.2.nRefCount ≠ 0 := by
  unfold fileNew newEntries
  rw [mem_filter, mem_inOrder]
  simp

theorem mem_fileTried : entry ∈ fileTried m ↔ m.mapInfo.lookup entry.1 = some entry.2 ∧
    entry.2.fInTried = true := by
  unfold fileTried triedEntries
  rw [mem_filter, mem_inOrder]

theorem nodupKeys_fileNew (m : CAddrMan) : (fileNew m).NodupKeys :=
  List.NodupKeys.sublist filter_sublist (nodupKeys_inOrder m.mapInfo)

theorem nodupKeys_fileTried (m : CAddrMan) : (fileTried m).NodupKeys :=
  List.NodupKeys.sublist filter_sublist (nodupKeys_inOrder m.mapInfo)

theorem length_filter_eq_sum {weight : CAddrInfo → Nat} {chosen : (Σ _ : Nat, CAddrInfo) → Bool}
    (l : List (Σ _ : Nat, CAddrInfo))
    (indicator : ∀ entry ∈ l, weight entry.2 = if chosen entry then 1 else 0) :
    (l.filter chosen).length = (l.map (fun entry => weight entry.2)).sum := by
  induction l with
  | nil => rfl
  | cons _ _ _ =>
    grind

theorem Checked.inTried_iff (checked : Checked H m) {nId : Nat} {info : CAddrInfo}
    (held : m.mapInfo.lookup nId = some info) :
    info.fInTried = true ↔ info.nRefCount = 0 := by
  have entry := checked.entries nId info held
  have tried := entry.tried
  have new := entry.new
  grind

theorem Checked.length_fileNew (checked : Checked H m) : ((fileNew m).length : Int) = m.nNew := by
  rw [checked.nNew, ← sum_inOrder]
  congr 1
  apply length_filter_eq_sum
  rintro ⟨_, _⟩ mem
  have same := checked.inTried_iff (mem_inOrder.mp mem)
  unfold newWeight
  grind

theorem Checked.length_fileTried (checked : Checked H m) :
    ((fileTried m).length : Int) = m.nTried := by
  rw [checked.nTried, ← sum_inOrder]
  congr 1
  apply length_filter_eq_sum
  intro _ _
  rfl

/-- Ids that are each named by a slot are no more than there are slots. -/
theorem length_le_of_named {buckets : Nat} {table : Slot buckets → Option Nat} {ids : List Nat}
    (nodup : ids.Nodup) (named : ∀ nId ∈ ids, ∃ slot, table slot = some nId) :
    ids.length ≤ buckets * ADDRMAN_BUCKET_SIZE := by
  have inside : ids.toFinset ⊆ Finset.univ.image (fun slot => (table slot).getD 0) := by
    intro nId mem
    obtain ⟨slot, used⟩ := named nId (mem_toFinset.mp mem)
    refine Finset.mem_image.mpr ⟨slot, Finset.mem_univ _, ?_⟩
    rw [used]
    rfl
  calc ids.length = ids.toFinset.card := (toFinset_card_of_nodup nodup).symm
    _ ≤ (Finset.univ.image (fun slot => (table slot).getD 0)).card := Finset.card_le_card inside
    _ ≤ (Finset.univ : Finset (Slot buckets)).card := Finset.card_image_le
    _ = buckets * ADDRMAN_BUCKET_SIZE := by rw [Finset.card_univ, Fintype.card_prod,
      Fintype.card_fin, Fintype.card_fin]

theorem Checked.fileNew_le (checked : Checked H m) :
    (fileNew m).length ≤ ADDRMAN_NEW_BUCKET_COUNT * ADDRMAN_BUCKET_SIZE := by
  rw [← length_map]
  apply length_le_of_named (nodupKeys_fileNew m)
  intro _ mem
  obtain ⟨_, inFile, rfl⟩ := mem_map.mp mem
  obtain ⟨held, refs⟩ := mem_fileNew.mp inFile
  by_contra unnamed
  rw [not_exists] at unnamed
  have counted := checked.refs _ _ held
  rw [slotCount_eq_zero.mpr unnamed] at counted
  exact refs counted

theorem Checked.fileTried_le (checked : Checked H m) :
    (fileTried m).length ≤ ADDRMAN_TRIED_BUCKET_COUNT * ADDRMAN_BUCKET_SIZE := by
  rw [← length_map]
  apply length_le_of_named (nodupKeys_fileTried m)
  intro _ mem
  obtain ⟨entry, inFile, rfl⟩ := mem_map.mp mem
  obtain ⟨held, inTried⟩ := mem_fileTried.mp inFile
  exact ⟨_, (checked.tried _ _).mpr ⟨entry.2, held, inTried, rfl⟩⟩

/-! The dump -/

/-- The slots as the file tells them, with the ids of the file. -/
def fileTable (m : CAddrMan) (mapUnkIds : AList (fun _ : Nat => Nat))
    (slot : Slot ADDRMAN_NEW_BUCKET_COUNT) : Option Nat :=
  (m.vvNew slot).map (fun nId => (mapUnkIds.lookup nId).getD 0)

/-- The buckets, each with its indexes. -/
def fileBuckets (m : CAddrMan) (mapUnkIds : AList (fun _ : Nat => Nat)) : List (List Int32) :=
  (finRange ADDRMAN_NEW_BUCKET_COUNT).map (fun bucket =>
    ((finRange ADDRMAN_BUCKET_SIZE).filterMap (fun i => fileTable m mapUnkIds (bucket, i))).map
      .ofNat)

def fileDump (m : CAddrMan) (mapUnkIds : AList (fun _ : Nat => Nat)) : Dump where
  nVersion := 1
  nKeySize := 32
  nKey := m.nKey
  nNew := .ofInt m.nNew
  nTried := .ofInt m.nTried
  nUBuckets := .ofNat ADDRMAN_NEW_BUCKET_COUNT
  news := (fileNew m).map (·.2.persistent)
  trieds := (fileTried m).map (·.2.persistent)
  buckets := fileBuckets m mapUnkIds

section

variable (checked : Checked H m)
include checked

theorem Checked.dump_eq : ∃ mapUnkIds, m.dump = .ok (fileDump m mapUnkIds) ∧
      ∀ i entry, (fileNew m)[i]? = some entry → mapUnkIds.lookup entry.1 = some i := by
  have countNew := checked.length_fileNew
  have countTried := checked.length_fileTried
  unfold fileNew at countNew
  unfold fileTried at countTried
  have fitsNew : ((0 : Nat) : Int) + (newEntries (inOrder m.mapInfo.entries)).length ≤ m.nNew := by
    omega
  have fitsTried :
      ((0 : Nat) : Int) + (triedEntries (inOrder m.mapInfo.entries)).length ≤ m.nTried := by omega
  obtain ⟨mapUnkIds, ran, indexes, -⟩ := dumpNew_eq _ 0 ∅ fitsNew (nodupKeys_inOrder m.mapInfo)
  refine ⟨mapUnkIds, ?_, ?_⟩
  · unfold dump
    rw [ran, dumpTried_eq _ 0 fitsTried]
    have buckets : (finRange _).map (m.dumpBucket mapUnkIds) = fileBuckets m mapUnkIds := by
      congr 1
      funext bucket
      unfold dumpBucket fileTable
      rw [← map_filterMap, map_map]
      rfl
    change Except.ok _ = _
    rw [buckets]
    rfl
  · intro i entry here
    have hit := indexes i entry here
    rwa [Nat.zero_add] at hit

theorem Checked.toInt_nNew : (Int32.ofInt m.nNew).toInt = (fileNew m).length := by
  have limit : ADDRMAN_NEW_BUCKET_COUNT * ADDRMAN_BUCKET_SIZE < 2 ^ 31 := by decide
  have few := checked.fileNew_le
  rw [← checked.length_fileNew]
  exact Int32.toInt_ofInt_of_le (by omega) (by omega)

theorem Checked.toInt_nTried : (Int32.ofInt m.nTried).toInt = (fileTried m).length := by
  have limit : ADDRMAN_TRIED_BUCKET_COUNT * ADDRMAN_BUCKET_SIZE < 2 ^ 31 := by decide
  have few := checked.fileTried_le
  rw [← checked.length_fileTried]
  exact Int32.toInt_ofInt_of_le (by omega) (by omega)

theorem Checked.fileDump_wellFormed (mapUnkIds : AList (fun _ : Nat => Nat)) :
    Dump.WellFormed (fileDump m mapUnkIds) := by
  have intNew := checked.toInt_nNew
  have intTried := checked.toInt_nTried
  have fewNew := Int.ofNat_le.mpr checked.fileNew_le
  have fewTried := Int.ofNat_le.mpr checked.fileTried_le
  refine ⟨rfl, ?_, ?_, ?_, ?_, ?_, ?_⟩
  · change (Int32.ofInt m.nNew).toInt.toNat = _
    rw [intNew, Int.toNat_natCast]
    exact (length_map _).symm
  · change (Int32.ofInt m.nTried).toInt.toNat = _
    rw [intTried, Int.toNat_natCast]
    exact (length_map _).symm
  · simp only [fileDump, fileBuckets, length_map, length_finRange]
    decide
  · exact intNew ▸ fewNew
  · exact intTried ▸ fewTried
  · intro _ mem
    simp only [fileDump, fileBuckets, mem_map] at mem
    obtain ⟨n, -, rfl⟩ := mem
    rw [length_map]
    calc _ ≤ (finRange ADDRMAN_BUCKET_SIZE).length := length_filterMap_le _ _
      _ = ADDRMAN_BUCKET_SIZE := length_finRange
      _ < 2 ^ 31 := by decide

end

/-! The manager that is built -/

/-- The manager before the new table is filled: what `d` held shows in the references of the new
entries, in whether they are tried, in entries beyond those of the file and in the index by
address. -/
structure Based (H : AddrHash) (m d b : CAddrMan) : Prop where
  nKey : b.nKey = m.nKey
  nNew : b.nNew = m.nNew
  nTried : b.nTried = m.nTried
  vRandom : b.vRandom = range ((fileNew m).length + (fileTried m).length)
  mapAddr : b.mapAddr = (fileNew m ++ fileTried m).zipIdx.foldl
    (fun map placed => map.insert placed.1.2.toCNetAddr placed.2) d.mapAddr
  news : ∀ i entry, (fileNew m)[i]? = some entry → b.mapInfo.lookup i =
    some { entry.2.persistent.into (d.infoOrDefault i) with nRandomPos := some i }
  trieds : ∀ i entry, (fileTried m)[i]? = some entry → b.mapInfo.lookup ((fileNew m).length + i) =
    some { entry.2.persistent.into defaultInfo with
      nRandomPos := some ((fileNew m).length + i), fInTried := true }
  others : ∀ j, (fileNew m).length + (fileTried m).length ≤ j →
    b.mapInfo.lookup j = d.mapInfo.lookup j
  vvNew : b.vvNew = fun _ => none
  vvTried : ∀ slot j, b.vvTried slot = some j ↔ ∃ i entry, (fileTried m)[i]? = some entry ∧
    triedSlot H m.nKey entry.2.toCService = slot ∧ j = (fileNew m).length + i

/-- The slots of the tried entries differ. -/
theorem Checked.triedSlots_nodup (checked : Checked H m) :
    ((fileTried m).map (fun entry => triedSlot H m.nKey entry.2.toCService)).Nodup := by
  have apart : ∀ a ∈ fileTried m, ∀ b ∈ fileTried m,
      triedSlot H m.nKey a.2.toCService = triedSlot H m.nKey b.2.toCService → a = b := by
    rintro ⟨nId, a⟩ inFile ⟨nId', b⟩ inFile' _
    obtain ⟨held, inTried⟩ := mem_fileTried.mp inFile
    obtain ⟨held', inTried'⟩ := mem_fileTried.mp inFile'
    have first := (checked.tried _ nId).mpr ⟨a, held, inTried, rfl⟩
    have second := (checked.tried _ nId').mpr ⟨b, held', inTried', rfl⟩
    grind
  exact List.Nodup.map_on apart ((nodupKeys_fileTried m).nodup)

theorem restoreBuckets_fileBuckets (m : CAddrMan) (mapUnkIds : AList (fun _ : Nat => Nat))
    (b : CAddrMan) :
    restoreBuckets H true 0 (fileBuckets m mapUnkIds) b =
      (allSlots _).foldl (restoreSlot H (fileTable m mapUnkIds)) b := by
  unfold fileBuckets
  rw [restoreBuckets_eq]

theorem Checked.built_eq (checked : Checked H m) (d : CAddrMan) (nKey : Uint256)
    (mapUnkIds : AList (fun _ : Nat => Nat)) :
    ∃ b, Based H m d b ∧ (d.clear nKey).built H (fileDump m mapUnkIds) =
      (allSlots _).foldl (restoreSlot H (fileTable m mapUnkIds)) b := by
  let m0 : CAddrMan := { d.clear nKey with
    nKey := m.nKey
    nNew := (Int32.ofInt m.nNew).toInt
    nTried := (Int32.ofInt m.nTried).toInt }
  let m1 : CAddrMan := { restoreNews H true 0 ((fileNew m).map (·.2.persistent)) m0 with
    nIdCount := ((fileNew m).map (·.2.persistent)).length }
  have news := restoreNews_placed (H := H) 0 ((fileNew m).map (·.2.persistent)) m0
  have key1 : m1.nKey = m.nKey := news.nKey
  have slots : ((fileTried m).map (·.2.persistent)).map
      (fun data => triedSlot H m1.nKey data.toCService) =
      (fileTried m).map (fun entry => triedSlot H m.nKey entry.2.toCService) := by
    rw [key1, map_map]
    rfl
  have empty1 : m1.vvTried = fun _ => none := news.vvTried
  obtain ⟨m3, ran, trieds⟩ := restoreTrieds_placed ((fileTried m).map (·.2.persistent)) m1 0
    (by rw [slots]; exact checked.triedSlots_nodup) (by intro data _; rw [empty1])
  have built : (d.clear nKey).built H (fileDump m mapUnkIds) = restoreBuckets H true 0
      (fileDump m mapUnkIds).buckets { m3 with nTried := m3.nTried - (0 : Nat) } := by
    unfold CAddrMan.built
    have usable : ((fileDump m mapUnkIds).nVersion == 1 &&
      (fileDump m mapUnkIds).nUBuckets == .ofNat ADDRMAN_NEW_BUCKET_COUNT) =
        true := by simp [fileDump]
    rw [usable]
    change restoreBuckets H true 0 _
      { (restoreTrieds H ((fileTried m).map (·.2.persistent)) m1 0).1 with
      nTried := (restoreTrieds H ((fileTried m).map (·.2.persistent)) m1 0).1.nTried -
        (restoreTrieds H ((fileTried m).map (·.2.persistent)) m1 0).2 } = _
    rw [ran]
  refine ⟨{ m3 with nTried := m3.nTried - (0 : Nat) }, ?_, ?_⟩
  · have length : ((fileNew m).map (·.2.persistent)).length = (fileNew m).length := length_map _
    have length' : ((fileTried m).map (·.2.persistent)).length = (fileTried m).length :=
      length_map _
    have count1 : m1.nIdCount = (fileNew m).length := length
    refine ⟨trieds.nKey.trans key1, ?_, ?_, ?_, ?_, ?_, ?_, ?_, trieds.vvNew.trans news.vvNew, ?_⟩
    · rw [← checked.length_fileNew, ← checked.toInt_nNew]
      exact trieds.nNew.trans news.nNew
    · rw [← checked.length_fileTried, ← checked.toInt_nTried]
      rw [trieds.nTried, show m1.nTried = m0.nTried from news.nTried]
      exact Int.sub_zero _
    · change m3.vRandom = _
      rw [trieds.vRandom, show m1.vRandom = _ from news.vRandom, count1, length, length',
        range_eq_range', ← range'_append_1, Nat.zero_add]
      exact congrArg (· ++ _) (nil_append _)
    · change m3.mapAddr = _
      rw [trieds.mapAddr, show m1.mapAddr = _ from news.mapAddr, count1, zipIdx_append,
        foldl_append, zipIdx_map, foldl_map, zipIdx_map, foldl_map, Nat.zero_add]
      rfl
    · intro i entry here
      have inside : i < (fileNew m).length := (List.getElem?_eq_some_iff.mp here).1
      have held := news.stored i entry.2.persistent (by rw [List.getElem?_map, here]; rfl)
      rw [Nat.zero_add] at held
      rw [trieds.others i (.inl (by rw [count1]; exact inside))]
      refine held.trans ?_
      rw [show m0.vRandom.length + i = i from Nat.zero_add i]
      rfl
    · intro i entry here
      have held := trieds.stored i entry.2.persistent (by rw [getElem?_map, here]; rfl)
      have random1 : m1.vRandom.length = (fileNew m).length := by
        rw [show m1.vRandom = _ from news.vRandom, length_append, length_range', length]
        exact Nat.zero_add _
      rw [count1, random1] at held
      exact held
    · intro j beyond
      rw [trieds.others j (.inr (by rw [count1, length']; exact beyond))]
      exact news.others j (.inr (by rw [length]; omega))
    · intro slot j
      rw [trieds.vvTried slot j, empty1, key1, count1]
      constructor
      · rintro (used | ⟨i, _, here, place, rfl⟩)
        · cases used
        · rw [getElem?_map] at here
          obtain ⟨entry, there, rfl⟩ := Option.map_eq_some_iff.mp here
          exact ⟨i, entry, there, place, rfl⟩
      · rintro ⟨i, entry, there, place, rfl⟩
        exact .inr ⟨i, entry.2.persistent, by rw [getElem?_map, there]; rfl, place, rfl⟩
  · rw [built, ← restoreBuckets_fileBuckets, fileDump]

end Zcashd.Abstract.AddrTables

import Zcashd.Abstract.AddrOperations
import Zcashd.Abstract.AddrRenumbered

/-!
# The manager that is read

`Restores` says that a manager holds what another one wrote. Whether `Unserialize` gives such a
manager depends on what was in the manager before, since `Clear` leaves the entries and the index
by address: `Overwritten` is the condition on it.
-/
namespace Zcashd.Abstract.AddrTables

open Lib Source Source.AddrMan CAddrMan List

variable {H : AddrHash} {m d b r r' : CAddrMan} {nId : Nat} {info : CAddrInfo}

/-! The last loop -/

variable {i : Nat}

theorem swapRandom_reordered {j : Nat} (ran : m.swapRandom i j = .ok r) : Reordered m r := by
  unfold swapRandom at ran
  split at ran
  · cases ran
    exact ⟨rfl, fun _ => rfl, rfl, rfl⟩
  · split at ran
    · obtain ⟨_, found1, ran⟩ := except_bind_ok.mp ran
      obtain ⟨_, found2, ran⟩ := except_bind_ok.mp ran
      cases ran
      have held1 := lookup_of_infoOf found1
      have held2 := lookup_of_infoOf found2
      refine ⟨rfl, fun o => ?_, rfl, rfl⟩
      exact (entry_move held2 (some i) o).trans (entry_move held1 (some j) o)
    · cases ran

theorem delete_dropped (ran : m.delete nId = .ok r) : Dropped nId m r := by
  obtain ⟨_, -, ran⟩ := except_bind_ok.mp ran
  obtain ⟨-, -, ran⟩ := except_bind_ok.mp ran
  obtain ⟨-, -, ran⟩ := except_bind_ok.mp ran
  split at ran
  · cases ran
  · obtain ⟨_, swapped, ran⟩ := except_bind_ok.mp ran
    cases ran
    have reordered := swapRandom_reordered swapped
    exact ⟨reordered.key, entry_gone rfl,
      fun other ne => (entry_kept rfl ne).trans (reordered.entries other),
      reordered.vvNew, reordered.vvTried⟩

variable {ids : List Nat}

/-- Entries that are tried or have references stay. -/
theorem prune_keeps (ran : prune ids m = .ok r) :
    r.vvNew = m.vvNew ∧ r.vvTried = m.vvTried ∧ ∀ nId info, entry m nId = some info →
      (info.fInTried = true ∨ info.nRefCount ≠ 0) → entry r nId = some info := by
  induction ids generalizing m with
  | nil =>
    cases ran
    exact ⟨rfl, rfl, fun nId info hit _ => hit⟩
  | cons head _ ih =>
    unfold prune at ran
    split at ran
    · exact ih ran
    · rename_i _ held
      split at ran
      · obtain ⟨_, deleted, ran⟩ := except_bind_ok.mp ran
        have dropped := delete_dropped deleted
        obtain ⟨vvNew, vvTried, kept⟩ := ih ran
        refine ⟨vvNew.trans dropped.vvNew, vvTried.trans dropped.vvTried, ?_⟩
        intro nId info hit tight
        have ne : nId ≠ head := by
          rintro rfl
          cases (entry_of_lookup held).symm.trans hit
          grind
        exact kept nId info ((dropped.entries nId ne).trans hit) tight
      · exact ih ran

/-- Nothing is pruned if every entry is tried or has references. -/
theorem prune_none
    (tight : ∀ nId info, m.mapInfo.lookup nId = some info → info.fInTried = true ∨
      info.nRefCount ≠ 0) (ids : List Nat) :
    prune ids m = .ok m := by
  induction ids with
  | nil => rfl
  | cons head _ ih =>
    unfold prune
    cases held : m.mapInfo.lookup head with
    | none => exact ih
    | some _ =>
      grind

/-! The entries of the file -/

/-- All entries in the order of the file. -/
def file (m : CAddrMan) : List (Σ _ : Nat, CAddrInfo) := fileNew m ++ fileTried m

/-- The id an entry has when the file is read. -/
def number (m : CAddrMan) (nId : Nat) : Nat := ((file m).map (·.1)).idxOf nId

variable {entry : Σ _ : Nat, CAddrInfo}

section

variable (checked : Checked H m)
include checked

theorem Checked.mem_file : entry ∈ file m ↔ m.mapInfo.lookup entry.1 = some entry.2 := by
  unfold file
  rw [mem_append, mem_fileNew, mem_fileTried]
  grind [checked.inTried_iff]

theorem Checked.nodupKeys_file : (file m).NodupKeys := by
  unfold List.NodupKeys file
  rw [keys_append]
  refine nodup_append.mpr ⟨nodupKeys_fileNew m, nodupKeys_fileTried m, ?_⟩
  intro a inNew b inTried _
  obtain ⟨_, mem, rfl⟩ := mem_map.mp inNew
  obtain ⟨_, mem', rfl⟩ := mem_map.mp inTried
  obtain ⟨_, _⟩ := mem_fileNew.mp mem
  obtain ⟨_, _⟩ := mem_fileTried.mp mem'
  grind [checked.inTried_iff]

theorem Checked.number_eq (here : (file m)[i]? = some entry) : number m entry.1 = i := by
  have nodup : ((file m).map (·.1)).Nodup := checked.nodupKeys_file
  have there : ((file m).map (·.1))[i]? = some entry.1 := by simp [here]
  obtain ⟨inside, same⟩ := List.getElem?_eq_some_iff.mp there
  rw [← same]
  exact nodup.idxOf_getElem i inside

theorem Checked.exists_number (held : m.mapInfo.lookup nId = some info) :
    (file m)[number m nId]? = some ⟨nId, info⟩ := by
  obtain ⟨i, here⟩ := mem_iff_getElem?.mp
    (checked.mem_file.mpr held : (⟨nId, info⟩ : Σ _ : Nat, CAddrInfo) ∈ file m)
  rw [checked.number_eq here]
  exact here

/-- No two entries have the same address. -/
theorem Checked.addr_injective {nId' : Nat} {info' : CAddrInfo}
    (held : m.mapInfo.lookup nId = some info) (held' : m.mapInfo.lookup nId' = some info')
    (same : info.toCNetAddr = info'.toCNetAddr) : nId = nId' := by
  grind [(checked.entries nId info held).addr, (checked.entries nId' info' held').addr]

end

/-! What comes back -/

/-- The data that is written, and whether the entry is tried. -/
structure SameData (info info' : CAddrInfo) : Prop where
  data : info'.persistent = info.persistent
  tried : info'.fInTried = info.fInTried

/-- The second manager holds the entries of the first one under new ids, in the same new slots. -/
structure Renumbered (f : Nat → Nat) (m r : CAddrMan) : Prop where
  entries : ∀ nId info, m.mapInfo.lookup nId = some info →
    ∃ info', r.mapInfo.lookup (f nId) = some info' ∧ SameData info info'
  injective : ∀ nId info nId' info', m.mapInfo.lookup nId = some info →
    m.mapInfo.lookup nId' = some info' → f nId = f nId' → nId = nId'
  noOthers : ∀ nId' info', r.mapInfo.lookup nId' = some info' →
    ∃ nId info, m.mapInfo.lookup nId = some info ∧ f nId = nId'
  slots : ∀ slot, r.vvNew slot = (m.vvNew slot).map f

/-- The second manager is consistent and has exactly the addresses of the first one, with their
data. -/
structure Restores (H : AddrHash) (m r : CAddrMan) : Prop where
  check : r.check H = 0
  renumbered : ∃ f, Renumbered f m r
  addresses : ∀ addr nId', r.mapAddr.lookup addr = some nId' ↔
    ∃ info', r.mapInfo.lookup nId' = some info' ∧ info'.toCNetAddr = addr

/-- All ids in use are those of tried entries of the file, and all addresses are in the file. -/
structure Overwritten (m d : CAddrMan) : Prop where
  ids : ∀ nId info, d.mapInfo.lookup nId = some info → m.nNew ≤ nId ∧ nId < m.nNew + m.nTried
  addresses : ∀ addr nId, d.mapAddr.lookup addr = some nId →
    ∃ nId' info, m.mapInfo.lookup nId' = some info ∧ info.toCNetAddr = addr

/-- The manager after the new table is filled, as far as it does not depend on what `d` held. -/
structure Read (H : AddrHash) (m d r : CAddrMan) : Prop where
  nKey : r.nKey = m.nKey
  nNew : r.nNew = m.nNew
  nTried : r.nTried = m.nTried
  vRandom : r.vRandom = List.range ((fileNew m).length + (fileTried m).length)
  mapAddr : r.mapAddr =
    (file m).zipIdx.foldl (fun map placed => map.insert placed.1.2.toCNetAddr placed.2) d.mapAddr
  news : ∀ i entry, (fileNew m)[i]? = some entry → r.mapInfo.lookup i =
    some { entry.2.persistent.into (d.infoOrDefault i) with
      nRandomPos := some i, nRefCount := (d.infoOrDefault i).nRefCount + slotCount r.vvNew i }
  trieds : ∀ i entry, (fileTried m)[i]? = some entry → r.mapInfo.lookup ((fileNew m).length + i) =
    some { entry.2.persistent.into defaultInfo with
      nRandomPos := some ((fileNew m).length + i), fInTried := true }
  others : ∀ j, (fileNew m).length + (fileTried m).length ≤ j →
    r.mapInfo.lookup j = d.mapInfo.lookup j
  named : ∀ slot i, r.vvNew slot = some i → i < (fileNew m).length
  vvTried : ∀ slot j, r.vvTried slot = some j ↔ ∃ i entry, (fileTried m)[i]? = some entry ∧
    triedSlot H m.nKey entry.2.toCService = slot ∧ j = (fileNew m).length + i

theorem Based.known (based : Based H m d b) (checked : Checked H m) (i : Nat)
    (isNew : (i : Int) < b.nNew) :
    ∃ info, b.mapInfo.lookup i = some info := by
  have inside : i < (fileNew m).length := by
    rw [based.nNew, ← checked.length_fileNew] at isNew
    omega
  exact ⟨_, based.news i _ (getElem?_eq_getElem inside)⟩

theorem Based.read (based : Based H m d b) (checked : Checked H m) (filled : Filled b r) :
    Read H m d r := by
  have named : ∀ slot i, r.vvNew slot = some i → i < (fileNew m).length := by
    intro slot i used
    have below := filled.named slot i used
    rw [based.nNew, ← checked.length_fileNew] at below
    omega
  have unnamed : ∀ j, (fileNew m).length ≤ j → slotCount r.vvNew j = 0 := by
    intro j _
    grind [slotCount_eq_zero]
  refine ⟨filled.nKey.trans based.nKey, filled.nNew.trans based.nNew,
    filled.nTried.trans based.nTried,
    filled.vRandom.trans based.vRandom, filled.mapAddr.trans based.mapAddr, ?_, ?_, ?_, named, ?_⟩
  · intro i entry here
    exact filled.lookup (based.news i entry here)
  · intro i entry here
    rw [filled.lookup (based.trieds i entry here), unnamed _ (Nat.le_add_right _ _)]
    rfl
  · intro j beyond
    simp [filled.entries, based.others j beyond, unnamed j (by omega)]
  · rw [filled.vvTried]
    exact based.vvTried

/-! Entries that were there before -/

/-- An entry of `d` that is not overwritten stays and is found wrong. -/
theorem Read.not_restores (read : Read H m d r) (checked : Checked H m) (old : Checked H d)
    (held : d.mapInfo.lookup nId = some info) (left : ¬ (m.nNew ≤ nId ∧ nId < m.nNew + m.nTried))
    (ran : prune ids r = .ok r') :
    ¬ Checked H r' := by
  intro after
  obtain ⟨vvNew, vvTried, kept⟩ := prune_keeps ran
  have tight : info.fInTried = true ∨ 0 < info.nRefCount := by
    cases inTried : info.fInTried with
    | true => exact .inl rfl
    | false => exact .inr ((old.entries nId info held).new inTried).1
  -- the entry has what it had, and a reference more for each slot
  obtain ⟨infoRead, hit, wasTried, refs⟩ : ∃ infoRead, r.mapInfo.lookup nId = some infoRead ∧
      infoRead.fInTried = info.fInTried ∧
        infoRead.nRefCount = info.nRefCount + slotCount r.vvNew nId := by
    by_cases isNew : nId < (fileNew m).length
    · refine ⟨_, read.news nId _ (getElem?_eq_getElem isNew), ?_, ?_⟩
      · exact congrArg (·.fInTried) (infoOrDefault_eq held)
      · exact congrArg (·.nRefCount + (slotCount r.vvNew nId : Int)) (infoOrDefault_eq held)
    · have beyond : (fileNew m).length + (fileTried m).length ≤ nId := by
        have countNew := checked.length_fileNew
        have countTried := checked.length_fileTried
        omega
      refine ⟨info, (read.others nId beyond).trans held, rfl, ?_⟩
      rw [slotCount_eq_zero.mpr fun slot used => isNew (read.named slot nId used)]
      exact (Int.add_zero _).symm
  have pos : infoRead.fInTried = true ∨ infoRead.nRefCount ≠ 0 := by
    grind
  obtain ⟨info', held', same⟩ := lookup_of_entry (kept nId _ (entry_of_lookup hit) pos)
  have tried' : info'.fInTried = info.fInTried := (congrArg (·.fInTried) same).trans wasTried
  have refs' : info'.nRefCount = info.nRefCount + slotCount r.vvNew nId :=
    (congrArg (·.nRefCount) same).trans refs
  have counted := after.refs nId info' held'
  rw [vvNew] at counted
  rcases tight with inTried | _
  · -- it would be in the tried table
    have used := (after.tried _ nId).mpr ⟨info', held', tried'.trans inTried, rfl⟩
    rw [vvTried] at used
    obtain ⟨i, _, here, -, _⟩ := (read.vvTried _ nId).mp used
    have inside : i < (fileTried m).length := (List.getElem?_eq_some_iff.mp here).1
    have countNew := checked.length_fileNew
    have countTried := checked.length_fileTried
    apply left
    omega
  · omega

/-! A manager that was overwritten -/

section

variable (checked : Checked H m) (read : Read H m d r)
  (free : ∀ nId info, d.mapInfo.lookup nId = some info → m.nNew ≤ nId ∧ nId < m.nNew + m.nTried)

include checked free in
theorem infoOrDefault_of_new (isNew : i < (fileNew m).length) :
    d.infoOrDefault i = defaultInfo := by
  have countNew := checked.length_fileNew
  have absent : d.mapInfo.lookup i = none := by
    cases held : d.mapInfo.lookup i with
    | none => rfl
    | some info =>
      have bounds := free i info held
      omega
  rw [infoOrDefault, absent]
  rfl

include checked read free in
theorem lookup_beyond {j : Nat} (beyond : (file m).length ≤ j) : r.mapInfo.lookup j = none := by
  have countNew := checked.length_fileNew
  have countTried := checked.length_fileTried
  unfold file at beyond
  rw [length_append] at beyond
  rw [read.others j beyond]
  cases held : d.mapInfo.lookup j with
  | none => rfl
  | some info =>
    have bounds := free j info held
    omega

/-- The slots that name an entry, under its number. -/
theorem slotCount_number (checked : Checked H m)
    {vvNew : Slot ADDRMAN_NEW_BUCKET_COUNT → Option Nat}
    (table : ∀ slot, vvNew slot = (m.vvNew slot).map (number m))
    (held : m.mapInfo.lookup nId = some info) :
    slotCount vvNew (number m nId) = slotCount m.vvNew nId := by
  apply tally_congr
  intro slot
  have same : vvNew slot = some (number m nId) ↔ m.vvNew slot = some nId := by
    rw [table]
    constructor
    · intro used
      obtain ⟨nId', used', numbers⟩ := Option.map_eq_some_iff.mp used
      obtain ⟨_, held', -⟩ := checked.new slot nId' used'
      have first := checked.exists_number held'
      rw [numbers, checked.exists_number held] at first
      cases first
      exact used'
    · intro used
      rw [used]
      rfl
  simp [same]

variable (table : ∀ slot, r.vvNew slot = (m.vvNew slot).map (number m))

include checked read free table in
/-- Every entry of the file is there, under its number. -/
theorem lookup_number (here : (file m)[i]? = some entry) :
    ∃ info, r.mapInfo.lookup i = some info ∧ SameData entry.2 info ∧
      info.nRefCount = entry.2.nRefCount ∧ info.nRandomPos = some i ∧ info.nLastTry = 0 := by
  have held := checked.mem_file.mp (mem_of_getElem? here)
  have number_i := checked.number_eq here
  unfold file at here
  rw [getElem?_append] at here
  split at here
  · rename_i isNew
    obtain ⟨-, refs⟩ := mem_fileNew.mp (mem_of_getElem? here)
    have inNew : entry.2.fInTried = false := by grind [checked.inTried_iff]
    have hit := read.news i entry here
    rw [infoOrDefault_of_new checked free isNew] at hit
    refine ⟨_, hit, ⟨rfl, inNew.symm⟩, ?_, rfl, rfl⟩
    have counted := slotCount_number checked table held
    rw [number_i] at counted
    rw [counted, checked.refs _ _ held]
    exact Int.zero_add _
  · obtain ⟨-, inTried⟩ := mem_fileTried.mp (mem_of_getElem? here)
    have hit := read.trieds _ entry here
    rw [show (fileNew m).length + (i - (fileNew m).length) = i by omega] at hit
    exact ⟨_, hit, ⟨rfl, inTried.symm⟩, ((checked.inTried_iff held).mp inTried).symm, rfl, rfl⟩

include checked read free table in
theorem lookup_iff (hit : r.mapInfo.lookup i = some info) :
    ∃ entry, (file m)[i]? = some entry ∧ SameData entry.2 info ∧
      info.nRefCount = entry.2.nRefCount ∧ info.nRandomPos = some i ∧ info.nLastTry = 0 := by
  by_cases inside : i < (file m).length
  · have here := getElem?_eq_getElem inside
    obtain ⟨_, hit', rest⟩ := lookup_number checked read free table here
    cases hit.symm.trans hit'
    exact ⟨_, here, rest⟩
  · rw [lookup_beyond checked read free (Nat.le_of_not_lt inside)] at hit
    cases hit

include checked in
/-- The index by address after the loops. -/
theorem lookup_mapAddr (read : Read H m d r) (here : (file m)[i]? = some entry) :
    r.mapAddr.lookup entry.2.toCNetAddr = some i := by
  have mem : entry.2.toCNetAddr ∈ (file m).zipIdx.map (fun placed => placed.1.2.toCNetAddr) :=
    mem_map.mpr ⟨(entry, i), mem_zipIdx_iff_getElem?.mpr here, rfl⟩
  obtain ⟨⟨_, j⟩, there, same, out⟩ :
      ∃ placed ∈ (file m).zipIdx, placed.1.2.toCNetAddr = entry.2.toCNetAddr ∧
      ((file m).zipIdx.foldl (fun map placed => map.insert placed.1.2.toCNetAddr placed.2)
        d.mapAddr).lookup
        entry.2.toCNetAddr = some placed.2 := lookup_foldl_insert_of_mem mem d.mapAddr
  have here' := mem_zipIdx_iff_getElem?.mp there
  have ids := checked.addr_injective (checked.mem_file.mp (mem_of_getElem? here'))
    (checked.mem_file.mp (mem_of_getElem? here)) same
  rw [read.mapAddr, out, ← checked.number_eq here, ← ids]
  exact congrArg some (checked.number_eq here').symm

/-- An address that is not in the file keeps what it had. -/
theorem lookup_mapAddr_of_notMem (read : Read H m d r) {addr : CNetAddr}
    (outside : ∀ entry ∈ file m, entry.2.toCNetAddr ≠ addr) :
    r.mapAddr.lookup addr = d.mapAddr.lookup addr := by
  rw [read.mapAddr]
  apply lookup_foldl_insert_of_notMem
  intro mem
  obtain ⟨⟨entry, i⟩, there, same⟩ := mem_map.mp mem
  exact outside entry (mem_of_getElem? (mem_zipIdx_iff_getElem?.mp there)) same

include checked read free table in
theorem weightSum_read {weight : CAddrInfo → Nat}
    (depends : ∀ info info' : CAddrInfo, info.fInTried = info'.fInTried →
      weight info = weight info') :
    weightSum weight r.mapInfo = weightSum weight m.mapInfo := by
  have own : (file m).Perm m.mapInfo.entries := by
    rw [perm_ext_iff_of_nodup checked.nodupKeys_file.nodup m.mapInfo.nodupKeys.nodup]
    intro _
    rw [checked.mem_file]
    exact mem_dlookup_iff m.mapInfo.nodupKeys
  have other :
      ((file m).zipIdx.map
      (fun placed => (⟨placed.2, r.infoOrDefault placed.2⟩ : Σ _ : Nat, CAddrInfo))).Perm
      r.mapInfo.entries := by
    rw [perm_ext_iff_of_nodup _ r.mapInfo.nodupKeys.nodup]
    · rintro ⟨i, info⟩
      rw [mem_map]
      constructor
      · rintro ⟨⟨_, _⟩, there, same⟩
        obtain ⟨_, hit, -⟩ :=
          lookup_number checked read free table (mem_zipIdx_iff_getElem?.mp there)
        rw [infoOrDefault_eq hit] at same
        rw [← same]
        exact (mem_dlookup_iff r.mapInfo.nodupKeys).mp hit
      · intro mem
        have hit : r.mapInfo.lookup i = some info := mem_dlookup r.mapInfo.nodupKeys mem
        obtain ⟨entry, here, -⟩ := lookup_iff checked read free table hit
        refine ⟨(entry, i), mem_zipIdx_iff_getElem?.mpr here, ?_⟩
        rw [infoOrDefault_eq hit]
    · apply List.Nodup.of_map Sigma.fst
      rw [map_map, show Sigma.fst ∘ (fun placed : (Σ _ : Nat, CAddrInfo) × Nat =>
        (⟨placed.2, r.infoOrDefault placed.2⟩ : Σ _ : Nat, CAddrInfo)) = Prod.snd from rfl,
          zipIdx_map_snd]
      exact nodup_range'
  have each : ∀ placed ∈ (file m).zipIdx, weight (r.infoOrDefault placed.2) =
      weight placed.1.2 := by
    rintro ⟨_, i⟩ there
    obtain ⟨_, hit, same, -⟩ :=
      lookup_number checked read free table (mem_zipIdx_iff_getElem?.mp there)
    rw [infoOrDefault_eq hit]
    exact depends _ _ same.tried
  have pairs : (file m).map (fun entry => weight entry.2) =
      (file m).zipIdx.map (fun placed => weight placed.1.2) := by
    conv_lhs => rw [← zipIdx_map_fst 0 (file m)]
    rw [map_map]
    rfl
  unfold weightSum
  rw [← (other.map _).sum_eq, ← (own.map _).sum_eq, map_map, pairs]
  exact congrArg sum (map_congr_left each)

include checked read free table in
/-- `Check_` would find nothing wrong. -/
theorem checked_of_read : Checked H r where
  size := by
    rw [read.vRandom, length_range, read.nTried,
      read.nNew, ← checked.length_fileNew, ← checked.length_fileTried]
    omega
  entries i info hit := by
    obtain ⟨entry, here, same, refs, pos, lastTry⟩ := lookup_iff checked read free table hit
    have held := checked.mem_file.mp (mem_of_getElem? here)
    have own := checked.entries entry.1 entry.2 held
    have ran : info.nLastSuccess = entry.2.nLastSuccess := congrArg (·.nLastSuccess) same.data
    have addr : info.toCNetAddr = entry.2.toCNetAddr := congrArg (·.toCNetAddr) same.data
    have inside : i < (fileNew m).length + (fileTried m).length := by
      rw [← List.length_append]
      exact (List.getElem?_eq_some_iff.mp here).1
    refine ⟨?_, ?_, ?_, ?_, ?_, ?_⟩
    · intro inTried
      rw [ran, refs]
      exact own.tried (same.tried ▸ inTried)
    · intro inNew
      rw [refs]
      exact own.new (same.tried ▸ inNew)
    · rw [addr, lookup_mapAddr checked read here]
      rfl
    · rw [pos, read.vRandom]
      exact getElem?_range inside
    · rw [lastTry]
      exact Int64.le_refl 0
    · rw [ran]
      exact own.lastSuccess
  nTried := by
    rw [weightSum_read checked read free table, read.nTried, checked.nTried]
    intro _ _ same
    rw [triedWeight, triedWeight, same]
  nNew := by
    rw [weightSum_read checked read free table, read.nNew, checked.nNew]
    intro _ _ same
    rw [newWeight, newWeight, same]
  tried slot j := by
    rw [read.vvTried, read.nKey]
    constructor
    · rintro ⟨i, entry, here, place, rfl⟩
      refine ⟨_, read.trieds i entry here, rfl, place⟩
    · rintro ⟨_, hit, inTried, place⟩
      obtain ⟨entry, here, same, -⟩ := lookup_iff checked read free table hit
      have service := congrArg (·.toCService) same.data
      have held := checked.mem_file.mp (mem_of_getElem? here)
      have noRefs := (checked.inTried_iff held).mp (same.tried ▸ inTried)
      unfold file at here
      rw [getElem?_append] at here
      split at here
      · exact absurd noRefs (mem_fileNew.mp (mem_of_getElem? here)).2
      · exact ⟨_, entry, here, service ▸ place, by omega⟩
  new slot j used := by
    rw [table slot] at used
    obtain ⟨nId, used', rfl⟩ := Option.map_eq_some_iff.mp used
    obtain ⟨info, held, inNew, place⟩ := checked.new slot nId used'
    obtain ⟨info', hit, same, -⟩ :=
      lookup_number checked read free table (checked.exists_number held)
    have service : info'.toCService = info.toCService := congrArg (·.toCService) same.data
    refine ⟨info', hit, same.tried.trans inNew, ?_⟩
    rw [read.nKey, service]
    exact place
  refs i info hit := by
    obtain ⟨_, here, -, refs, -⟩ := lookup_iff checked read free table hit
    have held := checked.mem_file.mp (mem_of_getElem? here)
    rw [refs, checked.refs _ _ held, ← slotCount_number checked table held, checked.number_eq here]

include checked read free table in
theorem renumbered_of_read : Renumbered (number m) m r where
  entries nId info held := by
    obtain ⟨info', hit, same, -⟩ :=
      lookup_number checked read free table (checked.exists_number held)
    exact ⟨info', hit, same⟩
  injective nId info nId' info' held held' same := by
    grind [checked.exists_number held, checked.exists_number held']
  noOthers j info hit := by
    obtain ⟨entry, here, -⟩ := lookup_iff checked read free table hit
    exact ⟨entry.1, entry.2, checked.mem_file.mp (mem_of_getElem? here), checked.number_eq here⟩
  slots := table

/-! The slots of the file -/

section

variable {mapUnkIds : AList (fun _ : Nat => Nat)}
  (indexes : ∀ i entry, (fileNew m)[i]? = some entry → mapUnkIds.lookup entry.1 = some i)

include checked indexes in
theorem fileTable_eq (slot : Slot ADDRMAN_NEW_BUCKET_COUNT) :
    fileTable m mapUnkIds slot = (m.vvNew slot).map (number m) := by
  unfold fileTable
  cases used : m.vvNew slot with
  | none => rfl
  | some nId =>
    obtain ⟨info, held, inNew, -⟩ := checked.new slot nId used
    have refs : info.nRefCount ≠ 0 := by
      intro none
      rw [(checked.inTried_iff held).mpr none] at inNew
      cases inNew
    obtain ⟨i, here⟩ := mem_iff_getElem?.mp
      (mem_fileNew.mpr ⟨held, refs⟩ : (⟨nId, info⟩ : Σ _ : Nat, CAddrInfo) ∈ fileNew m)
    have inFile : (file m)[i]? = some ⟨nId, info⟩ := by
      unfold file
      rw [List.getElem?_append_left (List.getElem?_eq_some_iff.mp here).1, here]
    have index : mapUnkIds.lookup nId = some i := indexes i _ here
    have number_i : number m nId = i := checked.number_eq inFile
    rw [Option.map_some, Option.map_some, index, number_i]
    rfl

include checked free indexes in
theorem Based.fits (based : Based H m d b) : Fits H (fileTable m mapUnkIds) b := by
  intro slot n wanted
  have table := fileTable_eq checked indexes
  rw [table] at wanted
  obtain ⟨nId, used, rfl⟩ := Option.map_eq_some_iff.mp wanted
  obtain ⟨info, held, inNew, place⟩ := checked.new slot nId used
  have here := checked.exists_number held
  unfold file at here
  rw [getElem?_append] at here
  split at here
  · rename_i isNew
    have few := checked.fileNew_le
    have limit : ADDRMAN_NEW_BUCKET_COUNT * ADDRMAN_BUCKET_SIZE < 2 ^ 31 := by decide
    have hit := based.news _ _ here
    rw [infoOrDefault_of_new checked free isNew] at hit
    refine ⟨by omega, ?_, _, hit, ?_, ?_⟩
    · rw [based.nNew, ← checked.length_fileNew]
      exact Int.ofNat_lt.mpr isNew
    · rw [based.nKey]
      exact place
    · rw [slotCount_number checked table held]
      have counted := checked.refs nId info held
      have bound := ((checked.entries nId info held).new inNew).2
      change (0 : Int) + slotCount m.vvNew nId ≤ _
      omega
  · have tried := (mem_fileTried.mp (mem_of_getElem? here)).2
    rw [show info.fInTried = true from tried] at inNew
    cases inNew

end

end

end Zcashd.Abstract.AddrTables

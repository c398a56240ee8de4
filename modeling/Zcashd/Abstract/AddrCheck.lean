import Zcashd.Lib.OptionLoops
import Zcashd.Abstract.AddrTables

/-!
# What `Check_` accepts

`Check_` goes over the entries and the two tables with two sets that it fills and empties.
`Checked` says what it comes to, field by field.
-/
namespace Zcashd.Abstract.AddrTables

open Lib Source.AddrMan CAddrMan List

variable {H : AddrHash} {m : CAddrMan} {nId : Nat} {info : CAddrInfo}

/-- The checks of one entry. -/
structure EntryChecked (m : CAddrMan) (nId : Nat) (info : CAddrInfo) : Prop where
  tried : info.fInTried = true → info.nLastSuccess ≠ 0 ∧ info.nRefCount = 0
  new : info.fInTried = false → 0 < info.nRefCount ∧
    info.nRefCount ≤ ADDRMAN_NEW_BUCKETS_PER_ADDRESS
  addr : (m.mapAddr.lookup info.toCNetAddr).getD 0 = nId
  pos : info.nRandomPos.bind (m.vRandom[·]?) = some nId
  lastTry : 0 ≤ info.nLastTry
  lastSuccess : 0 ≤ info.nLastSuccess

structure Checked (H : AddrHash) (m : CAddrMan) : Prop where
  size : (m.vRandom.length : Int) = m.nTried + m.nNew
  entries : ∀ nId info, m.mapInfo.lookup nId = some info → EntryChecked m nId info
  nTried : m.nTried = weightSum triedWeight m.mapInfo
  nNew : m.nNew = weightSum newWeight m.mapInfo
  tried : ∀ slot nId, m.vvTried slot = some nId ↔
    ∃ info, m.mapInfo.lookup nId = some info ∧ info.fInTried = true ∧
      triedSlot H m.nKey info.toCService = slot
  new : ∀ slot nId, m.vvNew slot = some nId → ∃ info, m.mapInfo.lookup nId = some info ∧
    info.fInTried = false ∧ newSlot H m.nKey info.toCService slot.1 = slot
  refs : ∀ nId info, m.mapInfo.lookup nId = some info → info.nRefCount = slotCount m.vvNew nId

/-! The loop over the entries -/

/-- An entry goes into one of the two sets. -/
def gather (sets : CAddrMan.CheckSets) (entry : Σ _ : Nat, CAddrInfo) : CAddrMan.CheckSets :=
  if entry.2.fInTried then (entry.1 :: sets.1, sets.2)
  else (sets.1, sets.2.insert entry.1 entry.2.nRefCount)

theorem checkKind_eq_ok (sets sets' : CAddrMan.CheckSets) : checkKind nId info sets = .ok sets' ↔
      ((info.fInTried = true → info.nLastSuccess ≠ 0 ∧ info.nRefCount = 0) ∧
        (info.fInTried = false → 0 < info.nRefCount ∧
          info.nRefCount ≤ ADDRMAN_NEW_BUCKETS_PER_ADDRESS)) ∧ gather sets ⟨nId, info⟩ = sets' := by
  unfold checkKind gather
  grind

variable {u : Unit}

theorem checkIndexes_eq_ok : m.checkIndexes nId info = .ok u ↔
    (m.mapAddr.lookup info.toCNetAddr).getD 0 = nId ∧
      info.nRandomPos.bind (m.vRandom[·]?) = some nId ∧ 0 ≤ info.nLastTry ∧
      0 ≤ info.nLastSuccess := by
  unfold checkIndexes
  grind

variable (entries : List (Σ _ : Nat, CAddrInfo))

theorem checkEntries_eq_ok (sets sets' : CAddrMan.CheckSets) :
    m.checkEntries entries sets = .ok sets' ↔
      (∀ entry ∈ entries, EntryChecked m entry.1 entry.2) ∧ entries.foldl gather sets = sets' := by
  induction entries generalizing sets with
  | nil => simp [checkEntries]
  | cons _ _ ih =>
    unfold checkEntries
    simp only [except_bind_ok, checkKind_eq_ok, checkIndexes_eq_ok, ih, forall_mem_cons, foldl_cons]
    constructor
    · rintro ⟨_, ⟨⟨tried, new⟩, gathered⟩, -, ⟨addr, pos, lastTry, lastSuccess⟩, checked, result⟩
      rw [gathered]
      exact ⟨⟨⟨tried, new, addr, pos, lastTry, lastSuccess⟩, checked⟩, result⟩
    · rintro ⟨⟨head, checked⟩, result⟩
      exact ⟨_, ⟨⟨head.tried, head.new⟩, rfl⟩, (),
        ⟨head.addr, head.pos, head.lastTry, head.lastSuccess⟩, checked, result⟩

/-! The sets it fills -/

section

variable (entries : List (Σ _ : Nat, CAddrInfo)) (sets : CAddrMan.CheckSets)

theorem gather_tried :
    (entries.foldl gather sets).1.Perm (((entries.filter (·.2.fInTried)).map (·.1)) ++ sets.1) := by
  induction entries generalizing sets with
  | nil => exact .refl _
  | cons entry _ ih =>
    rw [foldl_cons]
    refine (ih _).trans ?_
    unfold gather
    cases inTried : entry.2.fInTried with
    | true =>
      simp only [if_true, filter_cons, inTried, map_cons, cons_append]
      exact perm_middle
    | false =>
      simp [inTried]

variable {entries sets}

theorem gather_new (nodup : entries.NodupKeys) (nId : Nat) :
    (entries.foldl gather sets).2.lookup nId = match entries.dlookup nId with
      | some info => if info.fInTried then sets.2.lookup nId else some info.nRefCount
      | none => sets.2.lookup nId := by
  induction entries generalizing sets with
  | nil => rfl
  | cons entry _ ih =>
    obtain ⟨key, info⟩ := entry
    rw [nodupKeys_cons] at nodup
    rw [foldl_cons, ih nodup.2]
    by_cases same : nId = key
    · subst same
      rw [dlookup_eq_none.mpr nodup.1, dlookup_cons_eq]
      unfold gather
      cases inTried : info.fInTried <;> simp [inTried]
    · rw [dlookup_cons_ne _ _ same]
      have unchanged : (gather sets ⟨key, info⟩).2.lookup nId = sets.2.lookup nId := by
        grind [gather]
      rw [unchanged]

theorem gather_size (nodup : entries.NodupKeys) (apart : ∀ entry ∈ entries, entry.1 ∉ sets.2) :
    (entries.foldl gather sets).2.entries.length =
      (entries.map (fun entry => newWeight entry.2)).sum + sets.2.entries.length := by
  induction entries generalizing sets with
  | nil => simp
  | cons entry rest ih =>
    obtain ⟨key, info⟩ := entry
    rw [nodupKeys_cons] at nodup
    rw [forall_mem_cons] at apart
    rw [foldl_cons, map_cons, sum_cons]
    cases inTried : info.fInTried with
    | true =>
      have gathered : gather sets ⟨key, info⟩ = (key :: sets.1, sets.2) := if_pos inTried
      have weight : newWeight info = 0 := if_pos inTried
      rw [gathered, weight, Nat.zero_add]
      exact ih nodup.2 apart.2
    | false =>
      have gathered : gather sets ⟨key, info⟩ = (sets.1, sets.2.insert key info.nRefCount) := by
        simp [gather, inTried]
      have weight : newWeight info = 1 := by simp [newWeight, inTried]
      rw [gathered, weight, ih nodup.2]
      · rw [AList.entries_insert_of_notMem apart.1, length_cons]
        omega
      · have outside : key ∉ rest.keys := nodup.1
        grind [AList.mem_insert, keys]

end

/-! The loops over the tables -/

variable (nKey : Source.Uint256)

theorem triedSlot_eq_iff (service : CService) (slot : Slot ADDRMAN_TRIED_BUCKET_COUNT) :
    triedSlot H nKey service = slot ↔
      getTriedBucket H nKey service = slot.1 ∧
      getBucketPosition H nKey service false slot.1 = slot.2 := by
  grind [triedSlot]

theorem newSlot_eq_iff (service : CService) (slot : Slot ADDRMAN_NEW_BUCKET_COUNT) :
    newSlot H nKey service slot.1 = slot ↔
    getBucketPosition H nKey service true slot.1 = slot.2 := by
  rw [Prod.mk.injEq]
  exact and_iff_right rfl

variable (slots : List (Slot ADDRMAN_TRIED_BUCKET_COUNT))

theorem checkTried_eq_ok (setTried : List Nat) :
    m.checkTried H slots setTried = .ok [] ↔ (∀ slot ∈ slots, ∀ nId, m.vvTried slot = some nId →
        triedSlot H m.nKey (m.infoOrDefault nId).toCService = slot) ∧
        (slots.filterMap m.vvTried).Perm setTried := by
  induction slots generalizing setTried with
  | nil =>
    unfold checkTried
    simp [eq_comm]
  | cons slot _ ih =>
    unfold checkTried
    cases used : m.vvTried slot with
    | none =>
      rw [filterMap_cons_none used]
      simp [used, ih]
    | some nId =>
      have place := triedSlot_eq_iff (H := H) m.nKey (m.infoOrDefault nId).toCService slot
      rw [filterMap_cons_some used, cons_perm_iff_perm_erase, forall_mem_cons]
      grind

theorem checkNew_eq_ok (slots : List (Slot ADDRMAN_NEW_BUCKET_COUNT))
    (mapNew : AList (fun _ : Nat => Int))
    (pos : ∀ nId nRefs, mapNew.lookup nId = some nRefs → 0 < nRefs) :
    (∃ mapNew', m.checkNew H slots mapNew = .ok mapNew' ∧ mapNew'.entries = []) ↔
      (∀ slot ∈ slots, ∀ nId, m.vvNew slot = some nId →
        newSlot H m.nKey (m.infoOrDefault nId).toCService slot.1 = slot) ∧
      ∀ nId, (mapNew.lookup nId).getD 0 = (slots.filterMap m.vvNew).count nId := by
  induction slots generalizing mapNew with
  | nil =>
    simp only [checkNew, Except.ok.injEq, exists_eq_left', not_mem_nil, false_implies, implies_true,
      true_and, filterMap_nil, count_nil, Int.natCast_zero]
    constructor
    · intro empty _
      simp [AList.lookup, empty]
    · intro none
      rw [eq_nil_iff_forall_not_mem]
      rintro ⟨nId, nRefs⟩ mem
      have hit : mapNew.lookup nId = some nRefs := mem_dlookup mapNew.nodupKeys mem
      grind [pos nId nRefs hit, none nId]
  | cons slot rest ih =>
    unfold checkNew
    cases used : m.vvNew slot with
    | none =>
      rw [filterMap_cons_none used, forall_mem_cons]
      simp [used, ih mapNew pos]
    | some nId =>
      have place := newSlot_eq_iff (H := H) m.nKey (m.infoOrDefault nId).toCService slot
      rw [filterMap_cons_some used, forall_mem_cons]
      simp only [used, Option.some.injEq, forall_eq', place]
      cases hit : mapNew.lookup nId with
      | none =>
        refine iff_of_false (by simp) ?_
        rintro ⟨-, counted⟩
        have here := counted nId
        rw [hit, count_cons_self] at here
        exact absurd here (by simp; omega)
      | some nRefs =>
        -- the entry has one reference less for the rest of the slots
        have fewer :
            ∀ mapNew' : AList (fun _ : Nat => Int), (mapNew'.lookup nId).getD 0 = nRefs - 1 →
            (∀ other, other ≠ nId → mapNew'.lookup other = mapNew.lookup other) →
            ((∀ other, (mapNew'.lookup other).getD 0 = (rest.filterMap m.vvNew).count other) ↔
              ∀ other, (mapNew.lookup other).getD 0 =
                (nId :: rest.filterMap m.vvNew).count other) := by
          intro _ here elsewhere
          apply forall_congr'
          intro other
          by_cases same : other = nId
          · rw [same, here, hit, count_cons_self]
            simp only [Option.getD_some]
            omega
          · rw [elsewhere other same, count_cons_of_ne (Ne.symm same)]
        dsimp only
        split
        · simp_all
        · rename_i placed
          rw [ne_eq, not_not] at placed
          split
          · rw [ih, fewer]
            · simp [placed]
            all_goals grind
          · rw [ih, fewer]
            · simp [placed]
            all_goals grind

/-! The slots in order -/

variable {buckets : Nat}

theorem mem_allSlots (slot : Slot buckets) : slot ∈ allSlots buckets := by
  unfold allSlots
  rw [mem_flatMap]
  exact ⟨slot.1, mem_finRange _, mem_map.mpr ⟨slot.2, mem_finRange _, rfl⟩⟩

theorem nodup_allSlots (buckets : Nat) : (allSlots buckets).Nodup := by
  unfold allSlots
  rw [nodup_flatMap]
  constructor
  · intro _ _
    apply (nodup_finRange _).map
    grind [Function.Injective]
  · apply (nodup_finRange _).imp
    grind [List.Disjoint]

theorem count_filterMap {α : Type} (table : α → Option Nat) (l : List α) (nId : Nat) :
    (l.filterMap table).count nId =
      (l.map (fun slot => if table slot = some nId then 1 else 0)).sum := by
  induction l with
  | nil => rfl
  | cons slot _ ih =>
    cases used : table slot with
    | none => simp [filterMap_cons_none, ih, used]
    | some _ =>
      rw [filterMap_cons_some used, count_cons, ih, map_cons, sum_cons, used]
      grind

theorem count_allSlots (table : Slot buckets → Option Nat) (nId : Nat) :
    ((allSlots buckets).filterMap table).count nId = slotCount table nId := by
  have all : (allSlots buckets).toFinset = Finset.univ := by
    rw [Finset.eq_univ_iff_forall]
    intro slot
    exact mem_toFinset.mpr (mem_allSlots slot)
  rw [count_filterMap, slotCount, tally, ← all, sum_toFinset _ (nodup_allSlots buckets)]

/-! The whole check -/

section

variable (store : AList (fun _ : Nat => CAddrInfo))

theorem nodupKeys_inOrder : (inOrder store.entries).NodupKeys :=
  (perm_nodupKeys (perm_insertionSort _ _)).mpr store.nodupKeys

theorem mem_inOrder {store : AList (fun _ : Nat => CAddrInfo)} {entry : Σ _ : Nat, CAddrInfo} :
    entry ∈ inOrder store.entries ↔ store.lookup entry.1 = some entry.2 := by
  rw [inOrder, mem_insertionSort]
  exact (mem_dlookup_iff store.nodupKeys).symm

theorem dlookup_inOrder (nId : Nat) :
    (inOrder store.entries).dlookup nId = store.lookup nId :=
  perm_dlookup nId (nodupKeys_inOrder store) (perm_insertionSort _ _)

/-- The sets after the loop over the entries. -/
def gathered (m : CAddrMan) : CAddrMan.CheckSets :=
  (CAddrMan.inOrder m.mapInfo.entries).foldl gather ([], ∅)

theorem sum_inOrder (weight : CAddrInfo → Nat) (store : AList (fun _ : Nat => CAddrInfo)) :
    ((inOrder store.entries).map (fun entry => weight entry.2)).sum = weightSum weight store :=
  ((perm_insertionSort _ _).map _).sum_eq

theorem gathered_new (m : CAddrMan) (nId : Nat) :
    (gathered m).2.lookup nId = (m.mapInfo.lookup nId).bind
      (fun info => if info.fInTried then none else some info.nRefCount) := by
  rw [gathered, gather_new (nodupKeys_inOrder _), dlookup_inOrder]
  cases m.mapInfo.lookup nId <;> rfl

theorem gathered_new_size (m : CAddrMan) :
    (gathered m).2.entries.length = weightSum newWeight m.mapInfo := by
  rw [gathered, gather_size (nodupKeys_inOrder _) (fun _ _ => AList.notMem_empty _), sum_inOrder]
  rfl

theorem mem_gathered_tried : nId ∈ (gathered m).1 ↔
    ∃ info, m.mapInfo.lookup nId = some info ∧ info.fInTried = true := by
  rw [gathered, (gather_tried _ _).mem_iff, append_nil, mem_map]
  simp only [mem_filter, mem_inOrder]
  constructor
  · grind
  · rintro ⟨info, hit⟩
    exact ⟨⟨nId, info⟩, hit, rfl⟩

theorem nodup_gathered_tried (m : CAddrMan) : (gathered m).1.Nodup := by
  rw [gathered, (gather_tried _ _).nodup_iff, append_nil]
  exact List.NodupKeys.sublist filter_sublist (nodupKeys_inOrder m.mapInfo)

theorem gathered_tried_size (m : CAddrMan) :
    (gathered m).1.length = weightSum triedWeight m.mapInfo := by
  rw [gathered, (gather_tried _ _).length_eq, append_nil, length_map, ← sum_inOrder]
  induction inOrder m.mapInfo.entries with
  | nil => rfl
  | cons _ _ _ =>
    grind [triedWeight]

theorem checkTables_eq_ok :
    m.checkTables H = .ok u ↔ (m.vRandom.length : Int) = m.nTried + m.nNew ∧
      (∀ nId info, m.mapInfo.lookup nId = some info → EntryChecked m nId info) ∧
      (weightSum triedWeight m.mapInfo : Int) = m.nTried ∧
    (weightSum newWeight m.mapInfo : Int) = m.nNew ∧
      m.checkTried H (allSlots _) (gathered m).1 = .ok [] ∧
      (∃ mapNew, m.checkNew H (allSlots _) (gathered m).2 = .ok mapNew ∧ mapNew.entries = []) := by
  unfold checkTables
  split
  · simp_all
  · rename_i size
    rw [ne_eq, not_not] at size
    have entries : (∀ entry ∈ inOrder m.mapInfo.entries, EntryChecked m entry.1 entry.2) ↔
        ∀ nId info, m.mapInfo.lookup nId = some info → EntryChecked m nId info := by
      simp [mem_inOrder, Sigma.forall]
    simp only [except_bind_ok, checkEntries_eq_ok,
      entries, ← gathered_tried_size, ← gathered_new_size]
    constructor
    · rintro ⟨_, ⟨checked, rfl⟩, rest⟩
      split at rest
      · cases rest
      · split at rest
        · cases rest
        · rename_i countTried countNew
          rw [ne_eq, not_not] at countTried countNew
          simp only [except_bind_ok] at rest
          obtain ⟨_, inTried, mapNew, inNew, rest⟩ := rest
          split at rest
          · cases rest
          · split at rest
            · cases rest
            · rename_i noneTried noneNew
              rw [ne_eq, not_not] at noneTried noneNew
              rw [noneTried] at inTried
              exact ⟨size, checked, countTried, countNew, inTried, mapNew, inNew, noneNew⟩
    · rintro ⟨-, checked, countTried, countNew, inTried, mapNew, inNew, noneNew⟩
      refine ⟨gathered m, ⟨checked, rfl⟩, ?_⟩
      rw [if_neg (not_not.mpr countTried), if_neg (not_not.mpr countNew)]
      simp only [except_bind_ok]
      refine ⟨[], inTried, mapNew, inNew, ?_⟩
      rw [if_neg (not_not.mpr rfl), if_neg (not_not.mpr noneNew)]

theorem infoOrDefault_eq (held : m.mapInfo.lookup nId = some info) :
    m.infoOrDefault nId = info := by
  unfold infoOrDefault
  rw [held]
  rfl

/-- The loop over the tried table ends with an empty set. -/
theorem tried_iff : m.checkTried H (allSlots _) (gathered m).1 = .ok [] ↔
    ∀ slot nId, m.vvTried slot = some nId ↔
        ∃ info, m.mapInfo.lookup nId = some info ∧ info.fInTried = true ∧
          triedSlot H m.nKey info.toCService = slot := by
  rw [checkTried_eq_ok]
  constructor
  · rintro ⟨placed, same⟩ slot nId
    have occupant :
        ∀ slot nId, m.vvTried slot = some nId → ∃ info, m.mapInfo.lookup nId = some info ∧
        info.fInTried = true ∧ triedSlot H m.nKey info.toCService = slot := by
      intro slot nId used
      have mem : nId ∈ (gathered m).1 :=
        same.mem_iff.mp (mem_filterMap.mpr ⟨slot, mem_allSlots slot, used⟩)
      obtain ⟨info, held, inTried⟩ := mem_gathered_tried.mp mem
      have place := placed slot (mem_allSlots slot) nId used
      rw [infoOrDefault_eq held] at place
      exact ⟨info, held, inTried, place⟩
    refine ⟨occupant slot nId, ?_⟩
    rintro ⟨info, held, inTried, rfl⟩
    have mem := same.mem_iff.mpr (mem_gathered_tried.mpr ⟨info, held, inTried⟩)
    obtain ⟨slot, -, used⟩ := mem_filterMap.mp mem
    obtain ⟨_, held', -, place⟩ := occupant slot nId used
    cases held.symm.trans held'
    rw [place]
    exact used
  · intro table
    constructor
    · intro slot _ nId used
      obtain ⟨_, held, -, place⟩ := (table slot nId).mp used
      rw [infoOrDefault_eq held]
      exact place
    · rw [perm_ext_iff_of_nodup _ (nodup_gathered_tried m)]
      · intro nId
        rw [mem_gathered_tried, mem_filterMap]
        constructor
        · rintro ⟨slot, -, used⟩
          obtain ⟨info, held, inTried, -⟩ := (table slot nId).mp used
          exact ⟨info, held, inTried⟩
        · rintro ⟨info, held, inTried⟩
          exact ⟨_, mem_allSlots _, (table _ nId).mpr ⟨info, held, inTried, rfl⟩⟩
      · -- an entry is in one slot
        apply (nodup_allSlots _).filterMap
        intro a b nId inFirst inSecond
        obtain ⟨_, held, -, rfl⟩ := (table a nId).mp inFirst
        obtain ⟨_, held', -, rfl⟩ := (table b nId).mp inSecond
        cases held.symm.trans held'
        rfl

/-- What the loop over the entries leaves for an entry in its map of counts; a tried entry has
none. -/
theorem gathered_refs (entry : EntryChecked m nId info) :
    ((some info).bind fun info => if info.fInTried = true then none else some info.nRefCount).getD
      0 = info.nRefCount := by
  rw [Option.bind_some]
  cases inTried : info.fInTried with
  | false => rfl
  | true => exact (entry.tried inTried).2.symm

/-- The loop over the new table ends with an empty map. -/
theorem new_iff (entries : ∀ nId info, m.mapInfo.lookup nId = some info → EntryChecked m nId info) :
    (∃ mapNew, m.checkNew H (allSlots _) (gathered m).2 = .ok mapNew ∧ mapNew.entries = []) ↔
      (∀ slot nId, m.vvNew slot = some nId → ∃ info, m.mapInfo.lookup nId = some info ∧
        info.fInTried = false ∧ newSlot H m.nKey info.toCService slot.1 = slot) ∧
      ∀ nId info, m.mapInfo.lookup nId = some info → info.nRefCount = slotCount m.vvNew nId := by
  rw [checkNew_eq_ok]
  · simp only [count_allSlots, gathered_new]
    constructor
    · rintro ⟨placed, counted⟩
      constructor
      · intro slot nId used
        have pos := slotCount_pos used
        have here := counted nId
        cases held : m.mapInfo.lookup nId with
        | none =>
          rw [held, Option.bind_none, Option.getD_none] at here
          omega
        | some info =>
          rw [held, gathered_refs (entries nId info held)] at here
          have place := placed slot (mem_allSlots slot) nId used
          rw [infoOrDefault_eq held] at place
          refine ⟨info, rfl, ?_, place⟩
          cases inTried : info.fInTried with
          | false => rfl
          | true =>
            have unreferenced := ((entries nId info held).tried inTried).2
            omega
      · intro nId info held
        have here := counted nId
        rw [held, gathered_refs (entries nId info held)] at here
        exact here
    · rintro ⟨placed, counted⟩
      constructor
      · intro slot _ nId used
        obtain ⟨_, held, -, place⟩ := placed slot nId used
        rw [infoOrDefault_eq held]
        exact place
      · intro nId
        cases held : m.mapInfo.lookup nId with
        | none =>
          have none : slotCount m.vvNew nId = 0 := by
            rw [slotCount_eq_zero]
            intro slot used
            obtain ⟨_, held', -⟩ := placed slot nId used
            cases held.symm.trans held'
          rw [none]
          rfl
        | some info =>
          rw [← counted nId info held]
          exact gathered_refs (entries nId info held)
  · intro nId _ hit
    rw [gathered_new] at hit
    obtain ⟨info, held, hit⟩ := Option.bind_eq_some_iff.mp hit
    cases inTried : info.fInTried with
    | true => simp [inTried] at hit
    | false =>
      simp [inTried] at hit
      rw [← hit]
      exact ((entries nId info held).new inTried).1

theorem checkTables_iff : m.checkTables H = .ok u ↔ Checked H m := by
  rw [checkTables_eq_ok, tried_iff]
  constructor
  · rintro ⟨size, entries, nTried, nNew, tried, new⟩
    rw [new_iff entries] at new
    exact ⟨size, entries, nTried.symm, nNew.symm, tried, new.1, new.2⟩
  · intro checked
    refine ⟨checked.size, checked.entries, checked.nTried.symm, checked.nNew.symm,
      checked.tried, ?_⟩
    exact (new_iff checked.entries).mpr ⟨checked.new, checked.refs⟩

end

/-! Errors -/

theorem checkEntries_ne (sets : CAddrMan.CheckSets) :
    m.checkEntries entries sets ≠ .error 0 := by
  induction entries generalizing sets with
  | nil => exact nofun
  | cons _ _ ih =>
    unfold checkEntries
    rw [ne_eq, except_bind_error]
    rintro (kind | ⟨sets', -, failed⟩)
    · unfold checkKind at kind
      split at kind
      · split at kind
        · cases kind
        · split at kind <;> cases kind
      · split at kind
        · cases kind
        · split at kind <;> cases kind
    · rw [except_bind_error] at failed
      rcases failed with indexes | ⟨-, -, later⟩
      · unfold checkIndexes at indexes
        split at indexes
        · cases indexes
        · split at indexes
          · cases indexes
          · split at indexes
            · cases indexes
            · split at indexes <;> cases indexes
      · exact ih sets' later

theorem checkTried_ne (setTried : List Nat) :
    m.checkTried H slots setTried ≠ .error 0 := by
  induction slots generalizing setTried with
  | nil => exact nofun
  | cons _ _ ih =>
    unfold checkTried
    split
    · exact ih _
    · split
      · exact nofun
      · split
        · exact nofun
        · split
          · exact nofun
          · exact ih _

theorem checkNew_ne (slots : List (Slot ADDRMAN_NEW_BUCKET_COUNT))
    (mapNew : AList (fun _ : Nat => Int)) :
    m.checkNew H slots mapNew ≠ .error 0 := by
  induction slots generalizing mapNew with
  | nil => exact nofun
  | cons _ _ ih =>
    unfold checkNew
    split
    · exact ih _
    · split
      · exact nofun
      · split
        · exact nofun
        · split
          · exact ih _
          · exact ih _

theorem checkTables_ne : m.checkTables H ≠ .error 0 := by
  unfold checkTables
  split
  · exact nofun
  · rw [ne_eq, except_bind_error]
    rintro (entries | ⟨_, -, failed⟩)
    · exact checkEntries_ne _ _ entries
    · dsimp only at failed
      split at failed
      · cases failed
      · split at failed
        · cases failed
        · rw [except_bind_error] at failed
          rcases failed with tried | ⟨_, -, failed⟩
          · exact checkTried_ne _ _ tried
          · rw [except_bind_error] at failed
            rcases failed with new | ⟨_, -, failed⟩
            · exact checkNew_ne _ _ new
            · split at failed
              · cases failed
              · split at failed <;> cases failed

theorem check_eq_zero : m.check H = 0 ↔ Checked H m ∧ m.nKey ≠ 0 := by
  unfold check
  cases result : m.checkTables H with
  | ok u =>
    have checked := checkTables_iff.mp result
    simp [checked]
  | error code =>
    have nonzero : code ≠ 0 := by
      rintro rfl
      exact checkTables_ne result
    refine iff_of_false nonzero ?_
    rintro ⟨checked, -⟩
    cases (checkTables_iff.mpr checked : m.checkTables H = .ok ()).symm.trans result

theorem Checked.check_eq (checked : Checked H m) : m.check H = if m.nKey = 0 then -16 else 0 := by
  unfold check
  rw [show m.checkTables H = .ok () from checkTables_iff.mpr checked]

/-! Consistent tables pass -/

theorem weightSum_tried_add_new (store : AList (fun _ : Nat => CAddrInfo)) :
    weightSum triedWeight store + weightSum newWeight store = store.entries.length := by
  unfold weightSum
  induction store.entries with
  | nil => rfl
  | cons _ _ ih =>
    rw [map_cons, sum_cons, map_cons, sum_cons, length_cons, ← ih]
    unfold triedWeight newWeight
    split <;> omega

theorem Ordered.perm_keys (ordered : Ordered m) : m.vRandom.Perm m.mapInfo.keys := by
  rw [perm_ext_iff_of_nodup ordered.located.nodup m.mapInfo.keys_nodup]
  intro nId
  rw [← ordered.located.isSome_iff, ← AList.mem_keys, ← AList.lookup_isSome]
  cases held : m.mapInfo.lookup nId with
  | none => simp [position, held]
  | some info => simp [position_of_lookup held, ordered.positioned nId info held]

theorem Consistent.checked (ok : Consistent H 0 [] m) : Checked H m where
  size := by
    have all := weightSum_tried_add_new m.mapInfo
    have length := ok.toOrdered.perm_keys.length_eq.trans (length_map _)
    have nTried := ok.nTried
    have nNew := ok.nNew
    omega
  entries nId info held := by
    have sound := ok.sound nId info held
    obtain ⟨i, pos, here⟩ := ok.at_position held
    refine ⟨sound.tried, fun inNew => ⟨?_, sound.refs.2⟩, ?_, ?_, sound.lastTry, sound.lastSuccess⟩
    · have hit : entry m nId = some { info with nRandomPos := none } := by
        rw [entry, held]
        rfl
      rcases ok.settled nId _ hit not_mem_nil with inTried | refs
      · rw [show info.fInTried = true from inTried] at inNew
        cases inNew
      · exact refs
    · have known : m.mapAddr.lookup info.toCNetAddr = some nId :=
        (ok.index info.toCNetAddr nId).mpr ⟨info, held, mem_singleton_self _⟩
      rw [known]
      rfl
    · rw [pos]
      exact here
  nTried := ok.nTried
  nNew := ok.nNew.trans (Int.add_zero _)
  tried := ok.tried
  new slot nId used := by
    obtain ⟨info, held, place⟩ := ok.new slot nId used
    refine ⟨info, held, ?_, place⟩
    cases inTried : info.fInTried with
    | false => rfl
    | true =>
      have none := ((ok.sound nId info held).tried inTried).2
      have counted := ok.refs nId info held
      have positive := slotCount_pos used
      omega
  refs := ok.refs

end Zcashd.Abstract.AddrTables

import Zcashd.Abstract.AddrTables

/-!
# The operations of the address manager

Each part of an operation, run on consistent tables, comes to an end without a failed assertion
and leaves tables that are consistent, with the debit and the loose entries that the next part
expects.
-/
namespace Zcashd.Abstract.AddrTables

open Lib Source.AddrMan CAddrMan List Function AList

variable {H : AddrHash} {debit : Int} {loose : List Nat} {m m' : CAddrMan} {nId : Nat}
  {info info' : CAddrInfo}

theorem ok_bind {α β : Type} {x : Result α} {f : α → Result β} {a : α} {r : Result β}
    (ran : x = .ok a) (rest : f a = r) :
    (x >>= f) = r := by
  rw [ran]
  exact rest

theorem infoOf_eq (held : m.mapInfo.lookup nId = some info) : m.infoOf nId = .ok info := by
  unfold infoOf
  rw [held]

theorem lookup_of_infoOf (hit : m.infoOf nId = .ok info) : m.mapInfo.lookup nId = some info := by
  unfold infoOf at hit
  split at hit
  · cases hit
    assumption
  · cases hit

theorem assertThat_eq {condition : Prop} [Decidable condition] (holds : condition) :
    assertThat condition = .ok () := if_pos holds

theorem entry_of_lookup (held : m.mapInfo.lookup nId = some info) :
    entry m nId = some { info with nRandomPos := none } := by
  rw [entry, held]
  rfl

theorem lookup_of_entry (hit : entry m nId = some info') :
    ∃ info, m.mapInfo.lookup nId = some info ∧ { info with nRandomPos := none } = info' := by
  exact Option.map_eq_some_iff.mp hit

theorem entry_setInfo (m : CAddrMan) (nId : Nat) (info : CAddrInfo) :
    entry (m.setInfo nId info) nId = some { info with nRandomPos := none } :=
  entry_of_lookup (lookup_insert _)

variable {other : Nat}

theorem entry_insert_of_ne (out : m'.mapInfo = m.mapInfo.insert nId info) (ne : other ≠ nId) :
    entry m' other = entry m other := by
  rw [entry, entry, out, lookup_insert_ne ne]

theorem entry_setInfo_of_ne (ne : other ≠ nId) : entry (m.setInfo nId info) other = entry m other :=
  entry_insert_of_ne rfl ne

theorem entry_gone (erased : m'.mapInfo = m.mapInfo.erase nId) : entry m' nId = none := by
  rw [entry, erased, lookup_erase]
  rfl

theorem entry_kept (erased : m'.mapInfo = m.mapInfo.erase nId) (ne : other ≠ nId) :
    entry m' other = entry m other := by
  rw [entry, entry, erased, lookup_erase_ne ne]

/-- One entry is written; the others may be loose where they were. -/
theorem Settled.write {loose' : List Nat} (settled : Settled loose m)
    (out : m'.mapInfo = m.mapInfo.insert nId info)
    (kept : ∀ other ∈ loose, other = nId ∨ other ∈ loose')
    (tight : nId ∈ loose' ∨ info.fInTried = true ∨ 0 < info.nRefCount) :
    Settled loose' m' := by
  intro _ _ hit _
  unfold Settled entry at *
  rw [out, lookup_insert_eq] at hit
  grind

/-- Only the vector is in another order. -/
structure Reordered (m m' : CAddrMan) : Prop where
  key : m'.nKey = m.nKey
  entries : ∀ nId, entry m' nId = entry m nId
  vvNew : m'.vvNew = m.vvNew
  vvTried : m'.vvTried = m.vvTried

/-- An entry is written again with another position. -/
theorem entry_move (held : m.mapInfo.lookup nId = some info) (nRandomPos : Option Nat)
    (other : Nat) :
    entry (m.setInfo nId { info with nRandomPos }) other = entry m other := by
  by_cases same : other = nId
  · rw [same, entry_setInfo, entry_of_lookup held]
  · rw [entry_setInfo_of_ne same]

section

variable {i j a b : Nat} {info1 info2 : CAddrInfo}

theorem swapRandom_eq (ne : i ≠ j) (first : m.vRandom[i]? = some a)
    (second : m.vRandom[j]? = some b) (held1 : m.mapInfo.lookup a = some info1)
    (held2 : m.mapInfo.lookup b = some info2) (apart : b ≠ a) :
    m.swapRandom i j = .ok
      { (m.setInfo a { info1 with nRandomPos := some j }).setInfo b
        { info2 with nRandomPos := some i } with
        vRandom := (m.vRandom.set i b).set j a } := by
  have held2' : (m.setInfo a { info1 with nRandomPos := some j }).mapInfo.lookup b = some info2 :=
    (lookup_insert_ne apart).trans held2
  unfold swapRandom
  rw [if_neg ne, first, second]
  apply ok_bind (infoOf_eq held1)
  apply ok_bind (infoOf_eq held2')
  rfl

theorem swapRandom_ok (ok : Consistent H debit loose m) (first : m.vRandom[i]? = some a)
    (second : m.vRandom[j]? = some b) :
    ∃ m', m.swapRandom i j = .ok m' ∧ Consistent H debit loose m' ∧ Reordered m m' ∧
      m'.vRandom = (m.vRandom.set i b).set j a := by
  by_cases same : i = j
  · subst same
    cases first.symm.trans second
    refine ⟨m, if_pos rfl, ok, ⟨rfl, fun _ => rfl, rfl, rfl⟩, ?_⟩
    obtain ⟨_, here⟩ := List.getElem?_eq_some_iff.mp first
    rw [List.set_set, ← here, List.set_getElem_self]
  · obtain ⟨info1, held1, pos1⟩ := ok.lookup_at first
    obtain ⟨info2, held2, pos2⟩ := ok.lookup_at second
    have apart : b ≠ a := by
      rintro rfl
      cases held1.symm.trans held2
      exact same (Option.some.inj (pos1.symm.trans pos2))
    have held2' : (m.setInfo a { info1 with nRandomPos := some j }).mapInfo.lookup b = some info2 :=
      (lookup_insert_ne apart).trans held2
    have tables := ((ok.toTables.move held1 (some j)).move held2' (some i)).reorder
      ((m.vRandom.set i b).set j a)
    have entries : ∀ o, entry ((m.setInfo a { info1 with nRandomPos := some j }).setInfo b
        { info2 with nRandomPos := some i }) o = entry m o := by
      intro o
      rw [entry_move held2', entry_move held1]
    refine ⟨_, swapRandom_eq same first second held1 held2 apart, ⟨tables, ?_, ?_⟩,
      ⟨rfl, entries, rfl, rfl⟩, rfl⟩
    · exact ok.toOrdered.swap first second rfl rfl apart rfl rfl
    · intro o info'' hit
      exact ok.settled o info'' ((entries o).symm.trans hit)

end

/-- What `Delete` leaves as it is. -/
structure Dropped (nId : Nat) (m m' : CAddrMan) : Prop where
  key : m'.nKey = m.nKey
  gone : entry m' nId = none
  entries : ∀ other, other ≠ nId → entry m' other = entry m other
  vvNew : m'.vvNew = m.vvNew
  vvTried : m'.vvTried = m.vvTried

theorem Dropped.settled (dropped : Dropped nId m m') (settled : Settled loose m) :
    Settled loose m' := by
  intro other _ _ _
  grind [dropped.gone, dropped.entries, Settled]

theorem delete_ok (ok : Consistent H debit loose m) (held : m.mapInfo.lookup nId = some info)
    (inNew : info.fInTried = false) (noRefs : info.nRefCount = 0) :
    ∃ m', m.delete nId = .ok m' ∧ Consistent H debit loose m' ∧ Dropped nId m m' := by
  obtain ⟨i, pos, here⟩ := ok.at_position held
  have ne : m.vRandom ≠ [] := by
    intro empty
    rw [empty] at here
    cases here
  obtain ⟨last, atEnd⟩ : ∃ last, m.vRandom[m.vRandom.length - 1]? = some last :=
    ⟨_, getElem?_eq_getElem (Nat.sub_lt (length_pos_iff.mpr ne) Nat.one_pos)⟩
  obtain ⟨m1, swapped, ok1, reordered, vector⟩ := swapRandom_ok ok here atEnd
  -- the entry is the same but for its position
  obtain ⟨_, held1, same⟩ := lookup_of_entry ((reordered.entries nId).trans (entry_of_lookup held))
  have addr := congrArg (·.toCNetAddr) same
  have gone := ok1.toTables.remove held1 ((congrArg (·.fInTried) same).trans inNew)
    ((congrArg (·.nRefCount) same).trans noRefs) m1.vRandom.dropLast
  rw [addr] at gone
  have split : m1.vRandom = m1.vRandom.dropLast ++ [nId] := by
    rw [vector]
    have ne' : (m.vRandom.set i last).set (m.vRandom.length - 1) nId ≠ [] := by simpa using ne
    have final : ((m.vRandom.set i last).set (m.vRandom.length - 1) nId).getLast ne' = nId := by
      rw [getLast_eq_getElem]
      simp
    conv_lhs => rw [← dropLast_append_getLast ne', final]
  let m2 : CAddrMan := { m1 with
    vRandom := m1.vRandom.dropLast
    mapAddr := m1.mapAddr.erase info.toCNetAddr
    mapInfo := m1.mapInfo.erase nId
    nNew := m1.nNew - 1 }
  have ran : m.delete nId = .ok m2 := by
    apply ok_bind (infoOf_eq held)
    apply ok_bind (assertThat_eq inNew)
    apply ok_bind (assertThat_eq noRefs)
    rw [pos]
    apply ok_bind swapped
    rfl
  have dropped : Dropped nId m m2 :=
    ⟨reordered.key, entry_gone rfl,
      fun other different => (entry_kept rfl different).trans (reordered.entries other),
      reordered.vvNew, reordered.vvTried⟩
  exact ⟨_, ran, ⟨gone, ok1.toOrdered.pop split rfl rfl, dropped.settled ok.settled⟩, dropped⟩

/-- What `ClearNew` does. -/
structure Cleared (slot : Slot ADDRMAN_NEW_BUCKET_COUNT) (m m' : CAddrMan) : Prop where
  key : m'.nKey = m.nKey
  entries : ∀ nId, m.vvNew slot ≠ some nId → entry m' nId = entry m nId
  vvNew : m'.vvNew = update m.vvNew slot none
  vvTried : m'.vvTried = m.vvTried

variable {slot : Slot ADDRMAN_NEW_BUCKET_COUNT}

theorem clearNew_ok (ok : Consistent H debit loose m) :
    ∃ m', m.clearNew slot = .ok m' ∧ Consistent H debit loose m' ∧ Cleared slot m m' := by
  unfold clearNew
  cases used : m.vvNew slot with
  | none =>
    refine ⟨m, rfl, ok, rfl, fun _ _ => rfl, ?_, rfl⟩
    rw [← used, update_eq_self]
  | some nId =>
    obtain ⟨info, held, -⟩ := ok.new slot nId used
    have counted := ok.refs nId info held
    have pos := slotCount_pos used
    have inNew : info.fInTried = false := by
      cases inTried : info.fInTried with
      | false => rfl
      | true =>
        have none := ((ok.sound nId info held).tried inTried).2
        omega
    have tables := ok.toTables.release held used
    let m1 : CAddrMan := { m.setInfo nId { info with nRefCount := info.nRefCount - 1 } with
      vvNew := update m.vvNew slot none }
    have ordered : Ordered m1 := ok.toOrdered.assign held rfl rfl rfl
    dsimp only
    rw [infoOf_eq held]
    simp only [bind, Except.bind]
    rw [assertThat_eq (show 0 < info.nRefCount by omega)]
    dsimp only
    have others : ∀ other, other ≠ nId → entry m1 other = entry m other :=
      fun other => entry_setInfo_of_ne
    split
    · rename_i noRefs
      -- the entry is loose for as long as it takes to delete it
      have settled : Settled (nId :: loose) m1 :=
        ok.settled.write rfl (fun _ listed => .inr (.tail _ listed)) (.inl (.head _))
      obtain ⟨m', ran, ok', dropped⟩ :=
        delete_ok ⟨tables, ordered, settled⟩ (lookup_insert _) inNew noRefs
      refine ⟨m', ran, ⟨ok'.toTables, ok'.toOrdered, ?_⟩, dropped.key, ?_, dropped.vvNew,
        dropped.vvTried⟩
      · intro other info' _ _
        have settled' := ok'.settled other info'
        grind [dropped.gone]
      · grind [dropped.entries]
    · rename_i refs
      have left : 0 < info.nRefCount - 1 := by omega
      refine ⟨_, rfl, ⟨tables, ordered, ok.settled.write rfl (fun _ => .inr) (.inr (.inr left))⟩,
        rfl, ?_, rfl, rfl⟩
      grind

/-- An entry without references is in no new bucket. -/
theorem Tables.unnamed (tables : Tables H debit m) (hit : entry m nId = some info)
    (noRefs : info.nRefCount = 0) (slot : Slot ADDRMAN_NEW_BUCKET_COUNT) :
    m.vvNew slot ≠ some nId := by
  obtain ⟨info', held, rfl⟩ := lookup_of_entry hit
  apply slotCount_eq_zero.mp
  have counted := tables.refs nId info' held
  dsimp only at noRefs
  omega

theorem evict_ok (ok : Consistent H debit [nId] m) (hit : entry m nId = some info)
    (inNew : info.fInTried = false) (noRefs : info.nRefCount = 0)
    (slot : Slot ADDRMAN_TRIED_BUCKET_COUNT) :
    ∃ m', m.evict H slot = .ok m' ∧ Consistent H debit [nId] m' ∧ m'.nKey = m.nKey ∧
      entry m' nId = entry m nId ∧ m'.vvTried slot = none := by
  unfold evict
  cases used : m.vvTried slot with
  | none => exact ⟨m, rfl, ok, rfl, rfl, used⟩
  | some nIdEvict =>
    obtain ⟨infoOld, held, inTried, -⟩ := (ok.tried slot nIdEvict).mp used
    have ne : nId ≠ nIdEvict := by
      rintro rfl
      grind [lookup_of_entry]
    have noRefsOld : infoOld.nRefCount = 0 := ((ok.sound nIdEvict infoOld held).tried inTried).2
    have noSlotOld := ok.toTables.unnamed (entry_of_lookup held) noRefsOld
    have noSlot := ok.toTables.unnamed hit noRefs
    -- the entry leaves the tried table
    let m1 : CAddrMan := { m.setInfo nIdEvict { infoOld with fInTried := false } with
      vvTried := update m.vvTried slot none
      nTried := m.nTried - 1 }
    have others1 : ∀ other, other ≠ nIdEvict → entry m1 other = entry m other :=
      fun other => entry_setInfo_of_ne
    have ok1 : Consistent H (debit - 1) [nIdEvict, nId] m1 := by
      refine ⟨ok.toTables.demote held used, ok.toOrdered.assign held rfl rfl rfl, ?_⟩
      exact ok.settled.write rfl (by simp) (.inl (by simp))
    -- its new slot is cleared
    let newPlace := newSlot H m.nKey infoOld.toCService
      (getNewBucket H m.nKey infoOld.toCNetAddr infoOld.source)
    obtain ⟨m2, ran, ok2, cleared⟩ := clearNew_ok ok1
    have free : m2.vvNew newPlace = none := by
      rw [cleared.vvNew, update_self]
    have old2 : entry m2 nIdEvict =
        some { infoOld with fInTried := false, nRandomPos := none } := by
      rw [cleared.entries nIdEvict (noSlotOld newPlace)]
      exact entry_setInfo _ _ _
    obtain ⟨info2, held2, same⟩ := lookup_of_entry old2
    have service := congrArg (·.toCService) same
    have inNew2 : info2.fInTried = false := congrArg (·.fInTried) same
    have noRefs2 : info2.nRefCount = 0 := (congrArg (·.nRefCount) same).trans noRefsOld
    have place : newSlot H m2.nKey info2.toCService newPlace.1 = newPlace := by
      rw [cleared.key, service]
      rfl
    -- and it goes in there
    let m3 : CAddrMan := { m2.setInfo nIdEvict { info2 with nRefCount := 1 } with
      vvNew := update m2.vvNew newPlace (some nIdEvict)
      nNew := m2.nNew + 1 }
    have others3 : ∀ other, other ≠ nIdEvict → entry m3 other = entry m2 other :=
      fun other => entry_setInfo_of_ne
    have tables3 : Tables H debit m3 := by
      have more : (1 : Int) = info2.nRefCount + 1 := by rw [noRefs2]; rfl
      have counted := ok2.toTables.occupy held2 free place inNew2 (by rw [noRefs2]; decide) more
      exact counted.count (by dsimp only [setInfo]; omega)
    have settled3 : Settled [nId] m3 := ok2.settled.write rfl (by simp) (.inr (.inr Int.one_pos))
    have kept : entry m3 nId = entry m nId := by
      rw [others3 nId ne, cleared.entries nId (noSlot newPlace), others1 nId ne]
    refine ⟨m3, ?_, ⟨tables3, ok2.toOrdered.assign held2 rfl rfl rfl, settled3⟩,
      cleared.key, kept, ?_⟩
    · apply ok_bind (infoOf_eq held)
      apply ok_bind ran
      apply ok_bind (assertThat_eq free)
      apply ok_bind (infoOf_eq held2)
      rfl
    · change m2.vvTried slot = none
      rw [cleared.vvTried]
      exact update_self ..

/-! `MakeTried` and `Good_` -/

/-- The manager while the loop of `MakeTried` is at work on an entry. -/
def inLoop (m : CAddrMan) (nId : Nat) (info : CAddrInfo)
    (vvNew : Slot ADDRMAN_NEW_BUCKET_COUNT → Option Nat) (nRefCount : Int) :
    CAddrMan :=
  { m.setInfo nId { info with nRefCount } with vvNew }

theorem removeSlots_tables (buckets : List (Fin ADDRMAN_NEW_BUCKET_COUNT))
    {vvNew : Slot ADDRMAN_NEW_BUCKET_COUNT → Option Nat} {nRefCount : Int}
    (tables : Tables H debit (inLoop m nId info vvNew nRefCount)) :
    Tables H debit
      (inLoop m nId info (removeSlots H m.nKey info.toCService nId buckets vvNew nRefCount).1
      (removeSlots H m.nKey info.toCService nId buckets vvNew nRefCount).2) := by
  induction buckets generalizing vvNew nRefCount with
  | nil => exact tables
  | cons _ _ ih =>
    unfold removeSlots
    dsimp only
    split
    · rename_i used
      apply ih
      have released := tables.release (lookup_insert _) used
      have again : (inLoop m nId info vvNew nRefCount).mapInfo.insert nId
          { info with nRefCount := nRefCount - 1 } =
          m.mapInfo.insert nId { info with nRefCount := nRefCount - 1 } := insert_insert ..
      unfold setInfo at released
      rw [again] at released
      exact released
    · exact ih tables

/-- A slot that does not name the entry does not name it later, and the slots of the buckets do
not. -/
theorem removeSlots_unnamed (nKey : Source.Uint256) (service : CService)
    (buckets : List (Fin ADDRMAN_NEW_BUCKET_COUNT))
    (vvNew : Slot ADDRMAN_NEW_BUCKET_COUNT → Option Nat) (nRefCount : Int)
    (slot : Slot ADDRMAN_NEW_BUCKET_COUNT)
    (gone : vvNew slot ≠ some nId ∨ ∃ bucket ∈ buckets, newSlot H nKey service bucket = slot) :
    (removeSlots H nKey service nId buckets vvNew nRefCount).1 slot ≠ some nId := by
  induction buckets generalizing vvNew nRefCount with
  | nil =>
    rcases gone with unnamed | ⟨_, mem, -⟩
    · exact unnamed
    · cases mem
  | cons _ _ ih =>
    unfold removeSlots
    dsimp only
    split
    · apply ih
      rw [update_apply]
      grind
    · apply ih
      grind

theorem makeTried_ok (ok : Consistent H 0 [] m) (held : m.mapInfo.lookup nId = some info)
    (inNew : info.fInTried = false) (success : info.nLastSuccess ≠ 0) :
    ∃ m', m.makeTried H nId = .ok m' ∧ Consistent H 0 [] m' ∧ m'.nKey = m.nKey := by
  -- the entry leaves all new buckets
  obtain ⟨gone, remove⟩ : ∃ gone, removeSlots H m.nKey info.toCService nId (finRange _) m.vvNew
      info.nRefCount = gone := ⟨_, rfl⟩
  have start := ok.toTables.assign held (ok.sound nId info held) rfl rfl rfl
  have looped : Tables H 0 (inLoop m nId info gone.1 gone.2) := by
    rw [← remove]
    exact removeSlots_tables _ start
  have unnamed : ∀ slot, gone.1 slot ≠ some nId := by
    intro slot used
    obtain ⟨_, hit, place⟩ := looped.new slot nId used
    cases (lookup_insert m.mapInfo).symm.trans hit
    rw [← remove] at used
    exact removeSlots_unnamed m.nKey info.toCService (finRange _) m.vvNew info.nRefCount slot
      (.inr ⟨slot.1, mem_finRange _, place⟩) used
  have noRefs : gone.2 = 0 := by
    have counted := looped.refs nId _ (lookup_insert _)
    rw [show slotCount (inLoop m nId info gone.1 gone.2).vvNew nId = 0 from
      slotCount_eq_zero.mpr unnamed] at counted
    exact counted
  let m1 : CAddrMan := { m.setInfo nId { info with nRefCount := gone.2 } with
    vvNew := gone.1
    nNew := m.nNew - 1 }
  have entry1 : entry m1 nId = some { info with nRefCount := gone.2, nRandomPos := none } :=
    entry_setInfo _ _ _
  have ok1 : Consistent H (-1) [nId] m1 := by
    refine ⟨looped.count (by dsimp only [inLoop, setInfo]; omega),
      ok.toOrdered.assign held rfl rfl rfl, ?_⟩
    exact ok.settled.write rfl (by simp) (.inl (by simp))
  -- the slot of the tried table is made free
  obtain ⟨m2, ran, ok2, key, kept, free⟩ := evict_ok ok1 entry1 inNew noRefs
    (triedSlot H m.nKey info.toCService)
  obtain ⟨info2, held2, same⟩ := lookup_of_entry (kept.trans entry1)
  have service := congrArg (·.toCService) same
  have slot2 : triedSlot H m2.nKey info2.toCService = triedSlot H m.nKey info.toCService := by
    rw [key, service]
    rfl
  have promoted := ok2.toTables.promote held2 ((congrArg (·.fInTried) same).trans inNew)
    ((congrArg (·.nRefCount) same).trans noRefs) (congrArg (·.nLastSuccess) same ▸ success)
      (by rw [slot2, free])
  rw [slot2] at promoted
  let m3 : CAddrMan := { m2.setInfo nId { info2 with fInTried := true } with
    vvTried := update m2.vvTried (triedSlot H m.nKey info.toCService) (some nId)
    nTried := m2.nTried + 1 }
  have settled3 : Settled [] m3 := ok2.settled.write rfl (by simp) (.inr (.inl rfl))
  refine ⟨m3, ?_, ⟨promoted, ok2.toOrdered.assign held2 rfl rfl rfl, settled3⟩, key⟩
  apply ok_bind (infoOf_eq held)
  rw [remove]
  apply ok_bind (assertThat_eq noRefs)
  apply ok_bind ran
  apply ok_bind (assertThat_eq free)
  apply ok_bind (infoOf_eq held2)
  rfl

/-- Data of an entry that the tables do not depend on. -/
theorem Consistent.assign (ok : Consistent H debit loose m)
    (held : m.mapInfo.lookup nId = some info) (sound : Sound info')
    (service : info'.toCService = info.toCService) (refs : info'.nRefCount = info.nRefCount)
    (inTried : info'.fInTried = info.fInTried) (pos : info'.nRandomPos = info.nRandomPos) :
    Consistent H debit loose (m.setInfo nId info') := by
  refine ⟨ok.toTables.assign held sound service refs inTried,
    ok.toOrdered.assign held rfl pos rfl, ?_⟩
  refine ok.settled.write rfl (fun _ => .inr)
    ((Decidable.em (nId ∈ loose)).imp_right fun tight => ?_)
  rw [inTried, refs]
  have old := ok.settled nId _ (entry_of_lookup held) tight
  exact old

theorem Consistent.tighten (ok : Consistent H debit [nId] m)
    (tight : ∀ info, entry m nId = some info → info.fInTried = true ∨ 0 < info.nRefCount) :
    Consistent H debit [] m := by
  refine ⟨ok.toTables, ok.toOrdered, ?_⟩
  intro other info hit _
  have settled := ok.settled other info hit
  grind

variable {addr : CNetAddr}

theorem find_eq_some (hit : m.find addr = some (nId, info)) : m.mapInfo.lookup nId = some info := by
  obtain ⟨_, -, hit⟩ := Option.bind_eq_some_iff.mp hit
  obtain ⟨_, held, same⟩ := Option.bind_eq_some_iff.mp hit
  cases same
  exact held

theorem Tables.find_eq_none (tables : Tables H debit m) (missing : m.find addr = none) :
    m.mapAddr.lookup addr = none := by
  cases there : m.mapAddr.lookup addr with
  | none => rfl
  | some nId =>
    obtain ⟨_, held, -⟩ := (tables.index addr nId).mp there
    simp [find, there, held] at missing

variable {nTime : Int64}

theorem good_ok (ok : Consistent H 0 [] m) (addr : CService) (pos : 0 < nTime) (nRnd : Nat) :
    ∃ m', m.good H addr nTime nRnd = .ok m' ∧ Consistent H 0 [] m' ∧ m'.nKey = m.nKey := by
  unfold good
  cases hit : m.find addr.toCNetAddr with
  | none => exact ⟨m, rfl, ok, rfl⟩
  | some pair =>
    obtain ⟨nId, info⟩ := pair
    have held := find_eq_some hit
    have sound := ok.sound nId info held
    dsimp only
    split
    · exact ⟨m, rfl, ok, rfl⟩
    · have least : 0 ≤ nTime := Int64.le_of_lt pos
      have nonzero : nTime ≠ 0 := by
        rintro rfl
        exact absurd pos (by decide)
      have sound' : Sound { info with nLastSuccess := nTime, nLastTry := nTime, nAttempts := 0 } :=
        ⟨sound.refs, least, least, fun inTried => ⟨nonzero, (sound.tried inTried).2⟩⟩
      have assigned := ok.assign held sound' rfl rfl rfl rfl
      split
      · exact ⟨_, rfl, assigned, rfl⟩
      · rename_i inNew
        split
        · exact makeTried_ok assigned (lookup_insert _) (by simpa using inNew) nonzero
        · exact ⟨_, rfl, assigned, rfl⟩

/-! `Add_` -/

variable {nNow : Int}

theorem fInsert_ok (tables : Tables H debit m) :
    ∃ fInsert, m.fInsert slot info nNow = .ok fInsert := by
  unfold fInsert
  cases used : m.vvNew slot with
  | none => exact ⟨true, rfl⟩
  | some nIdExisting =>
    obtain ⟨_, held, -⟩ := tables.new slot nIdExisting used
    exact ⟨_, ok_bind (infoOf_eq held) rfl⟩

variable {source : CNetAddr}

theorem addToBucket_ok (ok : Consistent H 0 [nId] m) (held : m.mapInfo.lookup nId = some info)
    (inNew : info.fInTried = false) (below : info.nRefCount < ADDRMAN_NEW_BUCKETS_PER_ADDRESS) :
    ∃ m', m.addToBucket H nId source nNow = .ok m' ∧ Consistent H 0 [] m' ∧ m'.nKey = m.nKey := by
  have least := (ok.sound nId info held).refs.1
  have tighten : info.nRefCount ≠ 0 → Consistent H 0 [] m := by
    intro _
    apply ok.tighten
    intro _ hit
    cases (entry_of_lookup held).symm.trans hit
    exact .inr (show 0 < info.nRefCount by omega)
  let slot := newSlot H m.nKey info.toCService (getNewBucket H m.nKey info.toCNetAddr source)
  obtain ⟨fInsert, decided⟩ := fInsert_ok ok.toTables
  by_cases there : m.vvNew slot = some nId
  · refine ⟨m, ?_, tighten ?_, rfl⟩
    · apply ok_bind (infoOf_eq held)
      exact if_pos there
    · have counted := ok.refs nId info held
      have pos := slotCount_pos there
      omega
  · cases fInsert with
    | true =>
      obtain ⟨m1, ran, ok1, cleared⟩ := clearNew_ok ok
      obtain ⟨info1, held1, same⟩ :=
        lookup_of_entry ((cleared.entries nId there).trans (entry_of_lookup held))
      have free : m1.vvNew slot = none := by
        rw [cleared.vvNew, update_self]
      have place : newSlot H m1.nKey info1.toCService slot.1 = slot := by
        rw [cleared.key, show info1.toCService = info.toCService from congrArg (·.toCService) same]
        rfl
      have refs : info1.nRefCount = info.nRefCount := congrArg (·.nRefCount) same
      have used := ok1.toTables.occupy held1 free place ((congrArg (·.fInTried) same).trans inNew)
        (by rw [refs]; exact below) rfl
      have more : 0 < info1.nRefCount + 1 := by omega
      refine ⟨_, ?_, ⟨used, ok1.toOrdered.assign held1 rfl rfl rfl,
        ok1.settled.write rfl (by simp) (.inr (.inr more))⟩, cleared.key⟩
      apply ok_bind (infoOf_eq held)
      refine (if_neg there).trans ?_
      apply ok_bind decided
      apply ok_bind ran
      apply ok_bind (infoOf_eq held1)
      rfl
    | false =>
      by_cases refs : info.nRefCount = 0
      · obtain ⟨m1, ran, ok1, dropped⟩ := delete_ok ok held inNew refs
        refine ⟨m1, ?_, ok1.tighten ?_, dropped.key⟩
        · apply ok_bind (infoOf_eq held)
          refine (if_neg there).trans ?_
          apply ok_bind decided
          exact (if_pos refs).trans ran
        · intro _ hit
          rw [dropped.gone] at hit
          cases hit
      · refine ⟨m, ?_, tighten refs, rfl⟩
        apply ok_bind (infoOf_eq held)
        refine (if_neg there).trans ?_
        apply ok_bind decided
        exact if_neg refs

/-- The entry may be neither tried nor in a new bucket. -/
theorem Consistent.loosen (ok : Consistent H debit [] m) (nId : Nat) : Consistent H debit [nId] m :=
  ⟨ok.toTables, ok.toOrdered, fun other info hit _ =>
    ok.settled other info hit not_mem_nil⟩

theorem create_ok (ok : Consistent H debit [] m) {addr : CAddress}
    (unknown : m.mapAddr.lookup addr.toCNetAddr = none) :
    m.create addr source = .error .overflow ∨ ∃ nId m' info, m.create addr source = .ok (nId, m') ∧
      Consistent H (debit - 1) [nId] m' ∧ m'.nKey = m.nKey ∧ m'.mapInfo.lookup nId = some info ∧
      Sound info ∧ info.fInTried = false ∧ info.nRefCount = 0 := by
  unfold create
  split
  · right
    have sound :
        Sound { CAddrInfo.ofAddress addr source with nRandomPos := some m.vRandom.length } :=
      ⟨⟨Int.le_refl 0, Int.ofNat_le.mpr (Nat.zero_le 8)⟩, Int64.le_refl 0, Int64.le_refl 0, nofun⟩
    have tables := ok.toTables.create unknown sound rfl rfl (m.vRandom ++ [m.nIdCount])
    have absent := ok.toTables.lookup_nIdCount
    refine ⟨m.nIdCount, _, _, rfl, ⟨tables, ok.toOrdered.create absent rfl rfl rfl, ?_⟩, rfl,
      lookup_insert _, sound, rfl, rfl⟩
    exact ok.settled.write rfl (by simp) (.inl (by simp))
  · exact .inl rfl

theorem Consistent.count (ok : Consistent H debit loose m) {nNew debit' : Int}
    (counted : nNew - m.nNew = debit' - debit) : Consistent H debit' loose { m with nNew } :=
  ⟨ok.toTables.count counted, { ok with }, ok.settled⟩

section

variable (ok : Consistent H 0 [] m)
include ok

theorem add_ok (addr : CAddress) (source : CNetAddr) (nTimePenalty nNow : Int)
    (nRnd : Nat) : m.add H addr source nTimePenalty nNow nRnd = .error .overflow ∨
      ∃ m', m.add H addr source nTimePenalty nNow nRnd = .ok m' ∧ Consistent H 0 [] m' ∧
        m'.nKey = m.nKey := by
  unfold add
  split
  · exact .inr ⟨m, rfl, ok, rfl⟩
  · cases hit : m.find addr.toCNetAddr with
    | some pair =>
      right
      obtain ⟨nId, info⟩ := pair
      have held := find_eq_some hit
      have sound := ok.sound nId info held
      obtain ⟨nTime, nServices, eq⟩ :
          ∃ nTime nServices, refreshed info addr nTimePenalty nNow =
            { info with nTime, nServices } := ⟨_, _, rfl⟩
      have assigned : Consistent H 0 [] (m.setInfo nId { info with nTime, nServices }) :=
        ok.assign held { sound with } rfl rfl rfl rfl
      dsimp only
      rw [eq]
      split
      · exact ⟨_, rfl, assigned, rfl⟩
      · split
        · exact ⟨_, rfl, assigned, rfl⟩
        · rename_i inNew
          split
          · exact ⟨_, rfl, assigned, rfl⟩
          · rename_i notFull
            split
            · exact ⟨_, rfl, assigned, rfl⟩
            · have most := sound.refs.2
              exact addToBucket_ok (assigned.loosen nId) (lookup_insert _) (by simpa using inNew)
                (by dsimp only at notFull ⊢; omega)
    | none =>
      rcases create_ok ok (ok.toTables.find_eq_none hit) with overflow |
        ⟨nId, m1, info, created, ok1, key, held, sound, inNew, noRefs⟩
      · left
        rw [overflow]
        rfl
      · right
        have sound' : Sound
            { info with nTime := UInt32.ofNat (max 0 (info.nTime.toNat - nTimePenalty)).toNat } :=
          { sound with }
        have assigned := ok1.assign held sound' rfl rfl rfl rfl
        have counted : Consistent H 0 [nId] { m1.setInfo nId
            { info with nTime := UInt32.ofNat (max 0 (info.nTime.toNat - nTimePenalty)).toNat } with
              nNew := m1.nNew + 1 } := assigned.count (by dsimp only [setInfo]; omega)
        obtain ⟨m', ran, ok', key'⟩ := addToBucket_ok counted (lookup_insert _) inNew
          (by dsimp only; rw [noRefs]; decide)
        refine ⟨m', ?_, ok', key'.trans key⟩
        apply ok_bind created
        apply ok_bind (infoOf_eq held)
        exact ran

/-! The other operations -/

theorem attempt_ok (addr : CService) (pos : 0 < nTime) : m.attempt addr nTime = .error .overflow ∨
      ∃ m', m.attempt addr nTime = .ok m' ∧ Consistent H 0 [] m' ∧ m'.nKey = m.nKey := by
  unfold attempt
  cases hit : m.find addr.toCNetAddr with
  | none => exact .inr ⟨m, rfl, ok, rfl⟩
  | some pair =>
    obtain ⟨nId, info⟩ := pair
    have held := find_eq_some hit
    have sound := ok.sound nId info held
    dsimp only
    split
    · exact .inr ⟨m, rfl, ok, rfl⟩
    · split
      · exact .inl rfl
      · refine .inr ⟨_, rfl, ok.assign held ?_ rfl rfl rfl rfl, rfl⟩
        exact ⟨sound.refs, Int64.le_of_lt pos, sound.lastSuccess, sound.tried⟩

theorem connected_ok (addr : CService) (nTime : Int64) :
    Consistent H 0 [] (m.connected addr nTime) ∧ (m.connected addr nTime).nKey = m.nKey := by
  unfold connected
  cases hit : m.find addr.toCNetAddr with
  | none => exact ⟨ok, rfl⟩
  | some pair =>
    obtain ⟨nId, info⟩ := pair
    have held := find_eq_some hit
    have sound := ok.sound nId info held
    dsimp only
    split
    · exact ⟨ok, rfl⟩
    · split
      · refine ⟨ok.assign held ?_ rfl rfl rfl rfl, rfl⟩
        exact { sound with }
      · exact ⟨ok, rfl⟩

end

section

variable {buckets : Nat} {table : Slot buckets → Option Nat}

theorem searchSlot_found (i : Nat) (slot : Slot buckets) (steps : List (Slot buckets))
    (hit : searchSlot table i slot steps = .found nId) : ∃ slot, table slot = some nId := by
  induction steps generalizing i slot with
  | nil =>
    unfold searchSlot at hit
    split at hit
    · cases hit
      exact ⟨slot, ‹_›⟩
    · cases hit
    · contradiction
  | cons _ _ ih =>
    unfold searchSlot at hit
    split at hit
    · cases hit
      exact ⟨slot, ‹_›⟩
    · cases hit
    · rename_i same
      cases same
      split at hit
      · cases hit
      · exact ih _ _ hit

theorem selectFrom_ok
    (known : ∀ slot nId, table slot = some nId → ∃ info, m.mapInfo.lookup nId = some info)
    (rounds : List (CAddrMan.SelectRound buckets)) :
    ∃ selected, m.selectFrom table rounds = .ok selected := by
  induction rounds with
  | nil => exact ⟨none, rfl⟩
  | cons round _ ih =>
    unfold selectFrom
    split
    · exact ⟨none, rfl⟩
    · exact ⟨none, rfl⟩
    · rename_i nId search
      obtain ⟨slot, used⟩ := searchSlot_found _ _ _ search
      obtain ⟨info, held⟩ := known slot nId used
      cases chosen : round.chosen with
      | true => exact ⟨some info, ok_bind (infoOf_eq held) rfl⟩
      | false =>
        obtain ⟨selected, ran⟩ := ih
        exact ⟨selected, ok_bind (infoOf_eq held) ran⟩

theorem select_ok (tables : Tables H debit m) (newOnly coin : Bool)
    (triedRounds : List (CAddrMan.SelectRound ADDRMAN_TRIED_BUCKET_COUNT))
    (newRounds : List (CAddrMan.SelectRound ADDRMAN_NEW_BUCKET_COUNT)) :
    ∃ selected, m.select newOnly coin triedRounds newRounds = .ok selected := by
  unfold select
  split
  · exact ⟨none, rfl⟩
  · split
    · exact ⟨none, rfl⟩
    · split
      · apply selectFrom_ok
        grind [tables.tried]
      · apply selectFrom_ok
        grind [tables.new]

end

theorem getAddrFrom_ok (nNow : Int) (nNodes : Nat) (draw : Nat → Nat) (rounds n : Nat)
    (vAddr : List CAddress) (ok : Consistent H debit loose m)
    (left : n + rounds = m.vRandom.length) :
    ∃ m' vAddr', getAddrFrom nNow nNodes draw rounds n m vAddr = .ok (m', vAddr') ∧
      Consistent H debit loose m' ∧ m'.nKey = m.nKey := by
  induction rounds generalizing n m vAddr with
  | zero => exact ⟨m, vAddr, rfl, ok, rfl⟩
  | succ _ ih =>
    unfold getAddrFrom
    split
    · exact ⟨m, vAddr, rfl, ok, rfl⟩
    · have inside : n < m.vRandom.length := by omega
      have inside' : draw n % (m.vRandom.length - n) + n < m.vRandom.length := by
        have below := Nat.mod_lt (draw n) (show 0 < m.vRandom.length - n by omega)
        omega
      obtain ⟨m1, ran, ok1, reordered, vector⟩ := swapRandom_ok ok
        (getElem?_eq_getElem inside) (getElem?_eq_getElem inside')
      have length : m1.vRandom.length = m.vRandom.length := by
        rw [vector, length_set, length_set]
      obtain ⟨nId, here⟩ : ∃ nId, m1.vRandom[n]? = some nId :=
        ⟨_, getElem?_eq_getElem (by rw [length]; exact inside)⟩
      obtain ⟨info, held, -⟩ := ok1.lookup_at here
      obtain ⟨m', vAddr', rest, ok', key⟩ := ih (n + 1)
        (if info.isTerrible nNow then vAddr else vAddr ++ [info.toCAddress]) ok1 (by omega)
      refine ⟨m', vAddr', ?_, ok', key.trans reordered.key⟩
      apply ok_bind ran
      rw [here]
      exact ok_bind (infoOf_eq held) rest

/-- An operation ends with consistent tables, unless an integer overflows. -/
theorem step_ok (ok : Consistent H 0 [] m) {operation : Operation} (pos : operation.TimesPositive) :
    step H m operation = .error .overflow ∨
    ∃ m', step H m operation = .ok m' ∧ Consistent H 0 [] m' ∧ m'.nKey = m.nKey := by
  cases operation with
  | add addr source nTimePenalty nNow nRnd => exact add_ok ok addr source nTimePenalty nNow nRnd
  | good addr _ nRnd => exact .inr (good_ok ok addr pos nRnd)
  | attempt addr _ => exact attempt_ok ok addr pos
  | connected addr nTime => exact .inr ⟨_, rfl, connected_ok ok addr nTime⟩
  | select newOnly coin triedRounds newRounds =>
    obtain ⟨_, ran⟩ := select_ok ok.toTables newOnly coin triedRounds newRounds
    exact .inr ⟨m, ok_bind ran rfl, ok, rfl⟩
  | getAddr nNow draw =>
    obtain ⟨m', _, ran, rest⟩ := getAddrFrom_ok nNow
      (min (ADDRMAN_GETADDR_MAX_PCT * m.vRandom.length / 100) ADDRMAN_GETADDR_MAX) draw
        m.vRandom.length 0 [] ok
      (Nat.zero_add _)
    exact .inr ⟨m', ok_bind ran rfl, rest⟩

end Zcashd.Abstract.AddrTables

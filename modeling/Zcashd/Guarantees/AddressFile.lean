import Zcashd.Abstract.AddrRestored

/-!
# The file of the address manager

A manager that passes `Check_` can be written, and reading the file gives it back with new ids,
provided nothing of the manager it is read into survives. `Clear` leaves `mapInfo` and `mapAddr`
as they are, so that is not always so: the ids in use before must be those that the tried entries
of the file get, which are assigned as a whole, and the addresses known before must be in the file.
-/
namespace Zcashd.Guarantees.AddressFile

open Lib Source Source.AddrMan Abstract.AddrTables CAddrMan

variable {H : AddrHash} {m d : CAddrMan}

/-- What is written, and the manager that is read from it up to the last loop. -/
theorem unserialize_serialize (checked : Checked H m) (d : CAddrMan) (nVersion : Int32)
    (nKey : Uint256) :
    ∃ bytes r, m.serialize nVersion = .ok bytes ∧
      d.unserialize H nKey bytes = some (prune ((inOrder r.mapInfo.entries).map (·.1)) r) ∧
      Read H m d r ∧
      ((∀ nId info, d.mapInfo.lookup nId = some info → m.nNew ≤ nId ∧ nId < m.nNew + m.nTried) →
        ∀ slot, r.vvNew slot = (m.vvNew slot).map (number m)) := by
  obtain ⟨mapUnkIds, dumped, indexes⟩ := checked.dump_eq
  obtain ⟨b, based, built⟩ := checked.built_eq d nKey mapUnkIds
  have formed := checked.fileDump_wellFormed mapUnkIds
  have start := filled_start based.vvNew
  refine ⟨(fileDump m mapUnkIds).bytes nVersion, (d.clear nKey).built H (fileDump m mapUnkIds),
    ?_, ?_, ?_, ?_⟩
  · unfold serialize
    rw [dumped]
    rfl
  · unfold unserialize
    have reads := readDump_decodes nVersion formed []
    rw [List.append_nil] at reads
    rw [reads]
    rfl
  · rw [built]
    exact based.read checked (restoreSlots_filled _ _ start (based.known checked))
  · intro free _
    rw [built, restoreAllSlots_exact (based.fits checked free indexes) based.vvNew,
      fileTable_eq checked indexes]

/-- The file of a consistent manager, read into another consistent manager, gives a manager that
holds the same exactly if everything the other one held is overwritten. -/
theorem restored_iff_overwritten (H : AddrHash) (m d : CAddrMan) (nVersion : Int32) (nKey : Uint256)
    (consistent : m.check H = 0) (before : d.check H = 0) :
    ∃ bytes, m.serialize nVersion = .ok bytes ∧
      ((∃ r, d.unserialize H nKey bytes = some (.ok r) ∧ Restores H m r) ↔ Overwritten m d) := by
  obtain ⟨checked, key⟩ := check_eq_zero.mp consistent
  obtain ⟨checkedBefore, -⟩ := check_eq_zero.mp before
  obtain ⟨bytes, r, written, reads, read, table⟩ := unserialize_serialize checked d nVersion nKey
  refine ⟨bytes, written, ?_⟩
  rw [reads]
  by_cases free :
    ∀ nId info, d.mapInfo.lookup nId = some info → m.nNew ≤ nId ∧ nId < m.nNew + m.nTried
  · have checkedRead := checked_of_read checked read free (table free)
    have renumbered := renumbered_of_read checked read free (table free)
    have tight : ∀ nId info, r.mapInfo.lookup nId = some info → info.fInTried = true ∨
        info.nRefCount ≠ 0 := by
      intro _ info stored
      by_cases refs : info.nRefCount = 0
      · exact .inl ((checkedRead.inTried_iff stored).mpr refs)
      · exact .inr refs
    rw [prune_none tight]
    constructor
    · rintro ⟨_, same, restores⟩
      cases same
      refine ⟨free, ?_⟩
      intro addr nId known
      by_contra outside
      have unknown : ∀ entry ∈ file m, entry.2.toCNetAddr ≠ addr := fun entry member same =>
        outside ⟨entry.1, entry.2, checked.mem_file.mp member, same⟩
      obtain ⟨_, stored', same⟩ :=
        (restores.addresses addr nId).mp ((lookup_mapAddr_of_notMem read unknown).trans known)
      obtain ⟨entry, here, data, -⟩ := lookup_iff checked read free (table free) stored'
      exact unknown entry (List.mem_of_getElem? here)
        ((congrArg (·.toCNetAddr) data.data).symm.trans same)
    · intro overwritten
      refine ⟨r, rfl, check_eq_zero.mpr ⟨checkedRead, by rw [read.nKey]; exact key⟩,
        ⟨number m, renumbered⟩, ?_⟩
      intro addr nId
      constructor
      · intro known
        by_cases inFile : ∃ entry ∈ file m, entry.2.toCNetAddr = addr
        · obtain ⟨_, member, rfl⟩ := inFile
          obtain ⟨i, here⟩ := List.mem_iff_getElem?.mp member
          cases (lookup_mapAddr checked read here).symm.trans known
          obtain ⟨info, stored, data, -⟩ := lookup_number checked read free (table free) here
          exact ⟨info, stored, congrArg (·.toCNetAddr) data.data⟩
        · have unknown : ∀ entry ∈ file m, entry.2.toCNetAddr ≠ addr := fun entry member same =>
            inFile ⟨entry, member, same⟩
          rw [lookup_mapAddr_of_notMem read unknown] at known
          obtain ⟨nId', info, stored, same⟩ := overwritten.addresses addr nId known
          exact absurd same (unknown ⟨nId', info⟩ (checked.mem_file.mpr stored))
      · rintro ⟨info, stored, rfl⟩
        obtain ⟨entry, here, data, -⟩ := lookup_iff checked read free (table free) stored
        rw [show info.toCNetAddr = entry.2.toCNetAddr from congrArg (·.toCNetAddr) data.data]
        exact lookup_mapAddr checked read here
  · refine iff_of_false ?_ fun overwritten => free overwritten.ids
    rintro ⟨_, ran, restores⟩
    simp only [not_forall] at free
    obtain ⟨_, _, stored, left⟩ := free
    exact read.not_restores checked checkedBefore stored left (Option.some.inj ran)
      (check_eq_zero.mp restores.check).1

/-- A hash function that puts everything into the first bucket. -/
def firstBucket : AddrHash := ⟨fun _ => 0, fun _ => [], fun _ => true⟩

def someAddress : CAddress := ⟨⟨⟨Vector.replicate 16 1⟩, 8233⟩, 1, 5⟩

/-- A manager with one address. -/
theorem oneAddress :
    ∃ m info, (CAddrMan.empty 1).add firstBucket someAddress someAddress.toCNetAddr 0 10 0 = .ok m ∧
    m.mapInfo.lookup 0 = some info ∧ m.check firstBucket = 0 := by
  obtain ⟨m, ran, ok, key⟩ :=
    (add_ok (consistent_empty firstBucket 1) someAddress someAddress.toCNetAddr 0 10 0).resolve_left
    nofun
  have entry : ∃ m' info, (CAddrMan.empty 1).add firstBucket someAddress someAddress.toCNetAddr 0 10
      0 = .ok m' ∧ m'.mapInfo.lookup 0 = some info := ⟨_, _, rfl, rfl⟩
  obtain ⟨_, info, ran', held⟩ := entry
  cases ran.symm.trans ran'
  refine ⟨m, info, ran, held, check_eq_zero.mpr ⟨ok.checked, ?_⟩⟩
  rw [key]
  decide

/-- It is read back into an empty manager. -/
theorem restored_into_empty : ∃ m bytes r,
    (CAddrMan.empty 1).add firstBucket someAddress someAddress.toCNetAddr 0 10 0 = .ok m ∧
    m.serialize 0 = .ok bytes ∧
    (CAddrMan.empty 2).unserialize firstBucket 3 bytes = some (.ok r) ∧
    Restores firstBucket m r := by
  obtain ⟨m, -, ran, -, consistent⟩ := oneAddress
  have before := check_eq_zero.mpr ⟨(consistent_empty firstBucket 2).checked, by decide⟩
  obtain ⟨bytes, written, restored⟩ :=
    restored_iff_overwritten firstBucket m (.empty 2) 0 3 consistent before
  obtain ⟨r, reads, restores⟩ := restored.mpr ⟨nofun, nofun⟩
  exact ⟨m, bytes, r, ran, written, reads, restores⟩

/-- The file of an empty manager, read into one with an address, leaves a manager that is not
consistent. -/
theorem stale_entry_survives : ∃ d bytes,
    (CAddrMan.empty 1).add firstBucket someAddress someAddress.toCNetAddr 0 10 0 = .ok d ∧
    d.check firstBucket = 0 ∧ (CAddrMan.empty 2).check firstBucket = 0 ∧
    (CAddrMan.empty 2).serialize 0 = .ok bytes ∧
    ∀ r, d.unserialize firstBucket 3 bytes = some (.ok r) → r.check firstBucket ≠ 0 := by
  obtain ⟨d, _, ran, stored, before⟩ := oneAddress
  have checked := (consistent_empty firstBucket 2).checked
  obtain ⟨bytes, r, written, reads, read, -⟩ := unserialize_serialize checked d 0 3
  refine ⟨d, bytes, ran, before, check_eq_zero.mpr ⟨checked, by decide⟩, written, ?_⟩
  intro _ ran' after
  rw [reads] at ran'
  exact read.not_restores checked (check_eq_zero.mp before).1 stored (by decide)
    (Option.some.inj ran') (check_eq_zero.mp after).1

end Zcashd.Guarantees.AddressFile

import Zcashd.Abstract.AddrCheck
import Zcashd.Abstract.AddrOperations

/-!
# The address manager

After every run of operations with positive times, the tables, counts and indexes of the address
manager belong together and `Check_` finds nothing wrong but a null key. No assertion fails. The
run may end at an operation whose id or attempt counter overflows.
-/
namespace Zcashd.Guarantees.AddressManager

open Lib Source Source.AddrMan Abstract.AddrTables

/-- The tables, counts and indexes belong together. -/
structure WellKept (H : AddrHash) (m : CAddrMan) : Prop where
  nTried : m.nTried = m.mapInfo.entries.countP (fun entry => entry.2.fInTried)
  nNew : m.nNew = m.mapInfo.entries.countP (fun entry => !entry.2.fInTried)
  refs : ∀ nId info, m.mapInfo.lookup nId = some info → info.nRefCount = slotCount m.vvNew nId
  refsNew : ∀ nId info, m.mapInfo.lookup nId = some info → info.fInTried = false →
    1 ≤ info.nRefCount ∧ info.nRefCount ≤ ADDRMAN_NEW_BUCKETS_PER_ADDRESS
  refsTried : ∀ nId info, m.mapInfo.lookup nId = some info → info.fInTried = true →
    info.nRefCount = 0
  /-- A slot of the new table is the one that the occupant has in this bucket. -/
  newSlots : ∀ slot nId, m.vvNew slot = some nId →
    ∃ info, m.mapInfo.lookup nId = some info ∧ newSlot H m.nKey info.toCService slot.1 = slot
  /-- The tried entries are those in the tried table, each in the slot prescribed. -/
  triedSlots : ∀ slot nId, m.vvTried slot = some nId ↔
    ∃ info, m.mapInfo.lookup nId = some info ∧ info.fInTried = true ∧
      triedSlot H m.nKey info.toCService = slot
  addresses : ∀ addr nId, m.mapAddr.lookup addr = some nId ↔
    ∃ info, m.mapInfo.lookup nId = some info ∧ info.toCNetAddr = addr
  order : m.vRandom.Perm m.mapInfo.keys
  positions : ∀ nId info, m.mapInfo.lookup nId = some info →
    ∃ i, info.nRandomPos = some i ∧ m.vRandom[i]? = some nId

variable {H : AddrHash} {m : CAddrMan}

theorem weightSum_eq_countP (weight : CAddrInfo → Nat) (counts : CAddrInfo → Bool)
    (indicator : ∀ info, weight info = if counts info then 1 else 0)
    (store : AList (fun _ : Nat => CAddrInfo)) :
    weightSum weight store = store.entries.countP (fun entry => counts entry.2) := by
  unfold weightSum
  induction store.entries with
  | nil => rfl
  | cons _ _ ih =>
    rw [List.map_cons, List.sum_cons, ih, List.countP_cons, indicator, Nat.add_comm]

theorem wellKept_of_consistent (ok : Consistent H 0 [] m) : WellKept H m where
  nTried := by
    rw [ok.nTried, weightSum_eq_countP triedWeight (·.fInTried) fun _ => rfl]
  nNew := by
    rw [ok.nNew, Int.add_zero, weightSum_eq_countP newWeight (!·.fInTried)]
    intro info
    cases inTried : info.fInTried <;> simp [newWeight, inTried]
  refs := ok.refs
  refsNew nId info held := (ok.checked.entries nId info held).new
  refsTried nId info held inTried := ((ok.sound nId info held).tried inTried).2
  newSlots := ok.new
  triedSlots := ok.tried
  addresses addr nId := by
    have index := ok.index addr nId
    simpa [eq_comm] using index
  order := ok.toOrdered.perm_keys
  positions nId info held := ok.at_position held

theorem foldlM_ok {operations : List Operation} (ok : Consistent H 0 [] m)
    (pos : ∀ operation ∈ operations, operation.TimesPositive) :
    operations.foldlM (step H) m = .error .overflow ∨
      ∃ m', operations.foldlM (step H) m = .ok m' ∧ Consistent H 0 [] m' ∧ m'.nKey = m.nKey := by
  induction operations generalizing m with
  | nil => exact .inr ⟨m, rfl, ok, rfl⟩
  | cons _ _ ih =>
    rw [List.forall_mem_cons] at pos
    rw [List.foldlM_cons]
    rcases step_ok ok pos.1 with overflow | ⟨_, ran, ok1, key1⟩
    · left
      rw [overflow]
      rfl
    · rcases ih ok1 pos.2 with overflow | ⟨m', later, ok', key'⟩
      · exact .inl (ok_bind ran overflow)
      · exact .inr ⟨m', ok_bind ran later, ok', key'.trans key1⟩

/-- Runs of the address manager keep it consistent, whatever the hash function is and whatever
is drawn at random. -/
theorem operations_keep_tables (H : AddrHash) (nKey : Uint256) (operations : List Operation)
    (positive : ∀ operation ∈ operations, operation.TimesPositive) :
    operations.foldlM (step H) (.empty nKey) = .error .overflow ∨
      ∃ m, operations.foldlM (step H) (.empty nKey) = .ok m ∧ WellKept H m ∧
        m.check H = if nKey = 0 then -16 else 0 := by
  rcases foldlM_ok (consistent_empty H nKey) positive with overflow | ⟨m, ran, consistent, key⟩
  · exact .inl overflow
  · refine .inr ⟨m, ran, wellKept_of_consistent consistent, ?_⟩
    rw [consistent.checked.check_eq, key]
    rfl

/-- An address is added and tried once, and the ones known are asked for. -/
theorem operations_keep_tables_example :
    let H : AddrHash := ⟨fun _ => 0, fun _ => [], fun _ => true⟩
    let addr : CAddress := ⟨⟨⟨Vector.replicate 16 1⟩, 8233⟩, 1, 5⟩
    let operations : List Operation :=
      [.add addr addr.toCNetAddr 0 10 0, .attempt addr.toCService 10, .getAddr 20 (fun _ => 0)]
    ∃ m, operations.foldlM (step H) (.empty 1) = .ok m ∧ WellKept H m ∧ m.check H = 0 :=
  (operations_keep_tables _ 1 _ (by simp [Operation.TimesPositive])).resolve_left nofun

/-- With a null key `Check_` fails from the start. -/
theorem check_null_key :
    let H : AddrHash := ⟨fun _ => 0, fun _ => [], fun _ => true⟩
    [Operation.getAddr 20 (fun _ => 0)].foldlM (step H) (.empty 0) = .ok (.empty 0) ∧
      (CAddrMan.empty 0).check H = -16 :=
  ⟨rfl, (consistent_empty _ 0).checked.check_eq⟩

end Zcashd.Guarantees.AddressManager

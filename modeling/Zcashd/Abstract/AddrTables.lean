import Zcashd.Lib.InvertedIndex
import Zcashd.Lib.Threads
import Zcashd.Source.AddrMan

/-!
# The tables of the address manager

`Tables` says how the entries, the index by address, the two tables and the counts belong
together, and `Ordered` that the vector in random order and the positions do. Both hold between
the operations and inside them; `debit` is how far `nNew` is ahead of the entries that are not
tried, and the entries in `loose` are those that are neither tried nor in a new bucket.
-/
namespace Zcashd.Abstract.AddrTables

open Lib Source.AddrMan CAddrMan Function AList

/-- How many slots name the entry. -/
def slotCount {buckets : Nat} (table : Slot buckets → Option Nat) (nId : Nat) : Nat :=
  tally (fun occupant => if occupant = some nId then 1 else 0) table

section

variable {buckets : Nat} {table : Slot buckets → Option Nat} {slot : Slot buckets} {nId other : Nat}

theorem slotCount_update (table : Slot buckets → Option Nat) (slot : Slot buckets) (nId : Nat)
    (occupant : Option Nat) :
    slotCount (update table slot occupant) nId + (if table slot = some nId then 1 else 0) =
      slotCount table nId + (if occupant = some nId then 1 else 0) :=
  tally_update (fun occupant => if occupant = some nId then 1 else 0) table slot occupant

theorem slotCount_clear (used : table slot = some nId) :
    slotCount (update table slot none) nId + 1 = slotCount table nId := by
  simpa [used] using slotCount_update table slot nId none

theorem slotCount_clear_of_ne (used : table slot = some nId) (ne : other ≠ nId) :
    slotCount (update table slot none) other = slotCount table other := by
  simpa [used, Ne.symm ne] using slotCount_update table slot other none

theorem slotCount_set (free : table slot = none) :
    slotCount (update table slot (some nId)) nId = slotCount table nId + 1 := by
  simpa [free] using slotCount_update table slot nId (some nId)

theorem slotCount_set_of_ne (free : table slot = none) (ne : other ≠ nId) :
    slotCount (update table slot (some nId)) other = slotCount table other := by
  simpa [free, Ne.symm ne] using slotCount_update table slot other (some nId)

theorem slotCount_eq_zero : slotCount table nId = 0 ↔ ∀ slot, table slot ≠ some nId := by
  unfold slotCount
  rw [tally_eq_zero]
  simp

theorem slotCount_mono {table' : Slot buckets → Option Nat}
    (sub : ∀ slot, table slot = some nId → table' slot = some nId) :
    slotCount table nId ≤ slotCount table' nId := by
  apply Finset.sum_le_sum
  intro _ _
  grind

theorem slotCount_pos (used : table slot = some nId) : 0 < slotCount table nId := by
  rw [Nat.pos_iff_ne_zero]
  intro none
  exact slotCount_eq_zero.mp none slot used

end

/-- What `Check_` asks of an entry by itself; an entry on its way may have no references yet. -/
structure Sound (info : CAddrInfo) : Prop where
  refs : 0 ≤ info.nRefCount ∧ info.nRefCount ≤ ADDRMAN_NEW_BUCKETS_PER_ADDRESS
  lastTry : 0 ≤ info.nLastTry
  lastSuccess : 0 ≤ info.nLastSuccess
  tried : info.fInTried = true → info.nLastSuccess ≠ 0 ∧ info.nRefCount = 0

def triedWeight (info : CAddrInfo) : Nat := if info.fInTried then 1 else 0

def newWeight (info : CAddrInfo) : Nat := if info.fInTried then 0 else 1

structure Tables (H : AddrHash) (debit : Int) (m : CAddrMan) : Prop where
  fresh : ∀ nId info, m.mapInfo.lookup nId = some info → nId < m.nIdCount
  index : IsIndex (fun info : CAddrInfo => [info.toCNetAddr]) m.mapInfo m.mapAddr.lookup
  sound : ∀ nId info, m.mapInfo.lookup nId = some info → Sound info
  refs : ∀ nId info, m.mapInfo.lookup nId = some info → info.nRefCount = slotCount m.vvNew nId
  new : ∀ slot nId, m.vvNew slot = some nId →
    ∃ info, m.mapInfo.lookup nId = some info ∧ newSlot H m.nKey info.toCService slot.1 = slot
  tried : ∀ slot nId, m.vvTried slot = some nId ↔
    ∃ info, m.mapInfo.lookup nId = some info ∧ info.fInTried = true ∧
      triedSlot H m.nKey info.toCService = slot
  nTried : m.nTried = weightSum triedWeight m.mapInfo
  nNew : m.nNew = weightSum newWeight m.mapInfo + debit

/-- The position an entry has for itself in the vector. -/
def position (m : CAddrMan) (nId : Nat) : Option Nat := (m.mapInfo.lookup nId).bind (·.nRandomPos)

structure Ordered (m : CAddrMan) : Prop where
  located : Locates (position m) m.vRandom
  positioned : ∀ nId info, m.mapInfo.lookup nId = some info → info.nRandomPos.isSome

/-- An entry without its position. -/
def entry (m : CAddrMan) (nId : Nat) : Option CAddrInfo :=
  (m.mapInfo.lookup nId).map (fun info => { info with nRandomPos := none })

def Settled (loose : List Nat) (m : CAddrMan) : Prop :=
  ∀ nId info, entry m nId = some info → nId ∉ loose → info.fInTried = true ∨ 0 < info.nRefCount

structure Consistent (H : AddrHash) (debit : Int) (loose : List Nat) (m : CAddrMan) : Prop extends
    Tables H debit m, Ordered m where
  settled : Settled loose m

theorem tables_empty (H : AddrHash) (nKey : Source.Uint256) : Tables H 0 (.empty nKey) where
  fresh := nofun
  index := IsIndex.empty _
  sound := nofun
  refs := nofun
  new := nofun
  tried slot nId := by
    simp [CAddrMan.empty]
  nTried := rfl
  nNew := rfl

theorem consistent_empty (H : AddrHash) (nKey : Source.Uint256) :
    Consistent H 0 [] (.empty nKey) where
  toTables := tables_empty H nKey
  located nId i := by simp [position, CAddrMan.empty]
  positioned := nofun
  settled := nofun

section

variable {H : AddrHash} {debit : Int} {m : CAddrMan} {nId : Nat} {info info' : CAddrInfo}

section

variable (tables : Tables H debit m)
include tables

theorem Tables.reorder (vRandom : List Nat) : Tables H debit { m with vRandom } :=
  { tables with }

section

variable (held : m.mapInfo.lookup nId = some info)
include held

/-- One entry changes, keeping its address, and the tables and counts with it. -/
theorem Tables.change (sound : Sound info') (service : info'.toCService = info.toCService)
    {vvNew : Slot ADDRMAN_NEW_BUCKET_COUNT → Option Nat}
    (refs : info'.nRefCount = slotCount vvNew nId)
    (others : ∀ other, other ≠ nId → slotCount vvNew other = slotCount m.vvNew other)
    (new : ∀ slot other, vvNew slot = some other →
      m.vvNew slot = some other ∨ other = nId ∧ newSlot H m.nKey info.toCService slot.1 = slot)
    {vvTried : Slot ADDRMAN_TRIED_BUCKET_COUNT → Option Nat}
    (here : ∀ slot, vvTried slot = some nId ↔ info'.fInTried = true ∧
      triedSlot H m.nKey info.toCService = slot)
    (elsewhere : ∀ slot other, other ≠ nId →
      (vvTried slot = some other ↔ m.vvTried slot = some other))
    {nTried nNew debit' : Int}
    (countTried : nTried + triedWeight info = m.nTried + triedWeight info')
    (countNew : nNew + newWeight info + debit = m.nNew + newWeight info' + debit') :
    Tables H debit' { m.setInfo nId info' with vvNew, vvTried, nTried, nNew } where
  fresh other info'' hit := by
    have old := tables.fresh other
    simp only [setInfo] at hit ⊢
    grind
  index := tables.index.replace held (congrArg (fun s : CService => [s.toCNetAddr]) service)
  sound other info'' hit := by
    have old := tables.sound other
    simp only [setInfo] at hit
    grind
  refs other info'' hit := by
    have old := tables.refs other
    simp only [setInfo] at hit
    grind
  new slot other used := by
    have old := tables.new slot other
    simp only [setInfo]
    grind
  tried slot other := by
    have old := tables.tried slot other
    simp only [setInfo]
    by_cases same : other = nId
    · rw [same, here slot]
      grind
    · rw [elsewhere slot other same, old]
      grind
  nTried := by
    have replaced : weightSum triedWeight (m.mapInfo.insert nId info') + triedWeight info =
        weightSum triedWeight m.mapInfo + triedWeight info' := weightSum_replace held
    have counted := tables.nTried
    change nTried = weightSum triedWeight (m.mapInfo.insert nId info')
    omega
  nNew := by
    have replaced : weightSum newWeight (m.mapInfo.insert nId info') + newWeight info =
        weightSum newWeight m.mapInfo + newWeight info' := weightSum_replace held
    have counted := tables.nNew
    change nNew = weightSum newWeight (m.mapInfo.insert nId info') + debit'
    omega

theorem Tables.tried_iff (slot : Slot ADDRMAN_TRIED_BUCKET_COUNT) :
    m.vvTried slot = some nId ↔ info.fInTried = true ∧
    triedSlot H m.nKey info.toCService = slot := by
  rw [tables.tried slot nId]
  simp [held]

/-- Data of an entry that the tables do not depend on. -/
theorem Tables.assign (sound : Sound info') (service : info'.toCService = info.toCService)
    (refs : info'.nRefCount = info.nRefCount) (inTried : info'.fInTried = info.fInTried) :
    Tables H debit (m.setInfo nId info') := by
  apply tables.change held sound service (refs.trans (tables.refs nId info held)) (fun _ _ => rfl)
    (fun _ _ used => .inl used)
  · intro _
    rw [tables.tried_iff held, inTried]
  · intro _ _ _
    rfl
  · rw [triedWeight, triedWeight, inTried]
  · rw [newWeight, newWeight, inTried]

theorem Tables.move (nRandomPos : Option Nat) :
    Tables H debit (m.setInfo nId { info with nRandomPos }) := by
  have sound := tables.sound nId info held
  exact tables.assign held { sound with } rfl rfl rfl

variable {slot : Slot ADDRMAN_NEW_BUCKET_COUNT}

/-- A slot of the new table is cleared. -/
theorem Tables.release
    (used : m.vvNew slot = some nId) :
    Tables H debit { m.setInfo nId { info with nRefCount := info.nRefCount - 1 } with
      vvNew := update m.vvNew slot none } := by
  have inTable := tables.tried_iff held
  have counted := tables.refs nId info held
  have cleared := slotCount_clear used
  have sound := tables.sound nId info held
  have inNew : info.fInTried ≠ true := by
    intro inTried
    have none := (sound.tried inTried).2
    omega
  have sound' : Sound { info with nRefCount := info.nRefCount - 1 } := by
    refine ⟨?_, sound.lastTry, sound.lastSuccess, fun inTried => absurd inTried inNew⟩
    have bound := sound.refs
    dsimp only
    omega
  apply tables.change held sound' rfl (by dsimp only; omega)
    (fun _ ne => slotCount_clear_of_ne used ne)
  · intro _ _ _
    grind [update_apply]
  · exact inTable
  · intro _ _ _
    rfl
  · rfl
  · rfl

/-- An entry takes a free slot of the new table that its address prescribes. -/
theorem Tables.occupy (free : m.vvNew slot = none)
    (place : newSlot H m.nKey info.toCService slot.1 = slot) (inNew : info.fInTried = false)
    (below : info.nRefCount < ADDRMAN_NEW_BUCKETS_PER_ADDRESS) {nRefCount : Int}
    (more : nRefCount = info.nRefCount + 1) :
    Tables H debit { m.setInfo nId { info with nRefCount } with
      vvNew := update m.vvNew slot (some nId) } := by
  have inTable := tables.tried_iff held
  have counted := tables.refs nId info held
  have sound := tables.sound nId info held
  have sound' : Sound { info with nRefCount } := by
    refine ⟨?_, sound.lastTry, sound.lastSuccess, fun inTried => absurd inTried (by simp [inNew])⟩
    dsimp only
    omega
  apply tables.change held sound' rfl (by rw [slotCount_set free]; dsimp only; push_cast; omega)
    (fun _ ne => slotCount_set_of_ne free ne)
  · intro _ _ _
    grind [update_apply]
  · exact inTable
  · intro _ _ _
    rfl
  · rfl
  · rfl

/-- A tried entry leaves its slot. -/
theorem Tables.demote {slot : Slot ADDRMAN_TRIED_BUCKET_COUNT}
    (used : m.vvTried slot = some nId) :
    Tables H (debit - 1) { m.setInfo nId { info with fInTried := false } with
      vvTried := update m.vvTried slot none
      nTried := m.nTried - 1 } := by
  obtain ⟨inTried, _⟩ := (tables.tried_iff held slot).mp used
  have sound := tables.sound nId info held
  have sound' : Sound { info with fInTried := false } :=
    ⟨sound.refs, sound.lastTry, sound.lastSuccess, nofun⟩
  apply tables.change held sound' rfl (tables.refs nId info held) (fun _ _ => rfl)
    (fun _ _ used => .inl used)
  · intro other
    have old := tables.tried_iff held other
    grind [update_apply]
  · intro _ _ _
    grind [update_apply]
  · simp [triedWeight, inTried]
  · simp [newWeight, inTried, setInfo]

/-- An entry without references takes its slot of the tried table. -/
theorem Tables.promote
    (inNew : info.fInTried = false) (noRefs : info.nRefCount = 0) (ran : info.nLastSuccess ≠ 0)
    (free : m.vvTried (triedSlot H m.nKey info.toCService) = none) :
    Tables H (debit + 1) { m.setInfo nId { info with fInTried := true } with
      vvTried := update m.vvTried (triedSlot H m.nKey info.toCService) (some nId)
      nTried := m.nTried + 1 } := by
  have sound := tables.sound nId info held
  have sound' : Sound { info with fInTried := true } :=
    ⟨sound.refs, sound.lastTry, sound.lastSuccess, fun _ => ⟨ran, noRefs⟩⟩
  apply tables.change held sound' rfl (tables.refs nId info held) (fun _ _ => rfl)
    (fun _ _ used => .inl used)
  · intro other
    have old := tables.tried_iff held other
    grind [update_apply]
  · intro _ _ _
    grind [update_apply]
  · simp [triedWeight, inNew]
  · simp [newWeight, inNew, setInfo]
    omega

end

theorem Tables.count {nNew debit' : Int} (counted : nNew - m.nNew = debit' - debit) :
    Tables H debit' { m with nNew } :=
  { tables with
    nNew := by
      have old := tables.nNew
      dsimp only
      omega }

theorem Tables.lookup_nIdCount : m.mapInfo.lookup m.nIdCount = none := by
  cases hit : m.mapInfo.lookup m.nIdCount with
  | none => rfl
  | some _ => exact absurd (tables.fresh _ _ hit) (Nat.lt_irrefl _)

/-- `Create`: the new entry is not counted yet. -/
theorem Tables.create (unknown : m.mapAddr.lookup info.toCNetAddr = none) (sound : Sound info)
    (inNew : info.fInTried = false) (noRefs : info.nRefCount = 0) (vRandom : List Nat) :
    Tables H (debit - 1) { m with
      nIdCount := m.nIdCount + 1
      mapInfo := m.mapInfo.insert m.nIdCount info
      mapAddr := m.mapAddr.insert info.toCNetAddr m.nIdCount
      vRandom } := by
  have absent := tables.lookup_nIdCount
  have unnamed : ∀ slot, m.vvNew slot ≠ some m.nIdCount := by
    intro slot used
    obtain ⟨_, hit, -⟩ := tables.new slot _ used
    cases absent.symm.trans hit
  constructor
  · intro nId _ _
    have old := tables.fresh nId
    grind
  · apply tables.index.insert absent
    all_goals grind
  · intro nId _ _
    have old := tables.sound nId
    grind
  · intro nId _ _
    have old := tables.refs nId
    have none := slotCount_eq_zero.mpr unnamed
    grind
  · intro slot nId _
    have old := tables.new slot nId
    grind
  · intro slot nId
    rw [tables.tried slot nId]
    grind
  · have inserted : weightSum triedWeight (m.mapInfo.insert m.nIdCount info) =
        triedWeight info + weightSum triedWeight m.mapInfo :=
      weightSum_insert absent
    have none : triedWeight info = 0 := by simp [triedWeight, inNew]
    have counted := tables.nTried
    dsimp only
    omega
  · have inserted : weightSum newWeight (m.mapInfo.insert m.nIdCount info) =
        newWeight info + weightSum newWeight m.mapInfo :=
      weightSum_insert absent
    have one : newWeight info = 1 := by simp [newWeight, inNew]
    have counted := tables.nNew
    dsimp only
    omega

/-- The end of `Delete`. -/
theorem Tables.remove (held : m.mapInfo.lookup nId = some info)
    (inNew : info.fInTried = false) (noRefs : info.nRefCount = 0) (vRandom : List Nat) :
    Tables H debit { m with
      vRandom
      mapAddr := m.mapAddr.erase info.toCNetAddr
      mapInfo := m.mapInfo.erase nId
      nNew := m.nNew - 1 } := by
  have unnamed : ∀ slot, m.vvNew slot ≠ some nId := by
    apply slotCount_eq_zero.mp
    have counted := tables.refs nId info held
    omega
  have kept : ∀ other info', (m.mapInfo.erase nId).lookup other = some info' →
      m.mapInfo.lookup other = some info' := by
    intro _ _ _
    grind
  constructor
  · intro other info' hit
    exact tables.fresh other info' (kept other info' hit)
  · apply tables.index.erase held
    all_goals grind
  · grind [tables.sound]
  · grind [tables.refs]
  · intro slot other used
    have old := tables.new slot other used
    grind
  · intro slot other
    rw [tables.tried slot other]
    grind
  · have erased : weightSum triedWeight m.mapInfo = triedWeight info + weightSum triedWeight
        (m.mapInfo.erase nId) :=
      weightSum_erase held
    have none : triedWeight info = 0 := by simp [triedWeight, inNew]
    have counted := tables.nTried
    dsimp only
    omega
  · have erased :
        weightSum newWeight m.mapInfo = newWeight info + weightSum newWeight
        (m.mapInfo.erase nId) :=
      weightSum_erase held
    have one : newWeight info = 1 := by simp [newWeight, inNew]
    have counted := tables.nNew
    dsimp only
    omega

end

/-! The vector -/

theorem position_of_lookup (held : m.mapInfo.lookup nId = some info) :
    position m nId = info.nRandomPos := by
  rw [position, held]
  rfl

theorem Ordered.lookup_at (ordered : Ordered m) {i : Nat} (here : m.vRandom[i]? = some nId) :
    ∃ info, m.mapInfo.lookup nId = some info ∧ info.nRandomPos = some i :=
  Option.bind_eq_some_iff.mp ((ordered.located nId i).mpr here)

theorem Ordered.at_position (ordered : Ordered m) (held : m.mapInfo.lookup nId = some info) :
    ∃ i, info.nRandomPos = some i ∧ m.vRandom[i]? = some nId := by
  obtain ⟨i, there⟩ := Option.isSome_iff_exists.mp (ordered.positioned nId info held)
  exact ⟨i, there, (ordered.located nId i).mp ((position_of_lookup held).trans there)⟩

variable {m' : CAddrMan} (ordered : Ordered m)
include ordered

/-- An entry is written again with the position it has. -/
theorem Ordered.assign (held : m.mapInfo.lookup nId = some info)
    (out : m'.mapInfo = m.mapInfo.insert nId info') (same : info'.nRandomPos = info.nRandomPos)
    (vector : m'.vRandom = m.vRandom) : Ordered m' := by
  have unmoved : position m' = position m := by
    funext other
    unfold position
    rw [out]
    rw [lookup_insert_eq]
    split
    · rename_i isId
      rw [isId, held]
      exact same
    · rfl
  constructor
  · rw [unmoved, vector]
    exact ordered.located
  · intro other _ _
    have old := ordered.positioned other
    grind

theorem Ordered.create (absent : m.mapInfo.lookup nId = none)
    (last : info.nRandomPos = some m.vRandom.length) (out : m'.mapInfo = m.mapInfo.insert nId info)
    (vector : m'.vRandom = m.vRandom ++ [nId]) : Ordered m' := by
  constructor
  · rw [vector]
    apply ordered.located.append
    · rw [← ordered.located.isSome_iff, position, absent]
      simp
    · rw [position, out, lookup_insert]
      exact last
    · intro _ ne
      rw [position, position, out, lookup_insert_ne ne]
  · intro other _ _
    have old := ordered.positioned other
    grind

theorem Ordered.swap {i j : Nat} (first : m.vRandom[i]? = some nId)
    (second : m.vRandom[j]? = some other) (here : info.nRandomPos = some j)
    (there : info'.nRandomPos = some i) (apart : other ≠ nId)
    (out : m'.mapInfo = (m.mapInfo.insert nId info).insert other info')
    (vector : m'.vRandom = (m.vRandom.set i other).set j nId) :
    Ordered m' := by
  have found1 : m'.mapInfo.lookup nId = some info := by
    rw [out, lookup_insert_ne (Ne.symm apart), lookup_insert]
  have found2 : m'.mapInfo.lookup other = some info' := by
    rw [out, lookup_insert]
  have elsewhere : ∀ o, o ≠ nId → o ≠ other → m'.mapInfo.lookup o = m.mapInfo.lookup o := by
    intro o notFirst notSecond
    rw [out, lookup_insert_ne notSecond, lookup_insert_ne notFirst]
  constructor
  · rw [vector]
    apply ordered.located.swap first second
    · rw [position_of_lookup found1, here]
    · rw [position_of_lookup found2, there]
    · intro o notFirst notSecond
      rw [position, position, elsewhere o notFirst notSecond]
  · intro o _ _
    have old := ordered.positioned o
    grind

theorem Ordered.pop {front : List Nat} (vector : m.vRandom = front ++ [nId])
    (erased : m'.mapInfo = m.mapInfo.erase nId) (shorter : m'.vRandom = front) : Ordered m' := by
  constructor
  · rw [shorter]
    have located := ordered.located
    rw [vector] at located
    apply located.pop
    · rw [position, erased, lookup_erase]
      rfl
    · intro _ ne
      rw [position, position, erased, lookup_erase_ne ne]
  · intro other _ _
    have old := ordered.positioned other
    grind

end

end Zcashd.Abstract.AddrTables

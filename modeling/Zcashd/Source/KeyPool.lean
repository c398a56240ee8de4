import Zcashd.Lib.InvertedIndex
import Zcashd.Lib.Runs

/-!
The key pool of the wallet (`src/wallet/wallet.cpp:3924-4025`): `setKeyPool` has the indexes of
the keys that can be handed out, and the wallet database has a record with the key for each
index. A reservation takes its index out of the set and leaves the record where it is.

`newKey` is the sequence of keys that `GenerateNewKey` returns. Database writes succeed, the
wallet is file backed, and the time of a record is left out. `locked` is `IsLocked()` and
`keypool` is `GetArg("-keypool", DEFAULT_KEYPOOL_SIZE)` at the time of the call.
-/
namespace Zcashd.Source

open Lib List AList

structure KeyPool (K : Type) where
  setKeyPool : Finset Int
  /-- The `pool` records of the wallet database. -/
  records : AList (fun _ : Int => K)
  /-- The keys of the key store. -/
  keys : List K
  /-- How often `GenerateNewKey` was called. -/
  generated : Nat

namespace KeyPool

variable {K : Type} (newKey : Nat → K)

/-- Generates a key and writes it to the record of the index, which enters the set. -/
def writePool (nIndex : Int) (s : KeyPool K) : KeyPool K where
  setKeyPool := insert nIndex s.setKeyPool
  records := s.records.insert nIndex (newKey s.generated)
  keys := newKey s.generated :: s.keys
  generated := s.generated + 1

/-- One above the last index of the set. -/
def nEnd (s : KeyPool K) : Int := if h : s.setKeyPool.Nonempty then s.setKeyPool.max' h + 1 else 1

/-- The loop of `NewKeyPool`. `i` is an `int`, so the source has no defined behaviour for a pool of
more than `2 ^ 31 - 1` keys. -/
def writeNew : Nat → KeyPool K → KeyPool K
  | 0, s => s
  | i + 1, s => (writeNew i s).writePool newKey (i + 1)

def newKeyPool (locked : Bool) (keypool : Int) (s : KeyPool K) : Bool × KeyPool K :=
  -- an index without a record has nothing to erase
  let erased := s.records.keys.filter (fun nIndex => nIndex ∈ s.setKeyPool)
  let s : KeyPool K :=
    { s with
      records := erased.foldl (fun records nIndex => records.erase nIndex) s.records
      setKeyPool := ∅ }
  if locked then (false, s) else (true, writeNew newKey (max keypool 0).toNat s)

/-- `nTargetSize + 1`, of which both are `unsigned int`. -/
def fullSize (keypool : Int) (kpSize : BitVec 32) : Nat :=
  let nTargetSize : BitVec 32 := if 0 < kpSize then kpSize else BitVec.ofInt 32 (max keypool 0)
  (nTargetSize + 1).toNat

/-- The loop of `TopUpKeyPool`: each round adds an index, so it has no more rounds than the pool is
to have keys. -/
def topUp (size : Nat) : Nat → KeyPool K → KeyPool K
  | 0, s => s
  | fuel + 1, s =>
    if s.setKeyPool.card < size then topUp size fuel (s.writePool newKey s.nEnd) else s

def topUpKeyPool (locked : Bool) (keypool : Int) (kpSize : BitVec 32) (s : KeyPool K) :
    Bool × KeyPool K :=
  if locked then (false, s)
  else (true, topUp newKey (fullSize keypool kpSize) (fullSize keypool kpSize) s)

/-- `none` is the index `-1`, with no key; an error is what the call throws. -/
def reserveKeyFromKeyPool [DecidableEq K] (locked : Bool) (keypool : Int) (s : KeyPool K) :
    Except String (Option (Int × K)) × KeyPool K :=
  let s := if locked then s else (s.topUpKeyPool newKey locked keypool 0).2
  if h : s.setKeyPool.Nonempty then
    -- get the oldest key
    let nIndex := s.setKeyPool.min' h
    let s := { s with setKeyPool := s.setKeyPool.erase nIndex }
    match s.records.lookup nIndex with
    | none => (.error "ReserveKeyFromKeyPool(): read failed", s)
    | some vchPubKey =>
      if vchPubKey ∈ s.keys then (.ok (some (nIndex, vchPubKey)), s)
      else (.error "ReserveKeyFromKeyPool(): unknown key in key pool", s)
  else (.ok none, s)

def keepKey (nIndex : Int) (s : KeyPool K) : KeyPool K :=
  { s with records := s.records.erase nIndex }

def returnKey (nIndex : Int) (s : KeyPool K) : KeyPool K :=
  { s with setKeyPool := insert nIndex s.setKeyPool }

variable {newKey} {nIndex : Int} {s : KeyPool K} {size fuel : Nat}

/-- The indexes behind the last one of the set that a pool of the size is short of. -/
def Lacks (s : KeyPool K) (size : Nat) (nIndex : Int) : Prop :=
  s.nEnd ≤ nIndex ∧ nIndex < s.nEnd + (size - s.setKeyPool.card : Nat)

instance (s : KeyPool K) (size : Nat) (nIndex : Int) : Decidable (s.Lacks size nIndex) :=
  inferInstanceAs (Decidable (_ ∧ _))

theorem lt_nEnd (inside : nIndex ∈ s.setKeyPool) : nIndex < s.nEnd := by
  have last := Finset.le_max' _ _ inside
  rw [nEnd, dif_pos ⟨nIndex, inside⟩]
  omega

theorem nEnd_writePool (newKey : Nat → K) (s : KeyPool K) :
    (s.writePool newKey s.nEnd).nEnd = s.nEnd + 1 := by
  have last : (insert s.nEnd s.setKeyPool).max' (Finset.insert_nonempty ..) = s.nEnd := by
    rw [Finset.max'_eq_iff]
    refine ⟨Finset.mem_insert_self .., fun i inside => ?_⟩
    rcases Finset.mem_insert.mp inside with rfl | old
    · exact le_rfl
    · exact le_of_lt (lt_nEnd old)
  have some : (s.writePool newKey s.nEnd).setKeyPool.Nonempty := Finset.insert_nonempty ..
  rw [nEnd, dif_pos some]
  exact congrArg (· + 1) last

theorem card_writePool (newKey : Nat → K) (s : KeyPool K) :
    (s.writePool newKey s.nEnd).setKeyPool.card = s.setKeyPool.card + 1 :=
  Finset.card_insert_of_notMem fun inside => absurd (lt_nEnd inside) (lt_irrefl _)

theorem not_lacks (full : size ≤ s.setKeyPool.card) : ¬ s.Lacks size nIndex := by
  unfold Lacks
  omega

/-- A round takes the first of the indexes. -/
theorem lacks_writePool (newKey : Nat → K) (short : s.setKeyPool.card < size) :
    s.Lacks size nIndex ↔ nIndex = s.nEnd ∨ (s.writePool newKey s.nEnd).Lacks size nIndex := by
  rw [Lacks, Lacks, nEnd_writePool, card_writePool]
  omega

/-- The loop adds what the pool is short of. -/
theorem mem_topUp (enough : size ≤ s.setKeyPool.card + fuel) :
    nIndex ∈ (topUp newKey size fuel s).setKeyPool ↔ nIndex ∈ s.setKeyPool ∨
    s.Lacks size nIndex := by
  induction fuel generalizing s with
  | zero => simp [topUp, not_lacks enough]
  | succ _ ih =>
    unfold topUp
    split
    · rename_i short
      rw [ih (by rw [card_writePool]; omega), lacks_writePool newKey short, ← or_assoc]
      exact or_congr_left (Finset.mem_insert.trans or_comm)
    · rename_i full
      simp [not_lacks (Nat.not_lt.mp full)]

theorem mem_topUpKeyPool {keypool : Int} {kpSize : BitVec 32}
    (lacks : s.Lacks (fullSize keypool kpSize) nIndex) :
    nIndex ∈ (s.topUpKeyPool newKey false keypool kpSize).2.setKeyPool :=
  (mem_topUp (Nat.le_add_left ..)).mpr (.inr lacks)

theorem mem_writeNew {nKeys : Nat} (inside : 1 ≤ nIndex ∧ nIndex ≤ nKeys) :
    nIndex ∈ (writeNew newKey nKeys s).setKeyPool := by
  induction nKeys with
  | zero => omega
  | succ i ih =>
    rw [writeNew, writePool, Finset.mem_insert]
    by_cases last : nIndex = i + 1
    · exact .inl last
    · exact .inr (ih (by omega))

/-- Every index of the set has a record with a known key. -/
def Stocked (s : KeyPool K) : Prop :=
  ∀ nIndex ∈ s.setKeyPool, ∃ vchPubKey, s.records.lookup nIndex = some vchPubKey ∧
    vchPubKey ∈ s.keys

theorem Stocked.writePool (stocked : s.Stocked) (nIndex : Int) :
    (s.writePool newKey nIndex).Stocked := by
  intro i inside
  by_cases same : i = nIndex
  · subst same
    exact ⟨_, lookup_insert _, mem_cons_self⟩
  · rcases Finset.mem_insert.mp inside with equal | old
    · exact absurd equal same
    · obtain ⟨vchPubKey, record, known⟩ := stocked i old
      exact ⟨vchPubKey, (lookup_insert_ne same).trans record, mem_cons_of_mem _ known⟩

theorem Stocked.topUp (stocked : s.Stocked) : (KeyPool.topUp newKey size fuel s).Stocked := by
  induction fuel generalizing s with
  | zero => exact stocked
  | succ _ ih =>
    unfold KeyPool.topUp
    split
    · exact ih (stocked.writePool _)
    · exact stocked

variable {locked : Bool} {keypool : Int} {kpSize : BitVec 32}

theorem Stocked.topUpKeyPool (stocked : s.Stocked) :
    (s.topUpKeyPool newKey locked keypool kpSize).2.Stocked := by
  unfold KeyPool.topUpKeyPool
  split
  · exact stocked
  · exact stocked.topUp

/-- From a stocked pool the call never throws: it takes an index of the refilled set, or there is
none. -/
theorem reserveKeyFromKeyPool_spec [DecidableEq K] (newKey : Nat → K) (stocked : s.Stocked)
    (locked : Bool) (keypool : Int) :
    ∃ wallet, wallet = (s.topUpKeyPool newKey locked keypool 0).2 ∧
      (wallet.setKeyPool = ∅ ∧ s.reserveKeyFromKeyPool newKey locked keypool = (.ok none, wallet) ∨
      ∃ nIndex vchPubKey, nIndex ∈ wallet.setKeyPool ∧
        wallet.records.lookup nIndex = some vchPubKey ∧
        s.reserveKeyFromKeyPool newKey locked keypool = (.ok (some (nIndex, vchPubKey)),
          { wallet with setKeyPool := wallet.setKeyPool.erase nIndex })) := by
  have refilled : (s.topUpKeyPool newKey locked keypool 0).2.Stocked := stocked.topUpKeyPool
  have same : (if locked then s else (s.topUpKeyPool newKey locked keypool 0).2) =
      (s.topUpKeyPool newKey locked keypool 0).2 := by
    cases locked <;> rfl
  refine ⟨_, rfl, ?_⟩
  rw [reserveKeyFromKeyPool, same]
  generalize (s.topUpKeyPool newKey locked keypool 0).2 = wallet at refilled ⊢
  dsimp only
  split
  · rename_i ne
    have inside := wallet.setKeyPool.min'_mem ne
    obtain ⟨vchPubKey, record, known⟩ := refilled _ inside
    refine .inr ⟨_, vchPubKey, inside, record, ?_⟩
    rw [record]
    dsimp only
    rw [if_pos known]
  · rename_i empty
    exact .inl ⟨Finset.not_nonempty_iff_eq_empty.mp empty, rfl⟩

end KeyPool

/-! Reservations -/

/-- A wallet with the reservations that are outstanding and the keys that were kept. -/
structure Reservations (K : Type) where
  wallet : KeyPool K
  outstanding : List (Int × K)
  kept : List K

namespace Reservations

variable {K : Type}

/-- Outstanding reservations and the set share no index; each index has its record, no two
records have the same key, and none has a key that was kept. All keys are in the key store, and
the keys to come are not. -/
structure Sound (newKey : Nat → K) (s : Reservations K) : Prop where
  indexes : (s.outstanding.map Prod.fst).Nodup
  taken : ∀ r ∈ s.outstanding, r.1 ∉ s.wallet.setKeyPool
  reserved : ∀ r ∈ s.outstanding, s.wallet.records.lookup r.1 = some r.2
  stored : ∀ nIndex ∈ s.wallet.setKeyPool, nIndex ∈ s.wallet.records
  distinct : ∀ i j key, s.wallet.records.lookup i = some key →
    s.wallet.records.lookup j = some key → i = j
  unkept : ∀ i key, s.wallet.records.lookup i = some key → key ∉ s.kept
  kept : s.kept.Nodup
  recordKeys : ∀ i key, s.wallet.records.lookup i = some key → key ∈ s.wallet.keys
  keptKeys : ∀ key ∈ s.kept, key ∈ s.wallet.keys
  fresh : ∀ n, s.wallet.generated ≤ n → newKey n ∉ s.wallet.keys

variable {newKey : Nat → K} {s s' : Reservations K}

section

variable (injective : Function.Injective newKey) (sound : Sound newKey s)
include injective sound

/-- A new key is written to an index that is not reserved. -/
theorem Sound.writePool (spared : ∀ r ∈ s.outstanding, r.1 ≠ nIndex) :
    Sound newKey { s with wallet := s.wallet.writePool newKey nIndex } := by
  cases sound
  constructor <;> simp only [KeyPool.writePool, mem_insert, mem_cons, Finset.mem_insert] <;> grind

theorem Sound.topUp (spared : ∀ r ∈ s.outstanding, ¬ s.wallet.Lacks size r.1) :
    Sound newKey { s with wallet := KeyPool.topUp newKey size fuel s.wallet } := by
  induction fuel generalizing s with
  | zero => exact sound
  | succ _ ih =>
    unfold KeyPool.topUp
    split
    · rename_i short
      have lacks := fun r mem => (KeyPool.lacks_writePool newKey short).not.mp (spared r mem)
      exact ih (sound.writePool injective fun r mem same => lacks r mem (.inl same))
        fun r mem next => lacks r mem (.inr next)
    · exact sound

theorem Sound.topUpKeyPool {locked : Bool} {keypool : Int} {kpSize : BitVec 32}
    (spared : ∀ r ∈ s.outstanding,
      ¬ (locked = false ∧ s.wallet.Lacks (KeyPool.fullSize keypool kpSize) r.1)) :
    Sound newKey { s with wallet := (s.wallet.topUpKeyPool newKey locked keypool kpSize).2 } := by
  cases locked with
  | false => exact sound.topUp injective fun r mem lacks => spared r mem ⟨rfl, lacks⟩
  | true => exact sound

theorem Sound.writeNew {nKeys : Nat} (spared : ∀ r ∈ s.outstanding, ¬ (1 ≤ r.1 ∧ r.1 ≤ nKeys)) :
    Sound newKey { s with wallet := KeyPool.writeNew newKey nKeys s.wallet } := by
  induction nKeys with
  | zero => exact sound
  | succ i ih =>
    have old := ih fun r mem inside => spared r mem (by omega)
    exact old.writePool injective fun r mem same => spared r mem (by omega)

end

/-- Records go, and indexes with them. -/
theorem Sound.narrow {records : AList (fun _ : Int => K)} {setKeyPool : Finset Int}
    (sound : Sound newKey s) (subset : setKeyPool ⊆ s.wallet.setKeyPool)
    (fewer : ∀ i key, records.lookup i = some key → s.wallet.records.lookup i = some key)
    (reserved : ∀ r ∈ s.outstanding, records.lookup r.1 = s.wallet.records.lookup r.1)
    (stored : ∀ i ∈ setKeyPool, i ∈ records) :
    Sound newKey { s with wallet := { s.wallet with records := records, setKeyPool := setKeyPool } }
      where
  indexes := sound.indexes
  taken r mem inside := sound.taken r mem (subset inside)
  reserved r mem := (reserved r mem).trans (sound.reserved r mem)
  stored := stored
  distinct i j key first second := sound.distinct i j key (fewer i key first) (fewer j key second)
  unkept i key record := sound.unkept i key (fewer i key record)
  kept := sound.kept
  recordKeys i key record := sound.recordKeys i key (fewer i key record)
  keptKeys := sound.keptKeys
  fresh := sound.fresh

variable {locked : Bool} {keypool : Int}

theorem Sound.newKeyPool (injective : Function.Injective newKey) (sound : Sound newKey s)
    (spared : ∀ r ∈ s.outstanding, ¬ (locked = false ∧ 1 ≤ r.1 ∧ r.1 ≤ keypool)) :
    Sound newKey { s with wallet := (s.wallet.newKeyPool newKey locked keypool).2 } := by
  unfold KeyPool.newKeyPool
  have cleared : Sound newKey { s with wallet := { s.wallet with
      records := (s.wallet.records.keys.filter (fun nIndex => nIndex ∈ s.wallet.setKeyPool)).foldl
        (fun records nIndex => records.erase nIndex) s.wallet.records
      setKeyPool := ∅ } } := by
    apply sound.narrow (Finset.empty_subset _)
    · intro i _ record
      rw [lookup_foldl_erase (fun nIndex : Int => nIndex)] at record
      grind
    · intro r _
      rw [lookup_foldl_erase (fun nIndex : Int => nIndex)]
      grind [sound.taken]
    · simp
  split
  · exact cleared
  · rename_i unlocked
    exact cleared.writeNew injective fun r mem inside =>
      spared r mem ⟨Bool.eq_false_of_not_eq_true unlocked, by omega⟩

variable {r : Int × K}

section

variable (sound : Sound newKey s)
include sound

section

variable (held : r ∈ s.outstanding)
include held

/-- The reservations that are left when one is given up have other indexes. -/
theorem Sound.others [DecidableEq K] {other : Int × K}
    (left : other ∈ s.outstanding.erase r) : other ∈ s.outstanding ∧ other.1 ≠ r.1 := by
  obtain ⟨ne, mem⟩ := (List.Nodup.of_map _ sound.indexes).mem_erase_iff.mp left
  refine ⟨mem, ?_⟩
  intro same
  exact ne (inj_on_of_nodup_map sound.indexes mem held same)

theorem Sound.keepKey [DecidableEq K] :
    Sound newKey ⟨s.wallet.keepKey r.1, s.outstanding.erase r, r.2 :: s.kept⟩ := by
  have others : ∀ other ∈ s.outstanding.erase r, other ∈ s.outstanding ∧ other.1 ≠ r.1 :=
    fun _ => sound.others held
  cases sound
  constructor <;> simp only [KeyPool.keepKey, mem_erase, mem_cons, nodup_cons] <;> grind

theorem Sound.returnKey [DecidableEq K] :
    Sound newKey
      { s with wallet := s.wallet.returnKey r.1, outstanding := s.outstanding.erase r } := by
  have others : ∀ other ∈ s.outstanding.erase r, other ∈ s.outstanding ∧ other.1 ≠ r.1 :=
    fun _ => sound.others held
  have back : r.1 ∈ s.wallet.records :=
    lookup_isSome.mp (Option.isSome_iff_exists.mpr ⟨r.2, sound.reserved r held⟩)
  cases sound
  constructor <;> simp only [KeyPool.returnKey, Finset.mem_insert] <;> grind

end

theorem Sound.reserve {vchPubKey : K} (inside : nIndex ∈ s.wallet.setKeyPool)
    (record : s.wallet.records.lookup nIndex = some vchPubKey) :
    Sound newKey { s with
      wallet := { s.wallet with setKeyPool := s.wallet.setKeyPool.erase nIndex },
      outstanding := (nIndex, vchPubKey) :: s.outstanding } := by
  cases sound
  constructor <;> simp only [map_cons, nodup_cons, mem_cons, mem_map, Finset.mem_erase] <;> grind

theorem Sound.stocked : s.wallet.Stocked := by
  intro nIndex inside
  obtain ⟨vchPubKey, record⟩ :=
    Option.isSome_iff_exists.mp (lookup_isSome.mpr (sound.stored nIndex inside))
  exact ⟨vchPubKey, record, sound.recordKeys nIndex vchPubKey record⟩

/-- No two reservations that are outstanding or kept have the same key. -/
theorem Sound.exclusive : (s.outstanding.map Prod.snd ++ s.kept).Nodup := by
  refine nodup_append.mpr ⟨?_, sound.kept, ?_⟩
  · apply List.Nodup.map_on _ (List.Nodup.of_map _ sound.indexes)
    intro r held other mem same
    have second := sound.reserved other mem
    rw [← same] at second
    exact inj_on_of_nodup_map sound.indexes held mem
      (sound.distinct _ _ _ (sound.reserved r held) second)
  · intro _ reserved _ mem same
    obtain ⟨r, held, rfl⟩ := mem_map.mp reserved
    rw [← same] at mem
    exact sound.unkept r.1 r.2 (sound.reserved r held) mem

end

/-! Runs -/

inductive Call (K : Type) where
  | reserveKeyFromKeyPool (locked : Bool) (keypool : Int)
  | keepKey (reservation : Int × K)
  | returnKey (reservation : Int × K)
  | topUpKeyPool (locked : Bool) (keypool : Int) (kpSize : BitVec 32)
  | newKeyPool (locked : Bool) (keypool : Int)

variable [DecidableEq K] (newKey : Nat → K)

/-- A reservation is kept or returned once; the run ends where the wallet throws. -/
def step (s : Reservations K) : Call K → Option (Reservations K)
  | .reserveKeyFromKeyPool locked keypool =>
    match s.wallet.reserveKeyFromKeyPool newKey locked keypool with
    | (.error _, _) => none
    | (.ok none, wallet) => some { s with wallet := wallet }
    | (.ok (some reservation), wallet) =>
      some { s with wallet := wallet, outstanding := reservation :: s.outstanding }
  | .keepKey reservation =>
    if reservation ∈ s.outstanding then
      some ⟨s.wallet.keepKey reservation.1, s.outstanding.erase reservation,
        reservation.2 :: s.kept⟩
    else none
  | .returnKey reservation =>
    if reservation ∈ s.outstanding then
      some { s with
        wallet := s.wallet.returnKey reservation.1, outstanding := s.outstanding.erase reservation }
    else none
  | .topUpKeyPool locked keypool kpSize =>
    some { s with wallet := (s.wallet.topUpKeyPool newKey locked keypool kpSize).2 }
  | .newKeyPool locked keypool =>
    some { s with wallet := (s.wallet.newKeyPool newKey locked keypool).2 }

/-- The indexes that a call on an unlocked wallet gives new records: a refill those behind the last
one of the set, up to the target size, and `NewKeyPool` those from 1 on. -/
def Numbers (wallet : KeyPool K) (nIndex : Int) : Call K → Prop
  | .reserveKeyFromKeyPool locked keypool =>
    locked = false ∧ wallet.Lacks (KeyPool.fullSize keypool 0) nIndex
  | .topUpKeyPool locked keypool kpSize =>
    locked = false ∧ wallet.Lacks (KeyPool.fullSize keypool kpSize) nIndex
  | .newKeyPool locked keypool => locked = false ∧ 1 ≤ nIndex ∧ nIndex ≤ keypool
  | .keepKey _ | .returnKey _ => False

instance (wallet : KeyPool K) (nIndex : Int) : (c : Call K) → Decidable (Numbers wallet nIndex c)
  | .reserveKeyFromKeyPool _ _ | .topUpKeyPool _ _ _ =>
    inferInstanceAs (Decidable (_ = false ∧ wallet.Lacks _ nIndex))
  | .newKeyPool _ keypool => inferInstanceAs (Decidable (_ = false ∧ 1 ≤ nIndex ∧ nIndex ≤ keypool))
  | .keepKey _ | .returnKey _ => inferInstanceAs (Decidable False)

/-- No outstanding reservation has one of these indexes. -/
def Spares (s : Reservations K) (c : Call K) : Prop := ∀ r ∈ s.outstanding, ¬ Numbers s.wallet r.1 c

instance (s : Reservations K) (c : Call K) : Decidable (s.Spares c) :=
  inferInstanceAs (Decidable (∀ r ∈ s.outstanding, ¬ Numbers s.wallet r.1 c))

variable {newKey}

/-- A reservation takes an index of the refilled set, when there is one. -/
theorem reserve_step (sound : Sound newKey s)
    (taken : s.step newKey (.reserveKeyFromKeyPool locked keypool) = some s') :
    ∃ wallet, wallet = (s.wallet.topUpKeyPool newKey locked keypool 0).2 ∧
      (wallet.setKeyPool = ∅ ∧ s' = { s with wallet := wallet } ∨
      ∃ nIndex vchPubKey, nIndex ∈ wallet.setKeyPool ∧
        wallet.records.lookup nIndex = some vchPubKey ∧ s' = { s with
          wallet := { wallet with setKeyPool := wallet.setKeyPool.erase nIndex },
          outstanding := (nIndex, vchPubKey) :: s.outstanding }) := by
  rw [Reservations.step] at taken
  obtain ⟨wallet, refilled, ⟨empty, ran⟩ | ⟨nIndex, vchPubKey, inside, record, ran⟩⟩ :=
    KeyPool.reserveKeyFromKeyPool_spec newKey sound.stocked locked keypool
  · rw [ran] at taken
    exact ⟨wallet, refilled, .inl ⟨empty, (Option.some.inj taken).symm⟩⟩
  · rw [ran] at taken
    exact ⟨wallet, refilled, .inr ⟨nIndex, vchPubKey, inside, record, (Option.some.inj taken).symm⟩⟩

variable {c : Call K}

theorem Sound.step (injective : Function.Injective newKey) (sound : Sound newKey s)
    (spares : s.Spares c) (taken : s.step newKey c = some s') : Sound newKey s' := by
  cases c with
  | reserveKeyFromKeyPool locked keypool =>
    have refilled := sound.topUpKeyPool injective spares
    obtain ⟨_, rfl, ⟨_, rfl⟩ | ⟨_, _, inside, record, rfl⟩⟩ := reserve_step sound taken
    · exact refilled
    · exact refilled.reserve inside record
  | keepKey r =>
    rw [Reservations.step] at taken
    split at taken
    · rename_i held
      cases taken
      exact sound.keepKey held
    · cases taken
  | returnKey r =>
    rw [Reservations.step] at taken
    split at taken
    · rename_i held
      cases taken
      exact sound.returnKey held
    · cases taken
  | topUpKeyPool locked keypool kpSize =>
    cases taken
    exact sound.topUpKeyPool injective spares
  | newKeyPool _ _ =>
    cases taken
    exact sound.newKeyPool injective spares

/-- The run can go on to a state where an index of the set has no record. -/
def MayUnstock (newKey : Nat → K) (s : Reservations K) : Prop :=
  ∃ (more : List (Call K)) (last : Reservations K),
    more.foldlM (Reservations.step newKey) s = some last ∧
    ∃ nIndex ∈ last.wallet.setKeyPool, nIndex ∉ last.wallet.records

/-- When the index of an outstanding reservation is in the set, keeping the reservation leaves
the index without its record. -/
theorem keepKey_unstocks (held : r ∈ s.outstanding) (inside : r.1 ∈ s.wallet.setKeyPool) :
    s.MayUnstock newKey := by
  refine ⟨[.keepKey r], ⟨s.wallet.keepKey r.1, s.outstanding.erase r, r.2 :: s.kept⟩, ?_,
    r.1, inside, ?_⟩
  · simp [Reservations.step, held]
  · exact lookup_eq_none.mp (lookup_erase _ _)

/-- When an index is reserved twice, one reservation can be kept and the other returned. -/
theorem reserved_twice_unstocks {other : Int × K} (held : r ∈ s.outstanding) (same : other.1 = r.1)
    (left : other ∈ s.outstanding.erase r) : s.MayUnstock newKey := by
  refine ⟨[.keepKey r, .returnKey other],
    ⟨(s.wallet.keepKey r.1).returnKey other.1, (s.outstanding.erase r).erase other, r.2 :: s.kept⟩,
      ?_, r.1, ?_, ?_⟩
  · simp [Reservations.step, held, left]
  · exact Finset.mem_insert.mpr (Or.inl same.symm)
  · exact lookup_eq_none.mp (lookup_erase _ _)

/-- A call that writes the record of an outstanding reservation can cost an index its record. -/
theorem unspared_unstocks (sound : Sound newKey s) (taken : s.step newKey c = some s')
    (unspared : ¬ s.Spares c) : s'.MayUnstock newKey := by
  unfold Spares at unspared
  push Not at unspared
  obtain ⟨r, held, numbered⟩ := unspared
  cases c with
  | reserveKeyFromKeyPool locked keypool =>
    obtain ⟨rfl, lacks⟩ := numbered
    have inside : r.1 ∈ (s.wallet.topUpKeyPool newKey false keypool 0).2.setKeyPool :=
      KeyPool.mem_topUpKeyPool lacks
    obtain ⟨_, rfl, ⟨empty, _⟩ | ⟨nIndex, vchPubKey, _, _, rfl⟩⟩ := reserve_step sound taken
    · rw [empty] at inside
      cases inside
    · by_cases again : r.1 = nIndex
      · have same : (nIndex, vchPubKey).1 = r.1 := again.symm
        refine reserved_twice_unstocks (mem_cons_of_mem _ held) same ?_
        grind
      · exact keepKey_unstocks (mem_cons_of_mem _ held) (Finset.mem_erase.mpr ⟨again, inside⟩)
  | keepKey _ => cases numbered
  | returnKey _ => cases numbered
  | topUpKeyPool locked keypool kpSize =>
    obtain ⟨rfl, lacks⟩ := numbered
    cases taken
    exact keepKey_unstocks held (KeyPool.mem_topUpKeyPool lacks)
  | newKeyPool locked keypool =>
    obtain ⟨rfl, inside⟩ := numbered
    cases taken
    exact keepKey_unstocks held (KeyPool.mem_writeNew (by omega))

end Reservations

end Zcashd.Source

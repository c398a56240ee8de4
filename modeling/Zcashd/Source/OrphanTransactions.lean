import Zcashd.Source.BlocksInFlight

/-!
Transactions whose inputs are missing (`src/main.cpp:91-99, 595-674`). `mapOrphanTransactions` is
the sequence of its entries in the order of the keys; an iterator is the key it stands at, and
using it is a fault when the map does not have the key. `mapOrphanTransactionsByPrev` is never
iterated.
-/
namespace Zcashd.Source

open Lib List Option

structure COrphanTx where
  tx : CTransaction
  fromPeer : NodeId

abbrev OrphanMap := List (Uint256 × COrphanTx)

structure Orphans where
  mapOrphanTransactions : OrphanMap
  mapOrphanTransactionsByPrev : AList (fun _ : Uint256 => Finset Uint256)

/-- The bytes in memory, which `memcmp` compares. -/
def Uint256.bytes (hash : Uint256) : List Nat :=
  (List.range 32).map fun i => hash.toNat / 256 ^ i % 256

/-- `operator<`. -/
def Uint256.less (a b : Uint256) : Bool := decide (a.bytes < b.bytes)

namespace OrphanMap

inductive Fault where
  | invalidIterator
  /-- The loop is not over after as many rounds as the map has elements. -/
  | unfinished

def insert (hash : Uint256) (orphan : COrphanTx) (map : OrphanMap) : OrphanMap :=
  map.takeWhile (fun entry => entry.1.less hash) ++ (hash, orphan) :: map.dropWhile
    (fun entry => entry.1.less hash)

/-- `begin()`; `none` is `end()`. -/
def first (map : OrphanMap) : Option Uint256 := map.head?.map Prod.fst

def lowerBound (hash : Uint256) (map : OrphanMap) : Option Uint256 :=
  (map.find? (fun entry => !entry.1.less hash)).map Prod.fst

/-- `++it`. -/
def next (it : Uint256) (map : OrphanMap) : Except Fault (Option Uint256) :=
  match map.dropWhile (fun entry => entry.1 != it) with
  | [] => .error .invalidIterator
  | _ :: rest => .ok (first rest)

/-- `it->second`. -/
def dereference (it : Uint256) (map : OrphanMap) : Except Fault COrphanTx :=
  match map.lookup it with
  | none => .error .invalidIterator
  | some orphan => .ok orphan

end OrphanMap

namespace Orphans

open OrphanMap

def empty : Orphans := ⟨[], ∅⟩

/-- `mapOrphanTransactionsByPrev[prev].insert(hash)`. -/
def addPrev (hash : Uint256) (map : AList (fun _ : Uint256 => Finset Uint256)) (prev : Uint256) :
    AList (fun _ : Uint256 => Finset Uint256) :=
  map.insert prev (Insert.insert hash ((map.lookup prev).getD ∅))

def addOrphanTx (tx : CTransaction) (peer : NodeId) (s : Orphans) : Bool × Orphans :=
  if (s.mapOrphanTransactions.lookup tx.getHash).isSome then (false, s)
  -- ignore big transactions
  else if 5000 < tx.serializeSize then (false, s)
  else
    (true, ⟨s.mapOrphanTransactions.insert tx.getHash ⟨tx, peer⟩,
      (tx.vin.map (·.prevout.hash)).foldl (addPrev tx.getHash) s.mapOrphanTransactionsByPrev⟩)

/-- The body of the loop of `EraseOrphanTx`. -/
def erasePrev (hash : Uint256) (map : AList (fun _ : Uint256 => Finset Uint256)) (prev : Uint256) :
    AList (fun _ : Uint256 => Finset Uint256) :=
  match map.lookup prev with
  | none => map
  | some orphans =>
    if orphans.erase hash = ∅ then map.erase prev else map.insert prev (orphans.erase hash)

def eraseOrphanTx (hash : Uint256) (s : Orphans) : Orphans :=
  match s.mapOrphanTransactions.lookup hash with
  | none => s
  | some orphan =>
    ⟨s.mapOrphanTransactions.filter (fun entry => entry.1 != hash),
      (orphan.tx.vin.map (·.prevout.hash)).foldl (erasePrev hash) s.mapOrphanTransactionsByPrev⟩

/-- The loop of `EraseOrphansFor`, which counts what it erases. -/
def eraseLoop (peer : NodeId) : Nat → Option Uint256 → Orphans → Except Fault (Nat × Orphans)
  | _, none, s => .ok (0, s)
  | 0, some _, _ => .error .unfinished
  | rounds + 1, some maybeErase, s => do
    let iter ← s.mapOrphanTransactions.next maybeErase
    let orphan ← s.mapOrphanTransactions.dereference maybeErase
    if orphan.fromPeer = peer then
      let (nErased, s) ← eraseLoop peer rounds iter (s.eraseOrphanTx orphan.tx.getHash)
      .ok (nErased + 1, s)
    else eraseLoop peer rounds iter s

def eraseOrphansFor (peer : NodeId) (s : Orphans) : Except Fault (Nat × Orphans) :=
  eraseLoop peer s.mapOrphanTransactions.length s.mapOrphanTransactions.first s

/-- The loop of `LimitOrphanTxSize`; `getRandHash n` is the answer with `n` rounds to go. -/
def limitLoop (nMaxOrphans : Nat) (getRandHash : Nat → Uint256) :
    Nat → Orphans → Except Fault (Nat × Orphans)
  | 0, s => if s.mapOrphanTransactions.length ≤ nMaxOrphans then .ok (0, s) else .error .unfinished
  | rounds + 1, s =>
    if s.mapOrphanTransactions.length ≤ nMaxOrphans then .ok (0, s)
    else
      match (s.mapOrphanTransactions.lowerBound (getRandHash rounds)).or
        s.mapOrphanTransactions.first with
      | none => .error .invalidIterator
      | some it => do
        let (nEvicted, s) ← limitLoop nMaxOrphans getRandHash rounds (s.eraseOrphanTx it)
        .ok (nEvicted + 1, s)

def limitOrphanTxSize (nMaxOrphans : Nat) (getRandHash : Nat → Uint256) (s : Orphans) :
    Except Fault (Nat × Orphans) :=
  limitLoop nMaxOrphans getRandHash s.mapOrphanTransactions.length s

/-! The index -/

/-- The transaction is an orphan with an input from `prev`. -/
def HasInput (s : Orphans) (hash prev : Uint256) : Prop :=
  ∃ orphan, s.mapOrphanTransactions.lookup hash = some orphan ∧
    prev ∈ orphan.tx.vin.map (·.prevout.hash)

structure Exact (s : Orphans) : Prop where
  keys : (s.mapOrphanTransactions.map Prod.fst).Nodup
  hashes : ∀ entry ∈ s.mapOrphanTransactions, entry.2.tx.getHash = entry.1
  indexed : ∀ prev orphans, s.mapOrphanTransactionsByPrev.lookup prev = some orphans →
    orphans ≠ ∅ ∧ ∀ hash, hash ∈ orphans ↔ s.HasInput hash prev
  complete : ∀ prev, s.mapOrphanTransactionsByPrev.lookup prev = none →
    ∀ hash, ¬ s.HasInput hash prev

variable {s : Orphans} {hash prev : Uint256} {map : AList (fun _ : Uint256 => Finset Uint256)}
  (prevs : List Uint256)

theorem lookup_addPrevs : (prevs.foldl (addPrev hash) map).lookup prev =
    if prev ∈ prevs then some (Insert.insert hash ((map.lookup prev).getD ∅))
      else map.lookup prev := by
  induction prevs generalizing map with
  | nil => rfl
  | cons _ _ ih =>
    rw [foldl_cons, ih, addPrev]
    grind

/-- A set without the transaction, which is not kept when it is empty. -/
def without (hash : Uint256) (found : Option (Finset Uint256)) : Option (Finset Uint256) :=
  found.bind fun orphans => if orphans.erase hash = ∅ then none else some (orphans.erase hash)

/-- A second input from the same transaction finds nothing to erase, or no set at all. -/
theorem without_without (hit : Option (Finset Uint256)) :
    without hash (without hash hit) = without hash hit := by
  cases hit with
  | none => rfl
  | some _ =>
    simp only [without, bind_some]
    split <;> simp_all

theorem without_ne_empty {hit : Option (Finset Uint256)} {orphans : Finset Uint256}
    (kept : without hash hit = some orphans) : orphans ≠ ∅ := by
  obtain ⟨_, _, kept⟩ := bind_eq_some_iff.mp kept
  grind

variable {other : Uint256}

theorem mem_without {hit : Option (Finset Uint256)} :
    other ∈ (without hash hit).getD ∅ ↔ other ≠ hash ∧ other ∈ hit.getD ∅ := by
  cases hit with
  | none => simp [without]
  | some _ =>
    rw [getD_some, ← Finset.mem_erase]
    simp only [without, bind_some]
    split <;> simp_all

theorem lookup_erasePrevs : (prevs.foldl (erasePrev hash) map).lookup prev =
    if prev ∈ prevs then without hash (map.lookup prev) else map.lookup prev := by
  have one : ∀ map head, (erasePrev hash map head).lookup prev =
      if prev = head then without hash (map.lookup prev) else map.lookup prev := by
    intro _ _
    unfold erasePrev without
    grind
  induction prevs generalizing map with
  | nil => rfl
  | cons head tail ih =>
    rw [foldl_cons, ih, one]
    by_cases here : prev = head <;> by_cases later :
      prev ∈ tail <;> simp [here, later, without_without]

variable {orphan : COrphanTx} {l : OrphanMap}

theorem lookup_insert (new : l.lookup hash = none) :
    (l.insert hash orphan).lookup other = if other = hash then some orphan else l.lookup other := by
  have split := takeWhile_append_dropWhile
    (p := fun entry : Uint256 × COrphanTx => entry.1.less hash) (l := l)
  rw [← split] at new ⊢
  rw [OrphanMap.insert, split]
  grind

theorem lookup_filter :
    (l.filter fun entry => entry.1 != hash).lookup other = if other = hash then none
      else l.lookup other := by
  induction l with
  | nil => simp
  | cons _ _ _ =>
    rw [filter_cons]
    grind

theorem exact_empty : Exact empty where
  keys := nodup_nil
  hashes := nofun
  indexed prev orphans hit := by simp [empty] at hit
  complete prev _ hash := by simp [HasInput, empty]

/-- What the two maps answer decides it, when the entries are fine. -/
theorem Exact.of_lookup {t : Orphans} (keys : (t.mapOrphanTransactions.map Prod.fst).Nodup)
    (hashes : ∀ entry ∈ t.mapOrphanTransactions, entry.2.tx.getHash = entry.1)
    (hit : ∀ prev,
      (∀ orphans, t.mapOrphanTransactionsByPrev.lookup prev = some orphans → orphans ≠ ∅) ∧
      ∀ hash, hash ∈ (t.mapOrphanTransactionsByPrev.lookup prev).getD ∅ ↔ t.HasInput hash prev) :
    Exact t := by
  refine ⟨keys, hashes, ?_, ?_⟩
  · intro prev orphans here
    obtain ⟨ne, all⟩ := hit prev
    rw [here] at all
    exact ⟨ne orphans here, all⟩
  · intro prev absent _
    rw [← (hit prev).2, absent]
    simp

theorem Exact.found (exact : Exact s) (prev : Uint256) :
    (∀ orphans, s.mapOrphanTransactionsByPrev.lookup prev = some orphans → orphans ≠ ∅) ∧
      ∀ hash, hash ∈ (s.mapOrphanTransactionsByPrev.lookup prev).getD ∅ ↔ s.HasInput hash prev := by
  refine ⟨fun orphans here => (exact.indexed prev orphans here).1, ?_⟩
  intro hash
  cases here : s.mapOrphanTransactionsByPrev.lookup prev with
  | none => simpa using exact.complete prev here hash
  | some orphans => exact (exact.indexed prev orphans here).2 hash

theorem Exact.addOrphanTx (exact : Exact s) (tx : CTransaction) (peer : NodeId) :
    Exact (s.addOrphanTx tx peer).2 := by
  unfold Orphans.addOrphanTx
  split
  · exact exact
  · split
    · exact exact
    · rename_i known _
      have new := not_isSome_iff_eq_none.mp known
      have added : (s.mapOrphanTransactions.insert tx.getHash ⟨tx, peer⟩).Perm
          ((tx.getHash, ⟨tx, peer⟩) :: s.mapOrphanTransactions) := by
        apply perm_middle.trans
        rw [takeWhile_append_dropWhile]
      apply Exact.of_lookup
      · rw [(added.map _).nodup_iff, map_cons, nodup_cons]
        refine ⟨?_, exact.keys⟩
        grind
      · intro entry mem
        rcases mem_cons.mp (added.subset mem) with rfl | old
        · rfl
        · exact exact.hashes entry old
      · intro prev
        obtain ⟨_, all⟩ := exact.found prev
        unfold HasInput at all ⊢
        simp only [lookup_addPrevs, lookup_insert new]
        refine ⟨by grind [Finset.insert_ne_empty], ?_⟩
        intro hash
        have before := all hash
        by_cases same : hash = tx.getHash
        · rw [same, new] at before
          simp only [same, if_true]
          grind
        · simp only [same, if_false]
          grind

theorem Exact.eraseOrphanTx (exact : Exact s) (hash : Uint256) : Exact (s.eraseOrphanTx hash) ∧
      (s.eraseOrphanTx hash).mapOrphanTransactions = s.mapOrphanTransactions.filter
        (fun entry => entry.1 != hash) := by
  unfold Orphans.eraseOrphanTx
  split
  · refine ⟨exact, (filter_eq_self.mpr ?_).symm⟩
    grind
  · refine ⟨Exact.of_lookup ?_ ?_ ?_, rfl⟩
    · exact (filter_sublist.map _).nodup exact.keys
    · intro entry mem
      exact exact.hashes entry (mem_of_mem_filter mem)
    · intro prev
      obtain ⟨_, all⟩ := exact.found prev
      unfold HasInput at all ⊢
      simp only [lookup_erasePrevs, lookup_filter]
      refine ⟨by grind [without_ne_empty], ?_⟩
      intro other
      have old := all other
      by_cases same : other = hash
      · grind [mem_without]
      · simp only [same, if_false, ← old]
        grind [mem_without]

/-! The loops -/

/-- An entry between others is the only one with its key. -/
theorem filter_middle {front back : OrphanMap} {it : Uint256}
    (keys : ((front ++ (it, orphan) :: back).map Prod.fst).Nodup) :
    (front ++ (it, orphan) :: back).filter (fun entry => entry.1 != it) = front ++ back ∧
      (front ++ (it, orphan) :: back).dropWhile (fun entry => entry.1 != it) =
        (it, orphan) :: back ∧ (front ++ (it, orphan) :: back).lookup it = some orphan := by
  rw [map_append, map_cons, nodup_middle, nodup_cons, ← map_append] at keys
  have others : ∀ entry ∈ front ++ back, (entry.1 != it) = true := by
    intro _ _
    grind
  have old : ∀ entry ∈ front, (entry.1 != it) = true :=
    fun entry mem => others entry (mem_append_left _ mem)
  refine ⟨?_, ?_, ?_⟩
  · rw [filter_append, filter_cons_of_neg (by simp), ← filter_append, filter_eq_self.mpr others]
  · rw [dropWhile_append_of_pos old, dropWhile_cons_of_neg (by simp)]
  · apply lookup_eq_some_iff.mpr
    exact ⟨front, back, rfl, fun entry mem => by grind⟩

variable {rounds : Nat}

/-- `iter` is already past the entry that is erased. -/
theorem Exact.eraseLoop {front back : OrphanMap} (exact : Exact s) (peer : NodeId)
    (split : s.mapOrphanTransactions = front ++ back) (enough : back.length ≤ rounds) :
    ∃ nErased t, Orphans.eraseLoop peer rounds (first back) s = .ok (nErased, t) ∧ Exact t ∧
      t.mapOrphanTransactions = front ++ back.filter (fun entry => entry.2.fromPeer != peer) := by
  induction back generalizing s front rounds with
  | nil =>
    refine ⟨0, s, ?_, exact, by simpa using split⟩
    cases rounds <;> rfl
  | cons entry back ih =>
    obtain ⟨it, orphan⟩ := entry
    cases rounds with
    | zero => simp at enough
    | succ rounds =>
      obtain ⟨filtered, dropped, hit⟩ := filter_middle (split ▸ exact.keys)
      have enough : back.length ≤ rounds := by simpa using enough
      have next : s.mapOrphanTransactions.next it = .ok (first back) := by
        rw [split, OrphanMap.next, dropped]
      have orphaned : s.mapOrphanTransactions.dereference it = .ok orphan := by
        rw [split, dereference, hit]
      have hash : orphan.tx.getHash = it := exact.hashes (it, orphan) (by rw [split]; simp)
      have begins : first ((it, orphan) :: back) = some it := rfl
      simp only [begins, Orphans.eraseLoop, next, orphaned, bind, Except.bind, hash]
      by_cases sent : orphan.fromPeer = peer
      · obtain ⟨erased, fewer⟩ := exact.eraseOrphanTx it
        rw [split, filtered] at fewer
        obtain ⟨nErased, t, ran, after, rest⟩ := ih erased fewer enough
        rw [if_pos sent]
        refine ⟨nErased + 1, t, ?_, after, ?_⟩
        · rw [ran]
        · simp [rest, sent]
      · have moved : s.mapOrphanTransactions = (front ++ [(it, orphan)]) ++ back := by simp [split]
        obtain ⟨nErased, t, ran, after, rest⟩ := ih exact moved enough
        rw [if_neg sent]
        exact ⟨nErased, t, ran, after, by simp [rest, sent]⟩

/-- `begin` is taken only where `lower_bound` is `end`; it is not `end` in a map with elements. -/
theorem exists_chosen {map : OrphanMap} (ne : map ≠ []) :
    ∃ it, (map.lowerBound hash).or map.first = some it ∧ ∃ orphan, (it, orphan) ∈ map := by
  obtain ⟨entry, rest, rfl⟩ := exists_cons_of_ne_nil ne
  unfold lowerBound first
  cases hit : (entry :: rest).find? (fun entry => !entry.1.less hash) with
  | none => exact ⟨entry.1, rfl, entry.2, mem_cons_self⟩
  | some lower => exact ⟨lower.1, rfl, lower.2, mem_of_find?_eq_some hit⟩

theorem Exact.limitLoop (exact : Exact s) (nMaxOrphans : Nat) (getRandHash : Nat → Uint256)
    (enough : s.mapOrphanTransactions.length ≤ rounds) :
    ∃ nEvicted t, Orphans.limitLoop nMaxOrphans getRandHash rounds s = .ok (nEvicted, t) ∧ Exact t ∧
      t.mapOrphanTransactions.length ≤ nMaxOrphans ∧
      t.mapOrphanTransactions.Sublist s.mapOrphanTransactions ∧
      nEvicted + t.mapOrphanTransactions.length = s.mapOrphanTransactions.length := by
  induction rounds generalizing s with
  | zero =>
    refine ⟨0, s, ?_, exact, by omega, .refl _, by omega⟩
    rw [Orphans.limitLoop, if_pos (by omega)]
  | succ _ ih =>
    rw [Orphans.limitLoop]
    by_cases few : s.mapOrphanTransactions.length ≤ nMaxOrphans
    · exact ⟨0, s, by rw [if_pos few], exact, few, .refl _, by omega⟩
    · rw [if_neg few]
      obtain ⟨it, chosen, _, mem⟩ :=
        exists_chosen (ne_nil_of_length_pos (by omega : 0 < s.mapOrphanTransactions.length))
      obtain ⟨_, _, split⟩ := append_of_mem mem
      obtain ⟨erased, fewer⟩ := exact.eraseOrphanTx it
      rw [split, (filter_middle (split ▸ exact.keys)).1] at fewer
      have lengths := congrArg length split
      have lengths' := congrArg length fewer
      simp only [length_append, length_cons] at lengths lengths'
      obtain ⟨nEvicted, t, ran, after, limited, sub, _⟩ := ih erased (by omega)
      rw [chosen]
      refine ⟨nEvicted + 1, t, ?_, after, limited, sub.trans ?_, by omega⟩
      · simp only [ran, bind, Except.bind]
      · rw [fewer, split]
        exact (sublist_cons_self _ _).append_left _

theorem Exact.eraseOrphansFor (exact : Exact s) (peer : NodeId) :
    ∃ nErased t, s.eraseOrphansFor peer = .ok (nErased, t) ∧ Exact t ∧
      t.mapOrphanTransactions = s.mapOrphanTransactions.filter
        (fun entry => entry.2.fromPeer != peer) :=
  exact.eraseLoop peer (nil_append _).symm (Nat.le_refl _)

/-! Runs -/

inductive Call where
  | addOrphanTx (tx : CTransaction) (peer : NodeId)
  | eraseOrphanTx (hash : Uint256)
  | eraseOrphansFor (peer : NodeId)
  | limitOrphanTxSize (nMaxOrphans : Nat) (getRandHash : Nat → Uint256)

def call (s : Orphans) : Call → Except Fault Orphans
  | .addOrphanTx tx peer => .ok (s.addOrphanTx tx peer).2
  | .eraseOrphanTx hash => .ok (s.eraseOrphanTx hash)
  | .eraseOrphansFor peer => (s.eraseOrphansFor peer).map Prod.snd
  | .limitOrphanTxSize nMaxOrphans getRandHash =>
    (s.limitOrphanTxSize nMaxOrphans getRandHash).map Prod.snd

theorem Exact.call (exact : Exact s) (c : Call) : ∃ t, s.call c = .ok t ∧ Exact t := by
  cases c with
  | addOrphanTx tx peer => exact ⟨_, rfl, exact.addOrphanTx tx peer⟩
  | eraseOrphanTx hash => exact ⟨_, rfl, (exact.eraseOrphanTx hash).1⟩
  | eraseOrphansFor peer =>
    obtain ⟨_, t, ran, after, _⟩ := exact.eraseOrphansFor peer
    exact ⟨t, by rw [Orphans.call, ran]; rfl, after⟩
  | limitOrphanTxSize nMaxOrphans getRandHash =>
    obtain ⟨_, t, ran, after, _⟩ := exact.limitLoop nMaxOrphans getRandHash (Nat.le_refl _)
    exact ⟨t, by rw [Orphans.call, limitOrphanTxSize, ran]; rfl, after⟩

theorem Exact.calls (exact : Exact s) (calls : List Call) :
    ∃ t, calls.foldlM Orphans.call s = .ok t ∧ Exact t := by
  induction calls generalizing s with
  | nil => exact ⟨s, rfl, exact⟩
  | cons c _ ih =>
    obtain ⟨_, ran, after⟩ := exact.call c
    obtain ⟨t, rest, last⟩ := ih after
    exact ⟨t, by rw [foldlM_cons, ran]; exact rest, last⟩

end Orphans

end Zcashd.Source

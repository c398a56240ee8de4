import Zcashd.Source.MempoolLimit

/-!
# The list of recently evicted transactions

`RecentlyEvictedList` keeps a queue of ids with times and, beside it, a set of ids.
`recently_evicted_exact` says that the list answers for the last additions that are not too old,
in every run in which no id is added while it is remembered. An id that is added again stands in
the queue twice and in the set once: the first entry that leaves takes it out of the set
(`forgotten_after_second_add`).
-/
namespace Zcashd.Guarantees.EvictionMemory

open Source Source.RecentlyEvictedList List

variable {capacity : Nat} {timeToKeep now : Int} {adds : List (Uint256 × Int)}
  {list : RecentlyEvictedList}

/-- The last `count` additions. -/
def recent (count : Nat) (adds : List (Uint256 × Int)) : List (Uint256 × Int) :=
  adds.drop (adds.length - count)

/-- The id is not among the additions that are remembered when it is added. -/
def Forgotten (capacity : Nat) (timeToKeep : Int) (adds : List (Uint256 × Int)) (txId : Uint256)
    (now : Int) : Prop :=
  ∀ entry ∈ recent (capacity - 1) adds, entry.1 = txId → timeToKeep < now - entry.2

/-- The runs of a list at times that do not decrease, with the additions so far and the time of
the last call. Each addition is one that `permitted` allows. -/
inductive Run (capacity : Nat) (timeToKeep : Int)
    (permitted : List (Uint256 × Int) → Uint256 → Int → Prop) :
    List (Uint256 × Int) → Int → RecentlyEvictedList → Prop where
  | start (now : Int) : Run capacity timeToKeep permitted [] now ⟨capacity, timeToKeep, [], []⟩
  | add {adds : List (Uint256 × Int)} {earlier : Int} {list : RecentlyEvictedList}
      (txId : Uint256) (now : Int)
      (run : Run capacity timeToKeep permitted adds earlier list) (later : earlier ≤ now)
      (allowed : permitted adds txId now) :
      Run capacity timeToKeep permitted (adds ++ [(txId, now)]) now (list.add txId now)
  | contains {adds : List (Uint256 × Int)} {earlier : Int} {list : RecentlyEvictedList}
      (txId : Uint256) (now : Int)
      (run : Run capacity timeToKeep permitted adds earlier list) (later : earlier ≤ now) :
      Run capacity timeToKeep permitted adds now (list.contains txId now).1

/-- The set has the ids of the queue, and the queue has each of them once. -/
structure Synchronous (list : RecentlyEvictedList) : Prop where
  distinct : (list.txIdsAndTimes.map Prod.fst).Nodup
  set : ∀ id, id ∈ list.txIdSet ↔ id ∈ list.txIdsAndTimes.map Prod.fst

theorem Synchronous.popFront (sync : Synchronous list) : Synchronous list.popFront := by
  unfold RecentlyEvictedList.popFront
  split
  case h_1 => exact sync
  case h_2 txId time rest queue =>
    have distinct := sync.distinct
    rw [queue, map_cons, nodup_cons] at distinct
    refine ⟨distinct.2, fun id => ?_⟩
    have set := sync.set id
    rw [queue, map_cons, mem_cons] at set
    grind

theorem popFront_queue : list.popFront.txIdsAndTimes = list.txIdsAndTimes.drop 1 := by
  unfold popFront
  split <;> simp_all

theorem popFront_capacity : list.popFront.capacity = list.capacity := by
  unfold popFront
  split <;> rfl

theorem popFront_timeToKeep : list.popFront.timeToKeep = list.timeToKeep := by
  unfold popFront
  split <;> rfl

/-- What a number of entries that leave the front does. -/
theorem popFront_foldl {β : Type} {entries : List β} (sync : Synchronous list) :
    Synchronous (entries.foldl (fun list _ => list.popFront) list) ∧
    (entries.foldl (fun list _ => list.popFront) list).txIdsAndTimes =
      list.txIdsAndTimes.drop entries.length ∧
    (entries.foldl (fun list _ => list.popFront) list).capacity = list.capacity ∧
    (entries.foldl (fun list _ => list.popFront) list).timeToKeep = list.timeToKeep := by
  induction entries generalizing list with
  | nil => exact ⟨sync, rfl, rfl, rfl⟩
  | cons _ _ ih =>
    obtain ⟨sync', queue, capacity, timeToKeep⟩ := ih sync.popFront
    rw [foldl_cons]
    refine ⟨sync', ?_, capacity.trans popFront_capacity, timeToKeep.trans popFront_timeToKeep⟩
    rw [queue, popFront_queue, drop_drop, length_cons, Nat.add_comm]

/-- An entry whose time is over. -/
def expired (timeToKeep now : Int) (entry : Uint256 × Int) : Bool :=
  decide (now - entry.2 > timeToKeep)

theorem drop_takeWhile_length {α : Type} (p : α → Bool) (l : List α) :
    l.drop (l.takeWhile p).length = l.dropWhile p := by
  nth_rewrite 2 [← takeWhile_append_dropWhile (p := p) (l := l)]
  exact drop_left

theorem pruneList_spec (sync : Synchronous list) (now : Int) : Synchronous (list.pruneList now) ∧
    (list.pruneList now).txIdsAndTimes = list.txIdsAndTimes.dropWhile
      (expired list.timeToKeep now) ∧
    (list.pruneList now).capacity = list.capacity ∧
    (list.pruneList now).timeToKeep = list.timeToKeep := by
  unfold pruneList
  split
  case isTrue empty =>
    -- with an empty set the source leaves the queue alone, and it is empty as well
    have none : list.txIdsAndTimes = [] := by
      have set := sync.set
      rw [isEmpty_iff.mp empty] at set
      simpa [eq_nil_iff_forall_not_mem] using set
    exact ⟨sync, by rw [none]; rfl, rfl, rfl⟩
  case isFalse =>
    obtain ⟨sync', queue, same⟩ := popFront_foldl sync
    exact ⟨sync', queue.trans (drop_takeWhile_length _ _), same⟩

/-- The queue is the end of the additions. What is missing of the last ones is too old. -/
structure Remembers (capacity : Nat) (timeToKeep : Int) (adds : List (Uint256 × Int)) (now : Int)
    (list : RecentlyEvictedList) : Prop where
  sync : Synchronous list
  room : list.capacity = capacity
  keep : list.timeToKeep = timeToKeep
  short : list.txIdsAndTimes.length ≤ capacity
  ordered : list.txIdsAndTimes.Pairwise (fun first second => first.2 ≤ second.2)
  past : ∀ entry ∈ list.txIdsAndTimes, entry.2 ≤ now
  queue : ∃ gone, adds = gone ++ list.txIdsAndTimes ∧
    ∀ entry ∈ recent (capacity - list.txIdsAndTimes.length) gone, timeToKeep < now - entry.2

theorem mem_recent_mono {count count' : Nat} (le : count ≤ count') {entry : Uint256 × Int}
    (mem : entry ∈ recent count adds) : entry ∈ recent count' adds := by
  refine drop_subset_drop_left adds ?_ mem
  omega

/-- The last additions of a split history. -/
theorem recent_append {count : Nat} {gone queue : List (Uint256 × Int)}
    (short : queue.length ≤ count) :
    recent count (gone ++ queue) = recent (count - queue.length) gone ++ queue := by
  rw [recent, recent, length_append, drop_append_of_le_length (by omega)]
  congr 2
  omega

variable {earlier : Int}

theorem Remembers.pruneList (remembers : Remembers capacity timeToKeep adds earlier list)
    (later : earlier ≤ now) : Remembers capacity timeToKeep adds now (list.pruneList now) ∧
    ∀ entry ∈ (list.pruneList now).txIdsAndTimes, now - entry.2 ≤ timeToKeep := by
  obtain ⟨sync, left, same, keep⟩ := pruneList_spec remembers.sync now
  rw [remembers.keep] at left
  obtain ⟨gone, history, old⟩ := remembers.queue
  obtain ⟨front, frontEq⟩ :
      ∃ front, list.txIdsAndTimes.takeWhile (expired timeToKeep now) = front := ⟨_, rfl⟩
  have split : list.txIdsAndTimes = front ++ (list.pruneList now).txIdsAndTimes := by
    rw [left, ← frontEq, takeWhile_append_dropWhile]
  have short := remembers.short
  have ordered := remembers.ordered
  have past := remembers.past
  have young : ∀ entry ∈ (list.pruneList now).txIdsAndTimes, now - entry.2 ≤ timeToKeep := by
    intro _ mem
    -- the first entry that stays is young, and those behind it were added later
    cases stays : (list.pruneList now).txIdsAndTimes with
    | nil => rw [stays] at mem; exact absurd mem not_mem_nil
    | cons first _ =>
      have head : ¬ expired timeToKeep now first = true := by
        have none := List.head?_dropWhile_not (expired timeToKeep now) list.txIdsAndTimes
        rw [← left, stays] at none
        simpa using none
      rw [expired, decide_eq_true_eq] at head
      rw [stays] at mem
      rw [split, stays] at ordered
      have behind := (pairwise_append.mp ordered).2.1
      obtain rfl | mem := mem_cons.mp mem
      · omega
      · have := rel_of_pairwise_cons behind mem
        omega
  rw [split] at short ordered past history old
  rw [length_append] at short old
  refine ⟨⟨sync, same.trans remembers.room, keep.trans remembers.keep, by omega,
    (pairwise_append.mp ordered).2.1, ?_, gone ++ front, ?_, ?_⟩, young⟩
  · intro entry mem
    have := past entry (mem_append_right _ mem)
    omega
  · rw [history, append_assoc]
  · intro entry mem
    rw [recent_append (by omega)] at mem
    obtain mem | mem := mem_append.mp mem
    · have := old entry (mem_recent_mono (by omega) mem)
      omega
    · rw [← frontEq] at mem
      simpa [expired] using mem_takeWhile_imp mem

theorem Remembers.start (capacity : Nat) (timeToKeep now : Int) :
    Remembers capacity timeToKeep [] now ⟨capacity, timeToKeep, [], []⟩ where
  sync := ⟨nodup_nil, fun _ => Iff.rfl⟩
  room := rfl
  keep := rfl
  short := Nat.zero_le capacity
  ordered := List.Pairwise.nil
  past := nofun
  queue := ⟨[], rfl, by simp [recent]⟩

variable {txId : Uint256}

/-- An id that is not in the queue goes to its end. -/
theorem Synchronous.push (sync : Synchronous list) (new : txId ∉ list.txIdsAndTimes.map Prod.fst)
    (now : Int) :
    Synchronous { list with
      txIdsAndTimes := list.txIdsAndTimes ++ [(txId, now)]
      txIdSet := if txId ∈ list.txIdSet then list.txIdSet else txId :: list.txIdSet } := by
  constructor
  · have distinct := sync.distinct
    grind
  · intro id
    have set := sync.set id
    grind

theorem Remembers.add (pos : 1 ≤ capacity)
    (remembers : Remembers capacity timeToKeep adds earlier list) (later : earlier ≤ now)
    (allowed : Forgotten capacity timeToKeep adds txId now) :
    Remembers capacity timeToKeep (adds ++ [(txId, now)]) now (list.add txId now) := by
  obtain ⟨pruned, young⟩ := remembers.pruneList later
  unfold RecentlyEvictedList.add
  dsimp only
  generalize list.pruneList now = list at pruned young ⊢
  obtain ⟨gone, history, old⟩ := pruned.queue
  have short := pruned.short
  -- the entries that were there before and stay
  obtain ⟨room, roomEq⟩ :
      ∃ room, (if list.txIdsAndTimes.length = list.capacity then list.popFront else list) = room :=
    ⟨_, rfl⟩
  rw [roomEq]
  have left : ∃ front, list.txIdsAndTimes = front ++ room.txIdsAndTimes ∧ Synchronous room ∧
      room.capacity = capacity ∧ room.timeToKeep = timeToKeep ∧
        room.txIdsAndTimes.length + 1 ≤ capacity ∧
      (front = [] ∨ room.txIdsAndTimes.length + 1 = capacity) := by
    rw [← roomEq, pruned.room]
    split
    case isTrue full =>
      refine ⟨list.txIdsAndTimes.take 1, ?_, pruned.sync.popFront,
        popFront_capacity.trans pruned.room, popFront_timeToKeep.trans pruned.keep, ?_, .inr ?_⟩
      · rw [popFront_queue, take_append_drop]
      all_goals
        rw [popFront_queue, length_drop]
        omega
    case isFalse notFull =>
      exact ⟨[], rfl, pruned.sync, pruned.room, pruned.keep, by omega, .inl rfl⟩
  obtain ⟨front, split, sync, same, keep, fits, full⟩ := left
  have ordered := pruned.ordered
  have past := pruned.past
  rw [split] at history young ordered past old
  have new : txId ∉ room.txIdsAndTimes.map Prod.fst := by
    intro inside
    obtain ⟨entry, mem, rfl⟩ := mem_map.mp inside
    have kept : entry ∈ recent (capacity - 1) adds := by
      rw [history, ← append_assoc, recent_append (by omega)]
      exact mem_append_right _ mem
    have tooOld := allowed entry kept rfl
    have := young entry (mem_append_right _ mem)
    omega
  refine ⟨sync.push new now, same, keep, ?_, ?_, ?_, gone ++ front, ?_, ?_⟩
  · simpa using fits
  · refine pairwise_append.mpr ⟨(pairwise_append.mp ordered).2.1, pairwise_singleton _ _, ?_⟩
    intro entry mem _ isLast
    rw [mem_singleton.mp isLast]
    exact past entry (mem_append_right _ mem)
  · intro _ _
    grind
  · rw [history]
    simp
  · intro entry mem
    simp only [length_append, length_singleton] at mem old
    obtain rfl | full := full
    · rw [append_nil] at mem
      exact old entry (mem_recent_mono (by simp; omega) mem)
    · -- the list is full, and nothing else counts
      rw [full, Nat.sub_self, recent, Nat.sub_zero, drop_length] at mem
      exact absurd mem not_mem_nil

theorem Remembers.run (pos : 1 ≤ capacity)
    (run : Run capacity timeToKeep (Forgotten capacity timeToKeep) adds now list) :
    Remembers capacity timeToKeep adds now list := by
  induction run with
  | start now => exact .start capacity timeToKeep now
  | add _ _ _ later allowed ih => exact ih.add pos later allowed
  | contains _ _ _ later ih => exact (ih.pruneList later).1

/-- The answer of `contains`, and the set beside the queue. -/
theorem recently_evicted_exact (positive : 1 ≤ capacity)
    (run : Run capacity timeToKeep (Forgotten capacity timeToKeep) adds now list) :
    (∀ txId t, now ≤ t → ((list.contains txId t).2 = true ↔
      ∃ entry ∈ recent capacity adds, entry.1 = txId ∧ t - entry.2 ≤ timeToKeep)) ∧
    ∀ id, id ∈ list.txIdSet ↔ id ∈ list.txIdsAndTimes.map Prod.fst := by
  have remembers := Remembers.run positive run
  refine ⟨fun txId t later => ?_, remembers.sync.set⟩
  obtain ⟨pruned, young⟩ := remembers.pruneList later
  obtain ⟨_, history, _⟩ := pruned.queue
  unfold RecentlyEvictedList.contains
  rw [contains_iff_mem, pruned.sync.set, history, recent_append pruned.short, mem_map]
  constructor
  · rintro ⟨entry, member, rfl⟩
    exact ⟨entry, mem_append_right _ member, rfl, young entry member⟩
  · grind

/-- Two ids at a list of two entries, the first of them once more when its time is over. -/
theorem recently_evicted_exact_again :
    (((((⟨2, 10, [], []⟩ : RecentlyEvictedList).add 1 0).add 2 5).add 1 11).contains 1 12).2 =
      true := by
  have first : Run 2 10 (Forgotten 2 10) [(1, 0)] 0 _ := .add 1 0 (.start 0) (by decide) nofun
  have second : Run 2 10 (Forgotten 2 10) [(1, 0), (2, 5)] 5 _ :=
    .add 2 5 first (by decide) (by unfold Forgotten; decide)
  have third : Run 2 10 (Forgotten 2 10) [(1, 0), (2, 5), (1, 11)] 11 _ :=
    .add 1 11 second (by decide) (by unfold Forgotten; decide)
  exact ((recently_evicted_exact (by decide) third).1 1 12 (by decide)).mpr (by decide)

/-- An id that is added twice is not in the set any more when the first of its entries has left
the queue, although the second is one of the last two additions. -/
theorem forgotten_after_second_add :
    ∃ adds list, Run 2 10 (fun _ _ _ => True) adds 2 list ∧ (1, 1) ∈ recent 2 adds ∧
      (2 : Int) - 1 ≤ 10 ∧
      (list.contains 1 2).2 = false ∧ 1 ∈ list.txIdsAndTimes.map Prod.fst ∧ 1 ∉ list.txIdSet := by
  refine ⟨_, _, .add 2 2 (.add 1 1 (.add 1 0 (.start 0) (by decide) trivial) (by decide) trivial)
    (by decide) trivial, ?_⟩
  decide

end Zcashd.Guarantees.EvictionMemory

import Zcashd.Lib.Runs
import Zcashd.Abstract.CheckRound

/-!
# Rounds of parallel checks

As long as there are never 2^32 unfinished checks at a time, the master gets the verdict on the
checks of its round and nothing else, finds the queue ready for the next round, and is never left
waiting while nobody works. With 2^32 unfinished checks in the batches of the workers `nTodo` is
0 again, and the master returns without them.
-/
namespace Zcashd.Guarantees.CheckRounds

open Lib Source Source.CCheckQueue List Function UInt32 Nat

variable {T : Type} {n : Nat}

/-- A round without a failure has evaluated every check. -/
theorem evaluated_perm {s : CCheckQueue T n} (sound : Sound s) (done : s.load = 0)
    (passed : ¬ s.Failed) :
    s.evaluated.Perm (s.added.map fun check => (check, true)) := by
  obtain ⟨empty, left⟩ := sound.nothing_left done
  have skipped : s.skipped = [] := by
    by_contra some
    exact passed (sound.skipped some)
  have kept := sound.kept
  rw [empty, left, skipped, Multiset.coe_nil, zero_add, zero_add, add_zero,
    Multiset.coe_eq_coe] at kept
  have trues : s.evaluated = (s.evaluated.map Prod.fst).map fun check => (check, true) := by
    rw [map_map]
    refine (map_id _).symm.trans (map_congr_left ?_)
    rintro ⟨check, result⟩ mem
    cases result with
    | true => rfl
    | false => exact absurd ⟨check, mem⟩ passed
  rw [trues]
  exact (kept.map _).symm

theorem rounds_settled (nBatchSize : Nat) (s : CCheckQueue T n)
    (reached : Reached (step nBatchSize) Fits new s) :
    (∀ fRet, s.control = .returned fRet →
      (fRet = true ↔ s.evaluated.Perm (s.added.map fun check => (check, true))) ∧
      (fRet = false ↔ ∃ check, (check, false) ∈ s.evaluated) ∧
      s.nTodo = 0 ∧ s.queue = [] ∧ s.isIdle = true) ∧
    s.control ≠ .aborted ∧ (∃ unevaluated, s.added.Perm (s.evaluated.map Prod.fst ++ unevaluated)) ∧
    ¬ (s.threads none = .waiting false ∧
      ∀ t, s.threads (some t) = .absent ∨ s.threads (some t) = .waiting false) := by
  have sound : Sound s :=
    reached.invariant sound_new fun _ _ _ sound fits stepped => sound.step fits stepped
  refine ⟨?_, sound.asserted, ?_, ?_⟩
  · intro fRet returned
    obtain ⟨done, _, failed⟩ := sound.returned fRet returned
    refine ⟨⟨?_, ?_⟩, failed, sound.todo_eq_zero.mpr done, (sound.nothing_left done).1,
      sound.isIdle returned⟩
    · rintro rfl
      apply evaluated_perm sound done
      intro some
      cases failed.mpr some
    · intro all
      by_contra wrong
      obtain ⟨check, member⟩ := failed.mp (Bool.eq_false_of_not_eq_true wrong)
      have passed := all.subset member
      simp at passed
  · refine ⟨s.queue ++ (tally Thread.checks s.threads).toList ++ s.skipped, ?_⟩
    rw [← Multiset.coe_eq_coe,
      sound.kept, ← Multiset.coe_add, ← Multiset.coe_add, ← Multiset.coe_add, Multiset.coe_toList]
    abel
  · rintro ⟨blocked, others⟩
    obtain ⟨empty, left⟩ := sound.blocked false blocked
    have busy : tally Thread.taken s.threads ≠ 0 := by
      have more := left rfl
      unfold load at more
      rw [empty, length_nil] at more
      omega
    apply busy
    rw [tally_eq_zero]
    rintro (_ | t)
    · rw [blocked]
      rfl
    · rcases others t with absent | waiting
      · rw [absent]
        rfl
      · rw [waiting]
        rfl

/-- Two rounds with one worker. In the first the worker's check fails; the second has one check,
which the master makes. -/
def twoRounds : List (Action Nat 1) :=
  [.thread 0, .construct, .add [1, 2] none, .wait, .wake (some 0), .evaluate none true,
    .evaluate (some 0) false, .resume (some 0), .resume none, .construct, .add [3] (some 0), .wait,
    .evaluate none true, .resume none]

theorem rounds_settled_twoRounds :
    ∃ s, runAll (step 128) Fits twoRounds new = some s ∧ s.control = .returned true ∧
      s.isIdle = true ∧ s.evaluated.Perm (s.added.map fun check => (check, true)) := by
  have ran : (runAll (step 128) Fits twoRounds new).isSome ∧
      ∀ s ∈ runAll (step 128) Fits twoRounds new, s.control = .returned true := by
    decide +kernel
  obtain ⟨s, found⟩ := Option.isSome_iff_exists.mp ran.1
  have returned := ran.2 s found
  obtain ⟨settled, _⟩ := rounds_settled 128 s (Reached.start.runAll found)
  obtain ⟨verdict, _, _, _, idle⟩ := settled true returned
  exact ⟨s, found, returned, idle, verdict.mp rfl⟩

/-! Too many checks -/

section

variable {nBatchSize : Nat} {s : CCheckQueue T n}

/-- A state that a run with any number of checks can reach. -/
abbrev Reachable (nBatchSize : Nat) (s : CCheckQueue T n) : Prop :=
  Reached (step nBatchSize) (fun _ _ => True) new s

variable {s : CCheckQueue Unit 3} {batches : List Nat} {control : Control} {nTodo : UInt32}
  {b q x e : Nat}

/-- The first workers have these batches, of which they have evaluated nothing. -/
def holding (batches : List Nat) : Option (Fin 3) → Thread Unit
  | none => .absent
  | some t => (batches[t.val]?).elim .absent fun b => .working b true (replicate b ())

/-- `q` checks are queued, `x` were added, and the master has evaluated `e`. -/
def filled (batches : List Nat) (control : Control) (nTodo : UInt32) (q x e : Nat) :
    CCheckQueue Unit 3 :=
  ⟨replicate q (), 0, batches.length, true, nTodo, holding batches, control, replicate x (),
    replicate e ((), true), []⟩

/-- The master has taken `b` checks, with `j` of them left. -/
def alone (batches : List Nat) (nTodo : UInt32) (b j q x e : Nat) : CCheckQueue Unit 3 :=
  { filled batches .waiting nTodo q x e with
    nTotal := batches.length + 1
    threads := update (holding batches) none (.working b true (replicate j ())) }

theorem filled_add {m : Nat} (several : 1 < m)
    (reached : Reachable nBatchSize (filled batches .adding (ofNat x) q x 0)) :
    Reachable nBatchSize (filled batches .adding (ofNat (x + m)) (m + q) (x + m) 0) := by
  refine reached.next (l := .add (replicate m ()) none) trivial ?_
  have others : (fun t => if t = none then holding batches t else (holding batches t).notified) =
      holding batches := by
    funext t
    rcases t with _ | t
    · rfl
    · dsimp only [holding]
      cases batches[t.val]? <;> rfl
  simp [step, CCheckQueue.add, filled, notifyAll, others, several, several.ne',
    replicate_append_replicate]

/-- The next worker begins and takes a batch of `b` checks. -/
theorem filled_take (another : batches.length < 3) (fits : q < 2 ^ 32)
    (size : q / (batches.length + 2) = b) (pos : 0 < b) (big : b ≤ nBatchSize)
    (reached : Reachable nBatchSize (filled batches .adding nTodo q x 0)) :
    Reachable nBatchSize (filled (batches ++ [b]) .adding nTodo (q - b) x 0) := by
  have most : b ≤ q := size ▸ div_le_self ..
  refine reached.next (l := .thread ⟨batches.length, another⟩) trivial ?_
  have share : (filled batches .adding nTodo q x 0).share nBatchSize = b := by
    simp only [filled, CCheckQueue.share, batchSize, length_replicate, mod_eq_of_lt fits,
      add_zero, size]
    omega
  have threads :
      update (holding batches) (some ⟨batches.length, another⟩) (.working b true (replicate b ())) =
      holding (batches ++ [b]) := by
    funext t
    rcases t with _ | t
    · rfl
    · grind [holding]
  have entered :=
    enter_takes (s := filled batches .adding nTodo q x 0) (t := some ⟨batches.length, another⟩)
    (by simp [filled]; omega) nBatchSize
  rw [share] at entered
  simp [step, thread, filled, holding, setThread, threads, min_eq_left most] at entered ⊢
  exact entered

theorem alone_evaluates {j : Nat} (reached : Reachable nBatchSize (alone batches nTodo b j q x e)) :
    Reachable nBatchSize (alone batches nTodo b 0 q x (e + j)) := by
  induction j generalizing e with
  | zero => exact reached
  | succ j ih =>
    rw [add_comm j, ← add_assoc]
    refine ih (reached.next (l := .evaluate none true) trivial ?_)
    simp [step, evaluate, alone, filled, setThread, replicate_succ]

/-- The master works until the queue is empty. -/
theorem drain (reached :
    Reachable nBatchSize ((filled batches .waiting (ofNat q) q x e).enter nBatchSize none)) :
    Reachable nBatchSize (filled batches (.returned true) 0 0 x (e + q)) := by
  induction q using Nat.strong_induction_on generalizing e with
  | _ q ih =>
    rcases Nat.eq_zero_or_pos q with rfl | some
    · rwa [enter_returns rfl rfl rfl] at reached
    · have ne : (filled batches .waiting (ofNat q) q x e).queue ≠ [] := by simp [filled]; omega
      have enough := share_le nBatchSize ne
      have pos := one_le_share (s := filled batches .waiting (ofNat q) q x e) nBatchSize
      rw [enter_takes ne] at reached
      generalize (filled batches .waiting (ofNat q) q x e).share nBatchSize = b at *
      rw [filled, length_replicate] at enough
      have whole : ofNat q = ofNat (q - b) + ofNat b := by
        rw [← ofNat_add, Nat.sub_add_cancel enough]
      have taken : Reachable nBatchSize (alone batches (ofNat q) b b (q - b) x e) := by
        simpa [alone, filled, setThread, min_eq_left enough] using reached
      have rest := ih (q - b) (by omega) (e := e + b)
        ((alone_evaluates taken).next (l := .resume none) trivial ?_)
      · rwa [Nat.add_assoc, Nat.add_sub_cancel' enough] at rest
      · simp [step, resume, alone, filled, cleanUp, whole]
        exact serve_setThread nBatchSize
          (s := { filled batches .waiting (ofNat (q - b)) (q - b) x (e + b) with nTotal := _ }) _

/-- With 64 units of checks in the batches of three workers `nTodo` counts those in the queue
only. -/
theorem filled_overflow {u : Nat} (units : 64 * u = 2 ^ 32) (big : 32 * u ≤ nBatchSize) :
    Reachable nBatchSize
      (filled [29 * u, 20 * u, 15 * u] .adding (ofNat (109 * u)) (45 * u) (109 * u) 0) := by
  have none : Reachable nBatchSize (filled [] .adding (ofNat 0) 0 0 0) := by
    refine Reached.start.next (l := Action.construct) trivial (congrArg some ?_)
    unfold new filled
    congr 1
    funext t
    cases t <;> rfl
  have one := filled_take (b := 29 * u) (by decide) (by omega) (by simp; omega)
    (by omega) (by omega) (filled_add (m := 58 * u) (by omega) none)
  have two := filled_take (b := 20 * u) (by simp) (by omega) (by simp; omega) (by omega) (by omega)
    (filled_add (m := 31 * u) (by omega) one)
  have three := filled_take (b := 15 * u) (by simp) (by omega) (by simp; omega)
    (by omega) (by omega) (filled_add (m := 20 * u) (by omega) two)
  convert three using 3 <;> first | rfl | omega

/-- The master returns `true` while the checks of three batches have not been evaluated, and the
next of them can fail. -/
theorem overflow_returns_early :
    ∃ s : CCheckQueue Unit 3, Reachable (2 ^ 31) s ∧ s.control = .returned true ∧
      s.evaluated.length < s.added.length ∧ (s.evaluate (some 0) false).isSome := by
  have units : 64 * 2 ^ 26 = 2 ^ 32 ∧ 32 * 2 ^ 26 = 2 ^ 31 := by decide
  generalize 2 ^ 26 = u at units
  obtain ⟨units, big⟩ := units
  have reached := filled_overflow units (le_of_eq big)
  have wraps : ofNat (109 * u) = ofNat (45 * u) := by
    have sum : 109 * u = 45 * u + 64 * u := by omega
    rw [sum, ofNat_add, units]
    exact UInt32.add_zero _
  rw [wraps] at reached
  refine ⟨_, drain (reached.next (l := .wait) trivial rfl), rfl, ?_, ?_⟩
  · simp [filled]
    omega
  · obtain ⟨c, first⟩ : ∃ c, 29 * u = c + 1 := ⟨29 * u - 1, by omega⟩
    simp [evaluate, filled, holding, first, replicate_succ]

end

end Zcashd.Guarantees.CheckRounds

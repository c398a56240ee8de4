import Zcashd.Source.CheckQueue

/-!
What a round of checks comes to. `Sound` ties the counters to what the threads are doing, the
checks of the round to where they are, and the flags to the results so far. A critical section is
taken apart into a thread leaving `Loop` (with what it has to clean up) and one entering it, so
that each half keeps `Sound`.
-/
namespace Zcashd.Source

open Lib List Function Nat Thread CCheckQueue UInt32

namespace Thread

variable {T : Type}

def idle : Thread T → Nat
  | waiting _ => 1
  | _ => 0

def inside : Thread T → Nat
  | absent => 0
  | _ => 1

/-- The checks of the batch that are left. -/
def checks : Thread T → Multiset T
  | working _ _ vChecks => vChecks
  | _ => 0

/-- The thread has seen a check fail. -/
def failing : Thread T → Bool
  | working _ fOk _ => !fOk
  | _ => false

variable {thread : Thread T}

theorem notified_eq_working {nNow : Nat} {fOk : Bool} {vChecks : List T}
    (same : thread.notified = .working nNow fOk vChecks) : thread = .working nNow fOk vChecks := by
  cases thread <;> simp_all [notified]

theorem notified_of_isBlocked (blocked : thread.isBlocked = true) :
    thread.notified = .waiting true := by
  cases thread <;> first | rfl | cases blocked

theorem notified_ne_blocked (thread : Thread T) : thread.notified ≠ .waiting false := by
  cases thread <;> rintro ⟨⟩

end Thread

namespace CCheckQueue

variable {T : Type} {n : Nat}

/-- A check of this round has failed. -/
def Failed (s : CCheckQueue T n) : Prop := ∃ check, (check, false) ∈ s.evaluated

/-- A failure is noted. -/
def Noted (s : CCheckQueue T n) : Prop := s.fAllOk = false ∨ ∃ t, (s.threads t).failing = true

/-- The counters and the checks of the round. -/
structure Counts (s : CCheckQueue T n) : Prop where
  todo : s.nTodo = ofNat s.load
  fits : s.load < 2 ^ 32
  idle : s.nIdle = tally idle s.threads
  total : s.nTotal = tally inside s.threads
  batches : ∀ t nNow fOk vChecks, s.threads t = .working nNow fOk vChecks → 0 < nNow
  kept : (s.added : Multiset T) =
    s.queue + tally checks s.threads + (s.evaluated.map Prod.fst : Multiset T) + s.skipped

/-- And what the flags say. -/
structure Sound (s : CCheckQueue T n) : Prop extends Counts s where
  skipped : s.skipped ≠ [] → s.Failed
  running : s.control = .adding ∨ s.control = .waiting → (s.Noted ↔ s.Failed)
  returned : ∀ fRet, s.control = .returned fRet → s.load = 0 ∧ s.fAllOk = true ∧
    (fRet = false ↔ s.Failed)
  outside : s.control ≠ .waiting → s.threads none = .absent
  blocked : ∀ notified, s.threads none = .waiting notified → s.queue = [] ∧
    (notified = false → 0 < s.load)
  asserted : s.control ≠ .aborted

theorem sound_new : Sound (new : CCheckQueue T n) where
  todo := by simp [new, load, tally, taken]
  fits := by simp [new, load, tally, taken]
  idle := by simp [new, tally, idle]
  total := by simp [new, tally, inside]
  batches := nofun
  kept := by simp [new, tally, checks]
  skipped some := absurd rfl some
  running going := by simp [new] at going
  returned fRet same := by
    cases same
    exact ⟨by simp [new, load, tally, taken], rfl, by simp [new, Failed]⟩
  outside _ := rfl
  blocked := nofun
  asserted := nofun

variable {s s' : CCheckQueue T n} {t : Option (Fin n)}

/-! Threads -/

theorem ofNat_eq_zero {a : Nat} (fits : a < 2 ^ 32) : UInt32.ofNat a = 0 ↔ a = 0 := by
  rw [← UInt32.toNat_inj, UInt32.toNat_ofNat_of_lt' fits]
  rfl

section

variable (sound : Sound s)
include sound

theorem Sound.todo_eq_zero : s.nTodo = 0 ↔ s.load = 0 := by
  rw [sound.todo]
  exact ofNat_eq_zero sound.fits

/-- When nothing is left to do, no thread is working. -/
theorem Sound.resting (done : s.load = 0) (t : Option (Fin n)) :
    s.threads t = .absent ∨ ∃ notified, s.threads t = .waiting notified := by
  cases thread : s.threads t with
  | absent => exact Or.inl rfl
  | waiting notified => exact Or.inr ⟨notified, rfl⟩
  | working nNow fOk vChecks =>
    have some := sound.batches t nNow fOk vChecks thread
    have none := tally_eq_zero.mp (Nat.eq_zero_of_add_eq_zero_left done) t
    rw [thread] at none
    exact absurd none some.ne'

theorem Sound.noted_iff (done : s.load = 0) : s.Noted ↔ s.fAllOk = false := by
  refine or_iff_left ?_
  rintro ⟨t, failing⟩
  grind [sound.resting, failing]

theorem Sound.nothing_left (done : s.load = 0) :
    s.queue = [] ∧ tally checks s.threads = 0 := by
  refine ⟨eq_nil_of_length_eq_zero (Nat.eq_zero_of_add_eq_zero_right done), ?_⟩
  apply Finset.sum_eq_zero
  intro t _
  grind [sound.resting, checks]

variable {old : Thread T}

/-- The master works or waits only in `Wait`. -/
theorem Sound.inWait (before : s.threads t = old) (inside : old ≠ .absent) (master : t = none) :
    s.control = .waiting := by
  subst master
  by_contra outside
  exact inside (before.symm.trans (sound.outside outside))

theorem Sound.recount (before : s.threads t = old) (inside : old.inside = 1) :
    s.nTotal - 1 + 1 = s.nTotal := by
  have some := le_tally Thread.inside s.threads t
  rw [before, inside, ← sound.total] at some
  exact Nat.sub_add_cancel some

end

variable {nNow : Nat} {fOk : Bool} {vChecks : List T}

/-- A thread has a batch only during a round. -/
theorem Sound.going (sound : Sound s)
    (working : s.threads t = .working nNow fOk vChecks) :
    s.control = .adding ∨ s.control = .waiting := by
  cases control : s.control with
  | adding => exact Or.inl rfl
  | waiting => exact Or.inr rfl
  | aborted => exact absurd control sound.asserted
  | returned fRet => grind [sound.resting (sound.returned fRet control).1 t]

/-- The assertion of the constructor holds between rounds. -/
theorem Sound.isIdle (sound : Sound s) {fRet : Bool} (returned : s.control = .returned fRet) :
    s.isIdle = true := by
  obtain ⟨done, ok, _⟩ := sound.returned fRet returned
  have same : tally inside s.threads = tally idle s.threads := by
    apply tally_congr
    intro t
    grind [sound.resting, inside, idle]
  unfold CCheckQueue.isIdle
  rw [sound.total, sound.idle, same, sound.todo_eq_zero.mpr done, ok]
  simp

variable {old thread : Thread T}

theorem load_setThread (before : s.threads t = old) (thread : Thread T) :
    (s.setThread t thread).load + old.taken = s.load + thread.taken := by
  have moved := tally_update taken s.threads t thread
  simp only [load, setThread]
  subst before
  omega

@[simp] theorem setThread_same : (s.setThread t thread).threads t = thread := update_self ..

/-- Which threads a change of one can set to a state. -/
theorem setThread_cases (thread : Thread T) (u : Option (Fin n)) :
    u = t ∧ (s.setThread t thread).threads u = thread ∨ u ≠ t ∧
    (s.setThread t thread).threads u = s.threads u := by
  by_cases here : u = t
  · rw [here]
    exact Or.inl ⟨rfl, setThread_same⟩
  · exact Or.inr ⟨here, update_of_ne here ..⟩

/-- The master moves only in `Wait`. -/
theorem Sound.outside_setThread (sound : Sound s)
    (master : t = none → s.control = .waiting ∨ thread = .absent) (outside : s.control ≠ .waiting) :
    (s.setThread t thread).threads none = .absent := by
  grind [setThread_cases, sound.outside]

variable {notified : Bool}

/-- A thread that moves on does not block the master. -/
theorem blocked_setThread (moves : thread.idle = 0)
    (blocked : (s.setThread t thread).threads none = .waiting notified) :
    s.threads none = .waiting notified := by
  grind [setThread_cases, idle]

/-- A thread outside of `Loop` has nothing to do with a failure. -/
theorem noted_setThread (before : s.threads t = old) (fine : old.failing = false)
    (after : thread.failing = true → s.fAllOk = false) :
    (s.setThread t thread).Noted ↔ s.Noted := by
  constructor
  · rintro (flag | ⟨u, _⟩)
    · exact Or.inl flag
    · grind [setThread_cases, Noted]
  · rintro (flag | ⟨u, _⟩)
    · exact Or.inl flag
    · refine Or.inr ⟨u, ?_⟩
      grind [setThread_cases]

variable {evaluated : List (T × Bool)} {skipped : List T}

/-- One thread goes on, and `finished` checks are done with. -/
theorem Counts.change (counts : Counts s) (before : s.threads t = old) (thread : Thread T)
    (finished : Nat) {queue : List T} {nIdle nTotal : Nat} {fAllOk : Bool} {nTodo : UInt32}
    (todo : nTodo + UInt32.ofNat finished = s.nTodo)
    (load : queue.length + thread.taken + finished = s.queue.length + old.taken)
    (idle : nIdle + old.idle = s.nIdle + thread.idle)
    (total : nTotal + old.inside = s.nTotal + thread.inside)
    (batch : ∀ nNow fOk vChecks, thread = .working nNow fOk vChecks → 0 < nNow)
    (kept : (s.queue + old.checks + (s.evaluated.map Prod.fst : Multiset T) + s.skipped :
    Multiset T) = queue + thread.checks + (evaluated.map Prod.fst : Multiset T) + skipped) :
    Counts { s.setThread t thread with
      queue := queue, nIdle := nIdle, nTotal := nTotal, fAllOk := fAllOk, nTodo := nTodo,
      evaluated := evaluated, skipped := skipped } := by
  subst before
  have taken := tally_update Thread.taken s.threads t thread
  have idles := tally_update Thread.idle s.threads t thread
  have insides := tally_update Thread.inside s.threads t thread
  have checks := tally_update Thread.checks s.threads t thread
  have less : queue.length + tally Thread.taken (update s.threads t thread) + finished =
      s.load := by
    unfold CCheckQueue.load
    omega
  refine ⟨?_, ?_, ?_, ?_, ?_, ?_⟩
  · dsimp only [CCheckQueue.load, setThread]
    rw [counts.todo, ← less, UInt32.ofNat_add] at todo
    exact (UInt32.add_left_inj _).mp todo
  · have fits := counts.fits
    dsimp only [CCheckQueue.load, setThread]
    omega
  · have before := counts.idle
    dsimp only [setThread]
    omega
  · have before := counts.total
    dsimp only [setThread]
    omega
  · intro u nNow fOk vChecks _
    grind [setThread_cases, counts.batches]
  · dsimp only [setThread]
    apply add_right_cancel (b := (s.threads t).checks)
    calc (s.added : Multiset T) + (s.threads t).checks
        = tally Thread.checks s.threads +
            (s.queue + (s.threads t).checks + (s.evaluated.map Prod.fst : Multiset T) +
              s.skipped) := by
          rw [counts.kept]
          abel
      _ = (tally Thread.checks s.threads + thread.checks) + queue +
        (evaluated.map Prod.fst : Multiset T) + skipped := by
          rw [kept]
          abel
      _ = queue + tally Thread.checks (update s.threads t thread) +
        (evaluated.map Prod.fst : Multiset T) + skipped + (s.threads t).checks := by
          rw [← checks]
          abel

/-- One thread goes on and nothing is finished. -/
theorem Sound.move (sound : Sound s) (before : s.threads t = old) (thread : Thread T)
    {queue : List T} {nIdle nTotal : Nat}
    (load : queue.length + thread.taken = s.queue.length + old.taken)
    (idle : nIdle + old.idle = s.nIdle + thread.idle)
    (total : nTotal + old.inside = s.nTotal + thread.inside)
    (batch : ∀ nNow fOk vChecks, thread = .working nNow fOk vChecks → 0 < nNow)
    (kept : (s.queue + old.checks : Multiset T) = queue + thread.checks)
    (fine : old.failing = false) (after : thread.failing = true → s.fAllOk = false)
    (master : t = none → s.control = .waiting ∨ thread = .absent)
    (blocked : ∀ notified, (s.setThread t thread).threads none = .waiting notified →
      queue = [] ∧ (notified = false → 0 < s.load)) :
    Sound { s.setThread t thread with queue := queue, nIdle := nIdle, nTotal := nTotal } := by
  have same : { s.setThread t thread with queue := queue }.load = s.load := by
    have moved := load_setThread before thread
    simp only [CCheckQueue.load, setThread] at moved ⊢
    omega
  refine ⟨sound.change before thread 0 (UInt32.add_zero _) load idle total batch
    (by rw [kept]; rfl), sound.skipped, ?_, ?_, sound.outside_setThread master, ?_, sound.asserted⟩
  · intro going
    exact (noted_setThread before fine after).trans (sound.running going)
  · intro fRet returned
    obtain ⟨done, rest⟩ := sound.returned fRet returned
    exact ⟨same.trans done, rest⟩
  · intro notified waiting
    obtain ⟨empty, left⟩ := blocked notified waiting
    exact ⟨empty, fun unnotified => lt_of_lt_of_eq (left unnotified) same.symm⟩

/-- The queue is empty and there is work left: the thread waits. -/
theorem Sound.block (sound : Sound s) (absent : s.threads t = .absent) (empty : s.queue = [])
    (master : t = none → s.control = .waiting ∧ 0 < s.load) :
    Sound { s.setThread t (.waiting false) with nTotal := s.nTotal + 1, nIdle := s.nIdle + 1 } := by
  refine sound.move absent (.waiting false) rfl rfl rfl nofun rfl rfl nofun
    (fun here => .inl (master here).1) ?_
  intro notified waiting
  refine ⟨empty, fun unnotified => ?_⟩
  rcases setThread_cases (s := s) (t := t) (.waiting false) none with ⟨here, _⟩ | ⟨_, same⟩
  · exact (master here.symm).2
  · exact (sound.blocked notified (same.symm.trans waiting)).2 unnotified

variable (nBatchSize : Nat)

theorem batchSize_le (ne : s.queue ≠ []) : s.batchSize nBatchSize ≤ s.queue.length := by
  refine max_le (length_pos_of_ne_nil ne) ?_
  calc min nBatchSize (s.queue.length % 2 ^ 32 / (s.nTotal + s.nIdle + 1))
      ≤ s.queue.length % 2 ^ 32 / (s.nTotal + s.nIdle + 1) := min_le_right ..
    _ ≤ s.queue.length % 2 ^ 32 := div_le_self ..
    _ ≤ s.queue.length := mod_le ..

theorem Sound.take (sound : Sound s) (absent : s.threads t = .absent) (some : 1 ≤ nNow)
    (enough : nNow ≤ s.queue.length) (master : t = none → s.control = .waiting) :
    Sound { s.setThread t (.working nNow s.fAllOk (s.queue.take nNow)) with
      nTotal := s.nTotal + 1, queue := s.queue.drop nNow } := by
  refine sound.move absent (.working nNow s.fAllOk (s.queue.take nNow)) ?_ rfl rfl ?_ ?_ rfl
    (Bool.not_eq_true' _).mp (fun here => .inl (master here)) ?_
  · rw [length_drop]
    exact Nat.sub_add_cancel enough
  · rintro _ _ _ ⟨⟩
    exact some
  · have split : (s.queue : Multiset T) = s.queue.drop nNow + (s.queue.take nNow : List T) := by
      rw [Multiset.coe_add, Multiset.coe_eq_coe]
      exact (List.Perm.of_eq (take_append_drop nNow s.queue).symm).trans perm_append_comm
    exact (add_zero _).trans split
  · intro notified waiting
    obtain ⟨empty, _⟩ := sound.blocked notified (blocked_setThread rfl waiting)
    rw [empty, length_nil] at enough
    omega

/-- The master returns when nothing is left to do. -/
theorem Sound.finish (sound : Sound s) (absent : s.threads none = .absent)
    (waits : s.control = .waiting) (done : s.load = 0) :
    Sound { s with fAllOk := true, control := .returned s.fAllOk } := by
  refine ⟨{ sound with }, sound.skipped, ?_, ?_, ?_,
    sound.blocked, ?_⟩
  · simp
  · rintro _ ⟨⟩
    exact ⟨done, rfl, (sound.noted_iff done).symm.trans (sound.running (Or.inr waits))⟩
  · intro _
    exact absent
  · rintro ⟨⟩

theorem enter_returns (absent : s.threads none = .absent) (empty : s.queue = [])
    (done : s.nTodo = 0) (nBatchSize : Nat) :
    s.enter nBatchSize none = { s with fAllOk := true, control := .returned s.fAllOk } := by
  have same : update s.threads none .absent = s.threads := by
    rw [← absent, update_eq_self]
  unfold enter serve
  rw [if_pos (isEmpty_iff.mpr empty), if_pos ⟨rfl, done⟩]
  dsimp only [setThread]
  rw [same, Nat.add_sub_cancel]

/-- How many checks the thread takes that enters. -/
def share (nBatchSize : Nat) (s : CCheckQueue T n) : Nat :=
  { s with nTotal := s.nTotal + 1 }.batchSize nBatchSize

theorem one_le_share : 1 ≤ s.share nBatchSize := le_max_left ..

theorem share_le (ne : s.queue ≠ []) : s.share nBatchSize ≤ s.queue.length :=
  batchSize_le (s := { s with nTotal := s.nTotal + 1 }) nBatchSize ne

theorem enter_takes (ne : s.queue ≠ []) (nBatchSize : Nat) : s.enter nBatchSize t =
      { s.setThread t
        (.working (s.share nBatchSize) s.fAllOk (s.queue.take (s.share nBatchSize))) with
        nTotal := s.nTotal + 1, queue := s.queue.drop (s.share nBatchSize) } := by
  unfold enter serve
  rw [if_neg (mt List.isEmpty_iff.mp ne)]
  rfl

section

variable (sound : Sound s)
include sound

theorem Sound.enter (absent : s.threads t = .absent) (master : t = none → s.control = .waiting)
    (nBatchSize : Nat) : Sound (s.enter nBatchSize t) := by
  by_cases empty : s.queue = []
  · by_cases last : t = none ∧ s.nTodo = 0
    · obtain ⟨rfl, done⟩ := last
      rw [enter_returns absent empty done]
      exact sound.finish absent (master rfl) (sound.todo_eq_zero.mp done)
    · unfold CCheckQueue.enter serve
      rw [if_pos (isEmpty_iff.mpr empty), if_neg last]
      refine sound.block absent empty ?_
      rintro rfl
      refine ⟨master rfl, pos_of_ne_zero ?_⟩
      intro done
      exact last ⟨rfl, sound.todo_eq_zero.mpr done⟩
  · rw [enter_takes empty]
    exact sound.take absent (one_le_share nBatchSize) (share_le nBatchSize empty) master

/-- Notifications do no harm. -/
theorem Sound.notify {threads : Option (Fin n) → Thread T}
    (notified : ∀ t, threads t = s.threads t ∨ threads t = (s.threads t).notified) :
    Sound { s with threads := threads } := by
  -- Nothing but the notifications can be told apart.
  have unchanged : ∀ {M : Type} (f : Thread T → M), (∀ b, f (.waiting b) = f (.waiting true)) →
      ∀ t, f (threads t) = f (s.threads t) := by
    intro M f _ t
    cases thread : s.threads t <;> grind [notified]
  have load : { s with threads := threads }.load = s.load := by
    unfold load
    rw [tally_congr (unchanged taken fun _ => rfl)]
  refine ⟨⟨?_, ?_, ?_, ?_, ?_, ?_⟩, sound.skipped, ?_, ?_, ?_, ?_, sound.asserted⟩
  · rw [load]
    exact sound.todo
  · rw [load]
    exact sound.fits
  · exact sound.idle.trans (tally_congr (unchanged idle fun _ => rfl)).symm
  · exact sound.total.trans (tally_congr (unchanged inside fun _ => rfl)).symm
  · intro t nNow fOk vChecks working
    rcases notified t with same | woken
    · exact sound.batches t nNow fOk vChecks (same.symm.trans working)
    · exact sound.batches t nNow fOk vChecks (notified_eq_working (woken.symm.trans working))
  · rw [tally_congr (unchanged checks fun _ => rfl)]
    exact sound.kept
  · intro going
    have noted : { s with threads := threads }.Noted ↔ s.Noted := by
      unfold Noted
      simp [unchanged failing fun _ => rfl]
    exact noted.trans (sound.running going)
  · intro fRet returned
    obtain ⟨done, rest⟩ := sound.returned fRet returned
    exact ⟨load.trans done, rest⟩
  · intro outside
    have absent := sound.outside outside
    grind [notified]
  · intro b waiting
    rcases notified none with same | _
    · obtain ⟨empty, unnotified⟩ := sound.blocked b (same.symm.trans waiting)
      exact ⟨empty, fun blocked => lt_of_lt_of_eq (unnotified blocked) load.symm⟩
    · cases old : s.threads none <;> grind [notified, sound.blocked]

theorem Sound.unblock (waiting : s.threads t = .waiting notified) :
    Sound { s.setThread t .absent with nTotal := s.nTotal - 1, nIdle := s.nIdle - 1 } := by
  have someIdle := sound.idle ▸ le_tally idle s.threads t
  rw [waiting] at someIdle
  refine sound.move waiting .absent rfl (Nat.sub_add_cancel someIdle)
    (sound.recount waiting rfl) nofun rfl rfl nofun (fun _ => .inr rfl) ?_
  intro b blocked
  exact sound.blocked b (blocked_setThread rfl blocked)

/-- A thread that is done with its batch leaves. The master is not left waiting when nothing
else is to be done. -/
theorem Sound.leave (working : s.threads t = .working nNow fOk [])
    (told : s.threads none = .waiting false → s.load ≠ nNow) :
    Sound { s.setThread t .absent with
      nTotal := s.nTotal - 1, fAllOk := s.fAllOk && fOk, nTodo := s.nTodo - ofNat nNow } := by
  have load : (s.setThread t .absent).load + nNow = s.load := load_setThread working .absent
  have some := sound.batches t nNow fOk [] working
  refine ⟨?_, sound.skipped, ?_, ?_, sound.outside_setThread fun _ => .inr rfl, ?_, sound.asserted⟩
  · exact sound.change working .absent nNow (UInt32.sub_add_cancel ..) rfl rfl
      (sound.recount working rfl) nofun rfl
  · intro going
    refine Iff.trans ?_ (sound.running going)
    have here : (s.threads t).failing = !fOk := by rw [working]; rfl
    have moved := fun u => setThread_cases (s := s) (t := t) .absent u
    constructor
    · rintro (_ | ⟨u, failing⟩)
      · grind [Noted]
      · grind [Noted, failing]
    · rintro (_ | ⟨u, failing⟩)
      · grind [Noted]
      · rcases moved u with ⟨rfl, _⟩ | ⟨_, same⟩
        · grind [Noted]
        · exact Or.inr ⟨u, (congrArg Thread.failing same).trans failing⟩
  · intro fRet returned
    have done := (sound.returned fRet returned).1
    omega
  · intro b blocked
    have old := blocked_setThread rfl blocked
    refine ⟨(sound.blocked b old).1, ?_⟩
    rintro rfl
    have more := told old
    change 0 < (s.setThread t .absent).load
    omega

end

theorem serve_setThread (thread : Thread T) :
    (s.setThread t thread).serve nBatchSize t = s.serve nBatchSize t := by
  unfold serve setThread batchSize
  simp

variable {nBatchSize : Nat} (sound : Sound s)
include sound

theorem Sound.wake (woke : s.wake nBatchSize t = some s') : Sound s' := by
  unfold CCheckQueue.wake at woke
  split at woke
  case h_2 => cases woke
  case h_1 notified waiting =>
    cases woke
    have entered := (sound.unblock waiting).enter (t := t) (update_self ..)
      (sound.inWait waiting nofun) nBatchSize
    unfold CCheckQueue.enter at entered
    rw [sound.recount waiting rfl] at entered
    rw [← serve_setThread]
    exact entered

/-- The notification of the master can as well come first. -/
theorem Sound.tell (working : s.threads t = .working nNow fOk []) :
    ∃ s₁ : CCheckQueue T n, Sound s₁ ∧ s₁.threads t = .working nNow fOk [] ∧
      (s₁.threads none = .waiting false → s₁.load ≠ nNow) ∧ s₁.control = s.control ∧
      s.cleanUp t nNow fOk =
        { s₁ with fAllOk := s₁.fAllOk && fOk, nTodo := s₁.nTodo - ofNat nNow } := by
  unfold cleanUp
  dsimp only
  split
  case isTrue last =>
    refine ⟨s.notifyMaster, sound.notify ?_, (update_of_ne last.2 ..).trans working, ?_, rfl, rfl⟩
    · intro u
      rcases setThread_cases (s := s) (t := none) (s.threads none).notified u with
        ⟨rfl, same⟩ | ⟨_, same⟩
      · exact Or.inr same
      · exact Or.inl same
    · intro blocked
      have told : s.notifyMaster.threads none = (s.threads none).notified := setThread_same
      exact absurd (told.symm.trans blocked) (notified_ne_blocked _)
  case isFalse more =>
    refine ⟨s, sound, working, ?_, rfl, rfl⟩
    intro blocked last
    refine more ⟨?_, ?_⟩
    · rw [sound.todo, last, UInt32.sub_self]
    · rintro rfl
      cases working.symm.trans blocked

theorem Sound.resume (resumed : s.resume nBatchSize t = some s') : Sound s' := by
  unfold CCheckQueue.resume at resumed
  split at resumed
  case h_2 => cases resumed
  case h_1 nNow fOk working =>
    cases resumed
    obtain ⟨_, sound₁, working₁, told, control, same⟩ := sound.tell working
    have entered := (sound₁.leave working₁ told).enter (t := t) (update_self ..)
      (fun here => control.trans (sound.inWait working nofun here)) nBatchSize
    unfold CCheckQueue.enter at entered
    rw [sound₁.recount working₁ rfl] at entered
    rw [same, ← serve_setThread]
    exact entered

/-- A check of a batch is evaluated or passed over. -/
theorem Sound.check {check : T} (working : s.threads t = .working nNow fOk (check :: vChecks))
    (result : Bool)
    (made : fOk = true ∧ evaluated = (check, result) :: s.evaluated ∧ skipped = s.skipped ∨
      fOk = false ∧ result = false ∧ evaluated = s.evaluated ∧ skipped = check :: s.skipped) :
    Sound { s.setThread t (.working nNow result vChecks) with
      evaluated := evaluated, skipped := skipped } := by
  have going := sound.going working
  have some := sound.batches t nNow fOk (check :: vChecks) working
  have load : (s.setThread t (.working nNow result vChecks)).load = s.load :=
    add_right_cancel (load_setThread working (.working nNow result vChecks))
  refine ⟨?_, ?_, ?_, ?_, ?_, ?_, sound.asserted⟩
  · apply sound.change working (.working nNow result vChecks) 0 (UInt32.add_zero _) rfl rfl rfl
    · rintro _ _ _ ⟨⟩
      exact some
    · simp only [checks, ← Multiset.cons_coe, ← Multiset.singleton_add]
      rcases made with ⟨_, rfl, rfl⟩ | ⟨_, _, rfl, rfl⟩
      · simp only [map_cons, ← Multiset.cons_coe, ← Multiset.singleton_add]
        abel
      · simp only [← Multiset.cons_coe, ← Multiset.singleton_add]
        abel
  · rcases made with ⟨_, rfl, rfl⟩ | ⟨failed, _, rfl, rfl⟩
    · intro some
      obtain ⟨other, mem⟩ := sound.skipped some
      exact ⟨other, mem_cons_of_mem _ mem⟩
    · intro _
      apply (sound.running going).mp
      refine Or.inr ⟨t, ?_⟩
      rw [working, failed]
      rfl
  · intro _
    rcases made with ⟨passed, rfl, rfl⟩ | ⟨failed, rfl, rfl, rfl⟩
    · cases result with
      | true =>
        have noted : (s.setThread t (.working nNow true vChecks)).Noted ↔ s.Noted := by
          exact noted_setThread working (by rw [passed]; rfl) nofun
        refine (noted.trans (sound.running going)).trans ?_
        simp [Failed]
      | false =>
        refine iff_of_true (Or.inr ⟨t, ?_⟩) ⟨check, mem_cons_self⟩
        exact congrArg failing setThread_same
    · refine iff_of_true (Or.inr ⟨t, congrArg failing setThread_same⟩) ?_
      apply (sound.running going).mp
      refine Or.inr ⟨t, ?_⟩
      rw [working, failed]
      rfl
  · intro _ returned
    rcases going with adding | waiting
    · cases adding.symm.trans returned
    · cases waiting.symm.trans returned
  · exact sound.outside_setThread fun here => .inl (sound.inWait working nofun here)
  · intro b blocked
    obtain ⟨empty, unnotified⟩ := sound.blocked b (blocked_setThread rfl blocked)
    exact ⟨empty, fun still => lt_of_lt_of_eq (unnotified still) load.symm⟩

theorem Sound.evaluate {result : Bool} (evaluated : s.evaluate t result = some s') : Sound s' := by
  unfold CCheckQueue.evaluate at evaluated
  split at evaluated
  case h_1 nNow check vChecks working =>
    cases evaluated
    exact sound.check working result (Or.inl ⟨rfl, rfl, rfl⟩)
  case h_2 nNow check vChecks working =>
    cases evaluated
    exact sound.check working false (Or.inr ⟨rfl, rfl, rfl, rfl⟩)
  case h_3 => cases evaluated

theorem Sound.construct (constructed : s.construct = some s') : Sound s' := by
  unfold CCheckQueue.construct at constructed
  split at constructed
  case h_2 => cases constructed
  case h_1 fRet returned =>
    cases constructed
    rw [sound.isIdle returned]
    obtain ⟨done, ok, _⟩ := sound.returned fRet returned
    have absent := sound.outside (by rw [returned]; rintro ⟨⟩)
    obtain ⟨empty, left⟩ := sound.nothing_left done
    refine ⟨⟨sound.todo, sound.fits, sound.idle, sound.total, sound.batches, ?_⟩, ?_, ?_,
      ?_, ?_, ?_, ?_⟩
    · rw [left, empty]
      rfl
    · intro some
      exact absurd rfl some
    · intro _
      refine (sound.noted_iff done).trans ?_
      simp [Failed, ok]
    · rintro _ ⟨⟩
    · intro _
      exact absent
    · exact sound.blocked
    · rintro ⟨⟩

theorem Sound.wait (waited : s.wait nBatchSize = some s') : Sound s' := by
  unfold CCheckQueue.wait at waited
  split at waited
  case isFalse => cases waited
  case isTrue adding =>
    cases waited
    have absent := sound.outside (by rw [adding]; rintro ⟨⟩)
    have waits : Sound { s with control := .waiting } := by
      refine ⟨{ sound with }, sound.skipped, ?_, ?_, ?_,
        sound.blocked, ?_⟩
      · intro _
        exact sound.running (Or.inl adding)
      · rintro _ ⟨⟩
      · intro outside
        exact absurd rfl outside
      · rintro ⟨⟩
    exact waits.enter absent (fun _ => rfl) nBatchSize

theorem Sound.push (adding : s.control = .adding) (absent : s.threads none = .absent)
    (fits : s.load + vChecks.length < 2 ^ 32) :
    Sound { s with
      queue := vChecks.reverse ++ s.queue, nTodo := s.nTodo + ofNat vChecks.length,
      added := s.added ++ vChecks } := by
  have load : { s with queue := vChecks.reverse ++ s.queue }.load = s.load + vChecks.length := by
    simp only [load, length_append, length_reverse]
    omega
  refine ⟨⟨?_, ?_, sound.idle, sound.total, sound.batches, ?_⟩, sound.skipped, sound.running, ?_,
    sound.outside, ?_, sound.asserted⟩
  · rw [sound.todo, ← ofNat_add]
    exact congrArg ofNat load.symm
  · exact lt_of_eq_of_lt load fits
  · have reversed : ((vChecks.reverse ++ s.queue : List T) : Multiset T) = vChecks + s.queue := by
      rw [← Multiset.coe_add, Multiset.coe_reverse]
    rw [← Multiset.coe_add, reversed, sound.kept]
    abel
  · intro _ returned
    cases adding.symm.trans returned
  · intro b blocked
    cases absent.symm.trans blocked

theorem Sound.add {woken : Option (Fin n)}
    (fits : s.load + vChecks.length < 2 ^ 32) (added : s.add vChecks woken = some s') :
    Sound s' := by
  unfold CCheckQueue.add at added
  split at added
  case isFalse => cases added
  case isTrue adding =>
    have absent := sound.outside (by rw [adding]; rintro ⟨⟩)
    have pushed := sound.push adding absent fits
    dsimp only at added
    split at added
    · unfold notifyOne at added
      split at added
      case h_1 u =>
        split at added
        case isFalse => cases added
        case isTrue blocked =>
          cases added
          refine pushed.notify ?_
          intro v
          rcases setThread_cases (s := s) (t := some u) (.waiting true) v with
            ⟨rfl, same⟩ | ⟨_, same⟩
          · exact Or.inr (same.trans (notified_of_isBlocked blocked).symm)
          · exact Or.inl same
      case h_2 =>
        split at added
        · cases added
          exact pushed
        · cases added
    · split at added
      · cases added
        exact pushed.notify (fun u => by grind)
      · cases added
        exact pushed

theorem Sound.step {action : Action T n} (fits : s.Fits action)
    (stepped : s.step nBatchSize action = some s') : Sound s' := by
  cases action with
  | thread t =>
    change s.thread nBatchSize t = some s' at stepped
    unfold thread at stepped
    split at stepped
    case h_1 absent =>
      cases stepped
      exact sound.enter absent nofun nBatchSize
    case h_2 => cases stepped
  | evaluate t _ => exact sound.evaluate stepped
  | resume t => exact sound.resume stepped
  | wake t => exact sound.wake stepped
  | construct => exact sound.construct stepped
  | add _ _ => exact sound.add fits stepped
  | wait => exact sound.wait stepped

end CCheckQueue

end Zcashd.Source

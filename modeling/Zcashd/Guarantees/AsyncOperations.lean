import Zcashd.Lib.Runs
import Zcashd.Abstract.OperationStates

/-!
# Asynchronous operations

`cancel` tests the state and stores `CANCELLED` in two steps, and so does `main` with
`EXECUTING`; nothing keeps the two apart. As long as an operation is marked as cancelled only
when it is and no worker is past its own test, is accepted once, and is not popped out of the map
while it waits in the queue, every operation takes one of the ways it should.
-/
namespace Zcashd.Guarantees.AsyncOperations

open Lib Source Source.AsyncRPCQueue

theorem operations_end_once (s : AsyncRPCQueue) (reached : Reached step Careful new s) :
    (∀ action s', s.step action = some s' → s.Careful action → s.Advances s') ∧
    (∀ action operation s', s.cancels action = some operation → s.step action = some s' →
      ¬ s.Cancellable operation →
      ¬ s.Advances s' ∨ ∃ i s'', s'.workerStep i true = some s'' ∧ ¬ s'.Advances s'') ∧
    (∀ operation, s.state_ operation = .CANCELLED → s.executions operation = 0) ∧
    (∀ operation, s.executions operation ≤ 1) ∧
    (s.finish_ = true → s.closed_ = false → (∀ i, s.workers i = .absent ∨ s.workers i = .exited) →
      (∃ i, s.workers i = .exited) → ∀ operation ∈ s.accepted, s.state_ operation ≠ .CANCELLED →
      s.executions operation = 1 ∧
      (s.state_ operation = .SUCCESS ∨ s.state_ operation = .FAILED)) := by
  have consistent : Consistent s := reached.invariant consistent_new
    fun _ _ _ consistent careful stepped => (consistent.step careful stepped).1
  refine ⟨?_, ?_, ?_, consistent.executions_le, ?_⟩
  · intro _ _ stepped careful
    exact (consistent.step careful stepped).2
  · intro _ _ _ marks stepped uncancellable
    exact uncancellable_moves marks stepped uncancellable
  · intro operation cancelled
    exact (consistent.unexecuted operation (Or.inr cancelled)).1
  · rintro _ openQueue idle ⟨i, exited⟩ _ member uncancelled
    exact consistent.left openQueue idle exited member uncancelled

/-- Of two operations one is cancelled before a worker gets to it; the other is executed, and
the worker exits after `finish`. -/
def served : List Action :=
  [.addWorker 0, .addOperation "opid-1", .addOperation "opid-2", .cancel 0 "opid-2", .worker 0 true,
    .cancelStore 0,
    .worker 0 true, .worker 0 true, .finish, .worker 0 true, .worker 0 true, .worker 0 true,
    .worker 0 true, .worker 0 true]

variable {s : AsyncRPCQueue}

/-- No worker but the first does anything, and it is not past the test yet. -/
theorem opid2_cancellable (ran : (served.take 5).foldlM step new = some s) :
    s.Cancellable "opid-2" := by
  cases ran
  refine Or.inr ⟨rfl, ?_⟩
  intro i entered
  by_cases here : i = 0
  · rw [here] at entered
    cases entered
  · simp [AsyncRPCQueue.setWorker, setClient, new, here] at entered

theorem served_reached : ∃ s, served.foldlM step new = some s ∧ Reached step Careful new s := by
  have begun : Reached step Careful new new := .start
  have work : ∀ {s s'}, Reached step Careful new s → s.step (.worker 0 true) = some s' →
      Reached step Careful new s' :=
    fun reached => reached.next trivial
  have added :=
    ((begun.next (l := Action.addWorker 0) trivial rfl).next (l := Action.addOperation "opid-1")
    (Or.inl (by decide)) rfl).next (l := Action.addOperation "opid-2") (Or.inl (by decide)) rfl
  have fetched := work (added.next (l := Action.cancel 0 "opid-2") trivial rfl) rfl
  have cancelled := fetched.next (l := Action.cancelStore 0)
    (fun _ target => Option.some.inj target ▸ opid2_cancellable rfl) rfl
  have begins := work (work cancelled rfl) rfl
  have ends := work (work (begins.next (l := Action.finish) trivial rfl) rfl) rfl
  have exits := work (work (work ends rfl) rfl) rfl
  exact ⟨_, rfl, exits⟩

theorem served_idle (ran : served.foldlM step new = some s) (i : Nat) :
    s.workers i = .absent ∨ s.workers i = .exited := by
  cases ran
  by_cases here : i = 0
  · rw [here]
    exact Or.inr rfl
  · refine Or.inl ?_
    simp [AsyncRPCQueue.setWorker, setState, setClient, new, here]

theorem operations_end_once_served :
    ∃ s, served.foldlM step new = some s ∧ s.accepted = ["opid-1", "opid-2"] ∧
      s.executions "opid-1" = 1 ∧ s.state_ "opid-1" = .SUCCESS ∧
      s.executions "opid-2" = 0 ∧ s.state_ "opid-2" = .CANCELLED := by
  obtain ⟨s, ran, reached⟩ := served_reached
  obtain ⟨_, _, cancelled, _, finished⟩ := operations_end_once s reached
  have idle := served_idle ran
  cases ran
  have executed := finished rfl rfl idle ⟨0, rfl⟩ "opid-1" (by decide) (by decide)
  exact ⟨_, rfl, rfl, executed.1, rfl, cancelled "opid-2" rfl, rfl⟩

/-- A client finds the operation ready; the worker begins it before the client marks it as
cancelled, and then marks it as done. An operation that is popped before a worker fetches it is
never executed, and one that is added twice is executed twice. -/
theorem executing_operation_cancelled :
    (∃ s s' s'',
      [Action.addWorker 0, .addOperation "opid-1", .worker 0 true, .worker 0 true, .worker 0 true,
        .cancel 0 "opid-1", .worker 0 true].foldlM step new = some s ∧
      s.state_ "opid-1" = .EXECUTING ∧ s.step (.cancelStore 0) = some s' ∧
      s'.state_ "opid-1" = .CANCELLED ∧ s'.executions "opid-1" = 1 ∧
      s'.step (.worker 0 true) = some s'' ∧ s''.state_ "opid-1" = .SUCCESS) ∧
    (∃ s,
      [Action.addWorker 0, .addOperation "opid-1", .findToPop 0 "opid-1", .eraseToPop 0, .finish,
        .worker 0 true, .worker 0 true, .worker 0 true].foldlM step new = some s ∧
      s.workers 0 = .exited ∧
      "opid-1" ∈ s.accepted ∧ s.state_ "opid-1" = .READY ∧ s.executions "opid-1" = 0) ∧
    ∃ s,
      [Action.addWorker 0, .addOperation "opid-1", .addOperation "opid-1", .worker 0 true,
        .worker 0 true, .worker 0 true, .worker 0 true, .worker 0 true, .worker 0 true,
        .worker 0 true, .worker 0 true, .worker 0 true].foldlM step new = some s ∧
      s.executions "opid-1" = 2 := by
  refine ⟨⟨_, _, _, rfl, rfl, rfl, rfl, rfl, rfl, rfl⟩, ⟨_, rfl, rfl, ?_, rfl, rfl⟩, ⟨_, rfl, rfl⟩⟩
  decide

end Zcashd.Guarantees.AsyncOperations

import Zcashd.Source.AsyncRPCQueue

/-!
Where an operation can be while the queue works: waiting in it, with one worker, or done with.
`Consistent` says what goes with what, and every step in which care is taken keeps it. A step
concerns one operation and the worker that has it; the cases about the others are routine, and
`grind` closes them from the fields of `Consistent`.
-/
namespace Zcashd.Source.AsyncRPCQueue

open Function AsyncRPCQueue

/-- Which operations are queued, held by a worker, or done with. -/
structure Consistent (s : AsyncRPCQueue) : Prop where
  nodup : s.operation_id_queue_.Nodup
  queued : ∀ operation ∈ s.operation_id_queue_,
    (operation ∈ s.operation_map_ ∨ s.state_ operation = .CANCELLED) ∧
    operation ∈ s.accepted ∧ ∀ i, (s.workers i).operation ≠ some operation
  held : ∀ i operation, (s.workers i).operation = some operation → operation ∈ s.accepted
  alone : ∀ i j operation, (s.workers i).operation = some operation →
    (s.workers j).operation = some operation → i = j
  unexecuted : ∀ operation, s.state_ operation = .READY ∨ s.state_ operation = .CANCELLED →
    s.executions operation = 0 ∧ ∀ i, s.workers i ≠ .executing operation
  running : ∀ operation, s.state_ operation = .EXECUTING →
    s.executions operation = 1 ∧ ∃ i, s.workers i = .executing operation
  ended : ∀ operation, s.state_ operation = .SUCCESS ∨ s.state_ operation = .FAILED →
    s.executions operation = 1 ∧ operation ∈ s.accepted ∧ operation ∉ s.operation_id_queue_ ∧
      ∀ i, (s.workers i).operation ≠ some operation
  entered : ∀ i operation, s.workers i = .entered operation → s.state_ operation = .READY
  located : s.closed_ = false → ∀ operation ∈ s.accepted, operation ∈ s.operation_id_queue_ ∨
    (∃ i, (s.workers i).operation = some operation) ∨ s.state_ operation = .SUCCESS ∨
    s.state_ operation = .FAILED ∨ s.state_ operation = .CANCELLED
  exited : ∀ i, s.workers i = .exited → s.closed_ = true ∨ s.finish_ = true ∧
    s.operation_id_queue_ = []

theorem consistent_new : Consistent new where
  nodup := List.nodup_nil
  queued _ mem := nomatch mem
  held _ _ holds := nomatch holds
  alone _ _ _ holds := nomatch holds
  unexecuted _ _ := ⟨rfl, fun _ busy => nomatch busy⟩
  running _ state := nomatch state
  ended _ state := by simp [new] at state
  entered _ _ busy := nomatch busy
  located _ _ mem := nomatch mem
  exited _ gone := nomatch gone

variable {s s' : AsyncRPCQueue} {i j : Nat} {worker : Worker}
  {operation other : AsyncRPCOperationId}

/-- The operation of a worker that is not executing it, nor about to, is ready or cancelled. -/
theorem Consistent.held_state (consistent : Consistent s)
    (holds : (s.workers i).operation = some operation) (idle : s.workers i ≠ .executing operation) :
    s.state_ operation = .READY ∨ s.state_ operation = .CANCELLED := by
  have running := consistent.running operation
  have alone := consistent.alone i
  have ended := consistent.ended operation
  cases state : s.state_ operation <;> grind [Worker.operation]

/-- A worker that works on its operation has set its state. -/
theorem Consistent.executing (consistent : Consistent s)
    (busy : s.workers i = .executing operation) :
    s.state_ operation = .EXECUTING := by
  have unexecuted := consistent.unexecuted operation
  have ended := consistent.ended operation
  cases state : s.state_ operation <;> grind [Worker.operation]

theorem update_eq {α : Type} {β : Type} [DecidableEq α] (f : α → β) (a : α) (b : β) :
    update f a b = fun x => if x = a then b else f x := funext fun _ => update_apply ..

section

variable (consistent : Consistent s)
include consistent

/-- A worker without an operation goes on without one. -/
theorem Consistent.setIdle (free : (s.workers i).operation = none) (free' : worker.operation = none)
    (leaves : worker = .exited → s.closed_ = true ∨ s.finish_ = true ∧ s.operation_id_queue_ = []) :
    Consistent (s.setWorker i worker) := by
  cases consistent
  simp only [setWorker, update_eq]
  constructor <;> grind [Worker.operation]

/-- A worker drops its operation if that is cancelled, and goes on with it if it is not. -/
theorem Consistent.test (holds : (s.workers i).operation = some operation)
    (idle : s.workers i ≠ .executing operation) (keeps : worker.operation = some operation)
    (idle' : worker ≠ .executing operation) :
    Consistent (s.setWorker i (if s.state_ operation = .CANCELLED then .fetching else worker)) := by
  have state := consistent.held_state holds idle
  cases consistent
  simp only [setWorker, update_eq]
  constructor <;> grind [Worker.operation]

/-- Cancelled operations may leave the queue, and all may once it is closed. -/
theorem Consistent.dequeue {queue : List AsyncRPCOperationId}
    (keeps : queue.Sublist s.operation_id_queue_)
    (drops : ∀ operation ∈ s.operation_id_queue_, operation ∈ queue ∨ s.closed_ = true ∨
      s.state_ operation = .CANCELLED) : Consistent { s with operation_id_queue_ := queue } := by
  have nodup := consistent.nodup.sublist keeps
  cases consistent
  constructor <;> grind

/-- A worker takes the first operation of the queue. -/
theorem Consistent.pick {rest : List AsyncRPCOperationId}
    (free : (s.workers i).operation = none) (first : s.operation_id_queue_ = operation :: rest) :
    Consistent ({ s with operation_id_queue_ := rest }.setWorker i (.picked (some operation))) := by
  obtain ⟨nodup, queued, _, _, _, _, ended, _, located, exited⟩ := consistent
  rw [first] at nodup queued ended located exited
  simp only [setWorker, update_eq]
  constructor <;> grind [Worker.operation]

theorem Consistent.fetch (free : s.workers i = .fetching) (taken : s.fetch i = some s') :
    Consistent s' ∧ s'.state_ = s.state_ := by
  have unheld : (s.workers i).operation = none := by
    rw [free]
    rfl
  unfold AsyncRPCQueue.fetch at taken
  split at taken
  · cases taken
    exact ⟨consistent.setIdle unheld rfl (fun gone => (nomatch gone)), rfl⟩
  · split at taken
    · rename_i done
      cases taken
      simp only [Bool.and_eq_true, List.isEmpty_iff] at done
      exact ⟨consistent.setIdle unheld rfl (fun _ => Or.inr done), rfl⟩
    · split at taken
      · rename_i closed
        cases taken
        have cleared := consistent.dequeue (List.nil_sublist _) (fun _ _ => Or.inr (Or.inl closed))
        exact ⟨cleared.setIdle unheld rfl (fun _ => Or.inl closed), rfl⟩
      · split at taken
        · cases taken
        · rename_i key rest first
          cases taken
          refine ⟨?_, rfl⟩
          split
          · exact consistent.pick unheld first
          · rename_i unmapped
            have cancelled :=
              (consistent.queued key (first ▸ List.mem_cons_self)).1.resolve_left unmapped
            have dropped : Consistent { s with operation_id_queue_ := rest } := by
              refine consistent.dequeue (first ▸ List.sublist_cons_self ..) ?_
              grind
            exact dropped.setIdle unheld rfl (fun gone => (nomatch gone))

/-- A worker begins the work of its operation. -/
theorem Consistent.begin (busy : s.workers i = .entered operation) :
    Consistent { (s.setState operation .EXECUTING).setWorker i (.executing operation) with
      executions := update s.executions operation (s.executions operation + 1) } := by
  cases consistent
  simp only [setWorker, setState, update_eq]
  constructor <;> grind [Worker.operation]

/-- A worker ends the work of its operation. -/
theorem Consistent.complete (busy : s.workers i = .executing operation) (ran : Bool) :
    Consistent
      ((s.setState operation (if ran then .SUCCESS else .FAILED)).setWorker i .fetching) := by
  have state := consistent.executing busy
  cases consistent
  simp only [setWorker, setState, update_eq]
  constructor <;> grind [Worker.operation]

/-- An operation that can be cancelled is. -/
theorem Consistent.cancelled (cancellable : s.Cancellable operation)
    (clients : Nat → Client) :
    Consistent { s.setState operation .CANCELLED with clients := clients } := by
  cases consistent
  unfold setState
  constructor <;> grind [Cancellable]

end

variable {operation_map_ : List AsyncRPCOperationId}

/-- An operation that is new to an open queue joins it. -/
theorem Consistent.accept (consistent : Consistent s) (fresh : operation ∉ s.accepted)
    (openQueue : s.closed_ = false) (unfinished : s.finish_ = false)
    (keeps : s.operation_map_ ⊆ operation_map_) (adds : operation ∈ operation_map_) :
    Consistent { s with
      operation_map_ := operation_map_, operation_id_queue_ := s.operation_id_queue_ ++ [operation],
      accepted := s.accepted ++ [operation] } := by
  cases consistent
  constructor <;> grind

theorem Consistent.addOperation (consistent : Consistent s)
    (careful : operation ∉ s.accepted ∨ s.closed_ = true ∨ s.finish_ = true)
    (added : s.addOperation operation = some s') : Consistent s' ∧ s'.state_ = s.state_ := by
  unfold AsyncRPCQueue.addOperation at added
  split at added
  · cases added
  split at added
  case isTrue =>
    cases added
    exact ⟨consistent, rfl⟩
  case isFalse running =>
    rw [Bool.or_eq_true] at running
    have fresh := careful.resolve_right running
    rw [not_or, Bool.not_eq_true, Bool.not_eq_true] at running
    cases added
    refine ⟨consistent.accept fresh running.1 running.2 ?_ ?_, rfl⟩
    · grind
    · grind

/-- The clients, the lock and the ids of operations that wait no more do not matter, and the
flags are only set. -/
theorem Consistent.frame (consistent : Consistent s) (clients : Nat → Client)
    (lockHolder : Option Nat) {closed_ finish_ : Bool} (closes : s.closed_ = true → closed_ = true)
    (finishes : s.finish_ = true → finish_ = true)
    (maps : ∀ operation ∈ s.operation_id_queue_, operation ∈ s.operation_map_ →
      operation ∈ operation_map_ ∨ s.state_ operation = .CANCELLED) :
    Consistent { s with
      clients := clients, lockHolder := lockHolder, closed_ := closed_, finish_ := finish_,
      operation_map_ := operation_map_ } := by
  cases consistent
  constructor <;> grind

/-- No operation changes its state, or one makes a move. -/
def Advances (s s' : AsyncRPCQueue) : Prop :=
  ∀ operation, s'.state_ operation = s.state_ operation ∨
    (s.state_ operation).Moves (s'.state_ operation)

theorem advances_of_eq (same : s'.state_ = s.state_) : s.Advances s' :=
  fun operation => Or.inl (congrFun same operation)

theorem advances_update {status : OperationStatus}
    (same : s'.state_ = update s.state_ operation status)
    (moves : (s.state_ operation).Moves status) : s.Advances s' := by
  intro _
  rw [same]
  grind [update_apply]

theorem advances_cancelled (cancellable : s.Cancellable operation)
    (same : s'.state_ = update s.state_ operation .CANCELLED) : s.Advances s' := by
  rcases cancellable with already | ⟨ready, _⟩
  · apply advances_of_eq
    rw [same, ← already, update_eq_self]
  · apply advances_update same
    rw [ready]
    exact .cancel

section

variable (consistent : Consistent s)
include consistent

theorem Consistent.workerStep (ran : Bool)
    (stepped : s.workerStep i ran = some s') : Consistent s' ∧ s.Advances s' := by
  unfold AsyncRPCQueue.workerStep at stepped
  split at stepped
  case h_1 => cases stepped
  case h_2 => cases stepped
  case h_3 fetching =>
    split_ifs at stepped
    obtain ⟨kept, same⟩ := consistent.fetch fetching stepped
    exact ⟨kept, advances_of_eq same⟩
  case h_4 waiting =>
    cases stepped
    exact ⟨consistent.setIdle (by rw [waiting]; rfl) rfl (fun gone => (nomatch gone)),
      advances_of_eq rfl⟩
  case h_5 picked =>
    cases stepped
    exact ⟨consistent.setIdle (by rw [picked]; rfl) rfl (fun gone => (nomatch gone)),
      advances_of_eq rfl⟩
  case h_6 operation picked =>
    cases stepped
    have holds : (s.workers i).operation = some operation := by
      rw [picked]
      rfl
    exact ⟨consistent.test holds (fun busy => (nomatch picked.symm.trans busy)) rfl
      (fun busy => (nomatch busy)), advances_of_eq rfl⟩
  case h_7 operation entering =>
    cases stepped
    have holds : (s.workers i).operation = some operation := by
      rw [entering]
      rfl
    exact ⟨consistent.test holds (fun busy => (nomatch entering.symm.trans busy)) rfl
      (fun busy => (nomatch busy)), advances_of_eq rfl⟩
  case h_8 operation entered =>
    cases stepped
    refine ⟨consistent.begin entered, advances_update rfl ?_⟩
    rw [consistent.entered i operation entered]
    exact .execute
  case h_9 operation executing =>
    cases stepped
    refine ⟨consistent.complete executing ran, advances_update rfl ?_⟩
    rw [consistent.executing executing]
    cases ran
    · exact .fail
    · exact .succeed

/-- What clients do to themselves and to the lock. -/
theorem Consistent.setClient (clients : Nat → Client) (lockHolder : Option Nat) :
    Consistent { s with clients := clients, lockHolder := lockHolder } :=
  consistent.frame clients lockHolder id id (fun _ _ => Or.inl)

theorem Consistent.cancelStore {c : Nat} (held : s.cancelStore c = some s')
    (careful : ∀ operation, cancelTarget (s.clients c) = some operation → s.Cancellable operation) :
    Consistent s' ∧ s.Advances s' := by
  have target : ∃ operation clients, s.Cancellable operation ∧
      s' = { s.setState operation .CANCELLED with clients := clients } := by
    unfold AsyncRPCQueue.cancelStore at held
    split at held
    case h_1 operation client =>
      cases held
      exact ⟨operation, _, careful operation (by rw [client]; rfl), rfl⟩
    case h_2 operation rest client =>
      cases held
      exact ⟨operation, _, careful operation (by rw [client]; rfl), rfl⟩
    case h_3 => cases held
  obtain ⟨_, clients, cancellable, rfl⟩ := target
  exact ⟨consistent.cancelled cancellable clients, advances_cancelled cancellable rfl⟩

theorem Consistent.eraseToPop {c : Nat} (erased : s.eraseToPop c = some s')
    (careful : ∀ id, s.clients c = .popping id → id ∉ s.operation_id_queue_ ∨
      s.state_ id = .CANCELLED) :
    Consistent s' ∧ s'.state_ = s.state_ := by
  unfold AsyncRPCQueue.eraseToPop at erased
  split at erased
  case h_2 => cases erased
  case h_1 key client =>
    split at erased
    · cases erased
    · cases erased
      refine ⟨consistent.frame _ s.lockHolder id id ?_, rfl⟩
      grind

/-! Executions -/

theorem Consistent.executions_le (operation : AsyncRPCOperationId) :
    s.executions operation ≤ 1 := by
  have unexecuted := consistent.unexecuted operation
  have running := consistent.running operation
  have ended := consistent.ended operation
  cases state : s.state_ operation <;> grind

/-- The workers of an open queue leave no operation behind that is not cancelled. -/
theorem Consistent.left (openQueue : s.closed_ = false)
    (idle : ∀ i, s.workers i = .absent ∨ s.workers i = .exited) (exited : s.workers i = .exited)
    (mem : operation ∈ s.accepted) (uncancelled : s.state_ operation ≠ .CANCELLED) :
    s.executions operation = 1 ∧
    (s.state_ operation = .SUCCESS ∨ s.state_ operation = .FAILED) := by
  have ended : s.state_ operation = .SUCCESS ∨ s.state_ operation = .FAILED := by
    grind [consistent.exited i exited, consistent.located openQueue operation mem, Worker.operation]
  exact ⟨(consistent.ended operation ended).1, ended⟩

end

/-! Steps -/

variable {action : Action}

/-- A step in which care is taken moves no operation where it may not go. -/
theorem Consistent.step (consistent : Consistent s) (careful : s.Careful action)
    (stepped : s.step action = some s') : Consistent s' ∧ s.Advances s' := by
  have still : Consistent s' ∧ s'.state_ = s.state_ → Consistent s' ∧ s.Advances s' :=
    fun kept => ⟨kept.1, advances_of_eq kept.2⟩
  cases action with
  | worker i ran => exact consistent.workerStep ran stepped
  | addOperation _ => exact still (consistent.addOperation careful stepped)
  | cancelStore c => exact consistent.cancelStore stepped careful
  | eraseToPop c => exact still (consistent.eraseToPop stepped careful)
  | cancelMigration _ =>
    cases stepped
    exact ⟨consistent.cancelled careful s.clients, advances_cancelled careful rfl⟩
  | addWorker i =>
    simp only [step, addWorker, Option.ite_none_right_eq_some] at stepped
    obtain ⟨⟨_, absent⟩, same⟩ := stepped
    cases same
    exact still ⟨consistent.setIdle (by rw [absent]; rfl) rfl (fun gone => (nomatch gone)), rfl⟩
  | findToPop c _ =>
    simp only [step, findToPop, Option.ite_none_left_eq_some] at stepped
    obtain ⟨_, same⟩ := stepped
    split at same <;> cases same
    · exact still ⟨consistent.setClient _ s.lockHolder, rfl⟩
    · exact still ⟨consistent, rfl⟩
  | cancel c _ =>
    simp only [step, cancel, Option.ite_none_right_eq_some] at stepped
    obtain ⟨_, same⟩ := stepped
    split at same <;> cases same
    · exact still ⟨consistent.setClient _ s.lockHolder, rfl⟩
    · exact still ⟨consistent, rfl⟩
  | cancelAllOperations c _ =>
    simp only [step, cancelAllOperations, Option.ite_none_right_eq_some] at stepped
    obtain ⟨_, same⟩ := stepped
    cases same
    exact still ⟨consistent.setClient _ (some c), rfl⟩
  | cancelNext c =>
    change s.cancelNext c = some s' at stepped
    unfold cancelNext at stepped
    split at stepped
    · cases stepped
      exact still ⟨consistent.setClient _ none, rfl⟩
    · cases stepped
      exact still ⟨consistent.setClient _ s.lockHolder, rfl⟩
    · cases stepped
  | close =>
    cases stepped
    exact still ⟨consistent.frame s.clients s.lockHolder (fun _ => rfl) id (fun _ _ => Or.inl), rfl⟩
  | finish =>
    cases stepped
    exact still ⟨consistent.frame s.clients s.lockHolder id (fun _ => rfl) (fun _ _ => Or.inl), rfl⟩

variable (marks : s.cancels action = some operation) (stepped : s.step action = some s')
include marks stepped

theorem cancels_step : s'.state_ = update s.state_ operation .CANCELLED ∧
    s'.workers = s.workers := by
  cases action with
  | cancelMigration =>
    cases marks
    cases stepped
    exact ⟨rfl, rfl⟩
  | cancelStore c =>
    change cancelTarget (s.clients c) = some operation at marks
    change s.cancelStore c = some s' at stepped
    unfold cancelStore at stepped
    split at stepped
    case h_1 target client =>
      rw [client] at marks
      cases marks
      cases stepped
      exact ⟨rfl, rfl⟩
    case h_2 target rest client =>
      rw [client] at marks
      cases marks
      cases stepped
      exact ⟨rfl, rfl⟩
    case h_3 => cases stepped
  | _ => cases marks

/-- To mark an operation as cancelled that cannot be is a wrong move, or makes the next step of
the worker one that is about to execute it. -/
theorem uncancellable_moves (uncancellable : ¬ s.Cancellable operation) :
    ¬ s.Advances s' ∨ ∃ i s'', s'.workerStep i true = some s'' ∧ ¬ s'.Advances s'' := by
  obtain ⟨state, workers⟩ := cancels_step marks stepped
  have cancelled : s'.state_ operation = .CANCELLED := by
    rw [state, update_self]
  unfold Cancellable at uncancellable
  push Not at uncancellable
  obtain ⟨unset, entered⟩ := uncancellable
  by_cases ready : s.state_ operation = .READY
  · obtain ⟨i, busy⟩ := entered ready
    rw [← workers] at busy
    refine Or.inr ⟨i, _, by unfold workerStep; rw [busy], ?_⟩
    intro advances
    rcases advances operation with same | moves
    · rw [cancelled] at same
      simp [setState, setWorker] at same
    · rw [cancelled] at moves
      cases moves
  · refine Or.inl ?_
    intro advances
    rcases advances operation with same | moves
    · exact unset (same.symm.trans cancelled)
    · rw [cancelled] at moves
      generalize s.state_ operation = old at moves ready
      cases moves
      exact ready rfl

end Zcashd.Source.AsyncRPCQueue

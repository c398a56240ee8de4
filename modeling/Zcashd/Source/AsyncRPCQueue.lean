import Mathlib

/-!
The queue of asynchronous operations (`src/asyncrpcqueue.cpp`, `src/asyncrpcoperation.cpp`,
`src/wallet/asyncrpcoperation_saplingmigration.cpp`), with any number of workers and clients. A
step is what a thread does at once: a critical section of `lock_`, or one load or store of an
atomic. Loads and the stores that depend on them are separate steps.

An operation is known by its id, which is unique. All classes share the shape of `main`: test,
store `EXECUTING`, work, store the result. `cancel` is not virtual, so the queue always calls the
one of the base class. A waiting worker may wake up at any time. `addWorker`, `getOperationForId`
and `popOperationForId` are here; listings of operations are left out.
-/
namespace Zcashd.Source

open Function

inductive OperationStatus where
  | READY
  | EXECUTING
  | CANCELLED
  | FAILED
  | SUCCESS
deriving DecidableEq, Repr

/-- READY to CANCELLED, or READY to EXECUTING to SUCCESS or FAILED. -/
inductive OperationStatus.Moves : OperationStatus → OperationStatus → Prop
  | cancel : Moves READY CANCELLED
  | execute : Moves READY EXECUTING
  | succeed : Moves EXECUTING SUCCESS
  | fail : Moves EXECUTING FAILED

abbrev AsyncRPCOperationId := String

/-- A worker thread in `run`. -/
inductive Worker where
  | absent
  /-- Before the critical section. -/
  | fetching
  | waiting
  /-- After it, with the operation that was found. -/
  | picked (operation : Option AsyncRPCOperationId)
  /-- In `main`, before the test. -/
  | entering (operation : AsyncRPCOperationId)
  /-- After the test, before the store of `EXECUTING`. -/
  | entered (operation : AsyncRPCOperationId)
  | executing (operation : AsyncRPCOperationId)
  | exited
deriving DecidableEq, Repr

/-- The operation a worker has. -/
def Worker.operation : Worker → Option AsyncRPCOperationId
  | picked operation => operation
  | entering operation | entered operation | executing operation => some operation
  | _ => none

/-- A client thread, in a call that takes more than one step. -/
inductive Client where
  | idle
  /-- In `cancel`, having seen that the operation is ready. -/
  | cancelling (operation : AsyncRPCOperationId)
  /-- In `cancelAllOperations`, with the operations that are left. -/
  | cancellingAll (rest : List AsyncRPCOperationId)
  /-- And in the `cancel` of one of them. -/
  | cancellingOne (operation : AsyncRPCOperationId) (rest : List AsyncRPCOperationId)
  /-- In `popOperationForId`, having found the operation. -/
  | popping (id : AsyncRPCOperationId)
deriving DecidableEq, Repr

structure AsyncRPCQueue where
  closed_ : Bool
  finish_ : Bool
  /-- The ids in `operation_map_`. -/
  operation_map_ : List AsyncRPCOperationId
  operation_id_queue_ : List AsyncRPCOperationId
  /-- The client that is in `cancelAllOperations`. -/
  lockHolder : Option Nat
  state_ : AsyncRPCOperationId → OperationStatus
  workers : Nat → Worker
  clients : Nat → Client
  /-- The operations that were added to the queue, and how often each began its work. -/
  accepted : List AsyncRPCOperationId
  executions : AsyncRPCOperationId → Nat

namespace AsyncRPCQueue

def new : AsyncRPCQueue :=
  ⟨false, false, [], [], none, fun _ => .READY, fun _ => .absent, fun _ => .idle, [], fun _ => 0⟩

def setWorker (i : Nat) (worker : Worker) (s : AsyncRPCQueue) : AsyncRPCQueue :=
  { s with workers := update s.workers i worker }

def setClient (c : Nat) (client : Client) (s : AsyncRPCQueue) : AsyncRPCQueue :=
  { s with clients := update s.clients c client }

def setState (operation : AsyncRPCOperationId) (state : OperationStatus) (s : AsyncRPCQueue) :
    AsyncRPCQueue :=
  { s with state_ := update s.state_ operation state }

/-! Workers -/

/-- The critical section of `run`. Both flags are only ever set, so it does not matter that they
are read more than once. -/
def fetch (i : Nat) (s : AsyncRPCQueue) : Option AsyncRPCQueue :=
  if s.operation_id_queue_.isEmpty && !s.closed_ && !s.finish_ then some (s.setWorker i .waiting)
  else if s.finish_ && s.operation_id_queue_.isEmpty then some (s.setWorker i .exited)
  else if s.closed_ then some ({ s with operation_id_queue_ := [] }.setWorker i .exited)
  else
    match s.operation_id_queue_ with
    | [] => none
    | key :: rest =>
      let operation := if key ∈ s.operation_map_ then some key else none
      some ({ s with operation_id_queue_ := rest }.setWorker i (.picked operation))

/-- The next step of a worker; `success` is what the work comes to. -/
def workerStep (i : Nat) (success : Bool) (s : AsyncRPCQueue) : Option AsyncRPCQueue :=
  match s.workers i with
  | .absent | .exited => none
  | .fetching => if s.lockHolder = none then s.fetch i else none
  | .waiting => some (s.setWorker i .fetching)
  | .picked none => some (s.setWorker i .fetching)
  | .picked (some operation) =>
    some (s.setWorker i
      (if s.state_ operation = .CANCELLED then .fetching else .entering operation))
  | .entering operation =>
    some (s.setWorker i (if s.state_ operation = .CANCELLED then .fetching else .entered operation))
  | .entered operation =>
    some { (s.setState operation .EXECUTING).setWorker i (.executing operation) with
      executions := update s.executions operation (s.executions operation + 1) }
  | .executing operation =>
    some ((s.setState operation (if success then .SUCCESS else .FAILED)).setWorker i .fetching)

def addWorker (i : Nat) (s : AsyncRPCQueue) : Option AsyncRPCQueue :=
  if s.lockHolder = none ∧ s.workers i = .absent then some (s.setWorker i .fetching) else none

/-! Clients -/

def addOperation (operation : AsyncRPCOperationId) (s : AsyncRPCQueue) : Option AsyncRPCQueue :=
  if s.lockHolder ≠ none then none
  else if s.closed_ || s.finish_ then some s
  else some { s with
    operation_map_ :=
      if operation ∈ s.operation_map_ then s.operation_map_ else s.operation_map_ ++ [operation]
    operation_id_queue_ := s.operation_id_queue_ ++ [operation]
    accepted := s.accepted ++ [operation] }

/-- `popOperationForId` takes the lock twice. -/
def findToPop (c : Nat) (id : AsyncRPCOperationId) (s : AsyncRPCQueue) : Option AsyncRPCQueue :=
  if s.lockHolder ≠ none ∨ s.clients c ≠ .idle then none
  else some (if id ∈ s.operation_map_ then s.setClient c (.popping id) else s)

def eraseToPop (c : Nat) (s : AsyncRPCQueue) : Option AsyncRPCQueue :=
  match s.clients c with
  | .popping id =>
    if s.lockHolder ≠ none then none
    else some ({ s with operation_map_ := s.operation_map_.filter (· ≠ id) }.setClient c .idle)
  | _ => none

/-- The test in `cancel`. -/
def cancel (c : Nat) (operation : AsyncRPCOperationId) (s : AsyncRPCQueue) : Option AsyncRPCQueue :=
  if s.clients c = .idle then
    some (if s.state_ operation = .READY then s.setClient c (.cancelling operation) else s)
  else none

/-- The store in `cancel`, whoever called it. -/
def cancelStore (c : Nat) (s : AsyncRPCQueue) : Option AsyncRPCQueue :=
  match s.clients c with
  | .cancelling operation => some ((s.setState operation .CANCELLED).setClient c .idle)
  | .cancellingOne operation rest =>
    some ((s.setState operation .CANCELLED).setClient c (.cancellingAll rest))
  | _ => none

/-- `AsyncRPCOperation_saplingmigration::cancel`. -/
def cancelMigration (operation : AsyncRPCOperationId) (s : AsyncRPCQueue) : Option AsyncRPCQueue :=
  some (s.setState operation .CANCELLED)

/-- The beginning of `cancelAllOperations`; the map is unordered. -/
def cancelAllOperations (c : Nat) (order : List AsyncRPCOperationId) (s : AsyncRPCQueue) :
    Option AsyncRPCQueue :=
  if s.lockHolder = none ∧ s.clients c = .idle ∧ order.isPerm s.operation_map_ then
    some { s.setClient c (.cancellingAll order) with lockHolder := some c }
  else none

/-- The test of the next operation, or the end of `cancelAllOperations`. -/
def cancelNext (c : Nat) (s : AsyncRPCQueue) : Option AsyncRPCQueue :=
  match s.clients c with
  | .cancellingAll [] => some { s.setClient c .idle with lockHolder := none }
  | .cancellingAll (operation :: rest) =>
    some (s.setClient c (if s.state_ operation = .READY then .cancellingOne operation rest
      else .cancellingAll rest))
  | _ => none

/-- The store in `close`, which `cancelAllOperations` follows. -/
def close (s : AsyncRPCQueue) : Option AsyncRPCQueue := some { s with closed_ := true }

def finish (s : AsyncRPCQueue) : Option AsyncRPCQueue := some { s with finish_ := true }

/-! Steps -/

inductive Action where
  | addWorker (i : Nat)
  | worker (i : Nat) (success : Bool)
  | addOperation (operation : AsyncRPCOperationId)
  | findToPop (c : Nat) (id : AsyncRPCOperationId)
  | eraseToPop (c : Nat)
  | cancel (c : Nat) (operation : AsyncRPCOperationId)
  | cancelStore (c : Nat)
  | cancelMigration (operation : AsyncRPCOperationId)
  | cancelAllOperations (c : Nat) (order : List AsyncRPCOperationId)
  | cancelNext (c : Nat)
  | close
  | finish

def step (s : AsyncRPCQueue) : Action → Option AsyncRPCQueue
  | .addWorker i => s.addWorker i
  | .worker i success => s.workerStep i success
  | .addOperation operation => s.addOperation operation
  | .findToPop c id => s.findToPop c id
  | .eraseToPop c => s.eraseToPop c
  | .cancel c operation => s.cancel c operation
  | .cancelStore c => s.cancelStore c
  | .cancelMigration operation => s.cancelMigration operation
  | .cancelAllOperations c order => s.cancelAllOperations c order
  | .cancelNext c => s.cancelNext c
  | .close => s.close
  | .finish => s.finish

/-- The operation a client is about to mark as cancelled. -/
def cancelTarget : Client → Option AsyncRPCOperationId
  | .cancelling operation | .cancellingOne operation _ => some operation
  | _ => none

/-- The operation a step marks as cancelled. -/
def cancels (s : AsyncRPCQueue) : Action → Option AsyncRPCOperationId
  | .cancelStore c => cancelTarget (s.clients c)
  | .cancelMigration operation => some operation
  | _ => none

/-- The operation is cancelled, or it is ready and no worker is about to execute it. -/
def Cancellable (s : AsyncRPCQueue) (operation : AsyncRPCOperationId) : Prop :=
  s.state_ operation = .CANCELLED ∨ s.state_ operation = .READY ∧
    ∀ i, s.workers i ≠ .entered operation

/-- Each operation is accepted once, is marked as cancelled only while it can be, and stays in
the map as long as it is in the queue and not cancelled. -/
def Careful (s : AsyncRPCQueue) : Action → Prop
  | .addOperation operation => operation ∉ s.accepted ∨ s.closed_ = true ∨ s.finish_ = true
  | .cancelStore c =>
    ∀ operation, cancelTarget (s.clients c) = some operation → s.Cancellable operation
  | .cancelMigration operation => s.Cancellable operation
  | .eraseToPop c =>
    ∀ id, s.clients c = .popping id → id ∉ s.operation_id_queue_ ∨ s.state_ id = .CANCELLED
  | _ => True

end AsyncRPCQueue

end Zcashd.Source

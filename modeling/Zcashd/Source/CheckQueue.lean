import Zcashd.Lib.Threads

/-!
The queue of checks that are made in parallel (`src/checkqueue.h`), with `n` workers and one
master, which adds checks through a `CCheckQueueControl` and then works itself until all are
done. A step is a critical section of `mutex`, or the evaluation of one check, whose result is
part of the step; `wait` gives up the lock, so a section ends there and another begins when the
thread wakes up, which it may do without having been notified.

`nTodo` is an `unsigned int`. `nIdle` and `nTotal` count threads and do not overflow. Nothing
sets `fQuit`, so workers never leave `Loop`, and a control object without a queue is left out.
-/
namespace Zcashd.Source

open Lib

/-- A thread with respect to `Loop`. -/
inductive Thread (T : Type) where
  /-- Not in `Loop`. -/
  | absent
  /-- Waiting for its condition variable. -/
  | waiting (notified : Bool)
  /-- Working on a batch of `nNow` checks, of which `vChecks` are left. -/
  | working (nNow : Nat) (fOk : Bool) (vChecks : List T)

namespace Thread

variable {T : Type}

def isBlocked : Thread T → Bool
  | waiting false => true
  | _ => false

def notified : Thread T → Thread T
  | waiting _ => waiting true
  | thread => thread

/-- The checks that are taken from the queue and not yet subtracted from `nTodo`. -/
def taken : Thread T → Nat
  | working nNow _ _ => nNow
  | _ => 0

end Thread

/-- The `CCheckQueueControl` of the master. -/
inductive Control where
  /-- There is none; the last `Wait` returned `fRet`. -/
  | returned (fRet : Bool)
  | adding
  | waiting
  /-- The assertion of the constructor failed. -/
  | aborted
deriving DecidableEq

/-- The threads are the master and the workers. -/
structure CCheckQueue (T : Type) (n : Nat) where
  /-- The back of the vector comes first. -/
  queue : List T
  nIdle : Nat
  nTotal : Nat
  fAllOk : Bool
  nTodo : UInt32
  threads : Option (Fin n) → Thread T
  control : Control
  /-- The checks of this round: those that were added, those that were evaluated, with their
  results, and those that were passed over. -/
  added : List T
  evaluated : List (T × Bool)
  skipped : List T

namespace CCheckQueue

variable {T : Type} {n : Nat}

/-- Before the first round it is as if a round without checks had just ended. -/
def new : CCheckQueue T n := ⟨[], 0, 0, true, 0, fun _ => .absent, .returned true, [], [], []⟩

def setThread (t : Option (Fin n)) (thread : Thread T) (s : CCheckQueue T n) : CCheckQueue T n :=
  { s with threads := Function.update s.threads t thread }

/-! `Loop` -/

/-- How many checks a thread takes at once. -/
def batchSize (nBatchSize : Nat) (s : CCheckQueue T n) : Nat :=
  max 1 (min nBatchSize (s.queue.length % 2 ^ 32 / (s.nTotal + s.nIdle + 1)))

/-- From the head of the inner loop to the end of the section, or to `wait`. -/
def serve (nBatchSize : Nat) (t : Option (Fin n)) (s : CCheckQueue T n) : CCheckQueue T n :=
  if s.queue.isEmpty then
    if t = none ∧ s.nTodo = 0 then
      { s.setThread t .absent with
        nTotal := s.nTotal - 1, fAllOk := true, control := .returned s.fAllOk }
    else { s.setThread t (.waiting false) with nIdle := s.nIdle + 1 }
  else
    let nNow := s.batchSize nBatchSize
    { s.setThread t (.working nNow s.fAllOk (s.queue.take nNow)) with queue := s.queue.drop nNow }

/-- `condMaster.notify_one` -/
def notifyMaster (s : CCheckQueue T n) : CCheckQueue T n :=
  s.setThread none (s.threads none).notified

/-- What is left to do of the previous batch. -/
def cleanUp (t : Option (Fin n)) (nNow : Nat) (fOk : Bool) (s : CCheckQueue T n) :
    CCheckQueue T n :=
  let s := { s with fAllOk := s.fAllOk && fOk, nTodo := s.nTodo - UInt32.ofNat nNow }
  if s.nTodo = 0 ∧ t ≠ none then s.notifyMaster else s

/-- The first section of `Loop`. -/
def enter (nBatchSize : Nat) (t : Option (Fin n)) (s : CCheckQueue T n) : CCheckQueue T n :=
  { s with nTotal := s.nTotal + 1 }.serve nBatchSize t

/-- A check of the batch is evaluated, unless one has failed. -/
def evaluate (t : Option (Fin n)) (result : Bool) (s : CCheckQueue T n) :
    Option (CCheckQueue T n) :=
  match s.threads t with
  | .working nNow true (check :: vChecks) =>
    some { s.setThread t (.working nNow result vChecks) with
      evaluated := (check, result) :: s.evaluated }
  | .working nNow false (check :: vChecks) =>
    some { s.setThread t (.working nNow false vChecks) with skipped := check :: s.skipped }
  | _ => none

/-- The section after a batch. -/
def resume (nBatchSize : Nat) (t : Option (Fin n)) (s : CCheckQueue T n) :
    Option (CCheckQueue T n) :=
  match s.threads t with
  | .working nNow fOk [] => some ((s.cleanUp t nNow fOk).serve nBatchSize t)
  | _ => none

/-- A waiting thread wakes up. -/
def wake (nBatchSize : Nat) (t : Option (Fin n)) (s : CCheckQueue T n) : Option (CCheckQueue T n) :=
  match s.threads t with
  | .waiting _ => some ({ s with nIdle := s.nIdle - 1 }.serve nBatchSize t)
  | _ => none

/-- A worker thread begins. -/
def thread (nBatchSize : Nat) (t : Fin n) (s : CCheckQueue T n) : Option (CCheckQueue T n) :=
  match s.threads (some t) with
  | .absent => some (s.enter nBatchSize (some t))
  | _ => none

/-! The master -/

def isIdle (s : CCheckQueue T n) : Bool := s.nTotal == s.nIdle && s.nTodo == 0 && s.fAllOk

/-- The constructor of `CCheckQueueControl`. -/
def construct (s : CCheckQueue T n) : Option (CCheckQueue T n) :=
  match s.control with
  | .returned _ => some { s with
      control := if s.isIdle then .adding else .aborted, added := [], evaluated := [],
      skipped := [] }
  | _ => none

/-- `condWorker.notify_one`, which wakes one of the threads that wait, if there are any. -/
def notifyOne (woken : Option (Fin n)) (s : CCheckQueue T n) : Option (CCheckQueue T n) :=
  match woken with
  | some t =>
    if (s.threads (some t)).isBlocked then some (s.setThread (some t) (.waiting true)) else none
  | none => if ∀ t, !(s.threads (some t)).isBlocked then some s else none

/-- `condWorker.notify_all` -/
def notifyAll (s : CCheckQueue T n) : CCheckQueue T n :=
  { s with threads := fun t => if t = none then s.threads t else (s.threads t).notified }

def add (vChecks : List T) (woken : Option (Fin n)) (s : CCheckQueue T n) :
    Option (CCheckQueue T n) :=
  if s.control = .adding then
    let s := { s with
      queue := vChecks.reverse ++ s.queue, nTodo := s.nTodo + UInt32.ofNat vChecks.length,
      added := s.added ++ vChecks }
    if vChecks.length = 1 then s.notifyOne woken
    else if 1 < vChecks.length then some s.notifyAll
    else some s
  else none

/-- `Wait`, by itself or in the destructor. -/
def wait (nBatchSize : Nat) (s : CCheckQueue T n) : Option (CCheckQueue T n) :=
  if s.control = .adding then some ({ s with control := .waiting }.enter nBatchSize none) else none

/-! Steps -/

inductive Action (T : Type) (n : Nat) where
  | thread (t : Fin n)
  | evaluate (t : Option (Fin n)) (result : Bool)
  | resume (t : Option (Fin n))
  | wake (t : Option (Fin n))
  | construct
  | add (vChecks : List T) (woken : Option (Fin n))
  | wait

def step (nBatchSize : Nat) (s : CCheckQueue T n) : Action T n → Option (CCheckQueue T n)
  | .thread t => s.thread nBatchSize t
  | .evaluate t result => s.evaluate t result
  | .resume t => s.resume nBatchSize t
  | .wake t => s.wake nBatchSize t
  | .construct => s.construct
  | .add vChecks woken => s.add vChecks woken
  | .wait => s.wait nBatchSize

/-- The checks that are not done with, which `nTodo` counts. -/
def load (s : CCheckQueue T n) : Nat := s.queue.length + tally Thread.taken s.threads

/-- There are never more unfinished checks than `nTodo` can count. -/
def Fits (s : CCheckQueue T n) : Action T n → Prop
  | .add vChecks _ => s.load + vChecks.length < 2 ^ 32
  | _ => True

instance (s : CCheckQueue T n) (action : Action T n) : Decidable (s.Fits action) := by
  cases action <;> dsimp only [Fits] <;> infer_instance

end CCheckQueue

end Zcashd.Source

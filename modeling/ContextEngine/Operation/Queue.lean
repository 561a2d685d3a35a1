/- digest: The operation queue, its calls cut at their database writes, and the runs of all calls.
   -/

import Mathlib.Data.List.Basic
import Mathlib.Order.Basic

set_option autoImplicit false

namespace ContextEngine

inductive OperationKind where
  | fullIndex | hotUpdate | incremental | configChange
  deriving DecidableEq

inductive OperationPriority where
  | fullIndex | incremental | hotUpdate
  deriving DecidableEq

def OperationPriority.asI32 : OperationPriority → Nat
  | .fullIndex => 3
  | .incremental => 2
  | .hotUpdate => 1

structure PendingOperation where
  projectId : Int
  operationId : String
  operationType : OperationKind
  priority : OperationPriority
  rootDir : String
  createdAt : String
  status : String
  ticket : Nat
  deriving DecidableEq

structure ActiveOperation where
  projectId : Int
  operationId : String
  operationType : OperationKind
  priority : OperationPriority
  startedAt : String
  rootDir : String
  ticket : Nat
  deriving DecidableEq

def maxPendingOperations : Nat := 64

structure OperationQueue where
  projectId : Int
  active : Option ActiveOperation
  pending : List PendingOperation
  deriving DecidableEq

namespace OperationQueue

def sameTarget (a b : PendingOperation) : Bool :=
  a.operationType = b.operationType && a.rootDir = b.rootDir

/-- Insert before the first operation of lower priority, at the end if there is none. -/
def insertByPriority (op : PendingOperation) : List PendingOperation → List PendingOperation
  | [] => [op]
  | existing :: rest =>
    if existing.priority.asI32 < op.priority.asI32 then op :: existing :: rest
    else existing :: insertByPriority op rest

variable (pending : List PendingOperation)

/-- Above capacity, the first operation that has the priority of the last one. -/
def overflow : Option PendingOperation :=
  if maxPendingOperations < pending.length then
    pending.getLast?.bind fun last => pending.find? fun op => op.priority = last.priority
  else none

def trim : List PendingOperation :=
  match overflow pending with
  | none => pending
  | some dropped => pending.eraseP fun op => op.priority = dropped.priority

def withNew (op : PendingOperation) : List PendingOperation :=
  insertByPriority op (pending.filter fun existing => !sameTarget existing op)

variable (queue : OperationQueue)

def enqueue (op : PendingOperation) : OperationQueue :=
  { queue with pending := trim (withNew queue.pending op) }

/-- The first section of `dequeue`: pop the next operation and reserve the active slot. -/
def reserve (startedAt : String) :
    Option (PendingOperation × OperationQueue) :=
  match queue.active, queue.pending with
  | none, next :: rest =>
    some (next,
      { queue with
        active := some
          { projectId := queue.projectId
            operationId := next.operationId
            operationType := next.operationType
            priority := next.priority
            startedAt := startedAt
            rootDir := next.rootDir
            ticket := next.ticket }
        pending := rest })
  | _, _ => none

/-- The second section of a `dequeue` whose write failed. -/
def rollBack (next : PendingOperation) : OperationQueue :=
  { queue with active := none, pending := next :: queue.pending }

/-- `complete_active`: the slot is emptied before the write, whatever becomes of it. -/
def completeActive : OperationQueue := { queue with active := none }

variable (operationId : String)

def clearActiveByOperation : OperationQueue :=
  match queue.active with
  | none => queue
  | some op => if op.operationId = operationId then { queue with active := none } else queue

def findPending : Option PendingOperation :=
  queue.pending.find? fun op => op.operationId = operationId

def cancelPending : OperationQueue :=
  { queue with pending := queue.pending.eraseP fun op => op.operationId = operationId }

/-- `cleanup_stale_operations`, given how many rows the database cleared and which operation it
still holds active. -/
def cleanupStale (cleared : Nat) (dbActive : Option String) :
    OperationQueue :=
  match queue.active with
  | none => queue
  | some op =>
    if 0 < cleared ∧ dbActive ≠ some op.operationId then { queue with active := none } else queue

end OperationQueue

/-- A section of a call, with what the caller or the database supplies. -/
inductive QueueCall where
  | enqueue (operationId : String) (operationType : OperationKind) (rootDir : String)
      (priority : OperationPriority) (createdAt : String)
  | reserve (startedAt : String)
  | persisted (call : Nat) (ok : Bool)
  | completeActive
  | clearActiveByOperation (operationId : String)
  | cancelPending (operationId : String)
  | cleanupStale (cleared : Nat) (dbActive : Option String)

/-- The queue, the dequeue calls that wait for the database, and what became of every accepted
operation. An operation runs from its reservation until a call releases the slot it holds. -/
structure QueueRun where
  queue : OperationQueue
  inFlight : List PendingOperation
  accepted : Nat
  dequeued : List PendingOperation
  merged : List PendingOperation
  cancelled : List PendingOperation
  dropped : List PendingOperation
  running : List Nat
  deriving DecidableEq

namespace QueueRun

open OperationQueue

def start (projectId : Int) : QueueRun :=
  ⟨⟨projectId, none, []⟩, [], 0, [], [], [], [], []⟩

variable (run : QueueRun)

/-- The operation an enqueue call makes. -/
def newOperation (operationId : String) (operationType : OperationKind)
    (rootDir : String) (priority : OperationPriority) (createdAt : String) : PendingOperation :=
  { projectId := run.queue.projectId
    operationId := operationId
    operationType := operationType
    priority := priority
    rootDir := rootDir
    createdAt := createdAt
    status := "pending"
    ticket := run.accepted }

/-- Record a change of the active slot: who held it and no longer does is released. -/
def release (queue : OperationQueue) : QueueRun :=
  { run with
    queue := queue
    running :=
      match run.queue.active, queue.active with
      | some op, none => run.running.erase op.ticket
      | _, _ => run.running }

/-- The first section of `dequeue`, which leaves the call waiting for the database. -/
def reserveNext (startedAt : String) : QueueRun :=
  match run.queue.reserve startedAt with
  | none => run
  | some (next, queue) =>
    { run with
      queue := queue
      inFlight := run.inFlight ++ [next]
      running := next.ticket :: run.running }

/-- The second section of a waiting `dequeue`, once the database has answered. -/
def finishDequeue (call : Nat) (ok : Bool) : QueueRun :=
  match run.inFlight[call]? with
  | none => run
  | some next =>
    if ok then
      { run with
        inFlight := run.inFlight.eraseIdx call
        dequeued := run.dequeued ++ [next] }
    else
      { run with
        queue := run.queue.rollBack next
        inFlight := run.inFlight.eraseIdx call
        running := run.running.erase next.ticket }

def step : QueueCall → QueueRun
  | .enqueue operationId operationType rootDir priority createdAt =>
    let op := run.newOperation operationId operationType rootDir priority createdAt
    { run with
      queue := run.queue.enqueue op
      accepted := run.accepted + 1
      merged := run.merged ++ run.queue.pending.filter fun existing => sameTarget existing op
      dropped := run.dropped ++ (overflow (withNew run.queue.pending op)).toList }
  | .reserve startedAt => run.reserveNext startedAt
  | .persisted call ok => run.finishDequeue call ok
  | .completeActive => run.release run.queue.completeActive
  | .clearActiveByOperation operationId =>
    run.release (run.queue.clearActiveByOperation operationId)
  | .cancelPending operationId =>
    { run with
      queue := run.queue.cancelPending operationId
      cancelled := run.cancelled ++ (run.queue.findPending operationId).toList }
  | .cleanupStale cleared dbActive => run.release (run.queue.cleanupStale cleared dbActive)

end QueueRun

end ContextEngine

/- digest: Operations side by side on one coordinator, and when each completes its own and no other
   one. -/

import ContextEngine.Operation.StartupRecovery

set_option autoImplicit false

namespace ContextEngine

open List OperationQueue Runs

inductive ExecutionKind where
  | fullIndex | hotUpdate | resumed
  deriving DecidableEq

/-- A call at the end of an execution. -/
inductive ConcludingCall where
  | markCompleted | complete | clear
  deriving DecidableEq

inductive ExecutionPhase where
  | requested
  | persisting (next : PendingOperation)
  | running
  | concluding (calls : List ConcludingCall)
  deriving DecidableEq

structure Execution where
  operationId : String
  kind : ExecutionKind
  phase : ExecutionPhase
  deriving DecidableEq

/-- How the work of an execution ends: with success, without a change to index, with an outcome
that is not published, with failed stages, or with an error passed on at once. -/
inductive ExecutionOutcome where
  | success | noChange | unpublished | failure | error
  deriving DecidableEq

def callsAfter : ExecutionKind → ExecutionOutcome → List ConcludingCall
  | .fullIndex, .success => [.complete]
  | .fullIndex, .failure => [.clear]
  | .hotUpdate, .success => [.markCompleted, .complete]
  | .hotUpdate, .noChange => [.complete, .markCompleted]
  | .hotUpdate, .failure => [.clear]
  | .resumed, .success => [.markCompleted, .complete]
  | .resumed, .failure => [.clear]
  | _, _ => []

/-- Whether an execution has acquired the right to run and has not given it back. -/
def Execution.executing (execution : Execution) : Bool :=
  match execution.phase with
  | .requested => false
  | .persisting _ => true
  | .running => true
  | .concluding calls => decide (.complete ∈ calls) || decide (.clear ∈ calls)

structure OperationSystem where
  queue : OperationQueue
  checkpoints : CheckpointTable
  recoveryFreshnessSecs : Option UInt64
  executions : List Execution
  /-- The operations that ran to their end. -/
  finished : List String
  /-- Every call of `complete_operation`: for which operation, and which one was active. -/
  completions : List (String × Option String)
  /-- Every pending operation taken from the queue, with the operation that took it. -/
  consumed : List (String × String)

inductive OperationStep where
  | requestFullIndex (operationId rootDir createdAt : String)
  | requestHotUpdate (operationId rootDir createdAt : String)
  | resume (operationId : String)
  | acquire (execution : Nat) (startedAt : String)
  | persisted (execution : Nat) (ok : Bool) (now : String)
  | createCheckpoint (execution : Nat) (rootDir now : String)
  | conclude (execution : Nat) (outcome : ExecutionOutcome)
  | call (execution : Nat) (ok marked : Bool) (now : String)
  | recover (clock : StartupClock)
  | restart (clock : StartupClock)

/-- `CheckpointRepository::create_checkpoint`: none where the operation has a row. -/
def CheckpointTable.createCheckpoint (table : CheckpointTable) (row : CheckpointRecord) :
    Option CheckpointTable :=
  if fresh : row.operationId ∈ table.rows.map CheckpointRecord.operationId then none
  else
    some ⟨table.rows ++ [row], by
      rw [List.map_append, List.map_singleton]
      exact List.nodup_append.2 ⟨table.unique, List.nodup_singleton _, fun a mem b single same =>
        fresh (by rw [← List.mem_singleton.1 single, ← same]; exact mem)⟩⟩

namespace OperationSystem

/-- A process over the checkpoints of earlier ones, none of which is open. -/
def start (projectId : Int) (checkpoints : CheckpointTable) (freshness : Option UInt64) :
    OperationSystem where
  queue := ⟨projectId, none, []⟩
  checkpoints := checkpoints
  recoveryFreshnessSecs := freshness
  executions := []
  finished := (checkpoints.rows.filter fun row => row.status = .completed).map
    CheckpointRecord.operationId
  completions := []
  consumed := []

variable (system : OperationSystem) (operationId rootDir createdAt : String)

/-- The operation an enqueue call makes. -/
def newPending
    (operationType : OperationKind) (priority : OperationPriority) : PendingOperation :=
  { projectId := system.queue.projectId
    operationId := operationId
    operationType := operationType
    priority := priority
    rootDir := rootDir
    createdAt := createdAt
    status := "pending"
    ticket := 0 }

def addExecution (operationId : String) (kind : ExecutionKind)
    (phase : ExecutionPhase) : OperationSystem :=
  { system with executions := system.executions ++ [⟨operationId, kind, phase⟩] }

/-- `request_full_index`, which an active full index makes a no-op. -/
def requestFullIndex :
    OperationSystem :=
  let queue :=
    if system.queue.active.any fun op => op.operationType = .fullIndex then system.queue
    else
      system.queue.enqueue
        (system.newPending operationId rootDir createdAt .fullIndex .fullIndex)
  { system with queue }.addExecution operationId .fullIndex .requested

def requestHotUpdate :
    OperationSystem :=
  { system with
    queue := system.queue.enqueue
      (system.newPending operationId rootDir createdAt .hotUpdate .hotUpdate) }
    |>.addExecution operationId .hotUpdate .requested

variable (index : Nat)

def setPhase (execution : Execution)
    (phase : ExecutionPhase) : OperationSystem :=
  { system with executions := system.executions.set index { execution with phase } }

/-- `execute_next_operation` up to its write. Where the slot is taken or nothing is pending, the
execution ends; where an operation is taken, whichever it is, the execution goes on. -/
def acquire (startedAt : String) : OperationSystem :=
  match system.executions[index]? with
  | none => system
  | some execution =>
    if execution.phase = .requested then
      match system.queue.reserve startedAt with
      | none => system.setPhase index execution (.concluding [])
      | some (next, queue) =>
        { system with
          queue := queue
          consumed := system.consumed ++ [(next.operationId, execution.operationId)] }
          |>.setPhase index execution (.persisting next)
    else system

/-- The write of `dequeue`. A failed one takes the reservation back and ends the execution. -/
def persisted (ok : Bool) (now : String) :
    OperationSystem :=
  match system.executions[index]? with
  | none => system
  | some execution =>
    match execution.phase with
    | .persisting next =>
      if ok then
        { system with
          checkpoints :=
            system.checkpoints.setActiveFlag next.operationId next.priority.asI32 now }
          |>.setPhase index execution .running
      else
        { system with queue := system.queue.rollBack next }
          |>.setPhase index execution (.concluding [])
    | _ => system

/-- The early checkpoint of a hot update. A row that exists ends the execution with an error. -/
def createCheckpoint (rootDir now : String) :
    OperationSystem :=
  match system.executions[index]? with
  | none => system
  | some execution =>
    if execution.phase = .running ∧ execution.kind = .hotUpdate then
      match system.checkpoints.createCheckpoint
          { operationId := execution.operationId
            operationType := "hot_update"
            rootDir := rootDir
            createdAt := now
            updatedAt := now
            lastError := none
            status := .inProgress
            activeFlag := false
            priority := 1
            lastHeartbeat := some now
            failedAt := none } with
      | none => system.setPhase index execution (.concluding [])
      | some checkpoints => { system with checkpoints }
    else system

/-- The end of the work of an execution. -/
def conclude (outcome : ExecutionOutcome) :
    OperationSystem :=
  match system.executions[index]? with
  | none => system
  | some execution =>
    if execution.phase = .running then
      { system with
        finished :=
          if outcome ∈ [ExecutionOutcome.success, .noChange] then
            execution.operationId :: system.finished
          else system.finished }
        |>.setPhase index execution (.concluding (callsAfter execution.kind outcome))
    else system

/-- `complete_operation`: whichever operation is active leaves the slot, and its checkpoint is
marked completed. `cleared` and `marked` say which writes succeed. -/
def completeOperation (operationId : String) (cleared marked : Bool)
    (now : String) : OperationSystem :=
  { system with
    queue := system.queue.completeActive
    completions := system.completions ++
      [(operationId, system.queue.active.map ActiveOperation.operationId)]
    checkpoints :=
      match system.queue.active with
      | none => system.checkpoints
      | some active =>
        if cleared then
          let flagless := system.checkpoints.clearActiveFlag active.operationId now
          if marked then flagless.markOperationCompleted active.operationId now else flagless
        else system.checkpoints }

/-- The next concluding call of an execution. An error that is passed on drops the calls after
it. -/
def concludingCall (ok marked : Bool) (now : String) :
    OperationSystem :=
  match system.executions[index]? with
  | none => system
  | some execution =>
    match execution.phase with
    | .concluding (.markCompleted :: rest) =>
      if ok then
        { system with
          checkpoints := system.checkpoints.markOperationCompleted execution.operationId now }
          |>.setPhase index execution (.concluding rest)
      else system.setPhase index execution (.concluding [])
    | .concluding (.complete :: rest) =>
      (system.completeOperation execution.operationId ok marked now).setPhase index execution
        (.concluding
          (if system.queue.active.isNone || (ok && marked) then rest else []))
    | .concluding (.clear :: rest) =>
      { system with
        queue := system.queue.clearActiveByOperation execution.operationId
        checkpoints :=
          if ok then system.checkpoints.clearActiveFlag execution.operationId now
          else system.checkpoints }
        |>.setPhase index execution (.concluding rest)
    | _ => system

/-- The coordinator of the process, with a queue whose history starts here. -/
def coordinator : OperationCoordinator :=
  ⟨{ QueueRun.start system.queue.projectId with queue := system.queue }, system.checkpoints,
    system.recoveryFreshnessSecs⟩

def withCoordinator (coordinator : OperationCoordinator) :
    OperationSystem :=
  { system with queue := coordinator.run.queue, checkpoints := coordinator.checkpoints }

/-- The process dies with its executions and its queue, and the next one starts up. -/
def restart (clock : StartupClock) : OperationSystem :=
  { system with executions := [] }.withCoordinator
    ((OperationCoordinator.newForProject system.queue.projectId system.checkpoints
      system.recoveryFreshnessSecs).initializeCoordinator clock).1

def step : OperationStep → OperationSystem
  | .requestFullIndex operationId rootDir createdAt =>
    system.requestFullIndex operationId rootDir createdAt
  | .requestHotUpdate operationId rootDir createdAt =>
    system.requestHotUpdate operationId rootDir createdAt
  | .resume operationId => system.addExecution operationId .resumed .running
  | .acquire execution startedAt => system.acquire execution startedAt
  | .persisted execution ok now => system.persisted execution ok now
  | .createCheckpoint execution rootDir now => system.createCheckpoint execution rootDir now
  | .conclude execution outcome => system.conclude execution outcome
  | .call execution ok marked now => system.concludingCall execution ok marked now
  | .recover clock =>
    system.withCoordinator (system.coordinator.recoverUnfinishedOperations clock).1
  | .restart clock => system.restart clock

/-- Two executions between acquiring and completing are the same one. -/
def Apart (executions : List Execution) : Prop :=
  ∀ (i j : Nat) (first second : Execution), executions[i]? = some first →
    executions[j]? = some second → first.executing = true → second.executing = true → i = j

/-- One execution at most is between acquiring and completing, `complete_operation` is called for
the active operation, a completed checkpoint is that of an operation that ran to its end, and a
pending operation is taken from the queue by its own execution. -/
structure CompletesOnlyItself (system : OperationSystem) : Prop where
  exclusive : Apart system.executions
  completes : ∀ call ∈ system.completions, call.2 = some call.1
  truthful : ∀ id, system.checkpoints.statusOf id = some .completed → id ∈ system.finished
  consumes : ∀ taken ∈ system.consumed, taken.1 = taken.2

def activeId : Option String :=
  system.queue.active.map ActiveOperation.operationId

/-- Where a step keeps to its own operation: an execution that finds the slot free finds its own
operation at the head of the queue, and a resumed one starts while the slot holds its operation
and nothing is executing. -/
def OwnStep : OperationStep → Prop
  | .acquire index _ => ∀ execution, system.executions[index]? = some execution →
      execution.phase = .requested → system.queue.active = none →
        ∀ next ∈ system.queue.pending.head?, next.operationId = execution.operationId
  | .resume operationId =>
    system.activeId = some operationId ∧
      ∀ execution ∈ system.executions, execution.executing = false
  | _ => True

/-- The claims about a system with what carries them: an executing operation holds the slot, an
execution that is to mark or to complete has run to its end, and what is to be called is the end
of a plan. -/
structure Orderly (system : OperationSystem) : Prop where
  claims : system.CompletesOnlyItself
  slot : ∀ execution ∈ system.executions, execution.executing = true →
    system.activeId = some execution.operationId
  ran : ∀ execution ∈ system.executions, ∀ calls, execution.phase = .concluding calls →
    (.markCompleted ∈ calls ∨ .complete ∈ calls) → execution.operationId ∈ system.finished
  planned : ∀ execution ∈ system.executions, ∀ calls, execution.phase = .concluding calls →
    ∃ kind outcome, calls <:+ callsAfter kind outcome

variable {system : OperationSystem}

theorem mem_set_iff {l : List Execution} {i j : Nat} {old changed found : Execution}
    (there : l[i]? = some old) :
    (l.set i changed)[j]? = some found ↔
      (j = i ∧ found = changed) ∨ (j ≠ i ∧ l[j]? = some found) := by
  have short : i < l.length := (List.getElem?_eq_some_iff.1 there).1
  rw [getElem?_set]
  by_cases same : i = j
  · subst same
    simp [short, eq_comm]
  · rw [if_neg same]
    simp [Ne.symm same]

theorem Apart.set {l : List Execution} {i : Nat} {old changed : Execution} (apart : Apart l)
    (there : l[i]? = some old)
    (alone : changed.executing = true → old.executing = true ∨
      ∀ execution ∈ l, execution.executing = false) :
    Apart (l.set i changed) := by
  have other : ∀ (k : Nat) (second : Execution), k ≠ i → l[k]? = some second →
      second.executing = true → changed.executing = true → False := by
    intro k second distinct found runs starts
    rcases alone starts with before | idle
    · exact distinct (apart k i second old found there runs before)
    · have quiet := idle second (mem_of_getElem? found)
      rw [runs] at quiet
      cases quiet
  intro j k first second atJ atK runs runs'
  rcases (mem_set_iff there).1 atJ with ⟨rfl, rfl⟩ | ⟨awayJ, foundJ⟩
  · rcases (mem_set_iff there).1 atK with ⟨rfl, rfl⟩ | ⟨awayK, foundK⟩
    · rfl
    · exact (other k second awayK foundK runs' runs).elim
  · rcases (mem_set_iff there).1 atK with ⟨rfl, rfl⟩ | ⟨awayK, foundK⟩
    · exact (other j first awayJ foundJ runs runs').elim
    · exact apart j k first second foundJ foundK runs runs'

theorem Orderly.update {next : OperationSystem} (orderly : system.Orderly) {i : Nat}
    {old changed : Execution} (there : system.executions[i]? = some old)
    (sameExecutions : next.executions = system.executions.set i changed)
    (alone : changed.executing = true → old.executing = true ∨
      ∀ execution ∈ system.executions, execution.executing = false)
    (slotOwn : changed.executing = true → next.activeId = some changed.operationId)
    (slotKept : old.executing = true ∨ next.activeId = system.activeId ∨
      ∀ execution ∈ system.executions, execution.executing = false)
    (ranOwn : ∀ calls, changed.phase = .concluding calls →
      (.markCompleted ∈ calls ∨ .complete ∈ calls) → changed.operationId ∈ next.finished)
    (plannedOwn : ∀ calls, changed.phase = .concluding calls →
      ∃ kind outcome, calls <:+ callsAfter kind outcome)
    (grows : ∀ id ∈ system.finished, id ∈ next.finished)
    (completes : ∀ call ∈ next.completions, call.2 = some call.1)
    (truthful : ∀ id, next.checkpoints.statusOf id = some .completed → id ∈ next.finished)
    (consumes : ∀ taken ∈ next.consumed, taken.1 = taken.2) : next.Orderly := by
  have member : ∀ execution ∈ next.executions, execution = changed ∨
      ∃ j, j ≠ i ∧ system.executions[j]? = some execution := by
    intro execution mem
    rw [sameExecutions] at mem
    obtain ⟨j, found⟩ := mem_iff_getElem?.1 mem
    rcases (mem_set_iff there).1 found with ⟨-, same⟩ | ⟨away, found⟩
    · exact Or.inl same
    · exact Or.inr ⟨j, away, found⟩
  refine ⟨⟨?_, completes, truthful, consumes⟩, fun execution mem runs => ?_,
    fun execution mem calls concludes listed => ?_, fun execution mem calls concludes => ?_⟩
  · rw [sameExecutions]
    exact orderly.claims.exclusive.set there alone
  · rcases member execution mem with rfl | ⟨j, away, found⟩
    · exact slotOwn runs
    · rcases slotKept with before | same | idle
      · exact absurd (orderly.claims.exclusive j i execution old found there runs before) away
      · rw [same]
        exact orderly.slot execution (mem_of_getElem? found) runs
      · have quiet := idle execution (mem_of_getElem? found)
        rw [runs] at quiet
        cases quiet
  · rcases member execution mem with rfl | ⟨j, away, found⟩
    · exact ranOwn calls concludes listed
    · exact grows _ (orderly.ran execution (mem_of_getElem? found) calls concludes listed)
  · rcases member execution mem with rfl | ⟨j, away, found⟩
    · exact plannedOwn calls concludes
    · exact orderly.planned execution (mem_of_getElem? found) calls concludes

theorem Orderly.add {queue : OperationQueue} (orderly : system.Orderly) (op : String)
    (kind : ExecutionKind) {phase : ExecutionPhase}
    (sameActive : queue.active = system.queue.active)
    (early : ∀ calls, phase ≠ .concluding calls)
    (alone : (⟨op, kind, phase⟩ : Execution).executing = true → system.activeId = some op ∧
        ∀ execution ∈ system.executions, execution.executing = false) :
    ({ system with queue := queue }.addExecution op kind phase).Orderly := by
  have idle : ∀ (k : Nat) (second : Execution), system.executions[k]? = some second →
      second.executing = true → (⟨op, kind, phase⟩ : Execution).executing = true →
        False := by
    intro k second found runs starts
    have quiet := (alone starts).2 second (mem_of_getElem? found)
    rw [runs] at quiet
    cases quiet
  have place : ∀ (k : Nat) (execution : Execution),
      (system.executions ++ [⟨op, kind, phase⟩])[k]? = some execution →
        system.executions[k]? = some execution ∨
          (k = system.executions.length ∧ execution = ⟨op, kind, phase⟩) := by
    intro k execution found
    rw [getElem?_append] at found
    split at found
    · exact Or.inl found
    · next long =>
        obtain ⟨short, same⟩ := List.getElem?_eq_some_iff.1 found
        rw [length_singleton] at short
        refine Or.inr ⟨by omega, ?_⟩
        rw [← same, getElem_singleton]
  refine ⟨⟨?_, orderly.claims.completes, orderly.claims.truthful, orderly.claims.consumes⟩,
    fun execution mem runs => ?_, fun execution mem calls concludes listed => ?_,
    fun execution mem calls concludes => ?_⟩
  · intro i j first second atI atJ runs runs'
    rcases place i first atI with foundI | ⟨rfl, rfl⟩
    · rcases place j second atJ with foundJ | ⟨rfl, rfl⟩
      · exact orderly.claims.exclusive i j first second foundI foundJ runs runs'
      · exact (idle i first foundI runs runs').elim
    · rcases place j second atJ with foundJ | ⟨rfl, rfl⟩
      · exact (idle j second foundJ runs' runs).elim
      · rfl
  · show queue.active.map ActiveOperation.operationId = _
    rw [sameActive]
    rcases mem_append.1 mem with before | single
    · exact orderly.slot execution before runs
    · obtain rfl := mem_singleton.1 single
      exact (alone runs).1
  · rcases mem_append.1 mem with before | single
    · exact orderly.ran execution before calls concludes listed
    · obtain rfl := mem_singleton.1 single
      exact absurd concludes (early calls)
  · rcases mem_append.1 mem with before | single
    · exact orderly.planned execution before calls concludes
    · obtain rfl := mem_singleton.1 single
      exact absurd concludes (early calls)

variable {execution : Execution}

theorem planned_nil (calls : List ConcludingCall)
    (concludes : ({ execution with phase := .concluding [] } : Execution).phase =
      .concluding calls) : ∃ kind outcome, calls <:+ callsAfter kind outcome := by
  obtain rfl := ExecutionPhase.concluding.inj concludes
  exact ⟨.fullIndex, .error, nil_suffix⟩

theorem notMem_of_concluding_nil {calls : List ConcludingCall}
    (concludes : ({ execution with phase := .concluding [] } : Execution).phase =
      .concluding calls) : ¬ (.markCompleted ∈ calls ∨ .complete ∈ calls) := by
  obtain rfl := ExecutionPhase.concluding.inj concludes
  simp

theorem Orderly.idle (orderly : system.Orderly) (free : system.queue.active = none) :
    ∀ execution ∈ system.executions, execution.executing = false := by
  intro execution mem
  by_contra runs
  have held := orderly.slot execution mem (by simpa using runs)
  unfold activeId at held
  rw [free] at held
  cases held

theorem Orderly.concluded (orderly : system.Orderly) {i : Nat} {old : Execution}
    (there : system.executions[i]? = some old) : (system.setPhase i old (.concluding [])).Orderly :=
  orderly.update there rfl (fun starts => by cases starts) (fun starts => by cases starts)
    (Or.inr (Or.inl rfl))
    (fun _ concludes listed => absurd listed (notMem_of_concluding_nil concludes))
    planned_nil (fun _ mem => mem) orderly.claims.completes orderly.claims.truthful
    orderly.claims.consumes

theorem Orderly.acquire (orderly : system.Orderly) {index : Nat} {startedAt : String}
    (own : system.OwnStep (.acquire index startedAt)) :
    (system.acquire index startedAt).Orderly := by
  unfold OperationSystem.acquire
  cases there : system.executions[index]? with
  | none => exact orderly
  | some execution =>
    simp only
    split_ifs with requested
    · have quiet : execution.executing = false := by
        unfold Execution.executing
        rw [requested]
      cases reserved : system.queue.reserve startedAt with
      | none =>
        exact orderly.concluded there
      | some taken =>
        obtain ⟨next, queue⟩ := taken
        obtain ⟨free, rest, pending, rfl⟩ := reserve_eq_some_iff.1 reserved
        have ownNext : next.operationId = execution.operationId := by
          refine own execution there requested free next ?_
          rw [pending]
          rfl
        refine orderly.update there rfl (fun _ => Or.inr (orderly.idle free))
          (fun _ => congrArg some ownNext) (Or.inr (Or.inr (orderly.idle free)))
          (fun _ concludes => by cases concludes) (fun _ concludes => by cases concludes)
          (fun _ mem => mem) orderly.claims.completes orderly.claims.truthful
          fun taken mem => ?_
        rcases mem_append.1 mem with before | single
        · exact orderly.claims.consumes taken before
        · obtain rfl := mem_singleton.1 single
          exact ownNext
    · exact orderly

theorem Orderly.persisted (orderly : system.Orderly) (index : Nat) (ok : Bool) (now : String) :
    (system.persisted index ok now).Orderly := by
  unfold OperationSystem.persisted
  cases there : system.executions[index]? with
  | none => exact orderly
  | some execution =>
    simp only
    split
    · next next waiting =>
        have runs : execution.executing = true := by
          unfold Execution.executing
          rw [waiting]
        split_ifs
        · refine orderly.update there rfl (fun _ => Or.inl runs)
            (fun _ => orderly.slot execution (mem_of_getElem? there) runs) (Or.inl runs)
            (fun _ concludes => by cases concludes) (fun _ concludes => by cases concludes)
            (fun _ mem => mem) orderly.claims.completes (fun id completed => ?_)
            orderly.claims.consumes
          refine orderly.claims.truthful id ?_
          exact (CheckpointTable.statusOf_setActiveFlag _ _ _).symm.trans completed
        · refine orderly.update there rfl (fun starts => by cases starts)
            (fun starts => by cases starts) (Or.inl runs)
            (fun calls concludes listed => absurd listed (notMem_of_concluding_nil concludes))
            planned_nil (fun _ mem => mem) orderly.claims.completes orderly.claims.truthful
            orderly.claims.consumes
    · exact orderly

theorem statusOf_createCheckpoint {table next : CheckpointTable} {row : CheckpointRecord}
    (created : table.createCheckpoint row = some next) {id : String} {status : CheckpointStatus}
    (found : next.statusOf id = some status) :
    table.statusOf id = some status ∨ status = row.status := by
  unfold CheckpointTable.createCheckpoint at created
  split at created
  · cases created
  · obtain rfl := Option.some.inj created
    obtain ⟨other, isRow, rfl⟩ := Option.map_eq_some_iff.1 found
    obtain ⟨mem, rfl⟩ := CheckpointTable.getCheckpoint_eq_some_iff.1 isRow
    rcases mem_append.1 mem with before | single
    · exact Or.inl (CheckpointTable.statusOf_of_mem before)
    · obtain rfl := mem_singleton.1 single
      exact Or.inr rfl

theorem Orderly.createCheckpoint (orderly : system.Orderly) (index : Nat) (rootDir now : String) :
    (system.createCheckpoint index rootDir now).Orderly := by
  unfold OperationSystem.createCheckpoint
  cases there : system.executions[index]? with
  | none => exact orderly
  | some execution =>
    simp only
    split_ifs with early
    · have runs : execution.executing = true := by
        unfold Execution.executing
        rw [early.1]
      split
      · exact orderly.concluded there
      · next checkpoints created =>
          refine ⟨⟨orderly.claims.exclusive, orderly.claims.completes, fun id completed => ?_,
            orderly.claims.consumes⟩, orderly.slot, orderly.ran, orderly.planned⟩
          rcases statusOf_createCheckpoint created completed with before | other
          · exact orderly.claims.truthful id before
          · cases other
    · exact orderly

theorem callsAfter_of_not_ended (kind : ExecutionKind) {outcome : ExecutionOutcome}
    (fails : outcome ∉ [ExecutionOutcome.success, .noChange]) :
    .markCompleted ∉ callsAfter kind outcome ∧ .complete ∉ callsAfter kind outcome := by
  cases kind <;> cases outcome <;> revert fails <;> decide

theorem planned_callsAfter (outcome : ExecutionOutcome)
    (calls : List ConcludingCall)
    (concludes : ({ execution with
      phase := .concluding (callsAfter execution.kind outcome) } : Execution).phase =
        .concluding calls) : ∃ kind outcome, calls <:+ callsAfter kind outcome := by
  obtain rfl := ExecutionPhase.concluding.inj concludes
  exact ⟨execution.kind, outcome, suffix_rfl⟩

theorem Orderly.conclude (orderly : system.Orderly) (index : Nat) (outcome : ExecutionOutcome) :
    (system.conclude index outcome).Orderly := by
  unfold OperationSystem.conclude
  cases there : system.executions[index]? with
  | none => exact orderly
  | some execution =>
    simp only
    split_ifs with running ended
    · have runs : execution.executing = true := by
        unfold Execution.executing
        rw [running]
      refine orderly.update there rfl (fun _ => Or.inl runs)
        (fun _ => orderly.slot execution (mem_of_getElem? there) runs) (Or.inl runs)
        (fun _ _ _ => mem_cons_self) (planned_callsAfter outcome)
        (fun _ mem => mem_cons_of_mem _ mem) orderly.claims.completes
        (fun id completed => mem_cons_of_mem _ (orderly.claims.truthful id completed))
        orderly.claims.consumes
    · have runs : execution.executing = true := by
        unfold Execution.executing
        rw [running]
      refine orderly.update there rfl (fun _ => Or.inl runs)
        (fun _ => orderly.slot execution (mem_of_getElem? there) runs) (Or.inl runs)
        (fun calls concludes listed => ?_) (planned_callsAfter outcome) (fun _ mem => mem)
        orderly.claims.completes orderly.claims.truthful orderly.claims.consumes
      obtain rfl := ExecutionPhase.concluding.inj concludes
      obtain ⟨unmarked, incomplete⟩ := callsAfter_of_not_ended execution.kind ended
      exact (listed.elim unmarked incomplete).elim
    · exact orderly

theorem completed_of_markOperationCompleted {table : CheckpointTable}
    {op now id : String}
    (completed : (table.markOperationCompleted op now).statusOf id = some .completed) :
    id = op ∨ table.statusOf id = some .completed := by
  rw [CheckpointTable.statusOf_markOperationCompleted] at completed
  split_ifs at completed with own
  · exact Or.inl own
  · exact Or.inr completed

theorem truthful_completeOperation (orderly : system.Orderly) {operationId now : String}
    {cleared marked : Bool} (active : system.activeId = some operationId)
    (ran : operationId ∈ system.finished) {id : String}
    (completed : (system.completeOperation operationId cleared marked now).checkpoints.statusOf id =
      some .completed) : id ∈ system.finished := by
  unfold completeOperation at completed
  unfold activeId at active
  cases held : system.queue.active with
  | none =>
    rw [held] at completed
    exact orderly.claims.truthful id completed
  | some op =>
    rw [held] at active completed
    have own : op.operationId = operationId := Option.some.inj active
    simp only at completed
    split_ifs at completed
    · rcases completed_of_markOperationCompleted completed with rfl | before
      · rw [own]
        exact ran
      · rw [CheckpointTable.statusOf_clearActiveFlag] at before
        exact orderly.claims.truthful id before
    · rw [CheckpointTable.statusOf_clearActiveFlag] at completed
      exact orderly.claims.truthful id completed
    · exact orderly.claims.truthful id completed

theorem released_of_planned {call : ConcludingCall} {rest : List ConcludingCall}
    (gives : call = .complete ∨ call = .clear)
    (planned : ∃ kind outcome, call :: rest <:+ callsAfter kind outcome) :
    .complete ∉ rest ∧ .clear ∉ rest := by
  obtain ⟨kind, outcome, suffix_⟩ := planned
  rcases gives with rfl | rfl <;> cases kind <;> cases outcome <;>
    simp only [callsAfter, suffix_cons_iff, suffix_nil, cons.injEq, reduceCtorEq,
      false_and, or_false, false_or, true_and] at suffix_ <;> subst suffix_ <;> decide

theorem planned_of_cons {call : ConcludingCall} {rest : List ConcludingCall}
    (planned : ∃ kind outcome, call :: rest <:+ callsAfter kind outcome) :
    ∃ kind outcome, rest <:+ callsAfter kind outcome := by
  obtain ⟨kind, outcome, suffix_⟩ := planned
  exact ⟨kind, outcome, (suffix_cons call rest).trans suffix_⟩

theorem Orderly.concludingCall (orderly : system.Orderly) (index : Nat) (ok marked : Bool)
    (now : String) : (system.concludingCall index ok marked now).Orderly := by
  unfold OperationSystem.concludingCall
  cases there : system.executions[index]? with
  | none => exact orderly
  | some execution =>
    have mem := mem_of_getElem? there
    simp only
    split
    · next rest concludes =>
        have ran := orderly.ran execution mem _ concludes (Or.inl mem_cons_self)
        have planned := planned_of_cons (orderly.planned execution mem _ concludes)
        -- What is still to be called was to be called before.
        have still : ∀ changed : Execution, changed.phase = .concluding rest →
            changed.executing = true → execution.executing = true := by
          intro changed phase starts
          unfold Execution.executing at starts ⊢
          rw [phase] at starts
          rw [concludes]
          simpa using starts
        split_ifs
        · refine orderly.update there rfl (fun starts => Or.inl (still _ rfl starts))
            (fun starts => orderly.slot execution mem (still _ rfl starts)) (Or.inr (Or.inl rfl))
            (fun _ _ _ => ran) (fun calls concludes => ?_) (fun _ mem => mem)
            orderly.claims.completes (fun id completed => ?_) orderly.claims.consumes
          · exact ExecutionPhase.concluding.inj concludes ▸ planned
          · rcases completed_of_markOperationCompleted completed with rfl | before
            · exact ran
            · exact orderly.claims.truthful id before
        · exact orderly.concluded there
    · next rest concludes =>
        have ran := orderly.ran execution mem _ concludes (Or.inr mem_cons_self)
        have plan := orderly.planned execution mem _ concludes
        have runs : execution.executing = true := by
          unfold Execution.executing
          rw [concludes]
          simp
        have active := orderly.slot execution mem runs
        obtain ⟨noComplete, noClear⟩ := released_of_planned (Or.inl rfl) plan
        have quiet : ∀ calls, calls = rest ∨ calls = [] →
            ({ execution with phase := .concluding calls } : Execution).executing = false := by
          rintro calls (rfl | rfl)
          · simp [Execution.executing, noComplete, noClear]
          · rfl
        generalize chosen : (if (system.queue.active.isNone || (ok && marked)) = true then rest
          else []) = calls
        have remaining : calls = rest ∨ calls = [] := by
          rw [← chosen]
          split
          · exact Or.inl rfl
          · exact Or.inr rfl
        refine orderly.update there rfl (fun starts => ?_) (fun starts => ?_) (Or.inl runs)
          (fun _ _ _ => ran) (fun calls' concludes => ?_) (fun _ mem => mem) ?_
          (fun id completed => truthful_completeOperation orderly active ran completed)
          orderly.claims.consumes
        · rw [quiet calls remaining] at starts
          cases starts
        · rw [quiet calls remaining] at starts
          cases starts
        · obtain rfl := ExecutionPhase.concluding.inj concludes
          rcases remaining with rfl | rfl
          · exact planned_of_cons plan
          · exact ⟨.fullIndex, .error, nil_suffix⟩
        · intro call mem
          rcases mem_append.1 mem with before | single
          · exact orderly.claims.completes call before
          · obtain rfl := mem_singleton.1 single
            exact active
    · next rest concludes =>
        have plan := orderly.planned execution mem _ concludes
        have runs : execution.executing = true := by
          unfold Execution.executing
          rw [concludes]
          simp
        obtain ⟨noComplete, noClear⟩ := released_of_planned (Or.inr rfl) plan
        have quiet : ({ execution with phase := .concluding rest } : Execution).executing =
            false := by
          simp [Execution.executing, noComplete, noClear]
        refine orderly.update there rfl (fun starts => ?_) (fun starts => ?_) (Or.inl runs)
          (fun calls concludes' listed => ?_) (fun calls concludes' => ?_) (fun _ mem => mem)
          orderly.claims.completes (fun id completed => ?_) orderly.claims.consumes
        · rw [quiet] at starts
          cases starts
        · rw [quiet] at starts
          cases starts
        · obtain rfl := ExecutionPhase.concluding.inj concludes'
          exact orderly.ran execution mem _ concludes
            (listed.imp (mem_cons_of_mem _) (mem_cons_of_mem _))
        · exact ExecutionPhase.concluding.inj concludes' ▸ planned_of_cons plan
        · refine orderly.claims.truthful id ?_
          rw [← completed]
          show _ = CheckpointTable.statusOf (if ok = true then _ else _) id
          split
          · exact (CheckpointTable.statusOf_clearActiveFlag _ _).symm
          · rfl
    · exact orderly

theorem completed_of_recovery {before after : CheckpointTable} {rows : List CheckpointRecord}
    (statuses : ∀ id, after.statusOf id =
      if id ∈ rows.map CheckpointRecord.operationId then (before.statusOf id).map fun _ => .failed
      else before.statusOf id) {id : String} (completed : after.statusOf id = some .completed) :
    before.statusOf id = some .completed := by
  rw [statuses] at completed
  split_ifs at completed
  · obtain ⟨status, -, failed⟩ := Option.map_eq_some_iff.1 completed
    cases failed
  · exact completed

theorem Orderly.recover (orderly : system.Orderly) (clock : StartupClock) :
    (system.step (.recover clock)).Orderly := by
  have recovered := recoverAll_eq clock system.coordinator 0
    system.coordinator.checkpoints.getUnfinishedOperations
  have sameActive : (system.step (.recover clock)).activeId = system.activeId := by
    show (system.coordinator.recoverUnfinishedOperations clock).1.run.queue.active.map _ = _
    unfold OperationCoordinator.recoverUnfinishedOperations
    rw [recovered]
    simp only
    rw [active_replay]
    rfl
  refine ⟨⟨orderly.claims.exclusive, orderly.claims.completes, fun id completed => ?_,
    orderly.claims.consumes⟩, fun execution mem runs => ?_, orderly.ran, orderly.planned⟩
  · let expired := expiredRows system.recoveryFreshnessSecs clock
      system.checkpoints.getUnfinishedOperations
    have statuses : ∀ id, (system.step (.recover clock)).checkpoints.statusOf id =
        if id ∈ expired.map CheckpointRecord.operationId then
          (system.checkpoints.statusOf id).map fun _ => .failed
        else system.checkpoints.statusOf id := by
      intro id
      show (system.coordinator.recoverUnfinishedOperations clock).1.checkpoints.statusOf id = _
      unfold OperationCoordinator.recoverUnfinishedOperations
      rw [recovered]
      exact statusOf_foldl_markOperationFailed _ _ _ _ _
    exact orderly.claims.truthful id (completed_of_recovery statuses completed)
  · rw [sameActive]
    exact orderly.slot execution mem runs

theorem Orderly.restart (orderly : system.Orderly) (clock : StartupClock) :
    (system.restart clock).Orderly := by
  have spec := @initializeCoordinator_spec system.checkpoints system.recoveryFreshnessSecs clock
    system.queue.projectId
  refine ⟨⟨fun i j first second found => absurd found (by
      show ([] : List Execution)[i]? ≠ _
      simp),
    orderly.claims.completes, fun id completed => ?_, orderly.claims.consumes⟩,
    fun _ mem => (not_mem_nil mem).elim, fun _ mem => (not_mem_nil mem).elim,
    fun _ mem => (not_mem_nil mem).elim⟩
  exact orderly.claims.truthful id (completed_of_recovery spec.2.1 completed)

theorem Orderly.step (orderly : system.Orderly) {action : OperationStep}
    (own : system.OwnStep action) : (system.step action).Orderly := by
  cases action with
  | requestFullIndex operationId rootDir createdAt =>
    refine orderly.add operationId .fullIndex ?_ (fun _ same => by cases same)
      (fun starts => by cases starts)
    split
    · rfl
    · rfl
  | requestHotUpdate operationId rootDir createdAt =>
    exact orderly.add operationId .hotUpdate rfl (fun _ same => by cases same)
      (fun starts => by cases starts)
  | resume operationId =>
    exact orderly.add operationId .resumed rfl (fun _ same => by cases same) fun _ => own
  | acquire index startedAt => exact orderly.acquire own
  | persisted index ok now => exact orderly.persisted index ok now
  | createCheckpoint index rootDir now => exact orderly.createCheckpoint index rootDir now
  | conclude index outcome => exact orderly.conclude index outcome
  | call index ok marked now => exact orderly.concludingCall index ok marked now
  | recover clock => exact orderly.recover clock
  | restart clock => exact orderly.restart clock

theorem orderly_start (projectId : Int) (checkpoints : CheckpointTable)
    (freshness : Option UInt64) : (start projectId checkpoints freshness).Orderly := by
  refine ⟨⟨fun i j first second found => by simp [start] at found,
    fun _ mem => (not_mem_nil mem).elim, fun id completed => ?_,
    fun _ mem => (not_mem_nil mem).elim⟩, fun _ mem => (not_mem_nil mem).elim,
    fun _ mem => (not_mem_nil mem).elim, fun _ mem => (not_mem_nil mem).elim⟩
  obtain ⟨row, found, isCompleted⟩ := Option.map_eq_some_iff.1 completed
  obtain ⟨mem, rfl⟩ := CheckpointTable.getCheckpoint_eq_some_iff.1 found
  exact mem_map.2 ⟨row, mem_filter.2 ⟨mem, decide_eq_true isCompleted⟩, rfl⟩

def loneHotUpdate : List OperationStep :=
  [.requestHotUpdate "hot" "/project" "", .acquire 0 "", .persisted 0 true "",
    .createCheckpoint 0 "/project" "", .conclude 0 .success, .call 0 true true "",
    .call 0 true true ""]

def resumeBesideFullIndex : List OperationStep :=
  [.requestFullIndex "full" "/project" "", .acquire 0 "", .persisted 0 true "", .resume "hot",
    .conclude 1 .success, .call 1 true true "", .call 1 true true ""]

end OperationSystem

end ContextEngine

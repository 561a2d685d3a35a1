/- digest: What the startup of a coordinator recovers from the checkpoints of a project. -/

import Mathlib.Algebra.Group.Nat.Defs
import ContextEngine.Operation.QueueInvariants

set_option autoImplicit false

namespace ContextEngine

open Option List OperationQueue

structure StartupClock where
  now : String
  cutoff : String
  age : String → Option Int

/-- The shared state of a coordinator: its queue with what became of the operations, the
checkpoints of its project, and the freshness window. -/
structure OperationCoordinator where
  run : QueueRun
  checkpoints : CheckpointTable
  recoveryFreshnessSecs : Option UInt64

namespace OperationCoordinator

/-- `new_for_project` over the checkpoints of earlier processes. -/
def newForProject (projectId : Int) (checkpoints : CheckpointTable)
    (recoveryFreshnessSecs : Option UInt64) : OperationCoordinator :=
  ⟨.start projectId, checkpoints, recoveryFreshnessSecs⟩

def activeOf (projectId : Int) (row : CheckpointRecord) : Except String ActiveOperation :=
  match OperationKind.parse row.operationType with
  | .error e => .error s!"Invalid operation_type: {e}"
  | .ok operationType =>
    match OperationPriority.fromI32 row.priority with
    | none => .error "Invalid priority value"
    | some priority =>
      .ok
        { projectId := projectId
          operationId := row.operationId
          operationType := operationType
          priority := priority
          startedAt := row.createdAt
          rootDir := row.rootDir
          -- No enqueue call of this process made it.
          ticket := 0 }

variable (coordinator : OperationCoordinator)

def loadPersistedActive :
    Except String OperationCoordinator :=
  match coordinator.checkpoints.getActiveCheckpoint with
  | none => .ok coordinator
  | some row =>
    match activeOf coordinator.run.queue.projectId row with
    | .error e => .error e
    | .ok active =>
      .ok
        { coordinator with
          run := { coordinator.run with
            queue := { coordinator.run.queue with active := some active } } }

def cleanupStaleOperations (clock : StartupClock) :
    OperationCoordinator :=
  let cleared := coordinator.checkpoints.staleActiveCount clock.cutoff
  let checkpoints := coordinator.checkpoints.cleanupStaleActive clock.cutoff clock.now
  { coordinator with
    checkpoints := checkpoints
    run := coordinator.run.step
      (.cleanupStale cleared
        (checkpoints.getActiveCheckpoint.map CheckpointRecord.operationId)) }

/-- The `as i64` cast of the freshness window. -/
def windowSecs (freshness : UInt64) : Int := (freshness.toNat : Int).bmod (2 ^ 64)

def isStaleForRecovery (freshness : Option UInt64) (clock : StartupClock)
    (checkpoint : CheckpointRecord) : Bool :=
  match freshness with
  | none => false
  | some freshness =>
    match clock.age checkpoint.updatedAt with
    | none => true
    | some age => decide (windowSecs freshness < age)

def recoveryPriority : OperationKind → OperationPriority
  | .fullIndex => .fullIndex
  | .incremental => .incremental
  | .hotUpdate => .hotUpdate
  | .configChange => .hotUpdate

def viaQueue (kind : OperationKind) : Bool := kind = .fullIndex || kind = .incremental

/-- The loop of `recover_unfinished_operations`, which an unknown type ends. -/
def recoverAll (clock : StartupClock) (coordinator : OperationCoordinator) (recovered : Nat) :
    List CheckpointRecord → OperationCoordinator × Except String Nat
  | [] => (coordinator, .ok recovered)
  | checkpoint :: rest =>
    if isStaleForRecovery coordinator.recoveryFreshnessSecs clock checkpoint then
      recoverAll clock
        { coordinator with
          checkpoints := coordinator.checkpoints.markOperationFailed checkpoint.operationId
            "stale recovery skipped" clock.now }
        recovered rest
    else
      match OperationKind.parse checkpoint.operationType with
      | .error e => (coordinator, .error s!"Invalid operation_type: {e}")
      | .ok kind =>
        if viaQueue kind then
          recoverAll clock
            { coordinator with
              run := coordinator.run.step
                (.enqueue checkpoint.operationId kind checkpoint.rootDir (recoveryPriority kind)
                  clock.now) }
            (recovered + 1) rest
        else recoverAll clock coordinator recovered rest

def recoverUnfinishedOperations (clock : StartupClock) :
    OperationCoordinator × Except String Nat :=
  recoverAll clock coordinator 0 coordinator.checkpoints.getUnfinishedOperations

def initializeCoordinator (clock : StartupClock) :
    OperationCoordinator × Except String Nat :=
  match coordinator.loadPersistedActive with
  | .error e => (coordinator, .error e)
  | .ok loaded => (loaded.cleanupStaleOperations clock).recoverUnfinishedOperations clock

end OperationCoordinator

section Replay

namespace CheckpointRecord

def kind? (row : CheckpointRecord) : Option OperationKind :=
  (OperationKind.parse row.operationType).toOption

def queued (row : CheckpointRecord) : Bool := row.kind?.any OperationCoordinator.viaQueue

def sameTarget (a b : CheckpointRecord) : Bool :=
  a.kind? = b.kind? && a.rootDir = b.rootDir

def replayCall (now : String) (row : CheckpointRecord) : QueueCall :=
  let kind := row.kind?.getD .fullIndex
  .enqueue row.operationId kind row.rootDir (OperationCoordinator.recoveryPriority kind) now

end CheckpointRecord

open OperationCoordinator

variable (freshness : Option UInt64) (clock : StartupClock) (rows : List CheckpointRecord)

/-- The rows the loop gets to: up to the first one that is neither stale nor of a known type. -/
def reachedRows : List CheckpointRecord :=
  rows.takeWhile fun row => isStaleForRecovery freshness clock row || row.kind?.isSome

/-- The rows the loop marks failed. -/
def expiredRows : List CheckpointRecord :=
  (reachedRows freshness clock rows).filter (isStaleForRecovery freshness clock)

def replayedRows : List CheckpointRecord :=
  (reachedRows freshness clock rows).filter fun row =>
    !isStaleForRecovery freshness clock row && row.queued

theorem recoverAll_eq (coord : OperationCoordinator) (recovered : Nat)
    (rows : List CheckpointRecord) :
    (recoverAll clock coord recovered rows).1 =
      { coord with
        checkpoints := (expiredRows coord.recoveryFreshnessSecs clock rows).foldl
          (fun table row => table.markOperationFailed row.operationId "stale recovery skipped"
            clock.now)
          coord.checkpoints
        run := ((replayedRows coord.recoveryFreshnessSecs clock rows).map
          (CheckpointRecord.replayCall clock.now)).foldl QueueRun.step coord.run } := by
  induction rows generalizing coord recovered with
  | nil => rfl
  | cons row rows ih =>
    rw [recoverAll]
    unfold expiredRows replayedRows reachedRows
    cases stale : isStaleForRecovery coord.recoveryFreshnessSecs clock row with
    | true =>
      rw [if_pos rfl, ih]
      simp only [takeWhile_cons, stale, Bool.true_or, if_true, filter_cons,
        Bool.not_true, Bool.false_and, Bool.false_eq_true, if_false, foldl_cons]
      rfl
    | false =>
      rw [if_neg Bool.false_ne_true]
      cases parsed : OperationKind.parse row.operationType with
      | error e =>
        have unknown : row.kind? = none := by rw [CheckpointRecord.kind?, parsed]; rfl
        simp only [takeWhile_cons, stale, unknown, isSome_none, Bool.or_false,
          Bool.false_eq_true, if_false, filter_nil, map_nil, foldl_nil]
      | ok kind =>
        have known : row.kind? = some kind := by rw [CheckpointRecord.kind?, parsed]; rfl
        have viaQueued : row.queued = viaQueue kind := by
          rw [CheckpointRecord.queued, known]
          rfl
        simp only
        cases via : viaQueue kind with
        | true =>
          rw [if_pos rfl, ih]
          simp only [takeWhile_cons, stale, known, isSome_some, Bool.or_true,
            if_true, filter_cons, Bool.not_false, Bool.true_and, viaQueued, via,
            Bool.false_eq_true, if_false, map_cons, foldl_cons,
            CheckpointRecord.replayCall, getD_some]
          rfl
        | false =>
          rw [if_neg Bool.false_ne_true, ih]
          simp only [takeWhile_cons, stale, known, isSome_some, Bool.or_true,
            if_true, filter_cons, Bool.not_false, Bool.true_and, viaQueued, via,
            Bool.false_eq_true, if_false]
          rfl

theorem statusOf_foldl_markOperationFailed (error now id : String)
    (table : CheckpointTable) :
    (rows.foldl (fun table row => table.markOperationFailed row.operationId error now)
      table).statusOf id =
      if id ∈ rows.map CheckpointRecord.operationId then (table.statusOf id).map fun _ => .failed
      else table.statusOf id := by
  induction rows generalizing table with
  | nil => rfl
  | cons row rows ih =>
    rw [foldl_cons, ih, CheckpointTable.statusOf_markOperationFailed, map_cons]
    by_cases own : id = row.operationId
    · have listed : id ∈ row.operationId :: rows.map CheckpointRecord.operationId := by
        rw [own]
        exact mem_cons_self
      refine Eq.trans ?_ (if_pos listed).symm
      rw [if_pos own, Option.map_map]
      split <;> rfl
    · rw [if_neg own]
      have rest : id ∈ row.operationId :: rows.map CheckpointRecord.operationId ↔
          id ∈ rows.map CheckpointRecord.operationId := by simp [own]
      simp only [rest]

end Replay

section Fitting

def QueueRun.losses (run : QueueRun) : Nat := run.merged.length + run.dropped.length

/-- An enqueued operation replaces nothing and finds room. -/
def FitsNext (run : QueueRun) (op : PendingOperation) : Prop :=
  (∀ existing ∈ run.queue.pending, OperationQueue.sameTarget existing op = false) ∧
    run.queue.pending.length < maxPendingOperations

variable {run : QueueRun} {operationId rootDir createdAt : String} {kind : OperationKind}
  {priority : OperationPriority}

theorem losses_le_enqueue (run : QueueRun) (op : String) (kind : OperationKind)
    (rootDir : String) (priority : OperationPriority) (createdAt : String) :
    run.losses ≤ (run.step (.enqueue op kind rootDir priority createdAt)).losses := by
  unfold QueueRun.losses QueueRun.step
  simp only [length_append]
  omega

theorem enqueue_of_fits
    (fits : FitsNext run (run.newOperation operationId kind rootDir priority createdAt)) :
    (run.step (.enqueue operationId kind rootDir priority createdAt)).queue.pending.Perm
        (run.newOperation operationId kind rootDir priority createdAt :: run.queue.pending) ∧
      (run.step (.enqueue operationId kind rootDir priority createdAt)).losses = run.losses := by
  let op := run.newOperation operationId kind rootDir priority createdAt
  obtain ⟨apart, room⟩ := fits
  have others : (run.queue.pending.filter fun existing => OperationQueue.sameTarget existing op) =
      [] := filter_eq_nil_iff.2 fun existing mem => by rw [apart existing mem]; simp
  have placed : (withNew run.queue.pending op).Perm (op :: run.queue.pending) := by
    have parts := perm_withNew run.queue.pending op
    rw [others, append_nil] at parts
    exact parts.symm
  have fitting : overflow (withNew run.queue.pending op) = none := by
    have size : (withNew run.queue.pending op).length = run.queue.pending.length + 1 :=
      placed.length_eq
    cases overflows : overflow (withNew run.queue.pending op) with
    | none => rfl
    | some dropped =>
      have above := overflow_isSome_iff.1 (by rw [overflows]; rfl)
      omega
  have trimmed : trim (withNew run.queue.pending op) = withNew run.queue.pending op := by
    unfold trim
    rw [fitting]
  constructor
  · show (trim (withNew run.queue.pending op)).Perm _
    rw [trimmed]
    exact placed
  · show (run.merged ++ run.queue.pending.filter fun existing =>
      OperationQueue.sameTarget existing op).length +
        (run.dropped ++ (overflow (withNew run.queue.pending op)).toList).length = _
    rw [others, fitting]
    simp [QueueRun.losses]

theorem losses_lt_of_not_fits (bounded : run.queue.pending.length ≤ maxPendingOperations)
    (fails : ¬ FitsNext run (run.newOperation operationId kind rootDir priority createdAt)) :
    run.losses < (run.step (.enqueue operationId kind rootDir priority createdAt)).losses := by
  let op := run.newOperation operationId kind rootDir priority createdAt
  show _ < (run.merged ++ run.queue.pending.filter fun existing =>
      OperationQueue.sameTarget existing op).length +
        (run.dropped ++ (overflow (withNew run.queue.pending op)).toList).length
  rw [length_append, length_append]
  unfold QueueRun.losses
  by_cases apart : ∀ existing ∈ run.queue.pending, OperationQueue.sameTarget existing op = false
  · have full : maxPendingOperations ≤ run.queue.pending.length :=
      Nat.le_of_not_lt fun room => fails ⟨apart, room⟩
    have others : (run.queue.pending.filter fun existing =>
        OperationQueue.sameTarget existing op) = [] :=
      filter_eq_nil_iff.2 fun existing mem => by rw [apart existing mem]; simp
    have size := (perm_withNew run.queue.pending op).length_eq
    rw [others, append_nil, length_cons] at size
    have above : (overflow (withNew run.queue.pending op)).isSome :=
      overflow_isSome_iff.2 (by omega)
    obtain ⟨dropped, overflows⟩ := isSome_iff_exists.1 above
    rw [overflows]
    simp
    omega
  · push Not at apart
    obtain ⟨existing, mem, same⟩ := apart
    have hit : existing ∈ run.queue.pending.filter fun existing =>
        OperationQueue.sameTarget existing op :=
      mem_filter.2 ⟨mem, by simpa using same⟩
    have some := length_pos_of_mem hit
    omega

theorem losses_le_replay (now : String) (rows : List CheckpointRecord) (run : QueueRun) :
    run.losses ≤ ((rows.map (CheckpointRecord.replayCall now)).foldl QueueRun.step run).losses := by
  induction rows generalizing run with
  | nil => exact Nat.le_refl _
  | cons row rows ih =>
    exact Nat.le_trans (losses_le_enqueue run row.operationId (row.kind?.getD .fullIndex)
      row.rootDir (OperationCoordinator.recoveryPriority (row.kind?.getD .fullIndex)) now) (ih _)

def meetsPending (op : PendingOperation) (row : CheckpointRecord) : Prop :=
  op.operationType = row.kind?.getD .fullIndex ∧ op.rootDir = row.rootDir

theorem meetsPending_iff (run : QueueRun) (now : String) (existing : PendingOperation)
    (row : CheckpointRecord) :
    meetsPending existing row ↔ OperationQueue.sameTarget existing
      (run.newOperation row.operationId (row.kind?.getD .fullIndex) row.rootDir
        (OperationCoordinator.recoveryPriority (row.kind?.getD .fullIndex)) now) = true := by
  unfold OperationQueue.sameTarget
  rw [Bool.and_eq_true, decide_eq_true_eq, decide_eq_true_eq]
  rfl

theorem meetsPending_newOperation (run : QueueRun) (now : String) {row other : CheckpointRecord}
    (known : row.kind?.isSome) (known' : other.kind?.isSome) :
    meetsPending (run.newOperation row.operationId (row.kind?.getD .fullIndex) row.rootDir
      (OperationCoordinator.recoveryPriority (row.kind?.getD .fullIndex)) now) other ↔
        row.sameTarget other = true := by
  obtain ⟨first, isFirst⟩ := isSome_iff_exists.1 known
  obtain ⟨second, isSecond⟩ := isSome_iff_exists.1 known'
  show (row.kind?.getD .fullIndex = other.kind?.getD .fullIndex ∧ row.rootDir = other.rootDir) ↔ _
  simp [CheckpointRecord.sameTarget, isFirst, isSecond]

/-- Replayed rows lose nothing exactly when their targets differ from what is pending and from one
another, and all fit; then the queue holds what it held and all of them. -/
theorem replay_lossless (now : String) {rows : List CheckpointRecord} {run : QueueRun}
    (bounded : run.queue.pending.length ≤ maxPendingOperations)
    (known : ∀ row ∈ rows, row.kind?.isSome) :
    let after := (rows.map (CheckpointRecord.replayCall now)).foldl QueueRun.step run
    (after.losses = run.losses ↔ (∀ op ∈ run.queue.pending, ∀ row ∈ rows, ¬ meetsPending op row) ∧
        (rows.Pairwise fun a b => a.sameTarget b = false) ∧
        run.queue.pending.length + rows.length ≤ maxPendingOperations) ∧
      (after.losses = run.losses → (after.queue.pending.map PendingOperation.operationId).Perm
          (rows.map CheckpointRecord.operationId ++
            run.queue.pending.map PendingOperation.operationId)) := by
  induction rows generalizing run with
  | nil =>
    refine ⟨iff_of_true rfl ⟨fun _ _ _ mem => (not_mem_nil mem).elim, List.Pairwise.nil, ?_⟩,
      fun _ => List.Perm.refl _⟩
    exact bounded
  | cons row rows ih =>
    intro after
    let kind := row.kind?.getD .fullIndex
    let op := run.newOperation row.operationId kind row.rootDir
      (OperationCoordinator.recoveryPriority kind) now
    let next := run.step (.enqueue row.operationId kind row.rootDir
      (OperationCoordinator.recoveryPriority kind) now)
    have later : after = (rows.map (CheckpointRecord.replayCall now)).foldl QueueRun.step next :=
      rfl
    by_cases fits : FitsNext run op
    · obtain ⟨placed, same⟩ := enqueue_of_fits fits
      have size : next.queue.pending.length = run.queue.pending.length + 1 := placed.length_eq
      have room := fits.2
      obtain ⟨lossless, holds⟩ := @ih next (by omega) fun other mem =>
        known other (mem_cons_of_mem _ mem)
      have pendingMem : ∀ other, other ∈ next.queue.pending ↔
          other = op ∨ other ∈ run.queue.pending := fun other =>
        (placed.mem_iff).trans mem_cons
      have own : ∀ other ∈ rows, meetsPending op other ↔ row.sameTarget other = true :=
        fun other mem => meetsPending_newOperation run now (known row mem_cons_self)
          (known other (mem_cons_of_mem _ mem))
      rw [later]
      have total : (next.losses = run.losses) := same
      constructor
      · rw [← total]
        refine lossless.trans ?_
        rw [size, length_cons, pairwise_cons]
        constructor
        · rintro ⟨apart, distinct, enough⟩
          refine ⟨fun standing mem other listed => ?_, ⟨fun other mem => ?_, distinct⟩, by omega⟩
          · rcases mem_cons.1 listed with rfl | listed
            · intro meets
              have clear := fits.1 standing mem
              rw [(meetsPending_iff run now standing other).1 meets] at clear
              cases clear
            · exact apart standing ((pendingMem standing).2 (Or.inr mem)) other listed
          · have clear := apart op ((pendingMem op).2 (Or.inl rfl)) other mem
            rw [own other mem] at clear
            simpa using clear
        · rintro ⟨apart, ⟨ahead, distinct⟩, enough⟩
          refine ⟨fun standing mem other listed => ?_, distinct, by omega⟩
          rcases (pendingMem standing).1 mem with rfl | mem
          · rw [own other listed, ahead other listed]
            simp
          · exact apart standing mem other (mem_cons_of_mem _ listed)
      · intro equal
        have ids := holds (equal.trans total.symm)
        refine ids.trans ?_
        have pendingIds := placed.map PendingOperation.operationId
        refine ((List.Perm.refl _).append pendingIds).trans ?_
        exact perm_middle
    · have lost := losses_lt_of_not_fits bounded fits
      have more : run.losses < after.losses :=
        Nat.lt_of_lt_of_le lost (losses_le_replay now rows next)
      refine ⟨iff_of_false (fun equal => by omega) ?_, fun equal => by omega⟩
      rintro ⟨apart, -, enough⟩
      refine fits ⟨fun existing mem => ?_, ?_⟩
      · have clear := apart existing mem row mem_cons_self
        rw [meetsPending_iff run now] at clear
        rwa [Bool.not_eq_true] at clear
      · rw [length_cons] at enough
        omega

end Fitting

section Startup

variable (table : CheckpointTable) (freshness : Option UInt64) (clock : StartupClock)

def loads : Bool :=
  match table.getActiveCheckpoint with
  | none => true
  | some row => row.kind?.isSome && (OperationPriority.fromI32 row.priority).isSome

def keptActive : Option CheckpointRecord :=
  if loads table then
    table.getActiveCheckpoint.filter fun row =>
      !CheckpointTable.heartbeatLost clock.cutoff row
  else none

variable (row : CheckpointRecord)

def refreshed : CheckpointRecord :=
  if CheckpointTable.heartbeatLost clock.cutoff row then
    { row with activeFlag := false, updatedAt := clock.now }
  else row

def recoveryOrder : List CheckpointRecord :=
  if loads table then
    (table.cleanupStaleActive clock.cutoff clock.now).getUnfinishedOperations
  else []

/-- A row whose last update is not proven to lie in the freshness window. -/
def OutsideWindow : Prop :=
  ∃ secs, freshness = some secs ∧
    ∀ age, clock.age row.updatedAt = some age → (secs.toNat : Int) < age

def RunsOnce (after : OperationCoordinator) (id : String) : Prop :=
  (after.run.queue.active.map ActiveOperation.operationId = some id ∧
    (after.run.queue.pending.map PendingOperation.operationId).count id = 0) ∨
  (after.run.queue.active.map ActiveOperation.operationId ≠ some id ∧
    (after.run.queue.pending.map PendingOperation.operationId).count id = 1)

/-- Every unfinished operation is accounted for once: no replayed operation absorbs or displaces
another, each one inside the window that goes through the queue can run once, those outside are
failed, and those recovered directly stay in progress. -/
structure RecoversOnce (after : OperationCoordinator) : Prop where
  lossless : after.run.losses = 0
  queued : ∀ row ∈ table.rows, row.status = .inProgress → ¬ OutsideWindow freshness clock row →
    row.queued = true → RunsOnce after row.operationId
  expired : ∀ row ∈ table.rows, row.status = .inProgress → OutsideWindow freshness clock row →
    after.checkpoints.statusOf row.operationId = some .failed
  direct : ∀ row ∈ table.rows, row.status = .inProgress → ¬ OutsideWindow freshness clock row →
    row.kind?.isSome → row.queued = false →
      after.checkpoints.statusOf row.operationId = some .inProgress

/-- The rows that startup accounts for: the replayed ones differ in kind or root and fit the
queue, those outside the window are reached while stale, and those inside are reached while fresh
unless they are the active one. -/
structure Recoverable : Prop where
  apart : (replayedRows freshness clock (recoveryOrder table clock)).Pairwise
    fun a b => a.sameTarget b = false
  room : (replayedRows freshness clock (recoveryOrder table clock)).length ≤ maxPendingOperations
  queued : ∀ row ∈ table.rows, row.status = .inProgress → ¬ OutsideWindow freshness clock row →
    row.queued = true →
      ((keptActive table clock).map CheckpointRecord.operationId = some row.operationId ↔
        ¬ (refreshed clock row ∈ reachedRows freshness clock (recoveryOrder table clock) ∧
          OperationCoordinator.isStaleForRecovery freshness clock (refreshed clock row) = false))
  expired : ∀ row ∈ table.rows, row.status = .inProgress → OutsideWindow freshness clock row →
    refreshed clock row ∈ reachedRows freshness clock (recoveryOrder table clock) ∧
      OperationCoordinator.isStaleForRecovery freshness clock (refreshed clock row) = true
  direct : ∀ row ∈ table.rows, row.status = .inProgress → ¬ OutsideWindow freshness clock row →
    row.kind?.isSome → row.queued = false →
      ¬ (refreshed clock row ∈ reachedRows freshness clock (recoveryOrder table clock) ∧
        OperationCoordinator.isStaleForRecovery freshness clock (refreshed clock row) = true)

variable {table freshness clock}

theorem operationId_refreshed :
    (refreshed clock row).operationId = row.operationId := by
  unfold refreshed
  split <;> rfl

theorem kind?_refreshed : (refreshed clock row).kind? = row.kind? := by
  unfold refreshed
  split <;> rfl

theorem eq_refreshed {row found : CheckpointRecord} (mem : row ∈ table.rows)
    (listed : found ∈ recoveryOrder table clock) (same : found.operationId = row.operationId) :
    found = refreshed clock row := by
  unfold recoveryOrder at listed
  split at listed
  · unfold CheckpointTable.getUnfinishedOperations at listed
    obtain ⟨kept, -⟩ := mem_filter.1 (mem_mergeSort.1 listed)
    obtain ⟨other, otherMem, rfl⟩ := mem_map.1 kept
    change refreshed clock other = refreshed clock row
    have sameId : other.operationId = row.operationId :=
      (operationId_refreshed other).symm.trans same
    rw [inj_on_of_nodup_map table.unique otherMem mem sameId]
  · cases listed

theorem nodup_recoveryOrder :
    ((recoveryOrder table clock).map CheckpointRecord.operationId).Nodup := by
  unfold recoveryOrder
  split
  · unfold CheckpointTable.getUnfinishedOperations
    have sorted := mergeSort_perm
      ((table.cleanupStaleActive clock.cutoff clock.now).rows.filter fun row =>
        row.status = .inProgress) (fun a b => decide (a.createdAt ≤ b.createdAt))
    refine ((sorted.map CheckpointRecord.operationId).nodup_iff).2 ?_
    exact (table.cleanupStaleActive clock.cutoff clock.now).unique.sublist
      (filter_sublist.map CheckpointRecord.operationId)
  · exact nodup_nil

theorem mem_ids_iff {row : CheckpointRecord} (mem : row ∈ table.rows)
    (test : CheckpointRecord → Bool) :
    row.operationId ∈ ((reachedRows freshness clock (recoveryOrder table clock)).filter test).map
        CheckpointRecord.operationId ↔
      refreshed clock row ∈ reachedRows freshness clock (recoveryOrder table clock) ∧
        test (refreshed clock row) = true := by
  rw [List.mem_map]
  constructor
  · rintro ⟨found, kept, same⟩
    obtain ⟨reached, passes⟩ := mem_filter.1 kept
    have listed : found ∈ recoveryOrder table clock := (takeWhile_sublist _).subset reached
    rw [← eq_refreshed mem listed same]
    exact ⟨reached, passes⟩
  · rintro ⟨reached, passes⟩
    exact ⟨_, mem_filter.2 ⟨reached, passes⟩, operationId_refreshed row⟩

open OperationCoordinator

/-- A startup that loads puts the flagged row's operation into the slot. -/
theorem loadPersistedActive_of_loads {projectId : Int} (ok : loads table = true) :
    ∃ active : Option ActiveOperation, active.map ActiveOperation.operationId =
        table.getActiveCheckpoint.map CheckpointRecord.operationId ∧
      (newForProject projectId table freshness).loadPersistedActive =
        .ok ⟨{ QueueRun.start projectId with queue := ⟨projectId, active, []⟩ }, table,
          freshness⟩ := by
  unfold loads at ok
  unfold loadPersistedActive
  cases flagged : table.getActiveCheckpoint with
  | none =>
    have same : (newForProject projectId table freshness).checkpoints.getActiveCheckpoint =
      none := flagged
    rw [same]
    exact ⟨none, rfl, rfl⟩
  | some row =>
    have same : (newForProject projectId table freshness).checkpoints.getActiveCheckpoint =
      some row := flagged
    rw [flagged] at ok
    rw [same]
    obtain ⟨known, ranked⟩ := Bool.and_eq_true_iff.1 ok
    obtain ⟨priority, isPriority⟩ := isSome_iff_exists.1 ranked
    unfold CheckpointRecord.kind? at known
    cases parsed : OperationKind.parse row.operationType with
    | error e =>
      rw [parsed] at known
      cases known
    | ok kind =>
      refine ⟨some ⟨projectId, row.operationId, kind, priority, row.createdAt, row.rootDir, 0⟩,
        rfl, ?_⟩
      simp only [activeOf, parsed, isPriority]
      rfl

theorem loadPersistedActive_of_not_loads {projectId : Int} (fails : loads table = false) :
    ∃ e, (newForProject projectId table freshness).loadPersistedActive = .error e := by
  unfold loads at fails
  unfold loadPersistedActive
  cases flagged : table.getActiveCheckpoint with
  | none =>
    rw [flagged] at fails
    cases fails
  | some row =>
    have same : (newForProject projectId table freshness).checkpoints.getActiveCheckpoint =
      some row := flagged
    rw [flagged] at fails
    rw [same]
    simp only [activeOf]
    cases parsed : OperationKind.parse row.operationType with
    | error e => exact ⟨_, rfl⟩
    | ok kind =>
      have known : row.kind? = some kind := by rw [CheckpointRecord.kind?, parsed]; rfl
      cases ranked : OperationPriority.fromI32 row.priority with
      | none => exact ⟨_, rfl⟩
      | some priority =>
        simp only [known, ranked, isSome_some, Bool.and_self] at fails
        cases fails

theorem rows_cleanupStaleActive :
    (table.cleanupStaleActive clock.cutoff clock.now).rows = table.rows.map (refreshed clock) :=
  rfl

variable {row : CheckpointRecord}

theorem getActiveCheckpoint_cleanup
    (flagged : table.getActiveCheckpoint = some row)
    (alive : CheckpointTable.heartbeatLost clock.cutoff row = false) :
    (table.cleanupStaleActive clock.cutoff clock.now).getActiveCheckpoint = some row := by
  obtain ⟨isFlagged, before, after, split_, unflagged⟩ := find?_eq_some_iff_append.1 flagged
  have kept : refreshed clock row = row := by
    unfold refreshed
    rw [alive]
    rfl
  unfold CheckpointTable.getActiveCheckpoint
  rw [rows_cleanupStaleActive, split_, map_append, map_cons, kept]
  refine find?_eq_some_iff_append.2 ⟨isFlagged, _, _, rfl, fun other mem => ?_⟩
  obtain ⟨source, listed, rfl⟩ := mem_map.1 mem
  have clear := unflagged source listed
  unfold refreshed
  split
  · rfl
  · exact clear

theorem getActiveCheckpoint_cleanup_ne {row other : CheckpointRecord}
    (flagged : table.getActiveCheckpoint = some row)
    (lost : CheckpointTable.heartbeatLost clock.cutoff row = true)
    (next : (table.cleanupStaleActive clock.cutoff clock.now).getActiveCheckpoint = some other) :
    other.operationId ≠ row.operationId := by
  intro same
  have isFlagged : other.activeFlag = true := by simpa using find?_some next
  have mem := mem_of_find?_eq_some next
  rw [rows_cleanupStaleActive] at mem
  obtain ⟨source, listed, rfl⟩ := mem_map.1 mem
  have sameId : source.operationId = row.operationId :=
    (@operationId_refreshed clock source).symm.trans same
  obtain rfl := inj_on_of_nodup_map table.unique listed
    (mem_of_find?_eq_some flagged) sameId
  unfold refreshed at isFlagged
  rw [lost] at isFlagged
  cases isFlagged

theorem active_replay (now : String) (rows : List CheckpointRecord) (run : QueueRun) :
    ((rows.map (CheckpointRecord.replayCall now)).foldl QueueRun.step run).queue.active =
      run.queue.active := by
  induction rows generalizing run with
  | nil => rfl
  | cons row rows ih => exact ih _

/-- The slot after the cleanup holds the flagged operation where it has its heartbeat. -/
theorem active_cleanupStaleOperations {run : QueueRun} (ok : loads table = true)
    (ids : run.queue.active.map ActiveOperation.operationId =
      table.getActiveCheckpoint.map CheckpointRecord.operationId) :
    (cleanupStaleOperations ⟨run, table, freshness⟩ clock).run.queue.active.map
        ActiveOperation.operationId =
      (keptActive table clock).map CheckpointRecord.operationId := by
  show (run.queue.cleanupStale (table.staleActiveCount clock.cutoff)
    ((table.cleanupStaleActive clock.cutoff clock.now).getActiveCheckpoint.map
      CheckpointRecord.operationId)).active.map ActiveOperation.operationId = _
  unfold keptActive OperationQueue.cleanupStale
  rw [if_pos ok]
  cases held : run.queue.active with
  | none =>
    rw [held] at ids
    have none_ : table.getActiveCheckpoint = none := map_eq_none_iff.1 ids.symm
    rw [none_]
    simp only [held]
    rfl
  | some op =>
    rw [held] at ids
    obtain ⟨row, flagged, same⟩ := map_eq_some_iff.1 ids.symm
    rw [flagged]
    simp only
    cases lost : CheckpointTable.heartbeatLost clock.cutoff row with
    | true =>
      have some : 0 < table.staleActiveCount clock.cutoff :=
        countP_pos_iff.2 ⟨row, mem_of_find?_eq_some flagged, lost⟩
      have other : (table.cleanupStaleActive clock.cutoff clock.now).getActiveCheckpoint.map
          CheckpointRecord.operationId ≠ Option.some op.operationId := by
        intro found
        obtain ⟨next, isNext, nextId⟩ := map_eq_some_iff.1 found
        exact getActiveCheckpoint_cleanup_ne flagged lost isNext (nextId.trans same.symm)
      rw [if_pos ⟨some, other⟩]
      simp only [filter_some, lost, Bool.not_true, Bool.false_eq_true, if_false]
      rfl
    | false =>
      rw [getActiveCheckpoint_cleanup flagged lost, map_some, same]
      rw [if_neg fun both => both.2 rfl]
      simp only [filter_some, lost, Bool.not_false, if_true, held, map_some, same]

theorem initializeCoordinator_spec (projectId : Int) :
    let after := ((newForProject projectId table freshness).initializeCoordinator clock).1
    after.run.queue.active.map ActiveOperation.operationId =
        (keptActive table clock).map CheckpointRecord.operationId ∧
      (∀ id, after.checkpoints.statusOf id =
        if id ∈ (expiredRows freshness clock (recoveryOrder table clock)).map
            CheckpointRecord.operationId then
          (table.statusOf id).map fun _ => .failed
        else table.statusOf id) ∧
      ∃ start : QueueRun, start.queue.pending = [] ∧ start.losses = 0 ∧
        after.run = ((replayedRows freshness clock (recoveryOrder table clock)).map
          (CheckpointRecord.replayCall clock.now)).foldl QueueRun.step start := by
  unfold initializeCoordinator
  cases ok : loads table with
  | false =>
    obtain ⟨e, failed⟩ := @loadPersistedActive_of_not_loads table freshness projectId ok
    rw [failed]
    have bare : recoveryOrder table clock = [] := by
      unfold recoveryOrder
      rw [ok]
      rfl
    have idle : keptActive table clock = none := by
      unfold keptActive
      rw [ok]
      rfl
    rw [bare, idle]
    exact ⟨rfl, fun _ => rfl, QueueRun.start projectId, rfl, rfl, rfl⟩
  | true =>
    obtain ⟨active, ids, loaded⟩ := @loadPersistedActive_of_loads table freshness projectId ok
    rw [loaded]
    simp only
    unfold recoverUnfinishedOperations
    rw [recoverAll_eq]
    have order : recoveryOrder table clock =
        (table.cleanupStaleActive clock.cutoff clock.now).getUnfinishedOperations := by
      unfold recoveryOrder
      rw [ok]
      rfl
    rw [order]
    refine ⟨?_, fun id => ?_, _, ?_, ?_, rfl⟩
    · simp only
      rw [active_replay]
      exact active_cleanupStaleOperations ok ids
    · refine (statusOf_foldl_markOperationFailed _ _ _ _ _).trans ?_
      simp only [cleanupStaleOperations, CheckpointTable.statusOf_cleanupStaleActive]
    · exact pending_cleanupStale _ _ _
    · rfl

theorem isSome_kind_of_replayed {rows : List CheckpointRecord}
    (mem : row ∈ replayedRows freshness clock rows) : row.kind?.isSome := by
  have via := (Bool.and_eq_true_iff.1 (mem_filter.1 mem).2).2
  unfold CheckpointRecord.queued at via
  cases named : row.kind? with
  | none =>
    rw [named] at via
    cases via
  | some kind => rfl

theorem count_replayedRows (mem : row ∈ table.rows)
    (via : row.queued = true) :
    ((replayedRows freshness clock (recoveryOrder table clock)).map
        CheckpointRecord.operationId).count row.operationId =
      if refreshed clock row ∈ reachedRows freshness clock (recoveryOrder table clock) ∧
        isStaleForRecovery freshness clock (refreshed clock row) = false then 1 else 0 := by
  have once : ((replayedRows freshness clock (recoveryOrder table clock)).map
      CheckpointRecord.operationId).Nodup :=
    nodup_recoveryOrder.sublist
      ((filter_sublist.trans (takeWhile_sublist _)).map CheckpointRecord.operationId)
  have listed := @mem_ids_iff table freshness clock row mem fun row =>
    !isStaleForRecovery freshness clock row && row.queued
  have sameQueued : (refreshed clock row).queued = row.queued := by
    unfold CheckpointRecord.queued
    rw [kind?_refreshed]
  rw [sameQueued, via, Bool.and_true, Bool.not_eq_true'] at listed
  split_ifs with reached
  · exact count_eq_one_of_mem once (listed.2 reached)
  · exact count_eq_zero.2 fun there => reached (listed.1 there)

/-- Startup accounts for every unfinished operation once exactly where the persisted rows can be
recovered. -/
theorem recoversOnce_iff (projectId : Int) (table : CheckpointTable) (freshness : Option UInt64)
    (clock : StartupClock) :
    RecoversOnce table freshness clock
        ((newForProject projectId table freshness).initializeCoordinator clock).1 ↔
      Recoverable table freshness clock := by
  obtain ⟨active, statuses, start, empty, unlost, replayed⟩ :=
    @initializeCoordinator_spec table freshness clock projectId
  generalize ((newForProject projectId table freshness).initializeCoordinator clock).1 = after
    at active statuses replayed
  let rows := replayedRows freshness clock (recoveryOrder table clock)
  obtain ⟨lossless, holds⟩ := @replay_lossless clock.now rows start
    (by rw [empty]; exact Nat.zero_le _) fun _ => isSome_kind_of_replayed
  rw [← replayed, unlost, empty] at lossless holds
  have fits : after.run.losses = 0 ↔ (rows.Pairwise fun a b => a.sameTarget b = false) ∧
      rows.length ≤ maxPendingOperations := by
    rw [lossless]
    simp
  have counted : after.run.losses = 0 → ∀ row ∈ table.rows, row.queued = true →
      (after.run.queue.pending.map PendingOperation.operationId).count row.operationId =
        if refreshed clock row ∈ reachedRows freshness clock (recoveryOrder table clock) ∧
          isStaleForRecovery freshness clock (refreshed clock row) = false then 1 else 0 := by
    intro none_ row mem via
    have ids := holds none_
    rw [map_nil, append_nil] at ids
    rw [ids.count_eq]
    exact count_replayedRows mem via
  have failed : ∀ row ∈ table.rows, row.status = .inProgress →
      after.checkpoints.statusOf row.operationId =
        if refreshed clock row ∈ reachedRows freshness clock (recoveryOrder table clock) ∧
          isStaleForRecovery freshness clock (refreshed clock row) = true then some .failed
        else some .inProgress := by
    intro row mem progress
    rw [statuses, CheckpointTable.statusOf_of_mem mem, progress]
    simp only [expiredRows, mem_ids_iff mem, map_some]
  constructor
  · rintro ⟨none_, queued, expired, direct⟩
    obtain ⟨apart, room⟩ := fits.1 none_
    refine ⟨apart, room, fun row mem progress inside via => ?_, fun row mem progress outside => ?_,
      fun row mem progress inside named unqueued reached => ?_⟩
    · rw [← active]
      rcases queued row mem progress inside via with ⟨own, zero⟩ | ⟨other, one⟩
      · rw [counted none_ row mem via] at zero
        refine iff_of_true own fun reached => ?_
        rw [if_pos reached] at zero
        cases zero
      · rw [counted none_ row mem via] at one
        refine iff_of_false other fun unreached => ?_
        rw [if_neg unreached] at one
        cases one
    · have done := expired row mem progress outside
      rw [failed row mem progress] at done
      by_contra unreached
      rw [if_neg unreached] at done
      cases done
    · have kept := direct row mem progress inside named unqueued
      rw [failed row mem progress, if_pos reached] at kept
      cases kept
  · intro recoverable
    have none_ : after.run.losses = 0 := fits.2 ⟨recoverable.apart, recoverable.room⟩
    refine ⟨none_, fun row mem progress inside via => ?_, fun row mem progress outside => ?_,
      fun row mem progress inside named unqueued => ?_⟩
    · have place := recoverable.queued row mem progress inside via
      unfold RunsOnce
      rw [active, counted none_ row mem via]
      by_cases reached : refreshed clock row ∈
          reachedRows freshness clock (recoveryOrder table clock) ∧
            isStaleForRecovery freshness clock (refreshed clock row) = false
      · rw [if_pos reached]
        exact Or.inr ⟨fun own => place.1 own reached, rfl⟩
      · rw [if_neg reached]
        exact Or.inl ⟨place.2 reached, rfl⟩
    · rw [failed row mem progress, if_pos (recoverable.expired row mem progress outside)]
    · rw [failed row mem progress,
        if_neg (recoverable.direct row mem progress inside named unqueued)]

end Startup

section Sample

open OperationCoordinator

/-- A full index whose process died after its last heartbeat. -/
private def crashedFullIndex : CheckpointRecord where
  operationId := "full_index_1"
  operationType := "full_index"
  rootDir := "/project"
  createdAt := "2026-01-01T00:00:00+00:00"
  updatedAt := "2026-01-01T00:09:00+00:00"
  lastError := none
  status := .inProgress
  activeFlag := true
  priority := 3
  lastHeartbeat := some "2026-01-01T00:09:00+00:00"
  failedAt := none

private def crashedProject : CheckpointTable := ⟨[crashedFullIndex], by decide⟩

/-- A restart a minute later. -/
private def restartClock : StartupClock :=
  ⟨"2026-01-01T00:10:00+00:00", "2026-01-01T00:05:00+00:00", fun _ => some 60⟩

/-- The interrupted operation is loaded as the active one and enqueued once more. -/
theorem crashedFullIndex_recovered_twice :
    ¬ RecoversOnce crashedProject (some 3600) restartClock
      ((newForProject 1 crashedProject (some 3600)).initializeCoordinator restartClock).1 := by
  intro recovered
  have inside : ¬ OutsideWindow (some 3600) restartClock crashedFullIndex := by
    rintro ⟨secs, same, older⟩
    obtain rfl := some.inj same
    exact absurd (older 60 rfl) (by decide)
  have once := recovered.queued crashedFullIndex mem_cons_self rfl inside (by decide)
  revert once
  unfold RunsOnce
  decide +kernel

end Sample

end ContextEngine

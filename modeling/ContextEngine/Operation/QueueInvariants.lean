/- digest: The checkpoint rows, and what every interleaving of the calls of the queue keeps. -/

import Mathlib.Data.List.Nodup
import Mathlib.Data.List.Perm.Basic
import ContextEngine.Lib.Runs
import ContextEngine.Operation.Queue

set_option autoImplicit false

namespace ContextEngine

open List OperationQueue Runs

/-- `OperationKind::from_str`. -/
def OperationKind.parse (text : String) : Except String OperationKind :=
  if text ∈ ["full_index", "full", "FullIndexing"] then .ok .fullIndex
  else if text ∈ ["hot_update", "hot", "HotUpdate"] then .ok .hotUpdate
  else if text ∈ ["incremental", "IncrementalUpdate"] then .ok .incremental
  else if text ∈ ["config_change", "ConfigChange"] then .ok .configChange
  else .error s!"Unknown operation kind: {text}"

def OperationPriority.fromI32 (value : Int) : Option OperationPriority :=
  if value = 1 then some .hotUpdate
  else if value = 2 then some .incremental
  else if value = 3 then some .fullIndex
  else none

inductive CheckpointStatus where
  | inProgress | completed | failed
  deriving DecidableEq

/-- A row, without the progress of its batches. -/
structure CheckpointRecord where
  operationId : String
  operationType : String
  rootDir : String
  createdAt : String
  updatedAt : String
  lastError : Option String
  status : CheckpointStatus
  activeFlag : Bool
  priority : Int
  lastHeartbeat : Option String
  failedAt : Option String
  deriving DecidableEq

/-- The rows of one project, in the order a scan returns them. -/
structure CheckpointTable where
  rows : List CheckpointRecord
  unique : (rows.map CheckpointRecord.operationId).Nodup

namespace CheckpointTable

variable {table : CheckpointTable} {id : String}

/-- Rewrite the rows that meet a condition, each under its own operation. -/
def rewrite (table : CheckpointTable) (hits : CheckpointRecord → Bool)
    (change : CheckpointRecord → CheckpointRecord)
    (kept : ∀ row, (change row).operationId = row.operationId) : CheckpointTable where
  rows := table.rows.map fun row => if hits row then change row else row
  unique := by
    have same : (table.rows.map fun row => if hits row then change row else row).map
        CheckpointRecord.operationId = table.rows.map CheckpointRecord.operationId := by
      rw [List.map_map]
      refine List.map_congr_left fun row _ => ?_
      show (if hits row then change row else row).operationId = row.operationId
      split
      · exact kept row
      · rfl
    rw [same]
    exact table.unique

def getCheckpoint (table : CheckpointTable) (operationId : String) : Option CheckpointRecord :=
  table.rows.find? fun row => row.operationId = operationId

def getUnfinishedOperations (table : CheckpointTable) : List CheckpointRecord :=
  (table.rows.filter fun row => row.status = .inProgress).mergeSort
    fun a b => decide (a.createdAt ≤ b.createdAt)

def getActiveCheckpoint (table : CheckpointTable) : Option CheckpointRecord :=
  table.rows.find? CheckpointRecord.activeFlag

/-- `mark_operation_completed`, which leaves the active flag as it is. -/
def markOperationCompleted (table : CheckpointTable) (operationId now : String) :
    CheckpointTable :=
  table.rewrite (fun row => row.operationId = operationId)
    (fun row => { row with status := .completed, updatedAt := now }) fun _ => rfl

def markOperationFailed (table : CheckpointTable) (operationId error now : String) :
    CheckpointTable :=
  table.rewrite (fun row => row.operationId = operationId)
    (fun row =>
      { row with
        status := .failed
        lastError := some error
        updatedAt := now
        failedAt := some now
        activeFlag := false })
    fun _ => rfl

def setActiveFlag (table : CheckpointTable) (operationId : String) (priority : Int)
    (now : String) : CheckpointTable :=
  table.rewrite (fun row => row.operationId = operationId)
    (fun row =>
      { row with
        activeFlag := true
        priority := priority
        lastHeartbeat := some now
        updatedAt := now })
    fun _ => rfl

def clearActiveFlag (table : CheckpointTable) (operationId now : String) : CheckpointTable :=
  table.rewrite (fun row => row.operationId = operationId)
    (fun row => { row with activeFlag := false, updatedAt := now }) fun _ => rfl

/-- Whether a flagged row has had no heartbeat since the cutoff. -/
def heartbeatLost (cutoff : String) (row : CheckpointRecord) : Bool :=
  row.activeFlag &&
    match row.lastHeartbeat with
    | none => true
    | some heartbeat => decide (heartbeat < cutoff)

/-- `cleanup_stale_active`, which also sets the update time of the rows it clears. -/
def cleanupStaleActive (table : CheckpointTable) (cutoff now : String) : CheckpointTable :=
  table.rewrite (heartbeatLost cutoff)
    (fun row => { row with activeFlag := false, updatedAt := now }) fun _ => rfl

/-- How many rows `cleanup_stale_active` clears. -/
def staleActiveCount (table : CheckpointTable) (cutoff : String) : Nat :=
  table.rows.countP (heartbeatLost cutoff)

section Lookups

theorem getCheckpoint_eq_some_iff {row : CheckpointRecord} :
    table.getCheckpoint id = some row ↔ row ∈ table.rows ∧ row.operationId = id := by
  constructor
  · intro found
    exact ⟨List.mem_of_find?_eq_some found, by simpa using List.find?_some found⟩
  · rintro ⟨mem, rfl⟩
    have some : (table.getCheckpoint row.operationId).isSome :=
      List.find?_isSome.2 ⟨row, mem, by simp⟩
    obtain ⟨other, found⟩ := Option.isSome_iff_exists.1 some
    have same : other.operationId = row.operationId := by simpa using List.find?_some found
    rw [found, List.inj_on_of_nodup_map table.unique (List.mem_of_find?_eq_some found) mem same]

variable {change : CheckpointRecord → CheckpointRecord}

theorem getCheckpoint_rewrite {hits : CheckpointRecord → Bool}
    {kept : ∀ row, (change row).operationId = row.operationId} :
    (table.rewrite hits change kept).getCheckpoint id =
      (table.getCheckpoint id).map fun row => if hits row then change row else row := by
  unfold getCheckpoint rewrite
  rw [List.find?_map]
  congr 1
  refine congrArg (fun p => table.rows.find? p) (funext fun row => ?_)
  show decide ((if hits row then change row else row).operationId = id) = _
  split
  · rw [kept row]
  · rfl

/-- The status of an operation's row. -/
def statusOf (table : CheckpointTable) (id : String) : Option CheckpointStatus :=
  (table.getCheckpoint id).map CheckpointRecord.status

theorem statusOf_of_mem {row : CheckpointRecord} (mem : row ∈ table.rows) :
    table.statusOf row.operationId = some row.status := by
  unfold statusOf
  rw [getCheckpoint_eq_some_iff.2 ⟨mem, rfl⟩]
  rfl

theorem statusOf_rewrite_of_kept {hits : CheckpointRecord → Bool}
    {kept : ∀ row, (change row).operationId = row.operationId}
    (same : ∀ row, (change row).status = row.status) :
    (table.rewrite hits change kept).statusOf id = table.statusOf id := by
  unfold statusOf
  rw [getCheckpoint_rewrite, Option.map_map]
  refine congrArg (fun f => (table.getCheckpoint id).map f) (funext fun row => ?_)
  show (if hits row then change row else row).status = row.status
  split
  · exact same row
  · rfl

theorem statusOf_rewrite_of_set {op : String} {status : CheckpointStatus}
    {kept : ∀ row, (change row).operationId = row.operationId}
    (sets : ∀ row, (change row).status = status) :
    (table.rewrite (fun row => row.operationId = op) change kept).statusOf id =
      if id = op then (table.statusOf id).map fun _ => status
      else table.statusOf id := by
  unfold statusOf
  rw [getCheckpoint_rewrite, Option.map_map]
  cases found : table.getCheckpoint id with
  | none => split <;> rfl
  | some row =>
    have own : row.operationId = id := (getCheckpoint_eq_some_iff.1 found).2
    show some (if decide (row.operationId = op) = true then change row
      else row).status = _
    rw [own]
    by_cases same : id = op
    · simp only [same, decide_true, if_true, sets]
      rfl
    · simp only [same, decide_false, Bool.false_eq_true, if_false]
      rfl

theorem statusOf_markOperationFailed (op error now : String) :
    (table.markOperationFailed op error now).statusOf id =
      if id = op then (table.statusOf id).map fun _ => .failed else table.statusOf id :=
  statusOf_rewrite_of_set fun _ => rfl

theorem statusOf_markOperationCompleted (op now : String) :
    (table.markOperationCompleted op now).statusOf id =
      if id = op then (table.statusOf id).map fun _ => .completed
      else table.statusOf id :=
  statusOf_rewrite_of_set fun _ => rfl

theorem statusOf_setActiveFlag (op : String) (priority : Int) (now : String) :
    (table.setActiveFlag op priority now).statusOf id = table.statusOf id :=
  statusOf_rewrite_of_kept fun _ => rfl

theorem statusOf_clearActiveFlag (op now : String) :
    (table.clearActiveFlag op now).statusOf id = table.statusOf id :=
  statusOf_rewrite_of_kept fun _ => rfl

theorem statusOf_cleanupStaleActive (cutoff now : String) :
    (table.cleanupStaleActive cutoff now).statusOf id = table.statusOf id :=
  statusOf_rewrite_of_kept fun _ => rfl

end Lookups

end CheckpointTable

/-- The first operation is to be taken before the second: a higher priority, or the same one and
an earlier call. -/
def Before (a b : PendingOperation) : Prop :=
  b.priority.asI32 < a.priority.asI32 ∨ (a.priority = b.priority ∧ a.ticket < b.ticket)

instance (a b : PendingOperation) : Decidable (Before a b) := inferInstanceAs (Decidable (_ ∨ _))

theorem OperationPriority.asI32_injective {a b : OperationPriority} (same : a.asI32 = b.asI32) :
    a = b := by
  cases a <;> cases b <;> first | rfl | cases same

theorem Before.priority_le {a b : PendingOperation} (before : Before a b) :
    b.priority.asI32 ≤ a.priority.asI32 := by
  rcases before with higher | ⟨same, -⟩
  · exact Nat.le_of_lt higher
  · exact Nat.le_of_eq (congrArg OperationPriority.asI32 same.symm)

theorem sameTarget_comm (a b : PendingOperation) : sameTarget a b = sameTarget b a := by
  unfold sameTarget
  rw [decide_eq_decide.2 (eq_comm (a := a.operationType)),
    decide_eq_decide.2 (eq_comm (a := a.rootDir))]

section Lists

variable {op : PendingOperation} {l : List PendingOperation}

theorem perm_insertByPriority (op : PendingOperation) (l : List PendingOperation) :
    (insertByPriority op l).Perm (op :: l) := by
  induction l with
  | nil => exact List.Perm.refl _
  | cons existing rest ih =>
    unfold insertByPriority
    split_ifs
    · exact List.Perm.refl _
    · exact (ih.cons existing).trans (List.Perm.swap op existing rest)

theorem ordered_insertByPriority (ordered : l.Pairwise Before)
    (newer : ∀ existing ∈ l, existing.ticket < op.ticket) :
    (insertByPriority op l).Pairwise Before := by
  induction l with
  | nil => exact pairwise_singleton _ _
  | cons existing rest ih =>
    obtain ⟨first, orderedRest⟩ := pairwise_cons.1 ordered
    unfold insertByPriority
    split_ifs with lower
    · refine pairwise_cons.2 ⟨fun other mem => Or.inl ?_, ordered⟩
      rcases mem_cons.1 mem with rfl | later
      · exact lower
      · exact Nat.lt_of_le_of_lt (first other later).priority_le lower
    · have rest := ih orderedRest fun other mem => newer other (mem_cons_of_mem _ mem)
      refine pairwise_cons.2 ⟨fun other mem => ?_, rest⟩
      rcases mem_cons.1 ((perm_insertByPriority op _).mem_iff.1 mem) with rfl | later
      · rcases Nat.lt_or_eq_of_le (Nat.le_of_not_lt lower) with higher | same
        · exact Or.inl higher
        · exact Or.inr ⟨(OperationPriority.asI32_injective same).symm, newer existing mem_cons_self⟩
      · exact first other later

theorem perm_find?_eraseP {α : Type} (p : α → Bool) (l : List α) :
    l.Perm ((l.find? p).toList ++ l.eraseP p) := by
  induction l with
  | nil => exact List.Perm.refl _
  | cons a l ih =>
    rw [find?_cons, eraseP_cons]
    cases p a with
    | true => exact List.Perm.refl _
    | false => exact (ih.cons a).trans perm_middle.symm

theorem overflow_eq_some_iff :
    overflow l = some op ↔ maxPendingOperations < l.length ∧ ∃ last, l.getLast? = some last ∧
        l.find? (fun other => other.priority = last.priority) = some op := by
  unfold overflow
  split_ifs with above
  · rw [Option.bind_eq_some_iff, and_iff_right above]
  · exact iff_of_false (fun found => nomatch found) fun both => above both.1

theorem trim_of_overflow {dropped last : PendingOperation} (overflows : overflow l = some dropped)
    (ends : l.getLast? = some last) :
    l.find? (fun other => other.priority = last.priority) = some dropped ∧
      trim l = l.eraseP fun other => other.priority = last.priority := by
  obtain ⟨-, last', ends', found⟩ := overflow_eq_some_iff.1 overflows
  rw [ends] at ends'
  obtain rfl := Option.some.inj ends'
  have hit := find?_some found
  have same : dropped.priority = last.priority := of_decide_eq_true hit
  refine ⟨found, ?_⟩
  unfold trim
  rw [overflows]
  simp only [same]

theorem perm_trim (l : List PendingOperation) : l.Perm ((overflow l).toList ++ trim l) := by
  cases overflows : overflow l with
  | none =>
    unfold trim
    rw [overflows]
    exact List.Perm.refl l
  | some dropped =>
    obtain ⟨-, last, ends, -⟩ := overflow_eq_some_iff.1 overflows
    obtain ⟨found, trimmed⟩ := trim_of_overflow overflows ends
    have parts := perm_find?_eraseP (fun other => other.priority = last.priority) l
    rw [found] at parts
    rw [trimmed]
    exact parts

theorem trim_sublist (l : List PendingOperation) : (trim l).Sublist l := by
  unfold trim
  split
  · exact List.Sublist.refl l
  · exact eraseP_sublist

theorem overflow_isSome_iff : (overflow l).isSome ↔ maxPendingOperations < l.length := by
  rw [Option.isSome_iff_exists]
  simp only [overflow_eq_some_iff]
  constructor
  · rintro ⟨dropped, above, -⟩
    exact above
  · intro above
    have nonempty : l ≠ [] := by
      rintro rfl
      cases above
    have ends := getLast?_eq_some_getLast nonempty
    have found : (l.find? fun other => other.priority = (l.getLast nonempty).priority).isSome := by
      rw [find?_isSome]
      exact ⟨l.getLast nonempty, getLast_mem nonempty, decide_eq_true rfl⟩
    obtain ⟨dropped, hit⟩ := Option.isSome_iff_exists.1 found
    exact ⟨dropped, above, _, ends, hit⟩

theorem perm_withNew (l : List PendingOperation) (op : PendingOperation) :
    (op :: l).Perm (withNew l op ++ l.filter fun existing => sameTarget existing op) := by
  have parts := filter_append_perm (fun existing => sameTarget existing op) l
  have placed := perm_insertByPriority op (l.filter fun existing => !sameTarget existing op)
  refine (parts.symm.cons op).trans ?_
  refine List.Perm.trans ?_ (placed.symm.append_right _)
  exact (perm_append_comm).cons op

end Lists

section Operations

/-- What the queue keeps in every state. -/
structure QueueInvariants (run : QueueRun) : Prop where
  distinct : run.queue.pending.Pairwise fun a b => sameTarget a b = false
  ordered : run.queue.pending.Pairwise Before
  bounded : run.queue.pending.length ≤ maxPendingOperations
  oneActive : run.running.length ≤ 1

/-- The invariants with what carries them through a step: tickets are those of earlier calls, and
the running operation is the one that holds the slot. -/
structure Sound (run : QueueRun) : Prop where
  distinct : run.queue.pending.Pairwise fun a b => sameTarget a b = false
  ordered : run.queue.pending.Pairwise Before
  bounded : run.queue.pending.length ≤ maxPendingOperations
  fresh : ∀ op ∈ run.queue.pending ++ run.inFlight, op.ticket < run.accepted
  slot : run.running = (run.queue.active.map ActiveOperation.ticket).toList

theorem Sound.invariants {run : QueueRun} (sound : Sound run) : QueueInvariants run := by
  refine ⟨sound.distinct, sound.ordered, sound.bounded, ?_⟩
  rw [sound.slot]
  cases run.queue.active <;> simp

/-- A failed write finds the queue fit to take its operation back: the slot is still its own or
free, there is room, and the operation belongs before all that are pending. -/
def RollbackFits (run : QueueRun) : QueueCall → Prop
  | .persisted call false => ∀ next, run.inFlight[call]? = some next →
    (∀ op, run.queue.active = some op → op.ticket = next.ticket) ∧
      run.queue.pending.length < maxPendingOperations ∧
        ∀ op ∈ run.queue.pending, sameTarget next op = false ∧ Before next op
  | _ => True

variable {run : QueueRun}

theorem sound_start (projectId : Int) : Sound (.start projectId) :=
  ⟨List.Pairwise.nil, List.Pairwise.nil, Nat.zero_le _, (fun _ mem => nomatch mem), rfl⟩

theorem Sound.release (sound : Sound run) {queue : OperationQueue}
    (pending : queue.pending = run.queue.pending)
    (slot : queue.active = none ∨ queue.active = run.queue.active) :
    Sound (run.release queue) := by
  refine ⟨?_, ?_, ?_, ?_, ?_⟩
  · exact pending ▸ sound.distinct
  · exact pending ▸ sound.ordered
  · exact pending ▸ sound.bounded
  · exact pending ▸ sound.fresh
  · simp only [QueueRun.release]
    rw [sound.slot]
    rcases slot with emptied | kept
    · rw [emptied]
      cases run.queue.active <;> simp
    · rw [kept]
      cases run.queue.active <;> rfl

theorem Sound.enqueue (sound : Sound run) (operationId : String) (operationType : OperationKind)
    (rootDir : String) (priority : OperationPriority) (createdAt : String) :
    Sound (run.step (.enqueue operationId operationType rootDir priority createdAt)) := by
  let op := run.newOperation operationId operationType rootDir priority createdAt
  let others := run.queue.pending.filter fun existing => !sameTarget existing op
  have fewer : others.Sublist run.queue.pending := filter_sublist
  have placed : (withNew run.queue.pending op).Perm (op :: others) :=
    perm_insertByPriority op others
  have kept : (trim (withNew run.queue.pending op)).Sublist (withNew run.queue.pending op) :=
    trim_sublist _
  have older : ∀ existing ∈ others, existing.ticket < op.ticket := fun existing mem =>
    sound.fresh existing (mem_append_left _ (fewer.subset mem))
  have distinct : (withNew run.queue.pending op).Pairwise fun a b => sameTarget a b = false := by
    refine (placed.pairwise_iff fun {a b} apart => (sameTarget_comm b a).trans apart).2 ?_
    refine pairwise_cons.2 ⟨fun existing mem => ?_, sound.distinct.sublist fewer⟩
    rw [sameTarget_comm]
    have apart := (mem_filter.1 mem).2
    rw [Bool.not_eq_true'] at apart
    exact apart
  have ordered : (withNew run.queue.pending op).Pairwise Before :=
    ordered_insertByPriority (sound.ordered.sublist fewer) older
  refine ⟨distinct.sublist kept, ordered.sublist kept, ?_, ?_, sound.slot⟩
  · have size : (withNew run.queue.pending op).length ≤ maxPendingOperations + 1 := by
      rw [placed.length_eq, length_cons]
      exact Nat.succ_le_succ (Nat.le_trans fewer.length_le sound.bounded)
    have parts := (perm_trim (withNew run.queue.pending op)).length_eq
    rw [length_append] at parts
    change (trim (withNew run.queue.pending op)).length ≤ _
    by_cases above : maxPendingOperations < (withNew run.queue.pending op).length
    · have one : (overflow (withNew run.queue.pending op)).toList.length = 1 := by
        obtain ⟨dropped, overflows⟩ := Option.isSome_iff_exists.1 (overflow_isSome_iff.2 above)
        rw [overflows]
        rfl
      omega
    · omega
  · intro existing mem
    change existing.ticket < run.accepted + 1
    rcases mem_append.1 mem with pending | flying
    · rcases mem_cons.1 (placed.mem_iff.1 (kept.subset pending)) with rfl | other
      · exact Nat.lt_succ_self _
      · exact Nat.lt_succ_of_lt (older existing other)
    · exact Nat.lt_succ_of_lt (sound.fresh existing (mem_append_right _ flying))

theorem reserve_eq_some_iff {queue queue' : OperationQueue} {startedAt : String}
    {next : PendingOperation} :
    queue.reserve startedAt = some (next, queue') ↔
      queue.active = none ∧ ∃ rest, queue.pending = next :: rest ∧ queue' =
          { queue with
            active := some ⟨queue.projectId, next.operationId, next.operationType, next.priority,
              startedAt, next.rootDir, next.ticket⟩
            pending := rest } := by
  unfold OperationQueue.reserve
  constructor
  · intro reserved
    split at reserved
    · next first rest free waiting =>
        obtain ⟨rfl, rfl⟩ := Prod.mk.inj (Option.some.inj reserved)
        exact ⟨free, rest, waiting, rfl⟩
    · cases reserved
  · rintro ⟨free, rest, waiting, rfl⟩
    rw [free, waiting]

theorem Sound.reserve (sound : Sound run) (startedAt : String) :
    Sound (run.step (.reserve startedAt)) := by
  change Sound (run.reserveNext startedAt)
  unfold QueueRun.reserveNext
  cases reserved : run.queue.reserve startedAt with
  | none => exact sound
  | some pair =>
    obtain ⟨next, queue⟩ := pair
    obtain ⟨free, rest, waiting, rfl⟩ := reserve_eq_some_iff.1 reserved
    obtain ⟨distinct, ordered, bounded, fresh, slot⟩ := sound
    rw [waiting] at distinct ordered bounded fresh
    rw [free] at slot
    refine ⟨distinct.tail, ordered.tail, Nat.le_trans (Nat.le_succ _) bounded, ?_, ?_⟩
    · intro op mem
      refine fresh op ?_
      simp only [mem_append, mem_cons, not_mem_nil, or_false] at mem ⊢
      tauto
    · change next.ticket :: run.running = _
      rw [slot]
      rfl

theorem Sound.persisted (sound : Sound run) (call : Nat) (ok : Bool)
    (fits : RollbackFits run (.persisted call ok)) : Sound (run.step (.persisted call ok)) := by
  change Sound (run.finishDequeue call ok)
  unfold QueueRun.finishDequeue
  cases flying : run.inFlight[call]? with
  | none => exact sound
  | some next =>
    have flies : next ∈ run.inFlight := mem_of_getElem? flying
    have fewer : (run.inFlight.eraseIdx call).Sublist run.inFlight := eraseIdx_sublist _ _
    have older : ∀ op ∈ run.inFlight, op.ticket < run.accepted := fun op mem =>
      sound.fresh op (mem_append_right _ mem)
    cases ok with
    | true =>
      refine ⟨sound.distinct, sound.ordered, sound.bounded, fun op mem => ?_, sound.slot⟩
      rcases mem_append.1 mem with pending | flying
      · exact sound.fresh op (mem_append_left _ pending)
      · exact older op (fewer.subset flying)
    | false =>
      obtain ⟨own, room, first⟩ := fits next flying
      refine ⟨?_, ?_, room, ?_, ?_⟩
      · exact pairwise_cons.2 ⟨fun op mem => (first op mem).1, sound.distinct⟩
      · exact pairwise_cons.2 ⟨fun op mem => (first op mem).2, sound.ordered⟩
      · intro op mem
        rcases mem_append.1 mem with pending | flying
        · rcases mem_cons.1 pending with rfl | pending
          · exact older op flies
          · exact sound.fresh op (mem_append_left _ pending)
        · exact older op (fewer.subset flying)
      · change run.running.erase next.ticket = []
        rw [sound.slot]
        cases held : run.queue.active with
        | none => rfl
        | some op =>
          rw [← own op held]
          simp

theorem Sound.cancel (sound : Sound run) (operationId : String) :
    Sound (run.step (.cancelPending operationId)) := by
  have fewer : (run.queue.cancelPending operationId).pending.Sublist run.queue.pending :=
    eraseP_sublist
  refine ⟨sound.distinct.sublist fewer, sound.ordered.sublist fewer,
    Nat.le_trans fewer.length_le sound.bounded, fun op mem => ?_, sound.slot⟩
  rcases mem_append.1 mem with pending | flying
  · exact sound.fresh op (mem_append_left _ (fewer.subset pending))
  · exact sound.fresh op (mem_append_right _ flying)

theorem Sound.step (sound : Sound run) (call : QueueCall) (fits : RollbackFits run call) :
    Sound (run.step call) := by
  cases call with
  | enqueue operationId operationType rootDir priority createdAt =>
    exact sound.enqueue operationId operationType rootDir priority createdAt
  | reserve startedAt => exact sound.reserve startedAt
  | persisted call ok => exact sound.persisted call ok fits
  | completeActive => exact sound.release rfl (Or.inl rfl)
  | clearActiveByOperation operationId =>
    refine sound.release ?_ ?_
    · unfold clearActiveByOperation
      split
      · rfl
      · split_ifs <;> rfl
    · unfold clearActiveByOperation
      split
      · exact Or.inr rfl
      · split_ifs
        · exact Or.inl rfl
        · exact Or.inr rfl
  | cancelPending operationId => exact sound.cancel operationId
  | cleanupStale cleared dbActive =>
    refine sound.release ?_ ?_
    · unfold cleanupStale
      split
      · rfl
      · split_ifs <;> rfl
    · unfold cleanupStale
      split
      · exact Or.inr rfl
      · split_ifs
        · exact Or.inl rfl
        · exact Or.inr rfl

end Operations

section Fates

/-- Every operation the queue still holds or has let go, one after another. -/
def QueueRun.everywhere (run : QueueRun) : List PendingOperation :=
  run.queue.pending ++ run.inFlight ++ run.dequeued ++ run.merged ++ run.cancelled ++ run.dropped

def Accounted (run : QueueRun) : Prop :=
  (run.everywhere.map PendingOperation.ticket).Perm (List.range run.accepted)

def DropsOnlyWhenFull (run : QueueRun) (call : QueueCall) : Prop :=
  (run.step call).dropped = run.dropped ∨
    ∃ op, (run.step call).dropped = run.dropped ++ [op] ∧
      maxPendingOperations ≤ run.queue.pending.length

def DropsOldest (run : QueueRun) (call : QueueCall) : Prop :=
  ∀ op, (run.step call).dropped = run.dropped ++ [op] →
    ∀ other ∈ (run.step call).queue.pending,
      op.priority.asI32 < other.priority.asI32 ∨
        (op.priority = other.priority ∧ op.ticket < other.ticket)

variable {run : QueueRun}

theorem accounted_start (projectId : Int) : Accounted (.start projectId) := List.Perm.refl []

theorem Accounted.of_perm {other : QueueRun} (accounted : Accounted run)
    (same : other.accepted = run.accepted) (moved : other.everywhere.Perm run.everywhere) :
    Accounted other := by
  unfold Accounted
  rw [same]
  exact (moved.map PendingOperation.ticket).trans accounted

theorem everywhere_enqueue (run : QueueRun) (operationId : String) (operationType : OperationKind)
    (rootDir : String) (priority : OperationPriority) (createdAt : String) :
    (run.step (.enqueue operationId operationType rootDir priority createdAt)).everywhere.Perm
      (run.newOperation operationId operationType rootDir priority createdAt ::
        run.everywhere) := by
  let op := run.newOperation operationId operationType rootDir priority createdAt
  have admitted := perm_iff_count.1 (perm_withNew run.queue.pending op)
  have trimmed := perm_iff_count.1 (perm_trim (withNew run.queue.pending op))
  refine perm_iff_count.2 fun a => ?_
  have one := admitted a
  have two := trimmed a
  change count a (trim (withNew run.queue.pending op) ++ run.inFlight ++ run.dequeued ++
    (run.merged ++ run.queue.pending.filter fun existing => sameTarget existing op) ++
    run.cancelled ++ (run.dropped ++ (overflow (withNew run.queue.pending op)).toList)) =
    count a (op :: (run.queue.pending ++ run.inFlight ++ run.dequeued ++ run.merged ++
      run.cancelled ++ run.dropped))
  simp only [count_append, count_cons] at one two ⊢
  omega

theorem everywhere_reserveNext (startedAt : String) :
    (run.reserveNext startedAt).everywhere.Perm run.everywhere := by
  unfold QueueRun.reserveNext
  cases reserved : run.queue.reserve startedAt with
  | none => exact List.Perm.refl _
  | some pair =>
    obtain ⟨next, queue⟩ := pair
    obtain ⟨-, rest, waiting, rfl⟩ := reserve_eq_some_iff.1 reserved
    refine perm_iff_count.2 fun a => ?_
    simp only [QueueRun.everywhere, waiting, count_append, count_cons, count_nil]
    omega

theorem everywhere_finishDequeue (call : Nat) (ok : Bool) :
    (run.finishDequeue call ok).everywhere.Perm run.everywhere := by
  unfold QueueRun.finishDequeue
  cases flying : run.inFlight[call]? with
  | none => exact List.Perm.refl _
  | some next =>
    obtain ⟨inside, here⟩ := List.getElem?_eq_some_iff.1 flying
    have taken := getElem_cons_eraseIdx_perm inside
    rw [here] at taken
    refine perm_iff_count.2 fun a => ?_
    have one := perm_iff_count.1 taken a
    cases ok with
    | true =>
      simp only [QueueRun.everywhere, count_append, count_cons, count_nil, if_true] at one ⊢
      omega
    | false =>
      simp only [QueueRun.everywhere, rollBack, count_append, count_cons] at one ⊢
      simp only [Bool.false_eq_true, if_false, count_cons]
      omega

theorem everywhere_cancel (operationId : String) :
    (run.step (.cancelPending operationId)).everywhere.Perm run.everywhere := by
  have parts := perm_iff_count.1
    (perm_find?_eraseP (fun op : PendingOperation => op.operationId = operationId)
      run.queue.pending)
  refine perm_iff_count.2 fun a => ?_
  have one := parts a
  change count a (run.queue.pending.eraseP (fun op => op.operationId = operationId) ++
    run.inFlight ++ run.dequeued ++ run.merged ++
    (run.cancelled ++ (run.queue.pending.find? fun op => op.operationId = operationId).toList) ++
    run.dropped) = count a (run.queue.pending ++ run.inFlight ++ run.dequeued ++
      run.merged ++ run.cancelled ++ run.dropped)
  simp only [count_append] at one ⊢
  omega

theorem everywhere_release {queue : OperationQueue} (pending : queue.pending = run.queue.pending) :
    (run.release queue).everywhere.Perm run.everywhere := by
  unfold QueueRun.everywhere
  exact pending ▸ List.Perm.refl _

theorem pending_clearActiveByOperation (queue : OperationQueue) (op : String) :
    (queue.clearActiveByOperation op).pending = queue.pending := by
  unfold clearActiveByOperation
  split
  · rfl
  · split_ifs <;> rfl

theorem pending_cleanupStale (queue : OperationQueue) (cleared : Nat)
    (dbActive : Option String) : (queue.cleanupStale cleared dbActive).pending = queue.pending := by
  unfold cleanupStale
  split
  · rfl
  · split_ifs <;> rfl

theorem Accounted.step (accounted : Accounted run) (call : QueueCall) :
    Accounted (run.step call) := by
  cases call with
  | enqueue operationId operationType rootDir priority createdAt =>
    have moved := (everywhere_enqueue run operationId operationType rootDir priority
      createdAt).map PendingOperation.ticket
    change List.Perm _ (range (run.accepted + 1))
    rw [range_succ]
    refine moved.trans ?_
    exact (accounted.cons run.accepted).trans (perm_append_singleton _ _).symm
  | reserve startedAt =>
    refine accounted.of_perm ?_ (everywhere_reserveNext startedAt)
    change (run.reserveNext startedAt).accepted = _
    unfold QueueRun.reserveNext
    split <;> rfl
  | persisted call ok =>
    refine accounted.of_perm ?_ (everywhere_finishDequeue call ok)
    change (run.finishDequeue call ok).accepted = _
    unfold QueueRun.finishDequeue
    split
    · rfl
    · split_ifs <;> rfl
  | completeActive => exact accounted.of_perm rfl (everywhere_release rfl)
  | clearActiveByOperation operationId =>
    exact accounted.of_perm rfl
      (everywhere_release (pending_clearActiveByOperation run.queue operationId))
  | cancelPending operationId => exact accounted.of_perm rfl (everywhere_cancel operationId)
  | cleanupStale cleared dbActive =>
    exact accounted.of_perm rfl
      (everywhere_release (pending_cleanupStale run.queue cleared dbActive))

theorem dropped_reserveNext (startedAt : String) :
    (run.reserveNext startedAt).dropped = run.dropped := by
  unfold QueueRun.reserveNext
  split <;> rfl

theorem dropped_finishDequeue (call : Nat) (ok : Bool) :
    (run.finishDequeue call ok).dropped = run.dropped := by
  unfold QueueRun.finishDequeue
  split
  · rfl
  · split_ifs <;> rfl

theorem dropsOnlyWhenFull (run : QueueRun) (call : QueueCall) : DropsOnlyWhenFull run call := by
  cases call with
  | enqueue operationId operationType rootDir priority createdAt =>
    let op := run.newOperation operationId operationType rootDir priority createdAt
    cases overflows : overflow (withNew run.queue.pending op) with
    | none =>
      left
      change run.dropped ++ (overflow (withNew run.queue.pending op)).toList = run.dropped
      rw [overflows]
      exact append_nil _
    | some dropped =>
      right
      refine ⟨dropped, ?_, ?_⟩
      · change run.dropped ++ (overflow (withNew run.queue.pending op)).toList = _
        rw [overflows]
        rfl
      · have above := (overflow_eq_some_iff.1 overflows).1
        have size := (perm_withNew run.queue.pending op).length_eq
        rw [length_append, length_cons] at size
        omega
  | reserve startedAt => exact Or.inl (dropped_reserveNext startedAt)
  | persisted call ok => exact Or.inl (dropped_finishDequeue call ok)
  | completeActive => exact Or.inl rfl
  | clearActiveByOperation operationId => exact Or.inl rfl
  | cancelPending operationId => exact Or.inl rfl
  | cleanupStale cleared dbActive => exact Or.inl rfl

theorem overflow_oldest {l : List PendingOperation} {dropped : PendingOperation}
    (ordered : l.Pairwise Before) (overflows : overflow l = some dropped)
    {other : PendingOperation} (mem : other ∈ trim l) :
    dropped.priority.asI32 < other.priority.asI32 ∨
      (dropped.priority = other.priority ∧ dropped.ticket < other.ticket) := by
  obtain ⟨-, last, ends, -⟩ := overflow_eq_some_iff.1 overflows
  obtain ⟨found, trimmed⟩ := trim_of_overflow overflows ends
  have lowest : ∀ op ∈ l, last.priority.asI32 ≤ op.priority.asI32 := by
    intro op inList
    obtain ⟨front, rfl⟩ := getLast?_eq_some_iff.1 ends
    rcases mem_append.1 inList with earlier | single
    · exact ((pairwise_append.1 ordered).2.2 op earlier last mem_cons_self).priority_le
    · exact Nat.le_of_eq (congrArg (fun op => op.priority.asI32) (mem_singleton.1 single).symm)
  obtain ⟨hit, before, after, rfl, misses⟩ := find?_eq_some_iff_append.1 found
  have same : dropped.priority = last.priority := of_decide_eq_true hit
  have rest : trim (before ++ dropped :: after) = before ++ after := by
    have spared : ∀ op ∈ before, ¬decide (op.priority = last.priority) = true := by
      intro op inBefore equal
      have miss := misses op inBefore
      rw [equal] at miss
      cases miss
    rw [trimmed, eraseP_append_right _ spared, eraseP_cons, hit]
    rfl
  rw [rest] at mem
  obtain ⟨-, orderedAfter, across⟩ := pairwise_append.1 ordered
  rcases mem_append.1 mem with earlier | later
  · left
    rcases across other earlier dropped mem_cons_self with higher | ⟨equal, -⟩
    · exact higher
    · have miss := misses other earlier
      rw [equal, same] at miss
      simp at miss
  · right
    rcases (pairwise_cons.1 orderedAfter).1 other later with higher | next
    · have least := lowest other (mem_append_right _ (mem_cons_of_mem _ later))
      rw [← same] at least
      omega
    · exact next

theorem Sound.dropsOldest (sound : Sound run) (call : QueueCall) : DropsOldest run call := by
  intro dropped drops other mem
  have grown : run.dropped ≠ run.dropped ++ [dropped] := by simp
  cases call with
  | enqueue operationId operationType rootDir priority createdAt =>
    let op := run.newOperation operationId operationType rootDir priority createdAt
    change run.dropped ++ (overflow (withNew run.queue.pending op)).toList = _ at drops
    have one : (overflow (withNew run.queue.pending op)).toList = [dropped] :=
      append_cancel_left drops
    have overflows : overflow (withNew run.queue.pending op) = some dropped := by
      cases found : overflow (withNew run.queue.pending op) with
      | none =>
        rw [found] at one
        cases one
      | some op =>
        rw [found] at one
        rw [(cons.inj one).1]
    have fewer : (run.queue.pending.filter fun existing =>
        !sameTarget existing op).Sublist run.queue.pending := filter_sublist
    have ordered : (withNew run.queue.pending op).Pairwise Before :=
      ordered_insertByPriority (sound.ordered.sublist fewer) fun existing inList =>
        sound.fresh existing (mem_append_left _ (fewer.subset inList))
    exact overflow_oldest ordered overflows mem
  | reserve startedAt => exact absurd ((dropped_reserveNext startedAt).symm.trans drops) grown
  | persisted call ok => exact absurd ((dropped_finishDequeue call ok).symm.trans drops) grown
  | completeActive => exact absurd drops grown
  | clearActiveByOperation operationId => exact absurd drops grown
  | cancelPending operationId => exact absurd drops grown
  | cleanupStale cleared dbActive => exact absurd drops grown

/-- Whatever the interleaving, every accepted operation stays accounted for, and only a full
queue drops one. While every failed write finds the queue fit for its operation, the pending
list stays distinct, ordered and bounded, one operation runs at most, and a dropped operation is
the oldest of the lowest priority. -/
theorem queue_run (projectId : Int) (calls : List QueueCall) :
    (∀ reached, reached <+: calls →
      Accounted (reached.foldl QueueRun.step (.start projectId))) ∧
    EveryStep QueueRun.step DropsOnlyWhenFull (.start projectId) calls ∧
    (EveryStep QueueRun.step RollbackFits (.start projectId) calls →
      (∀ reached, reached <+: calls →
        QueueInvariants (reached.foldl QueueRun.step (.start projectId))) ∧
      EveryStep QueueRun.step DropsOldest (.start projectId) calls) := by
  refine ⟨fun reached _ => ?_, ?_, fun fits => ⟨fun reached initial => ?_, ?_⟩⟩
  · refine foldlRecOn reached QueueRun.step (accounted_start projectId) ?_
    exact fun run accounted call _ => accounted.step call
  · exact EveryStep.of_always dropsOnlyWhenFull _ calls
  · have sound : Sound (reached.foldl QueueRun.step (.start projectId)) :=
      invariant (fun _ call fits sound => sound.step call fits) (sound_start projectId)
        (fits.of_prefix initial)
    exact sound.invariants
  · refine fits.with_invariant (fun _ call fits sound => sound.step call fits)
      (fun _ call _ sound => sound.dropsOldest call) (sound_start projectId)

def hotUpdateOf (number : Nat) : QueueCall :=
  .enqueue (toString number) .hotUpdate (toString number) .hotUpdate ""

/-- One update more than fit. -/
def floodOfUpdates : List QueueCall := (List.range 65).map hotUpdateOf

/-- An update whose dequeue fails after an equal update was enqueued. -/
def equalUpdateDuringDequeue : List QueueCall :=
  [hotUpdateOf 0, .reserve "", hotUpdateOf 0, .persisted 0 false]

def QueueRun.kept (run : QueueRun) : List PendingOperation :=
  run.queue.pending ++ run.inFlight ++ run.dequeued ++ run.merged ++ run.cancelled

/-- A flood loses its first operation, which nobody dequeued, merged or cancelled; a failed
dequeue returns its operation beside an equal one. -/
theorem flood_drops_and_rollback_duplicates :
    (0 < (floodOfUpdates.foldl QueueRun.step (.start 1)).accepted ∧
      0 ∉ (floodOfUpdates.foldl QueueRun.step (.start 1)).kept.map PendingOperation.ticket) ∧
      ¬QueueInvariants (equalUpdateDuringDequeue.foldl QueueRun.step (.start 1)) := by
  refine ⟨⟨by decide +kernel, by decide +kernel⟩, fun kept => ?_⟩
  exact absurd kept.distinct (by decide)

/-- A failed dequeue that nothing interleaves. -/
theorem queue_run_rollback :
    QueueInvariants ([hotUpdateOf 0, hotUpdateOf 1, .reserve "", .persisted 0 false].foldl
      QueueRun.step (.start 1)) := by
  refine ((queue_run 1 [hotUpdateOf 0, hotUpdateOf 1, .reserve "", .persisted 0 false]).2.2
    ⟨trivial, trivial, trivial, ?_, trivial⟩).1 _ (prefix_refl _)
  intro next flying
  obtain rfl : _ = next := Option.some.inj flying
  refine ⟨fun op held => ?_, by decide, by decide⟩
  obtain rfl : _ = op := Option.some.inj held
  rfl

end Fates

end ContextEngine

/- digest: Exactly when only consecutive failures send a module to the dead-letter state. -/

import ContextEngine.Lib.Collections
import ContextEngine.Lib.Runs

set_option autoImplicit false

namespace ContextEngine

open List Runs

/-- A point in time, in nanoseconds. -/
abbrev DateTime := Int

/-- What the call sites of `Utc::now` in one function read, numbered in source order. -/
abbrev Clock := Nat → DateTime

inductive ModuleType where
  | relation | summary | embedding | bm25 | «export»
  deriving DecidableEq

def ModuleType.all : List ModuleType := [.relation, .summary, .embedding, .bm25, .«export»]

theorem ModuleType.mem_all (moduleType : ModuleType) : moduleType ∈ all := by
  cases moduleType <;> decide

inductive ModuleUpdateState where
  | pending | updating | success | failed
  | retrying (nextAttempt : DateTime)
  | deadLetter
  deriving DecidableEq

/-- A classified module failure. -/
structure TrackerFailure where
  message : String
  code : Option String
  retryable : Bool
  deriving DecidableEq

def TrackerFailure.transient (message : String) : TrackerFailure := ⟨message, none, true⟩

structure ModuleUpdateRecord where
  state : ModuleUpdateState := .pending
  lastAttempt : Option DateTime := none
  retryCount : Nat := 0
  errorMessage : Option String := none
  errorCode : Option String := none
  truncated : Bool := false
  acknowledged : Bool := false
  deriving DecidableEq

def maxRetryCount : Nat := 3

def baseRetryDelaySecs : Nat := 5

/-- The exponential backoff in seconds; the multiplier is a `u32`. -/
def calculateRetryDelay (retryCount : Nat) : Nat :=
  baseRetryDelaySecs * (2 ^ (retryCount - 1) % 2 ^ 32)

namespace ModuleUpdateRecord

variable (record : ModuleUpdateRecord)

/-- The record after a success. The retry count and the error code stay as they were. -/
def succeed (clock : Clock) : ModuleUpdateRecord :=
  { record with
    state := .success
    lastAttempt := some (clock 0)
    errorMessage := none }

/-- The `u32` retry count after a failure, wrapping as the release build does. -/
def nextRetryCount : Nat := (record.retryCount + 1) % 2 ^ 32

/-- The record after a failure: dead-lettered when it is permanent or the retries are used up,
waiting for the next attempt otherwise. -/
def fail (failure : TrackerFailure) (clock : Clock) :
    ModuleUpdateRecord :=
  { record with
    retryCount := record.nextRetryCount
    errorMessage := some failure.message
    errorCode := failure.code
    state :=
      if !failure.retryable || maxRetryCount ≤ record.nextRetryCount then .deadLetter
      else .retrying (clock 0 + calculateRetryDelay record.nextRetryCount * 10 ^ 9)
    lastAttempt := some (clock 1) }

end ModuleUpdateRecord

structure FileUpdateState where
  filePath : String
  projectId : Int
  version : Nat
  moduleStates : HashMap ModuleType ModuleUpdateRecord
  createdAt : DateTime
  updatedAt : DateTime

structure FileUpdateStatusSummary where
  totalModules : Nat := 0
  successCount : Nat := 0
  failedCount : Nat := 0
  pendingCount : Nat := 0
  updatingCount : Nat := 0
  deadLetterCount : Nat := 0
  isComplete : Bool := false
  hasFailures : Bool := false
  deriving DecidableEq

def FileUpdateStatusSummary.count (summary : FileUpdateStatusSummary) :
    ModuleUpdateState → FileUpdateStatusSummary
  | .success => { summary with successCount := summary.successCount + 1 }
  | .failed | .retrying _ => { summary with failedCount := summary.failedCount + 1 }
  | .pending => { summary with pendingCount := summary.pendingCount + 1 }
  | .updating => { summary with updatingCount := summary.updatingCount + 1 }
  | .deadLetter => { summary with deadLetterCount := summary.deadLetterCount + 1 }

namespace FileUpdateState

def new (filePath : String) (version : Nat) (projectId : Int) (now : DateTime) :
    FileUpdateState where
  filePath := filePath
  projectId := projectId
  version := version
  moduleStates := ModuleType.all.foldl (fun states moduleType => states.insert moduleType {}) ∅
  createdAt := now
  updatedAt := now

variable (state : FileUpdateState) (moduleType : ModuleType)

def getModuleState : ModuleUpdateRecord :=
  (state.moduleStates.lookup moduleType).getD {}

def modifyRecord
    (change : ModuleUpdateRecord → ModuleUpdateRecord) (now : DateTime) : FileUpdateState :=
  match state.moduleStates.lookup moduleType with
  | none => state
  | some record =>
    { state with
      moduleStates := state.moduleStates.insert moduleType (change record)
      updatedAt := now }

def markModuleSuccess (clock : Clock) :
    FileUpdateState :=
  state.modifyRecord moduleType (fun record => record.succeed clock) (clock 1)

def markModuleFailed
    (failure : TrackerFailure) (clock : Clock) : FileUpdateState :=
  state.modifyRecord moduleType (fun record => record.fail failure clock) (clock 2)

def setModuleTruncated (clock : Clock) :
    FileUpdateState :=
  state.modifyRecord moduleType (fun record => { record with truncated := true }) (clock 0)

def allSuccess : Bool :=
  state.moduleStates.values.all fun record => record.state = .success

def hasFailures : Bool :=
  state.moduleStates.values.any fun record =>
    match record.state with
    | .failed | .retrying _ | .deadLetter => true
    | _ => false

def getStatusSummary : FileUpdateStatusSummary :=
  let counts := state.moduleStates.values.foldl
    (fun summary record => FileUpdateStatusSummary.count summary record.state) {}
  { counts with
    totalModules := state.moduleStates.values.length
    isComplete := state.allSuccess
    hasFailures := state.hasFailures }

theorem lookup_modifyRecord (moduleType other : ModuleType)
    (change : ModuleUpdateRecord → ModuleUpdateRecord) (now : DateTime) :
    (state.modifyRecord moduleType change now).moduleStates.lookup other =
      if other = moduleType then (state.moduleStates.lookup moduleType).map change
      else state.moduleStates.lookup other := by
  unfold modifyRecord
  cases found : state.moduleStates.lookup moduleType with
  | none =>
    split_ifs with same
    · rw [same, found]
      rfl
    · rfl
  | some record => exact HashMap.lookup_insert_eq _ _ _ _

end FileUpdateState

section Summary

variable {state : FileUpdateState}

def modulesIn (state : FileUpdateState) (test : ModuleUpdateState → Bool) : List ModuleType :=
  ModuleType.all.filter fun moduleType =>
    (state.moduleStates.lookup moduleType).any fun record => test record.state

theorem mem_modulesIn {test : ModuleUpdateState → Bool} {moduleType : ModuleType} :
    moduleType ∈ modulesIn state test ↔
      ∃ record, state.moduleStates.lookup moduleType = some record ∧ test record.state = true := by
  simp only [modulesIn, mem_filter, ModuleType.mem_all, true_and, Option.any_eq_true]

theorem countP_values (test : ModuleUpdateState → Bool) :
    state.moduleStates.values.countP (fun record => test record.state) =
      (modulesIn state test).length := by
  let entries := state.moduleStates.toList.filter fun entry => test entry.2.state
  have distinct : (entries.map Prod.fst).Nodup := by
    have keys : (state.moduleStates.toList.map Prod.fst).Nodup := by
      rw [HashMap.map_fst_toList]
      exact state.moduleStates.keys_nodup
    exact keys.sublist (filter_sublist.map Prod.fst)
  have listed : (entries.map Prod.fst).Perm (modulesIn state test) := by
    refine (perm_ext_iff_of_nodup distinct ?_).2 fun moduleType => ?_
    · have all : ModuleType.all.Nodup := by decide
      exact all.filter _
    · rw [mem_modulesIn]
      simp only [entries, mem_map, mem_filter, Prod.exists, HashMap.mem_toList,
        exists_and_right, exists_eq_right]
  rw [← listed.length_eq, length_map, HashMap.values, countP_map, countP_eq_length_filter]
  rfl

/-- Whether a module in this state counts as failed without being dead-lettered. -/
def ModuleUpdateState.awaitsRetry : ModuleUpdateState → Bool
  | .failed | .retrying _ => true
  | _ => false

/-- Every figure of the summary is the number of modules it speaks of. -/
structure SummaryAgrees (state : FileUpdateState) : Prop where
  total : state.getStatusSummary.totalModules = (modulesIn state fun _ => true).length
  success : state.getStatusSummary.successCount = (modulesIn state (· = .success)).length
  failed : state.getStatusSummary.failedCount = (modulesIn state (·.awaitsRetry)).length
  pending : state.getStatusSummary.pendingCount = (modulesIn state (· = .pending)).length
  updating : state.getStatusSummary.updatingCount = (modulesIn state (· = .updating)).length
  deadLetter : state.getStatusSummary.deadLetterCount = (modulesIn state (· = .deadLetter)).length
  complete : state.getStatusSummary.isComplete = true ↔
    ∀ moduleType ∈ modulesIn state fun _ => true, moduleType ∈ modulesIn state (· = .success)
  failures : state.getStatusSummary.hasFailures = true ↔
    ∃ moduleType, moduleType ∈ modulesIn state (·.awaitsRetry) ∨
      moduleType ∈ modulesIn state (· = .deadLetter)

theorem foldl_count (l : List ModuleUpdateRecord) (summary : FileUpdateStatusSummary) :
    l.foldl (fun summary record => summary.count record.state) summary =
      { summary with
        successCount := summary.successCount + l.countP (·.state = .success)
        failedCount := summary.failedCount + l.countP (·.state.awaitsRetry)
        pendingCount := summary.pendingCount + l.countP (·.state = .pending)
        updatingCount := summary.updatingCount + l.countP (·.state = .updating)
        deadLetterCount := summary.deadLetterCount + l.countP (·.state = .deadLetter) } := by
  induction l generalizing summary with
  | nil => rfl
  | cons record l ih =>
    rw [foldl_cons, ih]
    simp only [countP_cons]
    cases record.state <;>
      simp [FileUpdateStatusSummary.count, ModuleUpdateState.awaitsRetry] <;> omega

theorem summaryAgrees (state : FileUpdateState) : SummaryAgrees state := by
  have counts := foldl_count state.moduleStates.values {}
  have figure : ∀ test : ModuleUpdateState → Bool,
      0 + state.moduleStates.values.countP (fun record => test record.state) =
        (modulesIn state test).length := by
    intro test
    rw [Nat.zero_add, countP_values]
  refine ⟨?_, ?_, ?_, ?_, ?_, ?_, ?_, ?_⟩
  · rw [← countP_values, countP_true]
    rfl
  · exact (congrArg FileUpdateStatusSummary.successCount counts).trans (figure (· = .success))
  · exact (congrArg FileUpdateStatusSummary.failedCount counts).trans (figure (·.awaitsRetry))
  · exact (congrArg FileUpdateStatusSummary.pendingCount counts).trans (figure (· = .pending))
  · exact (congrArg FileUpdateStatusSummary.updatingCount counts).trans (figure (· = .updating))
  · exact (congrArg FileUpdateStatusSummary.deadLetterCount counts).trans (figure (· = .deadLetter))
  · change state.allSuccess = true ↔ _
    simp only [FileUpdateState.allSuccess, all_eq_true, HashMap.mem_values, mem_modulesIn,
      forall_exists_index]
    constructor
    · rintro all moduleType record ⟨found, -⟩
      exact ⟨record, found, all record moduleType found⟩
    · intro all record moduleType found
      obtain ⟨record', found', success⟩ := all moduleType record ⟨found, trivial⟩
      rw [found] at found'
      obtain rfl := Option.some.inj found'
      exact success
  · change state.hasFailures = true ↔ _
    simp only [FileUpdateState.hasFailures, any_eq_true, HashMap.mem_values, mem_modulesIn]
    constructor
    · rintro ⟨record, ⟨moduleType, found⟩, failing⟩
      refine ⟨moduleType, ?_⟩
      cases at_state : record.state with
      | failed => exact Or.inl ⟨record, found, by rw [at_state]; rfl⟩
      | retrying next => exact Or.inl ⟨record, found, by rw [at_state]; rfl⟩
      | deadLetter => exact Or.inr ⟨record, found, by rw [at_state]; rfl⟩
      | pending => rw [at_state] at failing; cases failing
      | updating => rw [at_state] at failing; cases failing
      | success => rw [at_state] at failing; cases failing
    · rintro ⟨moduleType, ⟨record, found, waits⟩ | ⟨record, found, dead⟩⟩
      · refine ⟨record, ⟨moduleType, found⟩, ?_⟩
        revert waits
        cases record.state <;> simp [ModuleUpdateState.awaitsRetry]
      · refine ⟨record, ⟨moduleType, found⟩, ?_⟩
        rw [of_decide_eq_true dead]

end Summary

section Outcomes

/-- What a mark records about a module. -/
inductive Outcome where
  | success
  | failure (failure : TrackerFailure)

def Outcome.failure? : Outcome → Option TrackerFailure
  | .success => none
  | .failure failed => some failed

/-- A failure that may be retried. -/
def Outcome.IsRetryable (outcome : Outcome) : Prop :=
  ∃ failure, outcome = .failure failure ∧ failure.retryable = true

/-- The outcomes recorded on each module, the latest first. -/
abbrev Outcomes := ModuleType → List Outcome

variable (outcomes : List Outcome)

def failuresOf : List TrackerFailure :=
  outcomes.filterMap Outcome.failure?

def standingCode : Option String :=
  (failuresOf outcomes).head?.bind TrackerFailure.code

/-- The last outcome is a permanent failure, or the last ones are retryable failures throughout,
as many as retries are allowed. -/
def DeadLetterDue : Prop :=
  (∃ failure, outcomes.head? = some (.failure failure) ∧ failure.retryable = false) ∨
    (maxRetryCount ≤ outcomes.length ∧ ∀ outcome ∈ outcomes.take maxRetryCount,
      outcome.IsRetryable)

structure TrackedStatus where
  status : FileUpdateState
  outcomes : Outcomes

inductive StatusMark where
  | success (moduleType : ModuleType) (clock : Clock)
  | failed (moduleType : ModuleType) (failure : TrackerFailure) (clock : Clock)
  | truncated (moduleType : ModuleType) (clock : Clock)

def StatusMark.outcome? : StatusMark → Option (ModuleType × Outcome)
  | .success moduleType _ => some (moduleType, .success)
  | .failed moduleType failure _ => some (moduleType, .failure failure)
  | .truncated _ _ => none

def FileUpdateState.mark (status : FileUpdateState) : StatusMark → FileUpdateState
  | .success moduleType clock => status.markModuleSuccess moduleType clock
  | .failed moduleType failure clock => status.markModuleFailed moduleType failure clock
  | .truncated moduleType clock => status.setModuleTruncated moduleType clock

def Outcomes.record (outcomes : Outcomes) (mark : StatusMark) : Outcomes := fun moduleType =>
  match mark.outcome? with
  | some (marked, outcome) =>
    if moduleType = marked then outcome :: outcomes moduleType else outcomes moduleType
  | none => outcomes moduleType

variable (tracked : TrackedStatus)

def TrackedStatus.mark (mark : StatusMark) : TrackedStatus :=
  ⟨tracked.status.mark mark, tracked.outcomes.record mark⟩

def Recorded : Prop :=
  ∀ moduleType record, tracked.status.moduleStates.lookup moduleType = some record →
    record.retryCount = (failuresOf (tracked.outcomes moduleType)).length % 2 ^ 32 ∧
      record.errorCode = standingCode (tracked.outcomes moduleType)

def ConsecutiveOnly (mark : StatusMark) : Prop :=
  ∀ moduleType before after,
    tracked.status.moduleStates.lookup moduleType = some before →
    (tracked.mark mark).status.moduleStates.lookup moduleType = some after →
      (before.state ≠ .deadLetter → (after.state = .deadLetter ↔
        (∃ failure, mark.outcome? = some (moduleType, .failure failure)) ∧
          DeadLetterDue ((tracked.mark mark).outcomes moduleType))) ∧
      (mark.outcome? = some (moduleType, .success) →
        after.errorCode = none ∧ after.retryCount = 0)

/-- Successes come before failures, as far as the record can tell: a success finds no failure
counted and no code standing, and a retryable failure uses up the retries exactly when the
outcomes before it are retryable failures. -/
def Uninterrupted : StatusMark → Prop
  | .success moduleType _ =>
    (tracked.status.moduleStates.lookup moduleType).isSome →
      (failuresOf (tracked.outcomes moduleType)).length % 2 ^ 32 = 0 ∧
        standingCode (tracked.outcomes moduleType) = none
  | .failed moduleType failure _ =>
    ∀ record, tracked.status.moduleStates.lookup moduleType = some record →
      record.state ≠ .deadLetter → failure.retryable = true →
        (maxRetryCount ≤ ((failuresOf (tracked.outcomes moduleType)).length + 1) % 2 ^ 32 ↔
          maxRetryCount ≤ (tracked.outcomes moduleType).length + 1 ∧
            ∀ outcome ∈ (tracked.outcomes moduleType).take (maxRetryCount - 1),
              outcome.IsRetryable)
  | .truncated _ _ => True

variable {tracked : TrackedStatus}

theorem recorded_new (filePath : String) (version : Nat) (projectId : Int) (now : DateTime) :
    Recorded ⟨FileUpdateState.new filePath version projectId now, fun _ => []⟩ := by
  intro moduleType record found
  have fresh : (FileUpdateState.new filePath version projectId now).moduleStates.lookup
      moduleType = some {} := by
    cases moduleType <;> rfl
  rw [fresh] at found
  obtain rfl := Option.some.inj found
  exact ⟨rfl, rfl⟩

def markedRecord (moduleType : ModuleType) (record : ModuleUpdateRecord) :
    StatusMark → ModuleUpdateRecord
  | .success marked clock => if moduleType = marked then record.succeed clock else record
  | .failed marked failure clock =>
    if moduleType = marked then record.fail failure clock else record
  | .truncated marked _ =>
    if moduleType = marked then { record with truncated := true } else record

theorem lookup_mark (status : FileUpdateState) (mark : StatusMark) (moduleType : ModuleType) :
    (status.mark mark).moduleStates.lookup moduleType =
      (status.moduleStates.lookup moduleType).map fun record =>
        markedRecord moduleType record mark := by
  cases mark with
  | success marked clock =>
    refine (FileUpdateState.lookup_modifyRecord _ _ _ _ _).trans ?_
    by_cases own : moduleType = marked
    · subst own
      simp only [markedRecord, if_true]
    · simp [markedRecord, own]
  | failed marked failure clock =>
    refine (FileUpdateState.lookup_modifyRecord _ _ _ _ _).trans ?_
    by_cases own : moduleType = marked
    · subst own
      simp only [markedRecord, if_true]
    · simp [markedRecord, own]
  | truncated marked clock =>
    refine (FileUpdateState.lookup_modifyRecord _ _ _ _ _).trans ?_
    by_cases own : moduleType = marked
    · subst own
      simp only [markedRecord, if_true]
    · simp [markedRecord, own]

theorem Recorded.mark (recorded : Recorded tracked) (mark : StatusMark) :
    Recorded (tracked.mark mark) := by
  intro moduleType after found
  change (tracked.status.mark mark).moduleStates.lookup moduleType = some after at found
  rw [lookup_mark, Option.map_eq_some_iff] at found
  obtain ⟨before, standing, rfl⟩ := found
  obtain ⟨counted, coded⟩ := recorded moduleType before standing
  change _ = (failuresOf (tracked.outcomes.record mark moduleType)).length % 2 ^ 32 ∧
    _ = standingCode (tracked.outcomes.record mark moduleType)
  cases mark with
  | truncated marked clock =>
    by_cases own : moduleType = marked
    · simp only [markedRecord, own, if_true]
      rw [← own]
      exact ⟨counted, coded⟩
    · simp only [markedRecord, own, if_false]
      exact ⟨counted, coded⟩
  | success marked clock =>
    by_cases own : moduleType = marked
    · simp only [markedRecord, Outcomes.record, StatusMark.outcome?, own, if_true]
      rw [← own]
      exact ⟨counted, coded⟩
    · simp only [markedRecord, Outcomes.record, StatusMark.outcome?, own, if_false]
      exact ⟨counted, coded⟩
  | failed marked failure clock =>
    by_cases own : moduleType = marked
    · simp only [markedRecord, Outcomes.record, StatusMark.outcome?, own, if_true]
      rw [← own]
      refine ⟨?_, rfl⟩
      change (before.retryCount + 1) % 2 ^ 32 =
        ((failuresOf (tracked.outcomes moduleType)).length + 1) % 2 ^ 32
      rw [counted]
      omega
    · simp only [markedRecord, Outcomes.record, StatusMark.outcome?, own, if_false]
      exact ⟨counted, coded⟩

theorem fail_state_eq_deadLetter_iff (record : ModuleUpdateRecord) (failure : TrackerFailure)
    (clock : Clock) :
    (record.fail failure clock).state = .deadLetter ↔
      failure.retryable = false ∨ maxRetryCount ≤ record.nextRetryCount := by
  unfold ModuleUpdateRecord.fail
  simp only
  cases failure.retryable with
  | false => simp
  | true =>
    by_cases used : maxRetryCount ≤ record.nextRetryCount
    · simp [used]
    · simp [used]

theorem deadLetterDue_cons_iff {failure : TrackerFailure} {outcomes : List Outcome}
    (retryable : failure.retryable = true) :
    DeadLetterDue (.failure failure :: outcomes) ↔ maxRetryCount ≤ outcomes.length + 1 ∧
        ∀ outcome ∈ outcomes.take (maxRetryCount - 1), outcome.IsRetryable := by
  have permanent : ¬∃ other, (Outcome.failure failure :: outcomes).head? =
      some (.failure other) ∧ other.retryable = false := by
    rintro ⟨other, same, fails⟩
    obtain rfl := Outcome.failure.inj (Option.some.inj same)
    rw [retryable] at fails
    cases fails
  unfold DeadLetterDue
  rw [or_iff_right permanent]
  change _ ∧ (∀ outcome ∈ Outcome.failure failure :: outcomes.take (maxRetryCount - 1), _) ↔ _
  rw [forall_mem_cons]
  exact and_congr_right fun _ => and_iff_right ⟨failure, rfl, retryable⟩

theorem lookup_marked {moduleType : ModuleType} {before : ModuleUpdateRecord}
    (standing : tracked.status.moduleStates.lookup moduleType = some before) (mark : StatusMark) :
    (tracked.mark mark).status.moduleStates.lookup moduleType =
      some (markedRecord moduleType before mark) := by
  show (tracked.status.mark mark).moduleStates.lookup moduleType = _
  rw [lookup_mark, standing]
  rfl

theorem eq_markedRecord {moduleType : ModuleType} {before after : ModuleUpdateRecord}
    {mark : StatusMark} (standing : tracked.status.moduleStates.lookup moduleType = some before)
    (found : (tracked.mark mark).status.moduleStates.lookup moduleType = some after) :
    after = markedRecord moduleType before mark :=
  Option.some.inj (found.symm.trans (lookup_marked standing mark))

theorem consecutiveOnly_truncated (marked : ModuleType) (clock : Clock) :
    ConsecutiveOnly tracked (.truncated marked clock) := by
  intro moduleType before after standing found
  obtain rfl := eq_markedRecord standing found
  have same : (markedRecord moduleType before (.truncated marked clock)).state =
      before.state := by
    simp only [markedRecord]
    split_ifs <;> rfl
  refine ⟨fun alive => ?_, fun success => nomatch success⟩
  rw [same]
  exact iff_of_false alive fun both => nomatch both.1

theorem consecutiveOnly_success_iff (recorded : Recorded tracked) (moduleType : ModuleType)
    (clock : Clock) :
    ConsecutiveOnly tracked (.success moduleType clock) ↔
      Uninterrupted tracked (.success moduleType clock) := by
  constructor
  · intro consecutive tracks
    obtain ⟨before, standing⟩ := Option.isSome_iff_exists.1 tracks
    obtain ⟨uncoded, uncounted⟩ := (consecutive moduleType before _ standing
      (lookup_marked standing _)).2 rfl
    simp only [markedRecord, if_true] at uncoded uncounted
    obtain ⟨counted, coded⟩ := recorded moduleType before standing
    exact ⟨counted.symm.trans uncounted, coded.symm.trans uncoded⟩
  · intro uninterrupted other before after standing found
    obtain rfl := eq_markedRecord standing found
    constructor
    · intro alive
      refine iff_of_false ?_ fun both => nomatch both.1
      simp only [markedRecord]
      by_cases own : other = moduleType
      · rw [if_pos own]
        exact fun dead => nomatch dead
      · rw [if_neg own]
        exact alive
    · intro success
      have own : moduleType = other := congrArg Prod.fst (Option.some.inj success)
      subst own
      obtain ⟨counted, coded⟩ := recorded moduleType before standing
      obtain ⟨uncounted, uncoded⟩ := uninterrupted (by rw [standing]; rfl)
      simp only [markedRecord, if_true]
      exact ⟨coded.trans uncoded, counted.trans uncounted⟩

/-- A failure counts consecutive failures only exactly when the count left none out. -/
theorem consecutiveOnly_failed_iff (recorded : Recorded tracked) (moduleType : ModuleType)
    (failure : TrackerFailure) (clock : Clock) :
    ConsecutiveOnly tracked (.failed moduleType failure clock) ↔
      Uninterrupted tracked (.failed moduleType failure clock) := by
  have outcomes : (tracked.mark (.failed moduleType failure clock)).outcomes moduleType =
      .failure failure :: tracked.outcomes moduleType := by
    show tracked.outcomes.record (.failed moduleType failure clock) moduleType = _
    simp only [Outcomes.record, StatusMark.outcome?, if_true]
  have count : ∀ {before}, tracked.status.moduleStates.lookup moduleType = some before →
      before.nextRetryCount = ((failuresOf (tracked.outcomes moduleType)).length + 1) % 2 ^ 32 := by
    intro before standing
    unfold ModuleUpdateRecord.nextRetryCount
    rw [(recorded moduleType before standing).1]
    omega
  have permitted : ∃ other, (StatusMark.failed moduleType failure clock).outcome? =
      some (moduleType, .failure other) := ⟨failure, rfl⟩
  constructor
  · intro consecutive before standing alive retryable
    have entered := (consecutive moduleType before _ standing (lookup_marked standing _)).1 alive
    simp only [markedRecord, if_true] at entered
    rw [fail_state_eq_deadLetter_iff, outcomes, deadLetterDue_cons_iff retryable,
      count standing, retryable, and_iff_right permitted,
      or_iff_right (by decide : ¬true = false)] at entered
    exact entered
  · intro uninterrupted other before after standing found
    obtain rfl := eq_markedRecord standing found
    refine ⟨fun alive => ?_, fun success => nomatch success⟩
    by_cases own : other = moduleType
    · subst own
      simp only [markedRecord, if_true]
      rw [fail_state_eq_deadLetter_iff, outcomes, and_iff_right permitted]
      cases kind : failure.retryable with
      | false => exact iff_of_true (Or.inl rfl) (Or.inl ⟨failure, rfl, kind⟩)
      | true =>
        rw [deadLetterDue_cons_iff kind, or_iff_right (by decide : ¬true = false), count standing]
        exact uninterrupted before standing alive kind
    · simp only [markedRecord, own, if_false]
      refine iff_of_false alive ?_
      rintro ⟨⟨failed, same⟩, -⟩
      exact own (congrArg Prod.fst (Option.some.inj same)).symm

theorem consecutiveOnly_iff (recorded : Recorded tracked) (mark : StatusMark) :
    ConsecutiveOnly tracked mark ↔ Uninterrupted tracked mark := by
  cases mark with
  | truncated marked clock => exact iff_of_true (consecutiveOnly_truncated marked clock) trivial
  | success moduleType clock => exact consecutiveOnly_success_iff recorded moduleType clock
  | failed moduleType failure clock =>
    exact consecutiveOnly_failed_iff recorded moduleType failure clock

/-- Along a run of marks, only consecutive failures dead-letter a module, and successes clear it,
exactly when the marks are uninterrupted; the summary agrees with the module states throughout. -/
theorem consecutiveOnly_run_iff (recorded : Recorded tracked) (marks : List StatusMark) :
    (∀ reached, reached <+: marks →
        SummaryAgrees (reached.foldl TrackedStatus.mark tracked).status) ∧
      EveryStep TrackedStatus.mark ConsecutiveOnly tracked marks ↔
    EveryStep TrackedStatus.mark Uninterrupted tracked marks := by
  rw [and_iff_right fun _ _ => summaryAgrees _]
  have kept : ∀ tracked mark, Recorded tracked → Recorded (TrackedStatus.mark tracked mark) :=
    fun _ mark recorded => recorded.mark mark
  have same : ∀ tracked mark, Recorded tracked →
      (ConsecutiveOnly tracked mark ↔ Uninterrupted tracked mark) :=
    fun _ mark recorded => consecutiveOnly_iff recorded mark
  exact EveryStep.congr kept same recorded marks

def timeoutAfterSuccess : List StatusMark :=
  [.failed .summary (.transient "API timeout") fun _ => 1,
    .failed .summary (.transient "API timeout") fun _ => 2,
    .success .summary fun _ => 3,
    .failed .summary (.transient "API timeout") fun _ => 4]

/-- The first timeout after a success goes straight to the dead-letter state. -/
theorem timeoutAfterSuccess_deadLetters :
    ¬EveryStep TrackedStatus.mark ConsecutiveOnly
        ⟨FileUpdateState.new "src/main.rs" 1 1 0, fun _ => []⟩ timeoutAfterSuccess ∧
      ((timeoutAfterSuccess.foldl FileUpdateState.mark
        (FileUpdateState.new "src/main.rs" 1 1 0)).getModuleState .summary).state =
          .deadLetter := by
  refine ⟨fun consecutive => ?_, by decide⟩
  have success := consecutive.2.2.1 .summary _ _ rfl rfl
  exact absurd (success.2 rfl).2 (by decide)

theorem consecutiveOnly_run_iff_successThenTimeout :
    (∀ reached, reached <+: timeoutAfterSuccess →
        SummaryAgrees (reached.foldl TrackedStatus.mark
          ⟨FileUpdateState.new "src/main.rs" 1 1 0, fun _ => []⟩).status) ∧
      EveryStep TrackedStatus.mark ConsecutiveOnly
        ⟨FileUpdateState.new "src/main.rs" 1 1 0, fun _ => []⟩ timeoutAfterSuccess ↔
    EveryStep TrackedStatus.mark Uninterrupted
      ⟨FileUpdateState.new "src/main.rs" 1 1 0, fun _ => []⟩ timeoutAfterSuccess :=
  consecutiveOnly_run_iff (recorded_new "src/main.rs" 1 1 0) timeoutAfterSuccess

end Outcomes

end ContextEngine

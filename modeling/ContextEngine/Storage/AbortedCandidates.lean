/- digest: Which rows the abort of a hot update operation deletes. -/

import ContextEngine.Storage.Coordinator

set_option autoImplicit false

namespace ContextEngine

open GenerationStore (PrepareFault)

namespace StorageCoordinator

def registration (coordinator : StorageCoordinator) : CandidateStep → Option (Int × String)
  | .prepare operationId resume now fault _ =>
    if coordinator.candidateOperation.isSome ∨ resume = true ∧ (fault = some .adoptionRead ∨
        (coordinator.store.tryAdoptExistingCandidate operationId).isSome) then none
    else
      (coordinator.prepareCandidate operationId now fault).2.toOption.map fun epoch =>
        (epoch, operationId)
  | _ => none

end StorageCoordinator

open StorageCoordinator (CandidateStep)

/-- A coordinator together with the operation that was the last to register each epoch as its
candidate. The tables do not say it; the rows of the epoch are that operation's. -/
structure TrackedCoordinator extends StorageCoordinator where
  registrant : Int → Option String

namespace TrackedCoordinator

variable (coordinator : TrackedCoordinator)

def step (coordinator : TrackedCoordinator) (next : CandidateStep) : TrackedCoordinator where
  toStorageCoordinator := coordinator.toStorageCoordinator.step next
  registrant := match coordinator.registration next with
    | some registered => fun epoch =>
      if epoch = registered.1 then some registered.2 else coordinator.registrant epoch
    | none => coordinator.registrant

def publishedEpochs : List Int :=
  let view := GenerationView.resolve coordinator.store.publishedTables
  view.ownEpoch :: view.ancestors

def Candidate (operationId : String) (epoch : Int) : Prop :=
  coordinator.registrant epoch = some operationId ∧
    ∃ row ∈ coordinator.store.manifests.rows, row.operationId = operationId ∧
      row.dataEpoch = epoch ∧ row.state = .building

/-- A step that deletes no row of the published generation, and none of the candidate of another
operation. -/
structure Spares (before after : TrackedCoordinator) (operationId : String) : Prop where
  published : ∀ epoch ∈ before.publishedEpochs, after.store.rows epoch = before.store.rows epoch
  candidates : ∀ other epoch, other ≠ operationId → before.Candidate other epoch →
    after.store.rows epoch = before.store.rows epoch

def AbortsSafely : CandidateStep → Prop
  | .fail operationId marked cleared =>
    Spares coordinator (coordinator.step (.fail operationId marked cleared)) operationId
  | _ => True

/-- If an abort clears anything, the epoch of the counter is neither read by the published view
nor the candidate of another operation. -/
def ClearsOwn : CandidateStep → Prop
  | .fail operationId marked cleared =>
    marked = true → cleared = true →
      coordinator.store.rows coordinator.epoch = .empty ∨
        coordinator.epoch ∉ coordinator.publishedEpochs ∧
          ∀ other, other ≠ operationId → ¬ coordinator.Candidate other coordinator.epoch
  | _ => True

variable {coordinator}

theorem rows_fail (op : String) (marked cleared : Bool) (epoch : Int) :
    (coordinator.step (.fail op marked cleared)).store.rows epoch =
      if marked = true ∧ cleared = true ∧ epoch = coordinator.epoch then .empty
      else coordinator.store.rows epoch := by
  cases marked with
  | false => rfl
  | true =>
    cases cleared with
    | false => rfl
    | true =>
      show (if epoch = coordinator.epoch then _ else _) = _
      by_cases own : epoch = coordinator.epoch
      · rw [if_pos own, if_pos ⟨rfl, rfl, own⟩]
        rfl
      · rw [if_neg own, if_neg fun both => own both.2.2]
        rfl

private theorem abortsSafely_iff (next : CandidateStep) :
    coordinator.AbortsSafely next ↔ coordinator.ClearsOwn next := by
  cases next with
  | fail operationId marked cleared =>
    constructor
    · intro spares isMarked isCleared
      by_cases nothing : coordinator.store.rows coordinator.epoch = .empty
      · exact Or.inl nothing
      have emptied : (coordinator.step (.fail operationId marked cleared)).store.rows
          coordinator.epoch = .empty := by
        rw [rows_fail, if_pos ⟨isMarked, isCleared, rfl⟩]
      refine Or.inr ⟨fun mem => ?_, fun other different candidate => ?_⟩
      · exact nothing ((spares.published _ mem).symm.trans emptied)
      · exact nothing ((spares.candidates other _ different candidate).symm.trans emptied)
    · intro own
      have same : ∀ epoch, (marked = true → cleared = true → epoch = coordinator.epoch →
          coordinator.store.rows coordinator.epoch = .empty) →
          (coordinator.step (.fail operationId marked cleared)).store.rows epoch =
            coordinator.store.rows epoch := fun epoch nothing => by
        rw [rows_fail]
        split_ifs with all
        · obtain ⟨isMarked, isCleared, rfl⟩ := all
          exact (nothing isMarked isCleared rfl).symm
        · rfl
      refine ⟨fun epoch mem => same epoch fun isMarked isCleared isOwn => ?_,
        fun other epoch different candidate => same epoch fun isMarked isCleared isOwn => ?_⟩
      · refine (own isMarked isCleared).resolve_right fun free => ?_
        exact free.1 (isOwn ▸ mem)
      · refine (own isMarked isCleared).resolve_right fun free => ?_
        exact free.2 other different (isOwn ▸ candidate)
  | _ => exact Iff.rfl

/-- In every run from every state, the aborts delete nothing of the published generation and
nothing of the candidate of another operation if and only if none of them meets such an epoch in
the counter with rows. -/
theorem abortsSafely_run_iff (start : TrackedCoordinator) (steps : List CandidateStep) :
    Runs.EveryStep step AbortsSafely start steps ↔ Runs.EveryStep step ClearsOwn start steps := by
  have kept : ∀ (coordinator : TrackedCoordinator) (next : CandidateStep), True →
      True := fun _ _ _ => trivial
  have same : ∀ (coordinator : TrackedCoordinator) (next : CandidateStep), True →
      (AbortsSafely coordinator next ↔ ClearsOwn coordinator next) :=
    fun _ next _ => abortsSafely_iff next
  exact Runs.EveryStep.congr kept same trivial steps

def publishedProject : TrackedCoordinator where
  store := ((GenerationStore.empty.step (.activate 1 0 "initial" 0)).updateRows 1 fun rows =>
    { rows with files := rows.files.insert "src/lib.rs" (some "hash") })
  epoch := 1
  candidateOperation := none
  candidateRelationEpoch := 0
  registrant := fun _ => none

def changedFile : ChangedFile where
  path := "src/lib.rs"
  contentHash := "new"
  entities := 1
  chunks := 1
  entityDetailMappings := 1

private theorem not_spares_of_lookup {before after : TrackedCoordinator} {epoch : Int}
    (lost : (after.store.rows epoch).files.lookup "src/lib.rs" ≠
      (before.store.rows epoch).files.lookup "src/lib.rs") :
    after.store.rows epoch ≠ before.store.rows epoch := fun same =>
  lost (congrArg (fun rows => rows.files.lookup "src/lib.rs") same)

/-- The abort after a failure of a later commit deletes what the first one published; the abort of
an operation that was refused deletes the candidate of the one that holds the coordinator; and the
abort after a failed read of the active manifest deletes the published generation. -/
theorem aborts_lose :
    ¬ Runs.EveryStep step AbortsSafely publishedProject
      [.prepare "update" false 0 none true, .writeFile "update" changedFile, .activate "update" 0,
        .fail "update" true true] ∧
    ¬ Runs.EveryStep step AbortsSafely publishedProject
      [.prepare "first" false 0 none true, .writeFile "first" changedFile,
        .prepare "second" false 0 none true, .fail "second" true true] ∧
    ¬ Runs.EveryStep step AbortsSafely publishedProject
      [.prepare "update" false 0 (some .activeRead) true, .fail "update" true true] := by
  refine ⟨fun every => ?_, fun every => ?_, fun every => ?_⟩
  · obtain ⟨_, _, _, spares, _⟩ := every
    refine not_spares_of_lookup ?_ (spares.published 2 (by decide +kernel))
    decide +kernel
  · obtain ⟨_, _, _, spares, _⟩ := every
    refine not_spares_of_lookup ?_ (spares.candidates "first" 2 (by decide) ?_)
    · decide +kernel
    · exact ⟨by decide +kernel, by decide +kernel⟩
  · obtain ⟨_, spares, _⟩ := every
    refine not_spares_of_lookup ?_ (spares.published 1 (by decide +kernel))
    decide +kernel

end TrackedCoordinator

end ContextEngine

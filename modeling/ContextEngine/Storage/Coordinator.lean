/- digest: Preparation, publication and retirement of hot update candidates. -/

import ContextEngine.Storage.ProjectManifests

set_option autoImplicit false

namespace ContextEngine

/-- What a hot update stores of a changed file: its hash, and a number of rows of each kind. -/
structure ChangedFile where
  path : PathBuf
  contentHash : String
  entities : Nat
  chunks : Nat
  entityDetailMappings : Nat

namespace GenerationRows

variable (rows : GenerationRows)

def clearRows : GenerationRows := { empty with overrides := rows.overrides }

def clearOverrides : GenerationRows := { rows with overrides := ∅ }

variable (paths : List PathBuf)

def clearPaths : GenerationRows :=
  { rows with
    files := HashMap.eraseAll rows.files paths
    entities := rows.entities.filter fun path => path ∉ paths
    chunks := rows.chunks.filter fun path => path ∉ paths
    entityDetailMappings := rows.entityDetailMappings.filter fun path => path ∉ paths }

/-- The rows of another generation that no override hides, over what this one has of them. -/
def materialize (source : GenerationRows) (excludedPaths : List PathBuf) : GenerationRows :=
  let sourcePaths := source.files.keys.filter fun path => path ∉ excludedPaths
  let cleared := rows.clearPaths sourcePaths
  { cleared with
    files := HashMap.extend cleared.files
      (source.files.toList.filter fun row => row.1 ∉ excludedPaths)
    entities := cleared.entities ++ source.entities.filter fun path => path ∈ sourcePaths
    chunks := cleared.chunks ++ source.chunks.filter fun path => path ∉ excludedPaths
    entityDetailMappings := cleared.entityDetailMappings ++
      source.entityDetailMappings.filter fun path => path ∈ sourcePaths }

def writeFile (file : ChangedFile) : GenerationRows :=
  { files := rows.files.insert file.path (some file.contentHash)
    entities := (rows.entities.filter fun path => path ≠ file.path) ++
      List.replicate file.entities file.path
    chunks := (rows.chunks.filter fun path => path ≠ file.path) ++
      List.replicate file.chunks file.path
    entityDetailMappings := (rows.entityDetailMappings.filter fun path => path ≠ file.path) ++
      List.replicate file.entityDetailMappings file.path
    overrides := rows.overrides.insert file.path .replaced }

def clearCandidateFileRows : GenerationRows :=
  { rows with
    chunks := rows.chunks.filter fun path => path ∉ paths
    entities := rows.entities.filter fun path => path ∉ paths }

def registerOverrides (disposition : OverrideDisposition) :
    GenerationRows :=
  { rows with
    overrides := HashMap.extend rows.overrides (paths.map fun path => (path, disposition)) }

end GenerationRows

namespace GenerationStore

variable (store : GenerationStore)

def updateRows (epoch : Int) (f : GenerationRows → GenerationRows) : GenerationStore :=
  { store with rows := fun e => if e = epoch then f (store.rows e) else store.rows e }

def clearCandidate (epoch : Int) : GenerationStore :=
  store.updateRows epoch fun rows => rows.clearRows.clearOverrides

variable (operationId : String)

def markCandidateReady : GenerationStore :=
  { store with manifests := store.manifests.markCandidateReady operationId }

/-- The epoch a candidate goes above; a project without manifest has its legacy epoch. -/
def activeDataEpoch : Int :=
  match store.manifests.getActive with
  | some manifest => manifest.dataEpoch
  | none => store.activeEpoch.getD 0

/-- Where the preparation of a candidate fails. -/
inductive PrepareFault
  | adoptionRead | activeRead | overridesRead | materialize | externalEpochs | clearLink
  | externalDelete | register
  deriving DecidableEq

/-- Make an inheriting generation a full one: the copy of the parent's rows, and then the link and
the overrides. -/
def compactGeneration (activeOperationId : String) (activeEpoch parentEpoch : Int)
    (fault : Option PrepareFault) : GenerationStore × Except String Unit :=
  if fault = some .overridesRead ∨ fault = some .materialize then
    (store, .error "failed to materialize generation")
  else
    let materialized := store.updateRows activeEpoch fun rows =>
      rows.materialize (store.rows parentEpoch) rows.overrides.keys
    if fault = some .externalEpochs ∨ fault = some .clearLink then
      (materialized, .error "failed to compact generation")
    else
      ((materialized.setParentDataEpoch activeOperationId none).updateRows activeEpoch
        GenerationRows.clearOverrides, .ok ())

def compactInherited (fault : Option PrepareFault) : GenerationStore × Except String Unit :=
  match store.manifests.getActive with
  | none => (store, .ok ())
  | some manifest =>
    match manifest.parentDataEpoch with
    | none => (store, .ok ())
    | some parent =>
      store.compactGeneration manifest.operationId manifest.dataEpoch parent fault

def candidateParent (activeEpoch : Int) : Option Int :=
  if 0 < activeEpoch then some activeEpoch else none

def registerCandidate (candidateEpoch activeEpoch : Int) (operationId : String) (now : Int) :
    Except String GenerationStore := do
  let begun ← store.beginBuilding candidateEpoch operationId now
  let linked := begun.setParentDataEpoch operationId (candidateParent activeEpoch)
  return (linked.clearCandidate candidateEpoch).markCandidateReady operationId

def nextCandidateEpoch : Int := max (store.activeDataEpoch + 1) 1

/-- Compaction, the deletions in other stores, and registration. -/
def inheritCandidate (now : Int) (fault : Option PrepareFault) :
    GenerationStore × Except String Int :=
  let compacted := store.compactInherited fault
  match compacted.2 with
  | .error message => (compacted.1, .error message)
  | .ok () =>
    if fault = some .externalDelete ∨ fault = some .register then
      (compacted.1, .error "failed to register candidate")
    else
      match compacted.1.registerCandidate store.nextCandidateEpoch store.activeDataEpoch
        operationId now with
      | .error message => (compacted.1, .error message)
      | .ok registered => (registered, .ok store.nextCandidateEpoch)

/-- Adoption judgment: ready, the next epoch, and the right parent. -/
def candidateMatchesActive (manifest : ProjectIndexManifestRow) (activeEpoch : Int) : Bool :=
  manifest.candidateReady ∧ manifest.dataEpoch = activeEpoch + 1 ∧
    manifest.parentDataEpoch = candidateParent activeEpoch

/-- The epoch of a candidate that an interrupted run of the operation left. -/
def tryAdoptExistingCandidate : Option Int :=
  let activeEpoch := (store.manifests.getActive.map ProjectIndexManifestRow.dataEpoch).getD 0
  ((store.manifests.getBuildingByOperation operationId).filter fun manifest =>
    candidateMatchesActive manifest activeEpoch).map ProjectIndexManifestRow.dataEpoch

end GenerationStore

open GenerationStore (PrepareFault)

/-- The coordinator of a project, over its tables. -/
structure StorageCoordinator where
  store : GenerationStore
  /-- The epoch that is written to. -/
  epoch : Int
  candidateOperation : Option String
  candidateRelationEpoch : Int

namespace StorageCoordinator

variable (coordinator : StorageCoordinator) (operationId : String)

/-- Register a new candidate above the active generation. The counter moves before anything is
done; epochs are not bounded here. -/
def prepareCandidate (now : Int) (fault : Option PrepareFault) :
    StorageCoordinator × Except String Int :=
  if fault = some .activeRead then (coordinator, .error "failed to read the active manifest")
  else
    let inherited := coordinator.store.inheritCandidate operationId now fault
    ({ coordinator with
        store := inherited.1
        epoch := coordinator.store.nextCandidateEpoch
        candidateRelationEpoch := 0 },
      inherited.2)

/-- Prepare a candidate for an operation, or return the one it holds. A failed registration
releases the coordinator; a failed adoption does not. The manifest of a failed registration is
marked failed if that transaction goes through. -/
def beginHotUpdateCandidate (resume : Bool) (now : Int)
    (fault : Option PrepareFault) (marked : Bool) : StorageCoordinator × Except String Int :=
  if coordinator.candidateOperation = some operationId then (coordinator, .ok coordinator.epoch)
  else if coordinator.candidateOperation.isSome then
    (coordinator, .error "another hot-update candidate is already prepared")
  else
    let holding := { coordinator with candidateOperation := some operationId }
    if resume = true ∧ fault = some .adoptionRead then
      (holding, .error "failed to read the candidate")
    else
      match if resume then coordinator.store.tryAdoptExistingCandidate operationId else none with
      | some epoch => ({ holding with epoch := epoch, candidateRelationEpoch := 0 }, .ok epoch)
      | none =>
        let prepared := holding.prepareCandidate operationId now fault
        match prepared.2 with
        | .ok epoch => (prepared.1, .ok epoch)
        | .error message =>
          ({ prepared.1 with
              store := if marked then prepared.1.store.markFailed operationId
                else prepared.1.store
              candidateOperation := none },
            .error message)

def writeFile (file : ChangedFile) : StorageCoordinator :=
  { coordinator with
    store := coordinator.store.updateRows coordinator.epoch fun rows => rows.writeFile file }

/-- Hide files in the candidate: one transaction for their rows, which may be all that is done,
and one for the overrides. -/
def registerDeletedFiles (paths : List PathBuf) (overridden : Bool) :
    StorageCoordinator × Except String Unit :=
  if paths.isEmpty then (coordinator, .ok ())
  else if coordinator.candidateOperation.isNone then
    (coordinator, .error "batch deletion registration requires a prepared hot-update candidate")
  else
    let cleared := coordinator.store.updateRows coordinator.epoch fun rows =>
      rows.clearCandidateFileRows paths
    if overridden then
      ({ coordinator with
          store := cleared.updateRows coordinator.epoch fun rows =>
            rows.registerOverrides paths .deleted },
        .ok ())
    else ({ coordinator with store := cleared }, .error "failed to register overrides")

def setCandidateRelationEpoch (relationEpoch : Int) : StorageCoordinator :=
  { coordinator with candidateRelationEpoch := relationEpoch }

def activateHotUpdateCandidate (now : Int) :
    Except String StorageCoordinator := do
  let relationEpoch :=
    if 0 < coordinator.candidateRelationEpoch then coordinator.candidateRelationEpoch
    else coordinator.store.relations.activeRelationEpoch.getD 0
  let published ← coordinator.store.activate coordinator.epoch relationEpoch operationId now
  return { coordinator with store := published, candidateOperation := none }

/-- Mark the manifest of an operation failed, clear the epoch of the counter, and release the
coordinator. Without the mark nothing happens; without the cleanup the rest does. -/
def failHotUpdateCandidate (marked cleared : Bool) :
    Except String StorageCoordinator :=
  if marked then
    let failed := coordinator.store.markFailed operationId
    .ok { coordinator with
      store := if cleared then failed.clearCandidate coordinator.epoch else failed
      candidateOperation := none }
  else .error "failed to mark the manifest failed"

/-- A new coordinator over the same tables. -/
def restart (seeded : Bool) : StorageCoordinator where
  store := coordinator.store
  epoch := if seeded then coordinator.store.activeEpoch.getD 0 else 0
  candidateOperation := none
  candidateRelationEpoch := 0

/-- What hot updates do to a project. The operations name who does it; writes and deletions go to
the epoch of the counter, whoever holds the coordinator. -/
inductive CandidateStep
  | prepare (operationId : String) (resume : Bool) (now : Int) (fault : Option PrepareFault)
      (marked : Bool)
  | writeFile (operationId : String) (file : ChangedFile)
  | registerDeletedFiles (operationId : String) (paths : List PathBuf) (overridden : Bool)
  | setCandidateRelationEpoch (relationEpoch : Int)
  | activate (operationId : String) (now : Int)
  | fail (operationId : String) (marked cleared : Bool)
  | republish (operationId : String) (relationEpoch now : Int)
  | relation (next : RelationTables.RelationStep)
  | restart (seeded : Bool)

/-- A relation publication of its own: the active data epoch again, under a new operation. -/
def republish (relationEpoch now : Int) :
    Except String StorageCoordinator := do
  let published ← coordinator.store.activate coordinator.store.activeDataEpoch relationEpoch
    operationId now
  return { coordinator with store := published }

def attempt : CandidateStep → Except String StorageCoordinator
  | .prepare operationId resume now fault marked =>
    .ok (coordinator.beginHotUpdateCandidate operationId resume now fault marked).1
  | .writeFile _ file => .ok (coordinator.writeFile file)
  | .registerDeletedFiles _ paths overridden =>
    .ok (coordinator.registerDeletedFiles paths overridden).1
  | .setCandidateRelationEpoch relationEpoch =>
    .ok (coordinator.setCandidateRelationEpoch relationEpoch)
  | .activate operationId now => coordinator.activateHotUpdateCandidate operationId now
  | .fail operationId marked cleared =>
    coordinator.failHotUpdateCandidate operationId marked cleared
  | .republish operationId relationEpoch now =>
    coordinator.republish operationId relationEpoch now
  | .relation next =>
    .ok { coordinator with
      store := { coordinator.store with relations := coordinator.store.relations.step next } }
  | .restart seeded => .ok (coordinator.restart seeded)

/-- A failed transaction is rolled back. -/
def step (coordinator : StorageCoordinator) (next : CandidateStep) : StorageCoordinator :=
  (coordinator.attempt next).toOption.getD coordinator

theorem activateHotUpdateCandidate_eq_ok {coord result : StorageCoordinator}
    {op : String} {now : Int}
    (done : coord.activateHotUpdateCandidate op now = .ok result) :
    ∃ relationEpoch published,
      coord.store.activate coord.epoch relationEpoch op now = .ok published ∧
      result = { coord with store := published, candidateOperation := none } := by
  rw [activateHotUpdateCandidate, Runs.bind_eq_ok] at done
  obtain ⟨published, publication, done⟩ := done
  cases done
  exact ⟨_, published, publication, rfl⟩

section Deletions

variable {coord : StorageCoordinator} {paths : List PathBuf} {overridden : Bool}

theorem registerDeletedFiles_of_idle (idle : paths = [] ∨ coord.candidateOperation = none) :
    (coord.registerDeletedFiles paths overridden).1 = coord := by
  rw [registerDeletedFiles]
  rcases idle with rfl | none
  · rfl
  · by_cases empty : paths.isEmpty = true
    · rw [if_pos empty]
    · rw [if_neg empty, if_pos (by rw [none]; rfl)]

theorem store_registerDeletedFiles {op : String} (listed : paths ≠ [])
    (held : coord.candidateOperation = some op) :
    (coord.registerDeletedFiles paths true).1.store = coord.store.updateRows coord.epoch fun rows =>
        (rows.clearCandidateFileRows paths).registerOverrides paths .deleted := by
  rw [registerDeletedFiles, if_neg (by simpa using listed), if_neg (by rw [held]; simp), if_pos rfl]
  simp only [GenerationStore.updateRows]
  congr 1
  funext e
  split_ifs <;> rfl

end Deletions

end StorageCoordinator

end ContextEngine

/- digest: The calls that publish a snapshot, a delta or a compaction, and where they may stop. -/

import ContextEngine.Storage.Coordinator
import ContextEngine.Storage.SnapshotTables

set_option autoImplicit false

namespace ContextEngine

/-- The columns of a relation manifest that are null until a snapshot is written. -/
structure SnapshotColumns where
  inputFingerprint : Option String
  snapshotFingerprint : Option String
  fileCount : Option Nat
  entityCount : Option Nat
  relationCount : Option Nat
  dependencyCount : Option Nat
  deriving DecidableEq

def SnapshotColumns.null : SnapshotColumns := ⟨none, none, none, none, none, none⟩

def SnapshotColumns.ofSnapshot (snapshot : CanonicalRelationSnapshot)
    (inputFingerprint snapshotFingerprint : String) : SnapshotColumns where
  inputFingerprint := some inputFingerprint
  snapshotFingerprint := some snapshotFingerprint
  fileCount := some snapshot.files.length
  entityCount := some snapshot.entities.length
  relationCount := some snapshot.relations.length
  dependencyCount := some snapshot.dependencies.length

namespace SnapshotTables

def Rows.empty : Rows := ⟨[], [], [], [], []⟩

def writeRowsInto (stored : Rows) (snapshot : CanonicalRelationSnapshot)
    (fileSequence symbolSequence : Nat) : Except String (Rows × Nat × Nat) := do
  let numberedFiles := snapshot.files.zipIdx (fileSequence + 1)
  let files ← UniqueRows.insertAll (fun a b => a.path = b.path) "relation_snapshot_files"
    stored.files (numberedFiles.map fun numbered => fileRow numbered.1 numbered.2)
  let fileIds := HashMap.extend ∅ (numberedFiles.map fun numbered =>
    (numbered.1.path, numbered.2))
  let numberedEntities := (storageEntities snapshot).zipIdx (symbolSequence + 1)
  let entityRows ← numberedEntities.mapM fun numbered => do
    let fileId ← required fileIds numbered.1.key.filePath "entity file"
    return entityRow fileId numbered.1 numbered.2
  let inserted ← UniqueRows.insertAll SameSymbol "relation_snapshot_entities" stored.entities
    entityRows
  let symbolIds := HashMap.extend ∅ (numberedEntities.map fun numbered =>
    (numbered.1.key, numbered.2))
  let entities ← ((storageEntities snapshot).zip (inserted.drop stored.entities.length)).mapM
    fun row => setParent symbolIds row.1 row.2
  let targetIds ← snapshot.relations.mapM (targetId symbolIds)
  let relations ← (snapshot.relations.zip targetIds).mapM fun row => do
    let callerId ← required symbolIds row.1.caller "relation caller"
    return relationRow callerId row.2 row.1
  let fileExports ← snapshot.files.mapM (exportRows fileIds symbolIds)
  let exports ← UniqueRows.insertAll (fun a b => a = b) "relation_snapshot_exports"
    stored.exports fileExports.flatten
  let dependencyRows ← snapshot.dependencies.mapM (dependencyRow fileIds)
  let dependencies ← UniqueRows.insertAll (fun a b => a = b) "relation_snapshot_dependencies"
    stored.dependencies dependencyRows
  return (⟨files, stored.entities ++ entities, stored.relations ++ relations, exports,
    dependencies⟩, fileSequence + snapshot.files.length,
    symbolSequence + (storageEntities snapshot).length)

/-- An epoch without rows gets exactly those of the snapshot. -/
theorem writeRowsInto_empty (snapshot : CanonicalRelationSnapshot)
    (fileSequence symbolSequence : Nat) :
    writeRowsInto .empty snapshot fileSequence symbolSequence =
      (fun rows => (rows, fileSequence + snapshot.files.length,
        symbolSequence + (storageEntities snapshot).length)) <$>
          writeRows snapshot fileSequence symbolSequence := by
  unfold writeRowsInto writeRows
  simp only [Rows.empty, map_bind, map_pure, List.length_nil, List.drop_zero, List.nil_append]

end SnapshotTables

/-- The index tables of a project with the snapshot tables. Rows belong to stored manifests. -/
structure RelationDatabase where
  index : GenerationStore
  columns : Int → SnapshotColumns
  rows : Int → SnapshotTables.Rows
  /-- The last file id given. -/
  fileSequence : Nat
  /-- The last symbol id given. -/
  symbolSequence : Nat
  unwritten : ∀ epoch, epoch ∉ index.relations.manifests.keys → rows epoch = .empty

/-- Where a call stops. A transaction that fails is rolled back, and the epoch may get marked. -/
inductive PublicationStop
  | allocated
  | writeFails (marked : Bool)
  | written
  | activationFails (marked : Bool)
  deriving DecidableEq

/-- What is published: a snapshot, left to be activated with its project manifest; the state of the
active epoch, loaded and exported as one snapshot; or a delta on a view of its base. -/
inductive Publication (V : Type)
  | snapshot (snapshot : CanonicalRelationSnapshot)
  | compaction (merged : CanonicalRelationSnapshot)
  | delta (delta : SnapshotDelta) (base : V)

section Validation

variable {V : Type} [RelationIndexView V]

open RelationIndexView

def relationsToEntity (base : V) (callee : EntityId) : List ResolvedRelation :=
  (RelationIndexView.callersOf base callee).flatMap fun caller =>
    ((relationsOf base caller).getD []).filter fun relation => relation.calleeId = some callee

def validateDeltaScoped (base : V) (delta : SnapshotDelta) : Except String Unit := do
  let addedIds := delta.addedEntities.map fun added => added.entity.id
  delta.addedRelations.forM fun relation =>
    if ¬ functionContains base relation.caller ∧ relation.caller ∉ addedIds then
      .error s!"delta added relation has unknown caller {relation.caller}"
    else
      match relation.calleeId with
      | none => .ok ()
      | some calleeId =>
        if ¬ functionContains base calleeId ∧ calleeId ∉ addedIds then
          .error s!"delta added relation references missing internal target {calleeId}"
        else .ok ()
  let scheduled := delta.removedRelations.filterMap fun relation =>
    relation.calleeId.map fun callee => (relation.caller, callee)
  delta.removedEntities.forM fun removedId =>
    (relationsToEntity base removedId).forM fun relation =>
      if relation.caller ∈ delta.removedEntities ∨ (relation.caller, removedId) ∈ scheduled then
        .ok ()
      else .error (s!"removed entity {removedId} is still referenced by caller " ++
        s!"{relation.caller} without a scheduled removal")

end Validation

namespace RelationDatabase

section Tables

def cascade (index : GenerationStore) (columns : Int → SnapshotColumns)
    (rows : Int → SnapshotTables.Rows) (fileSequence symbolSequence : Nat) :
    RelationDatabase where
  index := index
  columns := columns
  rows := fun epoch => if epoch ∈ index.relations.manifests.keys then rows epoch else .empty
  fileSequence := fileSequence
  symbolSequence := symbolSequence
  unwritten := fun _ absent => if_neg absent

variable (database : RelationDatabase)

def setIndex (index : GenerationStore) : RelationDatabase :=
  cascade index database.columns database.rows database.fileSequence database.symbolSequence

def setRelations (relations : RelationTables) : RelationDatabase :=
  database.setIndex { database.index with relations := relations }

variable (epoch : Int)

def setColumns (columns : SnapshotColumns) : RelationDatabase :=
  { database with columns := Function.update database.columns epoch columns }

def allocateBuilding (operationId configFingerprint : String) (now : Int) :
    Int × RelationDatabase :=
  let (epoch, relations) :=
    database.index.relations.allocateBuilding operationId configFingerprint now
  let kept := (database.index.relations.getManifestByOperation operationId).any fun row =>
    row.2.state ≠ .failed
  (epoch, if kept then database.setRelations relations
    else (database.setRelations relations).setColumns epoch .null)

def retryFailed : Except String RelationDatabase := do
  let relations ← database.index.relations.retryFailed epoch
  return (database.setRelations relations).setColumns epoch .null

def markFailed : RelationDatabase :=
  database.setRelations (database.index.relations.markFailed epoch)

def writeSnapshotAndMarkReady (snapshot : CanonicalRelationSnapshot)
    (inputFingerprint snapshotFingerprint : String) : Except String RelationDatabase := do
  let relations ← database.index.relations.writeSnapshotAndMarkReady epoch
  let (rows, fileSequence, symbolSequence) ← SnapshotTables.writeRowsInto (database.rows epoch)
    snapshot database.fileSequence database.symbolSequence
  let columns := SnapshotColumns.ofSnapshot snapshot inputFingerprint snapshotFingerprint
  return cascade { database.index with relations := relations }
    (Function.update database.columns epoch columns)
    (Function.update database.rows epoch rows) fileSequence symbolSequence

def deleteManifestsExcept (keepEpoch : Int) : RelationDatabase :=
  database.setRelations (database.index.relations.deleteManifestsExcept keepEpoch)

/-- The activation of an epoch with the manifest of the project. -/
def activate (operationId : String) (now : Int) : Except String RelationDatabase :=
  database.setIndex <$>
    database.index.activate database.index.activeDataEpoch epoch operationId now

def hasProjectPublicationCandidate : Bool :=
  database.index.manifests.rows.any fun row => row.state = .building

end Tables

section Calls

variable [Sha256] [SerdeJson] [InputJson] {V : Type} [RelationIndexView V]

variable (database : RelationDatabase) (operationId : String) (now : Int)

def allocateThenWrite (snapshot : CanonicalRelationSnapshot) (stop : Option PublicationStop) :
    Except String Int × RelationDatabase :=
  let (epoch, allocated) :=
    database.allocateBuilding operationId snapshot.configFingerprint now
  match stop with
  | some .allocated => (.error "stopped", allocated)
  | some (.writeFails marked) =>
    (.error "write failed", if marked then allocated.markFailed epoch else allocated)
  | _ =>
    match allocated.writeSnapshotAndMarkReady epoch snapshot snapshot.inputFingerprint
      snapshot.fingerprint with
    | .error message => (.error message, allocated.markFailed epoch)
    | .ok written => (.ok epoch, written)

/-- The epoch of a snapshot, written unless the operation has done so before. -/
def allocateAndWrite (snapshot : CanonicalRelationSnapshot) (stop : Option PublicationStop) :
    Except String Int × RelationDatabase :=
  match (do snapshot.validateVersions; SnapshotTables.validateSnapshot snapshot) with
  | .error message => (.error message, database)
  | .ok () =>
    match database.index.relations.getManifestByOperation operationId with
    | none => database.allocateThenWrite operationId now snapshot stop
    | some (epoch, existing) =>
      match existing.state with
      | .active | .ready =>
        if (database.columns epoch).snapshotFingerprint ≠ some snapshot.fingerprint then
          (.error s!"existing relation operation {operationId} has a different snapshot",
            database)
        else (.ok epoch, database)
      | .failed =>
        match database.retryFailed epoch with
        | .error message => (.error message, database)
        | .ok reopened => reopened.allocateThenWrite operationId now snapshot stop
      | .building | .delta => database.allocateThenWrite operationId now snapshot stop

omit [Sha256] [SerdeJson] [InputJson] in
/-- What is left where a call does not go on behind its write. -/
def stopWritten (epoch : Int) (stop : PublicationStop) : RelationDatabase :=
  if stop = .activationFails true then database.markFailed epoch else database

omit [Sha256] [SerdeJson] [InputJson] in
/-- The activation that ends a call. Its failure is marked. -/
def activateOrMark (epoch : Int) : Except String Int × RelationDatabase :=
  match database.activate epoch operationId now with
  | .error message => (.error message, database.markFailed epoch)
  | .ok activated => (.ok epoch, activated)

def compactProject (merged : CanonicalRelationSnapshot) (stop : Option PublicationStop) :
    Except String Int × RelationDatabase :=
  match database.index.relations.activeRelationEpoch with
  | none =>
    (.error ("cannot read active epoch: Query failed: Failed to get project_meta " ++
      "active_relation_epoch: Query returned no rows"), database)
  | some activeEpoch =>
    if activeEpoch ≤ 0 then (.error "no active epoch to compact", database)
    else
      match database.allocateAndWrite operationId now merged stop with
      | (.error message, left) => (.error message, left)
      | (.ok epoch, written) =>
        match stop with
        | some stop => (.error "stopped", written.stopWritten epoch stop)
        | none =>
          match written.activateOrMark operationId now epoch with
          | (.error message, left) => (.error message, left)
          | (.ok epoch, activated) => (.ok epoch, activated.deleteManifestsExcept epoch)

omit [Sha256] [SerdeJson] [InputJson] in
def allocateAndWriteDelta (delta : SnapshotDelta) : Except String (Int × RelationDatabase) := do
  let (epoch, allocated) := database.allocateBuilding operationId delta.configFingerprint now
  let relations ← allocated.index.relations.writeDelta epoch delta
  return (epoch, allocated.setRelations relations)

omit [Sha256] [SerdeJson] [InputJson] in
def publishDelta (delta : SnapshotDelta) (base : V)
    (stop : Option PublicationStop) : Except String Int × RelationDatabase :=
  match database.index.relations.activeRelationEpoch with
  | none =>
    (.error ("cannot read active epoch for CAS: Query failed: Failed to get project_meta " ++
      "active_relation_epoch: Query returned no rows"), database)
  | some activeEpoch =>
    if activeEpoch ≠ delta.baseEpoch then
      (.error (s!"Epoch conflict: active_epoch={activeEpoch} != base_epoch=" ++
        toString delta.baseEpoch), database)
    else
      match validateDeltaScoped base delta with
      | .error message => (.error message, database)
      | .ok () =>
        match stop with
        | some .allocated | some (.writeFails _) => (.error "write failed", database)
        | _ =>
          match database.allocateAndWriteDelta operationId now delta with
          | .error message => (.error message, database)
          | .ok (epoch, written) =>
            match stop with
            | some stop => (.error "stopped", written.stopWritten epoch stop)
            | none =>
              if written.hasProjectPublicationCandidate then (.ok epoch, written)
              else written.activateOrMark operationId now epoch

/-- One call: the result, and what is stored then. -/
def publish (publication : Publication V) (stop : Option PublicationStop) :
    Except String Int × RelationDatabase :=
  match publication with
  | .snapshot snapshot =>
    match database.allocateAndWrite operationId now snapshot stop, stop with
    | (.ok epoch, written), some stop => (.error "stopped", written.stopWritten epoch stop)
    | done, _ => done
  | .compaction merged => database.compactProject operationId now merged stop
  | .delta delta base => database.publishDelta operationId now delta base stop

def afterStops (publication : Publication V) (stops : List PublicationStop) : RelationDatabase :=
  stops.foldl (fun left stop => (left.publish operationId now publication (some stop)).2) database

end Calls

end RelationDatabase

end ContextEngine

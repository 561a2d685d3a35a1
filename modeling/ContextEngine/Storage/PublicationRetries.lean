/- digest: When a publication that stopped can be made again under its operation id. -/

import ContextEngine.Storage.RelationPublications
import ContextEngine.Storage.SnapshotRoundTrip

set_option autoImplicit false

namespace ContextEngine

open Runs Function List

namespace SnapshotTables

variable {stored rows : Rows} {snapshot : CanonicalRelationSnapshot}
  {fileSequence symbolSequence nextFile nextSymbol : Nat}

def fileRows (snapshot : CanonicalRelationSnapshot) (fileSequence : Nat) : List FileRow :=
  (snapshot.files.zipIdx (fileSequence + 1)).map fun numbered => fileRow numbered.1 numbered.2

theorem paths_fileRows (snapshot : CanonicalRelationSnapshot) (fileSequence : Nat) :
    (fileRows snapshot fileSequence).map FileRow.path = snapshot.files.map CanonicalFile.path := by
  have paths : (FileRow.path ∘ fun numbered : CanonicalFile × Nat =>
      fileRow numbered.1 numbered.2) = CanonicalFile.path ∘ Prod.fst := rfl
  rw [fileRows, map_map, paths, ← map_map, zipIdx_map_fst]

theorem files_of_written (written : writeRowsInto stored snapshot fileSequence symbolSequence =
    .ok (rows, nextFile, nextSymbol)) :
    UniqueRows.Fits (fun a b => a.path = b.path) stored.files (fileRows snapshot fileSequence) ∧
      rows.files = stored.files ++ fileRows snapshot fileSequence := by
  obtain ⟨files, inserted, rest⟩ := bind_eq_ok.1 written
  obtain ⟨fits, rfl⟩ := UniqueRows.insertAll_eq_ok_iff.1 inserted
  iterate 9 obtain ⟨_, _, rest⟩ := bind_eq_ok.1 rest
  cases rest
  exact ⟨fits, rfl⟩

theorem refused_of_written (written : writeRowsInto stored snapshot fileSequence symbolSequence =
    .ok (rows, nextFile, nextSymbol)) (nonempty : snapshot.files ≠ [])
    (fileSequence' symbolSequence' : Nat) :
    ∃ message, writeRowsInto rows snapshot fileSequence' symbolSequence' = .error message := by
  obtain ⟨_, files⟩ := files_of_written written
  cases again : writeRowsInto rows snapshot fileSequence' symbolSequence' with
  | error message => exact ⟨message, rfl⟩
  | ok result =>
    obtain ⟨⟨apart, _⟩, _⟩ := files_of_written again
    obtain ⟨file, mem⟩ := exists_mem_of_ne_nil _ nonempty
    have path : ∀ sequence, ∃ row ∈ fileRows snapshot sequence, row.path = file.path :=
      fun sequence => mem_map.1 (paths_fileRows snapshot sequence ▸ mem_map_of_mem mem)
    obtain ⟨old, oldMem, oldPath⟩ := path fileSequence
    obtain ⟨new, newMem, newPath⟩ := path fileSequence'
    rw [files] at apart
    exact absurd (oldPath.trans newPath.symm) (apart old (mem_append_right _ oldMem) new newMem)

theorem eq_nil_of_mapM {A B : Type} {f : A → Except String B} {l : List A} {results : List B}
    (done : l.mapM f = .ok results) (fails : ∀ a ∈ l, ∀ b, f a ≠ .ok b) :
    l = [] ∧ results = [] := by
  cases l with
  | nil =>
    cases done
    exact ⟨rfl, rfl⟩
  | cons a l =>
    obtain ⟨b, _, image⟩ := NumberedRows.exists_of_mapM done mem_cons_self
    exact absurd image (fails a mem_cons_self b)

theorem written_of_no_files (written : writeRowsInto stored snapshot fileSequence symbolSequence =
    .ok (rows, nextFile, nextSymbol)) (none : snapshot.files = []) :
    rows = stored ∧ nextFile = fileSequence ∧ nextSymbol = symbolSequence := by
  rw [writeRowsInto, none] at written
  obtain ⟨files, insertedFiles, rest⟩ := bind_eq_ok.1 written
  obtain ⟨entityRows, entityMapped, rest⟩ := bind_eq_ok.1 rest
  -- without file ids, the first entity, relation or dependency is refused
  obtain ⟨noNumbered, rfl⟩ := eq_nil_of_mapM entityMapped fun numbered _ _ done => by
    obtain ⟨_, found, _⟩ := bind_eq_ok.1 done
    cases found
  have noEntities : storageEntities snapshot = [] := by simpa using noNumbered
  rw [noEntities] at rest
  obtain ⟨inserted, insertedEntities, rest⟩ := bind_eq_ok.1 rest
  obtain ⟨entities, parents, rest⟩ := bind_eq_ok.1 rest
  obtain ⟨targetIds, _, rest⟩ := bind_eq_ok.1 rest
  obtain ⟨relations, relationsMapped, rest⟩ := bind_eq_ok.1 rest
  obtain ⟨_, rfl⟩ := eq_nil_of_mapM relationsMapped fun row _ _ done => by
    obtain ⟨_, found, _⟩ := bind_eq_ok.1 done
    cases found
  obtain ⟨fileExports, exportsMapped, rest⟩ := bind_eq_ok.1 rest
  obtain ⟨exports, insertedExports, rest⟩ := bind_eq_ok.1 rest
  obtain ⟨dependencyRows, dependenciesMapped, rest⟩ := bind_eq_ok.1 rest
  obtain ⟨_, rfl⟩ := eq_nil_of_mapM dependenciesMapped fun row _ _ done => by
    obtain ⟨_, found, _⟩ := bind_eq_ok.1 done
    cases found
  obtain ⟨dependencies, insertedDependencies, rest⟩ := bind_eq_ok.1 rest
  cases insertedFiles
  cases insertedEntities
  cases parents
  cases exportsMapped
  cases insertedExports
  cases insertedDependencies
  cases rest
  simp

end SnapshotTables

namespace RelationTables
variable {tables : RelationTables} {epoch : Int} {manifest : RelationSnapshotManifest}

theorem entries_insertManifest (new : epoch ∉ tables.manifests.keys)
    (manifest : RelationSnapshotManifest) :
    (tables.insertManifest epoch manifest).manifests.entries =
      ⟨epoch, manifest⟩ :: tables.manifests.entries := by
  show (tables.manifests.insert epoch manifest).entries = _
  rw [AList.entries_insert_of_notMem]
  exact fun mem => new (AList.mem_keys.1 mem)

theorem getManifestByOperation_insertManifest (new : epoch ∉ tables.manifests.keys) :
    (tables.insertManifest epoch manifest).getManifestByOperation manifest.operationId =
      some (epoch, manifest) := by
  rw [getManifestByOperation, HashMap.toList, entries_insertManifest new, map_cons,
    find?_cons_of_pos (by simp)]

theorem getManifestByOperation_setState (op : String) (state : RelationSnapshotState) :
    (tables.setState epoch state).getManifestByOperation op =
      (tables.getManifestByOperation op).map fun row =>
        (row.1, if row.1 = epoch then { row.2 with state := state } else row.2) := by
  have sought : ∀ row : Int × RelationSnapshotManifest,
      (if row.1 = epoch then { row.2 with state := state } else row.2).operationId =
        row.2.operationId := fun row => by split_ifs <;> rfl
  simp only [getManifestByOperation, setState, updateManifests, HashMap.toList_mapEntries,
    find?_map, comp_def, sought]

theorem writeDelta_of_mem (stored : epoch ∈ tables.deltas.keys) (delta : SnapshotDelta) :
    ∃ message, tables.writeDelta epoch delta = .error message := by
  rw [writeDelta]
  cases tables.requireState epoch .building with
  | error message => exact ⟨message, rfl⟩
  | ok _ =>
    by_cases known : epoch ∈ tables.manifests.keys ∧ delta.baseEpoch ∈ tables.manifests.keys
    · exact ⟨_, (dif_pos known).trans (if_pos stored)⟩
    · exact ⟨_, dif_neg known⟩

theorem eq_of_writeDelta {delta : SnapshotDelta} {written : RelationTables}
    (done : tables.writeDelta epoch delta = .ok written) :
    epoch ∈ written.deltas.keys ∧ ∀ operationId, written.getManifestByOperation operationId =
        (tables.getManifestByOperation operationId).map fun row =>
          (row.1, if row.1 = epoch then { row.2 with state := .delta } else row.2) := by
  rw [writeDelta] at done
  obtain ⟨_, _, done⟩ := bind_eq_ok.1 done
  split_ifs at done
  cases done
  refine ⟨?_, fun operationId => getManifestByOperation_setState operationId .delta⟩
  exact AList.mem_keys.1 (AList.mem_insert _ |>.2 (Or.inl rfl))

theorem setState_insertManifest (new : epoch ∉ tables.manifests.keys)
    (state : RelationSnapshotState) :
    (tables.insertManifest epoch manifest).setState epoch state =
      tables.insertManifest epoch { manifest with state := state } := by
  have entries : (tables.insertManifest epoch manifest).manifests.mapEntries
      (fun e manifest => if e = epoch then { manifest with state := state } else manifest) =
      (tables.insertManifest epoch { manifest with state := state }).manifests := by
    apply AList.ext
    rw [entries_insertManifest new]
    rw [HashMap.mapEntries]
    dsimp only
    rw [entries_insertManifest new, map_cons, if_pos rfl]
    congr 1
    refine (map_congr_left fun row mem => ?_).trans (map_id _)
    have other : row.1 ≠ epoch := fun same => new (same ▸ mem_map_of_mem mem)
    simp [other]
  rw [setState, updateManifests]
  simp only [entries]
  rfl

end RelationTables
/-- The stops of a call that has committed its write. -/
def PublicationStop.behindWrite : PublicationStop → Bool
  | .allocated => false
  | .writeFails _ => false
  | .written => true
  | .activationFails _ => true

/-- What a call has made of the epoch of its operation, and the last ids given then. -/
structure PublicationStage where
  state : RelationSnapshotState
  columns : SnapshotColumns
  rows : SnapshotTables.Rows
  fileSequence : Nat
  symbolSequence : Nat

namespace RelationDatabase

section Tables

theorem setRelations_self (database : RelationDatabase) :
    database.setRelations database.index.relations = database := by
  have rows : (database.setRelations database.index.relations).rows = database.rows := by
    funext epoch
    simp only [setRelations, setIndex, cascade]
    split_ifs with stored
    · rfl
    · exact (database.unwritten epoch stored).symm
  exact RelationDatabase.mk.injEq .. ▸ ⟨rfl, rfl, rows, rfl, rfl⟩

theorem cascade_congr {index : GenerationStore} {columns : Int → SnapshotColumns}
    {rows rows' : Int → SnapshotTables.Rows} {fileSequence symbolSequence : Nat}
    (agree : ∀ epoch ∈ index.relations.manifests.keys, rows epoch = rows' epoch) :
    cascade index columns rows fileSequence symbolSequence =
      cascade index columns rows' fileSequence symbolSequence := by
  have same : (cascade index columns rows fileSequence symbolSequence).rows =
      (cascade index columns rows' fileSequence symbolSequence).rows := by
    funext epoch
    simp only [cascade]
    split_ifs with stored
    · exact agree epoch stored
    · rfl
  exact RelationDatabase.mk.injEq .. ▸ ⟨rfl, rfl, same, rfl, rfl⟩

end Tables

section Stages

variable (start : RelationDatabase)

/-- The epoch that a new operation gets. -/
def nextEpoch : Int := start.index.relations.nextEpoch

theorem nextEpoch_new {start : RelationDatabase} :
    start.nextEpoch ∉ start.index.relations.manifests.keys :=
  fun stored => absurd (RelationTables.nextEpoch_gt stored) (lt_irrefl _)

def staged (operationId configFingerprint : String) (now : Int)
    (stage : PublicationStage) : RelationDatabase :=
  cascade
    { start.index with
      relations := start.index.relations.insertManifest start.nextEpoch
        { operationId := operationId
          state := stage.state
          configFingerprint := configFingerprint
          createdAt := now } }
    (Function.update start.columns start.nextEpoch stage.columns)
    (Function.update start.rows start.nextEpoch stage.rows) stage.fileSequence
    stage.symbolSequence

/-- The stage behind the first allocation. -/
def opened : PublicationStage where
  state := .building
  columns := .null
  rows := .empty
  fileSequence := start.fileSequence
  symbolSequence := start.symbolSequence

variable (start : RelationDatabase) (op configFingerprint : String) (now : Int)
  (stage : PublicationStage)

theorem find_staged :
    (start.staged op configFingerprint now stage).index.relations.getManifestByOperation op =
      some (start.nextEpoch, ⟨op, stage.state, configFingerprint, now⟩) :=
  RelationTables.getManifestByOperation_insertManifest nextEpoch_new

theorem stateOf_staged :
    (start.staged op configFingerprint now stage).index.relations.stateOf
      start.nextEpoch = some stage.state := by
  simp [staged, cascade]

theorem stored_staged : start.nextEpoch ∈
    (start.staged op configFingerprint now stage).index.relations.manifests.keys :=
  RelationTables.mem_keys_iff_stateOf.2 ⟨_, start.stateOf_staged _ _ _ _⟩

theorem rows_staged :
    (start.staged op configFingerprint now stage).rows start.nextEpoch = stage.rows := by
  exact (if_pos (start.stored_staged op configFingerprint now stage)).trans (update_self ..)

theorem relations_setState (state : RelationSnapshotState) :
    (start.staged op configFingerprint now stage).index.relations.setState
      start.nextEpoch state = (start.staged op configFingerprint now
        { stage with state := state }).index.relations :=
  RelationTables.setState_insertManifest nextEpoch_new state

theorem setState_staged (state : RelationSnapshotState) :
    let database := start.staged op configFingerprint now stage
    database.setRelations (database.index.relations.setState start.nextEpoch state) =
      start.staged op configFingerprint now { stage with state := state } := by
  dsimp only
  rw [relations_setState, setRelations, setIndex, staged, staged]
  exact cascade_congr fun epoch stored => if_pos stored

theorem setColumns_staged (columns : SnapshotColumns) :
    (start.staged op configFingerprint now stage).setColumns start.nextEpoch columns =
      start.staged op configFingerprint now { stage with columns := columns } := by
  simp only [setColumns, staged, cascade, update_idem]

theorem markFailed_staged (unpublished : stage.state ≠ .active) :
    (start.staged op configFingerprint now stage).markFailed start.nextEpoch =
      start.staged op configFingerprint now { stage with state := .failed } := by
  rw [markFailed, RelationTables.markFailed, stateOf_staged, if_neg (by simpa using unpublished)]
  exact start.setState_staged op configFingerprint now stage .failed

theorem retryFailed_staged (failed : stage.state = .failed) :
    (start.staged op configFingerprint now stage).retryFailed start.nextEpoch =
      .ok (start.staged op configFingerprint now
        { stage with state := .building, columns := .null }) := by
  rw [retryFailed, RelationTables.retryFailed, stateOf_staged, if_pos (by rw [failed])]
  show Except.ok (setColumns (setRelations _ _) _ _) = _
  rw [setState_staged, setColumns_staged]

theorem allocateBuilding_of_unknown
    (unknown : start.index.relations.getManifestByOperation op = none) :
    start.allocateBuilding op configFingerprint now =
      (start.nextEpoch, start.staged op configFingerprint now start.opened) := by
  have noRows : update start.rows start.nextEpoch .empty = start.rows :=
    update_eq_self_iff.2 (start.unwritten _ nextEpoch_new).symm
  rw [allocateBuilding, RelationTables.allocateBuilding, unknown, staged, opened, noRows]
  rfl

theorem allocateBuilding_staged (building : stage.state = .building) (config : String)
    (later : Int) :
    (start.staged op configFingerprint now stage).allocateBuilding op config
      later = (start.nextEpoch, start.staged op configFingerprint now stage) := by
  rw [allocateBuilding, RelationTables.allocateBuilding, find_staged, building]
  show (start.nextEpoch, setRelations _ _) = _
  rw [if_neg (by simp), setRelations_self]

theorem writeSnapshotAndMarkReady_staged (building : stage.state = .building)
    (snapshot : CanonicalRelationSnapshot) (inputFingerprint snapshotFingerprint : String) :
    (start.staged op configFingerprint now stage).writeSnapshotAndMarkReady
      start.nextEpoch snapshot inputFingerprint snapshotFingerprint =
      (SnapshotTables.writeRowsInto stage.rows snapshot stage.fileSequence
        stage.symbolSequence).map fun written =>
          start.staged op configFingerprint now
            { state := .ready
              columns := .ofSnapshot snapshot inputFingerprint snapshotFingerprint
              rows := written.1
              fileSequence := written.2.1
              symbolSequence := written.2.2 } := by
  rw [writeSnapshotAndMarkReady, RelationTables.writeSnapshotAndMarkReady,
    RelationTables.requireState, stateOf_staged, rows_staged, building]
  have sequences : SnapshotTables.writeRowsInto stage.rows snapshot
      (start.staged op configFingerprint now stage).fileSequence
      (start.staged op configFingerprint now stage).symbolSequence =
      SnapshotTables.writeRowsInto stage.rows snapshot stage.fileSequence
        stage.symbolSequence := rfl
  rw [sequences]
  cases written : SnapshotTables.writeRowsInto stage.rows snapshot stage.fileSequence
    stage.symbolSequence with
  | error message => rfl
  | ok result =>
    have state := start.relations_setState op configFingerprint now stage .ready
    show Except.ok (cascade _ _ _ _ _) = Except.ok _
    rw [state, staged, staged, Except.ok.injEq]
    refine (congrArg (fun columns => cascade _ columns _ _ _) ?_).trans
      (cascade_congr fun epoch stored => ?_)
    · exact update_idem ..
    · by_cases same : epoch = start.nextEpoch
      · subst same
        rw [update_self, update_self]
      · rw [update_of_ne same, update_of_ne same]
        refine (if_pos ?_).trans (update_of_ne same ..)
        exact stored

end Stages

section Snapshots

variable [Sha256] [SerdeJson] [InputJson] (start : RelationDatabase) (operationId : String)
  (now : Int) (snapshot : CanonicalRelationSnapshot) (written : SnapshotTables.Rows × Nat × Nat)

/-- A snapshot of a new operation that is valid and fits its tables. -/
structure Writes : Prop where
  unknown : start.index.relations.getManifestByOperation operationId = none
  valid : (do snapshot.validateVersions; SnapshotTables.validateSnapshot snapshot) = .ok ()
  written : SnapshotTables.writeRowsInto .empty snapshot start.fileSequence start.symbolSequence =
    .ok written

def readied : PublicationStage where
  state := .ready
  columns := .ofSnapshot snapshot snapshot.inputFingerprint snapshot.fingerprint
  rows := written.1
  fileSequence := written.2.1
  symbolSequence := written.2.2

/-- What is stored before the first call, and at the stages it can be gone on from. -/
inductive Resumable : RelationDatabase → Prop
  | start : Resumable start
  | opened : Resumable (start.staged operationId snapshot.configFingerprint now start.opened)
  | failed (columns : SnapshotColumns) : Resumable (start.staged operationId
      snapshot.configFingerprint now { start.opened with state := .failed, columns := columns })
  | ready : Resumable
      (start.staged operationId snapshot.configFingerprint now (readied snapshot written))

/-- An epoch that is to be written and has its rows already. -/
inductive Stuck : RelationDatabase → Prop
  | staged (stage : PublicationStage) (unready : stage.state = .building ∨ stage.state = .failed)
      (rows : stage.rows = written.1) :
      Stuck (start.staged operationId snapshot.configFingerprint now stage)

/-- What a stopped call for a snapshot leaves. -/
def stopSnapshot (database : RelationDatabase) (stop : PublicationStop) : RelationDatabase :=
  match database.allocateAndWrite operationId now snapshot (some stop) with
  | (.ok epoch, written) => written.stopWritten epoch stop
  | (.error _, left) => left

variable {start operationId now snapshot written}

theorem exists_writes
    (unknown : start.index.relations.getManifestByOperation operationId = none) {epoch : Int}
    (succeeds : (start.allocateAndWrite operationId now snapshot none).1 = .ok epoch) :
    ∃ written, Writes start operationId snapshot written := by
  rw [allocateAndWrite, unknown] at succeeds
  cases valid : (do snapshot.validateVersions; SnapshotTables.validateSnapshot snapshot) with
  | error message =>
    rw [valid] at succeeds
    cases succeeds
  | ok _ =>
    rw [valid] at succeeds
    dsimp only at succeeds
    rw [allocateThenWrite, allocateBuilding_of_unknown _ _ _ _ unknown] at succeeds
    dsimp only at succeeds
    rw [writeSnapshotAndMarkReady_staged _ _ _ _ _ rfl] at succeeds
    cases done : SnapshotTables.writeRowsInto .empty snapshot start.fileSequence
        start.symbolSequence with
    | error message =>
      simp only [opened, done] at succeeds
      cases succeeds
    | ok written => exact ⟨written, unknown, valid, done⟩

variable (start operationId now snapshot written) in
/-- How a call goes that comes to its allocation. -/
def outcome (stop : Option PublicationStop) : Except String Int × RelationDatabase :=
  match stop with
  | some .allocated =>
    (.error "stopped", start.staged operationId snapshot.configFingerprint now start.opened)
  | some (.writeFails marked) =>
    (.error "write failed", start.staged operationId snapshot.configFingerprint now
      { start.opened with state := if marked then .failed else .building })
  | _ =>
    (.ok start.nextEpoch,
      start.staged operationId snapshot.configFingerprint now (readied snapshot written))

namespace Writes

variable (writes : Writes start operationId snapshot written)

include writes

variable {database : RelationDatabase}

theorem allocateThenWrite_of_opens
    (opens : database.allocateBuilding operationId snapshot.configFingerprint now =
      (start.nextEpoch, start.staged operationId snapshot.configFingerprint now start.opened))
    (stop : Option PublicationStop) :
    database.allocateThenWrite operationId now snapshot stop =
      outcome start operationId now snapshot written stop := by
  have ready : (start.staged operationId snapshot.configFingerprint now
      start.opened).writeSnapshotAndMarkReady start.nextEpoch snapshot snapshot.inputFingerprint
        snapshot.fingerprint =
      .ok (start.staged operationId snapshot.configFingerprint now (readied snapshot written)) := by
    rw [writeSnapshotAndMarkReady_staged _ _ _ _ _ rfl]
    simp only [opened, writes.written]
    rfl
  rw [allocateThenWrite, opens]
  dsimp only
  cases stop with
  | none => rw [ready]; rfl
  | some stop =>
    cases stop with
    | allocated => rfl
    | writeFails marked =>
      rw [markFailed_staged _ _ _ _ _ (by simp [opened])]
      cases marked <;> rfl
    | written => simp only [ready]; rfl
    | activationFails marked => simp only [ready]; rfl

theorem allocateAndWrite_of_resumable
    (resumable : Resumable start operationId now snapshot written database)
    (stop : Option PublicationStop) :
    database.allocateAndWrite operationId now snapshot stop =
        outcome start operationId now snapshot written stop ∨
      database.allocateAndWrite operationId now snapshot stop =
        outcome start operationId now snapshot written none := by
  rw [allocateAndWrite, writes.valid]
  dsimp only
  cases resumable with
  | start =>
    rw [writes.unknown]
    exact Or.inl (writes.allocateThenWrite_of_opens
      (allocateBuilding_of_unknown _ _ _ _ writes.unknown) stop)
  | opened =>
    rw [find_staged]
    exact Or.inl (writes.allocateThenWrite_of_opens
      (allocateBuilding_staged _ _ _ _ _ rfl _ _) stop)
  | failed columns =>
    rw [find_staged]
    dsimp only
    rw [retryFailed_staged _ _ _ _ _ rfl]
    exact Or.inl (writes.allocateThenWrite_of_opens
      (allocateBuilding_staged _ _ _ _ _ rfl _ _) stop)
  | ready =>
    rw [find_staged]
    have columns : (start.staged operationId snapshot.configFingerprint now
        (readied snapshot written)).columns start.nextEpoch =
        (readied snapshot written).columns := update_self ..
    have same := congrArg SnapshotColumns.snapshotFingerprint columns
    exact Or.inr (if_neg (not_not.2 same))

theorem stopWritten_readied (now : Int) (stop : PublicationStop)
    (spared : stop ≠ .activationFails true ∨ snapshot.files = []) :
    Resumable start operationId now snapshot written
      ((start.staged operationId snapshot.configFingerprint now
        (readied snapshot written)).stopWritten start.nextEpoch stop) := by
  rw [stopWritten]
  split_ifs with marked
  · rw [markFailed_staged _ _ _ _ _ (by simp [readied])]
    have none := spared.resolve_left (not_not.2 marked)
    obtain ⟨rows, nextFile, nextSymbol⟩ :=
      SnapshotTables.written_of_no_files writes.written none
    have same : ({ readied snapshot written with state := .failed } : PublicationStage) =
        { start.opened with
          state := .failed
          columns := (readied snapshot written).columns } := by
      simp [readied, opened, rows, nextFile, nextSymbol]
    rw [same]
    exact .failed _
  · exact .ready

theorem resumable_stopSnapshot
    (resumable : Resumable start operationId now snapshot written database)
    (stop : PublicationStop) (spared : stop ≠ .activationFails true ∨ snapshot.files = []) :
    Resumable start operationId now snapshot written
      (stopSnapshot operationId now snapshot database stop) := by
  have left := writes.stopWritten_readied now stop spared
  rw [stopSnapshot]
  rcases writes.allocateAndWrite_of_resumable resumable (some stop) with goes | done
  · rw [goes]
    cases stop with
    | allocated => exact .opened
    | writeFails marked =>
      cases marked with
      | false => exact .opened
      | true => exact .failed .null
    | written => exact left
    | activationFails marked => exact left
  · rw [done]
    exact left

theorem stuck_stopSnapshot (resumable : Resumable start operationId now snapshot written database) :
    Stuck start operationId now snapshot written
      (stopSnapshot operationId now snapshot database (.activationFails true)) := by
  have done : database.allocateAndWrite operationId now snapshot (some (.activationFails true)) =
      outcome start operationId now snapshot written none := by
    rcases writes.allocateAndWrite_of_resumable resumable
      (some (.activationFails true)) with goes | done
    · exact goes
    · exact done
  rw [stopSnapshot, done]
  show Stuck _ _ _ _ _ (markFailed _ _)
  rw [markFailed_staged _ _ _ _ _ (by simp [readied])]
  exact .staged _ (Or.inr rfl) rfl

/-- Nothing gets an epoch through that has the rows of its snapshot before the write. -/
theorem allocateAndWrite_of_stuck (stuck : Stuck start operationId now snapshot written database)
    (nonempty : snapshot.files ≠ []) (stop : Option PublicationStop) :
    ∃ message left, database.allocateAndWrite operationId now snapshot stop =
      (.error message, left) ∧ Stuck start operationId now snapshot written left := by
  have building : ∀ stage : PublicationStage, stage.state = .building → stage.rows = written.1 →
      ∃ message left, (start.staged operationId snapshot.configFingerprint now
        stage).allocateThenWrite operationId now snapshot stop = (.error message, left) ∧
        Stuck start operationId now snapshot written left := by
    intro stage building rows
    obtain ⟨message, refused⟩ := SnapshotTables.refused_of_written writes.written nonempty
      stage.fileSequence stage.symbolSequence
    rw [allocateThenWrite, allocateBuilding_staged _ _ _ _ _ building]
    dsimp only
    have failed := start.markFailed_staged operationId snapshot.configFingerprint now stage
      (by simp [building])
    have unwritten := start.writeSnapshotAndMarkReady_staged operationId
      snapshot.configFingerprint now stage building snapshot snapshot.inputFingerprint
      snapshot.fingerprint
    rw [rows, refused] at unwritten
    rw [unwritten, failed]
    have left : Stuck start operationId now snapshot written (start.staged operationId
        snapshot.configFingerprint now stage) := .staged stage (Or.inl building) rows
    have marked : Stuck start operationId now snapshot written (start.staged operationId
        snapshot.configFingerprint now { stage with state := .failed }) :=
      .staged _ (Or.inr rfl) rows
    cases stop with
    | none => exact ⟨_, _, rfl, marked⟩
    | some stop =>
      cases stop with
      | allocated => exact ⟨_, _, rfl, left⟩
      | writeFails mark =>
        cases mark with
        | false => exact ⟨_, _, rfl, left⟩
        | true => exact ⟨_, _, rfl, marked⟩
      | written => exact ⟨_, _, rfl, marked⟩
      | activationFails mark => exact ⟨_, _, rfl, marked⟩
  rw [allocateAndWrite, writes.valid]
  cases stuck with
  | staged stage unready rows =>
    dsimp only
    rw [find_staged]
    rcases unready with isBuilding | isFailed
    · simp only [isBuilding]
      exact building stage isBuilding rows
    · simp only [isFailed]
      rw [retryFailed_staged _ _ _ _ _ isFailed]
      exact building _ rfl rows

theorem resumable_stops (resumable : Resumable start operationId now snapshot written database)
    (stops : List PublicationStop)
    (spared : snapshot.files = [] ∨ .activationFails true ∉ stops) :
    Resumable start operationId now snapshot written
      (stops.foldl (stopSnapshot operationId now snapshot) database) := by
  refine foldlRecOn stops _
    (motive := Resumable start operationId now snapshot written) resumable ?_
  intro left resumable stop mem
  refine writes.resumable_stopSnapshot resumable stop ?_
  rcases spared with none | unmarked
  · exact Or.inr none
  · exact Or.inl fun same => unmarked (same ▸ mem)

theorem stuck_stops (stuck : Stuck start operationId now snapshot written database)
    (nonempty : snapshot.files ≠ []) (stops : List PublicationStop) :
    Stuck start operationId now snapshot written
      (stops.foldl (stopSnapshot operationId now snapshot) database) := by
  refine foldlRecOn stops _ (motive := Stuck start operationId now snapshot written) stuck ?_
  intro left stuck stop _
  obtain ⟨_, _, refused, stuck⟩ := writes.allocateAndWrite_of_stuck stuck nonempty (some stop)
  rw [stopSnapshot, refused]
  exact stuck

theorem stuck_of_marked (now : Int) (nonempty : snapshot.files ≠ []) {stops : List PublicationStop}
    (marked : .activationFails true ∈ stops) :
    Stuck start operationId now snapshot written
      (stops.foldl (stopSnapshot operationId now snapshot) start) := by
  obtain ⟨before, after, rfl, unmarked⟩ := eq_append_cons_of_mem marked
  rw [foldl_append, foldl_cons]
  have resumable : Resumable start operationId now snapshot written
      (before.foldl (stopSnapshot operationId now snapshot) start) :=
    writes.resumable_stops .start before (Or.inr unmarked)
  exact writes.stuck_stops (writes.stuck_stopSnapshot resumable) nonempty after

end Writes

end Snapshots

section Deltas

variable {V : Type} [RelationIndexView V] {database : RelationDatabase} {op : String}
  {now : Int} {delta : SnapshotDelta} {base : V}

def Spent (database : RelationDatabase) (operationId : String) : Prop :=
  ∃ epoch manifest,
    database.index.relations.getManifestByOperation operationId = some (epoch, manifest) ∧
      epoch ∈ database.index.relations.deltas.keys

variable (now delta base) in
theorem publishDelta_of_spent (spent : Spent database op) (stop : Option PublicationStop) :
    ∃ message, database.publishDelta op now delta base stop = (.error message, database) := by
  have refused : ∃ message, database.allocateAndWriteDelta op now delta =
      .error message := by
    obtain ⟨epoch, manifest, found, mem⟩ := spent
    rw [allocateAndWriteDelta]
    have allocation : (database.allocateBuilding op delta.configFingerprint now).1 =
        epoch ∧ epoch ∈ (database.allocateBuilding op delta.configFingerprint
          now).2.index.relations.deltas.keys := by
      rw [allocateBuilding, RelationTables.allocateBuilding, found]
      dsimp only
      split_ifs <;> exact ⟨rfl, mem⟩
    generalize database.allocateBuilding op delta.configFingerprint now = allocated at *
    obtain ⟨epoch', allocated⟩ := allocated
    obtain ⟨rfl, stored⟩ := allocation
    obtain ⟨message, refused⟩ :=
      RelationTables.writeDelta_of_mem stored delta
    exact ⟨message, by dsimp only; rw [refused]; rfl⟩
  obtain ⟨message, refused⟩ := refused
  unfold publishDelta
  cases database.index.relations.activeRelationEpoch with
  | none => exact ⟨_, rfl⟩
  | some activeEpoch =>
    dsimp only
    split_ifs
    · exact ⟨_, rfl⟩
    · cases validateDeltaScoped base delta with
      | error invalid => exact ⟨_, rfl⟩
      | ok _ =>
        cases stop with
        | none => simp only [refused]; exact ⟨_, rfl⟩
        | some stop => cases stop <;> simp only [refused] <;> exact ⟨_, rfl⟩

theorem spent_of_written (unknown : database.index.relations.getManifestByOperation op = none)
    {epoch : Int} {written : RelationDatabase}
    (done : database.allocateAndWriteDelta op now delta = .ok (epoch, written))
    (stop : PublicationStop) : Spent (written.stopWritten epoch stop) op := by
  have spent : Spent written op := by
    rw [allocateAndWriteDelta, allocateBuilding_of_unknown _ _ _ _ unknown] at done
    obtain ⟨relations, inserts, done⟩ := bind_eq_ok.1 done
    cases done
    obtain ⟨stored, inserted⟩ := RelationTables.eq_of_writeDelta inserts
    have opens := find_staged database op delta.configFingerprint now database.opened
    exact ⟨_, _, (inserted op).trans (congrArg (Option.map _) opens), stored⟩
  obtain ⟨epoch, manifest, found, stored⟩ := spent
  rw [stopWritten]
  split_ifs
  · rw [markFailed, RelationTables.markFailed]
    split_ifs
    · exact ⟨epoch, manifest, found, stored⟩
    · exact ⟨_, _, (RelationTables.getManifestByOperation_setState op .failed).trans
        (congrArg (Option.map _) found), stored⟩
  · exact ⟨epoch, manifest, found, stored⟩

theorem publishDelta_of_unwritten {stop : PublicationStop} (early : stop.behindWrite = false) :
    (database.publishDelta op now delta base (some stop)).2 = database := by
  unfold publishDelta
  cases database.index.relations.activeRelationEpoch with
  | none => rfl
  | some activeEpoch =>
    dsimp only
    split_ifs
    · rfl
    · cases validateDeltaScoped base delta with
      | error invalid => rfl
      | ok _ =>
        cases stop with
        | allocated => rfl
        | writeFails marked => rfl
        | written => cases early
        | activationFails marked => cases early

theorem spent_of_stop
    (unknown : database.index.relations.getManifestByOperation op = none) {epoch : Int}
    (succeeds : (database.publishDelta op now delta base none).1 = .ok epoch)
    {stop : PublicationStop} (late : stop.behindWrite = true) :
    Spent (database.publishDelta op now delta base (some stop)).2 op := by
  unfold publishDelta at succeeds ⊢
  cases active : database.index.relations.activeRelationEpoch with
  | none =>
    rw [active] at succeeds
    cases succeeds
  | some activeEpoch =>
    rw [active] at succeeds
    dsimp only at succeeds ⊢
    split_ifs at succeeds ⊢
    cases valid : validateDeltaScoped base delta with
    | error invalid =>
      rw [valid] at succeeds
      cases succeeds
    | ok _ =>
      rw [valid] at succeeds
      dsimp only at succeeds ⊢
      cases done : database.allocateAndWriteDelta op now delta with
      | error message =>
        rw [done] at succeeds
        cases succeeds
      | ok result =>
        have spent := spent_of_written unknown done stop
        cases stop with
        | allocated => cases late
        | writeFails marked => cases late
        | written => exact spent
        | activationFails marked => exact spent

end Deltas

section Retries

variable [Sha256] [SerdeJson] [InputJson] {V : Type} [RelationIndexView V]
  {start database : RelationDatabase} {op : String} {now : Int}
  {snapshot : CanonicalRelationSnapshot} {written : SnapshotTables.Rows × Nat × Nat}

theorem publish_snapshot_stop (stop : PublicationStop) :
    (database.publish op now (.snapshot (V := V) snapshot) (some stop)).2 =
      stopSnapshot op now snapshot database stop := by
  unfold publish stopSnapshot
  dsimp only
  rcases database.allocateAndWrite op now snapshot (some stop) with ⟨_ | _, left⟩ <;> rfl

theorem publish_compaction_stop {activeEpoch : Int}
    (active : database.index.relations.activeRelationEpoch = some activeEpoch)
    (published : ¬ activeEpoch ≤ 0) (stop : PublicationStop) :
    (database.publish op now (.compaction (V := V) snapshot) (some stop)).2 =
      stopSnapshot op now snapshot database stop := by
  rw [publish, compactProject, active, stopSnapshot]
  dsimp only
  rw [if_neg published]
  rcases database.allocateAndWrite op now snapshot (some stop) with ⟨_ | _, left⟩ <;> rfl

namespace Writes

variable (writes : Writes start op snapshot written)

include writes

theorem reached_stops (now : Int) (stops : List PublicationStop) :
    Resumable start op now snapshot written (stops.foldl (stopSnapshot op now snapshot) start) ∨
      Stuck start op now snapshot written (stops.foldl (stopSnapshot op now snapshot) start) := by
  by_cases spared : snapshot.files = [] ∨ .activationFails true ∉ stops
  · exact Or.inl (writes.resumable_stops .start stops spared)
  · rw [not_or, not_not] at spared
    exact Or.inr (writes.stuck_of_marked now spared.1 spared.2)

theorem activeRelationEpoch_stops (now : Int) (stops : List PublicationStop) :
    (stops.foldl (stopSnapshot op now snapshot)
      start).index.relations.activeRelationEpoch = start.index.relations.activeRelationEpoch := by
  rcases writes.reached_stops now stops with resumable | stuck
  · generalize stops.foldl (stopSnapshot op now snapshot) start = left at resumable
    cases resumable <;> rfl
  · generalize stops.foldl (stopSnapshot op now snapshot) start = left at stuck
    cases stuck
    rfl

theorem allocateAndWrite_stops (now : Int) (stops : List PublicationStop) :
    (snapshot.files = [] ∨ .activationFails true ∉ stops →
      (stops.foldl (stopSnapshot op now snapshot) start).allocateAndWrite op now
        snapshot none = start.allocateAndWrite op now snapshot none) ∧
    (¬ (snapshot.files = [] ∨ .activationFails true ∉ stops) →
      ∃ message left, (stops.foldl (stopSnapshot op now snapshot)
        start).allocateAndWrite op now snapshot none = (.error message, left)) := by
  have goes : ∀ database, Resumable start op now snapshot written database →
      database.allocateAndWrite op now snapshot none =
        outcome start op now snapshot written none := fun database resumable =>
    (writes.allocateAndWrite_of_resumable resumable none).elim id id
  constructor
  · intro spared
    rw [goes _ (writes.resumable_stops .start stops spared), goes start .start]
  · intro spoilt
    rw [not_or, not_not] at spoilt
    obtain ⟨message, left, refused, _⟩ := writes.allocateAndWrite_of_stuck
      (writes.stuck_of_marked now spoilt.1 spoilt.2) spoilt.1 none
    exact ⟨message, left, refused⟩

end Writes

/-- The stops that a later call gets over: none behind the write of a delta, and none that marks a
written snapshot with files as failed. -/
def Spared (publication : Publication V) (stops : List PublicationStop) : Prop :=
  match publication with
  | .snapshot snapshot => snapshot.files = [] ∨ .activationFails true ∉ stops
  | .compaction merged => merged.files = [] ∨ .activationFails true ∉ stops
  | .delta _ _ => ∀ stop ∈ stops, stop.behindWrite = false

section

variable (unknown : start.index.relations.getManifestByOperation op = none)

include unknown

variable {epoch : Int}

theorem retry_snapshot_iff
    (succeeds : (start.publish op now (.snapshot (V := V) snapshot) none).1 = .ok epoch)
    (stops : List PublicationStop) :
    (start.afterStops op now (.snapshot (V := V) snapshot) stops).publish op now
        (.snapshot (V := V) snapshot) none =
      start.publish op now (.snapshot (V := V) snapshot) none ↔
      snapshot.files = [] ∨ .activationFails true ∉ stops := by
  have whole : ∀ database : RelationDatabase,
      database.publish op now (.snapshot (V := V) snapshot) none =
        database.allocateAndWrite op now snapshot none := fun database => by
    unfold publish
    dsimp only
    rcases database.allocateAndWrite op now snapshot none with ⟨_ | _, left⟩ <;> rfl
  have left : start.afterStops op now (.snapshot (V := V) snapshot) stops =
      stops.foldl (stopSnapshot op now snapshot) start := by
    rw [afterStops]
    congr 1
    funext left stop
    exact publish_snapshot_stop stop
  rw [whole] at succeeds
  obtain ⟨written, writes⟩ := exists_writes unknown succeeds
  obtain ⟨spared, spoilt⟩ := writes.allocateAndWrite_stops now stops
  rw [left, whole, whole]
  constructor
  · intro same
    by_contra unspared
    obtain ⟨message, left, refused⟩ := spoilt unspared
    rw [← same, refused] at succeeds
    cases succeeds
  · exact spared

theorem retry_compaction_iff
    (succeeds : (start.publish op now (.compaction (V := V) snapshot) none).1 = .ok epoch)
    (stops : List PublicationStop) :
    (start.afterStops op now (.compaction (V := V) snapshot) stops).publish op
        now (.compaction (V := V) snapshot) none =
      start.publish op now (.compaction (V := V) snapshot) none ↔
      snapshot.files = [] ∨ .activationFails true ∉ stops := by
  cases active : start.index.relations.activeRelationEpoch with
  | none =>
    rw [publish, compactProject, active] at succeeds
    cases succeeds
  | some activeEpoch =>
    have published : ¬ activeEpoch ≤ 0 := by
      intro unpublished
      rw [publish, compactProject, active] at succeeds
      simp only [if_pos unpublished] at succeeds
      cases succeeds
    obtain ⟨written, writes⟩ : ∃ written, Writes start op snapshot written := by
      rw [publish, compactProject, active] at succeeds
      simp only [if_neg published] at succeeds
      cases first : start.allocateAndWrite op now snapshot none with
      | mk result left =>
        cases result with
        | error message =>
          rw [first] at succeeds
          cases succeeds
        | ok epoch => exact exists_writes unknown (congrArg Prod.fst first)
    have kept := writes.activeRelationEpoch_stops now
    have left : start.afterStops op now (.compaction (V := V) snapshot) stops =
        stops.foldl (stopSnapshot op now snapshot) start := by
      rw [afterStops]
      induction stops using reverseRecOn with
      | nil => rfl
      | append_singleton stops stop ih =>
        rw [foldl_append, foldl_append, ih]
        exact publish_compaction_stop ((kept stops).trans active) published stop
    obtain ⟨spared, spoilt⟩ := writes.allocateAndWrite_stops now stops
    rw [left]
    constructor
    · intro same
      by_contra unspared
      obtain ⟨message, left, refused⟩ := spoilt unspared
      rw [← same, publish, compactProject, (kept stops).trans active] at succeeds
      simp only [if_neg published, refused] at succeeds
      cases succeeds
    · intro unmarked
      rw [publish, publish, compactProject, compactProject, (kept stops).trans active, active]
      simp only [if_neg published, spared unmarked]

theorem retry_delta_iff {delta : SnapshotDelta} {base : V}
    (succeeds : (start.publish op now (.delta delta base) none).1 = .ok epoch)
    (stops : List PublicationStop) :
    (start.afterStops op now (.delta delta base) stops).publish op now
        (.delta delta base) none = start.publish op now (.delta delta base) none ↔
      ∀ stop ∈ stops, stop.behindWrite = false := by
  -- the first stop behind the write ends it
  have left : (∀ stop ∈ stops, stop.behindWrite = false) ∧
        start.afterStops op now (.delta delta base) stops = start ∨
      (∃ stop ∈ stops, stop.behindWrite = true) ∧
        Spent (start.afterStops op now (.delta delta base) stops) op := by
    induction stops using reverseRecOn with
    | nil => exact Or.inl ⟨by simp, rfl⟩
    | append_singleton stops stop ih =>
      rw [afterStops, foldl_append, foldl_cons, foldl_nil]
      rcases ih with ⟨early, same⟩ | ⟨⟨first, mem, late⟩, spent⟩
      · rw [afterStops] at same
        rw [same]
        cases behind : stop.behindWrite with
        | false =>
          refine Or.inl ⟨fun other mem => ?_, publishDelta_of_unwritten behind⟩
          rcases mem_append.1 mem with earlier | last
          · exact early other earlier
          · rw [mem_singleton.1 last, behind]
        | true => exact Or.inr ⟨⟨stop, by simp, behind⟩, spent_of_stop unknown succeeds behind⟩
      · obtain ⟨_, refused⟩ := publishDelta_of_spent now delta base spent (some stop)
        refine Or.inr ⟨⟨first, mem_append_left _ mem, late⟩, ?_⟩
        rw [afterStops] at refused spent
        show Spent (publishDelta _ _ _ _ _ _).2 op
        rw [refused]
        exact spent
  rcases left with ⟨early, same⟩ | ⟨⟨stop, mem, late⟩, spent⟩
  · rw [same]
    exact iff_of_true rfl early
  · refine iff_of_false (fun same => ?_) fun early => ?_
    · obtain ⟨_, refused⟩ := publishDelta_of_spent now delta base spent none
      rw [← same, publish, refused] at succeeds
      cases succeeds
    · rw [early stop mem] at late
      cases late

end

/-- After any stopped calls of a new operation, its publication succeeds as it would have at first
exactly when no delta was written before and no written snapshot with files was marked as failed. -/
theorem retries_iff (start : RelationDatabase) (operationId : String) (now : Int)
    (publication : Publication V)
    (unknown : start.index.relations.getManifestByOperation operationId = none) {epoch : Int}
    (succeeds : (start.publish operationId now publication none).1 = .ok epoch)
    (stops : List PublicationStop) :
    (start.afterStops operationId now publication stops).publish operationId now publication
        none = start.publish operationId now publication none ↔
      Spared publication stops := by
  cases publication with
  | snapshot snapshot => exact retry_snapshot_iff unknown succeeds stops
  | compaction merged => exact retry_compaction_iff unknown succeeds stops
  | delta delta base => exact retry_delta_iff unknown succeeds stops

end Retries

section Samples

attribute [local instance] SnapshotTables.blankDigest SnapshotTables.blankJson
  SnapshotTables.blankInputs

/-- A project with nothing stored. -/
def empty : RelationDatabase :=
  cascade .empty (fun _ => .null) (fun _ => .empty) 0 0

/-- The first snapshot of a project. -/
def library : Publication RelationIndex := .snapshot (SnapshotTables.libSnapshot 1)

/-- A project with an active epoch. -/
def indexed : RelationDatabase :=
  ((empty.publish "index" 0 library none).2.activateOrMark "index" 0 1).2

/-- A change of it. -/
def update : Publication RelationIndex :=
  .delta { epoch := 2, baseEpoch := 1, configFingerprint := "" } RelationIndex.new

/-- The stopped calls leave a written snapshot behind. -/
theorem retries_library :
    let stopped := empty.afterStops "index" 0 library [.allocated, .written]
    (stopped.index.relations.getManifestByOperation "index").isSome ∧
      (stopped.publish "index" 0 library none = empty.publish "index" 0 library none ↔
        Spared library [.allocated, .written]) := by
  have succeeds : (empty.publish "index" 0 library none).1 = .ok 1 := by decide +kernel
  exact ⟨by decide +kernel,
    retries_iff empty "index" 0 library (by decide +kernel) succeeds [.allocated, .written]⟩

/-- Both publications succeed at first. The snapshot does not once its activation failed, and the
delta does not once its call stopped before the activation. -/
theorem retries_refused :
    (empty.publish "index" 0 library none).1 = .ok 1 ∧
    ((empty.afterStops "index" 0 library [.activationFails true]).publish "index" 0 library
      none).1 = .error "UNIQUE constraint failed: relation_snapshot_files" ∧
    (indexed.publish "update" 0 update none).1 = .ok 2 ∧
    ((indexed.afterStops "update" 0 update [.written]).publish "update" 0 update none).1 =
      .error "epoch 2 is delta, expected building" := by
  decide +kernel

end Samples

end RelationDatabase

end ContextEngine

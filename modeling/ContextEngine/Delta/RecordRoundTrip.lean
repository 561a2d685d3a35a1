/- digest: What a replayed delta does to the key lists, rows and file graph, and exactly when
   replaying a full delta reproduces the file records of the new index. -/

import ContextEngine.Delta.EntityReplay
import ContextEngine.Delta.EntityRoundTrip
import ContextEngine.Lib.ListDiff

set_option autoImplicit false

namespace ContextEngine

open RelationIndex List RelationIndexView

section Frames

variable [Sha256]

theorem frame_applyRenamedEntities {β : Type} (field : RelationIndex → β)
    (renames : ∀ index renamed, field (applyRenamedEntity index renamed) = field index)
    (rebuilding : ∀ index : RelationIndex, field index.rebuildReverseCalleeIndex = field index)
    (index : RelationIndex) (renamed : List RenamedEntity) :
    field (applyRenamedEntities index renamed) = field index := by
  unfold applyRenamedEntities
  split
  · rfl
  · exact (rebuilding _).trans (foldl_frame field applyRenamedEntity renames renamed index)

variable (index : RelationIndex) (delta : SnapshotDelta)

def replayLosses : RelationIndex :=
  applyRenamedEntities
    (applyRemovedEntities
      (applyAddedFiles (applyRemovedFiles index delta.removedFiles) delta.addedFiles)
      delta.removedEntities)
    delta.renamedEntities

theorem frame_replayLosses {β : Type} (field : RelationIndex → β)
    (removing : ∀ index id, field (applyRemovedEntity index id) = field index)
    (renames : ∀ index renamed, field (applyRenamedEntity index renamed) = field index)
    (rebuilding : ∀ index : RelationIndex, field index.rebuildReverseCalleeIndex = field index)
    (index : RelationIndex) (delta : SnapshotDelta) :
    field (replayLosses index delta) =
      field (applyAddedFiles (applyRemovedFiles index delta.removedFiles) delta.addedFiles) :=
  (frame_applyRenamedEntities field renames rebuilding _ _).trans
    (foldl_frame field applyRemovedEntity removing _ _)

def replayEdges : RelationIndex :=
  applyFileRelationDiffs
    (applyAddedRelations
      (applyRemovedRelations (applyAddedEntities (replayLosses index delta) delta.addedEntities)
        delta.removedRelations)
      delta.addedRelations)
    delta.fileRelationDiffs

theorem frame_replayEdges {β : Type} (field : RelationIndex → β)
    (removing : ∀ index id, field (applyRemovedEntity index id) = field index)
    (renames : ∀ index renamed, field (applyRenamedEntity index renamed) = field index)
    (rebuilding : ∀ index : RelationIndex, field index.rebuildReverseCalleeIndex = field index)
    (adding : ∀ index added, field (applyAddedEntity index added) = field index)
    (dropping : ∀ index relation, field (applyRemovedRelation index relation) = field index)
    (filing : ∀ index relation, field (addResolvedRelation index relation) = field index)
    (patching : ∀ index diff, field (applyFileRelationDiff index diff) = field index)
    (index : RelationIndex) (delta : SnapshotDelta) :
    field (replayEdges index delta) =
      field (applyAddedFiles (applyRemovedFiles index delta.removedFiles) delta.addedFiles) := by
  let losses := replayLosses index delta
  let entities := applyAddedEntities losses delta.addedEntities
  let removed := applyRemovedRelations entities delta.removedRelations
  calc field (replayEdges index delta)
      = field (applyAddedRelations removed delta.addedRelations) :=
        foldl_frame field applyFileRelationDiff patching _ _
    _ = field removed := foldl_frame field addResolvedRelation filing _ _
    _ = field entities := foldl_frame field applyRemovedRelation dropping _ _
    _ = field losses := foldl_frame field applyAddedEntity adding _ _
    _ = _ := frame_replayLosses field removing renames rebuilding index delta

theorem isSome_fileRecords_applyDelta
    (path : String) :
    ((applyDelta index delta).fileRecords.lookup path).isSome =
      ((applyAddedFiles (applyRemovedFiles index delta.removedFiles)
        delta.addedFiles).fileRecords.lookup path).isSome := by
  let present (index : RelationIndex) : Bool := (index.fileRecords.lookup path).isSome
  have patched : ∀ (records : HashMap String FileRecord) (touched : String)
      (patch : FileRecord → FileRecord),
      ((records.alter touched fun entry => entry.map patch).lookup path).isSome =
        (records.lookup path).isSome := by
    intro records touched patch
    rw [HashMap.lookup_alter]
    split_ifs with same
    · rw [same, Option.isSome_map]
    · rfl
  let edges := replayEdges index delta
  calc present (applyDelta index delta)
      = present (applyExportDiffs (applyImportDiffs edges delta.importDiffs) delta.exportDiffs) :=
        rfl
    _ = present (applyImportDiffs edges delta.importDiffs) :=
        foldl_frame present applyExportDiff (fun _ _ => patched _ _ _) _ _
    _ = present edges := foldl_frame present applyImportDiff (fun _ _ => patched _ _ _) _ _
    _ = _ :=
        frame_replayEdges present (fun _ _ => rfl) (fun _ _ => rfl) (fun _ => rfl)
          (fun _ _ => rfl) (fun _ _ => rfl) (fun _ _ => rfl) (fun _ _ => rfl) _ _

end Frames

section KeyLists

variable [Sha256] (index : RelationIndex) (delta : SnapshotDelta)

def placedKeys : RelationIndex → List AddedEntity → List SymbolKey
  | _, [] => []
  | index, added :: rest =>
    match added.registration index with
    | .placed key => key :: placedKeys (applyAddedEntity index added) rest
    | _ => placedKeys (applyAddedEntity index added) rest

theorem bucket_fileSymbolKeys_applyAddedEntities (added : List AddedEntity) (path : String) :
    (applyAddedEntities index added).fileSymbolKeys.bucket path =
      index.fileSymbolKeys.bucket path ++
        (placedKeys index added).filter fun key => key.filePath = path := by
  induction added generalizing index with
  | nil => simp [applyAddedEntities, placedKeys]
  | cons a l ih =>
    change (applyAddedEntities (applyAddedEntity index a) l).fileSymbolKeys.bucket path = _
    rw [ih, fileSymbolKeys_applyAddedEntity, placedKeys]
    cases a.registration index with
    | kept => rfl
    | conflict _ _ => rfl
    | placed key =>
      simp only [HashMap.bucket_bucketPush]
      by_cases own : key.filePath = path
      · rw [if_pos own.symm, List.filter_cons_of_pos (by simpa using own), own,
          List.append_assoc]
        rfl
      · rw [if_neg (Ne.symm own), List.filter_cons_of_neg (by simpa using own)]

def KeyKept (path : String) (key : SymbolKey) : Prop :=
  path ∉ delta.removedFiles ∧
    ¬∃ id ∈ delta.removedEntities,
      index.entityToSymbolKey.lookup id = some key ∧ key.filePath = path

omit [Sha256] in
instance (path : String) (key : SymbolKey) : Decidable (KeyKept index delta path key) :=
  inferInstanceAs (Decidable (_ ∧ _))

theorem bucket_fileSymbolKeys_applyDelta (path : String) :
    (applyDelta index delta).fileSymbolKeys.bucket path =
      (index.fileSymbolKeys.bucket path).filter (fun key => KeyKept index delta path key) ++
        (placedKeys (replayLosses index delta) delta.addedEntities).filter
          fun key => key.filePath = path := by
  have tables := congrArg EntityTables.fileSymbolKeys (entityTables_applyDelta index delta)
  change (applyDelta index delta).fileSymbolKeys = (applyAddedEntities
    (replayLosses index delta) delta.addedEntities).fileSymbolKeys at tables
  have keyed : (applyAddedFiles (applyRemovedFiles index delta.removedFiles)
      delta.addedFiles).entityToSymbolKey = index.entityToSymbolKey :=
    frame_applyFiles index entityToSymbolKey (fun _ _ => rfl) (fun _ _ => rfl) _ _
  have listed : (applyAddedFiles (applyRemovedFiles index delta.removedFiles)
      delta.addedFiles).fileSymbolKeys =
        (applyRemovedFiles index delta.removedFiles).fileSymbolKeys :=
    foldl_frame fileSymbolKeys applyAddedFile (fun _ _ => rfl) _ _
  have losses : (replayLosses index delta).fileSymbolKeys.bucket path =
      (index.fileSymbolKeys.bucket path).filter fun key => KeyKept index delta path key := by
    unfold replayLosses
    rw [frame_applyRenamedEntities fileSymbolKeys (fun _ _ => rfl) (fun _ => rfl),
      bucket_fileSymbolKeys_applyRemovedEntities, keyed, listed,
      bucket_fileSymbolKeys_applyRemovedFiles]
    split_ifs with gone
    · refine (List.filter_eq_nil_iff.2 fun key _ kept => ?_).symm
      exact (of_decide_eq_true kept).1 gone
    · exact List.filter_congr fun key _ => decide_eq_decide.2 (and_iff_right gone).symm
  rw [tables, bucket_fileSymbolKeys_applyAddedEntities, losses]

end KeyLists

section Rows

variable [Sha256] (index : RelationIndex) (delta : SnapshotDelta)

/-- A delta keeps a row unless it removes the file, or the row is the first one of a stored
member of the file that it removes. -/
def RowKept (path : String) (item : Nat ×ₗ EntityId) : Prop :=
  path ∉ delta.removedFiles ∧
    ¬((ofLex item).2 ∈ delta.removedEntities ∧
      (index.functionIndex.lookup (ofLex item).2).isSome ∧
      index.entityFileIndex.lookup (ofLex item).2 = some path ∧
      (rowsAt index.fileEntitiesByStart path).find?
        (fun other => (ofLex other).2 = (ofLex item).2) = some item)

def AddsRowlessNumbers : Prop :=
  (addedIds delta.addedEntities).Nodup ∧
    ∀ a ∈ delta.addedEntities, ∀ path, ∀ item ∈ rowsAt index.fileEntitiesByStart path,
      (ofLex item).2 ≠ a.entity.id

private theorem mem_rowsAt_replayLosses {path : String} {item : Nat ×ₗ EntityId} :
    item ∈ rowsAt (replayLosses index delta).fileEntitiesByStart path ↔
      item ∈ rowsAt index.fileEntitiesByStart path ∧ RowKept index delta path item := by
  have stored : (applyAddedFiles (applyRemovedFiles index delta.removedFiles)
      delta.addedFiles).functionIndex = index.functionIndex :=
    frame_applyFiles index functionIndex (fun _ _ => rfl) (fun _ _ => rfl) _ _
  have filed : (applyAddedFiles (applyRemovedFiles index delta.removedFiles)
      delta.addedFiles).entityFileIndex = index.entityFileIndex :=
    frame_applyFiles index entityFileIndex (fun _ _ => rfl) (fun _ _ => rfl) _ _
  have rows : (applyAddedFiles (applyRemovedFiles index delta.removedFiles)
      delta.addedFiles).fileEntitiesByStart =
        (applyRemovedFiles index delta.removedFiles).fileEntitiesByStart :=
    foldl_frame fileEntitiesByStart applyAddedFile (fun _ _ => rfl) _ _
  unfold replayLosses
  rw [frame_applyRenamedEntities fileEntitiesByStart (fun _ _ => rfl) (fun _ => rfl),
    mem_rowsAt_applyRemovedEntities, stored, filed, rows, rowsAt_applyRemovedFiles]
  unfold RowKept
  split_ifs with gone
  · exact iff_of_false (fun both => absurd both.1 List.not_mem_nil) fun both => both.2.1 gone
  · exact and_congr_right fun _ => (and_iff_right gone).symm

theorem mem_rowsAt_applyDelta {index : RelationIndex} {delta : SnapshotDelta}
    (rowless : AddsRowlessNumbers index delta) {path : String} {item : Nat ×ₗ EntityId} :
    item ∈ rowsAt (applyDelta index delta).fileEntitiesByStart path ↔
      (item ∈ rowsAt index.fileEntitiesByStart path ∧ RowKept index delta path item) ∨
        ∃ a ∈ delta.addedEntities, a.filePath = path ∧
          item = toLex (asU32 a.entity.span.startPosition.row, a.entity.id) := by
  have tables := congrArg EntityTables.fileEntitiesByStart (entityTables_applyDelta index delta)
  change (applyDelta index delta).fileEntitiesByStart = (applyAddedEntities
    (replayLosses index delta) delta.addedEntities).fileEntitiesByStart at tables
  have fresh : ∀ a ∈ delta.addedEntities, ∀ path,
      ∀ item ∈ rowsAt (replayLosses index delta).fileEntitiesByStart path,
        (ofLex item).2 ≠ a.entity.id := fun a mem path item listed =>
    rowless.2 a mem path item ((mem_rowsAt_replayLosses index delta).1 listed).1
  rw [tables, mem_rowsAt_applyAddedEntities _ _ rowless.1 fresh, mem_rowsAt_replayLosses]

end Rows

section Files

variable (index : RelationIndex)

theorem lookup_fileRecords_applyRemovedFiles (removed : List String) (path : String) :
    (applyRemovedFiles index removed).fileRecords.lookup path =
      if path ∈ removed then none else index.fileRecords.lookup path := by
  have records : (applyRemovedFiles index removed).fileRecords =
      index.fileRecords.eraseAll removed := by
    induction removed generalizing index with
    | nil => rfl
    | cons first removed ih => exact ih (applyRemovedFile index first)
  rw [records, HashMap.lookup_eraseAll]

theorem lookup_fileRecords_applyAddedFile (info : FileInfo) (path : String) :
    (applyAddedFile index info).fileRecords.lookup path = if path = info.path then
        some { (index.fileRecords.lookup info.path).getD defaultFileRecord with info := info }
      else index.fileRecords.lookup path :=
  HashMap.lookup_alter _ _ _ _

variable {added : List FileInfo}

theorem of_lookup_applyAddedFiles {path : String} {record : FileRecord}
    (found : (applyAddedFiles index added).fileRecords.lookup path = some record) :
    index.fileRecords.lookup path = some record ∨ record.info.path = path := by
  induction added generalizing index with
  | nil => exact Or.inl found
  | cons info added ih =>
    rcases ih (applyAddedFile index info) found with before | named
    · rw [lookup_fileRecords_applyAddedFile] at before
      split_ifs at before with here
      · cases before
        exact Or.inr here.symm
      · exact Or.inl before
    · exact Or.inr named

theorem isSome_lookup_applyAddedFiles {path : String} :
    ((applyAddedFiles index added).fileRecords.lookup path).isSome ↔
      (index.fileRecords.lookup path).isSome ∨ ∃ info ∈ added, info.path = path := by
  induction added generalizing index with
  | nil => simp [applyAddedFiles]
  | cons info added ih =>
    refine (ih (applyAddedFile index info)).trans ?_
    rw [lookup_fileRecords_applyAddedFile]
    split_ifs with here
    · simp [here]
    · simp [Ne.symm here]

theorem lookup_applyAddedFiles_of_notMem {path : String}
    (none : ∀ info ∈ added, info.path ≠ path) :
    (applyAddedFiles index added).fileRecords.lookup path = index.fileRecords.lookup path := by
  induction added generalizing index with
  | nil => rfl
  | cons info added ih =>
    have rest := ih (applyAddedFile index info) fun other mem =>
      none other (mem_cons_of_mem info mem)
    refine rest.trans ?_
    rw [lookup_fileRecords_applyAddedFile, if_neg fun here => none info mem_cons_self here.symm]

theorem lookup_applyAddedFiles_of_mem {info : FileInfo}
    (mem : info ∈ added) (only : ∀ other ∈ added, other.path = info.path → other = info) :
    (applyAddedFiles index added).fileRecords.lookup info.path =
      some { (index.fileRecords.lookup info.path).getD defaultFileRecord with info := info } := by
  induction added generalizing index with
  | nil => cases mem
  | cons first added ih =>
    change (applyAddedFiles (applyAddedFile index first) added).fileRecords.lookup _ = _
    have rest : ∀ other ∈ added, other.path = info.path → other = info := fun other otherMem =>
      only other (mem_cons_of_mem first otherMem)
    by_cases later : info ∈ added
    · rw [ih (applyAddedFile index first) later rest, lookup_fileRecords_applyAddedFile]
      split_ifs with here
      · rw [Option.getD_some, here]
      · rfl
    · obtain rfl : info = first := (mem_cons.1 mem).resolve_right later
      rw [lookup_applyAddedFiles_of_notMem, lookup_fileRecords_applyAddedFile, if_pos rfl]
      intro other otherMem same
      exact later (rest other otherMem same ▸ otherMem)

end Files

section Rows

theorem lookup_fileRecords_foldl {D : Type} {step : RelationIndex → D → RelationIndex}
    {patch : String → FileRecord → FileRecord} {keys : HashMap SymbolKey EntityId}
    {row : String → D} {keep : D → Bool}
    (patches : ∀ index path, index.symbolKeyToEntity = keys → (step index (row path)).fileRecords =
          index.fileRecords.alter path (Option.map (patch path)) ∧
        (step index (row path)).symbolKeyToEntity = keys)
    (idle : ∀ path record, keep (row path) = false → patch path record = record)
    {paths : List String} (once : paths.Nodup) {index : RelationIndex}
    (start : index.symbolKeyToEntity = keys) (path : String) :
    (((paths.map row).filter keep).foldl step index).fileRecords.lookup path =
      if path ∈ paths then (index.fileRecords.lookup path).map (patch path)
      else index.fileRecords.lookup path := by
  induction paths generalizing index with
  | nil => rfl
  | cons first paths ih =>
    obtain ⟨absent, once⟩ := nodup_cons.1 once
    cases kept : keep (row first) with
    | false =>
      rw [map_cons, filter_cons_of_neg (by simp [kept]), ih once start]
      by_cases here : path = first
      · subst here
        rw [if_neg absent, if_pos mem_cons_self]
        cases index.fileRecords.lookup path with
        | none => rfl
        | some record => rw [Option.map_some, idle path record kept]
      · simp [mem_cons, here]
    | true =>
      obtain ⟨records, symbols⟩ := patches index first start
      rw [map_cons, filter_cons_of_pos kept, foldl_cons, ih once symbols,
        records, HashMap.lookup_alter]
      by_cases here : path = first
      · subst here
        rw [if_neg absent, if_pos rfl, if_pos mem_cons_self]
      · simp [mem_cons, here]

end Rows

section Replay

def importsAt (index : RelationIndex) (path : String) : List StandardizedImport :=
  ((index.fileRecords.lookup path).map fun record => record.imports.standardizedImports).getD []

def exportsAt (index : RelationIndex) (path : String) : List ExportInfo :=
  ((index.fileRecords.lookup path).map FileRecord.exports).getD []

variable [Sha256] (new old : RelationIndex)

def exportKey (index : RelationIndex) (path : String) (item : ExportInfo) : SymbolKey :=
  (canonicalExport (symbolKeyOf index) path item).symbol

/-- The keys at the time when the import and export steps begin, which only read them. -/
def keysReplayed : HashMap SymbolKey EntityId :=
  (replayEntities old.detachedClone (computeDelta new old 0 0 "" none)).symbolKeyToEntity

variable (path : String)

/-- The names that the delta drops from the exports of a file: those of the keys of the exports
whose own name the new index does not export. -/
def droppedNames (exports : List ExportInfo) : List String :=
  ((exportsAt old path).filter fun item =>
    decide (item.functionName ∉ exports.map ExportInfo.functionName)).map fun item =>
      (exportKey old path item).scopedName

/-- The exports are the old ones whose name is not dropped, in the old order, followed by exports of
names that are new, each registered under its own name for its own entity. -/
def ExportsReplay (exports : List ExportInfo) : Prop :=
  ∃ fresh, exports = ((exportsAt old path).filter fun item =>
      decide (item.functionName ∉ droppedNames old path exports)) ++ fresh ∧
    ∀ item ∈ fresh, item.functionName ∉ (exportsAt old path).map ExportInfo.functionName ∧
      (exportKey new path item).scopedName = item.functionName ∧
      (keysReplayed new old).lookup (exportKey new path item) = some item.functionId

/-- What a record of the new index must be like for the delta to bring it about. -/
structure RecordReplays (path : String) (record : FileRecord) : Prop where
  info : match old.fileRecords.lookup path with
    | some before => before.info = record.info
    | none => record.info.path = path
  table : ((old.fileRecords.lookup path).getD defaultFileRecord).imports.fileId =
    record.imports.fileId
  imports : ListDiff.Extends (importsAt old path) record.imports.standardizedImports
  exports : ExportsReplay new old path record.exports

variable {new old}

/-- The paths that a diff of records goes over. -/
def recordPaths (new old : RelationIndex) : List String :=
  (old.fileRecords.keys ++ new.fileRecords.keys).dedup

omit [Sha256] in
theorem mem_recordPaths {path : String} :
    path ∈ recordPaths new old ↔ (old.fileRecords.lookup path).isSome ∨
      (new.fileRecords.lookup path).isSome := by
  rw [recordPaths, mem_dedup, mem_append, ← AList.mem_keys, ← AList.mem_keys,
    ← AList.lookup_isSome, ← AList.lookup_isSome]

def importRow (new old : RelationIndex) (path : String) : ImportDiff where
  filePath := path
  removedImports := missingFrom (importsAt old path) (importsAt new path)
  addedImports := missingFrom (importsAt new path) (importsAt old path)

def exportRow (new old : RelationIndex) (path : String) : ExportDiff where
  filePath := path
  removedExports :=
    ((exportsAt old path).filter fun item =>
      item.functionName ∉ (exportsAt new path).map ExportInfo.functionName).map
        (canonicalExport (symbolKeyOf old) path)
  addedExports :=
    ((exportsAt new path).filter fun item =>
      item.functionName ∉ (exportsAt old path).map ExportInfo.functionName).map
        (canonicalExport new.entityToSymbolKey.lookup path)

omit [Sha256] in
theorem map_fst_forEach {A : Type} (field : FileRecord → A) :
    (old.fileRecords.toList.map fun entry => (entry.1, field entry.2)).map Prod.fst =
      old.fileRecords.keys := by
  rw [← HashMap.map_fst_toList, map_map]
  rfl

omit [Sha256] in
theorem computeImportDiff_none :
    computeImportDiff new old none = ((recordPaths new old).map (importRow new old)).filter
      fun diff => !diff.removedImports.isEmpty || !diff.addedImports.isEmpty := by
  unfold computeImportDiff recordPaths
  simp only [scopeContains, filter_true]
  rw [show (forEachImport old).map Prod.fst = old.fileRecords.keys from map_fst_forEach _]
  congr 2
  funext path
  have listed : ((importsOf old path).map ImportTable.standardizedImports).getD [] =
      importsAt old path := by
    unfold importsAt
    exact congrArg (fun l => Option.getD l []) (Option.map_map _ _ _)
  rw [listed]
  rfl

theorem computeExportDiff_none :
    computeExportDiff new old none = ((recordPaths new old).map (exportRow new old)).filter
      fun diff => !diff.removedExports.isEmpty || !diff.addedExports.isEmpty := by
  unfold computeExportDiff recordPaths
  simp only [scopeContains, filter_true]
  rw [show (forEachExport old).map Prod.fst = old.fileRecords.keys from map_fst_forEach _]
  rfl

omit [Sha256] in
theorem patchImports_of_empty {imports : List StandardizedImport} {diff : ImportDiff}
    (idle : (!diff.removedImports.isEmpty || !diff.addedImports.isEmpty) = false) :
    patchImports imports diff = imports := by
  obtain ⟨removed, added⟩ := (Bool.or_eq_false_iff).1 idle
  rw [Bool.not_eq_false', List.isEmpty_iff] at removed added
  unfold patchImports
  rw [removed, added, List.foldl_nil]
  exact filter_eq_self.2 fun item _ => by simp

omit [Sha256] in
theorem patchExports_of_empty {entityOf : SymbolKey → Option EntityId} {exports : List ExportInfo}
    {diff : ExportDiff}
    (idle : (!diff.removedExports.isEmpty || !diff.addedExports.isEmpty) = false) :
    patchExports entityOf exports diff = exports := by
  obtain ⟨removed, added⟩ := (Bool.or_eq_false_iff).1 idle
  rw [Bool.not_eq_false', List.isEmpty_iff] at removed added
  unfold patchExports keptExports freshExports
  rw [removed, added, List.filter_nil, List.filterMap_nil, List.append_nil]
  exact filter_eq_self.2 fun item _ => by simp

def importRecord (new old : RelationIndex) (path : String) (record : FileRecord) : FileRecord :=
  { record with
    imports :=
      { record.imports with
        standardizedImports :=
          patchImports record.imports.standardizedImports (importRow new old path) } }

def exportRecord (new old : RelationIndex) (keys : HashMap SymbolKey EntityId) (path : String)
    (record : FileRecord) : FileRecord :=
  { record with exports := patchExports keys.lookup record.exports (exportRow new old path) }

omit [Sha256] in
theorem lookup_applyImportDiffs (index : RelationIndex) (path : String) :
    (applyImportDiffs index (computeImportDiff new old none)).fileRecords.lookup path =
      if path ∈ recordPaths new old then
        (index.fileRecords.lookup path).map (importRecord new old path)
      else index.fileRecords.lookup path := by
  rw [computeImportDiff_none]
  refine lookup_fileRecords_foldl (fun _ _ symbols => ⟨rfl, symbols⟩) (fun path record idle => ?_)
    (nodup_dedup _) rfl path
  unfold importRecord
  rw [patchImports_of_empty idle]

theorem lookup_applyExportDiffs (index : RelationIndex) (path : String) :
    (applyExportDiffs index (computeExportDiff new old none)).fileRecords.lookup path =
      if path ∈ recordPaths new old then
        (index.fileRecords.lookup path).map (exportRecord new old index.symbolKeyToEntity path)
      else index.fileRecords.lookup path := by
  rw [computeExportDiff_none]
  refine lookup_fileRecords_foldl (fun next row symbols => ⟨?_, symbols⟩)
    (fun path record idle => ?_) (nodup_dedup _) rfl path
  · unfold applyExportDiff exportRecord
    rw [symbols]
    rfl
  · unfold exportRecord
    rw [patchExports_of_empty idle]

variable (new old) (epoch baseEpoch : Int) (config : String)

theorem computeDelta_tables :
    (computeDelta new old epoch baseEpoch config none).importDiffs =
        computeImportDiff new old none ∧
      (computeDelta new old epoch baseEpoch config none).exportDiffs =
        computeExportDiff new old none := by
  rw [computeDelta_eq]
  exact ⟨rfl, rfl⟩

theorem symbolKeyToEntity_replayEdges (index : RelationIndex) (delta : SnapshotDelta) :
    (replayEdges index delta).symbolKeyToEntity =
      (replayEntities index delta).symbolKeyToEntity := by
  let entities := replayEntities index delta
  let removed := applyRemovedRelations entities delta.removedRelations
  calc (replayEdges index delta).symbolKeyToEntity
      = (applyAddedRelations removed delta.addedRelations).symbolKeyToEntity :=
        foldl_frame symbolKeyToEntity applyFileRelationDiff (fun _ _ => rfl) _ _
    _ = removed.symbolKeyToEntity :=
        foldl_frame symbolKeyToEntity addResolvedRelation (fun _ _ => rfl) _ _
    _ = entities.symbolKeyToEntity :=
        foldl_frame symbolKeyToEntity applyRemovedRelation (fun _ _ => rfl) _ _

theorem keysReplayed_eq :
    (replayEntities old.detachedClone
      (computeDelta new old epoch baseEpoch config none)).symbolKeyToEntity =
        keysReplayed new old := by
  unfold keysReplayed
  rw [computeDelta_eq, computeDelta_eq]
  rfl

theorem lookup_fileRecords_replayed :
    (replayed new old epoch baseEpoch config none).fileRecords.lookup path =
      if path ∈ recordPaths new old then
        ((filesReplayed new old epoch baseEpoch config none).fileRecords.lookup path).map
          fun record => exportRecord new old (keysReplayed new old) path
            (importRecord new old path record)
      else (filesReplayed new old epoch baseEpoch config none).fileRecords.lookup path := by
  obtain ⟨imports, exports⟩ := computeDelta_tables new old epoch baseEpoch config
  let delta := computeDelta new old epoch baseEpoch config none
  let edges := replayEdges old.detachedClone delta
  have records : edges.fileRecords =
      (filesReplayed new old epoch baseEpoch config none).fileRecords :=
    frame_replayEdges fileRecords (fun _ _ => rfl) (fun _ _ => rfl) (fun _ => rfl) (fun _ _ => rfl)
      (fun _ _ => rfl) (fun _ _ => rfl) (fun _ _ => rfl) _ _
  have symbols : (applyImportDiffs edges (computeImportDiff new old none)).symbolKeyToEntity =
      keysReplayed new old :=
    calc (applyImportDiffs edges (computeImportDiff new old none)).symbolKeyToEntity
        = edges.symbolKeyToEntity :=
          foldl_frame symbolKeyToEntity applyImportDiff (fun _ _ => rfl) _ _
      _ = (replayEntities old.detachedClone delta).symbolKeyToEntity :=
          symbolKeyToEntity_replayEdges _ _
      _ = keysReplayed new old := keysReplayed_eq new old epoch baseEpoch config
  have steps : (replayed new old epoch baseEpoch config none).fileRecords =
      (applyExportDiffs (applyImportDiffs edges (computeImportDiff new old none))
        (computeExportDiff new old none)).fileRecords := by
    rw [← imports, ← exports]
    rfl
  rw [steps, lookup_applyExportDiffs, symbols, lookup_applyImportDiffs, records]
  split_ifs
  · exact Option.map_map _ _ _
  · rfl

theorem mem_addedFiles {scope : Option (HashSet String)} {info : FileInfo} :
    info ∈ (computeDelta new old epoch baseEpoch config scope).addedFiles ↔
      ∃ path record, new.fileRecords.lookup path = some record ∧
        old.fileRecords.lookup path = none ∧ scopeContains scope path = true ∧
          record.info = info := by
  rw [computeDelta_eq]
  simp only [mem_map, mem_filter, Bool.and_eq_true]
  constructor
  · rintro ⟨⟨path, record⟩, ⟨mem, inScope, absent⟩, rfl⟩
    change (!(old.fileRecords.lookup path).isSome) = true at absent
    rw [Option.not_isSome, Option.isNone_iff_eq_none] at absent
    exact ⟨path, record, HashMap.mem_toList.1 mem, absent, inScope, rfl⟩
  · rintro ⟨path, record, found, absent, inScope, rfl⟩
    refine ⟨(path, record), ⟨HashMap.mem_toList.2 found, inScope, ?_⟩, rfl⟩
    show (!(old.fileRecords.lookup path).isSome) = true
    rw [absent]
    rfl

/-- The record that the imports and exports of a file of the new index are patched into. -/
def startRecord (old : RelationIndex) (path : String) (record : FileRecord) : FileRecord :=
  match old.fileRecords.lookup path with
  | some before => before
  | none => { defaultFileRecord with info := record.info }

theorem lookup_filesReplayed (named : ∀ path record, new.fileRecords.lookup path = some record →
      old.fileRecords.lookup path = none → record.info.path = path) (path : String) :
    (filesReplayed new old epoch baseEpoch config none).fileRecords.lookup path =
      (new.fileRecords.lookup path).map (startRecord old path) := by
  let delta := computeDelta new old epoch baseEpoch config none
  have dropped : (applyRemovedFiles old.detachedClone delta.removedFiles).fileRecords.lookup path =
      if path ∈ delta.removedFiles then none else old.fileRecords.lookup path :=
    lookup_fileRecords_applyRemovedFiles _ _ _
  have removed : path ∈ delta.removedFiles ↔ (old.fileRecords.lookup path).isSome ∧
      (new.fileRecords.lookup path).isNone := by
    rw [mem_removedFiles]
    exact and_iff_right rfl
  cases before : old.fileRecords.lookup path with
  | some record =>
    -- no added file goes by this path
    have kept : (filesReplayed new old epoch baseEpoch config none).fileRecords.lookup path =
        (applyRemovedFiles old.detachedClone delta.removedFiles).fileRecords.lookup path := by
      refine lookup_applyAddedFiles_of_notMem _ fun info mem same => ?_
      obtain ⟨other, added, found, absent, -, rfl⟩ :=
        (mem_addedFiles new old epoch baseEpoch config).1 mem
      rw [← same, named other added found absent, absent] at before
      cases before
    rw [kept, dropped, before]
    cases after : new.fileRecords.lookup path with
    | none => rw [if_pos (removed.2 ⟨by rw [before]; rfl, by rw [after]; rfl⟩), Option.map_none]
    | some record' =>
      rw [if_neg fun gone => by
        have absent := (removed.1 gone).2
        rw [after] at absent
        cases absent]
      unfold startRecord
      rw [Option.map_some, before]
  | none =>
    have bare : (applyRemovedFiles old.detachedClone delta.removedFiles).fileRecords.lookup path =
        none := by
      rw [dropped, before, ite_self]
    cases after : new.fileRecords.lookup path with
    | none =>
      refine (lookup_applyAddedFiles_of_notMem _ fun info mem same => ?_).trans bare
      obtain ⟨other, added, found, absent, -, rfl⟩ :=
        (mem_addedFiles new old epoch baseEpoch config).1 mem
      rw [← same, named other added found absent, found] at after
      cases after
    | some record =>
      have own := named path record after before
      have mem : record.info ∈ delta.addedFiles :=
        (mem_addedFiles new old epoch baseEpoch config).2 ⟨path, record, after, before, rfl, rfl⟩
      have only : ∀ other ∈ delta.addedFiles, other.path = record.info.path →
          other = record.info := by
        intro info infoMem same
        obtain ⟨other, added, found, absent, -, rfl⟩ :=
          (mem_addedFiles new old epoch baseEpoch config).1 infoMem
        rw [named other added found absent, own] at same
        rw [same, after] at found
        rw [Option.some.inj found]
      have filed := lookup_applyAddedFiles_of_mem
        (applyRemovedFiles old.detachedClone delta.removedFiles) mem only
      rw [own, bare, Option.getD_none] at filed
      refine filed.trans ?_
      unfold startRecord
      rw [Option.map_some, before]

variable {new old}

variable (path : String)

omit [Sha256] in
theorem startRecord_imports (record : FileRecord) :
    (startRecord old path record).imports.standardizedImports = importsAt old path := by
  unfold startRecord importsAt
  cases old.fileRecords.lookup path with
  | none => rfl
  | some before => rfl

omit [Sha256] in
theorem startRecord_exports (record : FileRecord) :
    (startRecord old path record).exports = exportsAt old path := by
  unfold startRecord exportsAt
  cases old.fileRecords.lookup path with
  | none => rfl
  | some before => rfl

omit [Sha256] in
theorem patchImports_importRow :
    patchImports (importsAt old path) (importRow new old path) = importsAt new path ↔
      ListDiff.Extends (importsAt old path) (importsAt new path) :=
  ListDiff.replay_eq_iff

omit [Sha256] in
theorem exportTypeOf_exportTypeName (kind : ExportType) :
    exportTypeOf (exportTypeName kind) = kind := by
  cases kind with
  | named => decide
  | default => decide
  | wildcard => decide

/-- An export comes back as itself when it is registered under its own name for its own entity. -/
theorem render_eq_some {keys : HashMap SymbolKey EntityId} {path : String} {item : ExportInfo} :
    ((keys.lookup (exportKey new path item)).map fun entityId =>
        (⟨entityId, (exportKey new path item).scopedName,
          exportTypeOf (exportTypeName item.exportType)⟩ : ExportInfo)) = some item ↔
      (exportKey new path item).scopedName = item.functionName ∧
        keys.lookup (exportKey new path item) = some item.functionId := by
  rw [exportTypeOf_exportTypeName, Option.map_eq_some_iff]
  constructor
  · rintro ⟨entityId, found, same⟩
    refine ⟨congrArg ExportInfo.functionName same, ?_⟩
    rw [found, ← congrArg ExportInfo.functionId same]
  · rintro ⟨scopedName, found⟩
    refine ⟨item.functionId, found, ?_⟩
    rw [scopedName]

theorem patchExports_exportRow :
    patchExports (keysReplayed new old).lookup (exportsAt old path) (exportRow new old path) =
        exportsAt new path ↔ ExportsReplay new old path (exportsAt new path) := by
  have dropped : (exportRow new old path).removedExports.map
      (fun removed => removed.symbol.scopedName) = droppedNames old path (exportsAt new path) :=
    map_map
  have kept : keptExports (exportsAt old path) (exportRow new old path) =
      (exportsAt old path).filter fun item =>
        decide (item.functionName ∉ droppedNames old path (exportsAt new path)) := by
    unfold keptExports
    rw [dropped]
  let stays := (exportsAt old path).filter fun item =>
    decide (item.functionName ∉ droppedNames old path (exportsAt new path))
  let added := (exportsAt new path).filter fun item =>
    decide (item.functionName ∉ (exportsAt old path).map ExportInfo.functionName)
  have fresh : freshExports (exportsAt old path) (exportRow new old path) =
      (added.filter fun item => decide ((exportKey new path item).scopedName ∉
        stays.map ExportInfo.functionName)).map
          (canonicalExport new.entityToSymbolKey.lookup path) := by
    unfold freshExports
    rw [kept]
    exact filter_map
  have patched : patchExports (keysReplayed new old).lookup (exportsAt old path)
      (exportRow new old path) = stays ++ (added.filter fun item =>
        decide ((exportKey new path item).scopedName ∉ stays.map ExportInfo.functionName)).filterMap
          fun item => ((keysReplayed new old).lookup (exportKey new path item)).map fun entityId =>
            ⟨entityId, (exportKey new path item).scopedName,
              exportTypeOf (exportTypeName item.exportType)⟩ := by
    unfold patchExports
    rw [kept, fresh, filterMap_map]
    rfl
  rw [patched, ListDiff.named_replay_eq_iff fun item mem => (mem_filter.1 mem).1]
  unfold ExportsReplay
  refine exists_congr fun fresh => and_congr_right fun _ => forall_congr' fun item =>
    forall_congr' fun _ => and_congr_right fun newName => ?_
  rw [render_eq_some]
  refine and_iff_right_of_imp fun registered => decide_eq_true fun taken => ?_
  rw [registered.1] at taken
  obtain ⟨other, mem, same⟩ := mem_map.1 taken
  exact newName (mem_map.2 ⟨other, (mem_filter.1 mem).1, same⟩)

/-- The record that the delta brings about is the one of the new index exactly when the latter
replays. -/
theorem patched_eq_iff {path : String} {record : FileRecord}
    (stored : new.fileRecords.lookup path = some record)
    (named : old.fileRecords.lookup path = none → record.info.path = path) :
    exportRecord new old (keysReplayed new old) path
        (importRecord new old path (startRecord old path record)) = record ↔
      RecordReplays new old path record := by
  have imports : importsAt new path = record.imports.standardizedImports := by
    unfold importsAt
    rw [stored, Option.map_some, Option.getD_some]
  have exports : exportsAt new path = record.exports := by
    unfold exportsAt
    rw [stored, Option.map_some, Option.getD_some]
  have patchedImports : patchImports (importsAt old path) (importRow new old path) =
      record.imports.standardizedImports ↔
        ListDiff.Extends (importsAt old path) record.imports.standardizedImports := by
    rw [← imports]
    exact patchImports_importRow path
  have patchedExports : patchExports (keysReplayed new old).lookup (exportsAt old path)
      (exportRow new old path) = record.exports ↔ ExportsReplay new old path record.exports := by
    rw [← exports]
    exact patchExports_exportRow path
  have start : (startRecord old path record).imports.fileId =
      ((old.fileRecords.lookup path).getD defaultFileRecord).imports.fileId := by
    unfold startRecord
    cases old.fileRecords.lookup path with
    | none => rfl
    | some before => rfl
  have info : (startRecord old path record).info = record.info ↔
      match old.fileRecords.lookup path with
      | some before => before.info = record.info
      | none => record.info.path = path := by
    unfold startRecord
    cases before : old.fileRecords.lookup path with
    | none => exact iff_of_true rfl (named before)
    | some standing => exact Iff.rfl
  unfold exportRecord importRecord
  simp only
  rw [startRecord_imports, startRecord_exports]
  constructor
  · intro same
    have sameInfo := congrArg FileRecord.info same
    have sameTable := congrArg (fun record => record.imports.fileId) same
    have sameImports := congrArg (fun record => record.imports.standardizedImports) same
    have sameExports := congrArg FileRecord.exports same
    exact ⟨info.1 sameInfo, start.symm.trans sameTable, patchedImports.1 sameImports,
      patchedExports.1 sameExports⟩
  · intro replays
    rw [patchedImports.2 replays.imports, patchedExports.2 replays.exports, info.2 replays.info,
      start, replays.table]

theorem fileRecords_replayed_iff :
    (∀ path, (replayed new old epoch baseEpoch config none).fileRecords.lookup path =
        new.fileRecords.lookup path) ↔
      ∀ path record, new.fileRecords.lookup path = some record →
        RecordReplays new old path record := by
  have listed : ∀ {path record}, new.fileRecords.lookup path = some record →
      path ∈ recordPaths new old := fun found => mem_recordPaths.2 (Or.inr (by rw [found]; rfl))
  constructor
  · intro same path record found
    -- a record that the delta adds is filed under the path that it names
    have named : ∀ path record, new.fileRecords.lookup path = some record →
        old.fileRecords.lookup path = none → record.info.path = path := by
      intro path record found absent
      have replays := same path
      rw [lookup_fileRecords_replayed, if_pos (listed found), found] at replays
      obtain ⟨filed, filing, patched⟩ := Option.map_eq_some_iff.1 replays
      rcases of_lookup_applyAddedFiles _ filing with before | own
      · rw [lookup_fileRecords_applyRemovedFiles] at before
        have gone : old.detachedClone.fileRecords.lookup path = none := absent
        rw [gone, ite_self] at before
        cases before
      · rw [← patched]
        exact own
    have replays := same path
    rw [lookup_fileRecords_replayed, if_pos (listed found),
      lookup_filesReplayed new old epoch baseEpoch config named, found, Option.map_some,
      Option.map_some] at replays
    exact (patched_eq_iff found (named path record found)).1 (Option.some.inj replays)
  · intro replays path
    have named : ∀ path record, new.fileRecords.lookup path = some record →
        old.fileRecords.lookup path = none → record.info.path = path := by
      intro path record found absent
      have info := (replays path record found).info
      rw [absent] at info
      exact info
    rw [lookup_fileRecords_replayed, lookup_filesReplayed new old epoch baseEpoch config named]
    cases found : new.fileRecords.lookup path with
    | none => simp
    | some record =>
      rw [if_pos (listed found), Option.map_some, Option.map_some]
      exact congrArg some ((patched_eq_iff found (named path record found)).2
        (replays path record found))

theorem lookup_keysReplayed (oldValid : old.validateSnapshot = .ok ())
    (newValid : new.validateSnapshot = .ok ()) (oldSound : TablesConsistent old)
    (newSound : TablesConsistent new) (fresh : FreshlyAllocated old new)
    (rebuilds : ReplayRebuilds old new) (key : SymbolKey) :
    (keysReplayed new old).lookup key = new.symbolKeyToEntity.lookup key := by
  have agree : EntitiesAgree (replayed new old 0 0 "" none) new :=
    (entitiesAgree_replayed_iff old new 0 0 "" oldValid newValid oldSound newSound fresh).2 rebuilds
  have tables := entityTables_applyDelta old.detachedClone (computeDelta new old 0 0 "" none)
  have same := congrArg EntityTables.symbolKeyToEntity tables
  rw [← agree.key key]
  exact congrArg (AList.lookup key) same.symm

end Replay

section Sample

def recorded (hash : String) : RelationIndex :=
  applyAddedFile RelationIndex.new { id := "a.rs", path := "a.rs", fileHash := hash }

end Sample

end ContextEngine

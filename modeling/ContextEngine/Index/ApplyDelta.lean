/- digest: The diff of a new index against an old view, and its replay, table by table. -/

import ContextEngine.Index.Core

set_option autoImplicit false

namespace ContextEngine

/-- Read-only queries. A `forEach` query lists what its callback receives. -/
class RelationIndexView (V : Type) where
  fileContains : V → String → Bool
  forEachFile : V → List (String × FileInfo)
  functionContains : V → EntityId → Bool
  forEachFunction : V → List (EntityId × Entity)
  entityFileOf : V → EntityId → Option String
  relationsOf : V → EntityId → Option (List ResolvedRelation)
  forEachResolvedRelation : V → List (EntityId × List ResolvedRelation)
  callersOf : V → EntityId → List EntityId
  fileRelationsOf : V → String → List ResolvedRelation
  forEachFileRelation : V → List (String × List ResolvedRelation)
  importsOf : V → String → Option ImportTable
  forEachImport : V → List (String × ImportTable)
  exportsOf : V → String → Option (List ExportInfo)
  forEachExport : V → List (String × List ExportInfo)
  symbolKeyOf : V → EntityId → Option SymbolKey
  dependencyFiles : V → List String
  dependenciesOf : V → String → List String
  dependentsOf : V → String → List String
  collectTransitiveDependents : V → String → Nat → List String
  collectTransitiveDependencies : V → String → Nat → List String
  entitiesByFile : V → HashMap String (List Entity)
  entitiesOfFile : V → String → List Entity
  fileCallersOf : V → EntityId → List String
  stableSymbolKeys : V → List SymbolKey
  stableSymbolKeysInFiles : V → HashSet String → List SymbolKey
  maxEntityId : V → Nat

namespace RelationIndex

/-- Group the live entities by file, in the order of the file membership table. -/
def entitiesByFile (index : RelationIndex) : HashMap String (List Entity) :=
  index.entityFileIndex.toList.foldl
    (fun grouped entry =>
      match index.functionIndex.lookup entry.1 with
      | some entity => grouped.bucketPush entry.2 entity
      | none => grouped)
    ∅

def entitiesOfFile (index : RelationIndex) (path : String) : List Entity :=
  match index.fileEntitiesByStart.lookup path with
  | none => []
  | some rows => rows.toList.filterMap fun item => index.functionIndex.lookup (ofLex item).2

/-- Entities whose line range meets the given one. The row table is used when it lists the
file, otherwise every entity of the file is scanned. -/
def getEntitiesInLineRange (index : RelationIndex) (filePath : String)
    (startLine endLine : Nat) : List EntityId :=
  let meets (entityId : EntityId) : Bool :=
    match index.functionIndex.lookup entityId with
    | some entity =>
      decide (entity.span.startPosition.row ≤ endLine) &&
        decide (startLine ≤ entity.span.endPosition.row)
    | none => false
  let scan := (index.entityFileIndex.toList.filter fun entry => entry.2 = filePath).map Prod.fst
  match index.fileEntitiesByStart.lookup filePath with
  | some rows =>
    if rows.isEmpty then scan.filter meets
    else
      ((rows.toList.takeWhile fun item => decide ((ofLex item).1 ≤ endLine)).map
        fun item => (ofLex item).2).filter meets
  | none => scan.filter meets

instance : RelationIndexView RelationIndex where
  fileContains index path := (index.fileRecords.lookup path).isSome
  forEachFile index := index.fileRecords.toList.map fun entry => (entry.1, entry.2.info)
  functionContains index id := (index.functionIndex.lookup id).isSome
  forEachFunction index := index.functionIndex.toList
  entityFileOf index id := index.entityFileIndex.lookup id
  relationsOf index caller :=
    (index.resolvedRelationIndex.lookup caller).map RelationEdgeSet.edges
  forEachResolvedRelation index :=
    index.resolvedRelationIndex.toList.map fun entry => (entry.1, entry.2.edges)
  callersOf index callee := callersAt index.reverseCalleeIndex callee
  fileRelationsOf index path := edgesOf index.fileRelationIndex path
  forEachFileRelation index :=
    index.fileRelationIndex.toList.map fun entry => (entry.1, entry.2.edges)
  importsOf index path := (index.fileRecords.lookup path).map FileRecord.imports
  forEachImport index := index.fileRecords.toList.map fun entry => (entry.1, entry.2.imports)
  exportsOf index path := (index.fileRecords.lookup path).map FileRecord.exports
  forEachExport index := index.fileRecords.toList.map fun entry => (entry.1, entry.2.exports)
  symbolKeyOf index id := index.entityToSymbolKey.lookup id
  dependencyFiles index := index.dependencyGraph.getAllFiles
  dependenciesOf index source := index.dependencyGraph.getDependencies source
  dependentsOf index file := index.dependencyGraph.getDependents file
  collectTransitiveDependents index := index.dependencyGraph.collectTransitiveDependents
  collectTransitiveDependencies index := index.dependencyGraph.collectTransitiveDependencies
  entitiesByFile := entitiesByFile
  entitiesOfFile := entitiesOfFile
  fileCallersOf index callee := index.fileCallersByCallee.members callee
  stableSymbolKeys index := index.symbolKeyToEntity.keys
  stableSymbolKeysInFiles index files :=
    files.toList.flatMap fun file => index.fileSymbolKeys.bucket file
  maxEntityId := maxEntityId

end RelationIndex

open RelationIndexView

/-- Whether an optional file scope admits a path. -/
def scopeContains (affectedFiles : Option (HashSet String)) (path : String) : Bool :=
  match affectedFiles with
  | none => true
  | some files => path ∈ files

def entityInScope (affectedFiles : Option (HashSet String)) (file : Option String) : Bool :=
  match affectedFiles with
  | none => true
  | some files => file.any fun path => path ∈ files

section EntityDiff

/-- What the rename search keeps of a removed entity. -/
structure RemovedEntityMeta where
  id : EntityId
  name : String
  kind : EntityKind
  file : String
  line : Int
  deriving DecidableEq

/-- The rename heuristic: same file and kind, start rows at most two apart, another name. -/
def isRename (removed : RemovedEntityMeta) (added : AddedEntity) : Bool :=
  decide (removed.file = added.filePath) && decide (removed.kind = added.entity.kind) &&
    decide ((removed.line - asI64 added.entity.span.startPosition.row).natAbs ≤ 2) &&
    decide (removed.name ≠ added.entity.name)

def pairRenames (added : List AddedEntity) :
    List RemovedEntityMeta → List Nat → List RenamedEntity × List Nat
  | [], matched => ([], matched)
  | removed :: rest, matched =>
    match added.zipIdx.find? fun item => decide (item.2 ∉ matched) && isRename removed item.1 with
    | none => pairRenames added rest matched
    | some item =>
      let pairs := pairRenames added rest (matched ++ [item.2])
      (⟨removed.id, item.1.entity.id, removed.name, item.1.entity.name⟩ :: pairs.1, pairs.2)

structure EntityDiff where
  removedEntities : List EntityId
  addedEntities : List AddedEntity
  renamedEntities : List RenamedEntity

variable [Sha256] {V : Type} [RelationIndexView V]

def removedEntityMeta (new : RelationIndex) (old : V) (affectedFiles : Option (HashSet String)) :
    List RemovedEntityMeta :=
  (forEachFunction old).filterMap fun entry =>
    if entityInScope affectedFiles (entityFileOf old entry.1) ∧
        (new.functionIndex.lookup entry.1).isNone then
      some
        { id := entry.1
          name := entry.2.name
          kind := entry.2.kind
          file := (entityFileOf old entry.1).getD ""
          line := asI64 entry.2.span.startPosition.row }
    else none

/-- The registered key and file of an entity, or a key derived from its own fields. -/
def addedEntity (new : RelationIndex) (id : EntityId) (entity : Entity) : AddedEntity :=
  match new.entityToSymbolKey.lookup id, new.entityFileIndex.lookup id with
  | some key, some path => ⟨entity, key, path⟩
  | _, _ =>
    let fallbackPath := (new.entityFileIndex.lookup id).getD ""
    ⟨entity, StableSymbolKey.forEntity fallbackPath entity.name entity, fallbackPath⟩

def addedEntityCandidates (new : RelationIndex) (old : V)
    (affectedFiles : Option (HashSet String)) : List AddedEntity :=
  (new.functionIndex.toList.filter fun entry =>
    entityInScope affectedFiles (new.entityFileIndex.lookup entry.1) &&
      !functionContains old entry.1).map fun entry => addedEntity new entry.1 entry.2

def computeEntityDiff (new : RelationIndex) (old : V) (affectedFiles : Option (HashSet String)) :
    EntityDiff :=
  let removed := removedEntityMeta new old affectedFiles
  let added := addedEntityCandidates new old affectedFiles
  let pairs := pairRenames added removed []
  { removedEntities :=
      (removed.map RemovedEntityMeta.id).filter fun id => id ∉ pairs.1.map RenamedEntity.oldId
    addedEntities :=
      (added.zipIdx.filter fun item => decide (item.2 ∉ pairs.2)).map Prod.fst
    renamedEntities := pairs.1 }

end EntityDiff

section EdgeDiff

/-- What an edge says beyond its identity, as far as the diff compares it. -/
abbrev EdgeContent := Nat × Option String

def edgeContent (relation : ResolvedRelation) : EdgeContent :=
  (relation.callFrequency, relation.cfgCondition)

/-- Identity to content, a later edge overwriting an earlier one. -/
def edgeContents (relations : List ResolvedRelation) : HashMap RelationEdgeIdentity EdgeContent :=
  HashMap.extend ∅ (relations.map fun relation => (relationIdentity relation, edgeContent relation))

def edgeSurvives (edges : HashMap RelationEdgeIdentity EdgeContent)
    (relation : ResolvedRelation) : Bool :=
  edges.lookup (relationIdentity relation) = some (edgeContent relation)

structure RelationDiff where
  removedRelations : List ResolvedRelation
  addedRelations : List ResolvedRelation
  droppedUnbounded : Nat

variable {V : Type} [RelationIndexView V]

def scopedNewRelations (new : RelationIndex) (affectedFiles : Option (HashSet String)) :
    List ResolvedRelation :=
  (new.resolvedRelationIndex.toList.filter fun entry =>
    entityInScope affectedFiles (new.entityFileIndex.lookup entry.1)).flatMap
      fun entry => entry.2.edges

/-- The in-scope callers of the old view with their edges. -/
def scopedOldRelations (old : V) (affectedFiles : Option (HashSet String)) :
    List (EntityId × List ResolvedRelation) :=
  (forEachResolvedRelation old).filter fun entry =>
    entityInScope affectedFiles (entityFileOf old entry.1)

def danglingRelations (old : V) (affectedFiles : Option (HashSet String))
    (removedEntities : HashSet EntityId) : List ResolvedRelation :=
  removedEntities.toList.flatMap fun removedId =>
    (callersOf old removedId).flatMap fun caller =>
      if entityInScope affectedFiles (entityFileOf old caller) then []
      else ((relationsOf old caller).getD []).filter fun relation =>
        relation.calleeId = some removedId

def computeRelationDiff (new : RelationIndex) (old : V) (affectedFiles : Option (HashSet String))
    (removedEntities : HashSet EntityId) : RelationDiff :=
  let newRelations := scopedNewRelations new affectedFiles
  let oldRelations := scopedOldRelations old affectedFiles
  let newEdges := edgeContents newRelations
  let oldEdges := edgeContents (oldRelations.flatMap Prod.snd)
  let removed := (oldRelations.filter fun entry => entry.1 ∉ removedEntities).flatMap
    fun entry => entry.2.filter fun relation => !edgeSurvives newEdges relation
  let dangling := danglingRelations old affectedFiles removedEntities
  { removedRelations := removed ++ dangling
    addedRelations := newRelations.filter fun relation => !edgeSurvives oldEdges relation
    droppedUnbounded := dangling.length }

def fileRelationDiff (new : RelationIndex) (old : V) (path : String) : FileRelationDiff :=
  let oldRelations := fileRelationsOf old path
  let newRelations := edgesOf new.fileRelationIndex path
  { filePath := path
    removedRelations :=
      oldRelations.filter fun relation => !edgeSurvives (edgeContents newRelations) relation
    addedRelations :=
      newRelations.filter fun relation => !edgeSurvives (edgeContents oldRelations) relation }

def computeFileRelationDiff (new : RelationIndex) (old : V)
    (affectedFiles : Option (HashSet String)) : List FileRelationDiff :=
  let paths := ((forEachFileRelation old).map Prod.fst ++ new.fileRelationIndex.keys).dedup
  ((paths.filter fun path => scopeContains affectedFiles path).map
    (fileRelationDiff new old)).filter
    fun diff => !diff.removedRelations.isEmpty || !diff.addedRelations.isEmpty

end EdgeDiff

section FileDiff

variable [Sha256] {V : Type} [RelationIndexView V]

/-- The elements of the first list that the second does not contain. -/
def missingFrom {α : Type} [DecidableEq α] (left right : List α) : List α :=
  left.filter fun a => a ∉ right

def computeImportDiff (new : RelationIndex) (old : V) (affectedFiles : Option (HashSet String)) :
    List ImportDiff :=
  let paths := ((forEachImport old).map Prod.fst ++ new.fileRecords.keys).dedup
  ((paths.filter fun path => scopeContains affectedFiles path).map fun path =>
    let oldImports := ((importsOf old path).map ImportTable.standardizedImports).getD []
    let newImports :=
      ((new.fileRecords.lookup path).map fun r => r.imports.standardizedImports).getD []
    { filePath := path
      removedImports := missingFrom oldImports newImports
      addedImports := missingFrom newImports oldImports : ImportDiff }).filter
    fun diff => !diff.removedImports.isEmpty || !diff.addedImports.isEmpty

/-- The lower-cased debug rendering of an export type. -/
def exportTypeName : ExportType → String
  | .named => "named"
  | .default => "default"
  | .wildcard => "wildcard"

/-- The canonical form of an export, its key rebuilt from the export when none is registered. -/
def canonicalExport (symbolKey : EntityId → Option SymbolKey) (path : String)
    (item : ExportInfo) : CanonicalExport where
  symbol := (symbolKey item.functionId).getD (.new path item.functionName .function)
  exportType := exportTypeName item.exportType

def computeExportDiff (new : RelationIndex) (old : V) (affectedFiles : Option (HashSet String)) :
    List ExportDiff :=
  let paths := ((forEachExport old).map Prod.fst ++ new.fileRecords.keys).dedup
  ((paths.filter fun path => scopeContains affectedFiles path).map fun path =>
    let oldExports := (exportsOf old path).getD []
    let newExports := ((new.fileRecords.lookup path).map FileRecord.exports).getD []
    let oldSymbols := oldExports.map ExportInfo.functionName
    let newSymbols := newExports.map ExportInfo.functionName
    { filePath := path
      removedExports :=
        (oldExports.filter fun item => item.functionName ∉ newSymbols).map
          (canonicalExport (symbolKeyOf old) path)
      addedExports :=
        (newExports.filter fun item => item.functionName ∉ oldSymbols).map
          (canonicalExport new.entityToSymbolKey.lookup path) : ExportDiff }).filter
    fun diff => !diff.removedExports.isEmpty || !diff.addedExports.isEmpty

def computeDependencyDiff (new : RelationIndex) (old : V)
    (affectedFiles : Option (HashSet String)) : List DependencyDiff :=
  let paths := (dependencyFiles old ++ new.dependencyGraph.getAllFiles).dedup
  ((paths.filter fun path => scopeContains affectedFiles path).map fun path =>
    let oldDeps := dependenciesOf old path
    let newDeps := new.dependencyGraph.getDependencies path
    { sourceFile := path
      removedDependencies := missingFrom oldDeps newDeps
      addedDependencies := missingFrom newDeps oldDeps : DependencyDiff }).filter
    fun diff => !diff.removedDependencies.isEmpty || !diff.addedDependencies.isEmpty

def computeDelta (new : RelationIndex) (old : V) (epoch baseEpoch : Int)
    (configFingerprint : String) (affectedFiles : Option (HashSet String)) : SnapshotDelta :=
  if affectedFiles.any HashSet.isEmpty then { epoch, baseEpoch, configFingerprint }
  else
    let entities := computeEntityDiff new old affectedFiles
    let relations :=
      computeRelationDiff new old affectedFiles (HashSet.ofList entities.removedEntities)
    { epoch, baseEpoch, configFingerprint
      removedFiles :=
        ((forEachFile old).filter fun entry =>
          scopeContains affectedFiles entry.1 && (new.fileRecords.lookup entry.1).isNone).map
            Prod.fst
      addedFiles :=
        (new.fileRecords.toList.filter fun entry =>
          scopeContains affectedFiles entry.1 && !fileContains old entry.1).map
            fun entry => entry.2.info
      removedEntities := entities.removedEntities
      addedEntities := entities.addedEntities
      removedRelations := relations.removedRelations
      addedRelations := relations.addedRelations
      fileRelationDiffs := computeFileRelationDiff new old affectedFiles
      importDiffs := computeImportDiff new old affectedFiles
      exportDiffs := computeExportDiff new old affectedFiles
      dependencyDiffs := computeDependencyDiff new old affectedFiles
      relationEdgesDroppedUnbounded := relations.droppedUnbounded
      renamedEntities := entities.renamedEntities }

end FileDiff

section Files

def applyRemovedFile (index : RelationIndex) (path : String) : RelationIndex :=
  { index.takeFileRelations path with
    fileRecords := index.fileRecords.erase path
    dependencyGraph := index.dependencyGraph.removeFile path
    entityIdRemaps := index.entityIdRemaps.erase path
    fileSymbolKeys := index.fileSymbolKeys.erase path
    fileEntitiesByStart := index.fileEntitiesByStart.erase path }

def applyRemovedFiles (index : RelationIndex) (paths : List String) : RelationIndex :=
  paths.foldl applyRemovedFile index

/-- `FileRecord::default`. -/
def defaultFileRecord : FileRecord := ⟨{}, ⟨"", []⟩, []⟩

/-- Create or update the record filed under the path the file information names. -/
def applyAddedFile (index : RelationIndex) (info : FileInfo) : RelationIndex :=
  { index with
    fileRecords := index.fileRecords.alter info.path fun entry =>
      some { entry.getD defaultFileRecord with info := info } }

def applyAddedFiles (index : RelationIndex) (infos : List FileInfo) : RelationIndex :=
  infos.foldl applyAddedFile index

end Files

section RemovedEntities

def dropEmbeddedCaller (table : ResolvedTable) (callee caller : EntityId) : ResolvedTable :=
  table.alter callee fun entry =>
    match entry with
    | none => none
    | some set =>
      if (set.removeCaller caller).isEmpty && (set.removeCaller caller).callers.isEmpty then none
      else some (set.removeCaller caller)

theorem EdgesFiled.dropEmbeddedCaller {table : ResolvedTable} (filed : EdgesFiled table)
    (callee caller : EntityId) : EdgesFiled (dropEmbeddedCaller table callee caller) := by
  refine filed.alter ?_
  intro set kept
  cases found : table.lookup callee with
  | none => simp [found] at kept
  | some old =>
    rw [found] at kept
    obtain ⟨nonempty, callerEq, callersEq⟩ := filed callee old found
    simp only at kept
    split_ifs at kept
    obtain rfl := Option.some.inj kept
    exact ⟨nonempty, callerEq, fun x mem => callersEq x (SortedVec.mem_erase.1 mem).2⟩

def dropResolvedEntity (table : ResolvedTable) (entityId : EntityId) : ResolvedTable :=
  let callees := (edgesOf table entityId).filterMap ResolvedRelation.calleeId
  let forward : ResolvedTable :=
    callees.foldl (fun table callee => dropEmbeddedCaller table callee entityId)
      (table.erase entityId)
  let referring := (forward.toList.filter fun entry => entityId ∈ entry.2.callers).map Prod.fst
  referring.foldl (fun table key => dropEmbeddedCaller table key entityId) forward

private theorem EdgesFiled.dropResolvedEntity {table : ResolvedTable} (filed : EdgesFiled table)
    (entityId : EntityId) : EdgesFiled (dropResolvedEntity table entityId) :=
  EdgesFiled.foldl (fun table key => ContextEngine.dropEmbeddedCaller table key entityId)
    (fun _ key filed => filed.dropEmbeddedCaller key entityId) _ <|
    EdgesFiled.foldl (fun table callee => ContextEngine.dropEmbeddedCaller table callee entityId)
      (fun _ callee filed => filed.dropEmbeddedCaller callee entityId) _ (filed.erase entityId)

/-- The reverse table without an entity as callee or caller. The last pass covers every entry
that still lists the entity, those found through embedded callers included. -/
def dropReverseEntity (resolved : ResolvedTable) (table : ReverseTable) (entityId : EntityId) :
    ReverseTable :=
  let callees := (edgesOf resolved entityId).filterMap ResolvedRelation.calleeId
  let untracked := callees.foldl (fun table callee => untrackReverseCaller table callee entityId)
    table
  let reverse : ReverseTable := untracked.erase entityId
  let keys := (reverse.toList.filter fun entry => entityId ∈ entry.2).map Prod.fst
  keys.foldl (fun table callee => untrackReverseCaller table callee entityId) reverse

variable [Sha256]

def dropSymbolKey (index : RelationIndex) (entityId : EntityId) : RelationIndex :=
  { index with
    entityToSymbolKey := index.entityToSymbolKey.erase entityId
    symbolKeyToEntity :=
      match index.entityToSymbolKey.lookup entityId with
      | some key => index.symbolKeyToEntity.erase key
      | none => index.symbolKeyToEntity
    stableIdToEntity :=
      match index.entityToSymbolKey.lookup entityId with
      | some key => index.stableIdToEntity.erase key.stableId
      | none => index.stableIdToEntity
    fileSymbolKeys :=
      match index.entityToSymbolKey.lookup entityId with
      | some key => index.fileSymbolKeys.bucketErase key.filePath key
      | none => index.fileSymbolKeys }

def applyRemovedEntity (index : RelationIndex) (entityId : EntityId) : RelationIndex :=
  let bare := dropSymbolKey (index.removeFunction entityId) entityId
  { bare with
    entityFileIndex := index.entityFileIndex.erase entityId
    resolvedRelationIndex := dropResolvedEntity index.resolvedRelationIndex entityId
    reverseCalleeIndex :=
      dropReverseEntity index.resolvedRelationIndex index.reverseCalleeIndex entityId
    edgesFiled := index.edgesFiled.dropResolvedEntity entityId }

def applyRemovedEntities (index : RelationIndex) (removed : List EntityId) : RelationIndex :=
  removed.foldl applyRemovedEntity index

end RemovedEntities

section RenamedEntities

def migrateCallee (set : RelationEdgeSet) (renamed : RenamedEntity) : RelationEdgeSet :=
  (set.edges.filter fun relation => relation.calleeId = some renamed.oldId).foldl
    (fun set oldEdge =>
      (set.removeByIdentity (relationIdentity oldEdge)).insert
        { oldEdge with calleeId := some renamed.newId, calleeName := renamed.newName })
    set

/-- Rebuild the embedded callers of an entry from its own edges. -/
def refreshCallers (set : RelationEdgeSet) (entityId : EntityId) : RelationEdgeSet :=
  ((set.edges.filter fun relation => relation.calleeId = some entityId).map
    ResolvedRelation.caller).foldl RelationEdgeSet.addCaller { set with callers := ∅ }

/-- The forward table after a rename: embedded callers are redirected, the entry of the old
entity is dropped, the callers of the new entity's entry are rebuilt. -/
def renameResolved (table : ResolvedTable) (renamed : RenamedEntity) : ResolvedTable :=
  let callers := ((table.lookup renamed.oldId).getD ∅).callers.toList
  let migrated := callers.foldl
    (fun (table : ResolvedTable) caller =>
      table.alter caller fun entry => entry.map fun set => migrateCallee set renamed)
    table
  HashMap.alter (migrated.erase renamed.oldId) renamed.newId fun entry =>
    entry.map fun set => refreshCallers set renamed.newId

variable {set : RelationEdgeSet}

private theorem migrateCallee_filedUnder {key : EntityId}
    (filed : set.FiledUnder key) (renamed : RenamedEntity) :
    (migrateCallee set renamed).FiledUnder key := by
  have step : ∀ (l : List ResolvedRelation) (set : RelationEdgeSet), set.FiledUnder key →
      (∀ relation ∈ l, relation.caller = key) →
      (l.foldl (fun set oldEdge =>
        (set.removeByIdentity (relationIdentity oldEdge)).insert
          { oldEdge with calleeId := some renamed.newId, calleeName := renamed.newName })
        set).FiledUnder key := by
    intro l
    induction l with
    | nil => exact fun set filed _ => filed
    | cons oldEdge l ih =>
      intro set filed callers
      refine ih _ ⟨?_, ?_, ?_⟩ fun r mem => callers r (List.mem_cons_of_mem _ mem)
      · rw [RelationEdgeSet.edges_insert]
        split_ifs with present
        · exact fun bare => by simp [bare] at present
        · simp
      · intro r mem
        have kept : ∀ r ∈ (set.removeByIdentity (relationIdentity oldEdge)).edges,
            r.caller = key := fun r mem => filed.caller_eq r (List.mem_filter.1 mem).1
        rw [RelationEdgeSet.edges_insert] at mem
        split_ifs at mem
        · exact kept r mem
        · rcases List.mem_append.1 mem with mem | mem
          · exact kept r mem
          · rw [List.mem_singleton.1 mem]
            exact callers oldEdge List.mem_cons_self
      · rw [RelationEdgeSet.callers_insert]
        exact filed.callers_eq
  exact step _ set filed fun r mem => filed.caller_eq r (List.mem_filter.1 mem).1

private theorem mem_callers_foldl_addCaller {l : List EntityId}
    {caller : EntityId} :
    caller ∈ (l.foldl RelationEdgeSet.addCaller set).callers ↔
      caller ∈ l ∨ caller ∈ set.callers := by
  induction l generalizing set with
  | nil => simp
  | cons a l ih =>
    rw [List.foldl_cons, ih, List.mem_cons]
    simp only [RelationEdgeSet.addCaller, SortedVec.mem_insert]
    tauto

private theorem edges_foldl_addCaller (l : List EntityId) (set : RelationEdgeSet) :
    (l.foldl RelationEdgeSet.addCaller set).edges = set.edges := by
  induction l generalizing set with
  | nil => rfl
  | cons a l ih => exact ih (set.addCaller a)

theorem edges_refreshCallers (set : RelationEdgeSet) (entityId : EntityId) :
    (refreshCallers set entityId).edges = set.edges :=
  edges_foldl_addCaller _ _

private theorem refreshCallers_filedUnder {key : EntityId}
    (filed : set.FiledUnder key) : (refreshCallers set key).FiledUnder key := by
  refine ⟨?_, ?_, ?_⟩
  · rw [edges_refreshCallers]
    exact filed.nonempty
  · rw [edges_refreshCallers]
    exact filed.caller_eq
  · intro caller mem
    rw [refreshCallers, mem_callers_foldl_addCaller, List.mem_map] at mem
    rcases mem with ⟨r, kept, rfl⟩ | mem
    · exact filed.caller_eq r (List.mem_filter.1 kept).1
    · exact absurd mem (SortedVec.notMem_empty caller)

private theorem EdgesFiled.renameResolved {table : ResolvedTable} (filed : EdgesFiled table)
    (renamed : RenamedEntity) : EdgesFiled (renameResolved table renamed) := by
  have mapped : ∀ {table : ResolvedTable} (key : EntityId)
      (f : RelationEdgeSet → RelationEdgeSet), EdgesFiled table →
      (∀ set, set.FiledUnder key → (f set).FiledUnder key) →
      EdgesFiled (table.alter key fun entry => entry.map f) := by
    intro table key f filed kept
    refine filed.alter ?_
    intro set found
    obtain ⟨old, oldFound, rfl⟩ := Option.map_eq_some_iff.1 found
    exact kept old (filed key old oldFound)
  have migrated := EdgesFiled.foldl
    (fun (table : ResolvedTable) caller =>
      table.alter caller fun entry => entry.map fun set => migrateCallee set renamed)
    (fun _ caller filed => mapped caller _ filed fun _ under =>
      migrateCallee_filedUnder under renamed)
    ((table.lookup renamed.oldId).getD ∅).callers.toList filed
  exact mapped renamed.newId _ (migrated.erase renamed.oldId) fun _ under =>
    refreshCallers_filedUnder under

variable [Sha256]

def renamedKey (key : SymbolKey) (renamed : RenamedEntity) : SymbolKey :=
  { key with scopedName := renamed.newName, filePath := normalizeProjectPath key.filePath }

/-- Move the symbol key of the old entity to the new one under the new name. The per-file
reverse index is not touched. -/
def renameSymbolKey (index : RelationIndex) (renamed : RenamedEntity) : RelationIndex :=
  { index with
    entityToSymbolKey :=
      match index.entityToSymbolKey.lookup renamed.oldId with
      | some key =>
        (index.entityToSymbolKey.erase renamed.oldId).insert renamed.newId
          (renamedKey key renamed)
      | none => index.entityToSymbolKey
    symbolKeyToEntity :=
      match index.entityToSymbolKey.lookup renamed.oldId with
      | some key =>
        (index.symbolKeyToEntity.erase key).insert (renamedKey key renamed) renamed.newId
      | none => index.symbolKeyToEntity
    stableIdToEntity :=
      match index.entityToSymbolKey.lookup renamed.oldId with
      | some key =>
        (index.stableIdToEntity.erase key.stableId).insert (renamedKey key renamed).stableId
          renamed.newId
      | none => index.stableIdToEntity }

def applyRenamedEntity (index : RelationIndex) (renamed : RenamedEntity) : RelationIndex :=
  { renameSymbolKey index renamed with
    resolvedRelationIndex := renameResolved index.resolvedRelationIndex renamed
    functionIndex :=
      match index.functionIndex.lookup renamed.oldId with
      | some entity => (index.functionIndex.erase renamed.oldId).insert renamed.newId entity
      | none => index.functionIndex
    entityFileIndex :=
      match index.entityFileIndex.lookup renamed.oldId with
      | some filePath => (index.entityFileIndex.erase renamed.oldId).insert renamed.newId filePath
      | none => index.entityFileIndex
    edgesFiled := index.edgesFiled.renameResolved renamed }

def applyRenamedEntities (index : RelationIndex) (renamed : List RenamedEntity) :
    RelationIndex :=
  if renamed.isEmpty then index
  else (renamed.foldl applyRenamedEntity index).rebuildReverseCalleeIndex

end RenamedEntities

section AddedEntities

variable [Sha256]

def applyAddedEntity (index : RelationIndex) (added : AddedEntity) : RelationIndex :=
  let inserted := index.insertFunction added.entity.id added.entity
  let registered :=
    { inserted with
      entityFileIndex := inserted.entityFileIndex.insert added.entity.id added.filePath }
      |>.registerSymbolKey added.symbolKey.filePath added.symbolKey.scopedName added.entity
        added.entity.id
  { registered with
    fileEntitiesByStart :=
      trackFileEntity registered.fileEntitiesByStart added.filePath
        (asU32 added.entity.span.startPosition.row) added.entity.id }

def applyAddedEntities (index : RelationIndex) (added : List AddedEntity) : RelationIndex :=
  added.foldl applyAddedEntity index

end AddedEntities

section Edges

def removeEdge (table : ResolvedTable) (relation : ResolvedRelation) : ResolvedTable :=
  table.alter relation.caller fun entry =>
    match entry with
    | none => none
    | some set =>
      if (set.removeByIdentity (relationIdentity relation)).isEmpty then none
      else some (set.removeByIdentity (relationIdentity relation))

theorem EdgesFiled.removeEdge {table : ResolvedTable} (filed : EdgesFiled table)
    (relation : ResolvedRelation) : EdgesFiled (removeEdge table relation) := by
  refine filed.alter ?_
  intro set kept
  cases found : table.lookup relation.caller with
  | none => simp [found] at kept
  | some old =>
    rw [found] at kept
    obtain ⟨-, callerEq, callersEq⟩ := filed relation.caller old found
    simp only at kept
    split_ifs at kept with bare
    obtain rfl := Option.some.inj kept
    exact ⟨fun nil => bare (List.isEmpty_iff.2 nil),
      fun r mem => callerEq r (List.mem_filter.1 mem).1, callersEq⟩

/-- The forward table once an edge is removed: the embedded back reference goes with the last
parallel edge. -/
def removeRelation (table : ResolvedTable) (relation : ResolvedRelation) : ResolvedTable :=
  let forward := removeEdge table relation
  match relation.calleeId with
  | none => forward
  | some callee =>
    if stillCalls forward relation.caller callee then forward
    else dropEmbeddedCaller forward callee relation.caller

private theorem EdgesFiled.removeRelation {table : ResolvedTable} (filed : EdgesFiled table)
    (relation : ResolvedRelation) : EdgesFiled (removeRelation table relation) := by
  unfold ContextEngine.removeRelation
  cases relation.calleeId with
  | none => exact filed.removeEdge relation
  | some callee =>
    simp only
    split_ifs
    · exact filed.removeEdge relation
    · exact (filed.removeEdge relation).dropEmbeddedCaller callee relation.caller

def applyRemovedRelation (index : RelationIndex) (relation : ResolvedRelation) : RelationIndex :=
  { index with
    resolvedRelationIndex := removeRelation index.resolvedRelationIndex relation
    reverseCalleeIndex :=
      match relation.calleeId with
      | none => index.reverseCalleeIndex
      | some callee =>
        maybeUntrackReverseCaller (removeEdge index.resolvedRelationIndex relation)
          index.reverseCalleeIndex callee relation.caller
    edgesFiled := index.edgesFiled.removeRelation relation }

def applyRemovedRelations (index : RelationIndex) (removed : List ResolvedRelation) :
    RelationIndex :=
  removed.foldl applyRemovedRelation index

def applyAddedRelations (index : RelationIndex) (added : List ResolvedRelation) : RelationIndex :=
  added.foldl RelationIndex.addResolvedRelation index

def patchEdges (set : RelationEdgeSet) (diff : FileRelationDiff) : RelationEdgeSet :=
  diff.addedRelations.foldl RelationEdgeSet.insert
    (diff.removedRelations.foldl
      (fun set relation => set.removeByIdentity (relationIdentity relation)) set)

def patchFileRelations (table : FileRelationTable) (diff : FileRelationDiff) :
    FileRelationTable :=
  let patched := patchEdges ((table.lookup diff.filePath).getD ∅) diff
  if patched.isEmpty then table.erase diff.filePath else table.insert diff.filePath patched

def touchedCallees (diff : FileRelationDiff) : List EntityId :=
  ((diff.removedRelations ++ diff.addedRelations).filterMap ResolvedRelation.calleeId).dedup

def reconcileFileCallers (table : FileRelationTable) (path : String)
    (callers : HashMap EntityId (HashSet String)) (touched : List EntityId) :
    HashMap EntityId (HashSet String) :=
  touched.foldl
    (fun callers callee =>
      let untracked := untrackFileCaller callers (some callee) path
      if stillCalls table path callee then trackFileCaller untracked (some callee) path
      else untracked)
    callers

private theorem mem_reconcileFileCallers {table : FileRelationTable} {path path' : String}
    {callers : HashMap EntityId (HashSet String)} {touched : List EntityId} {callee : EntityId} :
    path' ∈ (reconcileFileCallers table path callers touched).members callee ↔
      if path' = path ∧ callee ∈ touched then stillCalls table path callee = true
      else path' ∈ callers.members callee := by
  unfold reconcileFileCallers
  induction touched generalizing callers with
  | nil => simp
  | cons a l ih =>
    rw [List.foldl_cons, ih]
    by_cases here : path' = path
    · subst here
      by_cases same : a = callee
      · subst same
        by_cases calls : stillCalls table path' a = true
        · simp [calls, mem_trackFileCaller]
        · simp [calls, mem_untrackFileCaller]
      · have other : callee ≠ a := Ne.symm same
        by_cases calls : stillCalls table path' a = true
        · simp [calls, mem_trackFileCaller, mem_untrackFileCaller, same, other]
        · simp [calls, mem_untrackFileCaller, same, other]
    · by_cases calls : stillCalls table path a = true
      · simp [calls, here, mem_trackFileCaller, mem_untrackFileCaller]
      · simp [calls, here, mem_untrackFileCaller]

theorem edges_foldl_removeByIdentity (l : List ResolvedRelation) (set : RelationEdgeSet) :
    (l.foldl (fun set relation => set.removeByIdentity (relationIdentity relation)) set).edges =
      set.edges.filter fun existing => relationIdentity existing ∉ l.map relationIdentity := by
  induction l generalizing set with
  | nil => simp
  | cons r l ih =>
    rw [List.foldl_cons, ih]
    simp only [RelationEdgeSet.removeByIdentity, RelationEdgeSet.edges_retain, List.filter_filter,
      List.map_cons, List.mem_cons, not_or]
    refine List.filter_congr fun existing _ => ?_
    simp [Bool.and_comm]

variable {set : RelationEdgeSet}

theorem mem_edges_foldl_insert_of_mem {l : List ResolvedRelation}
    {relation : ResolvedRelation} (mem : relation ∈ set.edges) :
    relation ∈ (l.foldl RelationEdgeSet.insert set).edges := by
  induction l generalizing set with
  | nil => exact mem
  | cons r l ih =>
    refine ih ?_
    rw [RelationEdgeSet.edges_insert]
    split_ifs
    · exact mem
    · exact List.mem_append_left _ mem

theorem mem_of_mem_edges_foldl_insert {l : List ResolvedRelation}
    {relation : ResolvedRelation} (mem : relation ∈ (l.foldl RelationEdgeSet.insert set).edges) :
    relation ∈ set.edges ∨ relation ∈ l := by
  induction l generalizing set with
  | nil => exact Or.inl mem
  | cons r l ih =>
    rcases ih mem with inSet | inList
    · rw [RelationEdgeSet.edges_insert] at inSet
      split_ifs at inSet
      · exact Or.inl inSet
      · rcases List.mem_append.1 inSet with old | single
        · exact Or.inl old
        · exact Or.inr (List.mem_cons.2 (Or.inl (List.mem_singleton.1 single)))
    · exact Or.inr (List.mem_cons_of_mem _ inList)

private theorem mem_patchEdges_of_untouched {diff : FileRelationDiff}
    {callee : EntityId} (untouched : callee ∉ touchedCallees diff) :
    (∃ r ∈ (patchEdges set diff).edges, r.calleeId = some callee) ↔
      ∃ r ∈ set.edges, r.calleeId = some callee := by
  have absent : ∀ r, r ∈ diff.removedRelations ∨ r ∈ diff.addedRelations →
      r.calleeId ≠ some callee := by
    intro r mem hit
    refine untouched (List.mem_dedup.2 (List.mem_filterMap.2 ⟨r, ?_, hit⟩))
    exact List.mem_append.2 mem
  constructor
  · rintro ⟨r, mem, hit⟩
    rcases mem_of_mem_edges_foldl_insert mem with kept | added
    · rw [edges_foldl_removeByIdentity] at kept
      exact ⟨r, (List.mem_filter.1 kept).1, hit⟩
    · exact absurd hit (absent r (Or.inr added))
  · rintro ⟨r, mem, hit⟩
    refine ⟨r, mem_edges_foldl_insert_of_mem ?_, hit⟩
    rw [edges_foldl_removeByIdentity]
    refine List.mem_filter.2 ⟨mem, ?_⟩
    simp only [List.mem_map, not_exists, not_and, decide_eq_true_eq]
    intro removed inRemoved same
    exact absent removed (Or.inl inRemoved) ((calleeId_eq_of_relationIdentity_eq same).trans hit)

theorem edgesOf_patchFileRelations (table : FileRelationTable) (diff : FileRelationDiff)
    (path : String) :
    edgesOf (patchFileRelations table diff) path = if path = diff.filePath then
        (patchEdges ((table.lookup diff.filePath).getD ∅) diff).edges
      else edgesOf table path := by
  unfold patchFileRelations
  simp only
  split_ifs with bare same same
  · rw [edgesOf_erase, if_pos same]
    exact (List.isEmpty_iff.1 bare).symm
  · rw [edgesOf_erase, if_neg same]
  · rw [edgesOf_insert, if_pos same]
  · rw [edgesOf_insert, if_neg same]

private theorem FileCallersTransposed.patch {table : FileRelationTable}
    {callers : HashMap EntityId (HashSet String)}
    (transposed : FileCallersTransposed table callers) (diff : FileRelationDiff) :
    FileCallersTransposed (patchFileRelations table diff)
      (reconcileFileCallers (patchFileRelations table diff) diff.filePath callers
        (touchedCallees diff)) := by
  refine ⟨?_, ?_⟩
  · intro path set found
    unfold patchFileRelations at found
    simp only at found
    split_ifs at found with bare
    · rw [HashMap.lookup_erase_eq] at found
      split_ifs at found
      exact transposed.nonempty path set found
    · rw [HashMap.lookup_insert_eq] at found
      split_ifs at found
      · obtain rfl := Option.some.inj found
        exact fun nil => bare (List.isEmpty_iff.2 nil)
      · exact transposed.nonempty path set found
  · intro callee path
    rw [mem_reconcileFileCallers, transposed.mem_iff]
    by_cases here : path = diff.filePath
    · subst here
      by_cases touched : callee ∈ touchedCallees diff
      · simp [touched]
      · rw [if_neg (fun both => touched both.2), stillCalls_iff, stillCalls_iff,
          edgesOf_patchFileRelations, if_pos rfl, mem_patchEdges_of_untouched touched]
        rfl
    · rw [if_neg (fun both => here both.1), stillCalls_iff, stillCalls_iff,
        edgesOf_patchFileRelations, if_neg here]

def applyFileRelationDiff (index : RelationIndex) (diff : FileRelationDiff) : RelationIndex :=
  { index with
    fileRelationIndex := patchFileRelations index.fileRelationIndex diff
    fileCallersByCallee :=
      reconcileFileCallers (patchFileRelations index.fileRelationIndex diff) diff.filePath
        index.fileCallersByCallee (touchedCallees diff)
    fileCallersTransposed := index.fileCallersTransposed.patch diff }

def applyFileRelationDiffs (index : RelationIndex) (diffs : List FileRelationDiff) :
    RelationIndex :=
  diffs.foldl applyFileRelationDiff index

end Edges

section ImportsExportsDependencies

def patchImports (imports : List StandardizedImport) (diff : ImportDiff) :
    List StandardizedImport :=
  diff.addedImports.foldl
    (fun imports item => if item ∈ imports then imports else imports ++ [item])
    (imports.filter fun item => item ∉ diff.removedImports)

def applyImportDiff (index : RelationIndex) (diff : ImportDiff) : RelationIndex :=
  { index with
    fileRecords := index.fileRecords.alter diff.filePath fun entry =>
      entry.map fun record =>
        { record with
          imports :=
            { record.imports with
              standardizedImports := patchImports record.imports.standardizedImports diff } } }

def applyImportDiffs (index : RelationIndex) (diffs : List ImportDiff) : RelationIndex :=
  diffs.foldl applyImportDiff index

def exportTypeOf (name : String) : ExportType :=
  if name = "default" then .default else if name = "wildcard" then .wildcard else .named

def keptExports (exports : List ExportInfo) (diff : ExportDiff) : List ExportInfo :=
  exports.filter fun item =>
    item.functionName ∉ diff.removedExports.map fun removed => removed.symbol.scopedName

def freshExports (exports : List ExportInfo) (diff : ExportDiff) : List CanonicalExport :=
  diff.addedExports.filter fun item =>
    item.symbol.scopedName ∉ (keptExports exports diff).map ExportInfo.functionName

def patchExports (entityOf : SymbolKey → Option EntityId) (exports : List ExportInfo)
    (diff : ExportDiff) : List ExportInfo :=
  keptExports exports diff ++ (freshExports exports diff).filterMap fun item =>
    (entityOf item.symbol).map fun entityId =>
      ⟨entityId, item.symbol.scopedName, exportTypeOf item.exportType⟩

def unresolvedExports (index : RelationIndex) (diff : ExportDiff) : List CanonicalExport :=
  match index.fileRecords.lookup diff.filePath with
  | none => []
  | some record =>
    (freshExports record.exports diff).filter fun item =>
      (index.symbolKeyToEntity.lookup item.symbol).isNone

def applyExportDiff (index : RelationIndex) (diff : ExportDiff) : RelationIndex :=
  { index with
    fileRecords := index.fileRecords.alter diff.filePath fun entry =>
      entry.map fun record =>
        { record with
          exports := patchExports index.symbolKeyToEntity.lookup record.exports diff }
    diagnostics :=
      { index.diagnostics with
        deltaExportUnresolvedCount :=
          index.diagnostics.deltaExportUnresolvedCount +
            (unresolvedExports index diff).length } }

def applyExportDiffs (index : RelationIndex) (diffs : List ExportDiff) : RelationIndex :=
  diffs.foldl applyExportDiff index

def patchDependencies (graph : FileDependencyGraph) (diff : DependencyDiff) :
    FileDependencyGraph :=
  diff.addedDependencies.foldl (fun graph target => graph.addDependency diff.sourceFile target)
    (diff.removedDependencies.foldl
      (fun graph target => graph.removeDependency diff.sourceFile target) graph)

def applyDependencyDiffs (index : RelationIndex) (diffs : List DependencyDiff) : RelationIndex :=
  { index with dependencyGraph := diffs.foldl patchDependencies index.dependencyGraph }

end ImportsExportsDependencies

variable [Sha256]

/-- Replay a delta in place, table group by table group. -/
def applyDelta (index : RelationIndex) (delta : SnapshotDelta) : RelationIndex :=
  let files := applyAddedFiles (applyRemovedFiles index delta.removedFiles) delta.addedFiles
  let entities :=
    applyAddedEntities
      (applyRenamedEntities (applyRemovedEntities files delta.removedEntities)
        delta.renamedEntities)
      delta.addedEntities
  let edges :=
    applyFileRelationDiffs
      (applyAddedRelations (applyRemovedRelations entities delta.removedRelations)
        delta.addedRelations)
      delta.fileRelationDiffs
  applyDependencyDiffs
    (applyExportDiffs (applyImportDiffs edges delta.importDiffs) delta.exportDiffs)
    delta.dependencyDiffs

end ContextEngine

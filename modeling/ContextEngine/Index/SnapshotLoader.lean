/- digest: Loading a canonical snapshot into a fresh index, with every error it can report. -/

import ContextEngine.Index.ApplyDelta
import ContextEngine.Types.Canonical

set_option autoImplicit false

namespace ContextEngine

namespace RelationIndex

variable (index : RelationIndex)

def addFile (file : FileInfo) : RelationIndex :=
  { index with
    fileRecords := index.fileRecords.alter file.id fun entry =>
      some { entry.getD defaultFileRecord with info := file } }

def addImportTable (fileId : String) (importTable : ImportTable) :
    RelationIndex :=
  { index with
    fileRecords := index.fileRecords.alter fileId fun entry =>
      some { entry.getD defaultFileRecord with imports := importTable } }

def addExports (fileId : String) (exports : List ExportInfo) :
    RelationIndex :=
  { index with
    fileRecords := index.fileRecords.alter fileId fun entry =>
      some { entry.getD defaultFileRecord with exports := exports } }

end RelationIndex

def StableSymbolKey.isFilePlaceholder (key : StableSymbolKey) : Bool :=
  decide (key.scopedName = "<file>" ∧ key.kind = .moduleKind)

def CanonicalRelationSnapshot.validateVersions (snapshot : CanonicalRelationSnapshot) :
    Except String Unit :=
  if snapshot.schemaVersion ≠ StableSymbolKey.schemaVersion ∨
      snapshot.parserVersion ≠ relationParserVersion ∨
      snapshot.resolverVersion ≠ relationResolverVersion ∨
      snapshot.pathNormalizationVersion ≠ relationPathNormalizationVersion then
    .error "relationship snapshot version is not supported"
  else .ok ()

namespace RelationSnapshotLoader

section Files

def dependenciesByFile (snapshot : CanonicalRelationSnapshot) : HashMap String (List String) :=
  snapshot.dependencies.foldl
    (fun table dependency => table.bucketPush dependency.sourceFile dependency.targetFile) ∅

/-- The record of one file; its dependency targets are taken out of the table. -/
def loadFile (snapshot : CanonicalRelationSnapshot)
    (state : RelationIndex × HashMap String (List String)) (file : CanonicalFile) :
    RelationIndex × HashMap String (List String) :=
  let info : FileInfo :=
    { id := file.path
      path := file.path
      language := file.language
      fileHash := file.inputHash
      fileSize := file.fileSize
      modifiedTime := 0
      parseStatus := .success
      parseErrors := []
      parseVersion := snapshot.parserVersion
      entityCount := (snapshot.entities.filter fun e => e.key.filePath = file.path).length
      relationCount := (snapshot.relations.filter fun r => r.caller.filePath = file.path).length
      exportCount := file.exports.length
      importCount := file.imports.length
      dependsOn := state.2.bucket file.path }
  ((state.1.addFile info).addImportTable file.path ⟨file.path, file.imports⟩,
    state.2.erase file.path)

end Files

section Ids

/-- The numbers taken so far, the next one to try, and the number of every key. -/
structure IdAssignment where
  usedIds : List EntityId
  nextFallback : EntityId
  symbolIds : HashMap SymbolKey EntityId

/-- The first number from `next` on that is not used: one among the next few is not. -/
def skipUsed (usedIds : List EntityId) (next : EntityId) : EntityId :=
  (((List.range (usedIds.length + 1)).map fun skipped => asU64 (next + skipped)).find? fun id => id
    ∉ usedIds).getD next

/-- Give an entity its own number or the next fallback; a key may occur once. -/
def assignId (state : IdAssignment) (canonical : CanonicalEntity) : Except String IdAssignment :=
  let assigned : IdAssignment :=
    match canonical.entityId with
    | some id => { state with symbolIds := state.symbolIds.insert canonical.key id }
    | none =>
      let id := skipUsed state.usedIds state.nextFallback
      { usedIds := id :: state.usedIds
        nextFallback := asU64 (id + 1)
        symbolIds := state.symbolIds.insert canonical.key id }
  if (state.symbolIds.lookup canonical.key).isSome then
    .error s!"duplicate stable symbol {canonical.key.scopedName}"
  else .ok assigned

/-- The assignment before the first entity: fallbacks start above every given number. -/
def initialIds (snapshot : CanonicalRelationSnapshot) : IdAssignment :=
  let given := snapshot.entities.filterMap CanonicalEntity.entityId
  { usedIds := given
    nextFallback := if given.isEmpty then 1 else asU64 (given.foldl max 0 + 1)
    symbolIds := ∅ }

def requiredId (ids : HashMap SymbolKey EntityId) (key : SymbolKey) (role : String) :
    Except String EntityId :=
  match ids.lookup key with
  | some id => .ok id
  | none => .error s!"{role} references missing stable symbol {key.filePath}::{key.scopedName}"

/-- The number of an optional key. -/
def requiredIdOf (ids : HashMap SymbolKey EntityId) (key : Option SymbolKey) (role : String) :
    Except String (Option EntityId) :=
  match key with
  | some key => (requiredId ids key role).map some
  | none => .ok none

end Ids

section Entities

/-- The entity a canonical record stands for, under its numbers. -/
def restoredEntity (canonical : CanonicalEntity) (entityId : EntityId)
    (parent : Option EntityId) (children : List EntityId) : Entity where
  id := entityId
  kind := canonical.key.kind
  name := canonical.name
  signature := canonical.signature
  parameters := canonical.parameters
  returnType := canonical.returnType
  span := canonical.span
  depth := canonical.depth
  parent := parent
  children := children
  docComment := canonical.docComment
  modifiers := canonical.modifiers
  attributes := HashMap.extend ∅ canonical.attributes
  metadata := HashMap.extend ∅ canonical.metadata
  isStdlib := canonical.isStdlib
  stdlibCategory := canonical.stdlibCategory
  subtype := canonical.subtype

variable [Sha256]

def loadEntity (snapshot : CanonicalRelationSnapshot) (symbolIds : HashMap SymbolKey EntityId)
    (index : RelationIndex) (canonical : CanonicalEntity) : Except String RelationIndex := do
  let entityId ← requiredId symbolIds canonical.key "entity"
  let parent ← requiredIdOf symbolIds canonical.parent "parent"
  let children ← (snapshot.entities.filter fun candidate =>
    candidate.parent = some canonical.key).mapM fun candidate =>
      requiredId symbolIds candidate.key "child"
  let entity := restoredEntity canonical entityId parent children
  return (index.addFunctionWithPath entityId entity canonical.key.filePath).registerSymbolKey
    canonical.key.filePath canonical.key.scopedName entity entityId

end Entities

section Exports

def parseExportType (value : String) : Except String ExportType :=
  if value = "named" then .ok .named
  else if value = "default" then .ok .default
  else if value = "wildcard" then .ok .wildcard
  else .error s!"invalid canonical export type: {value}"

def loadExport (symbolIds : HashMap SymbolKey EntityId) (item : CanonicalExport) :
    Except String ExportInfo := do
  let functionId ← requiredId symbolIds item.symbol "export"
  let exportType ← parseExportType item.exportType
  return ⟨functionId, item.symbol.scopedName, exportType⟩

def loadExports (symbolIds : HashMap SymbolKey EntityId) (index : RelationIndex)
    (file : CanonicalFile) : Except String RelationIndex := do
  let exports ← file.exports.mapM (loadExport symbolIds)
  return if exports.isEmpty then index else index.addExports file.path exports

end Exports

section Relations

/-- The edge a canonical record stands for, under its numbers. -/
def restoredRelation (canonical : CanonicalRelation) (caller : EntityId)
    (calleeId : Option EntityId) : ResolvedRelation where
  caller := caller
  calleeId := calleeId
  calleeName := canonical.rawTarget
  relationType := canonical.relationType
  span := canonical.span
  isExternal :=
    match canonical.target with
    | .external _ => true
    | _ => false
  externalType :=
    match canonical.target with
    | .external classification => classification
    | _ => none
  calleeSymbol := canonical.calleeSymbol
  stdlibCategory := canonical.stdlibCategory
  ownerType := canonical.ownerType
  callContext := canonical.callContext
  overloadSignature := canonical.overloadSignature
  callFrequency := canonical.callFrequency
  cfgCondition := canonical.cfgCondition

/-- The key an edge refers to inside the snapshot. -/
def CanonicalRelationTarget.internalKey : CanonicalRelationTarget → Option SymbolKey
  | .internal key => some key
  | _ => none

def loadRelation (symbolIds : HashMap SymbolKey EntityId) (index : RelationIndex)
    (canonical : CanonicalRelation) : Except String RelationIndex := do
  let calleeId ← requiredIdOf symbolIds
    (CanonicalRelationTarget.internalKey canonical.target) "relation target"
  if canonical.caller.isFilePlaceholder then
    return index.addFileRelation canonical.caller.filePath (restoredRelation canonical 0 calleeId)
  else do
    let caller ← requiredId symbolIds canonical.caller "relation caller"
    return index.addResolvedRelation (restoredRelation canonical caller calleeId)

end Relations

variable [Sha256]

/-- Files, entities, exports and edges in turn; the counter is set above the largest stored
number before the dependencies are added. -/
def buildIndex (snapshot : CanonicalRelationSnapshot) : Except String RelationIndex := do
  let files := snapshot.files.foldl (loadFile snapshot)
    (RelationIndex.new, dependenciesByFile snapshot)
  let ids ← snapshot.entities.foldlM assignId (initialIds snapshot)
  let entities ← snapshot.entities.foldlM (loadEntity snapshot ids.symbolIds) files.1
  let exports ← snapshot.files.foldlM (loadExports ids.symbolIds) entities
  let relations ← snapshot.relations.foldlM (loadRelation ids.symbolIds) exports
  return { relations with
    entityIdCounter := asU64 (relations.functionIndex.keys.foldl max 0 + 1)
    dependencyGraph := snapshot.dependencies.foldl
      (fun graph dependency => graph.addDependency dependency.sourceFile dependency.targetFile)
      relations.dependencyGraph }

def loadCanonical (snapshot : CanonicalRelationSnapshot) : Except String RelationIndex := do
  snapshot.validateVersions
  buildIndex snapshot

end RelationSnapshotLoader

end ContextEngine

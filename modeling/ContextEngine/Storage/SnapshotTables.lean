/- digest: The rows that a canonical snapshot is stored in, their writer, reader and checks. -/

import Mathlib.Data.List.Destutter
import Mathlib.Data.Prod.Lex
import ContextEngine.Index.SnapshotLoader
import ContextEngine.Lib.UniqueRows

set_option autoImplicit false

namespace ContextEngine

def UnresolvedReason.fromStr (value : String) : Except String UnresolvedReason :=
  if value = "symbol_not_resolved" then .ok .symbolNotFound
  else .error s!"invalid unresolved reason: {value}"

/-- `serde_json` on the paths and hashes that `input_fingerprint` reads. -/
class InputJson where
  ofFiles : List (String × String) → String

def CanonicalRelationSnapshot.inputFingerprint [Sha256] [InputJson]
    (snapshot : CanonicalRelationSnapshot) : String :=
  Sha256.hexDigest (asBytes (InputJson.ofFiles
    (sortByKey toLex (snapshot.files.map fun file => (file.path, file.inputHash)))))

namespace SnapshotTables

section Rows

structure FileRow where
  id : Nat
  path : String
  language : String
  inputHash : String
  fileSize : Nat
  imports : List StandardizedImport

structure EntityRow where
  id : Nat
  fileId : Nat
  scopedName : String
  kind : EntityKind
  overloadDiscriminator : String
  entityId : Option EntityId
  name : String
  signature : String
  parameters : List (String × Option String)
  returnType : Option String
  span : Span
  depth : Nat
  parentSymbolId : Option Nat
  docComment : Option String
  modifiers : List String
  attributes : BTreeMap String String
  metadata : BTreeMap String String
  isStdlib : Bool
  stdlibCategory : Option StdlibCategory
  subtype : Option String

structure RelationRow where
  callerSymbolId : Nat
  targetSymbolId : Option Nat
  targetState : String
  rawTarget : String
  relationType : RelationType
  span : Span
  externalType : Option ExternalCallType
  unresolvedReason : Option String
  stdlibCategory : Option StdlibCategory
  callContext : Option CallContext
  ownerType : Option String
  overloadSignature : Option String
  calleeSymbol : Option RelationSymbolRecord
  callFrequency : Nat
  cfgCondition : Option String

structure ExportRow where
  fileId : Nat
  symbolId : Nat
  exportType : String
  deriving DecidableEq

structure DependencyRow where
  sourceFileId : Nat
  targetPath : String
  source : String
  deriving DecidableEq

structure Rows where
  files : List FileRow
  entities : List EntityRow
  relations : List RelationRow
  exports : List ExportRow
  dependencies : List DependencyRow

/-- The row of a full snapshot in `relation_snapshot_manifest`. -/
structure Manifest where
  schemaVersion : Nat
  parserVersion : Nat
  resolverVersion : Nat
  pathNormalizationVersion : Nat
  configFingerprint : String
  inputFingerprint : Option String
  snapshotFingerprint : Option String
  fileCount : Option Nat
  entityCount : Option Nat
  relationCount : Option Nat
  dependencyCount : Option Nat

def SameSymbol (a b : EntityRow) : Prop :=
  a.fileId = b.fileId ∧ a.scopedName = b.scopedName ∧ a.kind = b.kind ∧
    a.overloadDiscriminator = b.overloadDiscriminator
  deriving Decidable

end Rows

def required {K V : Type} [DecidableEq K] (values : HashMap K V) (key : K) (role : String) :
    Except String V :=
  match values.lookup key with
  | some value => .ok value
  | none => .error s!"missing {role}"

section Writer

variable (snapshot : CanonicalRelationSnapshot)

def placeholders : List StableSymbolKey :=
  (sortByKey StableSymbolKey.sortKey ((snapshot.relations.map CanonicalRelation.caller).filter
    StableSymbolKey.isFilePlaceholder)).destutter fun a b => a.sortKey ≠ b.sortKey

def placeholderEntity (key : StableSymbolKey) : CanonicalEntity where
  key := key
  entityId := none
  name := "<file>"
  signature := ""
  parameters := []
  returnType := none
  span := ⟨0, 0, ⟨0, 0⟩, ⟨0, 0⟩⟩
  depth := 0
  parent := none
  docComment := none
  modifiers := []
  attributes := []
  metadata := []
  isStdlib := false
  stdlibCategory := none
  subtype := none

def storageEntities : List CanonicalEntity :=
  snapshot.entities ++ (placeholders snapshot).map placeholderEntity

def fileRow (file : CanonicalFile) (id : Nat) : FileRow where
  id := id
  path := file.path
  language := file.language
  inputHash := file.inputHash
  fileSize := file.fileSize
  imports := file.imports

def entityRow (fileId : Nat) (entity : CanonicalEntity) (id : Nat) : EntityRow where
  id := id
  fileId := fileId
  scopedName := entity.key.scopedName
  kind := entity.key.kind
  overloadDiscriminator := entity.key.overloadDiscriminator
  entityId := entity.entityId
  name := entity.name
  signature := entity.signature
  parameters := entity.parameters
  returnType := entity.returnType
  span := entity.span
  depth := entity.depth
  parentSymbolId := none
  docComment := entity.docComment
  modifiers := entity.modifiers
  attributes := entity.attributes
  metadata := entity.metadata
  isStdlib := entity.isStdlib
  stdlibCategory := entity.stdlibCategory
  subtype := entity.subtype

def setParent (symbolIds : HashMap StableSymbolKey Nat) (entity : CanonicalEntity)
    (row : EntityRow) : Except String EntityRow :=
  match entity.parent with
  | some parent => do
      let parentId ← required symbolIds parent "parent entity"
      return { row with parentSymbolId := some parentId }
  | none => .ok row

def targetId (symbolIds : HashMap StableSymbolKey Nat) (relation : CanonicalRelation) :
    Except String (Option Nat) :=
  match relation.target with
  | .internal key => some <$> required symbolIds key "relation target"
  | .external _ => .ok none
  | .unresolved _ => .ok none

def relationRow (callerId : Nat) (targetId : Option Nat) (relation : CanonicalRelation) :
    RelationRow where
  callerSymbolId := callerId
  targetSymbolId := targetId
  targetState :=
    match relation.target with
    | .internal _ => "internal"
    | .external _ => "external"
    | .unresolved _ => "unresolved"
  rawTarget := relation.rawTarget
  relationType := relation.relationType
  span := relation.span
  externalType :=
    match relation.target with
    | .internal _ => none
    | .external classification => classification
    | .unresolved _ => none
  unresolvedReason :=
    match relation.target with
    | .internal _ => none
    | .external _ => none
    | .unresolved reason => some reason.asStr
  stdlibCategory := relation.stdlibCategory
  callContext := some relation.callContext
  ownerType := relation.ownerType
  overloadSignature := relation.overloadSignature
  calleeSymbol := relation.calleeSymbol
  callFrequency := relation.callFrequency
  cfgCondition := relation.cfgCondition

def exportRows (fileIds : HashMap String Nat) (symbolIds : HashMap StableSymbolKey Nat)
    (file : CanonicalFile) : Except String (List ExportRow) := do
  let fileId ← required fileIds file.path "export file"
  return file.exports.filterMap fun item =>
    (symbolIds.lookup item.symbol).map fun symbolId => ⟨fileId, symbolId, item.exportType⟩

def dependencyRow (fileIds : HashMap String Nat) (dependency : CanonicalDependency) :
    Except String DependencyRow := do
  let sourceId ← required fileIds dependency.sourceFile "dependency source"
  return ⟨sourceId, dependency.targetFile, dependency.source⟩

def writeRows (fileSequence symbolSequence : Nat) : Except String Rows := do
  let numberedFiles := snapshot.files.zipIdx (fileSequence + 1)
  let files ← UniqueRows.insertAll (fun a b => a.path = b.path) "relation_snapshot_files" []
    (numberedFiles.map fun numbered => fileRow numbered.1 numbered.2)
  let fileIds := HashMap.extend ∅ (numberedFiles.map fun numbered =>
    (numbered.1.path, numbered.2))
  let numberedEntities := (storageEntities snapshot).zipIdx (symbolSequence + 1)
  let entityRows ← numberedEntities.mapM fun numbered => do
    let fileId ← required fileIds numbered.1.key.filePath "entity file"
    return entityRow fileId numbered.1 numbered.2
  let inserted ← UniqueRows.insertAll SameSymbol "relation_snapshot_entities" [] entityRows
  let symbolIds := HashMap.extend ∅ (numberedEntities.map fun numbered =>
    (numbered.1.key, numbered.2))
  let entities ← ((storageEntities snapshot).zip inserted).mapM fun stored =>
    setParent symbolIds stored.1 stored.2
  let targetIds ← snapshot.relations.mapM (targetId symbolIds)
  let relations ← (snapshot.relations.zip targetIds).mapM fun stored => do
    let callerId ← required symbolIds stored.1.caller "relation caller"
    return relationRow callerId stored.2 stored.1
  let fileExports ← snapshot.files.mapM (exportRows fileIds symbolIds)
  let exports ← UniqueRows.insertAll (fun a b => a = b) "relation_snapshot_exports" []
    fileExports.flatten
  let dependencyRows ← snapshot.dependencies.mapM (dependencyRow fileIds)
  let dependencies ← UniqueRows.insertAll (fun a b => a = b) "relation_snapshot_dependencies" []
    dependencyRows
  return ⟨files, entities, relations, exports, dependencies⟩

def readyManifest (inputFingerprint snapshotFingerprint : String) : Manifest where
  schemaVersion := StableSymbolKey.schemaVersion
  parserVersion := relationParserVersion
  resolverVersion := relationResolverVersion
  pathNormalizationVersion := relationPathNormalizationVersion
  configFingerprint := snapshot.configFingerprint
  inputFingerprint := some inputFingerprint
  snapshotFingerprint := some snapshotFingerprint
  fileCount := some snapshot.files.length
  entityCount := some snapshot.entities.length
  relationCount := some snapshot.relations.length
  dependencyCount := some snapshot.dependencies.length

def writeSnapshotAndMarkReady (fileSequence symbolSequence : Nat)
    (inputFingerprint snapshotFingerprint : String) : Except String (Rows × Manifest) := do
  let rows ← writeRows snapshot fileSequence symbolSequence
  return (rows, readyManifest snapshot inputFingerprint snapshotFingerprint)

end Writer

section Reader

def FileRow.read (row : FileRow) : CanonicalFile where
  path := row.path
  language := row.language
  inputHash := row.inputHash
  fileSize := row.fileSize
  imports := row.imports
  exports := []

def EntityRow.key (row : EntityRow) (path : String) : StableSymbolKey :=
  ⟨path, row.scopedName, row.kind, row.overloadDiscriminator⟩

def EntityRow.read (row : EntityRow) (key : StableSymbolKey) (parent : Option StableSymbolKey) :
    CanonicalEntity where
  key := key
  entityId := row.entityId
  name := row.name
  signature := row.signature
  parameters := row.parameters
  returnType := row.returnType
  span := row.span
  depth := row.depth
  parent := parent
  docComment := row.docComment
  modifiers := row.modifiers
  attributes := row.attributes
  metadata := row.metadata
  isStdlib := row.isStdlib
  stdlibCategory := row.stdlibCategory
  subtype := row.subtype

variable (entityIds : HashMap Nat StableSymbolKey)

def readParent (row : EntityRow) :
    Except String (Option StableSymbolKey) :=
  match row.parentSymbolId with
  | some parentId => some <$> required entityIds parentId "parent symbol"
  | none => .ok none

def readTarget (row : RelationRow) :
    Except String CanonicalRelationTarget :=
  if row.targetState = "internal" then
    match row.targetSymbolId with
    | some targetId => .internal <$> required entityIds targetId "relation target"
    | none => .error "internal relation has no target"
  else if row.targetState = "external" then .ok (.external row.externalType)
  else if row.targetState = "unresolved" then
    match row.unresolvedReason with
    | some reason => .unresolved <$> UnresolvedReason.fromStr reason
    | none => .error "unresolved relation has no reason"
  else .error s!"invalid relation target state: {row.targetState}"

def readRelation (row : RelationRow) :
    Except String CanonicalRelation := do
  let target ← readTarget entityIds row
  let caller ← required entityIds row.callerSymbolId "relation caller"
  return {
    caller := caller
    target := target
    rawTarget := row.rawTarget
    relationType := row.relationType
    span := row.span
    stdlibCategory := row.stdlibCategory
    overloadSignature := row.overloadSignature
    calleeSymbol := row.calleeSymbol
    ownerType := row.ownerType
    callContext := row.callContext.getD .direct
    callFrequency := row.callFrequency
    cfgCondition := row.cfgCondition }

def readExport (files : HashMap Nat CanonicalFile) (entityIds : HashMap Nat StableSymbolKey)
    (row : ExportRow) : Except String (Nat × CanonicalExport) := do
  let _ ← required files row.fileId "export file"
  let symbol ← required entityIds row.symbolId "export symbol"
  return (row.fileId, ⟨symbol, row.exportType⟩)

def readDependency (files : HashMap Nat CanonicalFile) (row : DependencyRow) :
    Except String CanonicalDependency := do
  let file ← required files row.sourceFileId "dependency source"
  return ⟨file.path, row.targetPath, row.source⟩

variable (manifest : Manifest) (rows : Rows)

def joined : List (EntityRow × StableSymbolKey) :=
  (sortByKey EntityRow.id rows.entities).flatMap fun row =>
    (rows.files.filter fun file => file.id = row.fileId).map fun file => (row, row.key file.path)

def readComponents : Except String CanonicalRelationSnapshot := do
  let fileRows := sortByKey FileRow.path rows.files
  let files := HashMap.extend ∅ (fileRows.map fun row => (row.id, row.read))
  let symbols := joined rows
  let entityIds := HashMap.extend ∅ (symbols.map fun symbol => (symbol.1.id, symbol.2))
  let entities ← (symbols.filter fun symbol => !symbol.2.isFilePlaceholder).mapM fun symbol => do
    let parent ← readParent entityIds symbol.1
    return symbol.1.read symbol.2 parent
  let relations ← rows.relations.mapM (readRelation entityIds)
  let exports ← rows.exports.mapM (readExport files entityIds)
  let dependencies ← rows.dependencies.mapM (readDependency files)
  return {
    schemaVersion := manifest.schemaVersion
    parserVersion := manifest.parserVersion
    resolverVersion := manifest.resolverVersion
    pathNormalizationVersion := manifest.pathNormalizationVersion
    configFingerprint := manifest.configFingerprint
    files := fileRows.map fun row =>
      { row.read with
        exports := (exports.filter fun item => item.1 = row.id).map Prod.snd }
    entities := entities
    relations := relations
    dependencies := dependencies }

def readSnapshot [SerdeJson] : Except String CanonicalRelationSnapshot :=
  CanonicalRelationSnapshot.normalize <$> readComponents manifest rows

end Reader

section Checks

variable (snapshot : CanonicalRelationSnapshot)

/-- The sort keys of the first keys that were there before. -/
def duplicateKeys (keys : List StableSymbolKey) : List String :=
  ((keys.zipIdx.filter fun numbered => numbered.1 ∈ keys.take numbered.2).map fun numbered =>
    numbered.1.sortKey).take 5

variable (paths : List String)

def validateEntity (keys : List StableSymbolKey)
    (entity : CanonicalEntity) : Except String Unit :=
  if entity.key.filePath ∉ paths then
    .error s!"entity {entity.key.scopedName} references a missing file"
  else if ∃ parent ∈ entity.parent, parent ∉ keys then
    .error s!"entity {entity.key.scopedName} references a missing parent"
  else .ok ()

def internalTarget (target : CanonicalRelationTarget) : Option StableSymbolKey :=
  match target with
  | .internal key => some key
  | .external _ => none
  | .unresolved _ => none

def validateRelation (keys : List StableSymbolKey)
    (relation : CanonicalRelation) : Except String Unit :=
  if relation.caller ∉ keys ∧
      ¬ (relation.caller.isFilePlaceholder = true ∧ relation.caller.filePath ∈ paths) then
    .error (s!"relation to '{relation.rawTarget}' references a missing caller " ++
      relation.caller.sortKey)
  else if ∃ target ∈ internalTarget relation.target, target ∉ keys then
    .error s!"relation {relation.rawTarget} references a missing internal target"
  else .ok ()

def validateDependency (dependency : CanonicalDependency) :
    Except String Unit :=
  if dependency.sourceFile ∉ paths then
    .error s!"dependency source {dependency.sourceFile} is not in the snapshot"
  else .ok ()

def validateSnapshot : Except String Unit :=
  let paths := snapshot.files.map CanonicalFile.path
  let keys := snapshot.entities.map CanonicalEntity.key
  if paths.dedup.length ≠ snapshot.files.length then
    .error "canonical snapshot contains duplicate file paths"
  else if keys.dedup.length ≠ snapshot.entities.length then
    .error ("canonical snapshot contains duplicate stable symbol keys: " ++
      String.intercalate ", " (duplicateKeys keys))
  else do
    snapshot.entities.forM (validateEntity paths keys)
    snapshot.relations.forM (validateRelation paths keys)
    snapshot.dependencies.forM (validateDependency paths)

variable [Sha256] [SerdeJson] [InputJson]

/-- `allocate_and_write` under a new operation, in a project where the last ids given are known. -/
def allocateAndWrite (fileSequence symbolSequence : Nat) : Except String (Rows × Manifest) := do
  snapshot.validateVersions
  validateSnapshot snapshot
  writeSnapshotAndMarkReady snapshot fileSequence symbolSequence snapshot.inputFingerprint
    snapshot.fingerprint

def validateManifest (manifest : Manifest) : Except String Unit := do
  snapshot.validateVersions
  if manifest.schemaVersion ≠ snapshot.schemaVersion ∨
      manifest.parserVersion ≠ snapshot.parserVersion ∨
      manifest.resolverVersion ≠ snapshot.resolverVersion ∨
      manifest.pathNormalizationVersion ≠ snapshot.pathNormalizationVersion ∨
      manifest.configFingerprint ≠ snapshot.configFingerprint then
    .error "relation manifest version/config does not match its payload"
  else if (some snapshot.files.length, some snapshot.entities.length,
      some snapshot.relations.length, some snapshot.dependencies.length) ≠
      (manifest.fileCount, manifest.entityCount, manifest.relationCount,
        manifest.dependencyCount) then
    .error "relation manifest counts do not match its payload"
  else if manifest.inputFingerprint ≠ some snapshot.inputFingerprint then
    .error "relation input fingerprint mismatch"
  else if manifest.snapshotFingerprint ≠ some snapshot.fingerprint then
    .error "relation snapshot fingerprint mismatch"
  else .ok ()

end Checks

end SnapshotTables

end ContextEngine

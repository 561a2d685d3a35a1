/- digest: Exporting an index as a canonical snapshot, and fingerprinting it without one. -/

import ContextEngine.Types.Canonical
import ContextEngine.Index.SnapshotIndex
import ContextEngine.Index.ApplyDelta

set_option autoImplicit false

namespace ContextEngine

section Records

/-- The canonical record of a file; `exportKey` is the key an export is listed under. -/
def canonicalFileOf (exportKey : ExportInfo → SymbolKey) (record : FileRecord) :
    CanonicalFile where
  path := normalizeProjectPath record.info.path
  language := record.info.language
  inputHash := record.info.fileHash
  fileSize := record.info.fileSize
  imports := record.imports.standardizedImports
  exports := record.exports.map fun item => ⟨exportKey item, exportTypeName item.exportType⟩

def canonicalEntityOf (key : SymbolKey) (parent : Option SymbolKey) (entityId : Option EntityId)
    (entity : Entity) : CanonicalEntity where
  key := key
  entityId := entityId
  name := entity.name
  signature := entity.signature
  parameters := entity.parameters
  returnType := entity.returnType
  span := entity.span
  depth := entity.depth
  parent := parent
  docComment := entity.docComment
  modifiers := entity.modifiers
  attributes := collectSorted entity.attributes
  metadata := collectSorted entity.metadata
  isStdlib := entity.isStdlib
  stdlibCategory := entity.stdlibCategory
  subtype := entity.subtype

def canonicalTargetOf (keyOf : EntityId → String → SymbolKey) (relation : ResolvedRelation) :
    CanonicalRelationTarget :=
  match relation.calleeId with
  | some calleeId => .internal (keyOf calleeId relation.calleeName)
  | none =>
    if relation.isExternal && relation.externalType.isSome then .external relation.externalType
    else .unresolved .symbolNotFound

def canonicalRelationOf (keyOf : EntityId → String → SymbolKey) (caller : SymbolKey)
    (relation : ResolvedRelation) : CanonicalRelation where
  caller := caller
  target := canonicalTargetOf keyOf relation
  rawTarget := relation.calleeName
  relationType := relation.relationType
  span := relation.span
  stdlibCategory := relation.stdlibCategory
  overloadSignature := relation.overloadSignature
  calleeSymbol := relation.calleeSymbol
  ownerType := canonicalOwnerType relation.ownerType
  callContext := canonicalCallContext relation.callContext
  callFrequency := relation.callFrequency
  cfgCondition := relation.cfgCondition

/-- The per-file placeholder caller of file-level edges. -/
def fileCallerKey [Sha256] (path : String) : SymbolKey := .new path "<file>" .moduleKind

def canonicalDependencyOf (sourceFile target : String) : CanonicalDependency where
  sourceFile := sourceFile
  targetFile := normalizeProjectPath target
  source := "resolved_or_import"

end Records

namespace RelationIndex

section Keys

variable [Sha256] (index : RelationIndex)

def keyOrDerived (madeUp : String → SymbolKey) (entityId : EntityId) : SymbolKey :=
  match index.entityToSymbolKey.lookup entityId with
  | some key => key
  | none =>
    let file := (index.entityFileIndex.lookup entityId).getD ""
    match index.functionIndex.lookup entityId with
    | some entity => .forEntity file entity.name entity
    | none => madeUp file

variable (entityId : EntityId)

def entityKeyOrDerived : SymbolKey :=
  index.keyOrDerived (fun file => .new file "<unknown>" .unknown) entityId

def relationKeyOrDerived (nameFallback : String) : SymbolKey :=
  index.keyOrDerived (fun file => .new file nameFallback .unknown) entityId

def symbolKeyOfId (nameFallback : String) : SymbolKey :=
  index.keyOrDerived (fun file => .new file nameFallback .function) entityId

/-- The registered key of the exported function, else one made from the export itself. -/
def exportKeyOrNamed (path : String) (item : ExportInfo) : SymbolKey :=
  (index.entityToSymbolKey.lookup item.functionId).getD (.new path item.functionName .function)

end Keys

section Export

variable [Sha256] [SerdeJson] (index : RelationIndex)

/-- The components of the export before they are normalized. -/
def canonicalComponents (configFingerprint : String) : CanonicalRelationSnapshot :=
  let files := index.fileRecords.values.map fun record =>
    canonicalFileOf (fun item => index.entityKeyOrDerived item.functionId) record
  { configFingerprint
    files
    entities := index.functionIndex.toList.map fun entry =>
      canonicalEntityOf (index.entityKeyOrDerived entry.1)
        (entry.2.parent.map index.entityKeyOrDerived) (some entry.1) entry.2
    relations :=
      (index.resolvedRelationIndex.toList.flatMap fun entry =>
        entry.2.edges.map fun relation =>
          canonicalRelationOf index.relationKeyOrDerived
            (index.relationKeyOrDerived relation.caller "") relation) ++
      index.fileRelationIndex.toList.flatMap fun entry =>
        entry.2.edges.map fun relation =>
          canonicalRelationOf index.relationKeyOrDerived (fileCallerKey entry.1) relation
    dependencies := files.flatMap fun file =>
      (index.dependencyGraph.getDependencies file.path).map (canonicalDependencyOf file.path) }

/-- Export the full graph; no input makes it fail. -/
def toCanonicalSnapshot (configFingerprint : String) : CanonicalRelationSnapshot :=
  (index.canonicalComponents configFingerprint).normalize

end Export

section Fingerprint

variable [Sha256] [SerdeJson] (index : RelationIndex)

def activeFileSet : HashSet String :=
  .ofList <|
    (index.fileRecords.toList.flatMap fun entry =>
      [entry.1, normalizeProjectPath entry.1, normalizeProjectPath entry.2.info.path]) ++
    index.entityFileIndex.values

variable (files : HashSet String)

def inFiles (entityId : EntityId) : Bool :=
  match index.entityFileIndex.lookup entityId with
  | some file => file ∈ files
  | none => true

def componentsInFiles : CanonicalRelationSnapshot :=
  let visible := index.fileRecords.values.filter fun record =>
    normalizeProjectPath record.info.path ∈ files
  let canonicalFiles := visible.map fun record =>
    canonicalFileOf (index.exportKeyOrNamed (normalizeProjectPath record.info.path)) record
  { configFingerprint := ""
    files := canonicalFiles
    entities :=
      (index.functionIndex.toList.filter fun entry => index.inFiles files entry.1).map fun entry =>
        canonicalEntityOf (index.symbolKeyOfId entry.1 entry.2.name)
          (entry.2.parent.map fun parent => index.symbolKeyOfId parent entry.2.name) none entry.2
    relations :=
      ((index.resolvedRelationIndex.toList.filter fun entry =>
        index.inFiles files entry.1).flatMap fun entry =>
          entry.2.edges.map fun relation =>
            canonicalRelationOf index.symbolKeyOfId (index.symbolKeyOfId entry.1 "") relation) ++
      (index.fileRelationIndex.toList.filter fun entry => entry.1 ∈ files).flatMap fun entry =>
        entry.2.edges.map fun relation =>
          canonicalRelationOf index.symbolKeyOfId (fileCallerKey entry.1) relation
    dependencies := canonicalFiles.flatMap fun file =>
      ((index.dependencyGraph.getDependencies file.path).filter fun target =>
        normalizeProjectPath target ∈ files).map (canonicalDependencyOf file.path) }

def fingerprintInFiles : String :=
  (index.componentsInFiles files).fingerprint

def computeFingerprint : String := index.fingerprintInFiles index.activeFileSet

end Fingerprint

end RelationIndex

end ContextEngine

/- digest: The canonical snapshot model, its component order and the payload its fingerprint hashes.
   -/

import Mathlib.Data.String.Basic
import ContextEngine.Lib.Sorting
import ContextEngine.Types.Relation

set_option autoImplicit false

namespace ContextEngine

/-- `BTreeMap`: the entries in ascending order of their distinct keys. -/
abbrev BTreeMap (K V : Type) := List (K × V)

def collectSorted (map : HashMap String String) : BTreeMap String String :=
  sortByKey Prod.fst map.toList

def relationParserVersion : Nat := 1

def relationResolverVersion : Nat := 1

def relationPathNormalizationVersion : Nat := 1

inductive UnresolvedReason where
  | symbolNotFound
  deriving DecidableEq

def UnresolvedReason.asStr : UnresolvedReason → String
  | symbolNotFound => "symbol_not_resolved"

structure CanonicalEntity where
  key : StableSymbolKey
  entityId : Option EntityId
  name : String
  signature : String
  parameters : List (String × Option String)
  returnType : Option String
  span : Span
  depth : Nat
  parent : Option StableSymbolKey
  docComment : Option String
  modifiers : List String
  attributes : BTreeMap String String
  metadata : BTreeMap String String
  isStdlib : Bool
  stdlibCategory : Option StdlibCategory
  subtype : Option String
  deriving DecidableEq

inductive CanonicalRelationTarget where
  | internal (key : StableSymbolKey)
  | external (classification : Option ExternalCallType)
  | unresolved (reason : UnresolvedReason)
  deriving DecidableEq

structure CanonicalRelation where
  caller : StableSymbolKey
  target : CanonicalRelationTarget
  rawTarget : String
  relationType : RelationType
  span : Span
  stdlibCategory : Option StdlibCategory
  overloadSignature : Option String
  calleeSymbol : Option RelationSymbolRecord
  ownerType : Option String
  callContext : CallContext
  callFrequency : Nat
  cfgCondition : Option String
  deriving DecidableEq

structure CanonicalFile where
  path : String
  language : String
  inputHash : String
  fileSize : Nat
  imports : List StandardizedImport
  exports : List CanonicalExport
  deriving DecidableEq

structure CanonicalDependency where
  sourceFile : String
  targetFile : String
  source : String
  deriving DecidableEq

/-- The version metadata and component lists of a snapshot. -/
structure CanonicalRelationSnapshot where
  schemaVersion : Nat := StableSymbolKey.schemaVersion
  parserVersion : Nat := relationParserVersion
  resolverVersion : Nat := relationResolverVersion
  pathNormalizationVersion : Nat := relationPathNormalizationVersion
  configFingerprint : String
  baseRelationEpoch : Option Int := none
  files : List CanonicalFile
  entities : List CanonicalEntity
  relations : List CanonicalRelation
  dependencies : List CanonicalDependency
  deriving DecidableEq

section Truncation

def takeBytes : Nat → List Char → List Char
  | _, [] => []
  | maxBytes, c :: rest =>
    if c.utf8Size ≤ maxBytes then c :: takeBytes (maxBytes - c.utf8Size) rest else []

def truncateToByteLen (text : String) (maxBytes : Nat) : String :=
  String.ofList (takeBytes maxBytes text.toList)

def maxPersistedTypeLen : Nat := 256

def canonicalOwnerType (owner : Option String) : Option String :=
  owner.map fun value => truncateToByteLen value maxPersistedTypeLen

def canonicalCallContext (context : CallContext) : CallContext :=
  let truncate (value : String) := truncateToByteLen value maxPersistedTypeLen
  match context with
  | .direct => .direct
  | .instanceMethod receiverType => .instanceMethod (truncate receiverType)
  | .staticMethod ownerType => .staticMethod (truncate ownerType)
  | .constructor ownerType => .constructor (truncate ownerType)
  | .virtualDispatch receiverType => .virtualDispatch (truncate receiverType)

end Truncation

/-- `serde_json` on the two kinds of values the component order reads, and on the payload. -/
class SerdeJson where
  ofImport : StandardizedImport → String
  ofClassification : Option ExternalCallType → String
  ofPayload : CanonicalRelationSnapshot → String

section Order

variable [SerdeJson]

def exportSortKey (item : CanonicalExport) : String :=
  item.symbol.sortKey ++ "\x00" ++ item.exportType

def relationSortKey (relation : CanonicalRelation) : String :=
  let target :=
    match relation.target with
    | .internal key => key.sortKey
    | .external classification => SerdeJson.ofClassification classification
    | .unresolved reason => reason.asStr
  relation.caller.sortKey ++ "\x00" ++ relation.relationType.display ++ "\x00" ++ target ++
    "\x00" ++ toString relation.span.startByte ++ "\x00" ++ toString relation.span.endByte

def dependencySortKey (dependency : CanonicalDependency) : String :=
  dependency.sourceFile ++ "\x00" ++ dependency.targetFile ++ "\x00" ++ dependency.source

def sortFile (file : CanonicalFile) : CanonicalFile :=
  { file with
    path := normalizeProjectPath file.path
    imports := sortByKey SerdeJson.ofImport file.imports
    exports := sortByKey exportSortKey file.exports }

variable (snapshot : CanonicalRelationSnapshot)

def sortComponents : CanonicalRelationSnapshot :=
  { snapshot with
    files := sortByKey CanonicalFile.path (snapshot.files.map sortFile)
    entities := sortByKey (fun entity => entity.key.sortKey) snapshot.entities
    relations := sortByKey relationSortKey snapshot.relations
    dependencies := sortByKey dependencySortKey snapshot.dependencies }

def CanonicalRelationSnapshot.normalize :
    CanonicalRelationSnapshot :=
  sortComponents snapshot

/-- What `fingerprint_from_components` hands to the serializer: the sorted components without
the volatile callee symbols, and without the entity numbers the serializer skips. -/
def fingerprintPayload : CanonicalRelationSnapshot :=
  let sorted := sortComponents snapshot
  { sorted with
    entities := sorted.entities.map fun entity => { entity with entityId := none }
    relations := sorted.relations.map fun relation => { relation with calleeSymbol := none } }

def CanonicalRelationSnapshot.fingerprint [Sha256] :
    String :=
  Sha256.hexDigest (asBytes (SerdeJson.ofPayload (fingerprintPayload snapshot)))

end Order

section OrderLaws

variable [SerdeJson]

theorem sortFile_sortFile (file : CanonicalFile) : sortFile (sortFile file) = sortFile file := by
  unfold sortFile
  simp only [normalizeProjectPath_idem, sortByKey_sortByKey]

theorem sortComponents_sortComponents (snapshot : CanonicalRelationSnapshot) :
    sortComponents (sortComponents snapshot) = sortComponents snapshot := by
  have files : (sortByKey CanonicalFile.path (snapshot.files.map sortFile)).map sortFile =
      sortByKey CanonicalFile.path (snapshot.files.map sortFile) := by
    refine (List.map_congr_left fun file mem => ?_).trans (List.map_id _)
    obtain ⟨original, -, rfl⟩ := List.mem_map.1 (mem_sortByKey.1 mem)
    exact sortFile_sortFile original
  unfold sortComponents
  simp only [files, sortByKey_sortByKey]

/-- Normalizing first does not change what is hashed. -/
theorem fingerprintPayload_normalize (snapshot : CanonicalRelationSnapshot) :
    fingerprintPayload snapshot.normalize = fingerprintPayload snapshot := by
  unfold fingerprintPayload CanonicalRelationSnapshot.normalize
  rw [sortComponents_sortComponents]

/-- Other entity numbers and callee symbols, which storage does not keep. -/
def CanonicalRelationSnapshot.withVolatile (snapshot : CanonicalRelationSnapshot)
    (entityId : CanonicalEntity → Option EntityId)
    (callee : CanonicalRelation → Option RelationSymbolRecord) : CanonicalRelationSnapshot :=
  { snapshot with
    entities := snapshot.entities.map fun entity => { entity with entityId := entityId entity }
    relations := snapshot.relations.map fun relation =>
      { relation with calleeSymbol := callee relation } }

theorem fingerprint_normalize_withVolatile [Sha256] (snapshot : CanonicalRelationSnapshot)
    (entityId : CanonicalEntity → Option EntityId)
    (callee : CanonicalRelation → Option RelationSymbolRecord) :
    (snapshot.withVolatile entityId callee).normalize.fingerprint = snapshot.fingerprint := by
  suffices same : fingerprintPayload (snapshot.withVolatile entityId callee) =
      fingerprintPayload snapshot by
    rw [CanonicalRelationSnapshot.fingerprint, fingerprintPayload_normalize, same]
    rfl
  unfold fingerprintPayload sortComponents CanonicalRelationSnapshot.withVolatile
  dsimp only
  congr 1
  · rw [← map_sortByKey fun _ _ => rfl, List.map_map]
    rfl
  · rw [← map_sortByKey fun _ _ => rfl, List.map_map]
    rfl

end OrderLaws

end ContextEngine

/- digest: Resolved relation edges, their identity and per-caller sets, and the delta between two
   states. -/

import ContextEngine.Types.SymbolKey

set_option autoImplicit false

namespace ContextEngine

inductive ExternalCallType where
  | standardLibrary (library : String)
  | externalLibrary (package : String)
  | devDependency (package : String)
  | localDependency (package : String)
  | unknown (rawTarget : String)
  deriving DecidableEq

inductive RelationType where
  | directCall | instanceMethodCall | staticMethodCall | chainedMethodCall | constructorCall
  | pointerCall | callbackCall | genericCall | macroCall | goroutineCall | deferredCall
  | asyncCall | higherOrderCall
  | includeLocal | importStandard | importNamed | importDefault | importNamespace
  | importDynamic | use | usingStatement | macroDependency | moduleDependency
  | inheritance | implementation | traitBound | contains | implAssociation | embedding | mixin
  | traitInheritance | protocolImplementation
  | typeReference | fieldAccess | functionReference
  | elementContains | templateReference | parameterBinding | eventCallback
  deriving DecidableEq

namespace RelationType

def display : RelationType → String
  | directCall => "call.direct"
  | instanceMethodCall => "call.method"
  | staticMethodCall => "call.method.static"
  | chainedMethodCall => "call.method.chained"
  | constructorCall => "call.constructor"
  | pointerCall => "call.pointer"
  | callbackCall => "call.callback"
  | genericCall => "call.generic"
  | macroCall => "call.macro"
  | goroutineCall => "call.goroutine"
  | deferredCall => "call.deferred"
  | asyncCall => "call.async"
  | higherOrderCall => "call.higher_order"
  | includeLocal => "dependency.include"
  | importStandard => "dependency.import.standard"
  | importNamed => "dependency.import.named"
  | importDefault => "dependency.import.default"
  | importNamespace => "dependency.import.namespace"
  | importDynamic => "dependency.import.dynamic"
  | use => "dependency.use"
  | usingStatement => "dependency.using"
  | macroDependency => "dependency.macro"
  | moduleDependency => "dependency.module"
  | inheritance => "inheritance"
  | implementation => "implementation"
  | traitBound => "trait_bound"
  | contains => "contains"
  | implAssociation => "impl_association"
  | embedding => "embedding"
  | mixin => "mixin"
  | traitInheritance => "trait_inheritance"
  | protocolImplementation => "protocol_implementation"
  | typeReference => "type_reference"
  | fieldAccess => "field_access"
  | functionReference => "reference.function"
  | elementContains => "contains.element"
  | templateReference => "reference.template"
  | parameterBinding => "parameter.binding"
  | eventCallback => "callback.event"

/-- The call domain, whose edges are told apart by call site. -/
def isCall : RelationType → Bool
  | directCall | instanceMethodCall | staticMethodCall | chainedMethodCall | constructorCall
  | pointerCall | callbackCall | genericCall | macroCall | goroutineCall | deferredCall
  | asyncCall | higherOrderCall => true
  | _ => false

def isDependency : RelationType → Bool
  | includeLocal | importStandard | importNamed | importDefault | importNamespace
  | importDynamic | use | usingStatement | macroDependency | moduleDependency => true
  | _ => false

def isStructural : RelationType → Bool
  | inheritance | implementation | traitBound | contains | implAssociation | embedding | mixin
  | traitInheritance | protocolImplementation => true
  | _ => false

def isTemplateRelation : RelationType → Bool
  | elementContains | templateReference | parameterBinding | eventCallback => true
  | _ => false

def isReference : RelationType → Bool
  | typeReference | fieldAccess | functionReference => true
  | _ => false

/-- The coarse domain, as a wire label. -/
def domain (relationType : RelationType) : String :=
  if relationType.isCall then "call"
  else if relationType.isDependency then "dependency"
  else if relationType.isStructural then "structural"
  else if relationType.isTemplateRelation then "template"
  else if relationType.isReference then "reference"
  else "other"

end RelationType

inductive CallContext where
  | direct
  | instanceMethod (receiverType : String)
  | staticMethod (ownerType : String)
  | constructor (ownerType : String)
  | virtualDispatch (receiverType : String)
  deriving DecidableEq

structure RelationSymbolLocation where
  filePath : String
  packagePath : Option String
  modulePath : Option String
  span : Span
  deriving DecidableEq

structure RelationSymbolRecord where
  symbolId : Nat
  entityId : Option EntityId
  name : String
  kind : EntityKind
  location : RelationSymbolLocation
  sourceModule : Option String
  deriving DecidableEq

/-- An edge after symbol resolution: the target is an entity, external, or unresolved. -/
structure ResolvedRelation where
  caller : EntityId
  calleeId : Option EntityId
  calleeName : String
  relationType : RelationType
  span : Span
  isExternal : Bool := false
  externalType : Option ExternalCallType := none
  calleeSymbol : Option RelationSymbolRecord := none
  stdlibCategory : Option StdlibCategory := none
  ownerType : Option String := none
  callContext : CallContext := .direct
  overloadSignature : Option String := none
  callFrequency : Nat := 0
  cfgCondition : Option String := none
  deriving DecidableEq

inductive RelationEdgeKind where
  | internal (calleeId : EntityId) (relationType : RelationType)
  | external (relationType : RelationType) (classification : Option ExternalCallType)
      (calleeName : String)
  | unresolved (relationType : RelationType) (rawTarget : String)
  deriving DecidableEq

/-- What two edges must share to count as the same edge. -/
structure RelationEdgeIdentity where
  caller : EntityId
  kind : RelationEdgeKind
  callsite : Option Span
  deriving DecidableEq

/-- Call edges carry their span; every other edge keeps a span-free identity. -/
def relationIdentity (relation : ResolvedRelation) : RelationEdgeIdentity where
  caller := relation.caller
  kind :=
    match relation.calleeId with
    | some calleeId => .internal calleeId relation.relationType
    | none =>
      if relation.isExternal then
        .external relation.relationType relation.externalType relation.calleeName
      else .unresolved relation.relationType relation.calleeName
  callsite := if relation.relationType.isCall then some relation.span else none

theorem relationIdentity_caller (relation : ResolvedRelation) :
    (relationIdentity relation).caller = relation.caller := rfl

theorem calleeId_eq_of_relationIdentity_eq {left right : ResolvedRelation}
    (same : relationIdentity left = relationIdentity right) : left.calleeId = right.calleeId := by
  have kinds := congrArg RelationEdgeIdentity.kind same
  simp only [relationIdentity] at kinds
  cases hl : left.calleeId with
  | some leftId =>
    cases hr : right.calleeId with
    | some rightId =>
      simp only [hl, hr, RelationEdgeKind.internal.injEq] at kinds
      rw [kinds.1]
    | none =>
      simp only [hl, hr] at kinds
      split_ifs at kinds
  | none =>
    cases hr : right.calleeId with
    | some rightId =>
      simp only [hl, hr] at kinds
      split_ifs at kinds
    | none => rfl

/-- Edges in insertion order, at most one for each identity. The reverse caller list of the
entry's key is embedded beside them. -/
structure RelationEdgeSet where
  edges : List ResolvedRelation
  nodup : (edges.map relationIdentity).Nodup
  callers : SortedVec EntityId
  deriving DecidableEq

namespace RelationEdgeSet

instance : EmptyCollection RelationEdgeSet := ⟨⟨[], List.nodup_nil, ∅⟩⟩

def isEmpty (set : RelationEdgeSet) : Bool := set.edges.isEmpty

def containsIdentity (set : RelationEdgeSet) (identity : RelationEdgeIdentity) : Bool :=
  identity ∈ set.edges.map relationIdentity

def insert (set : RelationEdgeSet) (relation : ResolvedRelation) : RelationEdgeSet :=
  if present : relationIdentity relation ∈ set.edges.map relationIdentity then set
  else
    { set with
      edges := set.edges ++ [relation]
      nodup := by
        rw [List.map_append, List.nodup_append]
        refine ⟨set.nodup, List.nodup_singleton _, ?_⟩
        rintro identity member _ (_ | ⟨_, ⟨⟩⟩)
        rintro rfl
        exact present member }

def retain (set : RelationEdgeSet) (keep : ResolvedRelation → Bool) : RelationEdgeSet :=
  { set with
    edges := set.edges.filter keep
    nodup := set.nodup.sublist (List.filter_sublist.map relationIdentity) }

def removeByIdentity (set : RelationEdgeSet) (identity : RelationEdgeIdentity) :
    RelationEdgeSet :=
  set.retain fun existing => relationIdentity existing ≠ identity

def addCaller (set : RelationEdgeSet) (caller : EntityId) : RelationEdgeSet :=
  { set with callers := set.callers.insert caller }

def removeCaller (set : RelationEdgeSet) (caller : EntityId) : RelationEdgeSet :=
  { set with callers := set.callers.erase caller }

@[simp] theorem edges_retain (set : RelationEdgeSet) (keep : ResolvedRelation → Bool) :
    (set.retain keep).edges = set.edges.filter keep := rfl

@[simp] theorem callers_insert (set : RelationEdgeSet) (relation : ResolvedRelation) :
    (set.insert relation).callers = set.callers := by
  unfold insert
  split <;> rfl

theorem edges_insert (set : RelationEdgeSet) (relation : ResolvedRelation) :
    (set.insert relation).edges =
      if relationIdentity relation ∈ set.edges.map relationIdentity then set.edges
      else set.edges ++ [relation] := by
  unfold insert
  split_ifs <;> rfl

end RelationEdgeSet

/-- Everything the index records about one file besides its entities and edges. -/
structure FileRecord where
  info : FileInfo
  imports : ImportTable
  exports : List ExportInfo
  deriving DecidableEq

structure CanonicalExport where
  symbol : StableSymbolKey
  exportType : String
  deriving DecidableEq

structure ImportDiff where
  filePath : String
  removedImports : List StandardizedImport
  addedImports : List StandardizedImport
  deriving DecidableEq

structure ExportDiff where
  filePath : String
  removedExports : List CanonicalExport
  addedExports : List CanonicalExport
  deriving DecidableEq

structure DependencyDiff where
  sourceFile : String
  removedDependencies : List String
  addedDependencies : List String
  deriving DecidableEq

structure FileRelationDiff where
  filePath : String
  removedRelations : List ResolvedRelation
  addedRelations : List ResolvedRelation
  deriving DecidableEq

/-- An added entity with the key and the file it is to be registered under. -/
structure AddedEntity where
  entity : Entity
  symbolKey : StableSymbolKey
  filePath : String
  deriving DecidableEq

structure RenamedEntity where
  oldId : EntityId
  newId : EntityId
  oldName : String
  newName : String
  deriving DecidableEq

/-- What changed between two index states. -/
structure SnapshotDelta where
  epoch : Int
  baseEpoch : Int
  configFingerprint : String
  removedFiles : List String := []
  addedFiles : List FileInfo := []
  removedEntities : List EntityId := []
  addedEntities : List AddedEntity := []
  removedRelations : List ResolvedRelation := []
  addedRelations : List ResolvedRelation := []
  fileRelationDiffs : List FileRelationDiff := []
  importDiffs : List ImportDiff := []
  exportDiffs : List ExportDiff := []
  dependencyDiffs : List DependencyDiff := []
  relationEdgesDroppedUnbounded : Nat := 0
  renamedEntities : List RenamedEntity := []
  deriving DecidableEq

end ContextEngine

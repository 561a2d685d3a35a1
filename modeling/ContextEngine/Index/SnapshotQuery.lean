/- digest: The queries of an index, of a published snapshot and of a layered one. -/

import ContextEngine.Delta.EdgeRoundTrip
import ContextEngine.Index.SnapshotIndex
import ContextEngine.Lib.Overlay

set_option autoImplicit false

namespace ContextEngine

namespace RelationIndex

def maxReverseFanin : Nat := 10000

section Edges

variable (index : RelationIndex)

def getResolvedRelationsByCaller (callerId : EntityId) : Option (List ResolvedRelation) :=
  (index.resolvedRelationIndex.lookup callerId).map RelationEdgeSet.edges

/-- The callers of the reverse table, cut off at the bound. The source sorts and dedups first;
the table's vectors are strictly increasing already. -/
def getCallersByCalleeEntity (calleeId : EntityId) : List EntityId :=
  (callersAt index.reverseCalleeIndex calleeId).take maxReverseFanin

def getRelationsToEntity (calleeId : EntityId) : List ResolvedRelation :=
  (index.getCallersByCalleeEntity calleeId).flatMap fun callerId =>
    (edgesOf index.resolvedRelationIndex callerId).filter fun relation =>
      relation.calleeId = some calleeId

def fileRelations (filePath : String) : Option (List ResolvedRelation) :=
  (index.fileRelationIndex.lookup filePath).map RelationEdgeSet.edges

end Edges

section Ids

variable (index : RelationIndex)

def getFunctionIdsByName (name : String) : List EntityId := index.nameIndex.bucket name

def getEntityIdBySymbolKey (key : SymbolKey) : Option EntityId :=
  index.symbolKeyToEntity.lookup key

def getEntityIdByStableSymbolId (stableId : String) : Option EntityId :=
  index.stableIdToEntity.lookup stableId

def getSymbolKeyByEntityId (entityId : EntityId) : Option SymbolKey :=
  index.entityToSymbolKey.lookup entityId

def entityIdRemapFor (normalizedPath : String) : Option (HashMap EntityId EntityId) :=
  index.entityIdRemaps.lookup normalizedPath

/-- The number handed out next, and the index once it is taken. -/
def allocateEntityId : EntityId × RelationIndex :=
  (index.entityIdCounter, { index with entityIdCounter := asU64 (index.entityIdCounter + 1) })

end Ids

end RelationIndex

section Classification

/-- Count an edge under its classification, if it has one. -/
def countClassified : HashMap ExternalCallType Nat → ResolvedRelation →
    HashMap ExternalCallType Nat :=
  Overlay.tally ResolvedRelation.externalType

/-- Take an edge off the count of its classification, if there is such a count. -/
def discountClassified : HashMap ExternalCallType Nat → ResolvedRelation →
    HashMap ExternalCallType Nat :=
  Overlay.untally ResolvedRelation.externalType

namespace RelationIndex

variable (index : RelationIndex)

def allRelations : List ResolvedRelation :=
  index.resolvedRelationIndex.toList.flatMap fun entry => entry.2.edges

def getRelationsByClassification (classification : ExternalCallType) : List ResolvedRelation :=
  index.allRelations.filter fun relation => relation.externalType = some classification

def getClassificationStats : HashMap ExternalCallType Nat :=
  index.allRelations.foldl countClassified ∅

end RelationIndex

end Classification

section QueryOptimized

/-- Read-only tables of a snapshot, computed when it is published. -/
structure QueryOptimizedIndex where
  callersByCallee : HashMap EntityId (List EntityId)
  calleesByCaller : HashMap EntityId (List ResolvedRelation)

namespace QueryOptimizedIndex

/-- The callees of the edges with their callers, in the order of the table. -/
def reversePairs (resolved : ResolvedTable) : List (EntityId × EntityId) :=
  resolved.toList.flatMap fun entry =>
    entry.2.edges.filterMap fun relation =>
      relation.calleeId.map fun calleeId => (calleeId, entry.1)

def fromResolvedMap (resolved : ResolvedTable) : QueryOptimizedIndex where
  callersByCallee :=
    ((reversePairs resolved).foldl (fun table pair => table.bucketPush pair.1 pair.2)
      (∅ : HashMap EntityId (List EntityId))).mapValues
      fun callers => (SortedVec.ofList callers).toList
  calleesByCaller :=
    (∅ : HashMap EntityId (List ResolvedRelation)).extend
      (resolved.toList.map fun entry => (entry.1, entry.2.edges))

def fromRelationIndex (index : RelationIndex) : QueryOptimizedIndex :=
  fromResolvedMap index.resolvedRelationIndex

def getCallees (optimized : QueryOptimizedIndex) (callerId : EntityId) :
    Option (List ResolvedRelation) :=
  optimized.calleesByCaller.lookup callerId

def getCallers (optimized : QueryOptimizedIndex) (calleeId : EntityId) :
    Option (List EntityId) :=
  optimized.callersByCallee.lookup calleeId

end QueryOptimizedIndex

end QueryOptimized

/-- `sort`, `dedup` and `truncate` at the fan-in bound. -/
def boundedCallers (callers : List EntityId) : List EntityId :=
  (SortedVec.ofList callers).toList.take RelationIndex.maxReverseFanin

namespace RelationSnapshotIndex

variable (snapshot : RelationSnapshotIndex)

/-- The tables a published snapshot never changes determine its optimized ones. -/
def queryOptimized : QueryOptimizedIndex := .fromRelationIndex snapshot.index

def getResolvedRelationsByCaller (callerId : EntityId) : Option (List ResolvedRelation) :=
  match snapshot.queryOptimized.getCallees callerId with
  | some callees => some callees
  | none => snapshot.index.getResolvedRelationsByCaller callerId

def getCallersByCalleeEntity (calleeId : EntityId) : List EntityId :=
  match snapshot.queryOptimized.getCallers calleeId with
  | some callers => boundedCallers callers
  | none => boundedCallers (callersAt snapshot.index.reverseCalleeIndex calleeId)

def getRelationsToEntity (calleeId : EntityId) : List ResolvedRelation :=
  (snapshot.getCallersByCalleeEntity calleeId).flatMap fun caller =>
    ((snapshot.getResolvedRelationsByCaller caller).getD []).filter fun relation =>
      relation.calleeId = some calleeId

def getRelationsByClassification (classification : ExternalCallType) : List ResolvedRelation :=
  snapshot.index.getRelationsByClassification classification

def getClassificationStats : HashMap ExternalCallType Nat := snapshot.index.getClassificationStats

end RelationSnapshotIndex

namespace LayeredSnapshotIndex

section Edges

def overlayRelations (callerId : EntityId) (relations : List ResolvedRelation)
    (delta : SnapshotDelta) : List ResolvedRelation :=
  relations.filter (fun relation => relationIdentity relation ∉
    (delta.removedRelations.filter fun removed => removed.caller = callerId).map
      relationIdentity) ++
  delta.addedRelations.filter fun added => added.caller = callerId

variable (layered : LayeredSnapshotIndex)

def getResolvedRelationsByCaller (callerId : EntityId) :
    Option (List ResolvedRelation) :=
  if layered.deltas.any fun delta => callerId ∈ delta.removedEntities then none
  else
    let relations := layered.deltas.foldl (overlayRelations callerId)
      ((layered.base.getResolvedRelationsByCaller callerId).getD [])
    if relations.isEmpty then none else some relations

variable (calleeId : EntityId)

def overlayCallers (callers : List EntityId) (delta : SnapshotDelta) :
    List EntityId :=
  (delta.addedRelations.filter fun added => added.calleeId = some calleeId).foldl
    (fun callers added =>
      if added.caller ∈ callers then callers else callers ++ [added.caller])
    (callers.filter fun caller => caller ∉ delta.removedEntities ∧
      (caller, some calleeId) ∉ delta.removedRelations.map fun removed =>
        (removed.caller, removed.calleeId))

def getCallersByCalleeEntity :
    List EntityId :=
  if layered.deltas.any fun delta => calleeId ∈ delta.removedEntities then []
  else
    boundedCallers (layered.deltas.foldl (overlayCallers calleeId)
      (layered.base.getCallersByCalleeEntity calleeId))

def overlayIncoming (edges : List ResolvedRelation)
    (delta : SnapshotDelta) : List ResolvedRelation :=
  edges.filter (fun edge => edge.caller ∉ delta.removedEntities ∧
    relationIdentity edge ∉ delta.removedRelations.map relationIdentity) ++
  delta.addedRelations.filter fun added => added.calleeId = some calleeId

def getRelationsToEntity :
    List ResolvedRelation :=
  layered.deltas.foldl (overlayIncoming calleeId) (layered.base.getRelationsToEntity calleeId)

end Edges

section Classification

/-- The added edges of a classification, those of the latest delta first. -/
def addedClassified (deltas : List SnapshotDelta) (classification : ExternalCallType) :
    List ResolvedRelation :=
  (deltas.reverse.flatMap SnapshotDelta.addedRelations).filter fun added =>
    added.externalType = some classification

/-- Added edges are told apart by caller and callee. -/
def endpoints (relation : ResolvedRelation) : EntityId × Option EntityId :=
  (relation.caller, relation.calleeId)

/-- The edges of the base, then every added edge whose caller and callee are new. No removal is
looked at. -/
def getRelationsByClassification (layered : LayeredSnapshotIndex)
    (classification : ExternalCallType) : List ResolvedRelation :=
  let base := layered.base.getRelationsByClassification classification
  ((addedClassified layered.deltas classification).foldl (Overlay.appendNew endpoints)
    (HashSet.ofList (base.map endpoints), base)).2

/-- All additions are counted before the first removal is. -/
def getClassificationStats (layered : LayeredSnapshotIndex) : HashMap ExternalCallType Nat :=
  (layered.deltas.flatMap SnapshotDelta.removedRelations).foldl discountClassified
    ((layered.deltas.flatMap SnapshotDelta.addedRelations).foldl countClassified
      layered.base.getClassificationStats)

end Classification

end LayeredSnapshotIndex

namespace RelationIndex

variable (index : RelationIndex) (entityId : EntityId)

def getFunctionByEntityId : Option Entity :=
  index.functionIndex.lookup entityId

def containsFunction : Bool :=
  (index.getFunctionByEntityId entityId).isSome

def getFilePathByEntity : Option String :=
  index.entityFileIndex.lookup entityId

end RelationIndex

namespace RelationSnapshotIndex

variable (snapshot : RelationSnapshotIndex) (entityId : EntityId)

def getFunctionByEntityId : Option Entity :=
  snapshot.index.getFunctionByEntityId entityId

def containsFunction : Bool := snapshot.index.containsFunction entityId

def getFilePathByEntity : Option String :=
  snapshot.index.getFilePathByEntity entityId

end RelationSnapshotIndex

namespace LayeredSnapshotIndex

/-- What the latest delta that names an entity says of it: nothing once it is removed, and the
first entry that adds it otherwise. -/
def addedLast (deltas : List SnapshotDelta) (entityId : EntityId) : Option (Option AddedEntity) :=
  deltas.reverse.findSome? fun delta =>
    if entityId ∈ delta.removedEntities then some none
    else (delta.addedEntities.find? fun added => added.entity.id = entityId).map some

variable (layered : LayeredSnapshotIndex) (entityId : EntityId)

def getFunctionByEntityId : Option Entity :=
  match addedLast layered.deltas entityId with
  | some named => named.map AddedEntity.entity
  | none => layered.base.getFunctionByEntityId entityId

/-- `contains_entity`. -/
def containsFunction : Bool :=
  match addedLast layered.deltas entityId with
  | some named => named.isSome
  | none => layered.base.containsFunction entityId

def getFilePathByEntity : Option String :=
  match addedLast layered.deltas entityId with
  | some named => named.map AddedEntity.filePath
  | none => layered.base.getFilePathByEntity entityId

end LayeredSnapshotIndex

/-- The reads of an index that the call-chain queries go through. -/
class SnapshotQueryIndex (Index : Type) where
  getFunctionByEntityId : Index → EntityId → Option Entity
  getFilePathByEntity : Index → EntityId → Option String
  getResolvedRelationsByCaller : Index → EntityId → Option (List ResolvedRelation)
  getCallersByCalleeEntity : Index → EntityId → List EntityId
  getRelationsToEntity : Index → EntityId → List ResolvedRelation

instance : SnapshotQueryIndex RelationIndex where
  getFunctionByEntityId := RelationIndex.getFunctionByEntityId
  getFilePathByEntity := RelationIndex.getFilePathByEntity
  getResolvedRelationsByCaller := RelationIndex.getResolvedRelationsByCaller
  getCallersByCalleeEntity := RelationIndex.getCallersByCalleeEntity
  getRelationsToEntity := RelationIndex.getRelationsToEntity

instance : SnapshotQueryIndex RelationSnapshotIndex where
  getFunctionByEntityId := RelationSnapshotIndex.getFunctionByEntityId
  getFilePathByEntity := RelationSnapshotIndex.getFilePathByEntity
  getResolvedRelationsByCaller := RelationSnapshotIndex.getResolvedRelationsByCaller
  getCallersByCalleeEntity := RelationSnapshotIndex.getCallersByCalleeEntity
  getRelationsToEntity := RelationSnapshotIndex.getRelationsToEntity

instance : SnapshotQueryIndex LayeredSnapshotIndex where
  getFunctionByEntityId := LayeredSnapshotIndex.getFunctionByEntityId
  getFilePathByEntity := LayeredSnapshotIndex.getFilePathByEntity
  getResolvedRelationsByCaller := LayeredSnapshotIndex.getResolvedRelationsByCaller
  getCallersByCalleeEntity := LayeredSnapshotIndex.getCallersByCalleeEntity
  getRelationsToEntity := LayeredSnapshotIndex.getRelationsToEntity

section Sample

def callOf (caller callee : EntityId) : ResolvedRelation where
  caller := caller
  calleeId := some callee
  calleeName := "f"
  relationType := .directCall
  span := rowSpan caller caller

/-- The functions of one file with the given edges between them. -/
def indexOf (functions : List EntityId) (edges : List ResolvedRelation) : RelationIndex :=
  edges.foldl RelationIndex.addResolvedRelation <|
    functions.foldl
      (fun index id => index.addFunctionWithPath id (functionAt id "f" id) "src/main.rs")
      RelationIndex.new

end Sample

end ContextEngine

/- digest: The mutating operations of an index, the removal of a file among them, as inputs of a
   run. -/

import ContextEngine.Index.Materialize
import ContextEngine.Lib.Runs

set_option autoImplicit false

namespace ContextEngine.RelationIndex

def getEntityIdsByFile (index : RelationIndex) (fileId : String) : List EntityId :=
  (index.entityFileIndex.toList.filter fun entry => entry.2 = fileId).map Prod.fst

theorem mem_getEntityIdsByFile {index : RelationIndex} {fileId : String} {id : EntityId} :
    id ∈ index.getEntityIdsByFile fileId ↔ index.entityFileIndex.lookup id = some fileId := by
  simp only [getEntityIdsByFile, List.mem_map, List.mem_filter, decide_eq_true_eq, Prod.exists,
    HashMap.mem_toList, exists_and_right, exists_eq_right]

def removeStableSymbol [Sha256] (index : RelationIndex) (entityId : EntityId) : RelationIndex :=
  match index.entityToSymbolKey.lookup entityId with
  | none => index
  | some symbol =>
    { index with
      entityToSymbolKey := index.entityToSymbolKey.erase entityId
      symbolKeyToEntity := index.symbolKeyToEntity.erase symbol
      stableIdToEntity := index.stableIdToEntity.erase symbol.stableId }

theorem frame_removeStableSymbol [Sha256] {β : Type} (field : RelationIndex → β)
    (tables : ∀ index keys entities ids, field { index with
      entityToSymbolKey := keys, symbolKeyToEntity := entities, stableIdToEntity := ids } =
        field index)
    (index : RelationIndex) (entityId : EntityId) :
    field (index.removeStableSymbol entityId) = field index := by
  unfold removeStableSymbol
  cases index.entityToSymbolKey.lookup entityId with
  | none => rfl
  | some symbol => exact tables index _ _ _

def calleeIds (table : ResolvedTable) (entityId : EntityId) : List EntityId :=
  (edgesOf table entityId).filterMap ResolvedRelation.calleeId

theorem edgesFiled_dropCallees {table : ResolvedTable} (filed : EdgesFiled table)
    (entityId : EntityId) (callees : List EntityId) :
    EdgesFiled (callees.foldl (fun table callee => dropEmbeddedCaller table callee entityId)
      (table.erase entityId)) :=
  EdgesFiled.foldl (fun table callee => dropEmbeddedCaller table callee entityId)
    (fun _ callee filed => filed.dropEmbeddedCaller callee entityId) _ (filed.erase entityId)

/-- Drop the outgoing edges of an entity and its reverse entry. The source then looks the
entity's forward entry up once more to drop its incoming edges; that entry is already gone, so
the incoming edges stay. -/
def removeEntityRelations (index : RelationIndex) (entityId : EntityId) : RelationIndex :=
  let callees := calleeIds index.resolvedRelationIndex entityId
  { index with
    resolvedRelationIndex :=
      callees.foldl (fun table callee => dropEmbeddedCaller table callee entityId)
        (index.resolvedRelationIndex.erase entityId)
    reverseCalleeIndex :=
      (callees.foldl (fun table callee => untrackReverseCaller table callee entityId)
        index.reverseCalleeIndex).erase entityId
    edgesFiled := edgesFiled_dropCallees index.edgesFiled entityId callees }

def removeFile [Sha256] (index : RelationIndex) (fileId : String) : RelationIndex :=
  let entitiesToRemove := index.getEntityIdsByFile fileId
  let functions := entitiesToRemove.foldl removeFunction index
  let members :=
    { functions with entityFileIndex := functions.entityFileIndex.eraseAll entitiesToRemove }
  let symbols := entitiesToRemove.foldl removeStableSymbol members
  let relations := entitiesToRemove.foldl removeEntityRelations symbols
  let records :=
    { relations with fileRecords := relations.fileRecords.erase fileId }.takeFileRelations fileId
  { records with
    dependencyGraph := records.dependencyGraph.removeFile fileId
    entityIdRemaps := records.entityIdRemaps.erase fileId }

variable [Sha256]

/-- A call of a mutating operation with its arguments. -/
inductive IndexOp where
  | insertFunction (entityId : EntityId) (entity : Entity)
  | addFunctionWithPath (entityId : EntityId) (entity : Entity) (filePath : String)
  | registerSymbolKey (filePath scopedName : String) (entity : Entity) (entityId : EntityId)
  | addResolvedRelation (relation : ResolvedRelation)
  | addFileRelation (filePath : String) (relation : ResolvedRelation)
  | removeFunction (entityId : EntityId)
  | removeFile (fileId : String)
  | applyDelta (delta : SnapshotDelta)
  | rebuildReverseCalleeIndex
  | rebuildFileCallerIndex

def applyOp (index : RelationIndex) : IndexOp → RelationIndex
  | .insertFunction entityId entity => index.insertFunction entityId entity
  | .addFunctionWithPath entityId entity filePath =>
    index.addFunctionWithPath entityId entity filePath
  | .registerSymbolKey filePath scopedName entity entityId =>
    index.registerSymbolKey filePath scopedName entity entityId
  | .addResolvedRelation relation => index.addResolvedRelation relation
  | .addFileRelation filePath relation => index.addFileRelation filePath relation
  | .removeFunction entityId => index.removeFunction entityId
  | .removeFile fileId => index.removeFile fileId
  | .applyDelta delta => ContextEngine.applyDelta index delta
  | .rebuildReverseCalleeIndex => index.rebuildReverseCalleeIndex
  | .rebuildFileCallerIndex => index.rebuildFileCallerIndex

/-- The index after a sequence of operations on the empty one. -/
def run (ops : List IndexOp) : RelationIndex := ops.foldl applyOp new

end ContextEngine.RelationIndex

/- digest: The compact snapshot of an index and the way back to an index. -/

import ContextEngine.Index.Materialize

set_option autoImplicit false

namespace ContextEngine

/-- The tables a compact snapshot keeps. The counter, the id remaps and the reverse callee index
are not among them. -/
structure CompactRelationIndex where
  functionIndex : HashMap EntityId Entity
  nameIndex : HashMap String (List EntityId)
  resolvedRelationIndex : ResolvedTable
  entityFileIndex : HashMap EntityId String
  fileRelationIndex : FileRelationTable
  fileCallersByCallee : HashMap EntityId (HashSet String)
  fileRecords : HashMap String FileRecord
  symbolKeyToEntity : HashMap SymbolKey EntityId
  entityToSymbolKey : HashMap EntityId SymbolKey
  stableIdToEntity : HashMap String EntityId
  fileSymbolKeys : HashMap String (List SymbolKey)
  fileEntitiesByStart : HashMap String FileRows
  dependencyForward : HashMap String (HashSet String)
  dependencyReverse : HashMap String (HashSet String)
  diagnosticsSnapshot : RelationDiagnostics
  edgesFiled : EdgesFiled resolvedRelationIndex
  fileCallersTransposed : FileCallersTransposed fileRelationIndex fileCallersByCallee

theorem FileCallersTransposed.copy {table : FileRelationTable}
    {callers : HashMap EntityId (HashSet String)}
    (transposed : FileCallersTransposed table callers) :
    FileCallersTransposed table.copy callers.copy where
  nonempty path set found :=
    transposed.nonempty path set ((HashMap.lookup_copy table path).symm.trans found)
  mem_iff callee path := by
    have members : callers.copy.members callee = callers.members callee := by
      simp only [HashMap.members, HashMap.lookup_copy]
    have calls : stillCalls table.copy path callee = stillCalls table path callee := by
      simp only [stillCalls, edgesOf, HashMap.lookup_copy]
    rw [members, calls]
    exact transposed.mem_iff callee path

namespace RelationIndex

theorem edgesFiled_copy (index : RelationIndex) : EdgesFiled index.resolvedRelationIndex.copy :=
  index.edgesFiled.copy

theorem fileCallersTransposed_copy (index : RelationIndex) :
    FileCallersTransposed index.fileRelationIndex.copy index.fileCallersByCallee.copy :=
  index.fileCallersTransposed.copy

end RelationIndex

namespace CompactRelationIndex

def dependencyTable (files : List String) (neighbours : String → List String) :
    HashMap String (HashSet String) :=
  files.foldl
    (fun table file =>
      if (neighbours file).isEmpty then table
      else table.insert file (HashSet.ofList (neighbours file)))
    ∅

def fromRelationIndex (index : RelationIndex) : CompactRelationIndex where
  functionIndex := index.functionIndex.copy
  nameIndex := index.nameIndex.copy
  resolvedRelationIndex := index.resolvedRelationIndex.copy
  entityFileIndex := index.entityFileIndex.copy
  fileRelationIndex := index.fileRelationIndex.copy
  fileCallersByCallee := index.fileCallersByCallee.copy
  fileRecords := index.fileRecords
  symbolKeyToEntity := index.symbolKeyToEntity
  entityToSymbolKey := index.entityToSymbolKey
  stableIdToEntity := index.stableIdToEntity
  fileSymbolKeys := index.fileSymbolKeys
  fileEntitiesByStart := index.fileEntitiesByStart
  dependencyForward :=
    dependencyTable index.dependencyGraph.getAllFiles index.dependencyGraph.getDependencies
  dependencyReverse :=
    dependencyTable index.dependencyGraph.getAllFiles index.dependencyGraph.getDependents
  diagnosticsSnapshot := index.diagnostics
  edgesFiled := index.edgesFiled_copy
  fileCallersTransposed := index.fileCallersTransposed_copy

variable (compact : CompactRelationIndex)

def toDependencyGraph : FileDependencyGraph :=
  compact.dependencyForward.toList.foldl
    (fun graph entry =>
      entry.2.toList.foldl (fun graph target => graph.addDependency entry.1 target) graph)
    ∅

/-- The stored entities, inserted one by one into an empty index. -/
def restoreFunctions : RelationIndex :=
  compact.functionIndex.toList.foldl
    (fun index entry => index.insertFunction entry.1 entry.2) RelationIndex.new

/-- Back to an index: the entities are inserted anew, which rebuilds the name table and raises
the counter; the reverse callee index is rebuilt; the id remaps stay empty and the diagnostics
start over. -/
def toRelationIndex : RelationIndex :=
  let functions := compact.restoreFunctions
  let edges : RelationIndex :=
    { functions with
      entityFileIndex := compact.entityFileIndex.copy
      resolvedRelationIndex := compact.resolvedRelationIndex.copy
      edgesFiled := compact.edgesFiled.copy }
  { edges.rebuildReverseCalleeIndex with
    fileRelationIndex := compact.fileRelationIndex.copy
    fileCallersByCallee := compact.fileCallersByCallee.copy
    fileCallersTransposed := compact.fileCallersTransposed.copy
    fileRecords := compact.fileRecords
    symbolKeyToEntity := compact.symbolKeyToEntity
    entityToSymbolKey := compact.entityToSymbolKey
    stableIdToEntity := compact.stableIdToEntity
    fileSymbolKeys := compact.fileSymbolKeys
    fileEntitiesByStart := compact.fileEntitiesByStart
    dependencyGraph := compact.toDependencyGraph }

/-- A delta is applied by way of a temporary index. -/
def applyDelta [Sha256] (delta : SnapshotDelta) :
    CompactRelationIndex :=
  fromRelationIndex (ContextEngine.applyDelta compact.toRelationIndex delta)

end CompactRelationIndex

end ContextEngine

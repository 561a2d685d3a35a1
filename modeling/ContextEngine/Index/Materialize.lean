/- digest: Copying a base index table by table and replaying a chain of deltas onto the copy. -/

import ContextEngine.Index.SnapshotIndex
import ContextEngine.Index.ApplyDelta

set_option autoImplicit false

namespace ContextEngine

section FileCallers

def fileCallersOf (table : FileRelationTable) : HashMap EntityId (HashSet String) :=
  table.toList.foldl
    (fun callers entry =>
      entry.2.edges.foldl
        (fun callers relation => trackFileCaller callers relation.calleeId entry.1) callers)
    ∅

private theorem mem_foldl_trackFileCaller {l : List ResolvedRelation} {path path' : String}
    {callers : HashMap EntityId (HashSet String)} {callee : EntityId} :
    path' ∈ (l.foldl (fun callers r => trackFileCaller callers r.calleeId path) callers).members
        callee ↔
      (path' = path ∧ ∃ r ∈ l, r.calleeId = some callee) ∨ path' ∈ callers.members callee := by
  rw [foldl_iff_or (fun callers => path' ∈ HashMap.members callers callee)
    fun callers r => @mem_trackFileCaller callers r.calleeId path path' callee]
  simp only [and_comm (b := path' = path), exists_and_left, and_left_comm]

theorem mem_fileCallersOf {table : FileRelationTable} {path : String} {callee : EntityId} :
    path ∈ (fileCallersOf table).members callee ↔ stillCalls table path callee = true := by
  unfold fileCallersOf
  rw [foldl_iff_or (fun callers => path ∈ HashMap.members callers callee)
    fun callers entry => @mem_foldl_trackFileCaller entry.2.edges entry.1 path callers callee,
    stillCalls_iff_entry]
  simp

theorem transposed_fileCallersOf {table : FileRelationTable}
    (nonempty : ∀ path set, table.lookup path = some set → set.edges ≠ []) :
    FileCallersTransposed table (fileCallersOf table) :=
  ⟨nonempty, fun _ _ => mem_fileCallersOf⟩

def RelationIndex.rebuildFileCallerIndex (index : RelationIndex) : RelationIndex :=
  { index with
    fileCallersByCallee := fileCallersOf index.fileRelationIndex
    fileCallersTransposed := transposed_fileCallersOf index.fileCallersTransposed.nonempty }

end FileCallers

section Copies

theorem EdgesFiled.copy {table : ResolvedTable} (filed : EdgesFiled table) :
    EdgesFiled table.copy := fun key set found =>
  filed key set ((HashMap.lookup_copy table key).symm.trans found)

variable (base : RelationIndex)

def copyDependencies : FileDependencyGraph :=
  base.fileRecords.keys.foldl
    (fun graph file =>
      (base.dependencyGraph.getDependencies file).foldl
        (fun graph target => graph.addDependency file target) graph)
    ∅

def copyTables : RelationIndex :=
  let functions := base.functionIndex.toList.foldl
    (fun index entry => index.insertFunction entry.1 entry.2) RelationIndex.new
  { functions with
    entityFileIndex := base.entityFileIndex.copy
    resolvedRelationIndex := base.resolvedRelationIndex.copy
    fileRelationIndex := base.fileRelationIndex.copy
    -- The source leaves this table empty until it is rebuilt after the replay; the type wants
    -- it to transpose the copied edges from the start.
    fileCallersByCallee := fileCallersOf base.fileRelationIndex.copy
    fileRecords := base.fileRecords.copy
    dependencyGraph := copyDependencies base
    symbolKeyToEntity := base.symbolKeyToEntity.copy
    entityToSymbolKey := base.entityToSymbolKey.copy
    stableIdToEntity := base.stableIdToEntity.copy
    edgesFiled := base.edgesFiled.copy
    fileCallersTransposed := transposed_fileCallersOf fun path set found =>
      base.fileCallersTransposed.nonempty path set
        ((HashMap.lookup_copy base.fileRelationIndex path).symm.trans found) }

theorem functionIndex_copyTables :
    (copyTables base).functionIndex = base.functionIndex.copy := by
  unfold HashMap.copy HashMap.extend
  exact (List.foldl_hom RelationIndex.functionIndex fun _ _ => rfl).symm

end Copies

namespace LayeredSnapshotIndex

variable [Sha256]

/-- The copied tables of the base with the chain replayed onto them, both reverse edge indexes
rebuilt at the end. -/
def materializeMergedIndex (layered : LayeredSnapshotIndex) : RelationIndex :=
  (layered.deltas.foldl applyDelta
    (copyTables layered.base.index)).rebuildReverseCalleeIndex.rebuildFileCallerIndex

/-- An independent copy of the base with the chain replayed onto it. -/
def replayed (layered : LayeredSnapshotIndex) : RelationIndex :=
  layered.deltas.foldl applyDelta layered.base.index.detachedClone

end LayeredSnapshotIndex

end ContextEngine

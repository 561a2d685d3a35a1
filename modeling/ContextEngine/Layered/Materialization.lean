/- digest: When the layered file closures are exact, and when the materialized index answers as the
   replay. -/

import ContextEngine.Delta.EdgeRoundTrip
import ContextEngine.Delta.NoDangling
import ContextEngine.Delta.RecordRoundTrip
import ContextEngine.Index.LineRange
import ContextEngine.Index.SnapshotIndex

set_option autoImplicit false

namespace ContextEngine

open List Search RelationIndex HashMap

def mergeDependencies (graph : FileDependencyGraph) (delta : SnapshotDelta) :
    FileDependencyGraph :=
  delta.dependencyDiffs.foldl patchDependencies
    (delta.removedFiles.foldl FileDependencyGraph.removeFile graph)

def LayeredSnapshotIndex.mergedDependencies (layered : LayeredSnapshotIndex) :
    FileDependencyGraph :=
  layered.deltas.foldl mergeDependencies layered.base.index.dependencyGraph

section Merged

theorem dependencyGraph_applyDelta [Sha256] (index : RelationIndex) (delta : SnapshotDelta) :
    (applyDelta index delta).dependencyGraph = mergeDependencies index.dependencyGraph delta := by
  have front : (applyExportDiffs (applyImportDiffs (replayEdges index delta) delta.importDiffs)
      delta.exportDiffs).dependencyGraph =
        delta.removedFiles.foldl FileDependencyGraph.removeFile index.dependencyGraph :=
    calc (applyExportDiffs (applyImportDiffs (replayEdges index delta) delta.importDiffs)
          delta.exportDiffs).dependencyGraph
        = (applyImportDiffs (replayEdges index delta) delta.importDiffs).dependencyGraph :=
          foldl_frame dependencyGraph applyExportDiff (fun _ _ => rfl) _ _
      _ = (replayEdges index delta).dependencyGraph :=
          foldl_frame dependencyGraph applyImportDiff (fun _ _ => rfl) _ _
      _ = (applyAddedFiles (applyRemovedFiles index delta.removedFiles)
            delta.addedFiles).dependencyGraph :=
          frame_replayEdges dependencyGraph (fun _ _ => rfl) (fun _ _ => rfl) (fun _ => rfl)
            (fun _ _ => rfl) (fun _ _ => rfl) (fun _ _ => rfl) (fun _ _ => rfl) index delta
      _ = (applyRemovedFiles index delta.removedFiles).dependencyGraph :=
          foldl_frame dependencyGraph applyAddedFile (fun _ _ => rfl) _ _
      _ = delta.removedFiles.foldl FileDependencyGraph.removeFile index.dependencyGraph :=
          (foldl_hom RelationIndex.dependencyGraph fun _ _ => rfl).symm
  unfold mergeDependencies
  rw [← front]
  rfl

variable {source target : String} {graph : FileDependencyGraph}

private theorem mem_patchDependencies {diff : DependencyDiff} :
    target ∈ (patchDependencies graph diff).getDependencies source ↔
      (source = diff.sourceFile ∧ target ∈ diff.addedDependencies ∧ source ≠ target) ∨
        (target ∈ graph.getDependencies source ∧
          ¬(source = diff.sourceFile ∧ target ∈ diff.removedDependencies)) := by
  have removing : ∀ (l : List String) (graph : FileDependencyGraph),
      target ∈ (l.foldl (fun graph target => graph.removeDependency diff.sourceFile target)
        graph).getDependencies source ↔
        target ∈ graph.getDependencies source ∧ ¬(source = diff.sourceFile ∧ target ∈ l) := by
    intro l graph
    refine Iff.trans (foldl_iff_and
      (fun graph => target ∈ FileDependencyGraph.getDependencies graph source)
      (fun graph a => @FileDependencyGraph.mem_getDependencies_removeDependency graph
        diff.sourceFile a source target) l graph) ?_
    simp [and_comm]
  unfold patchDependencies
  rw [FileDependencyGraph.mem_foldl_addDependency, removing]

private theorem mem_foldl_removeFile {files : List String} :
    target ∈ (files.foldl FileDependencyGraph.removeFile graph).getDependencies source ↔
      target ∈ graph.getDependencies source ∧ source ∉ files ∧ target ∉ files := by
  refine (@foldl_iff_and _ _
    (fun graph => target ∈ FileDependencyGraph.getDependencies graph source)
    (fun file => source = file ∨ target = file) _ (fun graph file => ?_) files graph).trans ?_
  · rw [FileDependencyGraph.mem_getDependencies_removeFile, not_or, and_assoc]
  · simp [and_comm]

private theorem mem_of_mem_mergeDependencies {delta : SnapshotDelta}
    (mem : target ∈ (mergeDependencies graph delta).getDependencies source) :
    (∃ diff ∈ delta.dependencyDiffs, source = diff.sourceFile ∧
      target ∈ diff.addedDependencies) ∨ target ∈ graph.getDependencies source := by
  refine (foldl_or (fun graph => target ∈ FileDependencyGraph.getDependencies graph source)
    (fun graph diff patched => ?_) mem).imp_right fun files => (mem_foldl_removeFile.1 files).1
  rcases mem_patchDependencies.1 patched with ⟨own, added, -⟩ | ⟨kept, -⟩
  · exact Or.inl ⟨own, added⟩
  · exact Or.inr kept

theorem mem_overlayDependencies_of_merged {layered : LayeredSnapshotIndex}
    (mem : target ∈ layered.mergedDependencies.getDependencies source) :
    target ∈ layered.overlayDependencies source := by
  rcases @foldl_or _ _ (fun graph => target ∈ graph.getDependencies source) _ mergeDependencies
    (fun _ _ => mem_of_mem_mergeDependencies) _ _ mem with
      ⟨delta, deltaMem, diff, diffMem, rfl, added⟩ | base
  · refine mem_append_left _ (mem_flatMap.2 ⟨delta, deltaMem, mem_flatMap.2 ⟨diff, diffMem, ?_⟩⟩)
    rwa [if_pos rfl]
  · exact mem_append_right _ base

theorem mem_overlayDependents {layered : LayeredSnapshotIndex} {source target : String} :
    source ∈ layered.overlayDependents target ↔ target ∈ layered.overlayDependencies source := by
  unfold LayeredSnapshotIndex.overlayDependents LayeredSnapshotIndex.overlayDependencies
  rw [mem_append, mem_append, FileDependencyGraph.mem_getDependents]
  refine or_congr_left ?_
  unfold LayeredSnapshotIndex.addedDependents LayeredSnapshotIndex.addedDependencies
  simp only [mem_flatMap, mem_map, mem_filter, decide_eq_true_eq]
  refine exists_congr fun delta => and_congr_right fun _ => exists_congr fun diff =>
    and_congr_right fun _ => ?_
  constructor
  · rintro ⟨added, ⟨mem, rfl⟩, rfl⟩
    rw [if_pos rfl]
    exact mem
  · intro mem
    split_ifs at mem with own
    · exact ⟨target, ⟨mem, rfl⟩, own⟩
    · cases mem

end Merged

section Closure

variable (layered : LayeredSnapshotIndex) (filePath : String)

def TransitiveFilesExact : Prop :=
  (∀ file, file ∈ layered.transitiveDependentsOf filePath ↔
    Reach layered.mergedDependencies.getDependents filePath file) ∧
  ∀ file, file ∈ layered.transitiveDependenciesOf filePath ↔
    Reach layered.mergedDependencies.getDependencies filePath file

/-- In both directions the file is on no cycle, the stored closure and the overlay edges found in
fewer than ten levels lead only to what is reachable, and nothing reachable is beyond them. -/
def ClosureSuffices : Prop :=
  BallIsReach layered.overlayDependents layered.mergedDependencies.getDependents filePath
    (layered.base.transitiveDeps.transitiveDependentsOf filePath) 9 ∧
  BallIsReach layered.overlayDependencies layered.mergedDependencies.getDependencies filePath
    (layered.base.transitiveDeps.transitiveDependenciesOf filePath) 9

private theorem mem_extendClosure {overlay : String → List String} {stored : List String}
    {filePath file : String} :
    file ∈ LayeredSnapshotIndex.extendClosure overlay stored filePath ↔
      Ball overlay filePath stored 10 file := by
  unfold LayeredSnapshotIndex.extendClosure
  rw [mem_sortStrings, mem_levelSearch]

/-- For every base snapshot, chain of deltas and file, the layered closures are exact if and only
if the stored closure and ten levels of overlay edges suffice. -/
theorem transitiveFilesExact_iff :
    TransitiveFilesExact layered filePath ↔ ClosureSuffices layered filePath := by
  unfold TransitiveFilesExact ClosureSuffices
  refine and_congr ?_ ?_
  · rw [← ball_eq_reach_iff]
    · exact forall_congr' fun file => iff_congr mem_extendClosure Iff.rfl
    · exact fun mem => layered.base.transitiveDeps.dependents_selfFree filePath
        (mem_sortStrings.1 mem)
    · intro target source mem
      rw [mem_overlayDependents]
      exact mem_overlayDependencies_of_merged (FileDependencyGraph.mem_getDependents.1 mem)
  · rw [← ball_eq_reach_iff]
    · exact forall_congr' fun file => iff_congr mem_extendClosure Iff.rfl
    · exact fun mem => layered.base.transitiveDeps.dependencies_selfFree filePath
        (mem_sortStrings.1 mem)
    · exact fun source target mem => mem_overlayDependencies_of_merged mem

end Closure

section Sample

def firstDependency : LayeredSnapshotIndex where
  base := .fromIndexShared .new
  deltas :=
    [{ epoch := 2
       baseEpoch := 1
       configFingerprint := ""
       dependencyDiffs := [⟨"src/a.rs", [], ["src/b.rs"]⟩] }]

private theorem stored_firstDependency :
    firstDependency.base.transitiveDeps.transitiveDependenciesOf "src/a.rs" = [] := by
  have empty : firstDependency.base.transitiveDeps.transitiveDependencies.members "src/a.rs" =
    [] := by decide
  unfold TransitiveFileDeps.transitiveDependenciesOf sortStrings
  rw [empty, mergeSort_nil]

/-- A dependency only a delta adds is not found from its own source file. -/
theorem firstDependency_not_found : ¬TransitiveFilesExact firstDependency "src/a.rs" := by
  intro exact_
  have edge : "src/b.rs" ∈
      firstDependency.mergedDependencies.getDependencies "src/a.rs" := by decide
  have found : "src/b.rs" ∈ firstDependency.transitiveDependenciesOf "src/a.rs" :=
    (exact_.2 "src/b.rs").2 (.single edge)
  unfold LayeredSnapshotIndex.transitiveDependenciesOf LayeredSnapshotIndex.extendClosure at found
  rw [stored_firstDependency, mem_sortStrings] at found
  exact absurd found (by decide)

end Sample

section Shared

/-- Two indexes agree on the copied tables that a replay reads. -/
structure SharesTables (left right : RelationIndex) : Prop where
  functions : ∀ id, left.functionIndex.lookup id = right.functionIndex.lookup id
  files : ∀ id, left.entityFileIndex.lookup id = right.entityFileIndex.lookup id
  edges : ∀ id, edgesOf left.resolvedRelationIndex id = edgesOf right.resolvedRelationIndex id
  fileEdges : ∀ path, left.fileRelationIndex.lookup path = right.fileRelationIndex.lookup path
  keys : ∀ key, left.symbolKeyToEntity.lookup key = right.symbolKeyToEntity.lookup key
  keyed : ∀ id, left.entityToSymbolKey.lookup id = right.entityToSymbolKey.lookup id

namespace SharesTables

theorem lookup_erase {K V : Type} [DecidableEq K] {left right : HashMap K V}
    (same : ∀ k, left.lookup k = right.lookup k) (erased k : K) :
    (left.erase erased).lookup k = (right.erase erased).lookup k := by
  rw [lookup_erase_eq, lookup_erase_eq, same]

theorem lookup_insert {K V : Type} [DecidableEq K] {left right : HashMap K V}
    (same : ∀ k, left.lookup k = right.lookup k) (inserted : K) (v : V) (k : K) :
    (left.insert inserted v).lookup k = (right.insert inserted v).lookup k := by
  rw [lookup_insert_eq, lookup_insert_eq, same]

variable {left right : RelationIndex}

theorem applyRemovedFile (shares : SharesTables left right) (path : String) :
    SharesTables (applyRemovedFile left path) (applyRemovedFile right path) :=
  { shares with fileEdges := lookup_erase shares.fileEdges path }

theorem applyRemovedFiles (shares : SharesTables left right) (paths : List String) :
    SharesTables (applyRemovedFiles left paths) (applyRemovedFiles right paths) :=
  foldl_rel shares fun path _ _ _ shares => shares.applyRemovedFile path

theorem applyAddedFiles (shares : SharesTables left right) (infos : List FileInfo) :
    SharesTables (applyAddedFiles left infos) (applyAddedFiles right infos) :=
  foldl_rel shares fun _ _ _ _ shares => { shares with }

variable [Sha256]

section

variable (shares : SharesTables left right)

include shares

theorem applyRemovedEntity (id : EntityId) :
    SharesTables (applyRemovedEntity left id) (applyRemovedEntity right id) where
  functions := lookup_erase shares.functions id
  files := lookup_erase shares.files id
  edges other := by
    change edgesOf (dropResolvedEntity left.resolvedRelationIndex id) other =
      edgesOf (dropResolvedEntity right.resolvedRelationIndex id) other
    rw [edgesOf_dropResolvedEntity, edgesOf_dropResolvedEntity, shares.edges]
  fileEdges := shares.fileEdges
  keys key := by
    simp only [ContextEngine.applyRemovedEntity, dropSymbolKey, removeFunction]
    rw [shares.keyed]
    cases right.entityToSymbolKey.lookup id with
    | none => exact shares.keys key
    | some own => exact lookup_erase shares.keys own key
  keyed := lookup_erase shares.keyed id

theorem applyRemovedEntities (removed : List EntityId) :
    SharesTables (applyRemovedEntities left removed) (applyRemovedEntities right removed) :=
  foldl_rel shares fun id _ _ _ shares => shares.applyRemovedEntity id

theorem applyRenamedEntity (renamed : RenamedEntity) :
    SharesTables (applyRenamedEntity left renamed) (applyRenamedEntity right renamed) where
  functions id := by
    simp only [ContextEngine.applyRenamedEntity]
    rw [shares.functions]
    cases right.functionIndex.lookup renamed.oldId with
    | none => exact shares.functions id
    | some entity => exact lookup_insert (lookup_erase shares.functions _) _ entity id
  files id := by
    simp only [ContextEngine.applyRenamedEntity]
    rw [shares.files]
    cases right.entityFileIndex.lookup renamed.oldId with
    | none => exact shares.files id
    | some path => exact lookup_insert (lookup_erase shares.files _) _ path id
  edges id := by
    change edgesOf (renameResolved left.resolvedRelationIndex renamed) id =
      edgesOf (renameResolved right.resolvedRelationIndex renamed) id
    rw [edgesOf_renameResolved left.edgesFiled, edgesOf_renameResolved right.edgesFiled,
      shares.edges]
  fileEdges := shares.fileEdges
  keys key := by
    simp only [ContextEngine.applyRenamedEntity, renameSymbolKey]
    rw [shares.keyed]
    cases right.entityToSymbolKey.lookup renamed.oldId with
    | none => exact shares.keys key
    | some own => exact lookup_insert (lookup_erase shares.keys own) _ _ key
  keyed id := by
    simp only [ContextEngine.applyRenamedEntity, renameSymbolKey]
    rw [shares.keyed]
    cases right.entityToSymbolKey.lookup renamed.oldId with
    | none => exact shares.keyed id
    | some own => exact lookup_insert (lookup_erase shares.keyed _) _ _ id

theorem applyRenamedEntities (renamed : List RenamedEntity) :
    SharesTables (applyRenamedEntities left renamed) (applyRenamedEntities right renamed) := by
  unfold ContextEngine.applyRenamedEntities
  split
  · exact shares
  · have folded : SharesTables (renamed.foldl ContextEngine.applyRenamedEntity left)
        (renamed.foldl ContextEngine.applyRenamedEntity right) :=
      foldl_rel shares fun r _ _ _ shares => shares.applyRenamedEntity r
    exact { folded with }

theorem resolveSymbolKey (filePath scopedName : String) (entity : Entity) (entityId : EntityId) :
    left.resolveSymbolKey filePath scopedName entity entityId =
      right.resolveSymbolKey filePath scopedName entity entityId := by
  unfold RelationIndex.resolveSymbolKey
  simp only [shares.keys, shares.functions]

theorem applyAddedEntity (added : AddedEntity) :
    SharesTables (applyAddedEntity left added) (applyAddedEntity right added) := by
  have stored : SharesTables (left.insertFunction added.entity.id added.entity)
      (right.insertFunction added.entity.id added.entity) :=
    { shares with functions := lookup_insert shares.functions _ _ }
  have outcome : added.registration left = added.registration right :=
    stored.resolveSymbolKey _ _ _ _
  refine { stored with
    files := lookup_insert shares.files _ _, keys := fun key => ?_, keyed := fun id => ?_ }
  · rw [symbolKeyToEntity_applyAddedEntity, symbolKeyToEntity_applyAddedEntity, outcome]
    cases added.registration right with
    | placed own => exact lookup_insert shares.keys own _ key
    | kept => exact shares.keys key
    | conflict _ _ => exact shares.keys key
  · rw [entityToSymbolKey_applyAddedEntity, entityToSymbolKey_applyAddedEntity, outcome]
    cases added.registration right with
    | placed own => exact lookup_insert shares.keyed _ own id
    | kept => exact shares.keyed id
    | conflict _ _ => exact shares.keyed id

theorem applyAddedEntities (added : List AddedEntity) :
    SharesTables (applyAddedEntities left added) (applyAddedEntities right added) :=
  foldl_rel shares fun a _ _ _ shares => shares.applyAddedEntity a

omit [Sha256] in
theorem applyRemovedRelations (removed : List ResolvedRelation) :
    SharesTables (applyRemovedRelations left removed) (applyRemovedRelations right removed) := by
  refine foldl_rel shares fun relation _ first second shares => { shares with
    edges := fun id => ?_ }
  change edgesOf (removeRelation first.resolvedRelationIndex relation) id =
    edgesOf (removeRelation second.resolvedRelationIndex relation) id
  rw [edgesOf_removeRelation, edgesOf_removeRelation, shares.edges]

omit [Sha256] in
theorem applyAddedRelations (added : List ResolvedRelation) :
    SharesTables (applyAddedRelations left added) (applyAddedRelations right added) := by
  refine foldl_rel shares fun relation _ first second shares => { shares with
    edges := fun id => ?_ }
  have present : hasEdge first.resolvedRelationIndex relation.caller relation =
      hasEdge second.resolvedRelationIndex relation.caller relation := by
    rw [Bool.eq_iff_iff, hasEdge_iff, hasEdge_iff, shares.edges]
  change edgesOf (addEdge first.resolvedRelationIndex relation.caller relation) id =
    edgesOf (addEdge second.resolvedRelationIndex relation.caller relation) id
  rw [edgesOf_addEdge, edgesOf_addEdge, present, shares.edges, shares.edges]

omit [Sha256] in
theorem applyFileRelationDiffs (diffs : List FileRelationDiff) :
    SharesTables (applyFileRelationDiffs left diffs) (applyFileRelationDiffs right diffs) := by
  refine foldl_rel shares fun diff _ first second shares => { shares with
    fileEdges := fun path => ?_ }
  change (patchFileRelations first.fileRelationIndex diff).lookup path =
    (patchFileRelations second.fileRelationIndex diff).lookup path
  unfold patchFileRelations
  rw [shares.fileEdges]
  simp only
  split_ifs
  · exact lookup_erase shares.fileEdges _ path
  · exact lookup_insert shares.fileEdges _ _ path

theorem applyDelta (delta : SnapshotDelta) :
    SharesTables (applyDelta left delta) (applyDelta right delta) := by
  have files := (shares.applyRemovedFiles delta.removedFiles).applyAddedFiles delta.addedFiles
  have entities := ((files.applyRemovedEntities delta.removedEntities).applyRenamedEntities
    delta.renamedEntities).applyAddedEntities delta.addedEntities
  have edges := ((entities.applyRemovedRelations delta.removedRelations).applyAddedRelations
    delta.addedRelations).applyFileRelationDiffs delta.fileRelationDiffs
  have imports : SharesTables (ContextEngine.applyImportDiffs _ delta.importDiffs)
      (ContextEngine.applyImportDiffs _ delta.importDiffs) :=
    foldl_rel edges fun _ _ _ _ shares => { shares with }
  have exports : SharesTables (ContextEngine.applyExportDiffs _ delta.exportDiffs)
      (ContextEngine.applyExportDiffs _ delta.exportDiffs) :=
    foldl_rel imports fun _ _ _ _ shares => { shares with }
  exact { exports with }

end

end SharesTables

end Shared

section KeyLists

variable [Sha256]

def KeyOutlives : RelationIndex → List SnapshotDelta → String → SymbolKey → Prop
  | _, [], _, _ => True
  | index, delta :: deltas, path, key =>
    KeyKept index delta path key ∧ KeyOutlives (applyDelta index delta) deltas path key

private theorem placedKeys_eq {left right : RelationIndex} (shares : SharesTables left right)
    (added : List AddedEntity) : placedKeys left added = placedKeys right added := by
  induction added generalizing left right with
  | nil => rfl
  | cons a l ih =>
    have stored : SharesTables (left.insertFunction a.entity.id a.entity)
        (right.insertFunction a.entity.id a.entity) :=
      { shares with functions := SharesTables.lookup_insert shares.functions _ _ }
    have outcome : a.registration left = a.registration right :=
      stored.resolveSymbolKey _ _ _ _
    unfold placedKeys
    rw [outcome, ih (shares.applyAddedEntity a)]

theorem keyLists_eq_of_chain {left right : RelationIndex} (deltas : List SnapshotDelta)
    (shares : SharesTables left right) {path : String} {kept : List SymbolKey}
    (split : right.fileSymbolKeys.bucket path = kept ++ left.fileSymbolKeys.bucket path)
    (gone : ∀ key ∈ kept, ¬KeyOutlives right deltas path key) :
    (deltas.foldl applyDelta left).fileSymbolKeys.bucket path =
      (deltas.foldl applyDelta right).fileSymbolKeys.bucket path := by
  induction deltas generalizing left right kept with
  | nil =>
    have none : kept = [] := eq_nil_iff_forall_not_mem.2 fun key mem => gone key mem trivial
    rw [none] at split
    exact split.symm
  | cons delta deltas ih =>
    have losses : SharesTables (replayLosses left delta) (replayLosses right delta) :=
      (((shares.applyRemovedFiles _).applyAddedFiles _).applyRemovedEntities
        _).applyRenamedEntities _
    have keeps : ∀ key, KeyKept left delta path key ↔ KeyKept right delta path key := by
      intro key
      unfold KeyKept
      simp only [shares.keyed]
    have splitAfter : (applyDelta right delta).fileSymbolKeys.bucket path =
        (kept.filter fun key => KeyKept right delta path key) ++
          (applyDelta left delta).fileSymbolKeys.bucket path := by
      rw [bucket_fileSymbolKeys_applyDelta, bucket_fileSymbolKeys_applyDelta, split,
        filter_append, append_assoc, placedKeys_eq losses]
      simp only [keeps]
    refine ih (shares.applyDelta delta) splitAfter fun key mem outlives => ?_
    obtain ⟨inKept, keep⟩ := mem_filter.1 mem
    exact gone key inKept ⟨of_decide_eq_true keep, outlives⟩

end KeyLists

section Rows

variable [Sha256]

def RowOutlives : RelationIndex → List SnapshotDelta → String → Nat ×ₗ EntityId → Prop
  | _, [], _, _ => True
  | index, delta :: deltas, path, item =>
    RowKept index delta path item ∧ RowOutlives (applyDelta index delta) deltas path item

def ChainAddsRowless : RelationIndex → List SnapshotDelta → Prop
  | _, [] => True
  | index, delta :: deltas =>
    AddsRowlessNumbers index delta ∧ ChainAddsRowless (applyDelta index delta) deltas

/-- The right index has the rows of the left one and, for other entities, some more. -/
structure RowsSplit (left right : RelationIndex) (more : String → Nat ×ₗ EntityId → Prop) :
    Prop where
  mem_iff : ∀ path item, item ∈ rowsAt right.fileEntitiesByStart path ↔
    more path item ∨ item ∈ rowsAt left.fileEntitiesByStart path
  apart : ∀ path item, more path item → ∀ other ∈ rowsAt left.fileEntitiesByStart path,
    (ofLex other).2 ≠ (ofLex item).2

namespace RowsSplit

variable {left right : RelationIndex} {more : String → Nat ×ₗ EntityId → Prop}

omit [Sha256] in
private theorem rowKept_iff (split : RowsSplit left right more) (shares : SharesTables left right)
    (delta : SnapshotDelta) {path : String} {item : Nat ×ₗ EntityId}
    (mem : item ∈ rowsAt left.fileEntitiesByStart path) :
    RowKept left delta path item ↔ RowKept right delta path item := by
  have first : (rowsAt left.fileEntitiesByStart path).find?
        (fun other => (ofLex other).2 = (ofLex item).2) =
      (rowsAt right.fileEntitiesByStart path).find?
        fun other => (ofLex other).2 = (ofLex item).2 := by
    refine SortedVec.find?_congr fun other own => ?_
    have same : (ofLex other).2 = (ofLex item).2 := of_decide_eq_true own
    constructor
    · exact fun inLeft => (split.mem_iff path other).2 (Or.inr inLeft)
    · intro inRight
      rcases (split.mem_iff path other).1 inRight with extra | inLeft
      · exact absurd same.symm (split.apart path other extra item mem)
      · exact inLeft
  unfold RowKept
  rw [shares.functions, shares.files, first]

theorem applyDelta (split : RowsSplit left right more) (shares : SharesTables left right)
    {delta : SnapshotDelta} (rowless : AddsRowlessNumbers right delta) :
    RowsSplit (applyDelta left delta) (applyDelta right delta)
      fun path item => more path item ∧ RowKept right delta path item := by
  have within : ∀ {path item}, item ∈ rowsAt left.fileEntitiesByStart path →
      item ∈ rowsAt right.fileEntitiesByStart path := fun mem =>
    (split.mem_iff _ _).2 (Or.inr mem)
  have rowlessLeft : AddsRowlessNumbers left delta :=
    ⟨rowless.1, fun a added path item mem => rowless.2 a added path item (within mem)⟩
  refine ⟨fun path item => ?_, fun path item extra other mem => ?_⟩
  · rw [mem_rowsAt_applyDelta rowless, mem_rowsAt_applyDelta rowlessLeft, split.mem_iff,
      or_and_right, or_assoc]
    refine or_congr_right (or_congr_left (and_congr_right fun mem => ?_))
    exact (split.rowKept_iff shares delta mem).symm
  · rcases (mem_rowsAt_applyDelta rowlessLeft).1 mem with ⟨before, -⟩ | ⟨a, added, -, rfl⟩
    · exact split.apart path item extra.1 other before
    · have listed := (split.mem_iff path item).2 (Or.inl extra.1)
      exact (rowless.2 a added path item listed).symm

end RowsSplit

theorem rows_eq_of_chain {left right : RelationIndex} (deltas : List SnapshotDelta)
    (shares : SharesTables left right) {more : String → Nat ×ₗ EntityId → Prop}
    (split : RowsSplit left right more) (rowless : ChainAddsRowless right deltas)
    (gone : ∀ path item, more path item → ¬RowOutlives right deltas path item) (path : String) :
    rowsAt (deltas.foldl ContextEngine.applyDelta left).fileEntitiesByStart path =
      rowsAt (deltas.foldl ContextEngine.applyDelta right).fileEntitiesByStart path := by
  induction deltas generalizing left right more with
  | nil =>
    refine SortedVec.toList_eq_of_mem_iff fun item => ?_
    refine ((split.mem_iff path item).trans (or_iff_right ?_)).symm
    exact fun extra => gone path item extra trivial
  | cons delta deltas ih =>
    refine ih (shares.applyDelta delta) (split.applyDelta shares rowless.1) rowless.2 ?_
    exact fun path item extra outlives => gone path item extra.1 ⟨extra.2, outlives⟩

end Rows

section Dependencies

def DependencyUntouched (delta : SnapshotDelta) (source target : String) : Prop :=
  source ∉ delta.removedFiles ∧ target ∉ delta.removedFiles ∧
    ∀ diff ∈ delta.dependencyDiffs, diff.sourceFile = source →
      target ∉ diff.removedDependencies ∧ target ∉ diff.addedDependencies

variable {left right : FileDependencyGraph} {source target : String}

def AgreeAt (source target : String) (left right : FileDependencyGraph) : Prop :=
  target ∈ left.getDependencies source ↔ target ∈ right.getDependencies source

theorem AgreeAt.patchDependencies (agree : AgreeAt source target left right)
    (diff : DependencyDiff) :
    AgreeAt source target (patchDependencies left diff) (patchDependencies right diff) := by
  unfold AgreeAt at agree ⊢
  rw [mem_patchDependencies, mem_patchDependencies, agree]

theorem AgreeAt.mergeDependencies (agree : AgreeAt source target left right)
    (delta : SnapshotDelta) :
    AgreeAt source target (mergeDependencies left delta) (mergeDependencies right delta) := by
  have files : AgreeAt source target (delta.removedFiles.foldl FileDependencyGraph.removeFile left)
      (delta.removedFiles.foldl FileDependencyGraph.removeFile right) := by
    unfold AgreeAt at agree ⊢
    rw [mem_foldl_removeFile, mem_foldl_removeFile, agree]
  exact foldl_rel files fun diff _ _ _ agree => agree.patchDependencies diff

theorem agreeAt_of_touched {delta : SnapshotDelta}
    (touched : ¬DependencyUntouched delta source target) :
    AgreeAt source target (mergeDependencies left delta) (mergeDependencies right delta) := by
  have stated : ∀ {diff : DependencyDiff} (left right : FileDependencyGraph),
      source = diff.sourceFile →
      (target ∈ diff.removedDependencies ∨ target ∈ diff.addedDependencies) →
      AgreeAt source target (patchDependencies left diff) (patchDependencies right diff) := by
    intro diff left right own listed
    unfold AgreeAt
    rw [mem_patchDependencies, mem_patchDependencies]
    rcases listed with removed | added
    · simp [own, removed]
    · by_cases loop : source = target
      · have irrefl : ∀ graph : FileDependencyGraph, target ∉ graph.getDependencies source :=
          fun graph => loop ▸ graph.irrefl source
        simp [irrefl]
      · exact iff_of_true (Or.inl ⟨own, added, loop⟩) (Or.inl ⟨own, added, loop⟩)
  have patched : ∀ (diffs : List DependencyDiff) (left right : FileDependencyGraph),
      (∃ diff ∈ diffs, source = diff.sourceFile ∧
        (target ∈ diff.removedDependencies ∨ target ∈ diff.addedDependencies)) →
      AgreeAt source target (diffs.foldl patchDependencies left)
        (diffs.foldl patchDependencies right) := by
    intro diffs
    induction diffs with
    | nil => exact fun _ _ ⟨_, mem, _⟩ => absurd mem not_mem_nil
    | cons diff diffs ih =>
      rintro left right ⟨touching, mem, own, listed⟩
      rcases mem_cons.1 mem with rfl | later
      · rw [foldl_cons, foldl_cons]
        exact foldl_rel (stated left right own listed)
          fun diff _ _ _ agree => agree.patchDependencies diff
      · exact ih _ _ ⟨touching, later, own, listed⟩
  by_cases removed : source ∈ delta.removedFiles ∨ target ∈ delta.removedFiles
  · have files : AgreeAt source target
        (delta.removedFiles.foldl FileDependencyGraph.removeFile left)
        (delta.removedFiles.foldl FileDependencyGraph.removeFile right) := by
      unfold AgreeAt
      rw [mem_foldl_removeFile, mem_foldl_removeFile]
      exact iff_of_false (fun both => removed.elim both.2.1 both.2.2)
        fun both => removed.elim both.2.1 both.2.2
    exact foldl_rel files fun diff _ _ _ agree => agree.patchDependencies diff
  · obtain ⟨sourceKept, targetKept⟩ := not_or.1 removed
    refine patched _ _ _ ?_
    by_contra none
    refine touched ⟨sourceKept, targetKept, fun diff mem own => ?_⟩
    exact not_or.1 fun listed => none ⟨diff, mem, own.symm, listed⟩

theorem agreeAt_of_chain (deltas : List SnapshotDelta) (settled : AgreeAt source target left right ∨
      ∃ delta ∈ deltas, ¬DependencyUntouched delta source target) :
    AgreeAt source target (deltas.foldl mergeDependencies left)
      (deltas.foldl mergeDependencies right) := by
  induction deltas generalizing left right with
  | nil => exact settled.resolve_right fun ⟨_, mem, _⟩ => not_mem_nil mem
  | cons delta deltas ih =>
    refine ih ?_
    rcases settled with agree | ⟨touching, mem, touched⟩
    · exact Or.inl (agree.mergeDependencies delta)
    · rcases mem_cons.1 mem with rfl | later
      · exact Or.inl (agreeAt_of_touched touched)
      · exact Or.inr ⟨touching, later, touched⟩

private theorem mem_copyDependencies {base : RelationIndex} :
    target ∈ (copyDependencies base).getDependencies source ↔
      source ∈ base.fileRecords.keys ∧ target ∈ base.dependencyGraph.getDependencies source := by
  unfold copyDependencies
  rw [foldl_iff_or (fun graph => target ∈ FileDependencyGraph.getDependencies graph source)
    fun graph file => @FileDependencyGraph.mem_foldl_addDependency graph file source target
      (base.dependencyGraph.getDependencies file),
    FileDependencyGraph.getDependencies_empty, or_iff_left not_mem_nil]
  constructor
  · rintro ⟨_, mem, rfl, depends, -⟩
    exact ⟨mem, depends⟩
  · rintro ⟨mem, depends⟩
    refine ⟨source, mem, rfl, depends, ?_⟩
    rintro rfl
    exact base.dependencyGraph.irrefl _ depends

end Dependencies

section Agreement

variable [Sha256]

/-- Two indexes give the same answers: validation, the entities of a file, its stable keys, the
entities in a line range, the dependency graph and both edge tables. -/
structure AnswersAgree (left right : RelationIndex) : Prop where
  valid : left.validateSnapshot = .ok () ↔ right.validateSnapshot = .ok ()
  entities : ∀ path, left.entitiesOfFile path = right.entitiesOfFile path
  keys : ∀ files, RelationIndexView.stableSymbolKeysInFiles left files =
    RelationIndexView.stableSymbolKeysInFiles right files
  lines : ∀ path startLine endLine id, id ∈ left.getEntitiesInLineRange path startLine endLine ↔
    id ∈ right.getEntitiesInLineRange path startLine endLine
  dependencies : ∀ source target, target ∈ left.dependencyGraph.getDependencies source ↔
    target ∈ right.dependencyGraph.getDependencies source
  edges : ∀ caller, edgesOf left.resolvedRelationIndex caller =
    edgesOf right.resolvedRelationIndex caller
  fileEdges : ∀ path, edgesOf left.fileRelationIndex path = edgesOf right.fileRelationIndex path

/-- Nothing that materialization does not copy from the base is left at the end of the chain. -/
structure NothingUncopiedOutlives (layered : LayeredSnapshotIndex) : Prop where
  keys : ∀ path, ∀ key ∈ layered.base.index.fileSymbolKeys.bucket path,
    ¬KeyOutlives layered.base.index.detachedClone layered.deltas path key
  rows : ∀ path, ∀ item ∈ rowsAt layered.base.index.fileEntitiesByStart path,
    ¬RowOutlives layered.base.index.detachedClone layered.deltas path item
  rowless : ChainAddsRowless layered.base.index.detachedClone layered.deltas
  dependencies : ∀ source, (layered.base.index.fileRecords.lookup source).isNone →
    ∀ target ∈ layered.base.index.dependencyGraph.getDependencies source,
      ∃ delta ∈ layered.deltas, ¬DependencyUntouched delta source target

variable {left right : RelationIndex}

omit [Sha256] in
theorem SharesTables.symm (shares : SharesTables left right) :
    SharesTables right left :=
  ⟨fun id => (shares.functions id).symm, fun id => (shares.files id).symm,
    fun id => (shares.edges id).symm, fun path => (shares.fileEdges path).symm,
    fun key => (shares.keys key).symm, fun id => (shares.keyed id).symm⟩

omit [Sha256] in
theorem SharesTables.edgesOf_fileRelationIndex (shares : SharesTables left right) (path : String) :
    edgesOf left.fileRelationIndex path = edgesOf right.fileRelationIndex path := by
  unfold edgesOf
  rw [shares.fileEdges]

omit [Sha256] in
theorem SnapshotValid.of_shares (valid : left.SnapshotValid) (shares : SharesTables left right)
    (keys : ∀ path, left.fileSymbolKeys.bucket path = right.fileSymbolKeys.bucket path) :
    right.SnapshotValid := by
  have live : ∀ {id}, (left.functionIndex.lookup id).isSome →
      (right.functionIndex.lookup id).isSome := fun stored => shares.functions _ ▸ stored
  refine ⟨fun caller set found => ?_, fun caller relation mem callee hit => ?_,
    fun path relation mem callee hit => ?_, fun id stored => ?_, fun key registered => ?_,
    fun path key listed => ?_, fun path key listed => ?_⟩
  · have some := right.edgesFiled.edgesOf_ne_nil found
    rw [← shares.edges] at some
    obtain ⟨edge, mem⟩ := exists_mem_of_ne_nil _ some
    exact live (valid.live_of_edge mem)
  · rw [← shares.edges] at mem
    exact live (valid.callee_live caller relation mem callee hit)
  · rw [← shares.edgesOf_fileRelationIndex] at mem
    exact live (valid.file_callee_live path relation mem callee hit)
  · rw [← shares.functions] at stored
    exact shares.files id ▸ valid.member id stored
  · rw [← shares.keys] at registered
    exact keys _ ▸ valid.key_listed key registered
  · rw [← keys] at listed
    exact shares.keys key ▸ valid.listed_live path key listed
  · rw [← keys] at listed
    exact valid.listed_path path key listed

omit [Sha256] in
theorem answersAgree_of_shares (shares : SharesTables left right)
    (keys : ∀ path, left.fileSymbolKeys.bucket path = right.fileSymbolKeys.bucket path)
    (rows : ∀ path, rowsAt left.fileEntitiesByStart path = rowsAt right.fileEntitiesByStart path)
    (graph : ∀ source target, AgreeAt source target left.dependencyGraph right.dependencyGraph) :
    AnswersAgree left right := by
  have entities : ∀ (index : RelationIndex) path, index.entitiesOfFile path =
      (rowsAt index.fileEntitiesByStart path).filterMap
        fun item => index.functionIndex.lookup (ofLex item).2 := by
    intro index path
    unfold entitiesOfFile rowsAt
    cases index.fileEntitiesByStart.lookup path <;> rfl
  refine ⟨?_, fun path => ?_, fun files => ?_, fun path startLine endLine id => ?_, graph,
    shares.edges, shares.edgesOf_fileRelationIndex⟩
  · rw [validateSnapshot_iff, validateSnapshot_iff]
    exact ⟨fun valid => SnapshotValid.of_shares valid shares keys,
      fun valid => SnapshotValid.of_shares valid shares.symm fun path => (keys path).symm⟩
  · rw [entities, entities, rows]
    simp only [shares.functions]
  · change (files.toList.flatMap fun file => left.fileSymbolKeys.bucket file) =
      files.toList.flatMap fun file => right.fileSymbolKeys.bucket file
    simp only [keys]
  · rw [mem_getEntitiesInLineRange, mem_getEntitiesInLineRange, rows, shares.files]
    unfold meetsLines
    rw [shares.functions]

/-- A materialized index gives the answers of the replayed one as soon as every listed key, row
and unrecorded dependency of the base is dropped or restated by the chain. -/
theorem answersAgree_materializeMergedIndex (layered : LayeredSnapshotIndex)
    (none : NothingUncopiedOutlives layered) :
    AnswersAgree layered.materializeMergedIndex layered.replayed := by
  let base := layered.base.index
  have start : SharesTables (copyTables base) base.detachedClone := by
    refine ⟨fun id => ?_, lookup_copy _, fun id => ?_, lookup_copy _,
      lookup_copy _, lookup_copy _⟩
    · rw [functionIndex_copyTables, lookup_copy]
      rfl
    · change edgesOf base.resolvedRelationIndex.copy id = edgesOf base.resolvedRelationIndex id
      unfold edgesOf
      rw [lookup_copy]
  have bareFunctions : ∀ {β : Type} (field : RelationIndex → β),
      (∀ index id entity, field (insertFunction index id entity) = field index) →
      field (base.functionIndex.toList.foldl
        (fun index entry => index.insertFunction entry.1 entry.2) new) =
        field new := fun field kept =>
    foldl_frame field (fun index (entry : EntityId × Entity) =>
      index.insertFunction entry.1 entry.2) (fun index entry => kept index entry.1 entry.2) _ _
  have shares : SharesTables (layered.deltas.foldl applyDelta (copyTables base))
      layered.replayed :=
    foldl_rel start fun delta _ _ _ shares => shares.applyDelta delta
  have noKeys : ∀ path, (copyTables base).fileSymbolKeys.bucket path = [] := fun path =>
    congrArg (fun table => bucket table path)
      (bareFunctions fileSymbolKeys fun _ _ _ => rfl)
  have noRows : ∀ path, rowsAt (copyTables base).fileEntitiesByStart path = [] := fun path =>
    congrArg (fun table => rowsAt table path) (bareFunctions fileEntitiesByStart fun _ _ _ => rfl)
  have keys : ∀ path, (layered.deltas.foldl applyDelta (copyTables base)).fileSymbolKeys.bucket
      path = layered.replayed.fileSymbolKeys.bucket path := by
    intro path
    refine keyLists_eq_of_chain layered.deltas start ?_ (none.keys path)
    rw [noKeys, append_nil]
    rfl
  have rows : ∀ path, rowsAt (layered.deltas.foldl applyDelta
      (copyTables base)).fileEntitiesByStart path =
        rowsAt layered.replayed.fileEntitiesByStart path := by
    have split : RowsSplit (copyTables base) base.detachedClone
        fun path item => item ∈ rowsAt base.fileEntitiesByStart path := by
      refine ⟨fun path item => ?_, fun path item _ other mem => ?_⟩
      · rw [noRows]
        exact (or_iff_left not_mem_nil).symm
      · rw [noRows] at mem
        cases mem
    exact rows_eq_of_chain layered.deltas start split none.rowless none.rows
  have graph : ∀ source target, AgreeAt source target
      (layered.deltas.foldl applyDelta (copyTables base)).dependencyGraph
      layered.replayed.dependencyGraph := by
    intro source target
    have merged : ∀ index : RelationIndex,
        (layered.deltas.foldl applyDelta index).dependencyGraph =
          layered.deltas.foldl mergeDependencies index.dependencyGraph := fun index =>
      (foldl_hom dependencyGraph fun index delta =>
        (dependencyGraph_applyDelta index delta).symm).symm
    unfold LayeredSnapshotIndex.replayed
    rw [merged, merged]
    refine agreeAt_of_chain layered.deltas ?_
    by_cases recorded : (base.fileRecords.lookup source).isSome
    · left
      have listed : source ∈ base.fileRecords.keys := by
        rw [mem_keys_iff]
        exact Option.isSome_iff_exists.1 recorded
      exact mem_copyDependencies.trans (and_iff_right listed)
    · by_cases mem : target ∈ base.dependencyGraph.getDependencies source
      · exact Or.inr (none.dependencies source (by simpa using recorded) target mem)
      · exact Or.inl (iff_of_false (fun copied => mem (mem_copyDependencies.1 copied).2) mem)
  have agree := answersAgree_of_shares shares keys rows graph
  exact { agree with valid := agree.valid }

end Agreement

section Sample

def pairUnder [Sha256] (newer : RelationIndex) : LayeredSnapshotIndex where
  base := .fromIndexShared (pairIndex (functionAt 2 "run" 7))
  deltas := [computeDelta newer (pairIndex (functionAt 2 "run" 7)) 2 1 "" none]

def reparsedPair : RelationIndex :=
  (RelationIndex.new.addFunctionWithPath 3 (functionAt 3 "main" 1) "src/main.rs"
    ).addFunctionWithPath 4 (functionAt 4 "run" 7) "src/main.rs"

/-- A function the chain leaves alone is not among the materialized entities of its file. -/
theorem untouchedFunction_lost :
    ¬AnswersAgree
      (@LayeredSnapshotIndex.materializeMergedIndex sampleSha256
        (@pairUnder sampleSha256 (pairIndex (functionAt 3 "start" 40))))
      (@LayeredSnapshotIndex.replayed sampleSha256
        (@pairUnder sampleSha256 (pairIndex (functionAt 3 "start" 40)))) := by
  let _ := sampleSha256
  intro agree
  exact absurd (congrArg length (agree.entities "src/main.rs")) (by decide)

private theorem mem_rowsAt_pairIndex {path : String} {item : Nat ×ₗ EntityId}
    (mem : item ∈ rowsAt (pairIndex (functionAt 2 "run" 7)).fileEntitiesByStart path) :
    path = "src/main.rs" ∧ (item = toLex (1, 1) ∨ item = toLex (7, 2)) := by
  change item ∈ rowsAt (trackFileEntity (trackFileEntity ∅ "src/main.rs" 1 1) "src/main.rs" 7 2)
    path at mem
  rcases mem_rowsAt_trackFileEntity.1 mem with ⟨here, -, second⟩ | before
  · exact ⟨here, Or.inr second⟩
  · rcases mem_rowsAt_trackFileEntity.1 before with ⟨here, -, first⟩ | none
    · exact ⟨here, Or.inl first⟩
    · exact absurd none not_mem_nil

theorem answersAgree_materializeMergedIndex_reparsed :
    AnswersAgree
      (@LayeredSnapshotIndex.materializeMergedIndex sampleSha256
        (@pairUnder sampleSha256 reparsedPair))
      (@LayeredSnapshotIndex.replayed sampleSha256 (@pairUnder sampleSha256 reparsedPair)) := by
  let _ := sampleSha256
  have added : ∀ a ∈ (computeDelta reparsedPair (pairIndex (functionAt 2 "run" 7)) 2 1 ""
      none).addedEntities, a.entity.id = 3 ∨ a.entity.id = 4 := by decide
  refine answersAgree_materializeMergedIndex _ ⟨fun _ _ mem => absurd mem not_mem_nil,
    fun path item mem outlives => ?_, ⟨⟨by decide, fun a listed path item mem => ?_⟩, trivial⟩,
    fun _ _ _ mem => absurd mem not_mem_nil⟩
  · obtain ⟨rfl, rfl | rfl⟩ := mem_rowsAt_pairIndex mem
    · exact outlives.1.2 ⟨by decide, by decide, by decide, by decide⟩
    · exact outlives.1.2 ⟨by decide, by decide, by decide, by decide⟩
  · obtain ⟨-, rfl | rfl⟩ := mem_rowsAt_pairIndex mem
    · rcases added a listed with same | same <;> rw [same] <;> decide
    · rcases added a listed with same | same <;> rw [same] <;> decide

end Sample

end ContextEngine

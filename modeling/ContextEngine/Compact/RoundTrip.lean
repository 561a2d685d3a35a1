/- digest: What a compact snapshot denotes under deltas, and which indexes survive the way back. -/

import ContextEngine.Index.Compact
import ContextEngine.Index.SnapshotQuery
import ContextEngine.Freshness.NameIndex
import ContextEngine.Graph.CycleReports
import ContextEngine.Layered.Materialization
import ContextEngine.Reverse.Transposition

set_option autoImplicit false

namespace ContextEngine

open HashMap List RelationIndex CompactRelationIndex

section Dependencies

theorem mem_dependencyTable {files : List String} {neighbours : String → List String}
    (covers : ∀ file other, other ∈ neighbours file → file ∈ files) {file other : String} :
    other ∈ (dependencyTable files neighbours).members file ↔ other ∈ neighbours file := by
  have folded : ∀ (files : List String) (table : HashMap String (HashSet String)),
      other ∈ (files.foldl (fun table file =>
          if (neighbours file).isEmpty then table
          else table.insert file (HashSet.ofList (neighbours file))) table).members file ↔
        (file ∈ files ∧ other ∈ neighbours file) ∨
          ((file ∉ files ∨ neighbours file = []) ∧ other ∈ table.members file) := by
    intro files
    induction files with
    | nil => simp
    | cons own files ih =>
      intro table
      rw [foldl_cons, ih, mem_cons]
      by_cases bare : neighbours own = []
      · rw [isEmpty_iff.2 bare, if_pos rfl]
        by_cases same : file = own
        · subst same
          simp [bare]
        · simp [same]
      · rw [if_neg (fun empty => bare (isEmpty_iff.1 empty))]
        by_cases same : file = own
        · subst same
          have members : members (table.insert file (HashSet.ofList (neighbours file))) file =
                (neighbours file).dedup := by
            unfold members
            rw [AList.lookup_insert]
            rfl
          rw [members, mem_dedup]
          simp only [bare, or_false, true_or, true_and, not_true_eq_false, false_and]
          tauto
        · have members : members (table.insert own (HashSet.ofList (neighbours own))) file =
                table.members file := by
            unfold members
            rw [AList.lookup_insert_ne same]
          rw [members]
          simp [same]
  unfold dependencyTable
  rw [folded]
  simp only [members_empty, not_mem_nil, and_false, or_false]
  exact and_iff_right_of_imp (covers file other)

variable {source target : String} {index : RelationIndex}

theorem mem_dependencyForward :
    target ∈ (fromRelationIndex index).dependencyForward.members source ↔
      target ∈ index.dependencyGraph.getDependencies source :=
  mem_dependencyTable fun _ _ mem =>
    index.dependencyGraph.mem_getAllFiles_of_mem_getDependents
      (FileDependencyGraph.mem_getDependents.2 mem)

theorem mem_dependencyReverse :
    source ∈ (fromRelationIndex index).dependencyReverse.members target ↔
      target ∈ index.dependencyGraph.getDependencies source :=
  (mem_dependencyTable fun _ _ mem =>
    index.dependencyGraph.mem_getAllFiles_of_mem_getDependencies
      (FileDependencyGraph.mem_getDependents.1 mem)).trans FileDependencyGraph.mem_getDependents

theorem mem_toDependencyGraph {compact : CompactRelationIndex}
    (irrefl : ∀ file, file ∉ compact.dependencyForward.members file) :
    target ∈ compact.toDependencyGraph.getDependencies source ↔
      target ∈ compact.dependencyForward.members source := by
  have members : ∀ file, target ∈ compact.dependencyForward.members file ↔
      ∃ set, compact.dependencyForward.lookup file = some set ∧ target ∈ set.toList := by
    intro file
    unfold members
    cases compact.dependencyForward.lookup file with
    | none => simp
    | some set => simp
  unfold toDependencyGraph
  rw [foldl_iff_or (fun graph => target ∈ FileDependencyGraph.getDependencies graph source)
    fun graph entry => @FileDependencyGraph.mem_foldl_addDependency graph entry.1 source target
      entry.2.toList,
    FileDependencyGraph.getDependencies_empty, or_iff_left not_mem_nil, members]
  constructor
  · rintro ⟨⟨_, set⟩, entry, rfl, hit, -⟩
    exact ⟨set, mem_toList.1 entry, hit⟩
  · rintro ⟨set, found, hit⟩
    refine ⟨(source, set), mem_toList.2 found, rfl, hit, fun same => irrefl target ?_⟩
    exact (members target).2 ⟨set, same ▸ found, hit⟩

theorem mem_getDependencies_toRelationIndex :
    target ∈ (fromRelationIndex index).toRelationIndex.dependencyGraph.getDependencies source ↔
      target ∈ index.dependencyGraph.getDependencies source :=
  (mem_toDependencyGraph fun file mem =>
    index.dependencyGraph.irrefl file (mem_dependencyForward.1 mem)).trans mem_dependencyForward

end Dependencies

section Restored

variable {index : RelationIndex}

theorem lookup_functionIndex_toRelationIndex (id : EntityId) :
    (fromRelationIndex index).toRelationIndex.functionIndex.lookup id =
      index.functionIndex.lookup id := by
  have restored : (fromRelationIndex index).restoreFunctions.functionIndex =
      index.functionIndex.copy.copy := by
    unfold restoreFunctions
    exact (foldl_hom RelationIndex.functionIndex fun _ _ => rfl).symm
  change (fromRelationIndex index).restoreFunctions.functionIndex.lookup id = _
  rw [restored, lookup_copy, lookup_copy]

theorem namesExact_toRelationIndex (compact : CompactRelationIndex) :
    NamesExact compact.toRelationIndex := by
  have restored : NamesExact compact.restoreFunctions :=
    foldlRecOn _ _ NamesExact.new fun index exact entry _ =>
      exact.insertFunction entry.1 entry.2
  exact ⟨restored.nodup, restored.mem_iff⟩

theorem entityIdCounter_toRelationIndex :
    (fromRelationIndex index).toRelationIndex.entityIdCounter = nextFreeId index.functionIndex := by
  have folded : (fromRelationIndex index).restoreFunctions.entityIdCounter =
      (index.functionIndex.copy.toList.map fun entry => asU64 (entry.1 + 1)).foldl max 0 := by
    unfold restoreFunctions
    rw [foldl_map]
    exact (foldl_hom RelationIndex.entityIdCounter fun _ _ => rfl).symm
  have keys : (index.functionIndex.copy.toList.map fun entry => asU64 (entry.1 + 1)) =
      index.functionIndex.copy.keys.map fun id => asU64 (id + 1) := by
    rw [← map_fst_toList, map_map]
    rfl
  change (fromRelationIndex index).restoreFunctions.entityIdCounter = _
  rw [folded, keys]
  exact nextFreeId_congr fun id => lookup_copy _ id

theorem reverseTransposed_toRelationIndex (compact : CompactRelationIndex) :
    ReverseTransposed compact.toRelationIndex := fun _ _ =>
  mem_callersAt_rebuildReverseCalleeIndex

theorem edgesOf_copy {K : Type} [DecidableEq K] (table : HashMap K RelationEdgeSet) (key : K) :
    edgesOf table.copy key = edgesOf table key := by
  unfold edgesOf
  rw [lookup_copy]

theorem sharesTables_toRelationIndex (index : RelationIndex) :
    SharesTables (fromRelationIndex index).toRelationIndex index where
  functions := lookup_functionIndex_toRelationIndex
  files id := (lookup_copy _ id).trans (lookup_copy _ id)
  edges id := (edgesOf_copy _ id).trans (edgesOf_copy _ id)
  fileEdges path := (lookup_copy _ path).trans (lookup_copy _ path)
  keys _ := rfl
  keyed _ := rfl

end Restored

section Records

theorem HashMap.lookup_alter_congr {K V : Type} [DecidableEq K] {left right : HashMap K V}
    (same : ∀ k, left.lookup k = right.lookup k) (altered : K) (f : Option V → Option V) (k : K) :
    (left.alter altered f).lookup k = (right.alter altered f).lookup k := by
  rw [lookup_alter, lookup_alter, same, same]

/-- Two indexes share the tables a replay reads and the records it patches. -/
structure SharesRecords (left right : RelationIndex) : Prop where
  tables : SharesTables left right
  records : ∀ path, left.fileRecords.lookup path = right.fileRecords.lookup path

variable {left right : RelationIndex}

theorem SharesRecords.applyExportDiff (shares : SharesRecords left right) (diff : ExportDiff) :
    SharesRecords (applyExportDiff left diff) (applyExportDiff right diff) where
  tables := { shares.tables with }
  records path := by
    have keys : left.symbolKeyToEntity.lookup = right.symbolKeyToEntity.lookup :=
      funext shares.tables.keys
    simp only [ContextEngine.applyExportDiff, keys]
    exact lookup_alter_congr shares.records _ _ path

theorem SharesRecords.applyDelta [Sha256] (shares : SharesRecords left right)
    (delta : SnapshotDelta) : SharesRecords (applyDelta left delta) (applyDelta right delta) := by
  have removed : SharesRecords (applyRemovedFiles left delta.removedFiles)
      (applyRemovedFiles right delta.removedFiles) :=
    foldl_rel shares fun path _ _ _ shares =>
      ⟨shares.tables.applyRemovedFile path, SharesTables.lookup_erase shares.records path⟩
  have files : SharesRecords
      (applyAddedFiles (applyRemovedFiles left delta.removedFiles) delta.addedFiles)
      (applyAddedFiles (applyRemovedFiles right delta.removedFiles) delta.addedFiles) :=
    foldl_rel removed fun info _ _ _ shares =>
      ⟨{ shares.tables with }, lookup_alter_congr shares.records info.path _⟩
  have edges : SharesRecords (replayEdges left delta) (replayEdges right delta) := by
    refine ⟨((((((files.tables.applyRemovedEntities _).applyRenamedEntities
      _).applyAddedEntities _).applyRemovedRelations _).applyAddedRelations
      _).applyFileRelationDiffs _), fun path => ?_⟩
    have frame := frame_replayEdges fileRecords (fun _ _ => rfl) (fun _ _ => rfl) (fun _ => rfl)
      (fun _ _ => rfl) (fun _ _ => rfl) (fun _ _ => rfl) (fun _ _ => rfl)
    rw [frame left delta, frame right delta]
    exact files.records path
  have imports : SharesRecords (applyImportDiffs (replayEdges left delta) delta.importDiffs)
      (applyImportDiffs (replayEdges right delta) delta.importDiffs) :=
    foldl_rel edges fun diff _ _ _ shares =>
      ⟨{ shares.tables with }, lookup_alter_congr shares.records diff.filePath _⟩
  have exports : SharesRecords
      (applyExportDiffs (applyImportDiffs (replayEdges left delta) delta.importDiffs)
        delta.exportDiffs)
      (applyExportDiffs (applyImportDiffs (replayEdges right delta) delta.importDiffs)
        delta.exportDiffs) :=
    foldl_rel imports fun diff _ _ _ shares => shares.applyExportDiff diff
  exact ⟨{ exports.tables with }, exports.records⟩

end Records

section Denotation

/-- Two compact snapshots stand for the same entities and memberships, edges of both kinds, file
records with their imports and exports, and dependencies. -/
structure DenotesSame (left right : CompactRelationIndex) : Prop where
  entities : ∀ id, left.functionIndex.lookup id = right.functionIndex.lookup id
  members : ∀ id, left.entityFileIndex.lookup id = right.entityFileIndex.lookup id
  edges : ∀ caller, edgesOf left.resolvedRelationIndex caller =
    edgesOf right.resolvedRelationIndex caller
  fileEdges : ∀ path, edgesOf left.fileRelationIndex path = edgesOf right.fileRelationIndex path
  records : ∀ path, left.fileRecords.lookup path = right.fileRecords.lookup path
  dependencies : ∀ source target, target ∈ left.dependencyForward.members source ↔
    target ∈ right.dependencyForward.members source
  dependents : ∀ source target, source ∈ left.dependencyReverse.members target ↔
    source ∈ right.dependencyReverse.members target

theorem denotesSame_of_shares {left right : RelationIndex} (shares : SharesRecords left right)
    (graph : ∀ source target, AgreeAt source target left.dependencyGraph right.dependencyGraph) :
    DenotesSame (fromRelationIndex left) (fromRelationIndex right) where
  entities id := by
    simp only [fromRelationIndex, lookup_copy]
    exact shares.tables.functions id
  members id := by
    simp only [fromRelationIndex, lookup_copy]
    exact shares.tables.files id
  edges caller := by
    simp only [fromRelationIndex, edgesOf_copy]
    exact shares.tables.edges caller
  fileEdges path := by
    simp only [fromRelationIndex, edgesOf_copy]
    exact shares.tables.edgesOf_fileRelationIndex path
  records := shares.records
  dependencies source target := by
    rw [mem_dependencyForward, mem_dependencyForward]
    exact graph source target
  dependents source target := by
    rw [mem_dependencyReverse, mem_dependencyReverse]
    exact graph source target

theorem denotesSame_applyDelta [Sha256] (index : RelationIndex) (delta : SnapshotDelta) :
    DenotesSame ((fromRelationIndex index).applyDelta delta)
      (fromRelationIndex (applyDelta index delta)) := by
  have shares : SharesRecords (fromRelationIndex index).toRelationIndex index :=
    ⟨sharesTables_toRelationIndex index, fun _ => rfl⟩
  refine denotesSame_of_shares (shares.applyDelta delta) fun source target => ?_
  rw [dependencyGraph_applyDelta, dependencyGraph_applyDelta]
  exact AgreeAt.mergeDependencies mem_getDependencies_toRelationIndex delta

end Denotation

section RoundTrip

/-- Two indexes give the same answers to every query. Lists whose order is that of a hash map
are compared up to order. -/
structure AnswersAlike (left right : RelationIndex) : Prop where
  agree : AnswersAgree left right
  functions : ∀ id, left.functionIndex.lookup id = right.functionIndex.lookup id
  names : ∀ name, (left.getFunctionIdsByName name).Perm (right.getFunctionIdsByName name)
  members : ∀ id, left.entityFileIndex.lookup id = right.entityFileIndex.lookup id
  relations : ∀ caller,
    left.getResolvedRelationsByCaller caller = right.getResolvedRelationsByCaller caller
  callers : ∀ callee, RelationIndexView.callersOf left callee =
    RelationIndexView.callersOf right callee
  callersBounded : ∀ callee,
    left.getCallersByCalleeEntity callee = right.getCallersByCalleeEntity callee
  relationsTo : ∀ callee, left.getRelationsToEntity callee = right.getRelationsToEntity callee
  fileRelations : ∀ path, left.fileRelations path = right.fileRelations path
  fileCallers : ∀ callee, RelationIndexView.fileCallersOf left callee =
    RelationIndexView.fileCallersOf right callee
  records : ∀ path, left.fileRecords.lookup path = right.fileRecords.lookup path
  dependents : ∀ file other, other ∈ left.dependencyGraph.getDependents file ↔
    other ∈ right.dependencyGraph.getDependents file
  transitiveDependencies : ∀ file maxDepth other,
    other ∈ left.dependencyGraph.collectTransitiveDependencies file maxDepth ↔
      other ∈ right.dependencyGraph.collectTransitiveDependencies file maxDepth
  transitiveDependents : ∀ file maxDepth other,
    other ∈ left.dependencyGraph.collectTransitiveDependents file maxDepth ↔
      other ∈ right.dependencyGraph.collectTransitiveDependents file maxDepth
  symbols : ∀ key, left.getEntityIdBySymbolKey key = right.getEntityIdBySymbolKey key
  stableSymbols : ∀ stableId,
    left.getEntityIdByStableSymbolId stableId = right.getEntityIdByStableSymbolId stableId
  symbolKeys : ∀ id, left.getSymbolKeyByEntityId id = right.getSymbolKeyByEntityId id
  largestId : left.maxEntityId = right.maxEntityId
  nextId : left.allocateEntityId.1 = right.allocateEntityId.1
  remaps : ∀ path, left.entityIdRemapFor path = right.entityIdRemapFor path
  diagnostics : left.diagnostics = right.diagnostics

/-- What the compact snapshot drops was in step with what it keeps: the name table and the
reverse callers are those of the stored entities and edges, the counter stands right above the
largest stored number, and there are no id remaps and no diagnostics. -/
structure SurvivesCompaction (index : RelationIndex) : Prop where
  names : NamesExact index
  reverse : ReverseTransposed index
  counter : index.entityIdCounter = nextFreeId index.functionIndex
  remaps : ∀ path, index.entityIdRemaps.lookup path = none
  diagnostics : index.diagnostics = {}

theorem answersAgree_toRelationIndex (index : RelationIndex) :
    AnswersAgree (fromRelationIndex index).toRelationIndex index :=
  answersAgree_of_shares (sharesTables_toRelationIndex index) (fun _ => rfl) (fun _ => rfl)
    fun _ _ => mem_getDependencies_toRelationIndex

theorem callersAt_toRelationIndex_iff {index : RelationIndex} :
    (∀ callee, callersAt (fromRelationIndex index).toRelationIndex.reverseCalleeIndex callee =
      callersAt index.reverseCalleeIndex callee) ↔ ReverseTransposed index := by
  have calls : ∀ caller callee,
      stillCalls (fromRelationIndex index).toRelationIndex.resolvedRelationIndex caller callee =
        stillCalls index.resolvedRelationIndex caller callee := fun caller callee =>
    stillCalls_congr ((sharesTables_toRelationIndex index).edges caller)
  have restored := reverseTransposed_toRelationIndex (fromRelationIndex index)
  constructor
  · intro same callee caller
    rw [← same, restored, calls]
  · intro transposed callee
    refine SortedVec.toList_eq_of_mem_iff fun caller => ?_
    have left := restored callee caller
    rw [calls] at left
    exact left.trans (transposed callee caller).symm

private theorem diagnostics_toRelationIndex (compact : CompactRelationIndex) :
    compact.toRelationIndex.diagnostics = {} :=
  foldl_frame RelationIndex.diagnostics
    (fun index (entry : EntityId × Entity) => index.insertFunction entry.1 entry.2)
    (fun _ _ => rfl) _ _

theorem entityIdRemaps_toRelationIndex (compact : CompactRelationIndex) :
    compact.toRelationIndex.entityIdRemaps = ∅ :=
  foldl_frame RelationIndex.entityIdRemaps
    (fun index (entry : EntityId × Entity) => index.insertFunction entry.1 entry.2)
    (fun _ _ => rfl) _ _

theorem names_toRelationIndex_iff {index : RelationIndex} :
    (∀ name, ((fromRelationIndex index).toRelationIndex.getFunctionIdsByName name).Perm
      (index.getFunctionIdsByName name)) ↔ NamesExact index := by
  have restored := namesExact_toRelationIndex (fromRelationIndex index)
  have stored : ∀ name id, id ∈ (fromRelationIndex index).toRelationIndex.getFunctionIdsByName
      name ↔ ∃ entity, index.functionIndex.lookup id = some entity ∧ entity.name = name := by
    intro name id
    rw [← lookup_functionIndex_toRelationIndex]
    exact restored.mem_iff name id
  constructor
  · intro same
    refine ⟨fun name => (same name).nodup_iff.1 (restored.nodup name), fun name id => ?_⟩
    exact (same name).mem_iff.symm.trans (stored name id)
  · intro exact name
    refine (perm_ext_iff_of_nodup (restored.nodup name) (exact.nodup name)).2 fun id => ?_
    exact (stored name id).trans (exact.mem_iff name id).symm

theorem answersAlike_toRelationIndex_iff (index : RelationIndex) :
    AnswersAlike (fromRelationIndex index).toRelationIndex index ↔ SurvivesCompaction index := by
  let restored := (fromRelationIndex index).toRelationIndex
  have shares : SharesTables restored index := sharesTables_toRelationIndex index
  have counter : restored.entityIdCounter = nextFreeId index.functionIndex :=
    entityIdCounter_toRelationIndex
  constructor
  · intro alike
    refine ⟨names_toRelationIndex_iff.1 alike.names,
      callersAt_toRelationIndex_iff.1 alike.callers, ?_, fun path => ?_, ?_⟩
    · exact alike.nextId.symm.trans counter
    · have none : restored.entityIdRemapFor path = none := by
        unfold entityIdRemapFor
        rw [entityIdRemaps_toRelationIndex]
        rfl
      exact (alike.remaps path).symm.trans none
    · exact alike.diagnostics.symm.trans (diagnostics_toRelationIndex _)
  · intro survives
    have callers := callersAt_toRelationIndex_iff.2 survives.reverse
    have bounded : ∀ callee, restored.getCallersByCalleeEntity callee =
        index.getCallersByCalleeEntity callee := fun callee =>
      congrArg (take maxReverseFanin) (callers callee)
    have next : restored.entityIdCounter = index.entityIdCounter :=
      counter.trans survives.counter.symm
    have forward : ∀ source target, target ∈ restored.dependencyGraph.getDependencies source ↔
        target ∈ index.dependencyGraph.getDependencies source := fun _ _ =>
      mem_getDependencies_toRelationIndex
    have backward : ∀ target source, source ∈ restored.dependencyGraph.getDependents target ↔
        source ∈ index.dependencyGraph.getDependents target := by
      intro target source
      rw [FileDependencyGraph.mem_getDependents, FileDependencyGraph.mem_getDependents]
      exact forward source target
    refine {
      agree := answersAgree_toRelationIndex index
      functions := shares.functions
      names := names_toRelationIndex_iff.2 survives.names
      members := shares.files
      relations := fun caller => ?_
      callers := callers
      callersBounded := bounded
      relationsTo := fun callee => ?_
      fileRelations := fun path => ?_
      fileCallers := fun callee => ?_
      records := fun _ => rfl
      dependents := backward
      transitiveDependencies := fun file maxDepth other => ?_
      transitiveDependents := fun file maxDepth other => ?_
      symbols := fun _ => rfl
      stableSymbols := fun _ => rfl
      symbolKeys := fun _ => rfl
      largestId := maxEntityId_congr shares.functions next
      nextId := next
      remaps := fun path => ?_
      diagnostics := (diagnostics_toRelationIndex _).trans survives.diagnostics.symm }
    · change (index.resolvedRelationIndex.copy.copy.lookup caller).map RelationEdgeSet.edges = _
      rw [lookup_copy, lookup_copy]
      rfl
    · unfold getRelationsToEntity
      rw [bounded]
      refine congrArg (fun edges => flatMap edges _) (funext fun caller => ?_)
      rw [shares.edges]
    · change (index.fileRelationIndex.copy.copy.lookup path).map RelationEdgeSet.edges = _
      rw [lookup_copy, lookup_copy]
      rfl
    · change index.fileCallersByCallee.copy.copy.members callee =
        index.fileCallersByCallee.members callee
      simp only [members, lookup_copy]
    · rw [FileDependencyGraph.mem_collectTransitiveDependencies,
        FileDependencyGraph.mem_collectTransitiveDependencies]
      exact exists_congr fun n => and_congr_right fun _ => and_congr_right fun _ =>
        Search.Steps.congr forward
    · rw [FileDependencyGraph.mem_collectTransitiveDependents,
        FileDependencyGraph.mem_collectTransitiveDependents]
      exact exists_congr fun n => and_congr_right fun _ => and_congr_right fun _ =>
        Search.Steps.congr backward
    · unfold entityIdRemapFor
      rw [entityIdRemaps_toRelationIndex, survives.remaps]
      rfl

/-- The compact snapshot commutes with deltas for every index; the way back answers every query
as before exactly for the indexes that survive. -/
theorem compact_roundTrip_iff [Sha256] (index : RelationIndex) :
    ((∀ delta, DenotesSame ((fromRelationIndex index).applyDelta delta)
        (fromRelationIndex (applyDelta index delta))) ∧
      AnswersAlike (fromRelationIndex index).toRelationIndex index) ↔
        SurvivesCompaction index := by
  rw [answersAlike_toRelationIndex_iff]
  exact and_iff_right (denotesSame_applyDelta index)

end RoundTrip

section Sample

def secondFileRemoved : RelationIndex :=
  @RelationIndex.removeFile sampleSha256
    ((RelationIndex.new.addFunctionWithPath 1 (functionAt 1 "main" 1) "src/a.rs"
      ).addFunctionWithPath 2 (functionAt 2 "run" 7) "src/b.rs") "src/b.rs"

/-- The number of a removed entity is handed out again after the way back. -/
theorem removedId_handedOutAgain :
    ¬AnswersAlike (fromRelationIndex secondFileRemoved).toRelationIndex secondFileRemoved := by
  intro alike
  exact absurd alike.nextId (by decide)

end Sample

end ContextEngine

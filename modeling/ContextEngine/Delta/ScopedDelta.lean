/- digest: When a delta computed within a scope replays like the delta of the whole project. -/

import ContextEngine.Delta.RecordRoundTrip

set_option autoImplicit false

namespace ContextEngine

open List RelationIndex RelationIndexView

section Agreement

def Elsewhere (index : RelationIndex) (files : HashSet String) (id : EntityId) : Prop :=
  callerInScope index (some files) id = false ∧
    (Live index id ∨ edgesOf index.resolvedRelationIndex id ≠ [])

/-- Outside the scope both indexes have the same entities, edges, imports, exports and
dependencies. -/
structure AgreeElsewhere (old new : RelationIndex) (files : HashSet String) : Prop where
  membership : ∀ id, Elsewhere old files id ∨ Elsewhere new files id →
    old.entityFileIndex.lookup id = new.entityFileIndex.lookup id
  entity : ∀ id, Elsewhere old files id ∨ Elsewhere new files id →
    old.functionIndex.lookup id = new.functionIndex.lookup id
  edges : ∀ id, Elsewhere old files id ∨ Elsewhere new files id → ∀ edge,
    edge ∈ edgesOf old.resolvedRelationIndex id ↔ edge ∈ edgesOf new.resolvedRelationIndex id
  fileEdges : ∀ path, path ∉ files → ∀ edge,
    edge ∈ edgesOf old.fileRelationIndex path ↔ edge ∈ edgesOf new.fileRelationIndex path
  imports : ∀ path, path ∉ files → ∀ item, item ∈ importsAt old path ↔ item ∈ importsAt new path
  exports : ∀ path, path ∉ files → ∀ item, item ∈ exportsAt old path ↔ item ∈ exportsAt new path
  dependencies : ∀ path, path ∉ files → ∀ target,
    target ∈ old.dependencyGraph.getDependencies path ↔
      target ∈ new.dependencyGraph.getDependencies path

def SameRecordsElsewhere (old new : RelationIndex) (files : HashSet String) : Prop :=
  ∀ path, path ∉ files →
    (old.fileRecords.lookup path).isSome = (new.fileRecords.lookup path).isSome

def AddedUnderOwnPath (old new : RelationIndex) : Prop :=
  ∀ path record, new.fileRecords.lookup path = some record → old.fileRecords.lookup path = none →
    record.info.path = path

namespace AgreeElsewhere

variable {old new : RelationIndex} {files : HashSet String}

theorem symm (agree : AgreeElsewhere old new files) : AgreeElsewhere new old files where
  membership id elsewhere := (agree.membership id elsewhere.symm).symm
  entity id elsewhere := (agree.entity id elsewhere.symm).symm
  edges id elsewhere edge := (agree.edges id elsewhere.symm edge).symm
  fileEdges path outside edge := (agree.fileEdges path outside edge).symm
  imports path outside item := (agree.imports path outside item).symm
  exports path outside item := (agree.exports path outside item).symm
  dependencies path outside target := (agree.dependencies path outside target).symm

theorem inScope_of_inScope (agree : AgreeElsewhere old new files) {id : EntityId}
    (inScope : callerInScope new (some files) id = true)
    (has : Live old id ∨ edgesOf old.resolvedRelationIndex id ≠ []) :
    callerInScope old (some files) id = true := by
  by_contra outside
  rw [Bool.not_eq_true] at outside
  have same := agree.membership id (Or.inl ⟨outside, has⟩)
  unfold callerInScope at inScope outside
  rw [same, inScope] at outside
  cases outside

theorem scopeAgrees (agree : AgreeElsewhere old new files) :
    ScopeAgrees new old (some files) := by
  intro caller inScope
  by_cases none : edgesOf old.resolvedRelationIndex caller = []
  · exact Or.inr none
  · exact Or.inl (agree.inScope_of_inScope inScope (Or.inr none))

end AgreeElsewhere

end Agreement

section Fields

variable {old new : RelationIndex} {files : HashSet String}

theorem filter_map_filter {α β : Type} {l : List α} {p : α → Bool} {f : α → β} {q : β → Bool}
    (dropped : ∀ a, p a = false → q (f a) = false) :
    ((l.filter p).map f).filter q = (l.map f).filter q := by
  induction l with
  | nil => rfl
  | cons a l ih =>
    cases passes : p a with
    | true => rw [filter_cons_of_pos passes, map_cons, map_cons,
        filter_cons, filter_cons, ih]
    | false => rw [filter_cons_of_neg (by simp [passes]), map_cons,
        filter_cons_of_neg (by simp [dropped a passes]), ih]

theorem diffs_scoped {β : Type} {l : List String} {diff : String → β} {reported : β → Bool}
    (none : ∀ path, path ∉ files → reported (diff path) = false) :
    ((l.filter fun path => scopeContains (some files) path).map diff).filter reported =
      ((l.filter fun path => scopeContains .none path).map diff).filter reported :=
  (filter_map_filter fun path outside => none path (of_decide_eq_false outside)).trans
    (filter_map_filter fun path outside => by cases outside).symm

theorem noneMissing {α : Type} [DecidableEq α] {left right : List α}
    (same : ∀ a, a ∈ left ↔ a ∈ right) :
    (!(missingFrom left right).isEmpty || !(missingFrom right left).isEmpty) = false := by
  have nothing : ∀ {left right : List α}, (∀ a ∈ left, a ∈ right) → missingFrom left right = [] :=
    fun sub => filter_eq_nil_iff.2 fun a mem => by simpa using sub a mem
  rw [nothing fun a => (same a).1, nothing fun a => (same a).2]
  rfl

variable (agree : AgreeElsewhere old new files)

include agree

theorem computeImportDiff_scoped :
    computeImportDiff new old (some files) = computeImportDiff new old none := by
  unfold computeImportDiff
  refine diffs_scoped fun path outside => ?_
  have table : ((importsOf old path).map ImportTable.standardizedImports).getD [] =
      importsAt old path := by
    change (Option.map _ (Option.map _ _)).getD [] = _
    rw [Option.map_map]
    rfl
  change (!(missingFrom (((importsOf old path).map ImportTable.standardizedImports).getD [])
      (importsAt new path)).isEmpty ||
    !(missingFrom (importsAt new path)
      (((importsOf old path).map ImportTable.standardizedImports).getD [])).isEmpty) = false
  rw [table, noneMissing (agree.imports path outside)]

theorem computeDependencyDiff_scoped :
    computeDependencyDiff new old (some files) = computeDependencyDiff new old none := by
  unfold computeDependencyDiff
  exact diffs_scoped fun path outside => noneMissing (agree.dependencies path outside)

theorem computeFileRelationDiff_scoped :
    computeFileRelationDiff new old (some files) = computeFileRelationDiff new old none := by
  unfold computeFileRelationDiff
  refine diffs_scoped fun path outside => ?_
  have same := agree.fileEdges path outside
  have removed : (fileRelationDiff new old path).removedRelations = [] := by
    refine eq_nil_iff_forall_not_mem.2 fun edge mem => ?_
    obtain ⟨inOld, unkept⟩ := mem_fileRelationDiff_removed.1 mem
    exact unkept ⟨edge, (same edge).1 inOld, SameForDiff.refl edge⟩
  have added : (fileRelationDiff new old path).addedRelations = [] := by
    refine eq_nil_iff_forall_not_mem.2 fun edge mem => ?_
    obtain ⟨inNew, unkept⟩ := mem_fileRelationDiff_added.1 mem
    exact unkept ⟨edge, (same edge).2 inNew, SameForDiff.refl edge⟩
  rw [removed, added]
  rfl

variable [Sha256]

theorem computeExportDiff_scoped :
    computeExportDiff new old (some files) = computeExportDiff new old none := by
  unfold computeExportDiff
  refine diffs_scoped fun path outside => ?_
  have same := agree.exports path outside
  have none : ∀ {left right : List ExportInfo}, (∀ item ∈ left, item ∈ right) →
      ∀ key : ExportInfo → CanonicalExport, ((left.filter fun item =>
        item.functionName ∉ right.map ExportInfo.functionName).map key) = [] := by
    intro left right sub key
    rw [filter_eq_nil_iff.2, map_nil]
    intro item mem
    simpa using ⟨item, sub item mem, rfl⟩
  have removed := @none (exportsAt old path) (exportsAt new path) (fun item mem =>
    (same item).1 mem) (canonicalExport (symbolKeyOf old) path)
  have added := @none (exportsAt new path) (exportsAt old path) (fun item mem =>
    (same item).2 mem) (canonicalExport new.entityToSymbolKey.lookup path)
  change (!(((exportsAt old path).filter fun item => item.functionName ∉
      (exportsAt new path).map ExportInfo.functionName).map
        (canonicalExport (symbolKeyOf old) path)).isEmpty ||
    !(((exportsAt new path).filter fun item => item.functionName ∉
      (exportsAt old path).map ExportInfo.functionName).map
        (canonicalExport new.entityToSymbolKey.lookup path)).isEmpty) = false
  rw [removed, added]
  rfl

end Fields

section Entities

variable {old new : RelationIndex} {files : HashSet String}

theorem removedEntityMeta_scoped (agree : AgreeElsewhere old new files) :
    removedEntityMeta new old (some files) = removedEntityMeta new old none := by
  unfold removedEntityMeta
  refine filterMap_congr fun entry mem => ?_
  have stored : old.functionIndex.lookup entry.1 = some entry.2 := HashMap.mem_toList.1 mem
  have live : Live old entry.1 := Option.isSome_iff_exists.2 ⟨entry.2, stored⟩
  have sameTest : entityInScope (some files) (entityFileOf old entry.1) = true ∧
      (new.functionIndex.lookup entry.1).isNone = true ↔
        entityInScope none (entityFileOf old entry.1) = true ∧
          (new.functionIndex.lookup entry.1).isNone = true := by
    refine and_congr_left fun gone => iff_of_true ?_ rfl
    by_contra outside
    rw [Bool.not_eq_true] at outside
    have same := agree.entity entry.1 (Or.inl ⟨outside, Or.inl live⟩)
    rw [← same, stored] at gone
    cases gone
  simp only [sameTest]

variable [Sha256]

theorem addedEntityCandidates_scoped (agree : AgreeElsewhere old new files) :
    addedEntityCandidates new old (some files) = addedEntityCandidates new old none := by
  unfold addedEntityCandidates
  congr 1
  refine filter_congr fun entry mem => ?_
  have stored : new.functionIndex.lookup entry.1 = some entry.2 := HashMap.mem_toList.1 mem
  have live : Live new entry.1 := Option.isSome_iff_exists.2 ⟨entry.2, stored⟩
  cases inScope : entityInScope (some files) (new.entityFileIndex.lookup entry.1) with
  | true => rfl
  | false =>
    have same := agree.entity entry.1 (Or.inr ⟨inScope, Or.inl live⟩)
    have known : functionContains old entry.1 = true := by
      change (old.functionIndex.lookup entry.1).isSome = true
      rw [same, stored]
      rfl
    rw [known]
    rfl

theorem computeEntityDiff_scoped (agree : AgreeElsewhere old new files) :
    computeEntityDiff new old (some files) = computeEntityDiff new old none := by
  unfold computeEntityDiff
  rw [removedEntityMeta_scoped agree, addedEntityCandidates_scoped agree]

end Entities

section Edges

variable {old new : RelationIndex} {files : HashSet String}

theorem flatMap_filter_edges {table : ResolvedTable} (filed : EdgesFiled table)
    (keep : EntityId → Bool) (pick : ResolvedRelation → Bool) :
    ((table.toList.filter fun entry => keep entry.1).flatMap fun entry =>
        entry.2.edges.filter pick) =
      (table.toList.flatMap fun entry => entry.2.edges).filter fun edge =>
        keep edge.caller && pick edge := by
  have own : ∀ entry ∈ table.toList, ∀ edge ∈ entry.2.edges, edge.caller = entry.1 :=
    fun entry mem => (filed entry.1 entry.2 (HashMap.mem_toList.1 mem)).caller_eq
  generalize table.toList = l at own
  induction l with
  | nil => rfl
  | cons entry l ih =>
    have rest := ih fun later mem => own later (mem_cons_of_mem _ mem)
    have head : (entry.2.edges.filter fun edge => keep edge.caller && pick edge) =
        if keep entry.1 then entry.2.edges.filter pick else [] := by
      cases kept : keep entry.1 with
      | true =>
        refine filter_congr fun edge mem => ?_
        rw [own entry mem_cons_self edge mem, kept, Bool.true_and]
      | false =>
        refine filter_eq_nil_iff.2 fun edge mem => ?_
        rw [own entry mem_cons_self edge mem, kept, Bool.false_and]
        exact Bool.false_ne_true
    rw [flatMap_cons, filter_append, head, ← rest, filter_cons]
    split_ifs
    · rw [flatMap_cons]
    · rfl

variable {edge : ResolvedRelation}

theorem keptByDiff_scoped (agree : AgreeElsewhere old new files)
    (inScope : callerInScope old (some files) edge.caller = true) :
    KeptByDiff new (some files) edge ↔ KeptByDiff new none edge := by
  refine exists_congr fun other => and_congr_right fun mem => and_congr_left fun _ => ?_
  exact iff_of_true (agree.symm.inScope_of_inScope inScope (Or.inr (ne_nil_of_mem mem))) rfl

theorem keptByDiff_elsewhere (agree : AgreeElsewhere old new files)
    (outside : callerInScope old (some files) edge.caller = false)
    (mem : edge ∈ edgesOf old.resolvedRelationIndex edge.caller) : KeptByDiff new none edge := by
  have elsewhere : Elsewhere old files edge.caller :=
    ⟨outside, Or.inr (ne_nil_of_mem mem)⟩
  exact ⟨edge, (agree.edges _ (Or.inl elsewhere) edge).1 mem, rfl, SameForDiff.refl edge⟩

theorem mem_flatMap_edges_self {table : ResolvedTable} (filed : EdgesFiled table)
    (mem : edge ∈ table.toList.flatMap fun entry => entry.2.edges) :
    edge ∈ edgesOf table edge.caller := by
  have listed := (@mem_flatMap_edges table filed (fun _ => true) edge).1
  rw [filter_eq_self.2 fun _ _ => rfl] at listed
  exact (listed mem).1

theorem addedRelations_scoped (agree : AgreeElsewhere old new files) (removed : HashSet EntityId) :
    (computeRelationDiff new old (some files) removed).addedRelations =
      (computeRelationDiff new old none removed).addedRelations := by
  have listed : ∀ scope, (computeRelationDiff new old scope removed).addedRelations =
      (new.resolvedRelationIndex.toList.flatMap fun entry => entry.2.edges).filter fun edge =>
        callerInScope new scope edge.caller &&
          !edgeSurvives (edgeContents ((scopedOldRelations old scope).flatMap Prod.snd)) edge := by
    intro scope
    rw [← flatMap_filter_edges new.edgesFiled (callerInScope new scope), ← filter_flatMap]
    rfl
  rw [listed, listed]
  refine filter_congr fun edge mem => ?_
  have own := mem_flatMap_edges_self new.edgesFiled mem
  rw [Bool.eq_iff_iff]
  simp only [Bool.and_eq_true, Bool.not_eq_true', Bool.eq_false_iff, ne_eq,
    edgeSurvives_scopedOldRelations]
  cases inScope : callerInScope new (some files) edge.caller with
  | true => rw [keptByDiff_scoped agree.symm inScope]; exact and_congr_left fun _ =>
      iff_of_true rfl rfl
  | false =>
    refine iff_of_false (fun both => by cases both.1) fun both => both.2 ?_
    exact keptByDiff_elsewhere agree.symm inScope own

theorem removedRelations_scoped (agree : AgreeElsewhere old new files)
    (removed : HashSet EntityId) :
    (computeRelationDiff new old (some files) removed).removedRelations =
      (computeRelationDiff new old none removed).removedRelations ++
        danglingRelations old (some files) removed := by
  have listed : ∀ scope, ((scopedOldRelations old scope).filter fun entry =>
      entry.1 ∉ removed).flatMap (fun entry => entry.2.filter fun edge =>
        !edgeSurvives (edgeContents (scopedNewRelations new scope)) edge) =
      (old.resolvedRelationIndex.toList.flatMap fun entry => entry.2.edges).filter fun edge =>
        (decide (edge.caller ∉ removed) && callerInScope old scope edge.caller) &&
          !edgeSurvives (edgeContents (scopedNewRelations new scope)) edge := by
    intro scope
    rw [← flatMap_filter_edges old.edgesFiled fun caller =>
      decide (caller ∉ removed) && callerInScope old scope caller]
    unfold scopedOldRelations
    rw [filter_filter]
    change flatMap _ (filter _ (map _ _)) = _
    rw [filter_map, flatMap_map]
    rfl
  have noneDangles : danglingRelations old none removed = [] := by
    refine eq_nil_iff_forall_not_mem.2 fun edge mem => ?_
    obtain ⟨removedId, -, caller, -, outside, -⟩ := (mem_danglingRelations old none removed).1 mem
    cases outside
  have same : ∀ edge ∈ old.resolvedRelationIndex.toList.flatMap fun entry => entry.2.edges,
      ((decide (edge.caller ∉ removed) && callerInScope old (some files) edge.caller) &&
        !edgeSurvives (edgeContents (scopedNewRelations new (some files))) edge) =
      ((decide (edge.caller ∉ removed) && callerInScope old none edge.caller) &&
        !edgeSurvives (edgeContents (scopedNewRelations new none)) edge) := by
    intro edge mem
    have own := mem_flatMap_edges_self old.edgesFiled mem
    rw [Bool.eq_iff_iff]
    simp only [Bool.and_eq_true, Bool.not_eq_true', Bool.eq_false_iff, ne_eq,
      edgeSurvives_scopedNewRelations]
    cases inScope : callerInScope old (some files) edge.caller with
    | true => rw [keptByDiff_scoped agree inScope]; exact Iff.rfl
    | false =>
      refine iff_of_false (fun both => by cases both.1.2) fun both => both.2 ?_
      exact keptByDiff_elsewhere agree inScope own
  change _ ++ danglingRelations old (some files) removed =
    (_ ++ danglingRelations old none removed) ++ _
  rw [listed, listed, noneDangles, append_nil, filter_congr same]

end Edges

section Replay

variable [Sha256] {old new : RelationIndex} {files : HashSet String} {epoch baseEpoch : Int}
  {config : String}

/-- The scoped delta is the full one up to the edges that dangle from outside the scope. -/
theorem computeDelta_scoped (agree : AgreeElsewhere old new files)
    (records : SameRecordsElsewhere old new files) :
    computeDelta new old epoch baseEpoch config (some files) =
      { computeDelta new old epoch baseEpoch config none with
        removedRelations :=
          (computeDelta new old epoch baseEpoch config none).removedRelations ++
            danglingRelations old (some files) (removedSet new old none)
        relationEdgesDroppedUnbounded :=
          (danglingRelations old (some files) (removedSet new old none)).length } := by
  have sets : removedSet new old (some files) = removedSet new old none := by
    unfold removedSet
    rw [computeEntityDiff_scoped agree]
  have removedFiles : ((forEachFile old).filter fun entry =>
      scopeContains (some files) entry.1 && (new.fileRecords.lookup entry.1).isNone) =
        (forEachFile old).filter fun entry =>
          scopeContains none entry.1 && (new.fileRecords.lookup entry.1).isNone := by
    refine filter_congr fun entry mem => ?_
    cases inScope : scopeContains (some files) entry.1 with
    | true => rfl
    | false =>
      obtain ⟨pair, listed, rfl⟩ := mem_map.1 mem
      have same := records pair.1 (of_decide_eq_false inScope)
      rw [HashMap.mem_toList.1 (listed : (pair.1, pair.2) ∈ old.fileRecords.toList)] at same
      rw [← Option.not_isSome, ← same]
      rfl
  have addedFiles : (new.fileRecords.toList.filter fun entry =>
      scopeContains (some files) entry.1 && !fileContains old entry.1) =
        new.fileRecords.toList.filter fun entry =>
          scopeContains none entry.1 && !fileContains old entry.1 := by
    refine filter_congr fun entry mem => ?_
    cases inScope : scopeContains (some files) entry.1 with
    | true => rfl
    | false =>
      have same := records entry.1 (of_decide_eq_false inScope)
      have known : fileContains old entry.1 = true := by
        change (old.fileRecords.lookup entry.1).isSome = true
        rw [same, HashMap.mem_toList.1 (mem : (entry.1, entry.2) ∈ new.fileRecords.toList)]
        rfl
      rw [known]
      rfl
  rw [computeDelta_eq, computeDelta_eq, sets, removedFiles, addedFiles,
    computeEntityDiff_scoped agree, removedRelations_scoped agree, addedRelations_scoped agree,
    computeFileRelationDiff_scoped agree, computeImportDiff_scoped agree,
    computeExportDiff_scoped agree, computeDependencyDiff_scoped agree]
  rfl

/-- The entity is stored in the old index only, and the rename search finds it no new name. -/
def RemovedOutright (new old : RelationIndex) (id : EntityId) : Prop :=
  Live old id ∧ ¬Live new id ∧
    id ∉ (pairRenames (addedEntityCandidates new old none) (removedEntityMeta new old none)
      []).1.map RenamedEntity.oldId

theorem mem_removedSet_none {id : EntityId} :
    id ∈ removedSet new old none ↔ RemovedOutright new old id := by
  unfold removedSet computeEntityDiff RemovedOutright
  rw [HashSet.mem_ofList, mem_filter, mem_removedEntityMeta_id, decide_eq_true_eq, and_assoc,
    and_assoc, Option.isNone_iff_eq_none, ← Option.not_isSome_iff_eq_none]
  exact and_congr_right fun _ => and_iff_right rfl

def CalledFromOutside (new old : RelationIndex) (files : HashSet String) : Prop :=
  ∃ removedId, RemovedOutright new old removedId ∧
    ∃ caller ∈ callersOf old removedId, callerInScope old (some files) caller = false ∧
      ∃ edge ∈ edgesOf old.resolvedRelationIndex caller, edge.calleeId = some removedId

theorem danglingRelations_eq_nil_iff :
    danglingRelations old (some files) (removedSet new old none) = [] ↔
      ¬CalledFromOutside new old files := by
  rw [eq_nil_iff_forall_not_mem, ← not_exists]
  refine not_congr ⟨?_, ?_⟩
  · rintro ⟨edge, mem⟩
    obtain ⟨removedId, removed, caller, listed, outside, inOld, hit⟩ :=
      (mem_danglingRelations old (some files) _).1 mem
    exact ⟨removedId, mem_removedSet_none.1 removed, caller, listed, outside, edge, inOld, hit⟩
  · rintro ⟨removedId, removed, caller, listed, outside, edge, inOld, hit⟩
    exact ⟨edge, (mem_danglingRelations old (some files) _).2
      ⟨removedId, mem_removedSet_none.2 removed, caller, listed, outside, inOld, hit⟩⟩

/-- An entity removed outright keeps an edge from outside the scope in the full replay only. -/
theorem not_calledFromOutside (agree : AgreeElsewhere old new files)
    (same : applyDelta old (computeDelta new old epoch baseEpoch config (some files)) =
      applyDelta old (computeDelta new old epoch baseEpoch config none)) :
    ¬CalledFromOutside new old files := by
  rintro ⟨removedId, removed, caller, listed, outside, edge, inOld, hit⟩
  have own := old.edgesFiled.caller_eq inOld
  have elsewhere : Elsewhere old files caller := ⟨outside, Or.inr (ne_nil_of_mem inOld)⟩
  have stored := agree.entity caller (Or.inl elsewhere)
  have full : edge ∈ edgesOf (applyDelta old
      (computeDelta new old epoch baseEpoch config none)).resolvedRelationIndex caller := by
    refine (mem_edgesOf_applyDelta scopeAgrees_none rfl).2 (Or.inl ⟨?_, inOld, fun _ => ?_,
      fun impossible => by cases impossible⟩)
    · rintro ⟨live, -, gone⟩
      rw [stored] at live
      rw [Option.isNone_iff_eq_none] at gone
      rw [gone] at live
      cases live
    · rw [← own] at outside inOld
      exact keptByDiff_elsewhere agree outside inOld
  rw [← same] at full
  rcases (mem_edgesOf_applyDelta agree.scopeAgrees rfl).1 full with
    ⟨-, -, -, undangling⟩ | ⟨-, inScope, -⟩
  · refine undangling outside removedId ?_ listed hit
    have sets : removedSet new old (some files) = removedSet new old none := by
      unfold removedSet
      rw [computeEntityDiff_scoped agree]
    rw [sets]
    exact mem_removedSet_none.2 removed
  · have member := agree.membership caller (Or.inl elsewhere)
    unfold callerInScope at inScope outside
    rw [member, inScope] at outside
    cases outside

theorem isSome_fileRecords_computeDelta (named : AddedUnderOwnPath old new)
    (scope : Option (HashSet String)) (path : String) :
    ((applyDelta old (computeDelta new old epoch baseEpoch config scope)).fileRecords.lookup
        path).isSome ↔
      if scopeContains scope path = true then (new.fileRecords.lookup path).isSome
      else (old.fileRecords.lookup path).isSome := by
  have added : (∃ info ∈ (computeDelta new old epoch baseEpoch config scope).addedFiles,
        info.path = path) ↔ scopeContains scope path = true ∧
      (new.fileRecords.lookup path).isSome ∧ (old.fileRecords.lookup path).isNone := by
    simp only [mem_addedFiles]
    constructor
    · rintro ⟨-, ⟨own, record, found, absent, inScope, rfl⟩, rfl⟩
      rw [named own record found absent]
      exact ⟨inScope, by rw [found]; rfl, by rw [absent]; rfl⟩
    · rintro ⟨inScope, present, absent⟩
      obtain ⟨record, found⟩ := Option.isSome_iff_exists.1 present
      rw [Option.isNone_iff_eq_none] at absent
      exact ⟨record.info, ⟨path, record, found, absent, inScope, rfl⟩,
        named path record found absent⟩
  rw [isSome_fileRecords_applyDelta, isSome_lookup_applyAddedFiles, added,
    lookup_fileRecords_applyRemovedFiles]
  simp only [mem_removedFiles]
  cases scopeContains scope path <;> cases old.fileRecords.lookup path <;>
    cases new.fileRecords.lookup path <;> simp

def ReplaysAlike {S : Type} [DecidableEq S] (shardOf : EntityId → S) (start : RelationIndex)
    (left right : SnapshotDelta) : Prop :=
  ∃ index, applyDeltaGuarded shardOf start left = some index ∧
    applyDeltaGuarded shardOf start right = some index

/-- Between indexes that agree outside the scope, the scoped delta replays like the full one when
no entity removed outright is called from outside the scope, both indexes have the same records
there, and every removal is granted; only then, if added records are filed under their own paths. -/
theorem applyDelta_scoped_iff {S : Type} [DecidableEq S] (shardOf : EntityId → S)
    (old new : RelationIndex) (files : HashSet String) (epoch baseEpoch : Int) (config : String)
    (agree : AgreeElsewhere old new files) :
    (¬CalledFromOutside new old files ∧ SameRecordsElsewhere old new files ∧
        RemovalsGranted shardOf new old none →
      ReplaysAlike shardOf old (computeDelta new old epoch baseEpoch config (some files))
        (computeDelta new old epoch baseEpoch config none)) ∧
    (AddedUnderOwnPath old new →
      ReplaysAlike shardOf old (computeDelta new old epoch baseEpoch config (some files))
        (computeDelta new old epoch baseEpoch config none) →
      ¬CalledFromOutside new old files ∧ SameRecordsElsewhere old new files ∧
        RemovalsGranted shardOf new old none) := by
  constructor
  · rintro ⟨uncalled, records, granted⟩
    have full : applyDeltaGuarded shardOf old (computeDelta new old epoch baseEpoch config none) =
        some (applyDelta old (computeDelta new old epoch baseEpoch config none)) :=
      (applyDeltaGuarded_eq_some_iff rfl).2 ⟨rfl, granted⟩
    refine ⟨_, ?_, full⟩
    rw [computeDelta_scoped agree records, danglingRelations_eq_nil_iff.2 uncalled, append_nil]
    exact full
  · rintro named ⟨index, inScope, full⟩
    obtain ⟨rfl, -⟩ := (applyDeltaGuarded_eq_some_iff rfl).1 inScope
    obtain ⟨same, granted⟩ := (applyDeltaGuarded_eq_some_iff rfl).1 full
    refine ⟨not_calledFromOutside agree same, fun path outside => ?_, granted⟩
    have ours := @isSome_fileRecords_computeDelta _ old new epoch baseEpoch config named
      (some files) path
    have theirs := @isSome_fileRecords_computeDelta _ old new epoch baseEpoch config named none path
    rw [same, theirs] at ours
    have away : scopeContains (some files) path = false := decide_eq_false outside
    rw [away] at ours
    exact (Bool.eq_iff_iff.2 ours).symm

end Replay

section Sample

def callOfRun : ResolvedRelation where
  caller := 1
  calleeId := some 2
  calleeName := "run"
  relationType := .directCall
  span := rowSpan 2 2
  callFrequency := 1

def calleeMissing : RelationIndex :=
  (RelationIndex.new.addFunctionWithPath 1 (functionAt 1 "main" 1) "src/a.rs").addResolvedRelation
    callOfRun

def calleePresent : RelationIndex :=
  ((RelationIndex.new.addFunctionWithPath 1 (functionAt 1 "main" 1) "src/a.rs").addFunctionWithPath
    2 (functionAt 2 "run" 7) "src/b.rs").addResolvedRelation callOfRun

def calleeFile : HashSet String := HashSet.ofList ["src/b.rs"]

theorem agreeElsewhere_callee : AgreeElsewhere calleePresent calleeMissing calleeFile := by
  have listed : ∀ {index : RelationIndex} {id}, Elsewhere index calleeFile id →
      id ∈ index.functionIndex.keys ∨ id ∈ index.resolvedRelationIndex.keys := by
    rintro index id ⟨-, live | called⟩
    · exact Or.inl (HashMap.mem_keys_iff.2 (Option.isSome_iff_exists.1 live))
    · refine Or.inr (HashMap.mem_keys_iff.2 ?_)
      obtain ⟨edge, mem⟩ := exists_mem_of_ne_nil _ called
      obtain ⟨set, found, _⟩ := mem_edgesOf.1 mem
      exact ⟨set, found⟩
  have caller : ∀ id, Elsewhere calleePresent calleeFile id ∨
      Elsewhere calleeMissing calleeFile id → id = 1 := by
    rintro id (elsewhere | elsewhere)
    · have mem := listed elsewhere
      have keys : id ∈ [2, 1] ∨ id ∈ [1] := mem
      rcases keys with first | first
      · rcases mem_pair.1 first with rfl | rfl
        · exact absurd elsewhere.1 (by decide)
        · rfl
      · exact mem_singleton.1 first
    · have keys : id ∈ [1] ∨ id ∈ [1] := listed elsewhere
      rcases keys with only | only
      · exact mem_singleton.1 only
      · exact mem_singleton.1 only
  constructor
  · intro id elsewhere
    obtain rfl := caller id elsewhere
    rfl
  · intro id elsewhere
    obtain rfl := caller id elsewhere
    rfl
  · intro id elsewhere edge
    obtain rfl := caller id elsewhere
    exact Iff.rfl
  · exact fun _ _ _ => Iff.rfl
  · exact fun _ _ _ => Iff.rfl
  · exact fun _ _ _ => Iff.rfl
  · exact fun _ _ _ => Iff.rfl

/-- The scoped delta drops the call of the removed function, the full one keeps it. -/
theorem removedCallee_scopedDiffers :
    AgreeElsewhere calleePresent calleeMissing calleeFile ∧
      ¬@ReplaysAlike sampleSha256 _ _ (fun id => id) calleePresent
        (@computeDelta sampleSha256 _ _ calleeMissing calleePresent 2 1 "" (some calleeFile))
        (@computeDelta sampleSha256 _ _ calleeMissing calleePresent 2 1 "" none) := by
  let _ := sampleSha256
  refine ⟨agreeElsewhere_callee, ?_⟩
  rintro ⟨index, inScope, full⟩
  obtain ⟨rfl, -⟩ := (applyDeltaGuarded_eq_some_iff rfl).1 inScope
  have edges := congrArg (fun index : RelationIndex =>
    (edgesOf index.resolvedRelationIndex 1).length) ((applyDeltaGuarded_eq_some_iff rfl).1 full).1
  exact absurd edges (by decide)

theorem applyDelta_scoped_addedCallee :
    @ReplaysAlike sampleSha256 _ _ (fun id => id) calleeMissing
      (@computeDelta sampleSha256 _ _ calleePresent calleeMissing 2 1 "" (some calleeFile))
      (@computeDelta sampleSha256 _ _ calleePresent calleeMissing 2 1 "" none) := by
  let _ := sampleSha256
  refine (applyDelta_scoped_iff (fun id => id) calleeMissing calleePresent calleeFile 2 1 ""
    agreeElsewhere_callee.symm).1 ⟨?_, fun _ _ => rfl, ?_⟩
  · rintro ⟨removedId, ⟨live, gone, -⟩, -⟩
    have keys : removedId ∈ [1] := HashMap.mem_keys_iff.2 (Option.isSome_iff_exists.1 live)
    obtain rfl := mem_singleton.1 keys
    exact gone (by unfold Live; decide)
  · intro before relation inFront gone
    have inOld := mem_comparedEdges (inFront.subset (mem_append_right _ (mem_singleton_self _)))
    exact absurd ⟨relation, inOld, rfl, SameForDiff.refl relation⟩ gone

end Sample

end ContextEngine

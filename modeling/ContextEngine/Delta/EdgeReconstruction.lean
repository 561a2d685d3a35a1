/- digest: What a diff removes, adds and renames, and which edges its replay has. -/

import ContextEngine.Delta.EdgeReplay

set_option autoImplicit false

namespace ContextEngine

open List RelationIndexView

section Pairing

variable {added : List AddedEntity} {removed : List RemovedEntityMeta}

theorem mem_pairRenames {matched : List Nat}
    {pair : RenamedEntity} (mem : pair ∈ (pairRenames added removed matched).1) :
    ∃ gone ∈ removed, ∃ fresh ∈ added, isRename gone fresh = true ∧
      pair = ⟨gone.id, fresh.entity.id, gone.name, fresh.entity.name⟩ := by
  induction removed generalizing matched with
  | nil => cases mem
  | cons gone rest ih =>
    unfold pairRenames at mem
    split at mem
    · obtain ⟨other, otherMem, found⟩ := ih mem
      exact ⟨other, mem_cons_of_mem _ otherMem, found⟩
    · next item found =>
        rcases mem_cons.1 mem with rfl | later
        · have chosen := find?_some found
          have candidate := Bool.and_eq_true_iff.1 chosen
          have inAdded := fst_mem_of_mem_zipIdx (mem_of_find?_eq_some found)
          exact ⟨gone, mem_cons_self, item.1, inAdded, candidate.2, rfl⟩
        · obtain ⟨other, otherMem, found⟩ := ih later
          exact ⟨other, mem_cons_of_mem _ otherMem, found⟩

theorem pairRenames_of_no_candidate
    (none : ∀ gone ∈ removed, ∀ fresh ∈ added, isRename gone fresh = false)
    (matched : List Nat) : pairRenames added removed matched = ([], matched) := by
  induction removed generalizing matched with
  | nil => rfl
  | cons gone rest ih =>
    unfold pairRenames
    split
    · exact ih (fun other mem => none other (mem_cons_of_mem _ mem)) matched
    · next item found =>
        have chosen := find?_some found
        have candidate := Bool.and_eq_true_iff.1 chosen
        have inAdded := fst_mem_of_mem_zipIdx (mem_of_find?_eq_some found)
        rw [none gone mem_cons_self item.1 inAdded] at candidate
        cases candidate.2

theorem pairRenames_ne_nil {gone : RemovedEntityMeta}
    {fresh : AddedEntity} (goneMem : gone ∈ removed) (freshMem : fresh ∈ added)
    (candidate : isRename gone fresh = true) : (pairRenames added removed []).1 ≠ [] := by
  induction removed with
  | nil => cases goneMem
  | cons first rest ih =>
    unfold pairRenames
    split
    · next absent =>
        rcases mem_cons.1 goneMem with rfl | later
        · obtain ⟨position, listed⟩ := mem_iff_getElem?.1 freshMem
          have fails := find?_eq_none.1 absent (fresh, position)
            (mem_zipIdx_iff_getElem?.2 listed)
          simp [candidate] at fails
        · exact ih later
    · exact cons_ne_nil _ _

end Pairing

section Diff

variable (new old : RelationIndex) (scope : Option (HashSet String))

theorem mem_removedEntityMeta {gone : RemovedEntityMeta} :
    gone ∈ removedEntityMeta new old scope ↔
      ∃ id entity, old.functionIndex.lookup id = some entity ∧
        entityInScope scope (old.entityFileIndex.lookup id) = true ∧
        (new.functionIndex.lookup id).isNone ∧
        gone = ⟨id, entity.name, entity.kind, (old.entityFileIndex.lookup id).getD "",
          asI64 entity.span.startPosition.row⟩ := by
  unfold removedEntityMeta
  simp only [mem_filterMap, Prod.exists, Option.ite_none_right_eq_some, Option.some.injEq]
  refine exists_congr fun id => exists_congr fun entity => ?_
  change ((id, entity) ∈ old.functionIndex.toList ∧ _) ↔ _
  rw [HashMap.mem_toList, and_assoc]
  exact and_congr_right fun _ => and_congr_right fun _ => and_congr_right fun _ => eq_comm

variable {id : EntityId}

theorem mem_removedEntityMeta_id :
    id ∈ (removedEntityMeta new old scope).map RemovedEntityMeta.id ↔
      (old.functionIndex.lookup id).isSome ∧
        entityInScope scope (old.entityFileIndex.lookup id) = true ∧
        (new.functionIndex.lookup id).isNone := by
  rw [mem_map]
  constructor
  · rintro ⟨gone, mem, rfl⟩
    obtain ⟨id, entity, found, inScope, absent, rfl⟩ := (mem_removedEntityMeta new old scope).1 mem
    exact ⟨by rw [found]; rfl, inScope, absent⟩
  · rintro ⟨live, inScope, absent⟩
    obtain ⟨entity, found⟩ := Option.isSome_iff_exists.1 live
    exact ⟨_, (mem_removedEntityMeta new old scope).2 ⟨id, entity, found, inScope, absent, rfl⟩,
      rfl⟩

variable [Sha256]

theorem mem_addedEntityCandidates {fresh : AddedEntity} :
    fresh ∈ addedEntityCandidates new old scope ↔
      ∃ id entity, new.functionIndex.lookup id = some entity ∧
        entityInScope scope (new.entityFileIndex.lookup id) = true ∧
        (old.functionIndex.lookup id).isNone ∧ fresh = addedEntity new id entity := by
  unfold addedEntityCandidates
  simp only [mem_map, mem_filter, Prod.exists, Bool.and_eq_true, Bool.not_eq_true']
  refine exists_congr fun id => exists_congr fun entity => ?_
  change (((id, entity) ∈ new.functionIndex.toList ∧ _ ∧
    (old.functionIndex.lookup id).isSome = false) ∧ _) ↔ _
  rw [HashMap.mem_toList, and_assoc, and_assoc, Option.isSome_eq_false_iff]
  exact and_congr_right fun _ => and_congr_right fun _ => and_congr_right fun _ => eq_comm

theorem addedEntity_entity (index : RelationIndex) (id : EntityId) (entity : Entity) :
    (addedEntity index id entity).entity = entity := by
  unfold addedEntity
  split <;> rfl

def NoRenameCandidate : Prop :=
  ∀ gone ∈ removedEntityMeta new old scope, ∀ fresh ∈ addedEntityCandidates new old scope,
    isRename gone fresh = false

theorem lost_iff :
    id ∈ (computeEntityDiff new old scope).removedEntities ∨
        id ∈ (computeEntityDiff new old scope).renamedEntities.map RenamedEntity.oldId ↔
      (old.functionIndex.lookup id).isSome ∧
        entityInScope scope (old.entityFileIndex.lookup id) = true ∧
        (new.functionIndex.lookup id).isNone := by
  rw [← mem_removedEntityMeta_id]
  unfold computeEntityDiff
  simp only [mem_filter, decide_eq_true_eq]
  constructor
  · rintro (⟨mem, -⟩ | mem)
    · exact mem
    · obtain ⟨pair, pairMem, rfl⟩ := mem_map.1 mem
      obtain ⟨gone, goneMem, fresh, -, -, rfl⟩ := mem_pairRenames pairMem
      exact mem_map_of_mem goneMem
  · intro mem
    by_cases paired : id ∈ (pairRenames (addedEntityCandidates new old scope)
        (removedEntityMeta new old scope) []).1.map RenamedEntity.oldId
    · exact Or.inr paired
    · exact Or.inl ⟨mem, paired⟩

theorem renamedEntities_eq_nil_iff :
    (computeEntityDiff new old scope).renamedEntities = [] ↔ NoRenameCandidate new old scope := by
  constructor
  · intro nil gone goneMem fresh freshMem
    cases candidate : isRename gone fresh with
    | false => rfl
    | true => exact absurd nil (pairRenames_ne_nil goneMem freshMem candidate)
  · intro none
    exact congrArg Prod.fst (pairRenames_of_no_candidate none [])

variable {new old scope}

theorem addedEntities_of_noRenameCandidate (none : NoRenameCandidate new old scope) :
    (computeEntityDiff new old scope).addedEntities = addedEntityCandidates new old scope := by
  unfold computeEntityDiff
  simp only [pairRenames_of_no_candidate none, not_mem_nil, not_false_eq_true, decide_true,
    filter_true, zipIdx_map_fst]

theorem mem_removedEntities_of_noRenameCandidate (none : NoRenameCandidate new old scope) :
    id ∈ (computeEntityDiff new old scope).removedEntities ↔ (old.functionIndex.lookup id).isSome ∧
        entityInScope scope (old.entityFileIndex.lookup id) = true ∧
        (new.functionIndex.lookup id).isNone := by
  rw [← lost_iff, (renamedEntities_eq_nil_iff new old scope).2 none]
  simp

end Diff

variable [Sha256] (new old : RelationIndex) (epoch baseEpoch : Int) (config : String)
  (scope : Option (HashSet String))

def replayed : RelationIndex :=
  applyDelta old.detachedClone (computeDelta new old epoch baseEpoch config scope)

/-- The entity is removed or renamed away by the diff. -/
def LostEntity (entityId : EntityId) : Prop :=
  (old.functionIndex.lookup entityId).isSome ∧ callerInScope old scope entityId = true ∧
    (new.functionIndex.lookup entityId).isNone

def removedSet : HashSet EntityId :=
  HashSet.ofList (computeEntityDiff new old scope).removedEntities

section Entities

variable {new old epoch baseEpoch config scope}

omit [Sha256] in
private theorem scope_of_isEmpty (empty : scope.any HashSet.isEmpty = true) :
    (∀ path, scopeContains scope path = false) ∧ ∀ file, entityInScope scope file = false := by
  cases scope with
  | none => cases empty
  | some files =>
    have none : ∀ path, path ∉ files := HashSet.isEmpty_iff.1 empty
    refine ⟨fun path => decide_eq_false (none path), fun file => ?_⟩
    cases file with
    | none => rfl
    | some path => exact decide_eq_false (none path)

theorem computeDelta_eq :
    computeDelta new old epoch baseEpoch config scope =
      { epoch, baseEpoch
        configFingerprint := config
        removedFiles :=
          ((forEachFile old).filter fun entry =>
            scopeContains scope entry.1 && (new.fileRecords.lookup entry.1).isNone).map Prod.fst
        addedFiles :=
          (new.fileRecords.toList.filter fun entry =>
            scopeContains scope entry.1 && !fileContains old entry.1).map fun entry => entry.2.info
        removedEntities := (computeEntityDiff new old scope).removedEntities
        addedEntities := (computeEntityDiff new old scope).addedEntities
        removedRelations :=
          (computeRelationDiff new old scope (removedSet new old scope)).removedRelations
        addedRelations :=
          (computeRelationDiff new old scope (removedSet new old scope)).addedRelations
        fileRelationDiffs := computeFileRelationDiff new old scope
        importDiffs := computeImportDiff new old scope
        exportDiffs := computeExportDiff new old scope
        dependencyDiffs := computeDependencyDiff new old scope
        relationEdgesDroppedUnbounded :=
          (computeRelationDiff new old scope (removedSet new old scope)).droppedUnbounded
        renamedEntities := (computeEntityDiff new old scope).renamedEntities } := by
  unfold computeDelta removedSet
  cases empty : scope.any HashSet.isEmpty with
  | false => rfl
  | true =>
    obtain ⟨noPath, noEntity⟩ := scope_of_isEmpty empty
    have noMeta : removedEntityMeta new old scope = [] := by
      simp [removedEntityMeta, noEntity]
    have noCandidate : addedEntityCandidates new old scope = [] := by
      simp [addedEntityCandidates, noEntity]
    simp [computeEntityDiff, noMeta, noCandidate, pairRenames, computeRelationDiff,
      scopedNewRelations, scopedOldRelations, danglingRelations, noEntity, noPath,
      HashSet.ofList, computeFileRelationDiff, computeImportDiff, computeExportDiff,
      computeDependencyDiff]

def ScopeAgrees (new old : RelationIndex) (scope : Option (HashSet String)) : Prop :=
  ∀ caller, callerInScope new scope caller = true →
    callerInScope old scope caller = true ∨ edgesOf old.resolvedRelationIndex caller = []

omit [Sha256] in
theorem scopeAgrees_none : ScopeAgrees new old none := fun _ _ => Or.inl rfl

theorem mem_edgesOf_applyDelta (agrees : ScopeAgrees new old scope) {start : RelationIndex}
    (sameEdges : start.resolvedRelationIndex = old.resolvedRelationIndex) {key : EntityId}
    {edge : ResolvedRelation} :
    edge ∈ edgesOf (applyDelta start
        (computeDelta new old epoch baseEpoch config scope)).resolvedRelationIndex key ↔
      (¬LostEntity new old scope key ∧ edge ∈ edgesOf old.resolvedRelationIndex key ∧
          (callerInScope old scope key = true → KeptByDiff new scope edge) ∧
          (callerInScope old scope key = false → ∀ removedId ∈ removedSet new old scope,
            key ∈ callersAt old.reverseCalleeIndex removedId → edge.calleeId ≠ some removedId)) ∨
        (edge ∈ edgesOf new.resolvedRelationIndex key ∧ callerInScope new scope key = true ∧
          ¬KeptByDiff old scope edge) := by
  have added : ∀ edge, edge ∈ (computeRelationDiff new old scope
      (removedSet new old scope)).addedRelations → edge.caller = key →
      edge ∈ edgesOf new.resolvedRelationIndex key ∧ callerInScope new scope key = true ∧
        ¬KeptByDiff old scope edge := by
    rintro edge mem rfl
    exact (mem_addedRelations new old scope _).1 mem
  rw [computeDelta_eq, edgesOf_applyDelta
    (nodup_addedRelations new old scope (removedSet new old scope))]
  · simp only [sameEdges, mem_append, mem_filter, decide_eq_true_eq]
    change (edge ∈ (if key ∈ (computeEntityDiff new old scope).removedEntities ∨
      key ∈ (computeEntityDiff new old scope).renamedEntities.map RenamedEntity.oldId then []
      else edgesOf old.resolvedRelationIndex key) ∧ _) ∨ _ ↔ _
    have lost : (key ∈ (computeEntityDiff new old scope).removedEntities ∨
        key ∈ (computeEntityDiff new old scope).renamedEntities.map RenamedEntity.oldId) ↔
        LostEntity new old scope key := lost_iff new old scope
    refine or_congr ?_ ⟨fun h => added edge h.1 h.2, fun h => ?_⟩
    · by_cases gone : LostEntity new old scope key
      · rw [if_pos (lost.2 gone)]
        simp [gone]
      · rw [if_neg (mt lost.1 gone)]
        simp only [gone, not_false_eq_true, true_and]
        refine and_congr_right fun inOld => ?_
        have own := old.edgesFiled.caller_eq inOld
        subst own
        rw [mem_removedRelations_iff new old scope _ inOld]
        have live : edge.caller ∉ removedSet new old scope := fun mem =>
          gone (lost.1 (Or.inl (HashSet.mem_ofList.1 mem)))
        cases inScope : callerInScope old scope edge.caller <;> simp [live]
    · have own := new.edgesFiled.caller_eq h.1
      subst own
      exact ⟨(mem_addedRelations new old scope _).2 h, rfl⟩
  · -- an old edge with the identity of an added one was not found again, so it is removed
    intro fresh freshMem edge inOld live _ same
    obtain ⟨inNew, newScope, unkept⟩ :=
      (mem_addedRelations new old scope (removedSet new old scope)).1 freshMem
    rw [sameEdges] at inOld
    change edge ∈ edgesOf old.resolvedRelationIndex fresh.caller at inOld
    have own : edge.caller = fresh.caller := congrArg RelationEdgeIdentity.caller same
    rcases agrees fresh.caller newScope with oldScope | none
    · rw [← own] at inOld oldScope
      refine (mem_removedRelations_iff new old scope (removedSet new old scope) inOld).2
        (Or.inl ⟨?_, oldScope, ?_⟩)
      · rw [own]
        exact fun mem => live (HashSet.mem_ofList.1 mem)
      · rintro ⟨other, otherMem, -, twin⟩
        rw [own] at otherMem inOld oldScope
        have equal : other = fresh := inj_on_of_nodup_map (nodup_edgesOf _ _) otherMem inNew
          (twin.1.trans same)
        subst equal
        exact unkept ⟨edge, inOld, oldScope, twin.symm⟩
    · rw [none] at inOld
      cases inOld

theorem mem_edgesOf_replayed (agrees : ScopeAgrees new old scope) {key : EntityId}
    {edge : ResolvedRelation} :
    edge ∈ edgesOf (replayed new old epoch baseEpoch config scope).resolvedRelationIndex key ↔
      (¬LostEntity new old scope key ∧ edge ∈ edgesOf old.resolvedRelationIndex key ∧
          (callerInScope old scope key = true → KeptByDiff new scope edge) ∧
          (callerInScope old scope key = false → ∀ removedId ∈ removedSet new old scope,
            key ∈ callersAt old.reverseCalleeIndex removedId → edge.calleeId ≠ some removedId)) ∨
        (edge ∈ edgesOf new.resolvedRelationIndex key ∧ callerInScope new scope key = true ∧
          ¬KeptByDiff old scope edge) := by
  have sameEdges : old.detachedClone.resolvedRelationIndex = old.resolvedRelationIndex := rfl
  unfold replayed
  exact mem_edgesOf_applyDelta agrees sameEdges

end Entities

section Files

variable {new old epoch baseEpoch config scope}

theorem mem_removedFiles {path : String} :
    path ∈ (computeDelta new old epoch baseEpoch config scope).removedFiles ↔
      scopeContains scope path = true ∧ (old.fileRecords.lookup path).isSome ∧
        (new.fileRecords.lookup path).isNone := by
  rw [computeDelta_eq]
  change path ∈ ((old.fileRecords.toList.map fun entry => (entry.1, entry.2.info)).filter
    fun entry => scopeContains scope entry.1 && (new.fileRecords.lookup entry.1).isNone).map
      Prod.fst ↔ _
  simp only [mem_map, mem_filter, Prod.exists, Prod.mk.injEq, HashMap.mem_toList,
    Bool.and_eq_true, exists_and_right, exists_eq_right]
  constructor
  · rintro ⟨⟨_, _, record, found, rfl, -⟩, inScope, absent⟩
    exact ⟨inScope, by rw [found]; rfl, absent⟩
  · rintro ⟨inScope, present, absent⟩
    obtain ⟨record, found⟩ := Option.isSome_iff_exists.1 present
    exact ⟨⟨record.info, path, record, found, rfl, rfl⟩, inScope, absent⟩

theorem mem_fileEdges_replayed {path : String} {edge : ResolvedRelation} :
    edge ∈ edgesOf (replayed new old epoch baseEpoch config scope).fileRelationIndex path ↔
      if scopeContains scope path = true then
        (path ∉ (computeDelta new old epoch baseEpoch config scope).removedFiles ∧
            edge ∈ edgesOf old.fileRelationIndex path ∧ KeptByFileDiff new path edge) ∨
          (edge ∈ edgesOf new.fileRelationIndex path ∧ ¬KeptByFileDiff old path edge)
      else edge ∈ edgesOf old.fileRelationIndex path := by
  let delta := computeDelta new old epoch baseEpoch config scope
  let files := applyRemovedFiles old.detachedClone delta.removedFiles
  have base : ∀ p, edgesOf files.fileRelationIndex p =
      if p ∈ delta.removedFiles then [] else edgesOf old.fileRelationIndex p :=
    edgesOf_applyRemovedFiles old.detachedClone delta.removedFiles
  have diffs : delta.fileRelationDiffs = computeFileRelationDiff new old scope := by
    change (computeDelta new old epoch baseEpoch config scope).fileRelationDiffs = _
    rw [computeDelta_eq]
  have distinct : (delta.fileRelationDiffs.map FileRelationDiff.filePath).Nodup := by
    rw [diffs]
    exact nodup_filePath_computeFileRelationDiff
  have final := @fileEdgesOf_applyDelta _ old.detachedClone delta distinct path
  change edge ∈ edgesOf (applyDelta old.detachedClone delta).fileRelationIndex path ↔ _
  rw [final, diffs, find_fileRelationDiff]
  by_cases inScope : scopeContains scope path = true
  · rw [if_pos inScope]
    by_cases changed : (fileRelationDiff new old path).removedRelations ≠ [] ∨
        (fileRelationDiff new old path).addedRelations ≠ []
    · rw [if_pos ⟨inScope, changed⟩]
      have fromOld : ∀ e ∈ ((files.fileRelationIndex.lookup path).getD ∅).edges,
          e ∈ edgesOf old.fileRelationIndex path := by
        intro e mem
        change e ∈ edgesOf files.fileRelationIndex path at mem
        rw [base] at mem
        split_ifs at mem
        · cases mem
        · exact mem
      simp only
      rw [mem_patchEdges_fileRelationDiff fromOld]
      change edge ∈ edgesOf files.fileRelationIndex path ∧ _ ∨ _ ↔ _
      rw [base]
      by_cases removed : path ∈ delta.removedFiles
      · rw [if_pos removed]
        simp [delta, removed]
      · rw [if_neg removed]
        simp [delta, removed]
    · rw [if_neg fun both => changed both.2]
      simp only
      rw [not_or, not_not, not_not] at changed
      have kept : ∀ e ∈ edgesOf old.fileRelationIndex path, KeptByFileDiff new path e := by
        intro e mem
        by_contra lost
        have listed := mem_fileRelationDiff_removed.2 ⟨mem, lost⟩
        rw [changed.1] at listed
        cases listed
      have found : ∀ e ∈ edgesOf new.fileRelationIndex path, KeptByFileDiff old path e := by
        intro e mem
        by_contra lost
        have listed := mem_fileRelationDiff_added.2 ⟨mem, lost⟩
        rw [changed.2] at listed
        cases listed
      rw [base]
      constructor
      · intro mem
        split_ifs at mem with removed
        · cases mem
        · exact Or.inl ⟨removed, mem, kept edge mem⟩
      · rintro (⟨stays, mem, -⟩ | ⟨mem, lost⟩)
        · rw [if_neg stays]
          exact mem
        · exact absurd (found edge mem) lost
  · have outside : path ∉ delta.removedFiles := fun mem =>
      inScope (mem_removedFiles.1 mem).1
    rw [if_neg inScope, if_neg fun both => inScope both.1]
    simp only
    rw [base, if_neg outside]

end Files

end ContextEngine

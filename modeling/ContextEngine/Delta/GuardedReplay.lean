/- digest: The replay of a delta with the guards it keeps, and when it comes to its end. -/

import ContextEngine.Delta.EdgeReconstruction
import ContextEngine.Index.GuardedRemoval

set_option autoImplicit false

namespace ContextEngine

open List

variable {S : Type} [DecidableEq S]

section Steps

variable (shardOf : EntityId → S) (index : RelationIndex)

/-- `apply_removed_relations` on an index: `none` if a request for a shard is never granted. -/
def applyRemovedRelationsGuarded (removed : List ResolvedRelation) : Option RelationIndex :=
  match run : GuardedEdges.applyRemovedRelations shardOf (.ofIndex index) removed with
  | none => none
  | some edges => some
      { index with
        resolvedRelationIndex := edges.resolved.table
        reverseCalleeIndex := edges.reverse
        edgesFiled := by
          rw [(GuardedEdges.applyRemovedRelations_eq shardOf index removed).2 edges run]
          exact (applyRemovedRelations index removed).edgesFiled }

variable [Sha256]

/-- `apply_delta` with the guards that the removal of edges keeps. -/
def applyDeltaGuarded (delta : SnapshotDelta) : Option RelationIndex := do
  let files := applyAddedFiles (applyRemovedFiles index delta.removedFiles) delta.addedFiles
  let entities :=
    applyAddedEntities
      (applyRenamedEntities (applyRemovedEntities files delta.removedEntities)
        delta.renamedEntities)
      delta.addedEntities
  let removed ← applyRemovedRelationsGuarded shardOf entities delta.removedRelations
  let edges :=
    applyFileRelationDiffs (applyAddedRelations removed delta.addedRelations)
      delta.fileRelationDiffs
  some <| applyDependencyDiffs
    (applyExportDiffs (applyImportDiffs edges delta.importDiffs) delta.exportDiffs)
    delta.dependencyDiffs

end Steps

section Runs

variable (shardOf : EntityId → S)

theorem applyRemovedRelations_with (index : RelationIndex) (removed : List ResolvedRelation) :
    applyRemovedRelations index removed =
      { index with
        resolvedRelationIndex := (applyRemovedRelations index removed).resolvedRelationIndex
        reverseCalleeIndex := (applyRemovedRelations index removed).reverseCalleeIndex
        edgesFiled := (applyRemovedRelations index removed).edgesFiled } := by
  induction removed generalizing index with
  | nil => rfl
  | cons relation removed ih => exact ih (applyRemovedRelation index relation)

theorem applyRemovedRelationsGuarded_eq_some_iff {index result : RelationIndex}
    {removed : List ResolvedRelation} :
    applyRemovedRelationsGuarded shardOf index removed = some result ↔
      result = applyRemovedRelations index removed ∧
        ∀ before relation, before ++ [relation] <+: removed → ∀ callee,
          relation.calleeId = some callee → shardOf callee = shardOf relation.caller →
            ∀ edge ∈ edgesOf index.resolvedRelationIndex callee,
              relationIdentity edge ∈ (before ++ [relation]).map relationIdentity := by
  obtain ⟨finished, same⟩ := GuardedEdges.applyRemovedRelations_eq shardOf index removed
  simp only [GuardedEdges.blocks_applyRemovedRelations, not_exists, not_and, not_not] at finished
  rw [← finished]
  unfold applyRemovedRelationsGuarded
  split
  · next run => simp [run]
  · next edges run =>
    obtain rfl := same edges run
    rw [and_iff_left (by rw [run]; rfl), Option.some.injEq, eq_comm]
    exact Eq.congr_right (applyRemovedRelations_with index removed).symm

end Runs

section Replay

variable [Sha256] {shardOf : EntityId → S}

/-- The removal finds the old edges of every callee that is neither removed nor renamed. -/
theorem applyDeltaGuarded_eq_some {index result : RelationIndex} {delta : SnapshotDelta} :
    applyDeltaGuarded shardOf index delta = some result ↔
      result = applyDelta index delta ∧
        ∀ before relation, before ++ [relation] <+: delta.removedRelations → ∀ callee,
          relation.calleeId = some callee → shardOf callee = shardOf relation.caller →
            ¬(callee ∈ delta.removedEntities ∨
              callee ∈ delta.renamedEntities.map RenamedEntity.oldId) →
            ∀ edge ∈ edgesOf index.resolvedRelationIndex callee,
              relationIdentity edge ∈ (before ++ [relation]).map relationIdentity := by
  unfold applyDeltaGuarded
  simp only [Option.bind_eq_bind, Option.bind_eq_some_iff, applyRemovedRelationsGuarded_eq_some_iff,
    edgesOf_replayedEntities, mem_ite_nil_left, and_assoc, exists_eq_left, Option.some.injEq,
    and_imp, imp_forall_iff]
  rw [and_comm, eq_comm]
  rfl

variable (shardOf : EntityId → S) (new old : RelationIndex) (epoch baseEpoch : Int)
  (config : String) (scope : Option (HashSet String))

/-- The old edges of the callers in scope that the diff does not remove, in its order. -/
def comparedEdges : List ResolvedRelation :=
  ((scopedOldRelations old scope).filter fun entry => entry.1 ∉ removedSet new old scope).flatMap
    Prod.snd

/-- Whenever an edge goes whose callee stays and lies in the shard of its caller, all the edges of
the callee go as well, none of them later. -/
def RemovalsGranted : Prop :=
  ∀ before relation, before ++ [relation] <+: comparedEdges new old scope →
    ¬KeptByDiff new scope relation → ∀ callee, relation.calleeId = some callee →
      shardOf callee = shardOf relation.caller → ¬LostEntity new old scope callee →
        ∀ edge ∈ edgesOf old.resolvedRelationIndex callee,
          edge ∈ before ++ [relation] ∧ ¬KeptByDiff new scope edge

/-- The old index after the delta, if the replay comes to its end. -/
def replayedGuarded : Option RelationIndex :=
  applyDeltaGuarded shardOf old.detachedClone (computeDelta new old epoch baseEpoch config scope)

section Order

omit [Sha256] in
theorem prefix_filter_iff {α : Type} {p : α → Bool} {before l : List α} {a : α} :
    before ++ [a] <+: l.filter p ↔
      ∃ front, front ++ [a] <+: l ∧ p a = true ∧ before = front.filter p := by
  constructor
  · rintro ⟨rest, split⟩
    rw [append_assoc] at split
    obtain ⟨shown, tail, rfl, rfl, found⟩ := filter_eq_append_iff.1 split.symm
    obtain ⟨hidden, rest', rfl, dropped, holds, -⟩ := filter_eq_cons_iff.1 found
    refine ⟨shown ++ hidden, ⟨rest', by simp⟩, holds, ?_⟩
    rw [filter_append, filter_eq_nil_iff.2 dropped, append_nil]
  · rintro ⟨front, ⟨rest, rfl⟩, holds, rfl⟩
    exact ⟨rest.filter p, by simp [holds]⟩

omit [Sha256] in
theorem prefix_append_iff {α : Type} {before left right : List α} {a : α} :
    before ++ [a] <+: left ++ right ↔
      before ++ [a] <+: left ∨ ∃ front, before = left ++ front ∧ front ++ [a] <+: right := by
  constructor
  · rintro inFront
    rcases prefix_or_prefix_of_prefix inFront (prefix_append left right) with inLeft | ⟨rest, cut⟩
    · exact Or.inl inLeft
    · rcases eq_nil_or_concat' rest with rfl | ⟨front, last, rfl⟩
      · exact Or.inl ⟨[], by simpa using cut.symm⟩
      · rw [← append_assoc] at cut
        obtain ⟨rfl, same⟩ := append_inj' cut rfl
        obtain rfl := singleton_inj.1 same
        rw [append_assoc, prefix_append_right_inj] at inFront
        exact Or.inr ⟨front, rfl, inFront⟩
  · rintro (inLeft | ⟨front, rfl, inRight⟩)
    · exact inLeft.trans (prefix_append left right)
    · rw [append_assoc, prefix_append_right_inj]
      exact inRight

end Order

variable {new old scope}

theorem mem_comparedEdges {edge : ResolvedRelation} (mem : edge ∈ comparedEdges new old scope) :
    edge ∈ edgesOf old.resolvedRelationIndex edge.caller := by
  obtain ⟨entry, listed, inEntry⟩ := mem_flatMap.1 mem
  have inScope := mem_flatMap.2 ⟨entry, (mem_filter.1 listed).1, inEntry⟩
  exact ((mem_scopedOldRelations old scope).1 inScope).1

variable {epoch baseEpoch config}

theorem removedRelations_computeDelta :
    (computeDelta new old epoch baseEpoch config scope).removedRelations =
      (comparedEdges new old scope).filter (fun relation =>
          !edgeSurvives (edgeContents (scopedNewRelations new scope)) relation) ++
        danglingRelations old scope (removedSet new old scope) := by
  rw [computeDelta_eq, comparedEdges, filter_flatMap]
  rfl

variable {shardOf}

/-- A replayed delta comes to its end, with the index of the replay without guards, exactly when
every removal is granted. -/
theorem applyDeltaGuarded_eq_some_iff {start result : RelationIndex}
    (sameEdges : start.resolvedRelationIndex = old.resolvedRelationIndex) :
    applyDeltaGuarded shardOf start (computeDelta new old epoch baseEpoch config scope) =
        some result ↔
      result = applyDelta start (computeDelta new old epoch baseEpoch config scope) ∧
        RemovalsGranted shardOf new old scope := by
  rw [applyDeltaGuarded_eq_some, removedRelations_computeDelta]
  refine and_congr_right fun _ => ?_
  have lost : ∀ callee, (callee ∈ (computeDelta new old epoch baseEpoch config
        scope).removedEntities ∨ callee ∈ (computeDelta new old epoch baseEpoch config
          scope).renamedEntities.map RenamedEntity.oldId) ↔ LostEntity new old scope callee := by
    intro callee
    rw [computeDelta_eq]
    exact lost_iff new old scope
  simp only [lost, sameEdges, prefix_append_iff, prefix_filter_iff, Bool.not_eq_true',
    Bool.eq_false_iff, ne_eq, edgeSurvives_scopedNewRelations]
  constructor
  · intro granted before relation inFront gone callee target shared stays edge mem
    obtain ⟨removed, removedMem, same⟩ := mem_map.1 (granted _ relation
      (Or.inl ⟨before, inFront, gone, rfl⟩) callee target shared stays edge mem)
    have listed : removed ∈ before ++ [relation] ∧ ¬KeptByDiff new scope removed := by
      simp only [mem_append, mem_filter, mem_singleton, Bool.not_eq_true', Bool.eq_false_iff,
        ne_eq, edgeSurvives_scopedNewRelations] at removedMem
      rcases removedMem with ⟨earlier, lost⟩ | rfl
      · exact ⟨mem_append_left _ earlier, lost⟩
      · exact ⟨mem_append_right _ (mem_singleton_self _), gone⟩
    have own := old.edgesFiled.caller_eq mem
    rw [← own] at mem
    have twin := eq_of_relationIdentity_eq (mem_comparedEdges (inFront.subset listed.1)) mem same
    exact twin ▸ listed
  · rintro granted - relation (⟨before, inFront, gone, rfl⟩ | ⟨before, rfl, inFront⟩) callee target
      shared stays edge mem
    · obtain ⟨inBefore, lost⟩ := granted before relation inFront gone callee target shared stays
        edge mem
      refine mem_map_of_mem ?_
      rcases mem_append.1 inBefore with earlier | here
      · refine mem_append_left _ (mem_filter.2 ⟨earlier, ?_⟩)
        rw [Bool.not_eq_true', Bool.eq_false_iff, ne_eq, edgeSurvives_scopedNewRelations]
        exact lost
      · exact mem_append_right _ here
    · -- the callee of a dangling edge is removed
      have dangling := inFront.subset (mem_append_right _ (mem_singleton_self relation))
      obtain ⟨removedId, removed, -, -, -, -, hit⟩ :=
        (mem_danglingRelations old scope _).1 dangling
      obtain rfl := Option.some.inj (target.symm.trans hit)
      exact absurd ((lost_iff new old scope).1 (Or.inl (HashSet.mem_ofList.1 removed))) stays

theorem exists_replayedGuarded_iff {P : RelationIndex → Prop} :
    (∃ index, replayedGuarded shardOf new old epoch baseEpoch config scope = some index ∧ P index) ↔
      P (replayed new old epoch baseEpoch config scope) ∧
        RemovalsGranted shardOf new old scope := by
  have outcome : ∀ index,
      replayedGuarded shardOf new old epoch baseEpoch config scope = some index ↔
      index = replayed new old epoch baseEpoch config scope ∧
        RemovalsGranted shardOf new old scope := fun index => applyDeltaGuarded_eq_some_iff rfl
  simp only [outcome, and_assoc, exists_eq_left]
  exact and_comm

end Replay

end ContextEngine

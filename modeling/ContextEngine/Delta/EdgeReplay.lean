/- digest: What a replay does to the forward edges of one owner, and what the relation diff lists.
   -/

import ContextEngine.Index.ApplyDelta

set_option autoImplicit false

namespace ContextEngine

open RelationIndex List HashMap RelationIndexView

section EntitySteps

variable (table : ResolvedTable)

theorem edgesOf_dropEmbeddedCaller (callee caller key : EntityId) :
    edgesOf (dropEmbeddedCaller table callee caller) key = edgesOf table key := by
  unfold dropEmbeddedCaller
  rw [edgesOf_alter]
  split_ifs with same
  · subst same
    unfold edgesOf
    cases table.lookup key with
    | none => rfl
    | some set =>
      simp only
      split_ifs with bare
      · have nil : set.edges = [] := isEmpty_iff.1 (Bool.and_eq_true_iff.1 bare).1
        exact nil.symm
      · rfl
  · rfl

theorem edgesOf_foldl_dropEmbeddedCaller (l : List EntityId) (caller key : EntityId) :
    edgesOf (l.foldl (fun table callee => dropEmbeddedCaller table callee caller) table) key =
      edgesOf table key :=
  foldl_frame (edgesOf · key) _ (fun _ _ => edgesOf_dropEmbeddedCaller ..) l table

theorem edgesOf_dropResolvedEntity (entityId key : EntityId) :
    edgesOf (dropResolvedEntity table entityId) key =
      if key = entityId then [] else edgesOf table key := by
  unfold dropResolvedEntity
  rw [edgesOf_foldl_dropEmbeddedCaller, edgesOf_foldl_dropEmbeddedCaller, edgesOf_erase]

theorem edgesOf_foldl_dropResolvedEntity (l : List EntityId) (key : EntityId) :
    edgesOf (l.foldl dropResolvedEntity table) key = if key ∈ l then [] else edgesOf table key := by
  induction l generalizing table with
  | nil => simp
  | cons a l ih =>
    rw [foldl_cons, ih, edgesOf_dropResolvedEntity]
    by_cases same : key = a <;> simp [same]

theorem edgesOf_renameResolved {table : ResolvedTable} (filed : EdgesFiled table)
    (renamed : RenamedEntity) (key : EntityId) :
    edgesOf (renameResolved table renamed) key =
      if key = renamed.oldId then [] else edgesOf table key := by
  have selfOnly : ∀ caller ∈ ((table.lookup renamed.oldId).getD ∅).callers.toList,
      caller = renamed.oldId := by
    intro caller mem
    cases found : table.lookup renamed.oldId with
    | none =>
      rw [found] at mem
      exact absurd mem (SortedVec.notMem_empty caller)
    | some set =>
      rw [found] at mem
      exact (filed renamed.oldId set found).callers_eq caller mem
  have migrated : ∀ (l : List EntityId) (table : ResolvedTable),
      (∀ caller ∈ l, caller = renamed.oldId) → key ≠ renamed.oldId →
      edgesOf (l.foldl (fun (table : ResolvedTable) caller =>
        table.alter caller fun entry => entry.map fun set => migrateCallee set renamed) table)
        key = edgesOf table key := by
    intro l
    induction l with
    | nil => exact fun _ _ _ => rfl
    | cons caller l ih =>
      intro table only other
      rw [foldl_cons, ih _ (fun c mem => only c (mem_cons_of_mem _ mem)) other,
        edgesOf_alter, if_neg]
      rw [only caller mem_cons_self]
      exact other
  have refreshed : ∀ table : ResolvedTable, edgesOf (table.alter renamed.newId fun entry =>
        entry.map fun set => refreshCallers set renamed.newId) key = edgesOf table key := by
    intro table
    rw [edgesOf_alter]
    split_ifs with same
    · subst same
      unfold edgesOf
      cases table.lookup renamed.newId with
      | none => rfl
      | some set => exact edges_refreshCallers set renamed.newId
    · rfl
  unfold renameResolved
  rw [refreshed, edgesOf_erase]
  split_ifs with same
  · rfl
  · exact migrated _ table selfOnly same

variable (index : RelationIndex)

private theorem resolved_applyRemovedEntities [Sha256]
    (removed : List EntityId) :
    (applyRemovedEntities index removed).resolvedRelationIndex =
      removed.foldl dropResolvedEntity index.resolvedRelationIndex :=
  (foldl_hom resolvedRelationIndex fun _ _ => rfl).symm

theorem edgesOf_applyRemovedEntities [Sha256] (removed : List EntityId)
    (key : EntityId) :
    edgesOf (applyRemovedEntities index removed).resolvedRelationIndex key =
      if key ∈ removed then [] else edgesOf index.resolvedRelationIndex key := by
  rw [resolved_applyRemovedEntities, edgesOf_foldl_dropResolvedEntity]

theorem edgesOf_applyRenamedEntities [Sha256]
    (renamed : List RenamedEntity) (key : EntityId) :
    edgesOf (applyRenamedEntities index renamed).resolvedRelationIndex key =
      if key ∈ renamed.map RenamedEntity.oldId then []
      else edgesOf index.resolvedRelationIndex key := by
  have steps : ∀ (l : List RenamedEntity) (index : RelationIndex),
      edgesOf (l.foldl applyRenamedEntity index).resolvedRelationIndex key =
        if key ∈ l.map RenamedEntity.oldId then []
        else edgesOf index.resolvedRelationIndex key := by
    intro l
    induction l with
    | nil => simp
    | cons r l ih =>
      intro index
      rw [foldl_cons, ih]
      change (if _ then _ else edgesOf (renameResolved index.resolvedRelationIndex r) key) = _
      rw [edgesOf_renameResolved index.edgesFiled]
      by_cases same : key = r.oldId <;> simp [same]
  unfold applyRenamedEntities
  split_ifs with none
  · simp_all
  · simp_all
  · exact (steps renamed index).trans (if_pos ‹_›)
  · exact (steps renamed index).trans (if_neg ‹_›)

end EntitySteps

section EdgeSteps

variable {table : ResolvedTable}

theorem eq_of_relationIdentity_eq {left right : ResolvedRelation}
    (leftMem : left ∈ edgesOf table left.caller) (rightMem : right ∈ edgesOf table right.caller)
    (same : relationIdentity left = relationIdentity right) : left = right := by
  have callers : left.caller = right.caller := congrArg RelationEdgeIdentity.caller same
  rw [callers] at leftMem
  exact inj_on_of_nodup_map (nodup_edgesOf _ _) leftMem rightMem same

theorem edgesOf_removeEdge (table : ResolvedTable) (relation : ResolvedRelation) (key : EntityId) :
    edgesOf (removeEdge table relation) key = if key = relation.caller then
        (edgesOf table key).filter fun edge => relationIdentity edge ≠ relationIdentity relation
      else edgesOf table key := by
  unfold removeEdge
  rw [edgesOf_alter]
  split_ifs with same
  · subst same
    unfold edgesOf
    cases table.lookup relation.caller with
    | none => rfl
    | some set =>
      simp only
      split_ifs with bare
      · exact (isEmpty_iff.1 bare).symm
      · rfl
  · rfl

theorem edgesOf_removeRelation (table : ResolvedTable) (relation : ResolvedRelation)
    (key : EntityId) :
    edgesOf (removeRelation table relation) key = if key = relation.caller then
        (edgesOf table key).filter fun edge => relationIdentity edge ≠ relationIdentity relation
      else edgesOf table key := by
  rw [← edgesOf_removeEdge]
  unfold removeRelation
  cases relation.calleeId with
  | none => rfl
  | some callee =>
    simp only
    split_ifs with still
    · rfl
    · exact edgesOf_dropEmbeddedCaller ..

theorem edgesOf_foldl_removeRelation {key : EntityId}
    (filed : ∀ edge ∈ edgesOf table key, edge.caller = key) (l : List ResolvedRelation) :
    edgesOf (l.foldl removeRelation table) key =
      (edgesOf table key).filter fun edge => relationIdentity edge ∉ l.map relationIdentity := by
  induction l generalizing table with
  | nil => simp
  | cons r l ih =>
    have step : edgesOf (removeRelation table r) key =
        (edgesOf table key).filter fun edge => relationIdentity edge ≠ relationIdentity r := by
      rw [edgesOf_removeRelation]
      split_ifs with own
      · rfl
      · refine (filter_eq_self.2 fun edge mem => ?_).symm
        rw [decide_eq_true_eq]
        intro same
        have callers := congrArg RelationEdgeIdentity.caller same
        rw [relationIdentity_caller, relationIdentity_caller, filed edge mem] at callers
        exact own callers
    rw [foldl_cons, ih, step, filter_filter]
    · refine filter_congr fun edge _ => ?_
      simp [Bool.and_comm]
    · intro edge mem
      rw [step] at mem
      exact filed edge (mem_filter.1 mem).1

private theorem resolved_applyAddedRelations (index : RelationIndex)
    (added : List ResolvedRelation) :
    (applyAddedRelations index added).resolvedRelationIndex =
      added.foldl (fun table r => addEdge table r.caller r) index.resolvedRelationIndex :=
  (foldl_hom resolvedRelationIndex fun _ _ => rfl).symm

private theorem edgesOf_foldl_addEdge {l : List ResolvedRelation}
    (distinct : (l.map relationIdentity).Nodup)
    (fresh : ∀ r ∈ l, relationIdentity r ∉ (edgesOf table r.caller).map relationIdentity)
    (key : EntityId) :
    edgesOf (l.foldl (fun table r => addEdge table r.caller r) table) key =
      edgesOf table key ++ l.filter fun r => r.caller = key := by
  induction l generalizing table with
  | nil => simp
  | cons r l ih =>
    obtain ⟨notLater, distinctTail⟩ := nodup_cons.1 distinct
    have absent : hasEdge table r.caller r = false :=
      Bool.eq_false_iff.2 fun present => fresh r mem_cons_self (hasEdge_iff.1 present)
    have here : ∀ k, edgesOf (addEdge table r.caller r) k =
        if k = r.caller then edgesOf table k ++ [r] else edgesOf table k := by
      intro k
      rw [edgesOf_addEdge]
      by_cases own : k = r.caller
      · subst own
        simp [absent]
      · simp [own]
    rw [foldl_cons, ih distinctTail, here]
    · by_cases own : r.caller = key
      · subst own
        simp
      · have other : key ≠ r.caller := Ne.symm own
        simp [own, other]
    · intro s mem
      rw [here]
      split_ifs with own
      · rw [map_append, mem_append, not_or]
        refine ⟨fresh s (mem_cons_of_mem _ mem), ?_⟩
        rw [map_singleton, mem_singleton]
        intro same
        exact notLater (same ▸ mem_map_of_mem mem)
      · exact fresh s (mem_cons_of_mem _ mem)

theorem edgesOf_applyAddedRelations {index : RelationIndex} {added : List ResolvedRelation}
    (distinct : (added.map relationIdentity).Nodup)
    (fresh : ∀ r ∈ added, relationIdentity r ∉
      (edgesOf index.resolvedRelationIndex r.caller).map relationIdentity)
    (key : EntityId) :
    edgesOf (applyAddedRelations index added).resolvedRelationIndex key =
      edgesOf index.resolvedRelationIndex key ++ added.filter fun r => r.caller = key := by
  rw [resolved_applyAddedRelations, edgesOf_foldl_addEdge distinct fresh]

theorem mem_identities_applyAddedRelations {index : RelationIndex}
    {added : List ResolvedRelation} {key : EntityId} {identity : RelationEdgeIdentity} :
    identity ∈ (edgesOf (applyAddedRelations index added).resolvedRelationIndex key).map
        relationIdentity ↔
      identity ∈ (edgesOf index.resolvedRelationIndex key).map relationIdentity ∨
        (identity ∈ added.map relationIdentity ∧ identity.caller = key) := by
  rw [resolved_applyAddedRelations]
  generalize index.resolvedRelationIndex = table
  induction added generalizing table with
  | nil => simp
  | cons r l ih =>
    have here : identity ∈ (edgesOf (addEdge table r.caller r) key).map relationIdentity ↔
        identity ∈ (edgesOf table key).map relationIdentity ∨
          (identity = relationIdentity r ∧ identity.caller = key) := by
      rw [edgesOf_addEdge]
      split_ifs with fresh
      · obtain ⟨rfl, -⟩ := fresh
        rw [map_append, mem_append, map_singleton, mem_singleton]
        exact or_congr_right (iff_self_and.2 fun same => same ▸ relationIdentity_caller r)
      · refine (or_iff_left_of_imp ?_).symm
        rintro ⟨rfl, rfl⟩
        rw [relationIdentity_caller] at fresh ⊢
        exact hasEdge_iff.1 (Bool.not_eq_false _ ▸ fun absent => fresh ⟨rfl, absent⟩)
    rw [foldl_cons, ih, here, map_cons, mem_cons]
    tauto

theorem edgesOf_applyRemovedRelations (index : RelationIndex) (removed : List ResolvedRelation)
    (key : EntityId) :
    edgesOf (applyRemovedRelations index removed).resolvedRelationIndex key =
      (edgesOf index.resolvedRelationIndex key).filter fun edge =>
        relationIdentity edge ∉ removed.map relationIdentity := by
  have table : (applyRemovedRelations index removed).resolvedRelationIndex =
      removed.foldl removeRelation index.resolvedRelationIndex :=
    (foldl_hom resolvedRelationIndex fun _ _ => rfl).symm
  rw [table, edgesOf_foldl_removeRelation fun edge mem => index.edgesFiled.caller_eq mem]

end EdgeSteps

section Replay

variable [Sha256]

theorem edgesOf_replayedEntities (index : RelationIndex) (delta : SnapshotDelta)
    (key : EntityId) :
    edgesOf (applyAddedEntities
        (applyRenamedEntities
          (applyRemovedEntities
            (applyAddedFiles (applyRemovedFiles index delta.removedFiles) delta.addedFiles)
            delta.removedEntities)
          delta.renamedEntities)
        delta.addedEntities).resolvedRelationIndex key =
      if key ∈ delta.removedEntities ∨ key ∈ delta.renamedEntities.map RenamedEntity.oldId then []
      else edgesOf index.resolvedRelationIndex key := by
  let files := applyAddedFiles (applyRemovedFiles index delta.removedFiles) delta.addedFiles
  let lost := applyRenamedEntities (applyRemovedEntities files delta.removedEntities)
    delta.renamedEntities
  have sameFiles : files.resolvedRelationIndex = index.resolvedRelationIndex :=
    (foldl_frame resolvedRelationIndex applyAddedFile (fun _ _ => rfl) _ _).trans
      (foldl_frame resolvedRelationIndex applyRemovedFile (fun _ _ => rfl) _ _)
  have sameEntities : (applyAddedEntities lost delta.addedEntities).resolvedRelationIndex =
      lost.resolvedRelationIndex :=
    foldl_frame resolvedRelationIndex applyAddedEntity (fun _ _ => rfl) _ _
  rw [sameEntities, edgesOf_applyRenamedEntities, edgesOf_applyRemovedEntities, sameFiles]
  by_cases gone : key ∈ delta.removedEntities <;> simp [gone]

private theorem exists_resolved_applyDelta (index : RelationIndex) (delta : SnapshotDelta) :
    ∃ cleared : RelationIndex, (applyDelta index delta).resolvedRelationIndex =
        (applyAddedRelations cleared delta.addedRelations).resolvedRelationIndex ∧
      ∀ key, edgesOf cleared.resolvedRelationIndex key =
        (if key ∈ delta.removedEntities ∨ key ∈ delta.renamedEntities.map RenamedEntity.oldId
          then [] else edgesOf index.resolvedRelationIndex key).filter fun edge =>
            relationIdentity edge ∉ delta.removedRelations.map relationIdentity := by
  refine ⟨_, ((foldl_frame resolvedRelationIndex applyExportDiff (fun _ _ => rfl) _ _).trans
      (foldl_frame resolvedRelationIndex applyImportDiff (fun _ _ => rfl) _ _)).trans
        (foldl_frame resolvedRelationIndex applyFileRelationDiff (fun _ _ => rfl) _ _),
    fun key => ?_⟩
  rw [edgesOf_applyRemovedRelations, edgesOf_replayedEntities]

theorem edgesOf_applyDelta {index : RelationIndex} {delta : SnapshotDelta}
    (distinct : (delta.addedRelations.map relationIdentity).Nodup) (key : EntityId)
    (fresh : ∀ added ∈ delta.addedRelations,
      ∀ edge ∈ edgesOf index.resolvedRelationIndex added.caller,
      added.caller ∉ delta.removedEntities →
      added.caller ∉ delta.renamedEntities.map RenamedEntity.oldId →
      relationIdentity edge = relationIdentity added →
      relationIdentity edge ∈ delta.removedRelations.map relationIdentity) :
    edgesOf (applyDelta index delta).resolvedRelationIndex key =
      ((if key ∈ delta.removedEntities ∨ key ∈ delta.renamedEntities.map RenamedEntity.oldId
          then [] else edgesOf index.resolvedRelationIndex key).filter fun edge =>
        relationIdentity edge ∉ delta.removedRelations.map relationIdentity) ++
      delta.addedRelations.filter fun edge => edge.caller = key := by
  obtain ⟨cleared, tail, edges⟩ := exists_resolved_applyDelta index delta
  rw [tail, edgesOf_applyAddedRelations distinct, edges]
  intro added addedMem present
  rw [edges] at present
  obtain ⟨edge, edgeMem, same⟩ := mem_map.1 present
  obtain ⟨inOld, unlisted⟩ := mem_filter.1 edgeMem
  split_ifs at inOld with gone
  · cases inOld
  · rw [not_or] at gone
    exact of_decide_eq_true unlisted (fresh added addedMem edge inOld gone.1 gone.2 same)

theorem mem_identities_applyDelta {index : RelationIndex} {delta : SnapshotDelta}
    {key : EntityId} {identity : RelationEdgeIdentity} :
    identity ∈ (edgesOf (applyDelta index delta).resolvedRelationIndex key).map relationIdentity ↔
      (key ∉ delta.removedEntities ∧ key ∉ delta.renamedEntities.map RenamedEntity.oldId ∧
          identity ∈ (edgesOf index.resolvedRelationIndex key).map relationIdentity ∧
          identity ∉ delta.removedRelations.map relationIdentity) ∨
        (identity ∈ delta.addedRelations.map relationIdentity ∧ identity.caller = key) := by
  obtain ⟨cleared, tail, edges⟩ := exists_resolved_applyDelta index delta
  rw [tail, mem_identities_applyAddedRelations, edges]
  refine or_congr_left ?_
  split_ifs with gone
  · simp only [filter_nil, map_nil, not_mem_nil, false_iff]
    tauto
  · simp only [mem_map, mem_filter, decide_eq_true_eq]
    constructor
    · rintro ⟨edge, ⟨mem, unlisted⟩, rfl⟩
      exact ⟨fun h => gone (Or.inl h), fun h => gone (Or.inr (mem_map.2 h)),
        ⟨edge, mem, rfl⟩, unlisted⟩
    · rintro ⟨-, -, ⟨edge, mem, rfl⟩, unlisted⟩
      exact ⟨edge, ⟨mem, unlisted⟩, rfl⟩

end Replay

section FileReplay

theorem edgesOf_applyRemovedFiles (index : RelationIndex) (removed : List String) (path : String) :
    edgesOf (applyRemovedFiles index removed).fileRelationIndex path =
      if path ∈ removed then [] else edgesOf index.fileRelationIndex path := by
  have table : (applyRemovedFiles index removed).fileRelationIndex =
      index.fileRelationIndex.eraseAll removed :=
    (foldl_hom fileRelationIndex fun _ _ => rfl).symm
  unfold edgesOf
  rw [table, HashMap.lookup_eraseAll]
  split_ifs <;> rfl

theorem edgesOf_applyFileRelationDiffs {index : RelationIndex}
    {diffs : List FileRelationDiff} (distinct : (diffs.map FileRelationDiff.filePath).Nodup)
    (path : String) :
    edgesOf (applyFileRelationDiffs index diffs).fileRelationIndex path =
      match diffs.find? fun diff => diff.filePath = path with
      | some diff =>
        (patchEdges ((index.fileRelationIndex.lookup path).getD ∅) diff).edges
      | none => edgesOf index.fileRelationIndex path := by
  induction diffs generalizing index with
  | nil => rfl
  | cons diff diffs ih =>
    obtain ⟨notLater, distinctTail⟩ := nodup_cons.1 distinct
    change edgesOf (applyFileRelationDiffs (applyFileRelationDiff index diff)
      diffs).fileRelationIndex path = _
    rw [ih distinctTail, find?_cons]
    by_cases own : diff.filePath = path
    · subst own
      have absent : diffs.find? (fun other => other.filePath = diff.filePath) = none := by
        rw [find?_eq_none]
        intro other mem same
        exact notLater (mem_map.2 ⟨other, mem, of_decide_eq_true same⟩)
      rw [absent, decide_eq_true rfl]
      change edgesOf (patchFileRelations index.fileRelationIndex diff) diff.filePath = _
      rw [edgesOf_patchFileRelations, if_pos rfl]
    · rw [decide_eq_false own]
      have other : path ≠ diff.filePath := Ne.symm own
      cases found : diffs.find? fun diff => diff.filePath = path with
      | none =>
        change edgesOf (patchFileRelations index.fileRelationIndex diff) path = _
        rw [edgesOf_patchFileRelations, if_neg other]
      | some later =>
        change (patchEdges (((patchFileRelations index.fileRelationIndex diff).lookup
          path).getD ∅) later).edges = _
        have untouched : (patchFileRelations index.fileRelationIndex diff).lookup path =
            index.fileRelationIndex.lookup path := by
          unfold patchFileRelations
          simp only
          split_ifs
          · rw [HashMap.lookup_erase_eq, if_neg other]
          · rw [HashMap.lookup_insert_eq, if_neg other]
        rw [untouched]

variable [Sha256]

theorem fileRelationIndex_applyDelta (index : RelationIndex) (delta : SnapshotDelta) :
    (applyDelta index delta).fileRelationIndex = delta.fileRelationDiffs.foldl patchFileRelations
        (applyRemovedFiles index delta.removedFiles).fileRelationIndex := by
  let files := applyRemovedFiles index delta.removedFiles
  let removed := applyRemovedEntities (applyAddedFiles files delta.addedFiles)
    delta.removedEntities
  let entities := applyAddedEntities (applyRenamedEntities removed delta.renamedEntities)
    delta.addedEntities
  let edges := applyAddedRelations (applyRemovedRelations entities delta.removedRelations)
    delta.addedRelations
  have renamed : (applyRenamedEntities removed delta.renamedEntities).fileRelationIndex =
      removed.fileRelationIndex := by
    unfold applyRenamedEntities
    split
    · rfl
    · exact foldl_frame fileRelationIndex applyRenamedEntity (fun _ _ => rfl) _ _
  have head : edges.fileRelationIndex = files.fileRelationIndex :=
    calc edges.fileRelationIndex
        = (applyRemovedRelations entities delta.removedRelations).fileRelationIndex :=
          foldl_frame fileRelationIndex addResolvedRelation (fun _ _ => rfl) _ _
      _ = entities.fileRelationIndex :=
          foldl_frame fileRelationIndex applyRemovedRelation (fun _ _ => rfl) _ _
      _ = (applyRenamedEntities removed delta.renamedEntities).fileRelationIndex :=
          foldl_frame fileRelationIndex applyAddedEntity (fun _ _ => rfl) _ _
      _ = removed.fileRelationIndex := renamed
      _ = (applyAddedFiles files delta.addedFiles).fileRelationIndex :=
          foldl_frame fileRelationIndex applyRemovedEntity (fun _ _ => rfl) _ _
      _ = files.fileRelationIndex :=
          foldl_frame fileRelationIndex applyAddedFile (fun _ _ => rfl) _ _
  have tail : (applyDelta index delta).fileRelationIndex =
      (applyFileRelationDiffs edges delta.fileRelationDiffs).fileRelationIndex :=
    (foldl_frame fileRelationIndex applyExportDiff (fun _ _ => rfl) _ _).trans
      (foldl_frame fileRelationIndex applyImportDiff (fun _ _ => rfl) _ _)
  rw [tail, ← head]
  exact (foldl_hom fileRelationIndex fun _ _ => rfl).symm

theorem fileEdgesOf_applyDelta {index : RelationIndex} {delta : SnapshotDelta}
    (distinct : (delta.fileRelationDiffs.map FileRelationDiff.filePath).Nodup) (path : String) :
    edgesOf (applyDelta index delta).fileRelationIndex path =
      match delta.fileRelationDiffs.find? fun diff => diff.filePath = path with
      | some diff =>
        (patchEdges (((applyRemovedFiles index delta.removedFiles).fileRelationIndex.lookup
          path).getD ∅) diff).edges
      | none =>
        edgesOf (applyRemovedFiles index delta.removedFiles).fileRelationIndex path := by
  have patched : (applyFileRelationDiffs (applyRemovedFiles index delta.removedFiles)
      delta.fileRelationDiffs).fileRelationIndex = delta.fileRelationDiffs.foldl patchFileRelations
        (applyRemovedFiles index delta.removedFiles).fileRelationIndex :=
    (foldl_hom fileRelationIndex fun _ _ => rfl).symm
  rw [fileRelationIndex_applyDelta, ← patched, edgesOf_applyFileRelationDiffs distinct]

end FileReplay

/-- Two edges the diff cannot tell apart: same identity, same compared content. -/
def SameForDiff (left right : ResolvedRelation) : Prop :=
  relationIdentity left = relationIdentity right ∧ edgeContent left = edgeContent right

instance (left right : ResolvedRelation) : Decidable (SameForDiff left right) :=
  inferInstanceAs (Decidable (_ ∧ _))

namespace SameForDiff

theorem refl (edge : ResolvedRelation) : SameForDiff edge edge := ⟨rfl, rfl⟩

theorem symm {left right : ResolvedRelation} (same : SameForDiff left right) :
    SameForDiff right left := ⟨same.1.symm, same.2.symm⟩

theorem caller_eq {left right : ResolvedRelation} (same : SameForDiff left right) :
    left.caller = right.caller := congrArg RelationEdgeIdentity.caller same.1

end SameForDiff

theorem edgeSurvives_edgeContents {edges : List ResolvedRelation}
    (distinct : (edges.map relationIdentity).Nodup) (relation : ResolvedRelation) :
    edgeSurvives (edgeContents edges) relation = true ↔
      ∃ other ∈ edges, SameForDiff other relation := by
  unfold edgeSurvives edgeContents
  rw [decide_eq_true_eq]
  by_cases listed : relationIdentity relation ∈ edges.map relationIdentity
  · obtain ⟨other, mem, same⟩ := mem_map.1 listed
    have unique : ∀ edge ∈ edges, relationIdentity edge = relationIdentity relation →
        edge = other := fun edge edgeMem edgeSame =>
      inj_on_of_nodup_map distinct edgeMem mem (edgeSame.trans same.symm)
    have found : (extend (∅ : HashMap RelationEdgeIdentity EdgeContent)
        (edges.map fun edge => (relationIdentity edge, edgeContent edge))).lookup
          (relationIdentity relation) = some (edgeContent other) := by
      refine lookup_extend_of_mem ?_ ?_
      · exact mem_map.2 ⟨other, mem, by rw [same]⟩
      · intro content inContents
        obtain ⟨edge, edgeMem, pair⟩ := mem_map.1 inContents
        obtain ⟨edgeSame, rfl⟩ := Prod.mk.inj pair
        rw [unique edge edgeMem edgeSame]
    rw [found, Option.some.injEq]
    constructor
    · exact fun content => ⟨other, mem, same, content⟩
    · rintro ⟨edge, edgeMem, edgeSame, content⟩
      rw [← unique edge edgeMem edgeSame]
      exact content
  · rw [lookup_extend_of_notMem (by simpa [map_map] using listed)]
    constructor
    · intro impossible
      cases impossible
    · rintro ⟨edge, edgeMem, edgeSame, -⟩
      exact absurd (mem_map.2 ⟨edge, edgeMem, edgeSame⟩) listed

section Listing

theorem nodup_flatMap_edges {table : ResolvedTable} (filed : EdgesFiled table)
    (keep : EntityId × RelationEdgeSet → Bool) :
    (((table.toList.filter keep).flatMap fun entry => entry.2.edges).map
      relationIdentity).Nodup := by
  rw [map_flatMap, nodup_flatMap]
  refine ⟨fun entry _ => entry.2.nodup, ?_⟩
  have keys : (table.toList.map Prod.fst).Nodup := by
    rw [map_fst_toList]
    exact table.keys_nodup
  have distinct : (table.toList.filter keep).Pairwise fun a b => a.1 ≠ b.1 :=
    (pairwise_map.1 keys).sublist filter_sublist
  refine distinct.imp_of_mem ?_
  rintro ⟨a, left⟩ ⟨b, right⟩ memA memB different
  have callerOf : ∀ {key set}, (key, set) ∈ table.toList.filter keep →
      ∀ identity ∈ set.edges.map relationIdentity, identity.caller = key := by
    intro key set mem identity inSet
    obtain ⟨edge, edgeMem, rfl⟩ := mem_map.1 inSet
    exact (filed key set (mem_toList.1 (mem_filter.1 mem).1)).caller_eq edge edgeMem
  intro identity inLeft inRight
  exact different ((callerOf memA identity inLeft).symm.trans (callerOf memB identity inRight))

theorem mem_flatMap_edges {table : ResolvedTable} (filed : EdgesFiled table)
    (keepKey : EntityId → Bool) {edge : ResolvedRelation} :
    edge ∈ (table.toList.filter fun entry => keepKey entry.1).flatMap
        (fun entry => entry.2.edges) ↔
      edge ∈ edgesOf table edge.caller ∧ keepKey edge.caller = true := by
  rw [mem_flatMap]
  constructor
  · rintro ⟨⟨key, set⟩, mem, edgeMem⟩
    obtain ⟨inTable, kept⟩ := mem_filter.1 mem
    have own := (filed key set (mem_toList.1 inTable)).caller_eq edge edgeMem
    rw [own, mem_toList_edges inTable]
    exact ⟨edgeMem, kept⟩
  · rintro ⟨edgeMem, kept⟩
    obtain ⟨set, found, inSet⟩ := mem_edgesOf.1 edgeMem
    exact ⟨(edge.caller, set), mem_filter.2 ⟨mem_toList.2 found, kept⟩, inSet⟩

variable (new old : RelationIndex) (scope : Option (HashSet String))

def callerInScope (index : RelationIndex) (scope : Option (HashSet String))
    (caller : EntityId) : Bool :=
  entityInScope scope (index.entityFileIndex.lookup caller)

theorem nodup_scopedNewRelations :
    ((scopedNewRelations new scope).map relationIdentity).Nodup :=
  nodup_flatMap_edges new.edgesFiled _

theorem mem_scopedNewRelations {edge : ResolvedRelation} :
    edge ∈ scopedNewRelations new scope ↔ edge ∈ edgesOf new.resolvedRelationIndex edge.caller ∧
        callerInScope new scope edge.caller = true :=
  mem_flatMap_edges new.edgesFiled (callerInScope new scope)

theorem scopedOldRelations_eq :
    scopedOldRelations old scope =
      (old.resolvedRelationIndex.toList.filter fun entry => callerInScope old scope entry.1).map
        fun entry => (entry.1, entry.2.edges) := by
  unfold scopedOldRelations
  change filter _ (map _ _) = _
  rw [filter_map]
  rfl

theorem nodup_scopedOldRelations :
    (((scopedOldRelations old scope).flatMap Prod.snd).map relationIdentity).Nodup := by
  rw [scopedOldRelations_eq, flatMap_map]
  exact nodup_flatMap_edges old.edgesFiled _

theorem mem_scopedOldRelations {edge : ResolvedRelation} :
    edge ∈ (scopedOldRelations old scope).flatMap Prod.snd ↔
      edge ∈ edgesOf old.resolvedRelationIndex edge.caller ∧
        callerInScope old scope edge.caller = true := by
  rw [scopedOldRelations_eq, flatMap_map]
  exact mem_flatMap_edges old.edgesFiled (callerInScope old scope)

variable (edge : ResolvedRelation)

/-- The old edge is carried by the new index, as far as the diff looks. -/
def KeptByDiff : Prop :=
  ∃ other ∈ edgesOf new.resolvedRelationIndex edge.caller,
    callerInScope new scope edge.caller = true ∧ SameForDiff other edge

variable {new scope} in
private theorem edgeSurvives_of_listed {edges : List ResolvedRelation}
    (distinct : (edges.map relationIdentity).Nodup)
    (listed : ∀ {edge}, edge ∈ edges ↔ edge ∈ edgesOf new.resolvedRelationIndex edge.caller ∧
      callerInScope new scope edge.caller = true) (edge : ResolvedRelation) :
    edgeSurvives (edgeContents edges) edge = true ↔ KeptByDiff new scope edge := by
  rw [edgeSurvives_edgeContents distinct]
  constructor
  · rintro ⟨other, mem, same⟩
    obtain ⟨inTable, inScope⟩ := listed.1 mem
    rw [same.caller_eq] at inTable inScope
    exact ⟨other, inTable, inScope, same⟩
  · rintro ⟨other, inTable, inScope, same⟩
    refine ⟨other, listed.2 ?_, same⟩
    rw [same.caller_eq]
    exact ⟨inTable, inScope⟩

theorem edgeSurvives_scopedNewRelations :
    edgeSurvives (edgeContents (scopedNewRelations new scope)) edge = true ↔
      KeptByDiff new scope edge :=
  edgeSurvives_of_listed (nodup_scopedNewRelations new scope)
    (mem_scopedNewRelations new scope) edge

theorem edgeSurvives_scopedOldRelations :
    edgeSurvives (edgeContents ((scopedOldRelations old scope).flatMap Prod.snd)) edge = true ↔
      KeptByDiff old scope edge :=
  edgeSurvives_of_listed (nodup_scopedOldRelations old scope)
    (mem_scopedOldRelations old scope) edge

variable (removed : HashSet EntityId)

theorem mem_addedRelations {edge : ResolvedRelation} :
    edge ∈ (computeRelationDiff new old scope removed).addedRelations ↔
      edge ∈ edgesOf new.resolvedRelationIndex edge.caller ∧
        callerInScope new scope edge.caller = true ∧ ¬KeptByDiff old scope edge := by
  unfold computeRelationDiff
  simp only [mem_filter, Bool.not_eq_true', Bool.eq_false_iff, ne_eq,
    edgeSurvives_scopedOldRelations, mem_scopedNewRelations, and_assoc]

theorem nodup_addedRelations :
    ((computeRelationDiff new old scope removed).addedRelations.map relationIdentity).Nodup :=
  (nodup_scopedNewRelations new scope).sublist (filter_sublist.map relationIdentity)

theorem getD_relationsOf (caller : EntityId) :
    (relationsOf old caller).getD [] = edgesOf old.resolvedRelationIndex caller := by
  change ((old.resolvedRelationIndex.lookup caller).map RelationEdgeSet.edges).getD [] = _
  unfold edgesOf
  cases old.resolvedRelationIndex.lookup caller <;> rfl

theorem mem_danglingRelations {edge : ResolvedRelation} :
    edge ∈ danglingRelations old scope removed ↔
      ∃ removedId ∈ removed, ∃ caller ∈ callersAt old.reverseCalleeIndex removedId,
        callerInScope old scope caller = false ∧
          edge ∈ edgesOf old.resolvedRelationIndex caller ∧ edge.calleeId = some removedId := by
  simp only [danglingRelations, mem_flatMap, getD_relationsOf]
  refine exists_congr fun removedId => and_congr_right fun _ => exists_congr fun caller =>
    and_congr_right fun _ => ?_
  change edge ∈ (if callerInScope old scope caller = true then [] else _) ↔ _
  split_ifs with inScope
  · simp [inScope]
  · simp [Bool.eq_false_iff.2 inScope]

theorem mem_removedRelations_iff {edge : ResolvedRelation}
    (mem : edge ∈ edgesOf old.resolvedRelationIndex edge.caller) :
    relationIdentity edge ∈
        (computeRelationDiff new old scope removed).removedRelations.map relationIdentity ↔
      (edge.caller ∉ removed ∧ callerInScope old scope edge.caller = true ∧
          ¬KeptByDiff new scope edge) ∨
        (callerInScope old scope edge.caller = false ∧ ∃ removedId ∈ removed,
          edge.caller ∈ callersAt old.reverseCalleeIndex removedId ∧
            edge.calleeId = some removedId) := by
  have unkept : ∀ other, other ∈ ((scopedOldRelations old scope).filter
        fun entry => entry.1 ∉ removed).flatMap
        (fun entry => entry.2.filter fun relation =>
          !edgeSurvives (edgeContents (scopedNewRelations new scope)) relation) ↔
      (other ∈ edgesOf old.resolvedRelationIndex other.caller ∧ other.caller ∉ removed ∧
        callerInScope old scope other.caller = true) ∧ ¬KeptByDiff new scope other := by
    intro other
    rw [← filter_flatMap, mem_filter, Bool.not_eq_true', Bool.eq_false_iff, ne_eq,
      edgeSurvives_scopedNewRelations, scopedOldRelations_eq, filter_map, flatMap_map,
      filter_filter]
    have listed := @mem_flatMap_edges _ old.edgesFiled
      (fun key => decide (key ∉ removed) && callerInScope old scope key) other
    rw [Bool.and_eq_true, decide_eq_true_eq] at listed
    exact and_congr_left fun _ => listed
  unfold computeRelationDiff
  simp only [map_append, mem_append]
  constructor
  · rintro (inRemoved | inDangling)
    · obtain ⟨other, otherMem, same⟩ := mem_map.1 inRemoved
      obtain ⟨⟨inTable, live, inScope⟩, lost⟩ := (unkept other).1 otherMem
      obtain rfl := eq_of_relationIdentity_eq inTable mem same
      exact Or.inl ⟨live, inScope, lost⟩
    · obtain ⟨other, otherMem, same⟩ := mem_map.1 inDangling
      obtain ⟨removedId, removedMem, caller, callerMem, outside, inTable, hit⟩ :=
        (mem_danglingRelations old scope removed).1 otherMem
      have own := old.edgesFiled.caller_eq inTable
      subst own
      obtain rfl := eq_of_relationIdentity_eq inTable mem same
      exact Or.inr ⟨outside, removedId, removedMem, callerMem, hit⟩
  · rintro (⟨live, inScope, lost⟩ | ⟨outside, removedId, removedMem, callerMem, hit⟩)
    · exact Or.inl (mem_map_of_mem ((unkept edge).2 ⟨⟨mem, live, inScope⟩, lost⟩))
    · exact Or.inr (mem_map_of_mem ((mem_danglingRelations old scope removed).2
        ⟨removedId, removedMem, edge.caller, callerMem, outside, mem, hit⟩))

end Listing

section FileListing

variable {new old : RelationIndex} {scope : Option (HashSet String)}

theorem find_fileRelationDiff (path : String) :
    (computeFileRelationDiff new old scope).find? (fun diff => diff.filePath = path) =
      if scopeContains scope path = true ∧
          ((fileRelationDiff new old path).removedRelations ≠ [] ∨
            (fileRelationDiff new old path).addedRelations ≠ []) then
        some (fileRelationDiff new old path)
      else none := by
  have listed : ∀ diff, diff ∈ computeFileRelationDiff new old scope ↔
      ∃ p, diff = fileRelationDiff new old p ∧ scopeContains scope p = true ∧
        (diff.removedRelations ≠ [] ∨ diff.addedRelations ≠ []) := by
    intro diff
    unfold computeFileRelationDiff
    simp only [mem_filter, mem_map, mem_dedup, mem_append, Bool.or_eq_true,
      Bool.not_eq_true', isEmpty_eq_false_iff]
    constructor
    · rintro ⟨⟨p, ⟨-, inScope⟩, rfl⟩, nonempty⟩
      exact ⟨p, rfl, inScope, nonempty⟩
    · rintro ⟨p, rfl, inScope, nonempty⟩
      refine ⟨⟨p, ⟨?_, inScope⟩, rfl⟩, nonempty⟩
      have keyOf : ∀ table : FileRelationTable, edgesOf table p ≠ [] → p ∈ table.keys := by
        intro table some
        obtain ⟨edge, mem⟩ := exists_mem_of_ne_nil _ some
        obtain ⟨set, found, _⟩ := mem_edgesOf.1 mem
        exact mem_keys_iff.2 ⟨set, found⟩
      rcases nonempty with removed | added
      · left
        have key := keyOf old.fileRelationIndex fun nil => removed (by
          unfold fileRelationDiff
          change filter _ (edgesOf old.fileRelationIndex p) = []
          rw [nil]
          rfl)
        obtain ⟨set, found⟩ := mem_keys_iff.1 key
        exact ⟨(p, set.edges), mem_map.2 ⟨(p, set), mem_toList.2 found, rfl⟩, rfl⟩
      · right
        exact keyOf new.fileRelationIndex fun nil => added (by
          unfold fileRelationDiff
          change filter _ (edgesOf new.fileRelationIndex p) = []
          rw [nil]
          rfl)
  split_ifs with present
  · have some : ((computeFileRelationDiff new old scope).find? fun diff =>
        diff.filePath = path).isSome := by
      rw [find?_isSome]
      exact ⟨_, (listed _).2 ⟨path, rfl, present.1, present.2⟩, decide_eq_true rfl⟩
    obtain ⟨diff, found⟩ := Option.isSome_iff_exists.1 some
    obtain ⟨p, rfl, -⟩ := (listed diff).1 (mem_of_find?_eq_some found)
    have named := find?_some found
    have same : p = path := of_decide_eq_true named
    rw [found, same]
  · rw [find?_eq_none]
    intro diff mem same
    obtain ⟨p, rfl, inScope, nonempty⟩ := (listed diff).1 mem
    obtain rfl : p = path := of_decide_eq_true same
    exact present ⟨inScope, nonempty⟩

theorem nodup_filePath_computeFileRelationDiff :
    ((computeFileRelationDiff new old scope).map FileRelationDiff.filePath).Nodup := by
  unfold computeFileRelationDiff
  simp only
  refine List.Nodup.sublist (filter_sublist.map _) ?_
  rw [map_map]
  change ((filter _ (dedup _)).map id).Nodup
  rw [map_id]
  exact (nodup_dedup _).filter _

def KeptByFileDiff (index : RelationIndex) (path : String) (edge : ResolvedRelation) : Prop :=
  ∃ other ∈ edgesOf index.fileRelationIndex path, SameForDiff other edge

variable {path : String}

theorem mem_fileRelationDiff_removed {edge : ResolvedRelation} :
    edge ∈ (fileRelationDiff new old path).removedRelations ↔
      edge ∈ edgesOf old.fileRelationIndex path ∧ ¬KeptByFileDiff new path edge := by
  unfold fileRelationDiff KeptByFileDiff
  simp only [mem_filter, Bool.not_eq_true', Bool.eq_false_iff, ne_eq,
    edgeSurvives_edgeContents (nodup_edgesOf _ _)]
  rfl

theorem mem_fileRelationDiff_added {edge : ResolvedRelation} :
    edge ∈ (fileRelationDiff new old path).addedRelations ↔
      edge ∈ edgesOf new.fileRelationIndex path ∧ ¬KeptByFileDiff old path edge := by
  unfold fileRelationDiff
  simp only [mem_filter, Bool.not_eq_true', Bool.eq_false_iff, ne_eq]
  refine and_congr_right fun _ => not_congr ?_
  exact edgeSurvives_edgeContents (nodup_edgesOf old.fileRelationIndex path) edge

private theorem edges_foldl_insert {l : List ResolvedRelation} {set : RelationEdgeSet}
    (distinct : (l.map relationIdentity).Nodup)
    (fresh : ∀ r ∈ l, relationIdentity r ∉ set.edges.map relationIdentity) :
    (l.foldl RelationEdgeSet.insert set).edges = set.edges ++ l := by
  induction l generalizing set with
  | nil => simp
  | cons r l ih =>
    obtain ⟨notLater, distinctTail⟩ := nodup_cons.1 distinct
    have here : (set.insert r).edges = set.edges ++ [r] := by
      rw [RelationEdgeSet.edges_insert, if_neg (fresh r mem_cons_self)]
    rw [foldl_cons, ih distinctTail, here, append_assoc]
    · rfl
    · intro s mem
      rw [here, map_append, mem_append, not_or]
      refine ⟨fresh s (mem_cons_of_mem _ mem), ?_⟩
      rw [map_singleton, mem_singleton]
      intro same
      exact notLater (same ▸ mem_map_of_mem mem)

theorem mem_patchEdges_fileRelationDiff {set : RelationEdgeSet}
    (fromOld : ∀ edge ∈ set.edges, edge ∈ edgesOf old.fileRelationIndex path)
    {edge : ResolvedRelation} :
    edge ∈ (patchEdges set (fileRelationDiff new old path)).edges ↔
      (edge ∈ set.edges ∧ KeptByFileDiff new path edge) ∨
        (edge ∈ edgesOf new.fileRelationIndex path ∧ ¬KeptByFileDiff old path edge) := by
  have sameOld : ∀ {left right}, left ∈ edgesOf old.fileRelationIndex path →
      right ∈ edgesOf old.fileRelationIndex path →
      relationIdentity left = relationIdentity right → left = right :=
    fun leftMem rightMem same =>
      inj_on_of_nodup_map (nodup_edgesOf _ _) leftMem rightMem same
  have listed : ∀ e ∈ set.edges, relationIdentity e ∉
      (fileRelationDiff new old path).removedRelations.map relationIdentity ↔
      KeptByFileDiff new path e := by
    intro e mem
    rw [mem_map, not_iff_comm]
    constructor
    · exact fun lost => ⟨e, mem_fileRelationDiff_removed.2 ⟨fromOld e mem, lost⟩, rfl⟩
    · rintro ⟨other, otherMem, same⟩
      obtain ⟨inOld, lost⟩ := mem_fileRelationDiff_removed.1 otherMem
      rw [← sameOld inOld (fromOld e mem) same]
      exact lost
  unfold patchEdges
  rw [edges_foldl_insert, mem_append, mem_fileRelationDiff_added,
    edges_foldl_removeByIdentity, mem_filter, decide_eq_true_eq]
  · exact or_congr_left (and_congr_right fun mem => listed edge mem)
  · exact (nodup_edgesOf new.fileRelationIndex path).sublist (filter_sublist.map relationIdentity)
  · intro fresh freshMem present
    obtain ⟨inNew, unkept⟩ := mem_fileRelationDiff_added.1 freshMem
    obtain ⟨e, eMem, same⟩ := mem_map.1 present
    rw [edges_foldl_removeByIdentity, mem_filter, decide_eq_true_eq] at eMem
    obtain ⟨other, otherMem, twin⟩ := (listed e eMem.1).1 eMem.2
    have equal : other = fresh :=
      inj_on_of_nodup_map (nodup_edgesOf _ _) otherMem inNew (twin.1.trans same)
    exact unkept ⟨e, fromOld e eMem.1, equal ▸ twin.symm⟩

end FileListing

end ContextEngine

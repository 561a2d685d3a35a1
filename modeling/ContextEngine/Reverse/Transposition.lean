/- digest: Exactly when every state of a run lists the callers of the forward edges. -/

import ContextEngine.Delta.EdgeRoundTrip
import ContextEngine.Delta.RecordRoundTrip
import ContextEngine.Index.Operations

set_option autoImplicit false

namespace ContextEngine

open List RelationIndex Runs

section ReverseTable

variable {table : ReverseTable} {callee callee' caller caller' : EntityId}

theorem mem_callersAt_trackReverseCaller :
    caller' ∈ callersAt (trackReverseCaller table callee caller) callee' ↔
      (callee' = callee ∧ caller' = caller) ∨ caller' ∈ callersAt table callee' := by
  unfold callersAt trackReverseCaller
  rw [HashMap.lookup_alter]
  by_cases same : callee' = callee
  · subst same
    simp only [if_true, Option.getD_some, true_and]
    exact SortedVec.mem_insert
  · simp [same]

theorem mem_callersAt_untrackReverseCaller :
    caller' ∈ callersAt (untrackReverseCaller table callee caller) callee' ↔
      ¬(callee' = callee ∧ caller' = caller) ∧ caller' ∈ callersAt table callee' := by
  unfold callersAt untrackReverseCaller
  rw [HashMap.lookup_alter]
  by_cases same : callee' = callee
  · subst same
    simp only [if_true, true_and]
    cases table.lookup callee' with
    | none =>
      have bare : caller' ∉ (∅ : SortedVec EntityId) := SortedVec.notMem_empty caller'
      exact iff_of_false bare fun both => bare both.2
    | some callers =>
      simp only [Option.getD_some]
      by_cases listed : caller ∈ callers
      · rw [if_pos listed]
        by_cases bare : (callers.erase caller).isEmpty = true
        · have gone := SortedVec.isEmpty_iff.1 bare caller'
          rw [if_pos bare]
          refine iff_of_false (SortedVec.notMem_empty _) fun both => ?_
          exact gone (SortedVec.mem_erase.2 both)
        · rw [if_neg bare]
          exact SortedVec.mem_erase
      · rw [if_neg listed]
        refine (and_iff_right_of_imp fun mem => ?_).symm
        rintro rfl
        exact listed mem
  · simp [same]

theorem mem_callersAt_erase {entityId : EntityId} :
    caller ∈ callersAt (table.erase entityId) callee ↔
      callee ≠ entityId ∧ caller ∈ callersAt table callee := by
  unfold callersAt
  rw [HashMap.lookup_erase_eq]
  by_cases same : callee = entityId
  · rw [if_pos same]
    exact iff_of_false (SortedVec.notMem_empty caller) fun both => both.1 same
  · rw [if_neg same]
    exact (and_iff_right same).symm

theorem mem_callersAt_foldl_untrackReverseCaller {l : List EntityId} :
    caller' ∈ callersAt (l.foldl (fun table callee => untrackReverseCaller table callee caller)
        table) callee' ↔
      ¬(callee' ∈ l ∧ caller' = caller) ∧ caller' ∈ callersAt table callee' := by
  refine Iff.trans (foldl_iff_and (caller' ∈ callersAt · callee')
    (fun table callee => @mem_callersAt_untrackReverseCaller table callee callee' caller caller')
    l table) ?_
  simp only [← and_assoc, exists_and_right, exists_eq_right']

theorem mem_callersAt_dropReverseEntity {resolved : ResolvedTable} {entityId : EntityId} :
    caller ∈ callersAt (dropReverseEntity resolved table entityId) callee ↔
      callee ≠ entityId ∧ caller ≠ entityId ∧ caller ∈ callersAt table callee := by
  let untracked := ((edgesOf resolved entityId).filterMap ResolvedRelation.calleeId).foldl
    (fun table callee => untrackReverseCaller table callee entityId) table
  let reverse : ReverseTable := untracked.erase entityId
  have listing : ∀ key, key ∈ (reverse.toList.filter fun entry => entityId ∈ entry.2).map
      Prod.fst ↔ entityId ∈ callersAt reverse key := by
    intro key
    simp only [mem_map, mem_filter, decide_eq_true_eq, Prod.exists, HashMap.mem_toList]
    unfold callersAt
    constructor
    · rintro ⟨_, callers, ⟨found, mem⟩, rfl⟩
      rw [found]
      exact mem
    · intro mem
      cases found : reverse.lookup key with
      | none =>
        rw [found] at mem
        exact absurd mem (SortedVec.notMem_empty _)
      | some callers =>
        rw [found] at mem
        exact ⟨key, callers, ⟨found, mem⟩, rfl⟩
  change caller ∈ callersAt (foldl _ reverse _) callee ↔ _
  rw [mem_callersAt_foldl_untrackReverseCaller, listing]
  constructor
  · rintro ⟨unlisted, mem⟩
    obtain ⟨other, inUntracked⟩ := mem_callersAt_erase.1 mem
    refine ⟨other, fun same => unlisted ⟨same ▸ mem, same⟩, ?_⟩
    exact (mem_callersAt_foldl_untrackReverseCaller.1 inUntracked).2
  · rintro ⟨other, distinct, mem⟩
    refine ⟨fun both => distinct both.2, mem_callersAt_erase.2 ⟨other, ?_⟩⟩
    exact mem_callersAt_foldl_untrackReverseCaller.2 ⟨fun both => distinct both.2, mem⟩

private theorem mem_callersAt_foldl_track {l : List ResolvedRelation} :
    caller' ∈ callersAt (l.foldl (fun table relation =>
          match relation.calleeId with
          | some callee => trackReverseCaller table callee caller
          | none => table)
        table) callee' ↔
      (caller' = caller ∧ ∃ r ∈ l, r.calleeId = some callee') ∨
        caller' ∈ callersAt table callee' := by
  have one : ∀ (table : ReverseTable) (r : ResolvedRelation),
      caller' ∈ callersAt (match r.calleeId with
          | some callee => trackReverseCaller table callee caller
          | none => table) callee' ↔
        (caller' = caller ∧ r.calleeId = some callee') ∨ caller' ∈ callersAt table callee' := by
    intro table r
    cases r.calleeId with
    | none => simp
    | some callee =>
      rw [mem_callersAt_trackReverseCaller, Option.some.injEq, and_comm, eq_comm (a := callee')]
  rw [foldl_iff_or (fun table => caller' ∈ callersAt table callee') one]
  simp only [exists_and_left, and_left_comm]

theorem mem_callersAt_rebuildReverseCalleeIndex {index : RelationIndex} :
    caller ∈ callersAt index.rebuildReverseCalleeIndex.reverseCalleeIndex callee ↔
      stillCalls index.resolvedRelationIndex caller callee = true := by
  unfold RelationIndex.rebuildReverseCalleeIndex
  rw [foldl_iff_or (fun table => caller ∈ callersAt table callee)
    fun table entry => @mem_callersAt_foldl_track table callee entry.1 caller entry.2.edges,
    stillCalls_iff_entry]
  exact or_iff_left (SortedVec.notMem_empty caller)

end ReverseTable

section Gaps

/-- The reverse table lists exactly the callers of the forward edges, except in the gap. -/
def MissingAt (gap : EntityId → EntityId → Prop) (index : RelationIndex) : Prop :=
  ∀ callee caller, caller ∈ callersAt index.reverseCalleeIndex callee ↔
    ¬gap callee caller ∧ stillCalls index.resolvedRelationIndex caller callee = true

/-- The reverse table is the transpose of the forward table. -/
def ReverseTransposed (index : RelationIndex) : Prop :=
  ∀ callee caller, caller ∈ callersAt index.reverseCalleeIndex callee ↔
    stillCalls index.resolvedRelationIndex caller callee = true

variable {gap : EntityId → EntityId → Prop} {index : RelationIndex}

theorem reverseTransposed_iff_missingAt :
    ReverseTransposed index ↔ MissingAt (fun _ _ => False) index := by
  unfold ReverseTransposed MissingAt
  simp only [not_false_eq_true, true_and]

theorem MissingAt.transposed_iff (missing : MissingAt gap index) :
    ReverseTransposed index ↔ ∀ callee caller, gap callee caller →
        stillCalls index.resolvedRelationIndex caller callee = false := by
  constructor
  · intro transposed callee caller inGap
    refine Bool.eq_false_iff.2 fun calls => ?_
    exact ((missing callee caller).1 ((transposed callee caller).2 calls)).1 inGap
  · intro closed callee caller
    rw [missing]
    refine and_iff_right_of_imp fun calls inGap => ?_
    rw [closed callee caller inGap] at calls
    cases calls

theorem MissingAt.congr {other : RelationIndex} (missing : MissingAt gap index)
    (reverse : other.reverseCalleeIndex = index.reverseCalleeIndex)
    (forward : other.resolvedRelationIndex = index.resolvedRelationIndex) :
    MissingAt gap other := by
  intro callee caller
  rw [reverse, forward]
  exact missing callee caller

variable {caller callee : EntityId}

theorem stillCalls_congr {table table' : ResolvedTable}
    (same : edgesOf table caller = edgesOf table' caller) :
    stillCalls table caller callee = stillCalls table' caller callee := by
  unfold stillCalls
  rw [same]

theorem MissingAt.rebuildReverseCalleeIndex (index : RelationIndex) :
    MissingAt (fun _ _ => False) index.rebuildReverseCalleeIndex := by
  intro callee caller
  rw [not_false_eq_true, true_and]
  exact mem_callersAt_rebuildReverseCalleeIndex

theorem MissingAt.applyRemovedEntity [Sha256] (missing : MissingAt gap index)
    (entityId : EntityId) :
    MissingAt (fun callee caller => gap callee caller ∨ callee = entityId)
      (applyRemovedEntity index entityId) := by
  intro callee caller
  change caller ∈ callersAt (dropReverseEntity index.resolvedRelationIndex
    index.reverseCalleeIndex entityId) callee ↔ _ ∧
      stillCalls (dropResolvedEntity index.resolvedRelationIndex entityId) caller callee = true
  rw [mem_callersAt_dropReverseEntity, missing]
  have forward := edgesOf_dropResolvedEntity index.resolvedRelationIndex entityId caller
  by_cases own : caller = entityId
  · rw [if_pos own] at forward
    have none : stillCalls (dropResolvedEntity index.resolvedRelationIndex entityId) caller
        callee = false := by
      unfold stillCalls
      rw [forward]
      rfl
    rw [none]
    exact iff_of_false (fun all => all.2.1 own) fun both => Bool.false_ne_true both.2
  · rw [if_neg own] at forward
    rw [stillCalls_congr forward]
    tauto

theorem MissingAt.applyRemovedEntities [Sha256] (missing : MissingAt gap index)
    (removed : List EntityId) :
    MissingAt (fun callee caller => gap callee caller ∨ callee ∈ removed)
      (applyRemovedEntities index removed) := by
  induction removed generalizing gap index with
  | nil =>
    simp only [not_mem_nil, or_false]
    exact missing
  | cons entityId removed ih =>
    have rest := ih (missing.applyRemovedEntity entityId)
    simp only [mem_cons, ← or_assoc]
    exact rest

theorem edgesOf_removeEntityRelations (index : RelationIndex) (entityId caller : EntityId) :
    edgesOf (index.removeEntityRelations entityId).resolvedRelationIndex caller =
      if caller = entityId then [] else edgesOf index.resolvedRelationIndex caller := by
  change edgesOf ((calleeIds index.resolvedRelationIndex entityId).foldl
    (fun table callee => dropEmbeddedCaller table callee entityId)
    (index.resolvedRelationIndex.erase entityId)) caller = _
  rw [edgesOf_foldl_dropEmbeddedCaller, edgesOf_erase]

theorem MissingAt.removeEntityRelations (missing : MissingAt gap index) (entityId : EntityId) :
    MissingAt (fun callee caller => gap callee caller ∨ callee = entityId)
      (index.removeEntityRelations entityId) := by
  intro callee caller
  have forward := edgesOf_removeEntityRelations index entityId caller
  change caller ∈ callersAt ((foldl _ index.reverseCalleeIndex
    (calleeIds index.resolvedRelationIndex entityId)).erase entityId) callee ↔ _
  rw [mem_callersAt_erase, mem_callersAt_foldl_untrackReverseCaller, missing]
  by_cases own : caller = entityId
  · rw [if_pos own] at forward
    have none : stillCalls (index.removeEntityRelations entityId).resolvedRelationIndex caller
        callee = false := by
      unfold stillCalls
      rw [forward]
      rfl
    rw [none]
    refine iff_of_false (fun all => ?_) fun both => Bool.false_ne_true both.2
    obtain ⟨edge, mem, hit⟩ := stillCalls_iff.1 all.2.2.2
    exact all.2.1 ⟨mem_filterMap.2 ⟨edge, own ▸ mem, hit⟩, own⟩
  · rw [if_neg own] at forward
    rw [stillCalls_congr forward]
    tauto

theorem MissingAt.foldl_removeEntityRelations (missing : MissingAt gap index)
    (removed : List EntityId) :
    MissingAt (fun callee caller => gap callee caller ∨ callee ∈ removed)
      (removed.foldl RelationIndex.removeEntityRelations index) := by
  induction removed generalizing gap index with
  | nil =>
    simp only [not_mem_nil, or_false]
    exact missing
  | cons entityId removed ih =>
    have rest := ih (missing.removeEntityRelations entityId)
    simp only [mem_cons, ← or_assoc]
    exact rest

/-- Removing an edge keeps the gap: the reverse entry goes with the last parallel edge. -/
theorem MissingAt.applyRemovedRelation (missing : MissingAt gap index)
    (relation : ResolvedRelation) : MissingAt gap (applyRemovedRelation index relation) := by
  intro callee caller
  have forward := edgesOf_removeRelation index.resolvedRelationIndex relation caller
  have cut : ∀ c, edgesOf (removeEdge index.resolvedRelationIndex relation) c =
      edgesOf (removeRelation index.resolvedRelationIndex relation) c := by
    intro c
    unfold removeRelation
    cases relation.calleeId with
    | none => rfl
    | some target =>
      simp only
      split_ifs
      · rfl
      · rw [edgesOf_dropEmbeddedCaller]
  have calls : ∀ c e, (c = relation.caller → relation.calleeId ≠ some e) →
      stillCalls (removeRelation index.resolvedRelationIndex relation) c e =
        stillCalls index.resolvedRelationIndex c e := by
    intro c e other
    rw [Bool.eq_iff_iff, stillCalls_iff, stillCalls_iff, edgesOf_removeRelation]
    split_ifs with own
    · refine exists_congr fun edge => and_congr_left fun hit => ?_
      rw [mem_filter, decide_eq_true_eq, and_iff_left_iff_imp]
      rintro - same
      exact other own ((calleeId_eq_of_relationIdentity_eq same).symm.trans hit)
    · rfl
  simp only [ContextEngine.applyRemovedRelation]
  cases target : relation.calleeId with
  | none =>
    rw [calls caller callee fun _ => by simp [target]]
    exact missing callee caller
  | some e =>
    simp only [maybeUntrackReverseCaller]
    rw [stillCalls_congr (cut relation.caller)]
    by_cases pair : caller = relation.caller ∧ callee = e
    · obtain ⟨rfl, rfl⟩ := pair
      split_ifs with still
      · rw [missing, still]
        have before : stillCalls index.resolvedRelationIndex relation.caller callee = true := by
          obtain ⟨edge, mem, hit⟩ := stillCalls_iff.1 still
          rw [edgesOf_removeRelation, if_pos rfl] at mem
          exact stillCalls_iff.2 ⟨edge, (mem_filter.1 mem).1, hit⟩
        rw [before]
      · rw [mem_callersAt_untrackReverseCaller]
        exact iff_of_false (fun both => both.1 ⟨rfl, rfl⟩) fun both => still both.2
    · have other : caller = relation.caller → relation.calleeId ≠ some callee := by
        rw [target]
        rintro own same
        exact pair ⟨own, (Option.some.inj same).symm⟩
      rw [calls caller callee other]
      split_ifs
      · exact missing callee caller
      · rw [mem_callersAt_untrackReverseCaller, missing]
        exact and_iff_right fun both => pair ⟨both.2, both.1⟩

theorem MissingAt.applyRemovedRelations (missing : MissingAt gap index)
    (removed : List ResolvedRelation) : MissingAt gap (applyRemovedRelations index removed) := by
  induction removed generalizing index with
  | nil => exact missing
  | cons relation removed ih => exact ih (missing.applyRemovedRelation relation)

theorem stillCalls_addEdge {table : ResolvedTable} {relation : ResolvedRelation} :
    stillCalls (addEdge table relation.caller relation) caller callee = true ↔
      stillCalls table caller callee = true ∨
        (relation.caller = caller ∧ relation.calleeId = some callee) := by
  rw [stillCalls_iff, stillCalls_iff, edgesOf_addEdge]
  by_cases own : caller = relation.caller
  · subst own
    by_cases present : hasEdge table relation.caller relation = true
    · rw [if_neg (by simp [present])]
      refine (or_iff_left_of_imp ?_).symm
      rintro ⟨-, hit⟩
      obtain ⟨edge, mem, same⟩ := mem_map.1 (hasEdge_iff.1 present)
      exact ⟨edge, mem, (calleeId_eq_of_relationIdentity_eq same).trans hit⟩
    · rw [if_pos ⟨rfl, Bool.eq_false_iff.2 present⟩]
      simp only [mem_append, mem_singleton, or_and_right, exists_or, exists_eq_left, true_and]
  · rw [if_neg fun both => own both.1]
    exact (or_iff_left fun both => own both.1.symm).symm

/-- Filing an edge anew closes the gap at its own pair. -/
theorem MissingAt.addResolvedRelation (missing : MissingAt gap index)
    (relation : ResolvedRelation) :
    MissingAt (fun callee caller => gap callee caller ∧
        (relation.caller = caller → relation.calleeId = some callee →
          hasEdge index.resolvedRelationIndex caller relation = true))
      (index.addResolvedRelation relation) := by
  intro callee caller
  change caller ∈ callersAt (if hasEdge index.resolvedRelationIndex relation.caller relation then
    index.reverseCalleeIndex
    else match relation.calleeId with
      | some callee => trackReverseCaller index.reverseCalleeIndex callee relation.caller
      | none => index.reverseCalleeIndex) callee ↔ _ ∧
    stillCalls (addEdge index.resolvedRelationIndex relation.caller relation) caller callee = true
  rw [stillCalls_addEdge]
  by_cases present : hasEdge index.resolvedRelationIndex relation.caller relation = true
  · have before : relation.caller = caller ∧ relation.calleeId = some callee →
        stillCalls index.resolvedRelationIndex caller callee = true := by
      rintro ⟨rfl, hit⟩
      obtain ⟨edge, mem, same⟩ := mem_map.1 (hasEdge_iff.1 present)
      exact stillCalls_iff.2 ⟨edge, mem, (calleeId_eq_of_relationIdentity_eq same).trans hit⟩
    rw [if_pos present, missing, or_iff_left_of_imp before]
    refine and_congr_left fun _ => not_congr ?_
    refine (and_iff_left ?_).symm
    rintro rfl -
    exact present
  · rw [if_neg present]
    by_cases pair : relation.caller = caller ∧ relation.calleeId = some callee
    · obtain ⟨rfl, hit⟩ := pair
      rw [hit]
      simp only [mem_callersAt_trackReverseCaller]
      refine iff_of_true (Or.inl ⟨trivial, trivial⟩) ⟨fun both => ?_, Or.inr ⟨trivial, trivial⟩⟩
      exact present (both.2 trivial trivial)
    · have listed : caller ∈ callersAt (match relation.calleeId with
          | some callee => trackReverseCaller index.reverseCalleeIndex callee relation.caller
          | none => index.reverseCalleeIndex) callee ↔
            caller ∈ callersAt index.reverseCalleeIndex callee := by
        cases target : relation.calleeId with
        | none => rfl
        | some e =>
          simp only [mem_callersAt_trackReverseCaller]
          refine or_iff_right ?_
          rintro ⟨rfl, rfl⟩
          exact pair ⟨rfl, target⟩
      rw [listed, missing, or_iff_left pair]
      refine and_congr_left fun _ => not_congr ?_
      exact (and_iff_left fun own hit => absurd ⟨own, hit⟩ pair).symm

theorem MissingAt.applyAddedRelations (missing : MissingAt gap index)
    (added : List ResolvedRelation) :
    MissingAt (fun callee caller => gap callee caller ∧
        ∀ a ∈ added, a.caller = caller → a.calleeId = some callee →
          hasEdge index.resolvedRelationIndex caller a = true)
      (applyAddedRelations index added) := by
  induction added generalizing gap index with
  | nil =>
    simp only [not_mem_nil, false_implies, implies_true, and_true]
    exact missing
  | cons relation added ih =>
    have rest := ih (missing.addResolvedRelation relation)
    refine fun callee caller => (rest callee caller).trans (and_congr_left fun _ =>
      not_congr ?_)
    simp only
    rw [forall_mem_cons, and_assoc]
    refine and_congr_right fun _ => and_congr_right fun first => forall₄_congr fun a _ own hit => ?_
    -- an edge filed by the first addition has the identity of one that stood before
    change hasEdge (addEdge index.resolvedRelationIndex relation.caller relation) caller a =
      true ↔ _
    rw [hasEdge_iff, hasEdge_iff, edgesOf_addEdge]
    split_ifs with fresh
    · obtain ⟨rfl, absent⟩ := fresh
      rw [map_append, mem_append, map_singleton, mem_singleton]
      refine or_iff_left_of_imp fun same => ?_
      have target := (calleeId_eq_of_relationIdentity_eq same).symm.trans hit
      rw [first rfl target] at absent
      cases absent
    · rfl

theorem stillCalls_applyAddedRelations {added : List ResolvedRelation} :
    stillCalls (applyAddedRelations index added).resolvedRelationIndex caller callee = true ↔
      stillCalls index.resolvedRelationIndex caller callee = true ∨
        ∃ a ∈ added, a.caller = caller ∧ a.calleeId = some callee := by
  induction added generalizing index with
  | nil => simp [applyAddedRelations]
  | cons relation added ih =>
    change stillCalls (applyAddedRelations (index.addResolvedRelation relation)
      added).resolvedRelationIndex caller callee = true ↔ _
    rw [ih, exists_mem_cons_iff, ← or_assoc]
    exact or_congr_left stillCalls_addEdge

end Gaps

section Steps

variable [Sha256]

/-- A delta with renames rebuilds the reverse table. Without renames, every edge that survives
the removals of its delta and leads into an entity the delta removes has a parallel edge that
the delta files anew. -/
def DeltaClosesGaps (index : RelationIndex) (delta : SnapshotDelta) : Prop :=
  delta.renamedEntities = [] →
    ∀ callee ∈ delta.removedEntities, ∀ caller ∉ delta.removedEntities,
      ∀ edge ∈ edgesOf index.resolvedRelationIndex caller, edge.calleeId = some callee →
        relationIdentity edge ∉ delta.removedRelations.map relationIdentity →
          ∃ added ∈ delta.addedRelations, added.caller = caller ∧ added.calleeId = some callee ∧
            ∀ other ∈ edgesOf index.resolvedRelationIndex caller,
              relationIdentity other = relationIdentity added →
                relationIdentity other ∈ delta.removedRelations.map relationIdentity

def NoIncomingEdges (index : RelationIndex) (fileId : String) : Prop :=
  ∀ callee, index.entityFileIndex.lookup callee = some fileId →
    ∀ caller, index.entityFileIndex.lookup caller ≠ some fileId →
      ∀ edge ∈ edgesOf index.resolvedRelationIndex caller, edge.calleeId ≠ some callee

/-- What an operation needs to leave the reverse table transposed. -/
def LeavesTransposed (index : RelationIndex) : IndexOp → Prop
  | .removeFile fileId => NoIncomingEdges index fileId
  | .applyDelta delta => DeltaClosesGaps index delta
  | _ => True

omit [Sha256] in
theorem edgesOf_foldl_removeEntityRelations (index : RelationIndex) (removed : List EntityId)
    (caller : EntityId) :
    edgesOf (removed.foldl RelationIndex.removeEntityRelations index).resolvedRelationIndex caller =
      if caller ∈ removed then [] else edgesOf index.resolvedRelationIndex caller := by
  induction removed generalizing index with
  | nil => simp
  | cons entityId removed ih =>
    rw [foldl_cons, ih, edgesOf_removeEntityRelations]
    by_cases own : caller = entityId <;> simp [own]

variable {index : RelationIndex}

section

variable (transposed : ReverseTransposed index)

include transposed

theorem reverseTransposed_removeFile_iff (fileId : String) :
    ReverseTransposed (index.removeFile fileId) ↔ NoIncomingEdges index fileId := by
  let ids := index.getEntityIdsByFile fileId
  let functions := ids.foldl removeFunction index
  let members := { functions with entityFileIndex := functions.entityFileIndex.eraseAll ids }
  let symbols := ids.foldl removeStableSymbol members
  let relations := ids.foldl RelationIndex.removeEntityRelations symbols
  have reverse : symbols.reverseCalleeIndex = index.reverseCalleeIndex :=
    (foldl_frame reverseCalleeIndex removeStableSymbol
      (frame_removeStableSymbol _ fun _ _ _ _ => rfl) ids members).trans
        (foldl_frame reverseCalleeIndex removeFunction (fun _ _ => rfl) ids index)
  have forward : symbols.resolvedRelationIndex = index.resolvedRelationIndex :=
    (foldl_frame resolvedRelationIndex removeStableSymbol
      (frame_removeStableSymbol _ fun _ _ _ _ => rfl) ids members).trans
        (foldl_frame resolvedRelationIndex removeFunction (fun _ _ => rfl) ids index)
  have missing : MissingAt (fun callee _ => callee ∈ ids) relations := by
    have start := (reverseTransposed_iff_missingAt.1 transposed).congr reverse forward
    have after := start.foldl_removeEntityRelations ids
    simp only [false_or] at after
    exact after
  have final : MissingAt (fun callee _ => callee ∈ ids) (index.removeFile fileId) :=
    missing.congr rfl rfl
  have edges : ∀ caller, edgesOf (index.removeFile fileId).resolvedRelationIndex caller =
      if caller ∈ ids then [] else edgesOf index.resolvedRelationIndex caller := by
    intro caller
    rw [← forward]
    exact edgesOf_foldl_removeEntityRelations symbols ids caller
  rw [final.transposed_iff]
  refine forall_congr' fun callee => ?_
  constructor
  · intro closed inFile caller outside edge mem hit
    have noneLeft := closed caller (mem_getEntityIdsByFile.2 inFile)
    have stays : caller ∉ ids := fun inIds => outside (mem_getEntityIdsByFile.1 inIds)
    have calls : stillCalls (index.removeFile fileId).resolvedRelationIndex caller callee =
        true := by
      rw [stillCalls_iff, edges, if_neg stays]
      exact ⟨edge, mem, hit⟩
    rw [noneLeft] at calls
    cases calls
  · intro noIncoming caller inIds
    refine Bool.eq_false_iff.2 fun calls => ?_
    obtain ⟨edge, mem, hit⟩ := stillCalls_iff.1 calls
    rw [edges] at mem
    split_ifs at mem with gone
    · cases mem
    · refine noIncoming (mem_getEntityIdsByFile.1 inIds) caller (fun inFile => ?_) edge mem hit
      exact gone (mem_getEntityIdsByFile.2 inFile)

private theorem missingAt_cut (delta : SnapshotDelta) :
    MissingAt (fun callee _ => delta.renamedEntities = [] ∧ callee ∈ delta.removedEntities)
      (applyRemovedRelations (applyAddedEntities (replayLosses index delta) delta.addedEntities)
        delta.removedRelations) := by
  let files := applyAddedFiles (applyRemovedFiles index delta.removedFiles) delta.addedFiles
  have start : MissingAt (fun _ _ => False) files :=
    (reverseTransposed_iff_missingAt.1 transposed).congr
      (frame_applyFiles index reverseCalleeIndex (fun _ _ => rfl) (fun _ _ => rfl) _ _)
      (frame_applyFiles index resolvedRelationIndex (fun _ _ => rfl) (fun _ _ => rfl) _ _)
  have losses : MissingAt
      (fun callee _ => delta.renamedEntities = [] ∧ callee ∈ delta.removedEntities)
      (replayLosses index delta) := by
    unfold replayLosses applyRenamedEntities
    split_ifs with none
    · have noRenames := isEmpty_iff.1 none
      have removals := start.applyRemovedEntities delta.removedEntities
      simp only [false_or] at removals
      simp only [noRenames, true_and]
      exact removals
    · have renames : delta.renamedEntities ≠ [] := fun nil => none (isEmpty_iff.2 nil)
      simp only [renames, false_and]
      exact MissingAt.rebuildReverseCalleeIndex _
  have entities := losses.congr
    (foldl_frame reverseCalleeIndex applyAddedEntity (fun _ _ => rfl) delta.addedEntities _)
    (foldl_frame resolvedRelationIndex applyAddedEntity (fun _ _ => rfl) delta.addedEntities _)
  exact entities.applyRemovedRelations delta.removedRelations

theorem reverseTransposed_applyDelta_iff (delta : SnapshotDelta) :
    ReverseTransposed (applyDelta index delta) ↔ DeltaClosesGaps index delta := by
  let entities := applyAddedEntities (replayLosses index delta) delta.addedEntities
  let cut := applyRemovedRelations entities delta.removedRelations
  have frames : ∀ {β : Type} (field : RelationIndex → β),
      (∀ index diff, field (applyFileRelationDiff index diff) = field index) →
      (∀ index diff, field (applyImportDiff index diff) = field index) →
      (∀ index diff, field (applyExportDiff index diff) = field index) →
      (∀ index diffs, field (applyDependencyDiffs index diffs) = field index) →
      field (applyDelta index delta) = field (applyAddedRelations cut delta.addedRelations) := by
    intro β field fileRelations imports exports dependencies
    exact ((dependencies _ _).trans (foldl_frame field applyExportDiff exports _ _)).trans
      ((foldl_frame field applyImportDiff imports _ _).trans
        (foldl_frame field applyFileRelationDiff fileRelations _ _))
  have forward := frames resolvedRelationIndex (fun _ _ => rfl) (fun _ _ => rfl) (fun _ _ => rfl)
    fun _ _ => rfl
  have reverse := frames reverseCalleeIndex (fun _ _ => rfl) (fun _ _ => rfl) (fun _ _ => rfl)
    fun _ _ => rfl
  have missing := ((missingAt_cut transposed delta).applyAddedRelations
    delta.addedRelations).congr reverse forward
  have cutEdges : ∀ caller, delta.renamedEntities = [] → edgesOf cut.resolvedRelationIndex caller =
        (if caller ∈ delta.removedEntities then []
          else edgesOf index.resolvedRelationIndex caller).filter fun edge =>
            relationIdentity edge ∉ delta.removedRelations.map relationIdentity := by
    intro caller noRenames
    have sameEntities : entities.resolvedRelationIndex =
        (replayLosses index delta).resolvedRelationIndex :=
      foldl_frame resolvedRelationIndex applyAddedEntity (fun _ _ => rfl) _ _
    rw [edgesOf_applyRemovedRelations, sameEntities, replayLosses, edgesOf_applyRenamedEntities,
      noRenames, edgesOf_applyRemovedEntities,
      frame_applyFiles index resolvedRelationIndex (fun _ _ => rfl) (fun _ _ => rfl)]
    rfl
  rw [missing.transposed_iff]
  constructor
  · intro closed noRenames callee removed caller stays edge mem hit unlisted
    -- otherwise the surviving edge itself is a pair of the gap that is still connected
    by_contra noneFiled
    have standing : edge ∈ edgesOf cut.resolvedRelationIndex caller := by
      rw [cutEdges caller noRenames, if_neg stays]
      exact mem_filter.2 ⟨mem, decide_eq_true unlisted⟩
    have noneLeft := closed callee caller ⟨⟨noRenames, removed⟩, fun added inAdded own target => by
      by_contra absent
      refine noneFiled ⟨added, inAdded, own, target, fun other otherMem same => ?_⟩
      by_contra kept
      refine absent (hasEdge_iff.2 (mem_map.2 ⟨other, ?_, same⟩))
      rw [cutEdges caller noRenames, if_neg stays]
      exact mem_filter.2 ⟨otherMem, decide_eq_true kept⟩⟩
    have calls : stillCalls (applyDelta index delta).resolvedRelationIndex caller callee =
        true := by
      rw [forward]
      exact stillCalls_applyAddedRelations.2 (Or.inl (stillCalls_iff.2 ⟨edge, standing, hit⟩))
    rw [noneLeft] at calls
    cases calls
  · rintro closes callee caller ⟨⟨noRenames, removed⟩, present⟩
    refine Bool.eq_false_iff.2 fun calls => ?_
    rw [forward] at calls
    have standing : stillCalls cut.resolvedRelationIndex caller callee = true := by
      rcases stillCalls_applyAddedRelations.1 calls with before | ⟨added, mem, own, target⟩
      · exact before
      · obtain ⟨other, otherMem, same⟩ :=
          mem_map.1 (hasEdge_iff.1 (present added mem own target))
        exact stillCalls_iff.2
          ⟨other, otherMem, (calleeId_eq_of_relationIdentity_eq same).trans target⟩
    obtain ⟨edge, mem, hit⟩ := stillCalls_iff.1 standing
    rw [cutEdges caller noRenames] at mem
    obtain ⟨inOld, unlisted⟩ := mem_filter.1 mem
    split_ifs at inOld with gone
    · cases inOld
    · obtain ⟨added, addedMem, own, target, fresh⟩ := closes noRenames callee removed caller gone
        edge inOld hit (of_decide_eq_true unlisted)
      obtain ⟨other, otherMem, same⟩ :=
        mem_map.1 (hasEdge_iff.1 (present added addedMem own target))
      rw [cutEdges caller noRenames, if_neg gone] at otherMem
      obtain ⟨otherOld, kept⟩ := mem_filter.1 otherMem
      exact of_decide_eq_true kept (fresh other otherOld same)

theorem reverseTransposed_applyOp_iff (op : IndexOp) :
    ReverseTransposed (index.applyOp op) ↔ LeavesTransposed index op := by
  have missing := reverseTransposed_iff_missingAt.1 transposed
  cases op with
  | insertFunction entityId entity => exact iff_of_true transposed trivial
  | addFunctionWithPath entityId entity filePath => exact iff_of_true transposed trivial
  | registerSymbolKey filePath scopedName entity entityId => exact iff_of_true transposed trivial
  | addResolvedRelation relation =>
    refine iff_of_true (reverseTransposed_iff_missingAt.2 ?_) trivial
    have after := missing.addResolvedRelation relation
    simp only [false_and] at after
    exact after
  | addFileRelation filePath relation => exact iff_of_true transposed trivial
  | removeFunction entityId => exact iff_of_true transposed trivial
  | removeFile fileId => exact reverseTransposed_removeFile_iff transposed fileId
  | applyDelta delta => exact reverseTransposed_applyDelta_iff transposed delta
  | rebuildReverseCalleeIndex =>
    refine iff_of_true (reverseTransposed_iff_missingAt.2 ?_) trivial
    exact MissingAt.rebuildReverseCalleeIndex index
  | rebuildFileCallerIndex => exact iff_of_true transposed trivial

end

/-- The file-level reverse table lists exactly the files with a file-level edge to the callee. -/
def FileReverseTransposed (index : RelationIndex) : Prop :=
  ∀ callee path, path ∈ index.fileCallersByCallee.members callee ↔
    ∃ edge ∈ edgesOf index.fileRelationIndex path, edge.calleeId = some callee

/-- Both reverse tables are transposes of the forward tables in every state a run passes exactly
when every step leaves the entity-level table transposed. -/
theorem transposed_run_iff (ops : List IndexOp) :
    (∀ reached, reached <+: ops →
      ReverseTransposed (run reached) ∧ FileReverseTransposed (run reached)) ↔
      EveryStep applyOp LeavesTransposed new ops := by
  have start : ReverseTransposed new := by
    intro callee caller
    refine iff_of_false (SortedVec.notMem_empty caller) fun calls => ?_
    cases calls
  have step_iff : ∀ index op, ReverseTransposed index →
      (ReverseTransposed (applyOp index op) ↔ LeavesTransposed index op) :=
    fun _ op transposed => reverseTransposed_applyOp_iff transposed op
  rw [← invariant_iff step_iff start]
  refine forall₂_congr fun reached _ => and_iff_left fun callee path => ?_
  rw [(run reached).fileCallersTransposed.mem_iff, stillCalls_iff]

end Steps

section Sample

def calleeFileRemoved : List (@IndexOp) :=
  [.addFunctionWithPath 1 (functionAt 1 "main" 1) "src/a.rs",
    .addFunctionWithPath 2 (functionAt 2 "run" 7) "src/b.rs",
    .addResolvedRelation
      { caller := 1
        calleeId := some 2
        calleeName := "run"
        relationType := .directCall
        span := rowSpan 2 2
        callFrequency := 1 },
    .removeFile "src/b.rs"]

/-- The edge into the removed file stays with its caller, but its reverse entry is gone. -/
theorem calleeFileRemoved_not_transposed :
    ¬ReverseTransposed (@run sampleSha256 calleeFileRemoved) := by
  let _ := sampleSha256
  intro transposed
  exact absurd ((transposed 2 1).2 (by decide)) (by decide)

end Sample

end ContextEngine

/- digest: When the edge queries of a layered snapshot answer as the index with its chain replayed.
   -/

import ContextEngine.Index.SnapshotQuery
import ContextEngine.Reverse.Transposition

set_option autoImplicit false

namespace ContextEngine

open List RelationIndex Runs

section Listing

variable {index : RelationIndex}

theorem mem_allRelations {edge : ResolvedRelation} :
    edge ∈ index.allRelations ↔ edge ∈ edgesOf index.resolvedRelationIndex edge.caller := by
  have listed := @mem_flatMap_edges _ index.edgesFiled (fun _ => true) edge
  rw [filter_true, and_iff_left rfl] at listed
  exact listed

theorem nodup_allRelations (index : RelationIndex) :
    (index.allRelations.map relationIdentity).Nodup := by
  have distinct := nodup_flatMap_edges index.edgesFiled (fun _ => true)
  rw [filter_true] at distinct
  exact distinct

theorem mem_getRelationsByClassification {classes : ExternalCallType}
    {edge : ResolvedRelation} :
    edge ∈ index.getRelationsByClassification classes ↔
      edge ∈ edgesOf index.resolvedRelationIndex edge.caller ∧
        edge.externalType = some classes := by
  unfold getRelationsByClassification
  rw [mem_filter, mem_allRelations, decide_eq_true_eq]

theorem nodup_getRelationsByClassification (classes : ExternalCallType) :
    (index.getRelationsByClassification classes).Nodup :=
  (nodup_allRelations index).of_map.filter _

theorem lookup_getClassificationStats (classes : ExternalCallType) :
    index.getClassificationStats.lookup classes =
      if Overlay.occurrences ResolvedRelation.externalType index.allRelations classes = 0
      then none
      else some (Overlay.occurrences ResolvedRelation.externalType index.allRelations classes) := by
  have counted := @Overlay.lookup_foldl_tally _ _ _ ResolvedRelation.externalType ∅
    index.allRelations classes
  rw [AList.lookup_empty, Option.getD_none, Nat.zero_add] at counted
  exact counted

end Listing

section Published

variable (snapshot : RelationSnapshotIndex)

theorem RelationSnapshotIndex.getResolvedRelationsByCaller_eq (callerId : EntityId) :
    snapshot.getResolvedRelationsByCaller callerId =
      snapshot.index.getResolvedRelationsByCaller callerId := by
  let rows := snapshot.index.resolvedRelationIndex.toList.map fun entry => (entry.1, entry.2.edges)
  have stored : snapshot.queryOptimized.getCallees callerId =
      snapshot.index.getResolvedRelationsByCaller callerId := by
    show ((∅ : HashMap EntityId (List ResolvedRelation)).extend rows).lookup callerId =
      (snapshot.index.resolvedRelationIndex.lookup callerId).map RelationEdgeSet.edges
    cases found : snapshot.index.resolvedRelationIndex.lookup callerId with
    | none =>
      refine HashMap.lookup_extend_of_notMem fun listed => ?_
      obtain ⟨⟨key, edges⟩, row, rfl⟩ := mem_map.1 listed
      obtain ⟨entry, entryMem, same⟩ := mem_map.1 row
      have present := HashMap.mem_toList.1 entryMem
      rw [congrArg Prod.fst same, found] at present
      cases present
    | some set =>
      refine HashMap.lookup_extend_of_mem
        (mem_map.2 ⟨(callerId, set), HashMap.mem_toList.2 found, rfl⟩) fun edges row => ?_
      obtain ⟨entry, entryMem, same⟩ := mem_map.1 row
      have present := HashMap.mem_toList.1 entryMem
      rw [congrArg Prod.fst same, found] at present
      exact (congrArg Prod.snd same).symm.trans
        (congrArg RelationEdgeSet.edges (Option.some.inj present)).symm
  unfold RelationSnapshotIndex.getResolvedRelationsByCaller
  rw [stored]
  cases snapshot.index.getResolvedRelationsByCaller callerId <;> rfl

theorem boundedCallers_eq {callers : List EntityId} {listed : SortedVec EntityId}
    (same : ∀ caller, caller ∈ callers ↔ caller ∈ listed) :
    boundedCallers callers = listed.toList.take maxReverseFanin := by
  have equal : (SortedVec.ofList callers).toList = listed.toList :=
    SortedVec.toList_eq_of_mem_iff fun caller => SortedVec.mem_ofList.trans (same caller)
  rw [boundedCallers, equal]

theorem mem_bucket_reversePairs {index : RelationIndex} {callee caller : EntityId} :
    caller ∈ ((QueryOptimizedIndex.reversePairs index.resolvedRelationIndex).foldl
        (fun table pair => table.bucketPush pair.1 pair.2)
        (∅ : HashMap EntityId (List EntityId))).bucket callee ↔
      stillCalls index.resolvedRelationIndex caller callee = true := by
  rw [HashMap.bucket_foldl_bucketPush, stillCalls_iff]
  show caller ∈ [] ++ _ ↔ _
  rw [nil_append, mem_map]
  unfold QueryOptimizedIndex.reversePairs
  constructor
  · rintro ⟨⟨callee', caller'⟩, listed, rfl⟩
    obtain ⟨inPairs, here⟩ := mem_filter.1 listed
    obtain ⟨⟨key, set⟩, entry, row⟩ := mem_flatMap.1 inPairs
    obtain ⟨edge, edgeMem, ends⟩ := mem_filterMap.1 row
    obtain ⟨target, hit, pair⟩ := Option.map_eq_some_iff.1 ends
    obtain ⟨rfl, rfl⟩ := Prod.mk.inj pair
    refine ⟨edge, ?_, hit.trans (congrArg some (of_decide_eq_true here))⟩
    rw [mem_toList_edges entry]
    exact edgeMem
  · rintro ⟨edge, edgeMem, hit⟩
    refine ⟨(callee, caller), mem_filter.2 ⟨?_, decide_eq_true rfl⟩, rfl⟩
    obtain ⟨set, found, inSet⟩ := mem_edgesOf.1 edgeMem
    refine mem_flatMap.2 ⟨(caller, set), HashMap.mem_toList.2 found, ?_⟩
    exact mem_filterMap.2 ⟨edge, inSet, by rw [hit]; rfl⟩

theorem RelationSnapshotIndex.getCallersByCalleeEntity_eq
    (transposed : ReverseTransposed snapshot.index) (calleeId : EntityId) :
    snapshot.getCallersByCalleeEntity calleeId =
      snapshot.index.getCallersByCalleeEntity calleeId := by
  unfold RelationSnapshotIndex.getCallersByCalleeEntity
  cases found : snapshot.queryOptimized.getCallers calleeId with
  | none => exact boundedCallers_eq fun _ => Iff.rfl
  | some callers =>
    obtain ⟨pushed, bucket, rfl⟩ := HashMap.lookup_mapValues_eq_some.1 found
    refine boundedCallers_eq fun caller => ?_
    have inBucket := @mem_bucket_reversePairs snapshot.index calleeId caller
    rw [HashMap.bucket, bucket, Option.getD_some] at inBucket
    exact SortedVec.mem_ofList.trans (inBucket.trans (transposed calleeId caller).symm)

theorem RelationSnapshotIndex.getRelationsToEntity_eq
    (transposed : ReverseTransposed snapshot.index) (calleeId : EntityId) :
    snapshot.getRelationsToEntity calleeId = snapshot.index.getRelationsToEntity calleeId := by
  unfold RelationSnapshotIndex.getRelationsToEntity RelationIndex.getRelationsToEntity
  rw [snapshot.getCallersByCalleeEntity_eq transposed]
  refine flatMap_congr fun caller _ => ?_
  rw [snapshot.getResolvedRelationsByCaller_eq]
  unfold RelationIndex.getResolvedRelationsByCaller edgesOf
  cases snapshot.index.resolvedRelationIndex.lookup caller <;> rfl

end Published

section Conditions

namespace SnapshotDelta

variable (delta : SnapshotDelta)

def Lists (edge : ResolvedRelation) : Prop :=
  relationIdentity edge ∈ delta.removedRelations.map relationIdentity

def Keeps (edge : ResolvedRelation) : Prop :=
  edge.caller ∉ delta.removedEntities ∧ ¬delta.Lists edge

instance (edge : ResolvedRelation) : Decidable (delta.Lists edge) :=
  inferInstanceAs (Decidable (_ ∈ _))

instance (edge : ResolvedRelation) : Decidable (delta.Keeps edge) :=
  inferInstanceAs (Decidable (_ ∧ _))

def addedOf (classification : ExternalCallType) : List ResolvedRelation :=
  delta.addedRelations.filter fun added => added.externalType = some classification

variable {delta}

theorem mem_addedOf {classes : ExternalCallType} {added : ResolvedRelation} :
    added ∈ delta.addedOf classes ↔
      added ∈ delta.addedRelations ∧ added.externalType = some classes := by
  rw [addedOf, mem_filter, decide_eq_true_eq]

end SnapshotDelta

def callersAfter (index : RelationIndex) (delta : SnapshotDelta) (callee : EntityId) :
    List EntityId :=
  (((callersAt index.reverseCalleeIndex callee).filter fun caller =>
      (edgesOf index.resolvedRelationIndex caller).any fun edge =>
        edge.calleeId = some callee ∧ delta.Keeps edge) ++
    (delta.addedRelations.filter fun added => added.calleeId = some callee).map
      ResolvedRelation.caller).dedup

namespace LayeredSnapshotIndex

variable (layered : LayeredSnapshotIndex)

/-- A base with the chain one delta longer. -/
def publish (delta : SnapshotDelta) : LayeredSnapshotIndex :=
  { layered with deltas := layered.deltas ++ [delta] }

def removedSoFar : List EntityId :=
  layered.deltas.flatMap SnapshotDelta.removedEntities

variable [Sha256]

def edgesAt (caller : EntityId) : List ResolvedRelation :=
  edgesOf layered.replayed.resolvedRelationIndex caller

/-- What the next delta of a chain must be like for every query to overlay it as the replay
applies it. -/
structure OverlaysExactly (layered : LayeredSnapshotIndex) (delta : SnapshotDelta) : Prop where
  /-- Every edge of a renamed caller is listed as removed. -/
  renamedCallers : ∀ renamed ∈ delta.renamedEntities, ∀ edge ∈ layered.edgesAt renamed.oldId,
    delta.Lists edge
  /-- Every edge into a removed entity is removed, itself or with its caller. -/
  removedCallees : ∀ callee ∈ delta.removedEntities, ∀ caller, ∀ edge ∈ layered.edgesAt caller,
    edge.calleeId = some callee → ¬delta.Keeps edge
  /-- No two added edges share an identity, and none has that of an edge that is kept. -/
  addedOnce : (delta.addedRelations.map relationIdentity).Nodup
  addedFresh : ∀ added ∈ delta.addedRelations, ∀ edge ∈ layered.edgesAt added.caller,
    relationIdentity edge = relationIdentity added → delta.Lists edge
  /-- No added edge starts at or leads to an entity removed so far. -/
  addedLive : ∀ added ∈ delta.addedRelations, ∀ gone ∈ (layered.publish delta).removedSoFar,
    added.caller ≠ gone ∧ added.calleeId ≠ some gone
  /-- Where an edge between two entities goes and a parallel one stays, another one is added. -/
  lastParallel : ∀ removed ∈ delta.removedRelations, ∀ edge ∈ layered.edgesAt removed.caller,
    removed.calleeId.isSome → edge.calleeId = removed.calleeId → delta.Keeps edge →
      ∃ added ∈ delta.addedRelations, endpoints added = endpoints removed
  /-- No entity ends up with more callers than a query returns. -/
  fanIn : ∀ callee, (callersAfter layered.replayed delta callee).length ≤ maxReverseFanin
  /-- Added edges of one classification differ in their ends from each other and from the base. -/
  classifiedApart : ∀ classification, ((delta.addedOf classification).map endpoints).Nodup
  classifiedNew : ∀ added ∈ delta.addedRelations, ∀ edge ∈ layered.base.index.allRelations,
    added.externalType.isSome → edge.externalType = added.externalType →
      endpoints edge ≠ endpoints added
  /-- A classified edge goes exactly when one with its ends and classification is added. -/
  classifiedReplaced : ∀ caller, ∀ edge ∈ layered.edgesAt caller, edge.externalType.isSome →
    (¬delta.Keeps edge ↔ ∃ added ∈ delta.addedRelations,
      added.externalType = edge.externalType ∧ endpoints added = endpoints edge)
  /-- A classified edge is listed as removed once, as the edge it is. -/
  listedOnce : ((delta.removedRelations.filter fun removed =>
    removed.externalType.isSome).map relationIdentity).Nodup
  listedFiled : ∀ removed ∈ delta.removedRelations, removed.externalType.isSome →
    relationIdentity removed ∈ (layered.edgesAt removed.caller).map relationIdentity
  listedAlike : ∀ removed ∈ delta.removedRelations, ∀ edge ∈ layered.edgesAt removed.caller,
    relationIdentity edge = relationIdentity removed → edge.externalType = removed.externalType

end LayeredSnapshotIndex

end Conditions

section Step

open LayeredSnapshotIndex

variable [Sha256] {layered : LayeredSnapshotIndex} {delta : SnapshotDelta}

omit [Sha256] in
theorem LayeredSnapshotIndex.foldl_publish (layered : LayeredSnapshotIndex)
    (reached : List SnapshotDelta) :
    reached.foldl publish layered = ⟨layered.base, layered.deltas ++ reached⟩ := by
  induction reached generalizing layered with
  | nil => rw [append_nil]; rfl
  | cons delta reached ih =>
    rw [foldl_cons, ih]
    show LayeredSnapshotIndex.mk _ ((layered.deltas ++ [delta]) ++ reached) = _
    rw [append_assoc]
    rfl

theorem LayeredSnapshotIndex.replayed_publish (layered : LayeredSnapshotIndex)
    (delta : SnapshotDelta) :
    (layered.publish delta).replayed = applyDelta layered.replayed delta := by
  unfold replayed publish
  rw [foldl_append]
  rfl

omit [Sha256] in
theorem LayeredSnapshotIndex.mem_removedSoFar_publish {id : EntityId} :
    id ∈ (layered.publish delta).removedSoFar ↔
      id ∈ layered.removedSoFar ∨ id ∈ delta.removedEntities := by
  unfold removedSoFar publish
  simp

theorem LayeredSnapshotIndex.caller_eq_of_mem_edgesAt {caller : EntityId}
    {edge : ResolvedRelation} (mem : edge ∈ layered.edgesAt caller) : edge.caller = caller :=
  layered.replayed.edgesFiled.caller_eq mem

namespace LayeredSnapshotIndex.OverlaysExactly

section

variable (admitted : layered.OverlaysExactly delta)

include admitted

theorem edgesAt_publish (caller : EntityId) :
    (layered.publish delta).edgesAt caller =
      (layered.edgesAt caller).filter (fun edge => delta.Keeps edge) ++
        delta.addedRelations.filter fun added => added.caller = caller := by
  unfold edgesAt
  rw [replayed_publish, edgesOf_applyDelta admitted.addedOnce caller
    fun added mem edge edgeMem _ _ same => admitted.addedFresh added mem edge edgeMem same]
  congr 1
  by_cases removed : caller ∈ delta.removedEntities
  · rw [if_pos (Or.inl removed)]
    refine (filter_eq_nil_iff.2 fun edge mem kept => ?_).symm
    have own := layered.caller_eq_of_mem_edgesAt mem
    exact (of_decide_eq_true kept).1 (own.symm ▸ removed)
  by_cases renamed : caller ∈ delta.renamedEntities.map RenamedEntity.oldId
  · rw [if_pos (Or.inr renamed)]
    obtain ⟨entity, mem, rfl⟩ := mem_map.1 renamed
    refine (filter_eq_nil_iff.2 fun edge edgeMem kept => ?_).symm
    exact (of_decide_eq_true kept).2 (admitted.renamedCallers entity mem edge edgeMem)
  · rw [if_neg (not_or.2 ⟨removed, renamed⟩)]
    refine filter_congr fun edge mem => decide_eq_decide.2 ?_
    have own := layered.caller_eq_of_mem_edgesAt mem
    exact (and_iff_right (own.symm ▸ removed)).symm

theorem mem_edgesAt_publish {edge : ResolvedRelation} :
    edge ∈ (layered.publish delta).edgesAt edge.caller ↔
      (edge ∈ layered.edgesAt edge.caller ∧ delta.Keeps edge) ∨ edge ∈ delta.addedRelations := by
  rw [admitted.edgesAt_publish, mem_append, mem_filter, mem_filter]
  simp only [decide_eq_true_eq, and_true]

theorem stillCalls_publish {caller callee : EntityId} :
    stillCalls (layered.publish delta).replayed.resolvedRelationIndex caller callee = true ↔
      (∃ edge ∈ layered.edgesAt caller, edge.calleeId = some callee ∧ delta.Keeps edge) ∨
        ∃ added ∈ delta.addedRelations, added.caller = caller ∧ added.calleeId = some callee := by
  rw [stillCalls_iff]
  show (∃ edge ∈ (layered.publish delta).edgesAt caller, _) ↔ _
  rw [admitted.edgesAt_publish]
  simp only [mem_append, mem_filter, decide_eq_true_eq]
  constructor
  · rintro ⟨edge, ⟨mem, kept⟩ | ⟨mem, own⟩, hit⟩
    · exact Or.inl ⟨edge, mem, hit, kept⟩
    · exact Or.inr ⟨edge, mem, own, hit⟩
  · rintro (⟨edge, mem, hit, kept⟩ | ⟨edge, mem, own, hit⟩)
    · exact ⟨edge, Or.inl ⟨mem, kept⟩, hit⟩
    · exact ⟨edge, Or.inr ⟨mem, own⟩, hit⟩

theorem reverseTransposed (transposed : ReverseTransposed layered.replayed) :
    ReverseTransposed (layered.publish delta).replayed := by
  rw [replayed_publish]
  apply (reverseTransposed_applyDelta_iff transposed delta).2
  intro _ callee removed caller stays edge mem hit unlisted
  have own := layered.caller_eq_of_mem_edgesAt mem
  exact absurd ⟨own.symm ▸ stays, unlisted⟩
    (admitted.removedCallees callee removed caller edge mem hit)

theorem bounded (transposed : ReverseTransposed layered.replayed) (callee : EntityId) :
    (callersAt (layered.publish delta).replayed.reverseCalleeIndex callee).length ≤
      maxReverseFanin := by
  refine le_trans (List.Subperm.length_le (subperm_of_subset ?_ fun caller listed => ?_))
    (admitted.fanIn callee)
  · exact SortedVec.nodup _
  · have calls := (admitted.reverseTransposed transposed callee caller).1 listed
    rw [callersAfter, mem_dedup, mem_append]
    rcases admitted.stillCalls_publish.1 calls with ⟨edge, mem, hit, kept⟩ | ⟨added, mem, own, hit⟩
    · refine Or.inl (mem_filter.2 ⟨?_, ?_⟩)
      · exact (transposed callee caller).2 (stillCalls_iff.2 ⟨edge, mem, hit⟩)
      · exact any_eq_true.2 ⟨edge, mem, decide_eq_true ⟨hit, kept⟩⟩
    · exact Or.inr (mem_map.2 ⟨added, mem_filter.2 ⟨mem, decide_eq_true hit⟩, own⟩)

end

end LayeredSnapshotIndex.OverlaysExactly

end Step

open LayeredSnapshotIndex

variable [Sha256] {layered : LayeredSnapshotIndex} {delta : SnapshotDelta}

section Representation

/-- Every edge query of a layered snapshot gives the edges, callers or counts that the same query
gives on the index with the chain replayed. -/
structure EdgeAnswersAgree (layered : LayeredSnapshotIndex) : Prop where
  relations : ∀ callerId, Option.Rel List.Perm (layered.getResolvedRelationsByCaller callerId)
    (layered.replayed.getResolvedRelationsByCaller callerId)
  callers : ∀ calleeId, (layered.getCallersByCalleeEntity calleeId).Perm
    (layered.replayed.getCallersByCalleeEntity calleeId)
  relationsTo : ∀ calleeId, (layered.getRelationsToEntity calleeId).Perm
    (layered.replayed.getRelationsToEntity calleeId)
  classified : ∀ classification, (layered.getRelationsByClassification classification).Perm
    (layered.replayed.getRelationsByClassification classification)
  stats : ∀ classification, layered.getClassificationStats.lookup classification =
    layered.replayed.getClassificationStats.lookup classification

def classifiedCount (edges : List ResolvedRelation) (classification : ExternalCallType) : Nat :=
  Overlay.occurrences ResolvedRelation.externalType edges classification

structure RepresentsReplay (layered : LayeredSnapshotIndex) : Prop where
  transposed : ReverseTransposed layered.replayed
  bounded : ∀ callee, (callersAt layered.replayed.reverseCalleeIndex callee).length ≤
    maxReverseFanin
  /-- Nothing is left of the entities removed so far. -/
  gone : ∀ id ∈ layered.removedSoFar, layered.edgesAt id = [] ∧
    ∀ caller, stillCalls layered.replayed.resolvedRelationIndex caller id = false
  relations : ∀ caller ∉ layered.removedSoFar,
    layered.deltas.foldl (overlayRelations caller)
      ((layered.base.getResolvedRelationsByCaller caller).getD []) = layered.edgesAt caller
  callers : ∀ callee ∉ layered.removedSoFar, ∀ caller,
    caller ∈ layered.deltas.foldl (overlayCallers callee)
        (layered.base.getCallersByCalleeEntity callee) ↔
      stillCalls layered.replayed.resolvedRelationIndex caller callee = true
  relationsTo : ∀ callee, (layered.getRelationsToEntity callee).Nodup ∧
    ∀ edge, edge ∈ layered.getRelationsToEntity callee ↔
      edge ∈ layered.edgesAt edge.caller ∧ edge.calleeId = some callee
  classified : ∀ classification, (layered.getRelationsByClassification classification).Nodup ∧
    ∀ edge, edge ∈ layered.getRelationsByClassification classification ↔
      edge ∈ layered.edgesAt edge.caller ∧ edge.externalType = some classification
  /-- What was counted up is what was counted down and what is left. -/
  counted : ∀ classification,
    classifiedCount layered.base.index.allRelations classification +
        classifiedCount (layered.deltas.flatMap SnapshotDelta.addedRelations) classification =
      classifiedCount (layered.deltas.flatMap SnapshotDelta.removedRelations) classification +
        classifiedCount layered.replayed.allRelations classification
  /-- A classification without edges never had one. -/
  uncounted : ∀ classification, classifiedCount layered.replayed.allRelations classification = 0 →
    classifiedCount layered.base.index.allRelations classification = 0 ∧
      classifiedCount (layered.deltas.flatMap SnapshotDelta.addedRelations) classification = 0

omit [Sha256] in
theorem mem_getRelationsToEntity {index : RelationIndex} (transposed : ReverseTransposed index)
    {callee : EntityId}
    (bounded : (callersAt index.reverseCalleeIndex callee).length ≤ maxReverseFanin)
    {edge : ResolvedRelation} :
    edge ∈ index.getRelationsToEntity callee ↔
      edge ∈ edgesOf index.resolvedRelationIndex edge.caller ∧ edge.calleeId = some callee := by
  unfold RelationIndex.getRelationsToEntity RelationIndex.getCallersByCalleeEntity
  rw [take_of_length_le bounded, mem_flatMap]
  simp only [mem_filter, decide_eq_true_eq]
  constructor
  · rintro ⟨caller, -, mem, hit⟩
    rw [index.edgesFiled.caller_eq mem]
    exact ⟨mem, hit⟩
  · rintro ⟨mem, hit⟩
    exact ⟨edge.caller, (transposed callee edge.caller).2 (stillCalls_iff.2 ⟨edge, mem, hit⟩),
      mem, hit⟩

omit [Sha256] in
theorem nodup_getRelationsToEntity (index : RelationIndex) (callee : EntityId) :
    (index.getRelationsToEntity callee).Nodup := by
  unfold RelationIndex.getRelationsToEntity RelationIndex.getCallersByCalleeEntity
  refine nodup_flatMap.2 ⟨fun caller _ => ?_, ?_⟩
  · exact (nodup_edgesOf index.resolvedRelationIndex caller).of_map.filter _
  · have distinct : ((callersAt index.reverseCalleeIndex callee).take maxReverseFanin).Nodup :=
      (SortedVec.nodup _).sublist (take_sublist _ _)
    refine distinct.imp fun {left right} different edge inLeft inRight => different ?_
    exact (index.edgesFiled.caller_eq (mem_filter.1 inLeft).1).symm.trans
      (index.edgesFiled.caller_eq (mem_filter.1 inRight).1)

omit [Sha256] in
private theorem adjusted_count {before added removed left : Nat}
    (counted : before + added = removed + left) (uncounted : left = 0 → before = 0 ∧ added = 0) :
    Option.map (· - removed) (if added = 0 then if before = 0 then none else some before
          else some ((if before = 0 then none else some before).getD 0 + added)) =
      if left = 0 then none else some left := by
  have stored : (if before = 0 then none else some before).getD 0 = before := by
    split_ifs with zero
    · exact zero.symm
    · rfl
  rw [stored]
  by_cases none : left = 0
  · obtain ⟨noneBefore, noneAdded⟩ := uncounted none
    rw [if_pos none, if_pos noneAdded, if_pos noneBefore]
    rfl
  · have remaining : before + added - removed = left := by omega
    rw [if_neg none]
    split_ifs with noneAdded noneBefore
    · omega
    · rw [noneAdded, Nat.add_zero] at remaining
      exact congrArg some remaining
    · exact congrArg some remaining

theorem RepresentsReplay.answersAgree (represents : RepresentsReplay layered) :
    EdgeAnswersAgree layered := by
  have removed : ∀ id, (layered.deltas.any fun delta => id ∈ delta.removedEntities) = true ↔
      id ∈ layered.removedSoFar := by
    intro id
    rw [any_eq_true, removedSoFar, mem_flatMap]
    simp only [decide_eq_true_eq]
  refine ⟨fun callerId => ?_, fun calleeId => ?_, fun calleeId => ?_, fun classification => ?_,
    fun classification => ?_⟩
  · -- an entry of the forward table is never bare
    have answer : layered.replayed.getResolvedRelationsByCaller callerId =
        if (layered.edgesAt callerId).isEmpty then none else some (layered.edgesAt callerId) := by
      unfold RelationIndex.getResolvedRelationsByCaller edgesAt edgesOf
      cases found : layered.replayed.resolvedRelationIndex.lookup callerId with
      | none => rfl
      | some set =>
        have filed := (layered.replayed.edgesFiled callerId set found).nonempty
        have notEmpty : set.edges.isEmpty = false :=
          Bool.eq_false_iff.2 fun bare => filed (isEmpty_iff.1 bare)
        simp only [Option.map_some, Option.getD_some, notEmpty, Bool.false_eq_true, if_false]
    rw [answer]
    unfold LayeredSnapshotIndex.getResolvedRelationsByCaller
    by_cases lost : callerId ∈ layered.removedSoFar
    · rw [if_pos ((removed callerId).2 lost), (represents.gone callerId lost).1]
      exact Option.Rel.none
    · rw [if_neg (mt (removed callerId).1 lost), represents.relations callerId lost]
      dsimp only
      split_ifs
      · exact Option.Rel.none
      · exact Option.Rel.some (List.Perm.refl _)
  · unfold LayeredSnapshotIndex.getCallersByCalleeEntity
    by_cases lost : calleeId ∈ layered.removedSoFar
    · have none : callersAt layered.replayed.reverseCalleeIndex calleeId = [] := by
        refine eq_nil_iff_forall_not_mem.2 fun caller listed => ?_
        have calls := (represents.transposed calleeId caller).1 listed
        rw [(represents.gone calleeId lost).2 caller] at calls
        cases calls
      rw [if_pos ((removed calleeId).2 lost), RelationIndex.getCallersByCalleeEntity, none,
        take_nil]
    · rw [if_neg (mt (removed calleeId).1 lost)]
      have same : ∀ caller, _ ↔
          caller ∈ (layered.replayed.reverseCalleeIndex.lookup calleeId).getD ∅ := fun caller =>
        (represents.callers calleeId lost caller).trans (represents.transposed calleeId caller).symm
      rw [boundedCallers_eq same]
      exact List.Perm.refl _
  · obtain ⟨nodup, mem_iff⟩ := represents.relationsTo calleeId
    refine (perm_ext_iff_of_nodup nodup (nodup_getRelationsToEntity _ _)).2 fun edge => ?_
    rw [mem_iff, mem_getRelationsToEntity represents.transposed (represents.bounded calleeId)]
    rfl
  · obtain ⟨nodup, mem_iff⟩ := represents.classified classification
    refine (perm_ext_iff_of_nodup nodup
      (nodup_getRelationsByClassification classification)).2 fun edge => ?_
    rw [mem_iff, mem_getRelationsByClassification]
    rfl
  · rw [lookup_getClassificationStats]
    unfold LayeredSnapshotIndex.getClassificationStats countClassified discountClassified
    rw [Overlay.lookup_foldl_untally, Overlay.lookup_foldl_tally]
    show Option.map _ (if _ then layered.base.index.getClassificationStats.lookup classification
      else some ((layered.base.index.getClassificationStats.lookup classification).getD 0 + _)) = _
    rw [lookup_getClassificationStats]
    exact adjusted_count (represents.counted classification) (represents.uncounted classification)

end Representation

section Start

variable {base : RelationSnapshotIndex}

theorem representsReplay_base (transposed : ReverseTransposed base.index)
    (bounded : ∀ callee, (callersAt base.index.reverseCalleeIndex callee).length ≤
      maxReverseFanin) : RepresentsReplay ⟨base, []⟩ where
  transposed := transposed
  bounded := bounded
  gone id mem := absurd mem not_mem_nil
  relations caller _ := by
    show (base.getResolvedRelationsByCaller caller).getD [] =
      edgesOf base.index.resolvedRelationIndex caller
    rw [base.getResolvedRelationsByCaller_eq]
    unfold RelationIndex.getResolvedRelationsByCaller edgesOf
    cases base.index.resolvedRelationIndex.lookup caller <;> rfl
  callers callee _ caller := by
    show caller ∈ base.getCallersByCalleeEntity callee ↔ _
    rw [base.getCallersByCalleeEntity_eq transposed, RelationIndex.getCallersByCalleeEntity,
      take_of_length_le (bounded callee)]
    exact transposed callee caller
  relationsTo callee := by
    show (base.getRelationsToEntity callee).Nodup ∧ _
    have same : getRelationsToEntity ⟨base, []⟩ callee = base.index.getRelationsToEntity callee :=
      base.getRelationsToEntity_eq transposed callee
    rw [base.getRelationsToEntity_eq transposed, same]
    refine ⟨nodup_getRelationsToEntity _ _, fun edge => ?_⟩
    exact mem_getRelationsToEntity transposed (bounded callee)
  classified classification :=
    ⟨nodup_getRelationsByClassification classification, fun _ => mem_getRelationsByClassification⟩
  counted _ := Nat.add_comm _ _
  uncounted _ none := ⟨none, rfl⟩

end Start

section Step

namespace RepresentsReplay

theorem gone_publish (represents : RepresentsReplay layered)
    (admitted : layered.OverlaysExactly delta) {id : EntityId}
    (lost : id ∈ (layered.publish delta).removedSoFar) :
    (layered.publish delta).edgesAt id = [] ∧
      ∀ caller, stillCalls (layered.publish delta).replayed.resolvedRelationIndex caller id =
        false := by
  constructor
  · rw [admitted.edgesAt_publish, append_eq_nil_iff, filter_eq_nil_iff, filter_eq_nil_iff]
    constructor
    · intro edge mem kept
      rcases mem_removedSoFar_publish.1 lost with before | now
      · rw [(represents.gone id before).1] at mem
        cases mem
      · exact (of_decide_eq_true kept).1 (layered.caller_eq_of_mem_edgesAt mem ▸ now)
    · intro added mem own
      exact (admitted.addedLive added mem id lost).1 (of_decide_eq_true own)
  · intro caller
    refine Bool.eq_false_iff.2 fun calls => ?_
    rcases admitted.stillCalls_publish.1 calls with ⟨edge, mem, hit, kept⟩ | ⟨added, mem, -, hit⟩
    · rcases mem_removedSoFar_publish.1 lost with before | now
      · have none := (represents.gone id before).2 caller
        rw [stillCalls_iff.2 ⟨edge, mem, hit⟩] at none
        cases none
      · exact admitted.removedCallees id now caller edge mem hit kept
    · exact (admitted.addedLive added mem id lost).2 hit

theorem relations_publish (represents : RepresentsReplay layered)
    (admitted : layered.OverlaysExactly delta) {caller : EntityId}
    (live : caller ∉ (layered.publish delta).removedSoFar) :
    (layered.publish delta).deltas.foldl (overlayRelations caller)
        ((layered.base.getResolvedRelationsByCaller caller).getD []) =
      (layered.publish delta).edgesAt caller := by
  rw [mem_removedSoFar_publish, not_or] at live
  show (layered.deltas ++ [delta]).foldl _ _ = _
  rw [foldl_append, represents.relations caller live.1, admitted.edgesAt_publish]
  show overlayRelations caller (layered.edgesAt caller) delta = _
  unfold overlayRelations
  congr 1
  refine filter_congr fun edge mem => decide_eq_decide.2 ?_
  have own := layered.caller_eq_of_mem_edgesAt mem
  unfold SnapshotDelta.Keeps SnapshotDelta.Lists
  rw [own, and_iff_right live.2, mem_map, mem_map, not_iff_not]
  refine exists_congr fun removed => and_congr_left fun same => ?_
  rw [mem_filter, and_iff_left_iff_imp]
  exact fun _ => decide_eq_true
    ((congrArg RelationEdgeIdentity.caller same).trans own)

omit [Sha256] in
theorem mem_overlayCallers {callee caller : EntityId} {callers : List EntityId} :
    caller ∈ overlayCallers callee callers delta ↔
      (caller ∈ callers ∧ caller ∉ delta.removedEntities ∧
          (caller, some callee) ∉ delta.removedRelations.map endpoints) ∨
        ∃ added ∈ delta.addedRelations, added.caller = caller ∧ added.calleeId = some callee := by
  have pushed : ∀ (l : List ResolvedRelation) (start : List EntityId),
      caller ∈ l.foldl (fun callers added =>
          if added.caller ∈ callers then callers else callers ++ [added.caller]) start ↔
        (∃ added ∈ l, added.caller = caller) ∨ caller ∈ start :=
    foldl_iff_or (caller ∈ ·) fun callers added => by
      split_ifs with present
      · exact (or_iff_right_of_imp fun same => same ▸ present).symm
      · rw [mem_append, mem_singleton, eq_comm, or_comm]
  unfold overlayCallers
  rw [pushed, or_comm, mem_filter, decide_eq_true_eq]
  refine or_congr Iff.rfl (exists_congr fun added => ?_)
  rw [mem_filter, decide_eq_true_eq, and_assoc, and_comm (a := added.calleeId = some callee)]

theorem callers_publish (represents : RepresentsReplay layered)
    (admitted : layered.OverlaysExactly delta) {callee : EntityId}
    (live : callee ∉ (layered.publish delta).removedSoFar) (caller : EntityId) :
    caller ∈ (layered.publish delta).deltas.foldl (overlayCallers callee)
        (layered.base.getCallersByCalleeEntity callee) ↔
      stillCalls (layered.publish delta).replayed.resolvedRelationIndex caller callee = true := by
  rw [mem_removedSoFar_publish, not_or] at live
  show caller ∈ (layered.deltas ++ [delta]).foldl _ _ ↔ _
  rw [foldl_append]
  show caller ∈ overlayCallers callee _ delta ↔ _
  rw [mem_overlayCallers, represents.callers callee live.1, admitted.stillCalls_publish]
  constructor
  · rintro (⟨calls, stays, unlisted⟩ | new)
    · obtain ⟨edge, mem, hit⟩ := stillCalls_iff.1 calls
      have own := layered.caller_eq_of_mem_edgesAt mem
      refine Or.inl ⟨edge, mem, hit, own.symm ▸ stays, fun listed => unlisted ?_⟩
      obtain ⟨removed, removedMem, same⟩ := mem_map.1 listed
      refine mem_map.2 ⟨removed, removedMem, Prod.ext ?_ ?_⟩
      · exact (congrArg RelationEdgeIdentity.caller same).trans own
      · exact (calleeId_eq_of_relationIdentity_eq same).trans hit
    · exact Or.inr new
  · rintro (⟨edge, mem, hit, kept⟩ | new)
    · have own := layered.caller_eq_of_mem_edgesAt mem
      by_cases listed : (caller, some callee) ∈ delta.removedRelations.map endpoints
      · -- a parallel edge goes, so the delta adds one
        obtain ⟨removed, removedMem, ends⟩ := mem_map.1 listed
        obtain ⟨from_, target⟩ := Prod.mk.inj ends
        obtain ⟨added, addedMem, same⟩ := admitted.lastParallel removed removedMem edge
          (from_ ▸ mem) (by rw [target]; rfl) (hit.trans target.symm) kept
        rw [ends] at same
        exact Or.inr ⟨added, addedMem, congrArg Prod.fst same, congrArg Prod.snd same⟩
      · exact Or.inl ⟨stillCalls_iff.2 ⟨edge, mem, hit⟩, own ▸ kept.1, listed⟩
    · exact Or.inr new

private theorem nodup_kept_append_added (admitted : layered.OverlaysExactly delta)
    {kept added : List ResolvedRelation} (nodup : kept.Nodup)
    (stored : ∀ edge ∈ kept, edge ∈ layered.edgesAt edge.caller ∧ delta.Keeps edge)
    (listed : added.Sublist delta.addedRelations) : (kept ++ added).Nodup := by
  refine nodup_append.2 ⟨nodup, admitted.addedOnce.of_map.sublist listed, ?_⟩
  rintro edge mem _ new rfl
  obtain ⟨here, keeps⟩ := stored edge mem
  exact keeps.2 (admitted.addedFresh edge (listed.subset new) edge here rfl)

theorem relationsTo_publish (represents : RepresentsReplay layered)
    (admitted : layered.OverlaysExactly delta) (callee : EntityId) :
    ((layered.publish delta).getRelationsToEntity callee).Nodup ∧
      ∀ edge, edge ∈ (layered.publish delta).getRelationsToEntity callee ↔
        edge ∈ (layered.publish delta).edgesAt edge.caller ∧ edge.calleeId = some callee := by
  obtain ⟨nodup, mem_iff⟩ := represents.relationsTo callee
  have overlaid : (layered.publish delta).getRelationsToEntity callee =
      overlayIncoming callee (layered.getRelationsToEntity callee) delta := by
    show (layered.deltas ++ [delta]).foldl _ _ = _
    rw [foldl_append]
    rfl
  have kept : ∀ edge, decide (edge.caller ∉ delta.removedEntities ∧
      relationIdentity edge ∉ delta.removedRelations.map relationIdentity) = true ↔
        delta.Keeps edge := fun _ => decide_eq_true_iff
  rw [overlaid]
  unfold overlayIncoming
  constructor
  · refine nodup_kept_append_added admitted (nodup.filter _) (fun edge mem => ?_)
      filter_sublist
    obtain ⟨listed, keeps⟩ := mem_filter.1 mem
    exact ⟨((mem_iff edge).1 listed).1, (kept edge).1 keeps⟩
  · intro edge
    rw [mem_append, mem_filter, mem_filter, mem_iff, kept, decide_eq_true_eq,
      admitted.mem_edgesAt_publish, or_and_right]
    refine or_congr ?_ Iff.rfl
    rw [and_assoc, and_assoc, and_comm (a := edge.calleeId = some callee)]

theorem classified_publish (represents : RepresentsReplay layered)
    (admitted : layered.OverlaysExactly delta) (classes : ExternalCallType) :
    ((layered.publish delta).getRelationsByClassification classes).Nodup ∧
      ∀ edge, edge ∈ (layered.publish delta).getRelationsByClassification classes ↔
        edge ∈ (layered.publish delta).edgesAt edge.caller ∧ edge.externalType = some classes := by
  obtain ⟨-, mem_iff⟩ := represents.classified classes
  let base := layered.base.getRelationsByClassification classes
  have covered : ∀ edge ∈ base, endpoints edge ∈ HashSet.ofList (base.map endpoints) :=
    fun edge mem => HashSet.mem_ofList.2 (mem_map_of_mem mem)
  refine ⟨Overlay.nodup_foldl_appendNew covered
    (nodup_getRelationsByClassification classes), fun edge => ?_⟩
  have newest : addedClassified (layered.publish delta).deltas classes =
      delta.addedOf classes ++ addedClassified layered.deltas classes := by
    show ((layered.deltas ++ [delta]).reverse.flatMap _).filter _ = _
    rw [reverse_append, flatMap_append, filter_append, reverse_singleton, flatMap_singleton]
    rfl
  have apart : ∀ added ∈ delta.addedOf classes,
      endpoints added ∉ HashSet.ofList (base.map endpoints) := by
    intro added mem listed
    obtain ⟨inDelta, ofClass⟩ := SnapshotDelta.mem_addedOf.1 mem
    obtain ⟨edge, inBase, same⟩ := mem_map.1 (HashSet.mem_ofList.1 listed)
    obtain ⟨stored, alike⟩ := mem_filter.1 inBase
    exact admitted.classifiedNew added inDelta edge stored (by rw [ofClass]; rfl)
      ((of_decide_eq_true alike).trans ofClass.symm) same
  have overlaid : (layered.publish delta).getRelationsByClassification classes =
      ((addedClassified (layered.publish delta).deltas classes).foldl
        (Overlay.appendNew endpoints) (HashSet.ofList (base.map endpoints), base)).2 := rfl
  rw [overlaid, newest, Overlay.mem_foldl_appendNew_append covered
    (admitted.classifiedApart classes) apart]
  show edge ∈ delta.addedOf classes ∨ edge ∈ layered.getRelationsByClassification classes ∧ _ ↔ _
  rw [mem_iff, admitted.mem_edgesAt_publish, or_and_right, or_comm, SnapshotDelta.mem_addedOf,
    and_assoc, and_assoc]
  refine or_congr (and_congr_right fun stored => ?_) Iff.rfl
  rw [and_comm]
  refine and_congr_left fun ofClass => ?_
  have replaced := admitted.classifiedReplaced edge.caller edge stored (by rw [ofClass]; rfl)
  rw [← not_iff_not, not_not, replaced, mem_map]
  refine exists_congr fun added => ?_
  rw [SnapshotDelta.mem_addedOf, and_assoc, ofClass]

section

variable (admitted : layered.OverlaysExactly delta) (classes : ExternalCallType)

include admitted classes

private theorem perm_classified_publish :
    ((layered.publish delta).replayed.getRelationsByClassification classes).Perm
      ((layered.replayed.getRelationsByClassification classes).filter
          (fun edge => delta.Keeps edge) ++
        delta.addedOf classes) := by
  have nodup : ((layered.replayed.getRelationsByClassification classes).filter
      (fun edge => delta.Keeps edge) ++ delta.addedOf classes).Nodup := by
    refine nodup_kept_append_added admitted
      ((nodup_getRelationsByClassification classes).filter _) (fun edge mem => ?_)
      filter_sublist
    obtain ⟨listed, keeps⟩ := mem_filter.1 mem
    exact ⟨(mem_getRelationsByClassification.1 listed).1, of_decide_eq_true keeps⟩
  refine (perm_ext_iff_of_nodup (nodup_getRelationsByClassification classes) nodup).2 fun edge => ?_
  rw [mem_append, mem_filter, mem_getRelationsByClassification,
    mem_getRelationsByClassification, SnapshotDelta.mem_addedOf, decide_eq_true_eq]
  show edge ∈ (layered.publish delta).edgesAt edge.caller ∧ _ ↔ _
  rw [admitted.mem_edgesAt_publish, or_and_right, and_right_comm]
  rfl

private theorem lost_eq_listed :
    ((layered.replayed.getRelationsByClassification classes).filter
        fun edge => !decide (delta.Keeps edge)).length =
      classifiedCount delta.removedRelations classes := by
  have identities : (((layered.replayed.getRelationsByClassification classes).filter
        fun edge => !decide (delta.Keeps edge)).map relationIdentity).Perm
      ((delta.removedRelations.filter fun removed =>
        removed.externalType = some classes).map relationIdentity) := by
    refine (perm_ext_iff_of_nodup ?_ ?_).2 fun identity => ?_
    · exact (nodup_allRelations layered.replayed).sublist
        ((filter_sublist.trans filter_sublist).map relationIdentity)
    · refine admitted.listedOnce.sublist (List.Sublist.map relationIdentity ?_)
      refine monotone_filter_right _ fun removed own => ?_
      rw [of_decide_eq_true own]
      rfl
    · rw [mem_map, mem_map]
      constructor
      · rintro ⟨edge, mem, rfl⟩
        obtain ⟨listed, lost⟩ := mem_filter.1 mem
        obtain ⟨stored, ofClass⟩ := mem_getRelationsByClassification.1 listed
        have notKept : ¬delta.Keeps edge := by simpa using lost
        obtain ⟨added, addedMem, -, ends⟩ :=
          (admitted.classifiedReplaced edge.caller edge stored (by rw [ofClass]; rfl)).1 notKept
        -- the caller of an edge that is added again is not removed
        have live : edge.caller ∉ delta.removedEntities := fun removed =>
          (admitted.addedLive added addedMem edge.caller
            (mem_removedSoFar_publish.2 (Or.inr removed))).1 (congrArg Prod.fst ends)
        have inList : delta.Lists edge := not_not.1 fun unlisted => notKept ⟨live, unlisted⟩
        obtain ⟨removed, removedMem, same⟩ := mem_map.1 inList
        refine ⟨removed, mem_filter.2 ⟨removedMem, decide_eq_true ?_⟩, same⟩
        have own : edge.caller = removed.caller :=
          congrArg RelationEdgeIdentity.caller same.symm
        exact (admitted.listedAlike removed removedMem edge (own ▸ stored) same.symm).symm.trans
          ofClass
      · rintro ⟨removed, mem, rfl⟩
        obtain ⟨removedMem, own⟩ := mem_filter.1 mem
        have ofClass := of_decide_eq_true own
        obtain ⟨edge, stored, same⟩ := mem_map.1
          (admitted.listedFiled removed removedMem (by rw [ofClass]; rfl))
        have alike := admitted.listedAlike removed removedMem edge stored same
        have filed : edge ∈ layered.edgesAt edge.caller :=
          (layered.caller_eq_of_mem_edgesAt stored).symm ▸ stored
        have lost : ¬delta.Keeps edge := fun kept =>
          kept.2 (mem_map.2 ⟨removed, removedMem, same.symm⟩)
        refine ⟨edge, mem_filter.2 ⟨?_, by simpa using lost⟩, same⟩
        exact mem_getRelationsByClassification.2 ⟨filed, alike.trans ofClass⟩
  have lengths := identities.length_eq
  rw [length_map, length_map] at lengths
  exact lengths

theorem counted_publish :
    classifiedCount delta.removedRelations classes +
        classifiedCount (layered.publish delta).replayed.allRelations classes =
      classifiedCount layered.replayed.allRelations classes +
        classifiedCount delta.addedRelations classes := by
  have after := (perm_classified_publish admitted classes).length_eq
  rw [length_append] at after
  have before := length_eq_length_filter_add
    (l := layered.replayed.getRelationsByClassification classes)
    fun edge => decide (delta.Keeps edge)
  rw [lost_eq_listed admitted] at before
  show _ + ((layered.publish delta).replayed.getRelationsByClassification classes).length =
    (layered.replayed.getRelationsByClassification classes).length + (delta.addedOf classes).length
  omega

end

theorem uncounted_publish (admitted : layered.OverlaysExactly delta)
    {classes : ExternalCallType}
    (none : classifiedCount (layered.publish delta).replayed.allRelations classes = 0) :
    classifiedCount layered.replayed.allRelations classes = 0 ∧
      classifiedCount delta.addedRelations classes = 0 := by
  have counted := counted_publish admitted classes
  have after := (perm_classified_publish admitted classes).length_eq
  rw [length_append] at after
  change classifiedCount (layered.publish delta).replayed.allRelations classes =
    _ + classifiedCount delta.addedRelations classes at after
  have noneAdded : classifiedCount delta.addedRelations classes = 0 := by omega
  -- without an addition of its class no edge goes
  have noneListed : classifiedCount delta.removedRelations classes = 0 := by
    rw [← lost_eq_listed admitted, length_eq_zero_iff, filter_eq_nil_iff]
    intro edge mem lost
    obtain ⟨stored, ofClass⟩ := mem_getRelationsByClassification.1 mem
    obtain ⟨added, addedMem, alike, -⟩ :=
      (admitted.classifiedReplaced edge.caller edge stored (by rw [ofClass]; rfl)).1
        (by simpa using lost)
    have noneOf : delta.addedOf classes = [] := length_eq_zero_iff.1 noneAdded
    have inClass := SnapshotDelta.mem_addedOf.2 ⟨addedMem, alike.trans ofClass⟩
    rw [noneOf] at inClass
    cases inClass
  omega

theorem publish (represents : RepresentsReplay layered)
    (admitted : layered.OverlaysExactly delta) : RepresentsReplay (layered.publish delta) where
  transposed := admitted.reverseTransposed represents.transposed
  bounded := admitted.bounded represents.transposed
  gone _ lost := represents.gone_publish admitted lost
  relations _ live := represents.relations_publish admitted live
  callers _ live := represents.callers_publish admitted live
  relationsTo := represents.relationsTo_publish admitted
  classified := represents.classified_publish admitted
  counted classification := by
    have before := represents.counted classification
    have step := counted_publish admitted classification
    have flat : ∀ field : SnapshotDelta → List ResolvedRelation,
        classifiedCount ((layered.publish delta).deltas.flatMap field) classification =
          classifiedCount (layered.deltas.flatMap field) classification +
            classifiedCount (field delta) classification := by
      intro field
      show classifiedCount ((layered.deltas ++ [delta]).flatMap field) classification = _
      rw [flatMap_append, flatMap_singleton]
      exact Overlay.occurrences_append _ _ _
    rw [flat, flat]
    show classifiedCount layered.base.index.allRelations classification + _ = _
    omega
  uncounted classification none := by
    obtain ⟨noneBefore, noneNow⟩ := uncounted_publish admitted none
    obtain ⟨noneInBase, noneAdded⟩ := represents.uncounted classification noneBefore
    refine ⟨noneInBase, ?_⟩
    show classifiedCount ((layered.deltas ++ [delta]).flatMap _) classification = 0
    rw [flatMap_append, flatMap_singleton]
    exact (Overlay.occurrences_append _ _ _).trans (by
      change classifiedCount _ classification + classifiedCount _ classification = 0
      rw [noneAdded, noneNow])

end RepresentsReplay

/-- Along a chain of deltas that overlay exactly, over a base whose reverse table is exact and
within bounds, every edge query of every layered snapshot answers as the replay. -/
theorem layeredEdgeQueries_run {base : RelationSnapshotIndex} {deltas : List SnapshotDelta}
    (transposed : ReverseTransposed base.index)
    (bounded : ∀ callee, (callersAt base.index.reverseCalleeIndex callee).length ≤
      maxReverseFanin)
    (every : EveryStep LayeredSnapshotIndex.publish OverlaysExactly ⟨base, []⟩ deltas) :
    ∀ reached, reached <+: deltas → EdgeAnswersAgree ⟨base, reached⟩ := by
  intro reached initial
  have represented := invariant (fun layered delta admitted represents =>
    RepresentsReplay.publish represents admitted) (representsReplay_base transposed bounded)
      (every.of_prefix initial)
  rw [foldl_publish] at represented
  exact represented.answersAgree

end Step

section Sample

def printing : ResolvedRelation where
  caller := 1
  calleeId := none
  calleeName := "println"
  relationType := .macroCall
  span := rowSpan 2 2
  isExternal := true
  externalType := some (.standardLibrary "std")
  callFrequency := 1

def silentMain : RelationIndex :=
  RelationIndex.new.addFunctionWithPath 1 (functionAt 1 "main" 1) "src/main.rs"

def printingMain : RelationIndex := silentMain.addResolvedRelation printing

/-- A published index with the delta to another one laid over it. -/
def overlaid (new old : RelationIndex) : LayeredSnapshotIndex :=
  ⟨.fromIndexShared old, [@computeDelta sampleSha256 _ _ new old 2 1 "" none]⟩

omit [Sha256] in
/-- A classified edge that a delta removes is still found under its classification. -/
theorem removedClassified_stillFound :
    printingMain.validateSnapshot = .ok () ∧ silentMain.validateSnapshot = .ok () ∧
      ¬@EdgeAnswersAgree sampleSha256 (overlaid silentMain printingMain) := by
  let _ := sampleSha256
  refine ⟨by decide, by decide, fun agree => ?_⟩
  exact absurd (agree.classified (.standardLibrary "std")).length_eq (by decide)

omit [Sha256] in
theorem addedCall_overlaysExactly :
    @OverlaysExactly sampleSha256 ⟨.fromIndexShared silentMain, []⟩
      (@computeDelta sampleSha256 _ _ printingMain silentMain 2 1 "" none) := by
  let _ := sampleSha256
  have computed : computeDelta printingMain silentMain 2 1 "" none =
      { epoch := 2
        baseEpoch := 1
        configFingerprint := ""
        addedRelations := [printing] } := by decide
  have noEdges : ∀ {caller edge},
      edge ∉ edgesAt ⟨.fromIndexShared silentMain, []⟩ caller := not_mem_nil
  rw [computed]
  constructor
  · exact fun _ mem => absurd mem not_mem_nil
  · exact fun _ mem => absurd mem not_mem_nil
  · exact nodup_singleton _
  · exact fun _ _ _ mem => absurd mem noEdges
  · exact fun _ _ _ mem => absurd mem not_mem_nil
  · exact fun _ mem => absurd mem not_mem_nil
  · exact fun _ => Nat.zero_le _
  · exact fun _ => (nodup_singleton _).sublist (filter_sublist.map endpoints)
  · exact fun _ _ _ mem => absurd mem not_mem_nil
  · exact fun _ _ mem => absurd mem noEdges
  · exact nodup_nil
  · exact fun _ mem => absurd mem not_mem_nil
  · exact fun _ mem => absurd mem not_mem_nil

omit [Sha256] in
theorem layeredEdgeQueries_run_addedCall :
    @EdgeAnswersAgree sampleSha256 (overlaid printingMain silentMain) := by
  let _ := sampleSha256
  have transposed : ReverseTransposed silentMain := fun _ _ =>
    ⟨fun listed => absurd listed not_mem_nil, fun calls => by cases calls⟩
  have every : EveryStep LayeredSnapshotIndex.publish OverlaysExactly
      ⟨.fromIndexShared silentMain, []⟩ [computeDelta printingMain silentMain 2 1 "" none] :=
    ⟨addedCall_overlaysExactly, trivial⟩
  exact layeredEdgeQueries_run transposed (fun _ => Nat.zero_le _) every _ (prefix_refl _)

end Sample

end ContextEngine

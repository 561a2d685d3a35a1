/- digest: The removal of edges with the guards it holds on the shards of the forward table. -/

import ContextEngine.Delta.EdgeReplay
import ContextEngine.Lib.ShardedMap

set_option autoImplicit false

namespace ContextEngine

open Option List

/-- The forward table by shards, and the reverse table, whose guards are never kept across a
request. -/
structure GuardedEdges (S : Type) where
  resolved : ShardedMap EntityId RelationEdgeSet S
  reverse : ReverseTable

namespace GuardedEdges

variable {S : Type} [DecidableEq S] (shardOf : EntityId → S)

def calls (callee : EntityId) (relations : Option RelationEdgeSet) : Bool :=
  relations.any fun rels => rels.edges.any fun relation => relation.calleeId = some callee

/-- The first part of a round: the edge leaves the entry of its caller. -/
def removeFromCaller (resolved : ShardedMap EntityId RelationEdgeSet S)
    (relation : ResolvedRelation) : Option (ShardedMap EntityId RelationEdgeSet S) := do
  match ← resolved.getMut shardOf relation.caller with
  | (none, resolved) => some resolved
  | (some relations, resolved) =>
    let relations := relations.removeByIdentity (relationIdentity relation)
    let dropped := (resolved.store relation.caller relations).release shardOf relation.caller
    if relations.isEmpty then dropped.remove shardOf relation.caller else some dropped

variable (edges : GuardedEdges S)

/-- `maybe_untrack_reverse_caller`. -/
def maybeUntrack (callee caller : EntityId) : Option (GuardedEdges S) := do
  let relations ← edges.resolved.get shardOf caller
  if calls callee relations then some edges
  else some { edges with reverse := untrackReverseCaller edges.reverse callee caller }

/-- The last part of a round: the caller leaves the list embedded in the entry of the callee. -/
def removeFromCallee (resolved : ShardedMap EntityId RelationEdgeSet S) (callee caller : EntityId) :
    Option (ShardedMap EntityId RelationEdgeSet S) := do
  match ← resolved.getMut shardOf callee with
  | (none, resolved) => some resolved
  | (some calleeEntry, resolved) =>
    -- the guard on the entry of the callee is kept during this request
    let relations ← resolved.get shardOf caller
    if calls callee relations then some (resolved.release shardOf callee)
    else
      let calleeEntry := calleeEntry.removeCaller caller
      let dropped := (resolved.store callee calleeEntry).release shardOf callee
      if calleeEntry.isEmpty && calleeEntry.callers.isEmpty then dropped.remove shardOf callee
      else some dropped

def applyRemovedRelation (relation : ResolvedRelation) :
    Option (GuardedEdges S) := do
  let resolved ← removeFromCaller shardOf edges.resolved relation
  match relation.calleeId with
  | none => some { edges with resolved := resolved }
  | some callee =>
    let untracked ← maybeUntrack shardOf { edges with resolved := resolved } callee relation.caller
    let resolved ← removeFromCallee shardOf untracked.resolved callee relation.caller
    some { untracked with resolved := resolved }

/-- `apply_removed_relations`: `none` if a request is never granted. -/
def applyRemovedRelations (removed : List ResolvedRelation) :
    Option (GuardedEdges S) :=
  removed.foldlM (applyRemovedRelation shardOf) edges

def ofIndex (index : RelationIndex) : GuardedEdges S :=
  ⟨⟨index.resolvedRelationIndex, []⟩, index.reverseCalleeIndex⟩

section Rounds

variable {shardOf} {table : ResolvedTable} {reverse : ReverseTable} {relation : ResolvedRelation}
  {callee caller : EntityId}

variable (table : ResolvedTable)

theorem calls_lookup (callee caller : EntityId) :
    calls callee (table.lookup caller) = stillCalls table caller callee := by
  rw [calls, stillCalls, edgesOf]
  cases table.lookup caller <;> rfl

theorem removeFromCaller_eq (relation : ResolvedRelation) :
    removeFromCaller shardOf ⟨table, []⟩ relation = some ⟨removeEdge table relation, []⟩ := by
  rw [removeFromCaller, removeEdge]
  cases found : table.lookup relation.caller with
  | none =>
    rw [ShardedMap.getMut_of_none not_mem_nil found, HashMap.alter, found]
    simp [HashMap.erase_eq_self found]
  | some relations =>
    rw [ShardedMap.getMut_of_some not_mem_nil found, HashMap.alter, found]
    exact ShardedMap.release_or_remove not_mem_nil _ _

theorem maybeUntrack_eq (reverse : ReverseTable) (callee caller : EntityId) :
    maybeUntrack shardOf ⟨⟨table, []⟩, reverse⟩ callee caller =
      some ⟨⟨table, []⟩, maybeUntrackReverseCaller table reverse callee caller⟩ := by
  rw [maybeUntrack, ShardedMap.get_of_free not_mem_nil]
  simp only [bind_eq_bind, bind_some, calls_lookup, maybeUntrackReverseCaller]
  split_ifs <;> rfl

theorem removeFromCallee_eq (callee caller : EntityId) :
    removeFromCallee shardOf ⟨table, []⟩ callee caller =
      if (table.lookup callee).isSome ∧ shardOf caller = shardOf callee then none
      else some ⟨if stillCalls table caller callee then table
        else dropEmbeddedCaller table callee caller, []⟩ := by
  rw [removeFromCallee, dropEmbeddedCaller]
  cases found : table.lookup callee with
  | none =>
    rw [ShardedMap.getMut_of_none not_mem_nil found, HashMap.alter, found]
    simp [HashMap.erase_eq_self found]
  | some entry =>
    rw [ShardedMap.getMut_of_some not_mem_nil found]
    simp only [bind_eq_bind, bind_some, isSome_some, true_and]
    by_cases shared : shardOf caller = shardOf callee
    · rw [if_pos shared, ShardedMap.get_of_held (by simp [shared])]
      rfl
    · rw [if_neg shared, ShardedMap.get_of_free (by simpa using shared)]
      simp only [bind_some, calls_lookup]
      by_cases still : stillCalls table caller callee = true
      · rw [if_pos still, if_pos still, ShardedMap.release_cons]
      · rw [if_neg still, if_neg still, HashMap.alter, found]
        exact ShardedMap.release_or_remove not_mem_nil _ _

/-- The callee keeps edges of its own once the edge is gone, and shares a shard with the caller. -/
def Blocks (shardOf : EntityId → S) (table : ResolvedTable) (relation : ResolvedRelation) : Prop :=
  ∃ callee, relation.calleeId = some callee ∧ shardOf callee = shardOf relation.caller ∧
    edgesOf (removeEdge table relation) callee ≠ []

theorem applyRemovedRelation_eq (shardOf : EntityId → S) (index : RelationIndex)
    (relation : ResolvedRelation) :
    (Blocks shardOf index.resolvedRelationIndex relation →
      applyRemovedRelation shardOf (ofIndex index) relation = none) ∧
    (¬ Blocks shardOf index.resolvedRelationIndex relation →
      applyRemovedRelation shardOf (ofIndex index) relation =
        some (ofIndex (ContextEngine.applyRemovedRelation index relation))) := by
  have filed := index.edgesFiled.removeEdge relation
  have entry : ∀ callee, ((removeEdge index.resolvedRelationIndex relation).lookup callee).isSome ↔
      edgesOf (removeEdge index.resolvedRelationIndex relation) callee ≠ [] := by
    intro callee
    cases found : (removeEdge index.resolvedRelationIndex relation).lookup callee with
    | none =>
      have bare : (∅ : RelationEdgeSet).edges = [] := rfl
      simp [edgesOf, found, bare]
    | some set => simpa using filed.edgesOf_ne_nil found
  simp only [applyRemovedRelation, ofIndex, removeFromCaller_eq, bind_eq_bind,
    bind_some, ContextEngine.applyRemovedRelation, removeRelation, Blocks]
  cases relation.calleeId with
  | none => simp
  | some callee =>
    simp only [maybeUntrack_eq, bind_some, removeFromCallee_eq, entry, some.injEq, exists_eq_left']
    constructor
    · rintro ⟨shared, left⟩
      rw [if_pos ⟨left, shared.symm⟩]
      rfl
    · intro granted
      rw [if_neg fun both => granted ⟨both.2.symm, both.1⟩]
      rfl

end Rounds

section Runs

variable (shardOf : EntityId → S)

/-- A run is finished if and only if no round blocks, and then is the run without guards. -/
theorem applyRemovedRelations_eq (index : RelationIndex) (removed : List ResolvedRelation) :
    ((applyRemovedRelations shardOf (ofIndex index) removed).isSome ↔
      ∀ before relation, before ++ [relation] <+: removed → ¬ Blocks shardOf
        (ContextEngine.applyRemovedRelations index before).resolvedRelationIndex relation) ∧
    ∀ edges, applyRemovedRelations shardOf (ofIndex index) removed = some edges →
      edges = ofIndex (ContextEngine.applyRemovedRelations index removed) := by
  induction removed using reverseRecOn with
  | nil =>
    constructor
    · simp [applyRemovedRelations]
    · rintro edges ⟨⟩
      rfl
  | append_singleton removed relation ih =>
    obtain ⟨finished, result⟩ := ih
    have prefixes : (∀ before last, before ++ [last] <+: removed ++ [relation] → ¬ Blocks shardOf
          (ContextEngine.applyRemovedRelations index before).resolvedRelationIndex last) ↔
        (∀ before last, before ++ [last] <+: removed → ¬ Blocks shardOf
          (ContextEngine.applyRemovedRelations index before).resolvedRelationIndex last) ∧
        ¬ Blocks shardOf
          (ContextEngine.applyRemovedRelations index removed).resolvedRelationIndex relation := by
      constructor
      · intro granted
        refine ⟨fun before last inFront => granted before last ?_, granted removed relation ?_⟩
        · exact inFront.trans (List.prefix_append _ _)
        · exact List.prefix_rfl
      · rintro ⟨earlier, here⟩ before last inFront
        rcases List.prefix_concat_iff.1 inFront with whole | inside
        · obtain ⟨rfl, same⟩ := append_inj' whole rfl
          obtain rfl := singleton_inj.1 same
          exact here
        · exact earlier before last inside
    have step : applyRemovedRelations shardOf (ofIndex index) (removed ++ [relation]) =
        (applyRemovedRelations shardOf (ofIndex index) removed).bind fun edges =>
          applyRemovedRelation shardOf edges relation := by
      simp [applyRemovedRelations, foldlM_append]
    have concat : ContextEngine.applyRemovedRelations index (removed ++ [relation]) =
        ContextEngine.applyRemovedRelation
          (ContextEngine.applyRemovedRelations index removed) relation := by
      simp [ContextEngine.applyRemovedRelations]
    rw [prefixes, ← finished, step, concat]
    obtain ⟨blocked, granted⟩ := applyRemovedRelation_eq shardOf
      (ContextEngine.applyRemovedRelations index removed) relation
    cases run : applyRemovedRelations shardOf (ofIndex index) removed with
    | none => simp
    | some edges =>
      rw [result edges run, bind_some]
      by_cases blocks : Blocks shardOf
          (ContextEngine.applyRemovedRelations index removed).resolvedRelationIndex relation
      · simp [blocked blocks, blocks]
      · simp [granted blocks, blocks]

omit [DecidableEq S] in
/-- A removal blocks in a run exactly when the callee, in the shard of the caller, has an edge that
was not removed by then. -/
theorem blocks_applyRemovedRelations (index : RelationIndex) (before : List ResolvedRelation)
    (relation : ResolvedRelation) :
    Blocks shardOf (ContextEngine.applyRemovedRelations index before).resolvedRelationIndex
        relation ↔
      ∃ callee, relation.calleeId = some callee ∧ shardOf callee = shardOf relation.caller ∧
        ∃ edge ∈ edgesOf index.resolvedRelationIndex callee,
          relationIdentity edge ∉ (before ++ [relation]).map relationIdentity := by
  have left : ∀ callee,
      edgesOf (removeEdge (ContextEngine.applyRemovedRelations index before).resolvedRelationIndex
        relation) callee =
      (edgesOf index.resolvedRelationIndex callee).filter fun edge =>
        relationIdentity edge ∉ (before ++ [relation]).map relationIdentity := by
    intro callee
    rw [← edgesOf_applyRemovedRelations, edgesOf_removeEdge, ← edgesOf_removeRelation]
    simp only [ContextEngine.applyRemovedRelations, foldl_append, foldl_cons,
      foldl_nil, ContextEngine.applyRemovedRelation]
  simp only [Blocks, left, ne_eq, filter_eq_nil_iff, decide_eq_true_eq, not_forall, not_not,
    exists_prop]

/-- The removal of edges runs to its end, with the tables it has without guards, if and only if
every removed edge between two keys of one shard comes when all the edges of its callee have been
removed. -/
theorem removal_finishes_iff (shardOf : EntityId → S) (index : RelationIndex)
    (removed : List ResolvedRelation) :
    applyRemovedRelations shardOf (ofIndex index) removed =
        some (ofIndex (ContextEngine.applyRemovedRelations index removed)) ↔
      ∀ before relation, before ++ [relation] <+: removed →
        ∀ callee, relation.calleeId = some callee → shardOf callee = shardOf relation.caller →
          ∀ edge ∈ edgesOf index.resolvedRelationIndex callee,
            relationIdentity edge ∈ (before ++ [relation]).map relationIdentity := by
  obtain ⟨finished, result⟩ := applyRemovedRelations_eq shardOf index removed
  have whole : applyRemovedRelations shardOf (ofIndex index) removed =
      some (ofIndex (ContextEngine.applyRemovedRelations index removed)) ↔
      (applyRemovedRelations shardOf (ofIndex index) removed).isSome := by
    constructor
    · intro same
      rw [same]
      rfl
    · intro ends
      obtain ⟨edges, run⟩ := isSome_iff_exists.1 ends
      rw [run, result edges run]
  rw [whole, finished]
  simp only [blocks_applyRemovedRelations, not_exists, not_and, not_not]

/-- The call of a function by another one. -/
def callOf (caller callee : EntityId) : ResolvedRelation where
  caller := caller
  calleeId := some callee
  calleeName := "walk"
  relationType := .directCall
  span := ⟨0, 4, ⟨1, 0⟩, ⟨1, 4⟩⟩

def indexOf (relations : List ResolvedRelation) : RelationIndex :=
  applyAddedRelations RelationIndex.new relations

/-- The removal of a recursive call hangs when the function calls another one as well, and so does
the removal of a call between two functions of one shard. -/
theorem removal_hangs :
    applyRemovedRelations (fun id => id) (ofIndex (indexOf [callOf 1 1, callOf 1 2]))
        [callOf 1 1] = none ∧
      applyRemovedRelations (fun id => id % 2) (ofIndex (indexOf [callOf 1 3, callOf 3 2]))
        [callOf 1 3] = none := by
  constructor
  · exact isNone_iff_eq_none.1 (by decide +kernel)
  · exact isNone_iff_eq_none.1 (by decide +kernel)

end Runs

end GuardedEdges

end ContextEngine

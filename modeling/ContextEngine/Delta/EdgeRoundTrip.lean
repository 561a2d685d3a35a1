/- digest: Exactly when replaying a full delta reproduces every edge of the new index. -/

import ContextEngine.Delta.GuardedReplay

set_option autoImplicit false

namespace ContextEngine

open RelationIndex

def EdgesAgree (left right : RelationIndex) : Prop :=
  (∀ caller, (edgesOf left.resolvedRelationIndex caller).Perm
    (edgesOf right.resolvedRelationIndex caller)) ∧
  ∀ path, (edgesOf left.fileRelationIndex path).Perm (edgesOf right.fileRelationIndex path)

/-- Every edge the diff finds again is unchanged in the fields the diff does not compare, and
no file-level edge is found again at a path whose record the new index lost. -/
structure FoundEdgesUnchanged (old new : RelationIndex) : Prop where
  entityEdges : ∀ caller, ∀ before ∈ edgesOf old.resolvedRelationIndex caller,
    ∀ after ∈ edgesOf new.resolvedRelationIndex caller,
      SameForDiff before after → before = after
  fileEdges : ∀ path, ∀ before ∈ edgesOf old.fileRelationIndex path,
    ∀ after ∈ edgesOf new.fileRelationIndex path, SameForDiff before after →
      before = after ∧
        ¬((old.fileRecords.lookup path).isSome ∧ (new.fileRecords.lookup path).isNone)

private theorem edges_perm_iff {K : Type} [DecidableEq K] (left right : HashMap K RelationEdgeSet)
    (key : K) :
    (edgesOf left key).Perm (edgesOf right key) ↔
      ∀ edge, edge ∈ edgesOf left key ↔ edge ∈ edgesOf right key :=
  List.perm_ext_iff_of_nodup (List.Nodup.of_map _ (nodup_edgesOf left key))
    (List.Nodup.of_map _ (nodup_edgesOf right key))

/-- A list rebuilt from the found old elements and the unfound new ones is the new list exactly
when found elements are equal to what they were found as. -/
private theorem rebuilt_iff {before after : List ResolvedRelation} {stays : Prop}
    (distinct : (after.map relationIdentity).Nodup) :
    (∀ edge, ((stays ∧ edge ∈ before ∧ ∃ other ∈ after, SameForDiff other edge) ∨
        (edge ∈ after ∧ ¬∃ other ∈ before, SameForDiff other edge)) ↔ edge ∈ after) ↔
      ∀ old ∈ before, ∀ new ∈ after, SameForDiff old new → old = new ∧ stays := by
  constructor
  · intro rebuilt old oldMem new newMem same
    have stays' : stays := by
      rcases (rebuilt new).2 newMem with ⟨stays', -⟩ | ⟨-, unfound⟩
      · exact stays'
      · exact absurd ⟨old, oldMem, same⟩ unfound
    have kept : old ∈ after := (rebuilt old).1 (Or.inl ⟨stays', oldMem, new, newMem, same.symm⟩)
    exact ⟨List.inj_on_of_nodup_map distinct kept newMem same.1, stays'⟩
  · intro unchanged edge
    constructor
    · rintro (⟨-, mem, other, otherMem, same⟩ | ⟨mem, -⟩)
      · rw [(unchanged edge mem other otherMem same.symm).1]
        exact otherMem
      · exact mem
    · intro mem
      by_cases found : ∃ other ∈ before, SameForDiff other edge
      · obtain ⟨other, otherMem, same⟩ := found
        obtain ⟨rfl, stays'⟩ := unchanged other otherMem edge mem same
        exact Or.inl ⟨stays', otherMem, other, mem, SameForDiff.refl other⟩
      · exact Or.inr ⟨mem, found⟩

section Replay

variable [Sha256]

theorem edgesAgree_replayed_iff (old new : RelationIndex) (epoch baseEpoch : Int)
    (config : String) (newValid : new.validateSnapshot = .ok ()) :
    EdgesAgree (replayed new old epoch baseEpoch config none) new ↔
      FoundEdgesUnchanged old new := by
  have valid := (validateSnapshot_iff new).1 newValid
  have entity : ∀ caller, (edgesOf (replayed new old epoch baseEpoch config
        none).resolvedRelationIndex caller).Perm (edgesOf new.resolvedRelationIndex caller) ↔
      ∀ before ∈ edgesOf old.resolvedRelationIndex caller,
        ∀ after ∈ edgesOf new.resolvedRelationIndex caller,
          SameForDiff before after → before = after := by
    intro caller
    have member : ∀ edge, edge ∈ edgesOf (replayed new old epoch baseEpoch config
          none).resolvedRelationIndex caller ↔
        (True ∧ edge ∈ edgesOf old.resolvedRelationIndex caller ∧
            ∃ other ∈ edgesOf new.resolvedRelationIndex caller, SameForDiff other edge) ∨
          (edge ∈ edgesOf new.resolvedRelationIndex caller ∧
            ¬∃ other ∈ edgesOf old.resolvedRelationIndex caller, SameForDiff other edge) := by
      intro edge
      rw [mem_edgesOf_replayed scopeAgrees_none]
      have inScope : ∀ index : RelationIndex, ∀ c, callerInScope index none c = true :=
        fun _ _ => rfl
      simp only [KeptByDiff, inScope, true_and, forall_const, Bool.true_eq_false,
        false_implies, and_true]
      refine or_congr ⟨?_, ?_⟩ (and_congr_right fun mem => ?_)
      · rintro ⟨-, mem, kept⟩
        rw [old.edgesFiled.caller_eq mem] at kept
        exact ⟨mem, kept⟩
      · rintro ⟨mem, other, otherMem, same⟩
        refine ⟨fun lost => ?_, mem, ?_⟩
        · have live := valid.live_of_edge otherMem
          rw [Option.isNone_iff_eq_none.1 lost.2.2] at live
          cases live
        · rw [old.edgesFiled.caller_eq mem]
          exact ⟨other, otherMem, same⟩
      · rw [new.edgesFiled.caller_eq mem]
    rw [edges_perm_iff, forall_congr' fun edge => iff_congr (member edge) Iff.rfl,
      rebuilt_iff (nodup_edgesOf _ _)]
    simp only [and_true]
  have file : ∀ path, (edgesOf (replayed new old epoch baseEpoch config
        none).fileRelationIndex path).Perm (edgesOf new.fileRelationIndex path) ↔
      ∀ before ∈ edgesOf old.fileRelationIndex path,
        ∀ after ∈ edgesOf new.fileRelationIndex path, SameForDiff before after →
          before = after ∧
            ¬((old.fileRecords.lookup path).isSome ∧ (new.fileRecords.lookup path).isNone) := by
    intro path
    have removed : path ∈ (computeDelta new old epoch baseEpoch config none).removedFiles ↔
        (old.fileRecords.lookup path).isSome ∧ (new.fileRecords.lookup path).isNone := by
      rw [mem_removedFiles]
      exact ⟨fun both => both.2, fun both => ⟨rfl, both⟩⟩
    rw [edges_perm_iff, ← rebuilt_iff (nodup_edgesOf new.fileRelationIndex path)]
    refine forall_congr' fun edge => iff_congr ?_ Iff.rfl
    rw [mem_fileEdges_replayed, if_pos (show scopeContains none path = true from rfl), removed]
    rfl
  constructor
  · exact fun agree => ⟨fun caller => (entity caller).1 (agree.1 caller),
      fun path => (file path).1 (agree.2 path)⟩
  · exact fun unchanged => ⟨fun caller => (entity caller).2 (unchanged.entityEdges caller),
      fun path => (file path).2 (unchanged.fileEdges path)⟩

/-- Replaying the unscoped delta of two indexes onto the old one yields the edges of the new
one, in every field, exactly when no found edge changed outside the compared fields, no
file-level edge was found at a removed file, and every removal is granted. -/
theorem edgesAgree_replayedGuarded_iff {S : Type} [DecidableEq S] (shardOf : EntityId → S)
    (old new : RelationIndex) (epoch baseEpoch : Int) (config : String)
    (newValid : new.validateSnapshot = .ok ()) :
    (∃ index, replayedGuarded shardOf new old epoch baseEpoch config none = some index ∧
        EdgesAgree index new) ↔
      FoundEdgesUnchanged old new ∧ RemovalsGranted shardOf new old none := by
  rw [exists_replayedGuarded_iff (P := (EdgesAgree · new)),
    edgesAgree_replayed_iff old new epoch baseEpoch config newValid]

end Replay

section Sample

/-- The digest of the one input the sample indexes hash. -/
@[reducible] def sampleSha256 : Sha256 where
  hexDigest bytes :=
    if bytes = asBytes "function" then
      "78f9ac018e554365069108352dacabb7fbd15246edf19400677e3b54fe24e126"
    else ""

/-- A span that starts and ends on the given rows. -/
def rowSpan (first last : Nat) : Span := ⟨10 * first, 10 * last, ⟨first, 0⟩, ⟨last, 0⟩⟩

def functionAt (id : EntityId) (name : String) (row : Nat) : Entity :=
  Entity.new id .function name (rowSpan row row)

def methodCallIndex (owner : Option String) : RelationIndex :=
  ((RelationIndex.new.addFunctionWithPath 1 (functionAt 1 "main" 1) "src/main.rs"
    ).addFunctionWithPath 2 (functionAt 2 "run" 7) "src/main.rs").addResolvedRelation
      { caller := 1
        calleeId := some 2
        calleeName := "run"
        relationType := .instanceMethodCall
        span := rowSpan 2 2
        ownerType := owner
        callFrequency := 1 }

/-- An edit that only resolves the receiver type of a call is lost by the replay. -/
theorem ownerType_not_replayed :
    (methodCallIndex none).validateSnapshot = .ok () ∧
      (methodCallIndex (some "Job")).validateSnapshot = .ok () ∧
      ¬∃ index, @replayedGuarded _ _ sampleSha256 (fun id => id) (methodCallIndex (some "Job"))
          (methodCallIndex none) 2 1 "" none = some index ∧
        EdgesAgree index (methodCallIndex (some "Job")) := by
  let _ := sampleSha256
  refine ⟨by decide, by decide, fun replays => ?_⟩
  have agree := (exists_replayedGuarded_iff (P := (EdgesAgree · _))).1 replays
  exact absurd (agree.1.1 1) (by decide)

theorem edgesAgree_replayedGuarded_iff_methodCall :
    (∃ index, @replayedGuarded _ _ sampleSha256 (fun id => id) (methodCallIndex none)
        (methodCallIndex none) 2 1 "" none = some index ∧ EdgesAgree index (methodCallIndex none)) ↔
      FoundEdgesUnchanged (methodCallIndex none) (methodCallIndex none) ∧
        @RemovalsGranted _ sampleSha256 (fun id => id) (methodCallIndex none)
          (methodCallIndex none) none :=
  @edgesAgree_replayedGuarded_iff sampleSha256 _ _ (fun id => id) _ _ 2 1 "" (by decide)

end Sample

end ContextEngine

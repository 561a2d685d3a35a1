/- digest: Exactly when replaying a delta leaves no table entry without its entity. -/

import ContextEngine.Delta.EntityReconstruction
import ContextEngine.Delta.EdgeRoundTrip

set_option autoImplicit false

namespace ContextEngine

open List RelationIndex RelationIndexView

/-- The snapshot validates, and the name, file and symbol tables mention only stored entities. -/
structure NoDangling [Sha256] (index : RelationIndex) : Prop where
  valid : index.validateSnapshot = .ok ()
  name_live : ∀ name, ∀ id ∈ index.nameIndex.bucket name, index.Live id
  member_live : ∀ id, (index.entityFileIndex.lookup id).isSome → index.Live id
  row_live : ∀ path, ∀ item ∈ rowsAt index.fileEntitiesByStart path, index.Live (ofLex item).2
  key_live : ∀ key id, index.symbolKeyToEntity.lookup key = some id → index.Live id
  keyed_live : ∀ id, (index.entityToSymbolKey.lookup id).isSome → index.Live id
  stable_keyed : ∀ stableId id, index.stableIdToEntity.lookup stableId = some id →
    ∃ key, index.symbolKeyToEntity.lookup key = some id ∧ key.stableId = stableId

/-- When the delta of two indexes takes every mention of a lost entity with it. -/
structure LossesAreComplete [Sha256] (old new : RelationIndex)
    (scope : Option (HashSet String)) : Prop where
  noRename : NoRenameCandidate new old scope
  keysGo : ∀ key id, old.symbolKeyToEntity.lookup key = some id →
    LostEntity new old scope id ∨ FileRemoved new old scope key.filePath →
      LostKey new old scope key
  rowsGo : ∀ path, ¬FileRemoved new old scope path →
    ∀ item ∈ rowsAt old.fileEntitiesByStart path, LostEntity new old scope (ofLex item).2 →
      OwnFirstRow old path item
  edgesGo : ∀ caller, callerInScope old scope caller = false →
    ∀ edge ∈ edgesOf old.resolvedRelationIndex caller, ∀ callee, edge.calleeId = some callee →
      LostEntity new old scope callee → caller ∈ callersAt old.reverseCalleeIndex callee
  fileEdgesGo : ∀ path, scopeContains scope path = false →
    ∀ edge ∈ edgesOf old.fileRelationIndex path, ∀ callee, edge.calleeId = some callee →
      ¬LostEntity new old scope callee

section Registration

variable [Sha256] {index : RelationIndex}

theorem noDangling_new : NoDangling RelationIndex.new where
  valid := rfl
  name_live _ _ mem := absurd mem not_mem_nil
  member_live _ some := nomatch some
  row_live _ _ mem := absurd mem not_mem_nil
  key_live _ _ found := nomatch found
  keyed_live _ some := nomatch some
  stable_keyed _ _ found := nomatch found

omit [Sha256] in
theorem live_addFunctionWithPath {entityId id : EntityId} {entity : Entity} {path : String} :
    (index.addFunctionWithPath entityId entity path).Live id ↔ id = entityId ∨ index.Live id := by
  unfold Live
  change ((index.functionIndex.insert entityId entity).lookup id).isSome ↔ _
  rw [HashMap.lookup_insert_eq]
  split_ifs with same
  · simp [same]
  · simp [same]

omit [Sha256] in
theorem storedUnderOwnIds_addFunctionWithPath (own : StoredUnderOwnIds index) (entity : Entity)
    (path : String) :
    StoredUnderOwnIds (index.addFunctionWithPath entity.id entity path) := by
  intro id stored found
  change (index.functionIndex.insert entity.id entity).lookup id = some stored at found
  rw [HashMap.lookup_insert_eq] at found
  split_ifs at found with same
  · rw [← Option.some.inj found, same]
  · exact own id stored found

theorem NoDangling.addFunctionWithPath (sound : NoDangling index) (entityId : EntityId)
    (entity : Entity) (path : String) :
    NoDangling (index.addFunctionWithPath entityId entity path) := by
  have valid := (validateSnapshot_iff index).1 sound.valid
  have grows : ∀ {id}, index.Live id →
      (index.addFunctionWithPath entityId entity path).Live id := fun live =>
    live_addFunctionWithPath.2 (Or.inr live)
  have own : (index.addFunctionWithPath entityId entity path).Live entityId :=
    live_addFunctionWithPath.2 (Or.inl rfl)
  have members : ∀ id, ((index.addFunctionWithPath entityId entity path).entityFileIndex.lookup
      id).isSome ↔ id = entityId ∨ (index.entityFileIndex.lookup id).isSome := by
    intro id
    change ((index.entityFileIndex.insert entityId path).lookup id).isSome ↔ _
    rw [HashMap.lookup_insert_eq]
    split_ifs with same <;> simp [same]
  refine ⟨(validateSnapshot_iff _).2 ⟨?_, ?_, ?_, ?_, ?_, ?_, ?_⟩, ?_, ?_, ?_, ?_, ?_, ?_⟩
  · exact fun caller set found => grows (valid.caller_live caller set found)
  · exact fun caller edge mem callee hit => grows (valid.callee_live caller edge mem callee hit)
  · exact fun file edge mem callee hit => grows (valid.file_callee_live file edge mem callee hit)
  · intro id live
    rw [members]
    exact (live_addFunctionWithPath.1 live).imp_right (valid.member id)
  · exact valid.key_listed
  · exact valid.listed_live
  · exact valid.listed_path
  · intro name id listed
    rcases (mem_bucket_nameIndex_insertFunction index).1 listed with ⟨rfl, -⟩ | ⟨before, -⟩
    · exact own
    · exact grows (sound.name_live name id before)
  · intro id member
    rcases (members id).1 member with rfl | before
    · exact own
    · exact grows (sound.member_live id before)
  · intro file item mem
    rcases mem_rowsAt_trackFileEntity.1 mem with ⟨-, -, rfl⟩ | before
    · exact own
    · refine grows (sound.row_live file item ?_)
      cases stored : index.functionIndex.lookup entityId with
      | none =>
        rw [stored] at before
        exact before
      | some old =>
        cases filed : index.entityFileIndex.lookup entityId with
        | none =>
          rw [stored, filed] at before
          exact before
        | some oldFile =>
          rw [stored, filed] at before
          exact (mem_rowsAt_untrackFileEntity.1 before).1
  · exact fun key id found => grows (sound.key_live key id found)
  · exact fun id keyed => grows (sound.keyed_live id keyed)
  · exact sound.stable_keyed

end Registration

section Renames

variable [Sha256]

private theorem not_live_foldl_applyRenamedEntity {renamed : List RenamedEntity}
    {index : RelationIndex} {id : EntityId} (others : ∀ r ∈ renamed, r.newId ≠ id)
    (gone : id ∈ renamed.map RenamedEntity.oldId ∨ index.functionIndex.lookup id = none) :
    (renamed.foldl applyRenamedEntity index).functionIndex.lookup id = none := by
  induction renamed generalizing index with
  | nil => exact gone.resolve_left not_mem_nil
  | cons r l ih =>
    refine ih (fun r mem => others r (mem_cons_of_mem _ mem)) ?_
    have distinct : id ≠ r.newId := (others r mem_cons_self).symm
    rw [map_cons, mem_cons] at gone
    by_cases own : id = r.oldId
    · right
      simp only [applyRenamedEntity]
      cases found : index.functionIndex.lookup r.oldId with
      | none =>
        rw [own]
        exact found
      | some entity =>
        simp only
        rw [AList.lookup_insert_ne distinct, own, AList.lookup_erase]
    · rcases gone with (same | later) | absent
      · exact absurd same own
      · exact Or.inl later
      · right
        simp only [applyRenamedEntity]
        cases index.functionIndex.lookup r.oldId with
        | none => exact absent
        | some entity =>
          simp only
          rw [AList.lookup_insert_ne distinct, AList.lookup_erase_ne own]
          exact absent

variable {old new : RelationIndex} {epoch baseEpoch : Int} {config : String}
  {scope : Option (HashSet String)}

theorem stale_name_of_rename (own : StoredUnderOwnIds new) {pair : RenamedEntity}
    (paired : pair ∈ (computeEntityDiff new old scope).renamedEntities) :
    ∃ name, pair.oldId ∈ (replayed new old epoch baseEpoch config scope).nameIndex.bucket name ∧
      ¬(replayed new old epoch baseEpoch config scope).Live pair.oldId := by
  let files := filesReplayed new old epoch baseEpoch config scope
  let diff := computeEntityDiff new old scope
  let removed := lossesReplayed new old epoch baseEpoch config scope
  have tables : (replayed new old epoch baseEpoch config scope).entityTables =
      (applyAddedEntities (applyRenamedEntities removed diff.renamedEntities)
        diff.addedEntities).entityTables := entityTables_replayed_eq
  have lost : LostEntity new old scope pair.oldId :=
    (lost_iff new old scope).1 (Or.inr (mem_map_of_mem paired))
  obtain ⟨entity, stored⟩ := Option.isSome_iff_exists.1 lost.1
  have unremoved : pair.oldId ∉ diff.removedEntities := by
    intro mem
    have unpaired := of_decide_eq_true (mem_filter.1 mem).2
    exact unpaired (mem_map_of_mem paired)
  have elsewhere : ∀ fresh ∈ addedEntityCandidates new old scope, fresh.entity.id ≠ pair.oldId := by
    intro fresh mem same
    obtain ⟨id, found, inNew, -, -, rfl⟩ := (mem_addedEntityCandidates new old scope).1 mem
    rw [addedEntity_entity, own id found inNew] at same
    exact not_lost_of_live_new (by rw [← same]; exact Option.isSome_of_eq_some inNew) lost
  have unadded : pair.oldId ∉ addedIds diff.addedEntities := by
    intro mem
    obtain ⟨fresh, freshMem, same⟩ := mem_map.1 mem
    obtain ⟨item, itemMem, rfl⟩ := mem_map.1 freshMem
    exact elsewhere item.1 (fst_mem_of_mem_zipIdx (mem_filter.1 itemMem).1) same
  have unmoved : ∀ r ∈ diff.renamedEntities, r.newId ≠ pair.oldId := by
    intro r mem
    obtain ⟨gone, -, fresh, freshMem, -, rfl⟩ := mem_pairRenames mem
    exact elsewhere fresh freshMem
  have names : (replayed new old epoch baseEpoch config scope).nameIndex =
      (applyAddedEntities (applyRenamedEntities removed diff.renamedEntities)
        diff.addedEntities).nameIndex := congrArg EntityTables.nameIndex tables
  have functions : (replayed new old epoch baseEpoch config scope).functionIndex =
      (applyAddedEntities (applyRenamedEntities removed diff.renamedEntities)
        diff.addedEntities).functionIndex := congrArg EntityTables.functionIndex tables
  have some : diff.renamedEntities.isEmpty = false :=
    isEmpty_eq_false_iff.2 (ne_nil_of_mem paired)
  have renames : applyRenamedEntities removed diff.renamedEntities =
      (diff.renamedEntities.foldl applyRenamedEntity removed).rebuildReverseCalleeIndex := by
    unfold applyRenamedEntities
    rw [if_neg (by rw [some]; exact Bool.false_ne_true)]
  refine ⟨entity.name, ?_, ?_⟩
  · rw [names]
    refine mem_nameIndex_applyAddedEntities_of_notMem _ _ unadded ?_
    rw [renames]
    change pair.oldId ∈
      (diff.renamedEntities.foldl applyRenamedEntity removed).nameIndex.bucket entity.name
    rw [foldl_frame nameIndex applyRenamedEntity (fun _ _ => rfl)]
    refine (mem_bucket_nameIndex_applyRemovedEntities _ _).2 ⟨?_, fun both => unremoved both.1⟩
    have grouped : files.nameIndex = groupByName old.functionIndex.toList :=
      frame_applyFiles old.detachedClone nameIndex (fun _ _ => rfl) (fun _ _ => rfl) _ _
    rw [grouped, mem_bucket_groupByName]
    exact ⟨entity, HashMap.mem_toList.2 stored, rfl⟩
  · unfold Live
    rw [functions, functionIndex_applyAddedEntities, HashMap.isSome_lookup_extend, map_map, not_or]
    refine ⟨unadded, ?_⟩
    rw [renames]
    change ¬((diff.renamedEntities.foldl applyRenamedEntity removed).functionIndex.lookup
      pair.oldId).isSome = true
    rw [not_live_foldl_applyRenamedEntity unmoved (Or.inl (mem_map_of_mem paired))]
    exact Bool.false_ne_true

end Renames

section Replay

variable [Sha256] {old new : RelationIndex} {epoch baseEpoch : Int} {config : String}
  {scope : Option (HashSet String)}

section

variable (oldSound : NoDangling old) (newValid : new.SnapshotValid) (own : StoredUnderOwnIds new)

include oldSound newValid own

private theorem lossesAreComplete_of_noDangling (agree : AgreeOutside old new scope)
    (sound : NoDangling (replayed new old epoch baseEpoch config scope)) :
    LossesAreComplete old new scope := by
  have oldValid := (validateSnapshot_iff old).1 oldSound.valid
  have valid := (validateSnapshot_iff _).1 sound.valid
  have none : NoRenameCandidate new old scope := by
    rw [← renamedEntities_eq_nil_iff]
    by_contra some
    obtain ⟨pair, paired⟩ := exists_mem_of_ne_nil _ some
    obtain ⟨name, listed, dead⟩ := stale_name_of_rename own paired
    exact dead (sound.name_live name pair.oldId listed)
  have grown : SymbolsGrow _ _ (replayed new old epoch baseEpoch config scope) :=
    symbolsGrow_replayed none
  have live : ∀ {id}, (replayed new old epoch baseEpoch config scope).Live id →
      ¬LostEntity new old scope id := fun stored =>
    not_lost_of_live_new ((live_replayed_iff none own oldValid newValid agree).1 stored)
  have agrees := scopeAgrees_of_agreeOutside oldValid agree
  refine ⟨none, ?_, ?_, ?_, ?_⟩
  · intro key id named lost
    by_contra stays
    have before : (lossesReplayed new old epoch baseEpoch config scope).symbolKeyToEntity.lookup
        key = some id := by
      rw [lookup_symbolKeyToEntity_lossesReplayed none, if_neg stays]
      exact named
    have after := grown.key_kept key id before
    rcases lost with lost | removed
    · exact live (sound.key_live key id after) lost
    · have listed := valid.key_listed key (Option.isSome_of_eq_some after)
      rcases grown.listed_new key.filePath key listed with early | ⟨⟨other, fresh, found⟩, -⟩
      · exact ((mem_fileSymbolKeys_lossesReplayed none).1 early).1 removed
      · obtain rfl : other = id := Option.some.inj (found.symm.trans after)
        exact ((mem_addedIds_candidates own).1 fresh).2.2 (oldSound.key_live key other named)
  · intro path kept item mem lost
    by_contra stays
    have before : item ∈ rowsAt
        (lossesReplayed new old epoch baseEpoch config scope).fileEntitiesByStart path :=
      (mem_rowsAt_lossesReplayed none).2 ⟨kept, mem, fun both => stays both.2⟩
    exact live (sound.row_live path item (mem_rowsAt_replayed_of_losses none before)) lost
  · intro caller outside edge mem callee hit lost
    by_contra unseen
    have after : edge ∈ edgesOf
        (replayed new old epoch baseEpoch config scope).resolvedRelationIndex caller := by
      rw [mem_edgesOf_replayed agrees]
      refine Or.inl ⟨fun gone => ?_, mem, fun inside => ?_, fun _ removedId _ seen target => ?_⟩
      · have inside := gone.2.1
        rw [outside] at inside
        cases inside
      · rw [outside] at inside
        cases inside
      · obtain rfl : callee = removedId := Option.some.inj (hit.symm.trans target)
        exact unseen seen
    exact live (valid.callee_live caller edge after callee hit) lost
  · intro path outside edge mem callee hit lost
    have after : edge ∈ edgesOf
        (replayed new old epoch baseEpoch config scope).fileRelationIndex path := by
      rw [mem_fileEdges_replayed, if_neg (by rw [outside]; exact Bool.false_ne_true)]
      exact mem
    exact live (valid.file_callee_live path edge after callee hit) lost

private theorem snapshotValid_replayed (agree : AgreeOutside old new scope)
    (complete : LossesAreComplete old new scope) :
    (replayed new old epoch baseEpoch config scope).SnapshotValid := by
  have oldValid := (validateSnapshot_iff old).1 oldSound.valid
  have none := complete.noRename
  have grown : SymbolsGrow _ _ (replayed new old epoch baseEpoch config scope) :=
    symbolsGrow_replayed none
  have live : ∀ {id}, new.Live id → (replayed new old epoch baseEpoch config scope).Live id :=
    (live_replayed_iff none own oldValid newValid agree).2
  have survives : ∀ {id}, old.Live id → ¬LostEntity new old scope id →
      (replayed new old epoch baseEpoch config scope).Live id := fun stored kept =>
    live (live_new_of_not_lost oldValid agree stored kept)
  have agrees := scopeAgrees_of_agreeOutside oldValid agree
  have ends : ∀ caller, ∀ edge ∈ edgesOf
      (replayed new old epoch baseEpoch config scope).resolvedRelationIndex caller,
      (replayed new old epoch baseEpoch config scope).Live caller ∧
        ∀ callee, edge.calleeId = some callee →
          (replayed new old epoch baseEpoch config scope).Live callee := by
    intro caller edge mem
    rw [mem_edgesOf_replayed agrees] at mem
    rcases mem with ⟨kept, inOld, inside, outside⟩ | ⟨inNew, -, -⟩
    · refine ⟨survives (oldValid.live_of_edge inOld) kept, fun callee hit => ?_⟩
      cases within : callerInScope old scope caller with
      | true =>
        obtain ⟨twin, twinMem, -, same⟩ := inside within
        rw [old.edgesFiled.caller_eq inOld] at twinMem
        have target := (calleeId_eq_of_relationIdentity_eq same.1).trans hit
        exact live (newValid.callee_live caller twin twinMem callee target)
      | false =>
        refine survives (oldValid.callee_live caller edge inOld callee hit) fun lost => ?_
        have seen := complete.edgesGo caller within edge inOld callee hit lost
        exact outside within callee (HashSet.mem_ofList.2 ((mem_lostIds none).2 lost)) seen hit
    · exact ⟨live (newValid.live_of_edge inNew), fun callee hit =>
        live (newValid.callee_live caller edge inNew callee hit)⟩
  refine ⟨?_, ?_, ?_, ?_, ?_, ?_, ?_⟩
  · intro caller set found
    have some := (replayed new old epoch baseEpoch config scope).edgesFiled.edgesOf_ne_nil found
    obtain ⟨edge, mem⟩ := exists_mem_of_ne_nil _ some
    exact (ends caller edge mem).1
  · exact fun caller edge mem => (ends caller edge mem).2
  · intro path edge mem callee hit
    rw [mem_fileEdges_replayed] at mem
    split_ifs at mem with within
    · rcases mem with ⟨-, -, twin, twinMem, same⟩ | ⟨inNew, -⟩
      · have target := (calleeId_eq_of_relationIdentity_eq same.1).trans hit
        exact live (newValid.file_callee_live path twin twinMem callee target)
      · exact live (newValid.file_callee_live path edge inNew callee hit)
    · exact survives (oldValid.file_callee_live path edge mem callee hit)
        (complete.fileEdgesGo path (Bool.eq_false_iff.2 within) edge mem callee hit)
  · intro id stored
    rw [isSome_entityFileIndex_replayed none, mem_addedIds_candidates own]
    have stored := (live_replayed_iff none own oldValid newValid agree).1 stored
    by_cases before : old.Live id
    · right
      rw [lookup_entityFileIndex_lossesReplayed none, if_neg (not_lost_of_live_new stored)]
      exact oldValid.member id before
    · exact Or.inl ⟨stored, inScope_of_live_new newValid agree stored before, before⟩
  · intro key registered
    obtain ⟨id, found⟩ := Option.isSome_iff_exists.1 registered
    rcases grown.key_new key id found with early | ⟨-, listed⟩
    · rw [lookup_symbolKeyToEntity_lossesReplayed none] at early
      split_ifs at early with lost
      have before := oldValid.key_listed key (Option.isSome_of_eq_some early)
      refine grown.listed_kept _ _ ((mem_fileSymbolKeys_lossesReplayed none).2 ⟨?_, before, ?_⟩)
      · exact fun removed => lost (complete.keysGo key id early (Or.inr removed))
      · exact fun both => lost both.1
    · exact listed
  · intro path key listed
    rcases grown.listed_new path key listed with early | ⟨⟨id, -, found⟩, -⟩
    · obtain ⟨-, before, stays⟩ := (mem_fileSymbolKeys_lossesReplayed none).1 early
      obtain ⟨id, found⟩ := Option.isSome_iff_exists.1 (oldValid.listed_live path key before)
      have own := oldValid.listed_path path key before
      refine Option.isSome_of_eq_some (grown.key_kept key id ?_)
      rw [lookup_symbolKeyToEntity_lossesReplayed none, if_neg fun lost => stays ⟨lost, own⟩]
      exact found
    · exact Option.isSome_of_eq_some found
  · intro path key listed
    rcases grown.listed_new path key listed with early | ⟨-, own⟩
    · exact oldValid.listed_path path key ((mem_fileSymbolKeys_lossesReplayed none).1 early).2.1
    · exact own

private theorem noDangling_of_lossesAreComplete
    (agree : AgreeOutside old new scope) (complete : LossesAreComplete old new scope) :
    NoDangling (replayed new old epoch baseEpoch config scope) := by
  have oldValid := (validateSnapshot_iff old).1 oldSound.valid
  have none := complete.noRename
  have grown : SymbolsGrow _ _ (replayed new old epoch baseEpoch config scope) :=
    symbolsGrow_replayed none
  have live : ∀ {id}, new.Live id → (replayed new old epoch baseEpoch config scope).Live id :=
    (live_replayed_iff none own oldValid newValid agree).2
  have survives : ∀ {id}, old.Live id → ¬LostEntity new old scope id →
      (replayed new old epoch baseEpoch config scope).Live id := fun stored kept =>
    live (live_new_of_not_lost oldValid agree stored kept)
  have fresh : ∀ {id}, id ∈ addedIds (addedEntityCandidates new old scope) →
      (replayed new old epoch baseEpoch config scope).Live id := fun mem =>
    live ((mem_addedIds_candidates own).1 mem).1
  have keys : ∀ key id, (replayed new old epoch baseEpoch config scope).symbolKeyToEntity.lookup
      key = some id → (replayed new old epoch baseEpoch config scope).Live id := by
    intro key id found
    rcases grown.key_new key id found with early | ⟨mem, -⟩
    · rw [lookup_symbolKeyToEntity_lossesReplayed none] at early
      split_ifs at early with lost
      exact survives (oldSound.key_live key id early) fun gone =>
        lost (complete.keysGo key id early (Or.inl gone))
    · exact fresh mem
  refine ⟨(validateSnapshot_iff _).2
    (snapshotValid_replayed oldSound newValid own agree complete), ?_, ?_, ?_, keys, ?_, ?_⟩
  · intro name id listed
    rcases mem_nameIndex_replayed none listed with early | mem
    · obtain ⟨kept, entity, stored, -⟩ := (mem_nameIndex_lossesReplayed none).1 early
      exact survives (Option.isSome_of_eq_some stored) kept
    · exact fresh mem
  · intro id member
    rcases (isSome_entityFileIndex_replayed none).1 member with mem | early
    · exact fresh mem
    · rw [lookup_entityFileIndex_lossesReplayed none] at early
      split_ifs at early with lost
      · cases early
      · exact survives (oldSound.member_live id early) lost
  · intro path item mem
    rcases mem_rowsAt_replayed none mem with early | mem
    · obtain ⟨kept, before, stays⟩ := (mem_rowsAt_lossesReplayed none).1 early
      exact survives (oldSound.row_live path item before) fun lost =>
        stays ⟨lost, complete.rowsGo path kept item before lost⟩
    · exact fresh mem
  · intro id keyed
    rcases grown.keyed_new id keyed with early | mem
    · rw [lookup_entityToSymbolKey_lossesReplayed none] at early
      split_ifs at early with lost
      · cases early
      · exact survives (oldSound.keyed_live id early) lost
    · exact fresh mem
  · intro stableId id found
    rcases grown.stable_new stableId id found with early | keyed
    · rw [lookup_stableIdToEntity_lossesReplayed none] at early
      split_ifs at early with lost
      obtain ⟨key, before, named⟩ := oldSound.stable_keyed stableId id early
      refine ⟨key, grown.key_kept key id ?_, named⟩
      rw [lookup_symbolKeyToEntity_lossesReplayed none, if_neg fun gone => lost ⟨key, gone, named⟩]
      exact before
    · exact keyed

end

theorem noDangling_replayed_iff (old new : RelationIndex) (epoch baseEpoch : Int)
    (config : String) (scope : Option (HashSet String)) (oldSound : NoDangling old)
    (newValid : new.validateSnapshot = .ok ()) (own : StoredUnderOwnIds new)
    (agree : AgreeOutside old new scope) :
    NoDangling (replayed new old epoch baseEpoch config scope) ↔
      LossesAreComplete old new scope := by
  have valid := (validateSnapshot_iff new).1 newValid
  exact ⟨lossesAreComplete_of_noDangling oldSound valid own agree,
    noDangling_of_lossesAreComplete oldSound valid own agree⟩

end Replay

section Sample

def pairIndex (second : Entity) : RelationIndex :=
  (RelationIndex.new.addFunctionWithPath 1 (functionAt 1 "main" 1) "src/main.rs"
    ).addFunctionWithPath second.id second "src/main.rs"

end Sample

end ContextEngine

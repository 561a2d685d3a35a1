/- digest: The tables of an index that replays a computed delta, and which deltas the scoped check
   takes. -/

import ContextEngine.Delta.EdgeReconstruction
import ContextEngine.Delta.EdgeRoundTrip
import ContextEngine.Delta.EntityReplay
import ContextEngine.Lib.NumberedRows
import ContextEngine.Storage.RelationPublications

set_option autoImplicit false

namespace ContextEngine

open HashMap RelationIndex List RelationIndexView

def RelationIndex.Live (index : RelationIndex) (id : EntityId) : Prop :=
  (index.functionIndex.lookup id).isSome

def StoredUnderOwnIds (index : RelationIndex) : Prop :=
  ∀ id entity, index.functionIndex.lookup id = some entity → entity.id = id

/-- Outside the scope both indexes have the same entities. Their edges may differ. -/
structure AgreeOutside (old new : RelationIndex) (scope : Option (HashSet String)) : Prop where
  membership : ∀ id path, scopeContains scope path = false →
    (old.entityFileIndex.lookup id = some path ↔ new.entityFileIndex.lookup id = some path)
  entity : ∀ id path, scopeContains scope path = false →
    old.entityFileIndex.lookup id = some path →
      old.functionIndex.lookup id = new.functionIndex.lookup id

theorem agreeOutside_none (old new : RelationIndex) : AgreeOutside old new none :=
  ⟨fun _ _ outside => (nomatch outside), fun _ _ outside => (nomatch outside)⟩

def FileRemoved (new old : RelationIndex) (scope : Option (HashSet String)) (path : String) :
    Prop :=
  scopeContains scope path = true ∧ (old.fileRecords.lookup path).isSome ∧
    (new.fileRecords.lookup path).isNone

theorem scopeContains_of_callerInScope {index : RelationIndex} {scope : Option (HashSet String)}
    {id : EntityId} {path : String} (member : index.entityFileIndex.lookup id = some path) :
    callerInScope index scope id = scopeContains scope path := by
  unfold callerInScope entityInScope scopeContains
  rw [member]
  cases scope <;> rfl

theorem live_applyRenamedEntity [Sha256] {index : RelationIndex} {renamed : RenamedEntity}
    {id : EntityId} :
    Live (applyRenamedEntity index renamed) id ↔
      (Live index renamed.oldId ∧ (id = renamed.newId ∨ id ≠ renamed.oldId ∧ Live index id)) ∨
        (¬Live index renamed.oldId ∧ Live index id) := by
  unfold Live
  cases stored : index.functionIndex.lookup renamed.oldId with
  | none =>
    have table : (applyRenamedEntity index renamed).functionIndex = index.functionIndex := by
      simp only [applyRenamedEntity, stored]
    rw [table]
    simp
  | some entity =>
    have table : (applyRenamedEntity index renamed).functionIndex =
        (index.functionIndex.erase renamed.oldId).insert renamed.newId entity := by
      simp only [applyRenamedEntity, stored]
    rw [table, lookup_insert_eq, lookup_erase_eq]
    by_cases new : id = renamed.newId
    · simp [new]
    · by_cases old : id = renamed.oldId
      · rw [if_neg new, if_pos old]
        simp [old, old ▸ new]
      · simp [new, old]

section Liveness

variable {old new : RelationIndex} {scope : Option (HashSet String)} {id : EntityId}

theorem live_new_of_not_lost (oldValid : old.SnapshotValid) (agree : AgreeOutside old new scope)
    (live : old.Live id) (kept : ¬LostEntity new old scope id) : new.Live id := by
  obtain ⟨path, member⟩ := Option.isSome_iff_exists.1 (oldValid.member id live)
  have inScope : callerInScope old scope id = scopeContains scope path :=
    scopeContains_of_callerInScope member
  cases within : scopeContains scope path with
  | true =>
    by_contra dead
    refine kept ⟨live, inScope.trans within, ?_⟩
    rw [Option.isNone_iff_eq_none]
    exact Option.not_isSome_iff_eq_none.1 dead
  | false =>
    unfold Live
    rw [← agree.entity id path within member]
    exact live

theorem not_lost_of_live_new (live : new.Live id) :
    ¬LostEntity new old scope id := by
  intro lost
  unfold Live at live
  rw [Option.isNone_iff_eq_none.1 lost.2.2] at live
  cases live

theorem inScope_of_live_new (newValid : new.SnapshotValid) (agree : AgreeOutside old new scope)
    (live : new.Live id) (fresh : ¬old.Live id) :
    callerInScope new scope id = true := by
  obtain ⟨path, member⟩ := Option.isSome_iff_exists.1 (newValid.member id live)
  rw [scopeContains_of_callerInScope member]
  cases within : scopeContains scope path with
  | true => rfl
  | false =>
    refine absurd ?_ fresh
    unfold Live
    rw [agree.entity id path within ((agree.membership id path within).2 member)]
    exact live

theorem scopeAgrees_of_agreeOutside (oldValid : old.SnapshotValid)
    (agree : AgreeOutside old new scope) : ScopeAgrees new old scope := by
  intro caller inNew
  by_cases edges : edgesOf old.resolvedRelationIndex caller = []
  · exact Or.inr edges
  · obtain ⟨edge, mem⟩ := List.exists_mem_of_ne_nil _ edges
    obtain ⟨path, member⟩ := Option.isSome_iff_exists.1
      (oldValid.member caller (oldValid.live_of_edge mem))
    rw [scopeContains_of_callerInScope member]
    cases within : scopeContains scope path with
    | true => exact Or.inl rfl
    | false =>
      have moved := (agree.membership caller path within).1 member
      rw [scopeContains_of_callerInScope moved, within] at inNew
      cases inNew

end Liveness

section Tables

variable [Sha256] (new old : RelationIndex) (epoch baseEpoch : Int) (config : String)
  (scope : Option (HashSet String))

def filesReplayed : RelationIndex :=
  let delta := computeDelta new old epoch baseEpoch config scope
  applyAddedFiles (applyRemovedFiles old.detachedClone delta.removedFiles) delta.addedFiles

def lostIds : List EntityId := (computeEntityDiff new old scope).removedEntities

def lossesReplayed : RelationIndex :=
  applyRemovedEntities (filesReplayed new old epoch baseEpoch config scope)
    (lostIds new old scope)

variable {new old epoch baseEpoch config scope} {id : EntityId}

theorem mem_lostIds (none : NoRenameCandidate new old scope) :
    id ∈ lostIds new old scope ↔ LostEntity new old scope id :=
  mem_removedEntities_of_noRenameCandidate none

theorem mem_addedIds_candidates (own : StoredUnderOwnIds new) :
    id ∈ addedIds (addedEntityCandidates new old scope) ↔
      new.Live id ∧ callerInScope new scope id = true ∧ ¬old.Live id := by
  unfold addedIds Live
  rw [List.mem_map]
  constructor
  · rintro ⟨fresh, mem, rfl⟩
    obtain ⟨id, entity, found, inScope, absent, rfl⟩ :=
      (mem_addedEntityCandidates new old scope).1 mem
    rw [addedEntity_entity, own id entity found, found]
    exact ⟨rfl, inScope, by simpa using absent⟩
  · rintro ⟨live, inScope, absent⟩
    obtain ⟨entity, found⟩ := Option.isSome_iff_exists.1 live
    refine ⟨addedEntity new id entity, ?_, ?_⟩
    · exact (mem_addedEntityCandidates new old scope).2
        ⟨id, entity, found, inScope, by simpa using absent, rfl⟩
    · rw [addedEntity_entity, own id entity found]

theorem nodup_addedIds_candidates (own : StoredUnderOwnIds new) :
    (addedIds (addedEntityCandidates new old scope)).Nodup := by
  have ids : addedIds (addedEntityCandidates new old scope) =
      (new.functionIndex.toList.filter fun entry =>
        entityInScope scope (new.entityFileIndex.lookup entry.1) &&
          !RelationIndexView.functionContains old entry.1).map Prod.fst := by
    unfold addedIds addedEntityCandidates
    rw [List.map_map]
    refine List.map_congr_left fun entry mem => ?_
    have stored := mem_toList.1 (List.mem_filter.1 mem).1
    change (addedEntity new entry.1 entry.2).entity.id = entry.1
    rw [addedEntity_entity, own entry.1 entry.2 stored]
  rw [ids]
  have keys : (new.functionIndex.toList.map Prod.fst).Nodup := by
    rw [map_fst_toList]
    exact new.functionIndex.keys_nodup
  exact keys.sublist (List.filter_sublist.map Prod.fst)

theorem addedEntity_filePath {entity : Entity} {path : String}
    (member : new.entityFileIndex.lookup id = some path) :
    (addedEntity new id entity).filePath = path := by
  unfold addedEntity
  rw [member]
  cases new.entityToSymbolKey.lookup id <;> rfl

theorem addedEntity_symbolKey {entity : Entity} {path : String} {key : SymbolKey}
    (member : new.entityFileIndex.lookup id = some path)
    (keyed : new.entityToSymbolKey.lookup id = some key) :
    (addedEntity new id entity).symbolKey = key := by
  unfold addedEntity
  rw [member, keyed]

theorem entityTables_replayed_eq :
    (replayed new old epoch baseEpoch config scope).entityTables = (applyAddedEntities
        (applyRenamedEntities (lossesReplayed new old epoch baseEpoch config scope)
          (computeEntityDiff new old scope).renamedEntities)
        (computeEntityDiff new old scope).addedEntities).entityTables := by
  unfold replayed
  rw [entityTables_applyDelta]
  unfold replayEntities
  have renames : (computeDelta new old epoch baseEpoch config scope).renamedEntities =
      (computeEntityDiff new old scope).renamedEntities := by rw [computeDelta_eq]
  have added : (computeDelta new old epoch baseEpoch config scope).addedEntities =
      (computeEntityDiff new old scope).addedEntities := by rw [computeDelta_eq]
  have removed : (computeDelta new old epoch baseEpoch config scope).removedEntities =
      lostIds new old scope := by rw [computeDelta_eq]; rfl
  rw [renames, added, removed]
  rfl

private theorem functionIndex_filesReplayed :
    (filesReplayed new old epoch baseEpoch config scope).functionIndex = old.functionIndex :=
  frame_applyFiles _ functionIndex (fun _ _ => rfl) (fun _ _ => rfl) _ _

private theorem entityFileIndex_filesReplayed :
    (filesReplayed new old epoch baseEpoch config scope).entityFileIndex = old.entityFileIndex :=
  frame_applyFiles _ entityFileIndex (fun _ _ => rfl) (fun _ _ => rfl) _ _

private theorem entityToSymbolKey_filesReplayed :
    (filesReplayed new old epoch baseEpoch config scope).entityToSymbolKey =
      old.entityToSymbolKey :=
  frame_applyFiles _ entityToSymbolKey (fun _ _ => rfl) (fun _ _ => rfl) _ _

variable (none : NoRenameCandidate new old scope)

include none

theorem entityTables_replayed :
    (replayed new old epoch baseEpoch config scope).entityTables =
      (applyAddedEntities (lossesReplayed new old epoch baseEpoch config scope)
        (addedEntityCandidates new old scope)).entityTables := by
  rw [entityTables_replayed_eq, (renamedEntities_eq_nil_iff new old scope).2 none,
    addedEntities_of_noRenameCandidate none]
  rfl

open Classical in
theorem lookup_functionIndex_lossesReplayed (id : EntityId) :
    (lossesReplayed new old epoch baseEpoch config scope).functionIndex.lookup id =
      if LostEntity new old scope id then .none else old.functionIndex.lookup id := by
  unfold lossesReplayed
  rw [functionIndex_applyRemovedEntities, lookup_eraseAll, functionIndex_filesReplayed]
  simp only [mem_lostIds none]

open Classical in
theorem lookup_entityFileIndex_lossesReplayed (id : EntityId) :
    (lossesReplayed new old epoch baseEpoch config scope).entityFileIndex.lookup id =
      if LostEntity new old scope id then .none else old.entityFileIndex.lookup id := by
  unfold lossesReplayed
  rw [entityFileIndex_applyRemovedEntities, lookup_eraseAll, entityFileIndex_filesReplayed]
  simp only [mem_lostIds none]

open Classical in
theorem lookup_entityToSymbolKey_lossesReplayed (id : EntityId) :
    (lossesReplayed new old epoch baseEpoch config scope).entityToSymbolKey.lookup id =
      if LostEntity new old scope id then .none else old.entityToSymbolKey.lookup id := by
  unfold lossesReplayed
  rw [entityToSymbolKey_applyRemovedEntities, lookup_eraseAll, entityToSymbolKey_filesReplayed]
  simp only [mem_lostIds none]

def LostKey (new old : RelationIndex) (scope : Option (HashSet String)) (key : SymbolKey) : Prop :=
  ∃ id, LostEntity new old scope id ∧ old.entityToSymbolKey.lookup id = some key

open Classical in
theorem lookup_symbolKeyToEntity_lossesReplayed (key : SymbolKey) :
    (lossesReplayed new old epoch baseEpoch config scope).symbolKeyToEntity.lookup key =
      if LostKey new old scope key then .none else old.symbolKeyToEntity.lookup key := by
  unfold lossesReplayed
  rw [lookup_symbolKeyToEntity_applyRemovedEntities, entityToSymbolKey_filesReplayed]
  have same : (filesReplayed new old epoch baseEpoch config scope).symbolKeyToEntity =
      old.symbolKeyToEntity :=
    frame_applyFiles _ symbolKeyToEntity (fun _ _ => rfl) (fun _ _ => rfl) _ _
  rw [same]
  simp only [mem_lostIds none]
  rfl

open Classical in
theorem lookup_stableIdToEntity_lossesReplayed (stableId : String) :
    (lossesReplayed new old epoch baseEpoch config scope).stableIdToEntity.lookup stableId =
      if ∃ key, LostKey new old scope key ∧ key.stableId = stableId then .none
      else old.stableIdToEntity.lookup stableId := by
  unfold lossesReplayed
  rw [lookup_stableIdToEntity_applyRemovedEntities, entityToSymbolKey_filesReplayed]
  have same : (filesReplayed new old epoch baseEpoch config scope).stableIdToEntity =
      old.stableIdToEntity :=
    frame_applyFiles _ stableIdToEntity (fun _ _ => rfl) (fun _ _ => rfl) _ _
  have swap : (∃ id ∈ lostIds new old scope, ∃ key,
      old.entityToSymbolKey.lookup id = some key ∧ key.stableId = stableId) ↔
        ∃ key, LostKey new old scope key ∧ key.stableId = stableId := by
    simp only [mem_lostIds none]
    constructor
    · rintro ⟨id, lost, key, keyed, named⟩
      exact ⟨key, ⟨id, lost, keyed⟩, named⟩
    · rintro ⟨key, ⟨id, lost, keyed⟩, named⟩
      exact ⟨id, lost, key, keyed, named⟩
  rw [same]
  simp only [swap]

variable {path : String}

theorem mem_fileSymbolKeys_lossesReplayed {key : SymbolKey} :
    key ∈ (lossesReplayed new old epoch baseEpoch config scope).fileSymbolKeys.bucket path ↔
      ¬FileRemoved new old scope path ∧ key ∈ old.fileSymbolKeys.bucket path ∧
        ¬(LostKey new old scope key ∧ key.filePath = path) := by
  unfold lossesReplayed
  rw [bucket_fileSymbolKeys_applyRemovedEntities, entityToSymbolKey_filesReplayed]
  have same : (filesReplayed new old epoch baseEpoch config scope).fileSymbolKeys =
      (applyRemovedFiles old.detachedClone
        (computeDelta new old epoch baseEpoch config scope).removedFiles).fileSymbolKeys :=
    foldl_frame fileSymbolKeys applyAddedFile (fun _ _ => rfl) _ _
  rw [same, List.mem_filter, bucket_fileSymbolKeys_applyRemovedFiles, decide_eq_true_eq,
    ← and_assoc]
  refine and_congr ?_ (not_congr ?_)
  · have removed : path ∈ (computeDelta new old epoch baseEpoch config scope).removedFiles ↔
        FileRemoved new old scope path := mem_removedFiles
    by_cases gone : FileRemoved new old scope path
    · simp [removed.2 gone, gone]
    · simp only [mt removed.1 gone, if_false, gone, not_false_eq_true, true_and]
      exact Iff.rfl
  · simp only [mem_lostIds none]
    constructor
    · rintro ⟨id, lost, keyed, own⟩
      exact ⟨⟨id, lost, keyed⟩, own⟩
    · rintro ⟨⟨id, lost, keyed⟩, own⟩
      exact ⟨id, lost, keyed, own⟩

def OwnFirstRow (index : RelationIndex) (path : String) (item : Nat ×ₗ EntityId) : Prop :=
  index.entityFileIndex.lookup (ofLex item).2 = some path ∧
    (rowsAt index.fileEntitiesByStart path).find?
      (fun other => (ofLex other).2 = (ofLex item).2) = some item

variable {item : Nat ×ₗ EntityId}

theorem mem_rowsAt_lossesReplayed :
    item ∈ rowsAt (lossesReplayed new old epoch baseEpoch config scope).fileEntitiesByStart path ↔
      ¬FileRemoved new old scope path ∧ item ∈ rowsAt old.fileEntitiesByStart path ∧
        ¬(LostEntity new old scope (ofLex item).2 ∧ OwnFirstRow old path item) := by
  unfold lossesReplayed
  rw [mem_rowsAt_applyRemovedEntities]
  have rows : rowsAt (filesReplayed new old epoch baseEpoch config scope).fileEntitiesByStart
      path = rowsAt (applyRemovedFiles old.detachedClone
        (computeDelta new old epoch baseEpoch config scope).removedFiles).fileEntitiesByStart
          path :=
    congrArg (rowsAt · path) (foldl_frame fileEntitiesByStart applyAddedFile (fun _ _ => rfl) _ _)
  have removed : path ∈ (computeDelta new old epoch baseEpoch config scope).removedFiles ↔
      FileRemoved new old scope path := mem_removedFiles
  rw [rows, rowsAt_applyRemovedFiles, functionIndex_filesReplayed, entityFileIndex_filesReplayed,
    mem_lostIds none]
  by_cases gone : FileRemoved new old scope path
  · simp [removed.2 gone, gone]
  · rw [if_neg (mt removed.1 gone)]
    simp only [gone, not_false_eq_true, true_and]
    refine and_congr_right fun _ => not_congr ?_
    exact ⟨fun ⟨lost, _, member, first⟩ => ⟨lost, member, first⟩,
      fun ⟨lost, member, first⟩ => ⟨lost, lost.1, member, first⟩⟩

variable {id : EntityId}

theorem mem_nameIndex_lossesReplayed {name : String} :
    id ∈ (lossesReplayed new old epoch baseEpoch config scope).nameIndex.bucket name ↔
      ¬LostEntity new old scope id ∧
        ∃ entity, old.functionIndex.lookup id = some entity ∧ entity.name = name := by
  unfold lossesReplayed
  rw [mem_bucket_nameIndex_applyRemovedEntities]
  have names : (filesReplayed new old epoch baseEpoch config scope).nameIndex =
      groupByName old.functionIndex.toList :=
    frame_applyFiles old.detachedClone nameIndex (fun _ _ => rfl) (fun _ _ => rfl) _ _
  rw [names, functionIndex_filesReplayed, mem_bucket_groupByName, mem_lostIds none]
  simp only [mem_toList]
  constructor
  · rintro ⟨stored, kept⟩
    exact ⟨fun lost => kept ⟨lost, stored⟩, stored⟩
  · rintro ⟨kept, stored⟩
    exact ⟨stored, fun both => kept both.1⟩

theorem live_replayed_iff (own : StoredUnderOwnIds new)
    (oldValid : old.SnapshotValid) (newValid : new.SnapshotValid)
    (agree : AgreeOutside old new scope) :
    (replayed new old epoch baseEpoch config scope).Live id ↔ new.Live id := by
  classical
  have table : (replayed new old epoch baseEpoch config scope).functionIndex =
      (lossesReplayed new old epoch baseEpoch config scope).functionIndex.extend
        ((addedEntityCandidates new old scope).map fun a => (a.entity.id, a.entity)) :=
    (congrArg EntityTables.functionIndex (entityTables_replayed none)).trans
      (functionIndex_applyAddedEntities _ _)
  have listed : id ∈ ((addedEntityCandidates new old scope).map
      fun a => (a.entity.id, a.entity)).map Prod.fst ↔
        new.Live id ∧ callerInScope new scope id = true ∧ ¬old.Live id := by
    rw [← mem_addedIds_candidates own, List.map_map]
    rfl
  have after : (replayed new old epoch baseEpoch config scope).Live id ↔
      (new.Live id ∧ callerInScope new scope id = true ∧ ¬old.Live id) ∨
        (¬LostEntity new old scope id ∧ old.Live id) := by
    unfold Live
    rw [table, isSome_lookup_extend, listed, lookup_functionIndex_lossesReplayed none]
    refine or_congr_right ?_
    by_cases lost : LostEntity new old scope id
    · simp [lost]
    · simp [lost]
  rw [after]
  constructor
  · rintro (⟨live, -⟩ | ⟨kept, live⟩)
    · exact live
    · exact live_new_of_not_lost oldValid agree live kept
  · intro live
    by_cases before : old.Live id
    · exact Or.inr ⟨not_lost_of_live_new live, before⟩
    · exact Or.inl ⟨live, inScope_of_live_new newValid agree live before, before⟩

theorem mem_rowsAt_replayed_of_losses
    (mem : item ∈ rowsAt
      (lossesReplayed new old epoch baseEpoch config scope).fileEntitiesByStart path) :
    item ∈ rowsAt (replayed new old epoch baseEpoch config scope).fileEntitiesByStart path := by
  have rows : (replayed new old epoch baseEpoch config scope).fileEntitiesByStart = _ :=
    congrArg EntityTables.fileEntitiesByStart (entityTables_replayed none)
  rw [rows]
  exact mem_rowsAt_applyAddedEntities_of_mem _ _ mem

theorem mem_rowsAt_replayed
    (mem : item ∈ rowsAt (replayed new old epoch baseEpoch config scope).fileEntitiesByStart path) :
    item ∈ rowsAt (lossesReplayed new old epoch baseEpoch config scope).fileEntitiesByStart path ∨
      (ofLex item).2 ∈ addedIds (addedEntityCandidates new old scope) := by
  have rows : (replayed new old epoch baseEpoch config scope).fileEntitiesByStart = _ :=
    congrArg EntityTables.fileEntitiesByStart (entityTables_replayed none)
  rw [rows] at mem
  exact mem_addedIds_or_of_mem_rowsAt _ _ mem

theorem mem_nameIndex_replayed {name : String}
    (mem : id ∈ (replayed new old epoch baseEpoch config scope).nameIndex.bucket name) :
    id ∈ (lossesReplayed new old epoch baseEpoch config scope).nameIndex.bucket name ∨
      id ∈ addedIds (addedEntityCandidates new old scope) := by
  have names : (replayed new old epoch baseEpoch config scope).nameIndex = _ :=
    congrArg EntityTables.nameIndex (entityTables_replayed none)
  rw [names] at mem
  exact mem_addedIds_or_of_mem_nameIndex _ _ mem

theorem isSome_entityFileIndex_replayed :
    ((replayed new old epoch baseEpoch config scope).entityFileIndex.lookup id).isSome ↔
      id ∈ addedIds (addedEntityCandidates new old scope) ∨
        ((lossesReplayed new old epoch baseEpoch config scope).entityFileIndex.lookup
          id).isSome := by
  have members : (replayed new old epoch baseEpoch config scope).entityFileIndex = _ :=
    (congrArg EntityTables.entityFileIndex (entityTables_replayed none)).trans
      (entityFileIndex_applyAddedEntities _ _)
  rw [members, isSome_lookup_extend, List.map_map]
  rfl

theorem symbolsGrow_replayed :
    SymbolsGrow (addedIds (addedEntityCandidates new old scope))
      (lossesReplayed new old epoch baseEpoch config scope)
      (replayed new old epoch baseEpoch config scope) := by
  have tables : (replayed new old epoch baseEpoch config scope).entityTables = _ :=
    entityTables_replayed none
  have keys := congrArg EntityTables.symbolKeyToEntity tables
  have keyed := congrArg EntityTables.entityToSymbolKey tables
  have stable := congrArg EntityTables.stableIdToEntity tables
  have listed := congrArg EntityTables.fileSymbolKeys tables
  simp only [entityTables] at keys keyed stable listed
  have grown := symbolsGrow_applyAddedEntities
    (lossesReplayed new old epoch baseEpoch config scope) (addedEntityCandidates new old scope)
  refine ⟨?_, ?_, ?_, ?_, ?_, ?_⟩
  · rw [keys]
    exact grown.key_kept
  · rw [keys, listed]
    exact grown.key_new
  · rw [keyed]
    exact grown.keyed_new
  · rw [listed]
    exact grown.listed_kept
  · rw [listed, keys]
    exact grown.listed_new
  · rw [stable, keys]
    exact grown.stable_new

end Tables

/-- Every caller and every internal target is stored. The caller of a file-level edge is the file,
the field only a placeholder. -/
structure EdgesHaveEnds (index : RelationIndex) : Prop where
  caller : ∀ key, ∀ edge ∈ edgesOf index.resolvedRelationIndex key, index.Live edge.caller
  target : ∀ key, ∀ edge ∈ edgesOf index.resolvedRelationIndex key, ∀ callee,
    edge.calleeId = some callee → index.Live callee
  fileTarget : ∀ path, ∀ edge ∈ edgesOf index.fileRelationIndex path, ∀ callee,
    edge.calleeId = some callee → index.Live callee

/-- A base as it is read, with the index the delta on it is applied to. -/
structure BaseView (V : Type) [RelationIndexView V] where
  view : V
  index : RelationIndex
  contains : ∀ id, functionContains view id = true ↔ index.Live id
  relations : ∀ caller edge, edge ∈ (relationsOf view caller).getD [] ↔
    edge ∈ edgesOf index.resolvedRelationIndex caller
  fileRelations : ∀ path edge, edge ∈ fileRelationsOf view path ↔
    edge ∈ edgesOf index.fileRelationIndex path

section Check

def Ends (relation : ResolvedRelation) (id : EntityId) : Prop :=
  id = relation.caller ∨ relation.calleeId = some id

theorem Ends.congr {left right : ResolvedRelation} {id : EntityId} (isEnd : Ends left id)
    (same : relationIdentity left = relationIdentity right) : Ends right id := by
  refine isEnd.imp (fun caller => ?_) fun target => ?_
  · exact caller.trans (congrArg RelationEdgeIdentity.caller same)
  · rw [← calleeId_eq_of_relationIdentity_eq same, target]

variable {V : Type} [RelationIndexView V]

/-- Added edges end in the base or in the additions, and the listed edges into a removed entity
are scheduled, each with all that join the same pair, or go with their caller. -/
structure Checked (base : V) (delta : SnapshotDelta) : Prop where
  added : ∀ relation ∈ delta.addedRelations, ∀ id, Ends relation id →
    functionContains base id = true ∨ id ∈ addedIds delta.addedEntities
  removed : ∀ removedId ∈ delta.removedEntities, ∀ relation ∈ relationsToEntity base removedId,
    relation.caller ∈ delta.removedEntities ∨ ∃ scheduled ∈ delta.removedRelations,
      scheduled.caller = relation.caller ∧ scheduled.calleeId = some removedId

theorem validateDeltaScoped_eq_ok_iff (base : V) (delta : SnapshotDelta) :
    validateDeltaScoped base delta = .ok () ↔ Checked base delta := by
  unfold validateDeltaScoped
  constructor
  · intro accepted
    obtain ⟨_, added, removed⟩ := Runs.bind_eq_ok.1 accepted
    refine ⟨fun relation mem id ends => ?_, fun removedId mem relation listed => ?_⟩
    · have passed := NumberedRows.forM_eq_ok_iff.1 added relation mem
      split_ifs at passed with unknown
      rcases ends with rfl | target
      · unfold addedIds
        tauto
      · rw [target] at passed
        simp only at passed
        split_ifs at passed with missing
        unfold addedIds
        tauto
    · have passed := NumberedRows.forM_eq_ok_iff.1
        (NumberedRows.forM_eq_ok_iff.1 removed removedId mem) relation listed
      split_ifs at passed with covered
      refine covered.imp_right fun scheduled => ?_
      obtain ⟨other, otherMem, pair⟩ := mem_filterMap.1 scheduled
      obtain ⟨callee, target, same⟩ := Option.map_eq_some_iff.1 pair
      obtain ⟨caller, rfl⟩ := Prod.mk.inj same
      exact ⟨other, otherMem, caller, target⟩
  · intro checked
    refine Runs.bind_eq_ok.2 ⟨(), NumberedRows.forM_eq_ok_iff.2 fun relation mem => ?_,
      NumberedRows.forM_eq_ok_iff.2 fun removedId mem =>
        NumberedRows.forM_eq_ok_iff.2 fun relation listed => ?_⟩
    · have known := checked.added relation mem
      rw [if_neg fun unknown => (known _ (Or.inl rfl)).elim unknown.1 unknown.2]
      cases target : relation.calleeId with
      | none => rfl
      | some callee =>
        exact if_neg fun missing => (known callee (Or.inr target)).elim missing.1 missing.2
    · refine if_pos ((checked.removed removedId mem relation listed).imp_right ?_)
      rintro ⟨other, otherMem, caller, target⟩
      exact mem_filterMap.2 ⟨other, otherMem, by rw [target, caller, Option.map_some]⟩

end Check

section Replay

def renameLive (live : EntityId → Prop) (renamed : RenamedEntity) (id : EntityId) : Prop :=
  (live renamed.oldId ∧ id = renamed.newId) ∨ (live id ∧ id ≠ renamed.oldId)

theorem renameLive_foldl_of_notMem {live : EntityId → Prop} {l : List RenamedEntity}
    {id : EntityId} (stays : id ∉ l.map RenamedEntity.oldId) (stored : live id) :
    l.foldl renameLive live id := by
  induction l generalizing live with
  | nil => exact stored
  | cons r l ih =>
    rw [map_cons, mem_cons, not_or] at stays
    exact ih stays.2 (Or.inr ⟨stored, stays.1⟩)

def StoredAfter (index : RelationIndex) (delta : SnapshotDelta) (id : EntityId) : Prop :=
  id ∈ addedIds delta.addedEntities ∨ delta.renamedEntities.foldl renameLive
    (fun id => index.Live id ∧ id ∉ delta.removedEntities) id

def patchIdentities (filed : String → RelationEdgeIdentity → Prop) (diff : FileRelationDiff)
    (path : String) (identity : RelationEdgeIdentity) : Prop :=
  (path = diff.filePath ∧ identity ∈ diff.addedRelations.map relationIdentity) ∨
    (filed path identity ∧
      ¬(path = diff.filePath ∧ identity ∈ diff.removedRelations.map relationIdentity))

def FiledAfter (index : RelationIndex) (delta : SnapshotDelta) :
    String → RelationEdgeIdentity → Prop :=
  delta.fileRelationDiffs.foldl patchIdentities fun path identity => path ∉ delta.removedFiles ∧
    identity ∈ (edgesOf index.fileRelationIndex path).map relationIdentity

def RelationEdgeIdentity.calleeId (identity : RelationEdgeIdentity) : Option EntityId :=
  match identity.kind with
  | .internal calleeId _ => some calleeId
  | _ => none

theorem calleeId_relationIdentity (relation : ResolvedRelation) :
    (relationIdentity relation).calleeId = relation.calleeId := by
  unfold relationIdentity RelationEdgeIdentity.calleeId
  cases relation.calleeId with
  | some callee => rfl
  | none => cases relation.isExternal <;> rfl

/-- The delta takes away no end of an edge it adds, schedules by their own identity the edges of
the remaining callers into what it takes away, and leaves no file-level edge into it. -/
structure EndsStay (index : RelationIndex) (delta : SnapshotDelta) : Prop where
  added : ∀ relation ∈ delta.addedRelations, ∀ id, Ends relation id → index.Live id →
    StoredAfter index delta id
  kept : ∀ caller, caller ∉ delta.removedEntities →
    caller ∉ delta.renamedEntities.map RenamedEntity.oldId →
    ∀ edge ∈ edgesOf index.resolvedRelationIndex caller, ∀ callee, edge.calleeId = some callee →
      ¬StoredAfter index delta callee →
        relationIdentity edge ∈ delta.removedRelations.map relationIdentity
  file : ∀ path identity, FiledAfter index delta path identity → ∀ callee,
    identity.calleeId = some callee → StoredAfter index delta callee

variable [Sha256] {index : RelationIndex} {delta : SnapshotDelta}

theorem live_applyDelta_iff {id : EntityId} :
    (applyDelta index delta).Live id ↔ StoredAfter index delta id := by
  have renames : ∀ (l : List RenamedEntity) (start : RelationIndex),
      (l.foldl applyRenamedEntity start).Live = l.foldl renameLive start.Live := by
    refine fun l start => (foldl_hom Live fun start r => funext fun id => propext ?_).symm
    rw [live_applyRenamedEntity, renameLive]
    by_cases old : id = r.oldId
    · subst old
      tauto
    · tauto
  let files := applyAddedFiles (applyRemovedFiles index delta.removedFiles) delta.addedFiles
  let kept := applyRemovedEntities files delta.removedEntities
  have removals : kept.Live = fun id => index.Live id ∧ id ∉ delta.removedEntities := by
    funext id
    have same : files.functionIndex = index.functionIndex :=
      frame_applyFiles index functionIndex (fun _ _ => rfl) (fun _ _ => rfl) _ _
    unfold Live
    rw [functionIndex_applyRemovedEntities, same, HashMap.lookup_eraseAll]
    split_ifs with gone <;> simp [gone]
  have renamed : (applyRenamedEntities kept delta.renamedEntities).Live =
      delta.renamedEntities.foldl renameLive kept.Live := by
    rw [← renames]
    unfold applyRenamedEntities
    split_ifs with none
    · rw [isEmpty_iff.1 none]
      rfl
    · rfl
  have tables := congrArg EntityTables.functionIndex (entityTables_applyDelta index delta)
  unfold Live at renamed ⊢
  change (applyDelta index delta).functionIndex = (applyAddedEntities
    (applyRenamedEntities kept delta.renamedEntities) delta.addedEntities).functionIndex at tables
  rw [tables, functionIndex_applyAddedEntities, HashMap.isSome_lookup_extend, map_map]
  exact or_congr_right ((iff_of_eq (congrFun renamed id)).trans (by rw [← removals]; rfl))

theorem mem_fileIdentities_applyDelta {path : String} {identity : RelationEdgeIdentity} :
    identity ∈ (edgesOf (applyDelta index delta).fileRelationIndex path).map relationIdentity ↔
      FiledAfter index delta path identity := by
  have inserted : ∀ (l : List ResolvedRelation) (set : RelationEdgeSet),
      identity ∈ (l.foldl RelationEdgeSet.insert set).edges.map relationIdentity ↔
        identity ∈ l.map relationIdentity ∨ identity ∈ set.edges.map relationIdentity := by
    intro l set
    refine (foldl_iff_or (fun set => identity ∈ (RelationEdgeSet.edges set).map relationIdentity)
      (fun set r => ?_) l set).trans (or_congr_left mem_map.symm)
    rw [RelationEdgeSet.edges_insert]
    split_ifs with present
    · exact (or_iff_right_of_imp fun same => same ▸ present).symm
    · rw [map_append, mem_append, map_singleton, mem_singleton, or_comm, eq_comm]
  have diffs : ∀ (l : List FileRelationDiff) (table : FileRelationTable)
      (filed : String → RelationEdgeIdentity → Prop),
      (∀ path, identity ∈ (edgesOf table path).map relationIdentity ↔ filed path identity) →
      (identity ∈ (edgesOf (l.foldl patchFileRelations table) path).map relationIdentity ↔
        l.foldl patchIdentities filed path identity) := by
    intro l
    induction l with
    | nil => exact fun _ _ agree => agree path
    | cons diff l ih =>
      intro table filed agree
      refine ih (patchFileRelations table diff) (patchIdentities filed diff) fun path => ?_
      rw [edgesOf_patchFileRelations, patchIdentities, ← agree]
      split_ifs with own
      · subst own
        rw [patchEdges, inserted, edges_foldl_removeByIdentity]
        simp only [true_and]
        refine or_congr_right ?_
        change identity ∈ ((edgesOf table diff.filePath).filter _).map _ ↔ _
        simp only [mem_map, mem_filter, decide_eq_true_eq]
        constructor
        · rintro ⟨edge, ⟨mem, unlisted⟩, rfl⟩
          exact ⟨⟨edge, mem, rfl⟩, unlisted⟩
        · rintro ⟨⟨edge, mem, rfl⟩, unlisted⟩
          exact ⟨edge, ⟨mem, unlisted⟩, rfl⟩
      · simp [own]
  rw [fileRelationIndex_applyDelta]
  refine diffs _ _ _ fun path => ?_
  rw [edgesOf_applyRemovedFiles]
  split_ifs with gone <;> simp [gone]

/-- A delta whose added edges are known leaves no edge without its ends exactly when none of its
losses is such an end. -/
theorem edgesHaveEnds_applyDelta_iff (sound : EdgesHaveEnds index)
    (known : ∀ relation ∈ delta.addedRelations, ∀ id, Ends relation id →
      index.Live id ∨ id ∈ addedIds delta.addedEntities) :
    EdgesHaveEnds (applyDelta index delta) ↔ EndsStay index delta := by
  -- what an identity says of its ends is what each edge that has it says
  have identities : ∀ {key identity}, identity ∈ (edgesOf (applyDelta index delta
      ).resolvedRelationIndex key).map relationIdentity → EdgesHaveEnds (applyDelta index delta) →
      StoredAfter index delta identity.caller ∧ ∀ callee, identity.calleeId = some callee →
        StoredAfter index delta callee := by
    rintro key _ mem ends
    obtain ⟨edge, edgeMem, rfl⟩ := mem_map.1 mem
    refine ⟨live_applyDelta_iff.1 (ends.caller key edge edgeMem), fun callee target => ?_⟩
    rw [calleeId_relationIdentity] at target
    exact live_applyDelta_iff.1 (ends.target key edge edgeMem callee target)
  constructor
  · intro ends
    refine ⟨fun relation mem id isEnd _ => ?_,
      fun caller live stays edge mem callee target lost => ?_,
      fun path identity filed callee target => ?_⟩
    · obtain ⟨callerStored, targetStored⟩ := identities (mem_identities_applyDelta.2
        (Or.inr ⟨mem_map_of_mem mem, rfl⟩)) ends
      rcases isEnd with rfl | target
      · exact callerStored
      · exact targetStored id ((calleeId_relationIdentity relation).trans target)
    · by_contra unscheduled
      refine lost ((identities (mem_identities_applyDelta.2 (Or.inl
        ⟨live, stays, mem_map_of_mem mem, unscheduled⟩)) ends).2 callee ?_)
      rw [calleeId_relationIdentity, target]
    · obtain ⟨edge, mem, rfl⟩ := mem_map.1 (mem_fileIdentities_applyDelta.2 filed)
      rw [calleeId_relationIdentity] at target
      exact live_applyDelta_iff.1 (ends.fileTarget path edge mem callee target)
  · intro stay
    have added : ∀ relation ∈ delta.addedRelations, ∀ id, Ends relation id →
        StoredAfter index delta id := fun relation mem id isEnd =>
      (known relation mem id isEnd).elim (stay.added relation mem id isEnd) Or.inl
    have both : ∀ {key edge}, edge ∈ edgesOf (applyDelta index delta).resolvedRelationIndex key →
        ∀ id, Ends edge id → StoredAfter index delta id := by
      intro key edge mem id isEnd
      rcases mem_identities_applyDelta.1 (mem_map_of_mem mem) with
        ⟨live, stays, before, unscheduled⟩ | ⟨listed, -⟩
      · obtain ⟨old, oldMem, same⟩ := mem_map.1 before
        rcases isEnd.congr same.symm with rfl | target
        · have own := index.edgesFiled.caller_eq oldMem
          have ends := sound.caller key old oldMem
          rw [own] at ends ⊢
          exact Or.inr (renameLive_foldl_of_notMem stays ⟨ends, live⟩)
        · by_contra lost
          rw [← same] at unscheduled
          exact unscheduled (stay.kept key live stays old oldMem id target lost)
      · obtain ⟨relation, relationMem, same⟩ := mem_map.1 listed
        exact added relation relationMem id (isEnd.congr same.symm)
    refine ⟨fun key edge mem => ?_, fun key edge mem callee target => ?_,
      fun path edge mem callee target => ?_⟩
    · exact live_applyDelta_iff.2 (both mem _ (Or.inl rfl))
    · exact live_applyDelta_iff.2 (both mem _ (Or.inr target))
    · exact live_applyDelta_iff.2 (stay.file path _ (mem_fileIdentities_applyDelta.1
        (mem_map_of_mem mem)) callee ((calleeId_relationIdentity edge).trans target))


end Replay

section Computed

variable [Sha256] (old new : RelationIndex) (scope : Option (HashSet String))

def AddsEntity (id : EntityId) : Prop :=
  ∃ item ∈ (addedEntityCandidates new old scope).zipIdx, item.1.entity.id = id ∧
    item.2 ∉ (pairRenames (addedEntityCandidates new old scope)
      (removedEntityMeta new old scope) []).2

def GainedEndsKnown : Prop :=
  ∀ edge, edge ∈ edgesOf new.resolvedRelationIndex edge.caller →
    callerInScope new scope edge.caller = true → ¬KeptByDiff old scope edge →
      ∀ id, Ends edge id → old.Live id ∨ AddsEntity old new scope id

theorem validateDeltaScoped_computeDelta_iff (newValid : new.SnapshotValid)
    (epoch baseEpoch : Int) (config : String) :
    validateDeltaScoped old (computeDelta new old epoch baseEpoch config scope) = .ok () ↔
      GainedEndsKnown old new scope := by
  have adds : ∀ id, id ∈ addedIds (computeEntityDiff new old scope).addedEntities ↔
      AddsEntity old new scope id := by
    intro id
    simp only [addedIds, computeEntityDiff, AddsEntity, mem_map, mem_filter, decide_eq_true_eq]
    constructor
    · rintro ⟨_, ⟨item, ⟨mem, unpaired⟩, rfl⟩, same⟩
      exact ⟨item, mem, same, unpaired⟩
    · rintro ⟨item, mem, same, unpaired⟩
      exact ⟨item.1, ⟨item, ⟨mem, unpaired⟩, rfl⟩, same⟩
  rw [validateDeltaScoped_eq_ok_iff, computeDelta_eq]
  constructor
  · intro checked edge mem inScope unkept id isEnd
    exact (checked.added edge
      ((mem_addedRelations new old scope (removedSet new old scope)).2 ⟨mem, inScope, unkept⟩)
      id isEnd).imp_right (adds id).1
  · intro known
    refine ⟨fun relation mem id isEnd => ?_, fun removedId removedMem relation listed => ?_⟩
    · obtain ⟨inNew, inScope, unkept⟩ :=
        (mem_addedRelations new old scope (removedSet new old scope)).1 mem
      exact (known relation inNew inScope unkept id isEnd).imp_right (adds id).2
    · obtain ⟨caller, callerMem, inOld⟩ := mem_flatMap.1 listed
      obtain ⟨inOld, hit⟩ := mem_filter.1 inOld
      rw [getD_relationsOf] at inOld
      obtain rfl := old.edgesFiled.caller_eq inOld
      refine or_iff_not_imp_left.2 fun stays => ?_
      have scheduled := (mem_removedRelations_iff new old scope (removedSet new old scope)
        inOld).2 ?_
      · obtain ⟨other, otherMem, same⟩ := mem_map.1 scheduled
        exact ⟨other, otherMem, congrArg RelationEdgeIdentity.caller same,
          (calleeId_eq_of_relationIdentity_eq same).trans (of_decide_eq_true hit)⟩
      cases inScope : callerInScope old scope relation.caller with
      | true =>
        refine Or.inl ⟨fun gone => stays (HashSet.mem_ofList.1 gone), rfl, ?_⟩
        rintro ⟨other, otherMem, -, same⟩
        have live := newValid.callee_live _ other otherMem removedId
          ((calleeId_eq_of_relationIdentity_eq same.1).trans (of_decide_eq_true hit))
        have gone := ((lost_iff new old scope).1 (Or.inl removedMem)).2.2
        rw [Option.isNone_iff_eq_none.1 gone] at live
        cases live
      | false =>
        exact Or.inr ⟨rfl, removedId, HashSet.mem_ofList.2 removedMem, callerMem,
          of_decide_eq_true hit⟩

end Computed

/-- What is accepted on a base whose edges have their ends leaves edges that have theirs, and what
is computed between two valid indexes is accepted. -/
structure ScopedValidationExact [Sha256] {V : Type} [RelationIndexView V] (base : BaseView V)
    (delta : SnapshotDelta) (old new : RelationIndex) (epoch baseEpoch : Int) (config : String)
    (scope : Option (HashSet String)) : Prop where
  sound : EdgesHaveEnds base.index → validateDeltaScoped base.view delta = .ok () →
    EdgesHaveEnds (applyDelta base.index delta)
  accepts : old.SnapshotValid → new.SnapshotValid →
    validateDeltaScoped old (computeDelta new old epoch baseEpoch config scope) = .ok ()

/-- The check is exact just when a delta that passes it takes away no end of what stays, and the
ends of what a caller gained are known without the rename pairs. -/
theorem scopedValidationExact_iff [Sha256] {V : Type} [RelationIndexView V] (base : BaseView V)
    (delta : SnapshotDelta) (old new : RelationIndex) (epoch baseEpoch : Int) (config : String)
    (scope : Option (HashSet String)) :
    ScopedValidationExact base delta old new epoch baseEpoch config scope ↔
      (EdgesHaveEnds base.index → Checked base.view delta → EndsStay base.index delta) ∧
        (old.SnapshotValid → new.SnapshotValid → GainedEndsKnown old new scope) := by
  have replay : ∀ sound : EdgesHaveEnds base.index, ∀ checked : Checked base.view delta,
      EdgesHaveEnds (applyDelta base.index delta) ↔ EndsStay base.index delta :=
    fun sound checked => edgesHaveEnds_applyDelta_iff sound fun relation mem id isEnd =>
      (checked.added relation mem id isEnd).imp_left (base.contains id).1
  constructor
  · rintro ⟨sound, accepts⟩
    refine ⟨fun ends checked => (replay ends checked).1 ?_, fun oldValid newValid => ?_⟩
    · exact sound ends ((validateDeltaScoped_eq_ok_iff base.view delta).2 checked)
    · exact (validateDeltaScoped_computeDelta_iff old new scope newValid epoch baseEpoch config).1
        (accepts oldValid newValid)
  · rintro ⟨stay, known⟩
    refine ⟨fun ends accepted => ?_, fun oldValid newValid => ?_⟩
    · have checked := (validateDeltaScoped_eq_ok_iff base.view delta).1 accepted
      exact (replay ends checked).2 (stay ends checked)
    · exact (validateDeltaScoped_computeDelta_iff old new scope newValid epoch baseEpoch config).2
        (known oldValid newValid)

section Sample

def RelationIndex.baseView (index : RelationIndex) : BaseView RelationIndex where
  view := index
  index := index
  contains _ := Iff.rfl
  relations caller _ := by rw [getD_relationsOf]
  fileRelations _ _ := Iff.rfl

theorem edgesHaveEnds_of_snapshotValid {index : RelationIndex} (valid : index.SnapshotValid) :
    EdgesHaveEnds index := by
  refine ⟨fun key edge mem => ?_, valid.callee_live, valid.file_callee_live⟩
  rw [index.edgesFiled.caller_eq mem]
  exact valid.live_of_edge mem

/-- A rename of the called function that keeps the call passes and leaves it without a target. -/
theorem renamedTarget_accepted : ¬@ScopedValidationExact sampleSha256 _ _
    (methodCallIndex none).baseView
    { epoch := 2, baseEpoch := 1, configFingerprint := "",
      renamedEntities := [⟨2, 3, "run", "start"⟩] }
    (methodCallIndex none) (methodCallIndex none) 2 1 "" none := by
  let _ := sampleSha256
  rintro ⟨sound, -⟩
  have ends := sound (edgesHaveEnds_of_snapshotValid ((validateSnapshot_iff _).1 (by decide)))
    (by decide)
  have stored := ends.target 1 _ mem_cons_self 2 rfl
  exact absurd stored (by unfold Live; decide)

end Sample

end ContextEngine

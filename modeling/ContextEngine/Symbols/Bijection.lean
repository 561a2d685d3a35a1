/- digest: When the key tables of every state of a run are inverse and the key lists exact. -/

import ContextEngine.Delta.NoDangling
import ContextEngine.Delta.RecordRoundTrip
import ContextEngine.Index.Operations
import ContextEngine.Lib.Inverse

set_option autoImplicit false

namespace ContextEngine

open RelationIndex RelationIndex Runs HashMap

section Tables

def RelationIndex.KeyHeld (index : RelationIndex) (key : SymbolKey) : Prop :=
  ∃ id, index.entityToSymbolKey.lookup id = some key ∧ Live index id

/-- Keys and entities are inverse to each other, and the list of a file has exactly the keys of
its stored entities, each once. -/
structure KeysBijective (index : RelationIndex) : Prop where
  inverse : MutuallyInverse index.symbolKeyToEntity index.entityToSymbolKey
  listed : ListsExactly index.fileSymbolKeys StableSymbolKey.filePath index.KeyHeld

theorem KeysBijective.new : KeysBijective new where
  inverse := .empty
  listed := .empty fun key => by
    rintro ⟨id, keyed, -⟩
    cases keyed

theorem KeysBijective.congr {index other : RelationIndex} (keys : KeysBijective index)
    (functions : other.functionIndex = index.functionIndex)
    (owners : other.symbolKeyToEntity = index.symbolKeyToEntity)
    (keyOf : other.entityToSymbolKey = index.entityToSymbolKey)
    (lists : other.fileSymbolKeys = index.fileSymbolKeys) : KeysBijective other := by
  refine ⟨?_, ?_⟩
  · rw [owners, keyOf]
    exact keys.inverse
  · rw [lists]
    refine keys.listed.congr fun key => ?_
    unfold KeyHeld Live
    rw [functions, keyOf]

variable {index : RelationIndex}

theorem KeysBijective.insertFunction (keys : KeysBijective index) {entityId : EntityId}
    {entity : Entity}
    (unkeyed : Live index entityId ∨ index.entityToSymbolKey.lookup entityId = none) :
    KeysBijective (index.insertFunction entityId entity) where
  inverse := keys.inverse
  listed := by
    refine keys.listed.congr fun key => exists_congr fun id => and_congr_right fun keyed => ?_
    change _ ↔ ((index.functionIndex.insert entityId entity).lookup id).isSome
    rw [lookup_insert_eq]
    split_ifs with same
    · subst same
      have live := unkeyed.resolve_right fun none => by
        rw [none] at keyed
        cases keyed
      exact iff_of_true live rfl
    · exact Iff.rfl

theorem KeysBijective.removeFunction (keys : KeysBijective index) (entityId : EntityId) :
    KeysBijective (index.removeFunction entityId) where
  inverse := keys.inverse
  listed := by
    have held : ∀ key, (index.removeFunction entityId).KeyHeld key ↔
        ∃ id, index.entityToSymbolKey.lookup id = some key ∧ id ≠ entityId ∧ Live index id := by
      refine fun key => exists_congr fun id => and_congr_right fun _ => ?_
      change ((index.functionIndex.erase entityId).lookup id).isSome ↔ _
      rw [lookup_erase_eq]
      split_ifs with same
      · exact iff_of_false (fun found => by cases found) fun both => both.1 same
      · exact (and_iff_right same).symm
    by_cases own : ∃ key, index.entityToSymbolKey.lookup entityId = some key ∧ Live index entityId
    · obtain ⟨key, keyed, live⟩ := own
      have lists : (index.removeFunction entityId).fileSymbolKeys =
          index.fileSymbolKeys.bucketErase key.filePath key := by
        obtain ⟨entity, stored⟩ := Option.isSome_iff_exists.1 live
        simp only [RelationIndex.removeFunction, stored, keyed]
      rw [lists]
      refine (keys.listed.erase key).congr fun other => ?_
      rw [held]
      constructor
      · rintro ⟨distinct, id, here, found⟩
        refine ⟨id, here, ?_, found⟩
        rintro rfl
        rw [keyed] at here
        exact distinct (Option.some.inj here).symm
      · rintro ⟨id, here, distinct, found⟩
        refine ⟨?_, id, here, found⟩
        rintro rfl
        rw [← keys.inverse, (keys.inverse _ _).2 keyed] at here
        exact distinct (Option.some.inj here).symm
    · have lists : (index.removeFunction entityId).fileSymbolKeys = index.fileSymbolKeys := by
        cases stored : index.functionIndex.lookup entityId with
        | none => simp only [RelationIndex.removeFunction, stored]
        | some entity =>
          cases keyed : index.entityToSymbolKey.lookup entityId with
          | none => simp only [RelationIndex.removeFunction, stored, keyed]
          | some key => exact absurd ⟨key, keyed, Option.isSome_iff_exists.2 ⟨entity, stored⟩⟩ own
      rw [lists]
      refine keys.listed.congr fun key => ?_
      rw [held]
      refine exists_congr fun id => and_congr_right fun keyed => ?_
      refine (and_iff_right_of_imp fun found => ?_).symm
      rintro rfl
      exact own ⟨key, keyed, found⟩

end Tables

section Registration

variable [Sha256] {index : RelationIndex}

def RegisterKeepsKeys (index : RelationIndex) (filePath scopedName : String) (entity : Entity)
    (entityId : EntityId) : Prop :=
  ∀ key, index.resolveSymbolKey filePath scopedName entity entityId = .placed key →
    Live index entityId ∧ index.entityToSymbolKey.lookup entityId = none

theorem KeysBijective.registerSymbolKey (keys : KeysBijective index)
    {filePath scopedName : String} {entity : Entity} {entityId : EntityId}
    (keeps : RegisterKeepsKeys index filePath scopedName entity entityId) :
    KeysBijective (index.registerSymbolKey filePath scopedName entity entityId) := by
  unfold RelationIndex.registerSymbolKey
  cases outcome : index.resolveSymbolKey filePath scopedName entity entityId with
  | kept => exact ⟨keys.inverse, keys.listed⟩
  | conflict key existing => exact ⟨keys.inverse, keys.listed⟩
  | placed key =>
    obtain ⟨live, unkeyed⟩ := keeps key outcome
    have free : index.symbolKeyToEntity.lookup key = none := by
      refine (lookup_of_resolveSymbolKey_placed index outcome).resolve_right fun owned => ?_
      rw [keys.inverse, unkeyed] at owned
      cases owned
    have absent : ¬index.KeyHeld key := by
      rintro ⟨id, keyed, -⟩
      rw [← keys.inverse, free] at keyed
      cases keyed
    refine ⟨keys.inverse.insert free unkeyed, (keys.listed.push absent).congr fun other => ?_⟩
    have lookup : ∀ id, AList.lookup id (index.entityToSymbolKey.insert entityId key) =
        if id = entityId then some key else index.entityToSymbolKey.lookup id := fun id =>
      lookup_insert_eq _ _ _ _
    change _ ↔ ∃ id, AList.lookup id (index.entityToSymbolKey.insert entityId key) =
      some other ∧ Live index id
    simp only [lookup]
    constructor
    · rintro (rfl | ⟨id, keyed, found⟩)
      · exact ⟨entityId, if_pos rfl, live⟩
      · refine ⟨id, (if_neg ?_).trans keyed, found⟩
        rintro rfl
        rw [unkeyed] at keyed
        cases keyed
    · rintro ⟨id, keyed, found⟩
      split_ifs at keyed with same
      · exact Or.inl (Option.some.inj keyed).symm
      · exact Or.inr ⟨id, keyed, found⟩

theorem lookup_registerSymbolKey_of_owned {filePath scopedName : String} {entity : Entity}
    {entityId owner : EntityId} {key : SymbolKey}
    (owned : index.symbolKeyToEntity.lookup key = some owner) :
    (index.registerSymbolKey filePath scopedName entity entityId).symbolKeyToEntity.lookup key =
      some owner := by
  unfold registerSymbolKey
  cases outcome : index.resolveSymbolKey filePath scopedName entity entityId with
  | kept => exact owned
  | conflict _ _ => exact owned
  | placed own =>
    change AList.lookup key (index.symbolKeyToEntity.insert own entityId) = some owner
    rw [lookup_insert_eq]
    split_ifs with same
    · rcases lookup_of_resolveSymbolKey_placed index outcome with none | kept
      · rw [← same, owned] at none
        cases none
      · rw [← same, owned] at kept
        exact kept.symm
    · exact owned

def symbolTables (index : RelationIndex) : HashMap SymbolKey EntityId × HashMap EntityId SymbolKey ×
    HashMap String EntityId × HashMap String (List SymbolKey) :=
  (index.symbolKeyToEntity, index.entityToSymbolKey, index.stableIdToEntity, index.fileSymbolKeys)

/-- The plain key has an owner and the request is granted a key all the same. -/
def PlacedUnderSpan (index : RelationIndex) (filePath scopedName : String) (entity : Entity)
    (entityId : EntityId) : Prop :=
  (index.symbolKeyToEntity.lookup (StableSymbolKey.forEntity filePath scopedName entity)).isSome ∧
    ∃ key, index.resolveSymbolKey filePath scopedName entity entityId = .placed key

section Again

variable {filePath scopedName : String} {entity : Entity} {entityId : EntityId} {key : SymbolKey}

theorem resolveSymbolKey_again (span : PlacedUnderSpan index filePath scopedName entity entityId)
    (placed : index.resolveSymbolKey filePath scopedName entity entityId = .placed key) :
    (index.registerSymbolKey filePath scopedName entity entityId).resolveSymbolKey filePath
      scopedName entity entityId = .placed key := by
  obtain ⟨existing, owned⟩ := Option.isSome_iff_exists.1 span.1
  have still : (index.registerSymbolKey filePath scopedName entity
      entityId).symbolKeyToEntity.lookup
        (StableSymbolKey.forEntity filePath scopedName entity) = some existing :=
    lookup_registerSymbolKey_of_owned owned
  have own : (index.registerSymbolKey filePath scopedName entity entityId).symbolKeyToEntity.lookup
      key = some entityId := by
    simp only [registerSymbolKey, placed]
    exact AList.lookup_insert _
  have functions : (index.registerSymbolKey filePath scopedName entity entityId).functionIndex =
      index.functionIndex := rfl
  unfold resolveSymbolKey at placed ⊢
  simp only [owned] at placed
  simp only [still, functions]
  split_ifs at placed with same clash
  obtain rfl := SymbolRegistration.placed.inj placed
  rw [Bool.or_eq_true, not_or] at clash
  rw [if_neg same, own, if_neg]
  rw [Bool.or_eq_true, not_or]
  exact ⟨clash.1, by simp⟩

/-- Registering a second time changes no table unless the first time placed a span-suffixed
key, which is then listed twice. -/
theorem symbolTables_registerSymbolKey_again_iff :
    symbolTables ((index.registerSymbolKey filePath scopedName entity entityId).registerSymbolKey
        filePath scopedName entity entityId) =
      symbolTables (index.registerSymbolKey filePath scopedName entity entityId) ↔
        ¬PlacedUnderSpan index filePath scopedName entity entityId := by
  let once := index.registerSymbolKey filePath scopedName entity entityId
  have settled : ∀ {outcome}, once.resolveSymbolKey filePath scopedName entity entityId = outcome →
      (∀ key, outcome ≠ .placed key) →
      symbolTables (once.registerSymbolKey filePath scopedName entity entityId) =
        symbolTables once := by
    intro outcome same notPlaced
    unfold registerSymbolKey
    rw [same]
    cases outcome with
    | kept => rfl
    | conflict _ _ => rfl
    | placed key => exact absurd rfl (notPlaced key)
  have unplaced : (∀ key, index.resolveSymbolKey filePath scopedName entity entityId ≠
      .placed key) → once.symbolKeyToEntity = index.symbolKeyToEntity := by
    intro notPlaced
    change (index.registerSymbolKey filePath scopedName entity entityId).symbolKeyToEntity = _
    unfold registerSymbolKey
    cases outcome : index.resolveSymbolKey filePath scopedName entity entityId with
    | kept => rfl
    | conflict _ _ => rfl
    | placed key => exact absurd outcome (notPlaced key)
  have again : once.symbolKeyToEntity = index.symbolKeyToEntity →
      once.resolveSymbolKey filePath scopedName entity entityId =
        index.resolveSymbolKey filePath scopedName entity entityId := by
    intro same
    have functions : once.functionIndex = index.functionIndex := rfl
    unfold resolveSymbolKey
    rw [same, functions]
  by_cases span : PlacedUnderSpan index filePath scopedName entity entityId
  · refine iff_of_false (fun same => ?_) (not_not_intro span)
    obtain ⟨key, placed⟩ := span.2
    have lists : (once.registerSymbolKey filePath scopedName entity entityId).fileSymbolKeys =
        once.fileSymbolKeys.bucketPush key.filePath key := by
      simp only [registerSymbolKey]
      rw [resolveSymbolKey_again span placed]
    have unchanged : once.fileSymbolKeys.bucketPush key.filePath key = once.fileSymbolKeys :=
      lists.symm.trans (congrArg (fun tables => tables.2.2.2) same)
    have longer := congrArg (fun lists => (HashMap.bucket lists key.filePath).length) unchanged
    simp only [bucket_bucketPush, if_true, List.length_append, List.length_singleton] at longer
    omega
  · refine iff_of_true ?_ span
    cases outcome : index.resolveSymbolKey filePath scopedName entity entityId with
    | kept =>
      have notPlaced : ∀ key, index.resolveSymbolKey filePath scopedName entity entityId ≠
          .placed key := fun key => by simp [outcome]
      exact settled ((again (unplaced notPlaced)).trans outcome) fun key => by simp
    | conflict taken existing =>
      have notPlaced : ∀ key, index.resolveSymbolKey filePath scopedName entity entityId ≠
          .placed key := fun key => by simp [outcome]
      exact settled ((again (unplaced notPlaced)).trans outcome) fun key => by simp
    | placed key =>
      have free : index.symbolKeyToEntity.lookup
          (StableSymbolKey.forEntity filePath scopedName entity) = none := by
        rw [← Option.not_isSome_iff_eq_none]
        exact fun taken => span ⟨taken, key, outcome⟩
      have plain : key = StableSymbolKey.forEntity filePath scopedName entity := by
        unfold resolveSymbolKey at outcome
        simp only [free] at outcome
        exact (SymbolRegistration.placed.inj outcome).symm
      have owned : once.symbolKeyToEntity.lookup
          (StableSymbolKey.forEntity filePath scopedName entity) = some entityId := by
        change (index.registerSymbolKey filePath scopedName entity
          entityId).symbolKeyToEntity.lookup _ = _
        simp only [registerSymbolKey, outcome]
        rw [plain]
        exact AList.lookup_insert _
      refine @settled .kept ?_ fun key => by simp
      unfold resolveSymbolKey
      simp only [owned, if_true]

end Again

end Registration

section RemovedFile

variable [Sha256] {index : RelationIndex}

theorem KeysBijective.removeStableSymbol (keys : KeysBijective index) {entityId : EntityId}
    (gone : ¬Live index entityId) : KeysBijective (index.removeStableSymbol entityId) := by
  unfold RelationIndex.removeStableSymbol
  cases keyed : index.entityToSymbolKey.lookup entityId with
  | none => exact keys
  | some key =>
    refine ⟨keys.inverse.erase keyed, keys.listed.congr fun other => ?_⟩
    refine exists_congr fun id => ?_
    change _ ↔ AList.lookup id (index.entityToSymbolKey.erase entityId) = some other ∧ Live index id
    rw [lookup_erase_eq]
    split_ifs with same
    · rw [same]
      exact iff_of_false (fun both => gone both.2) fun both => by cases both.1
    · exact Iff.rfl

theorem KeysBijective.removeFile (keys : KeysBijective index) (fileId : String) :
    KeysBijective (index.removeFile fileId) := by
  let entitiesToRemove := index.getEntityIdsByFile fileId
  let functions := entitiesToRemove.foldl RelationIndex.removeFunction index
  let members : RelationIndex :=
    { functions with entityFileIndex := functions.entityFileIndex.eraseAll entitiesToRemove }
  have bare : KeysBijective members := by
    have folded : KeysBijective functions :=
      List.foldlRecOn _ _ keys fun _ keys id _ => keys.removeFunction id
    exact ⟨folded.inverse, folded.listed⟩
  have gone : ∀ id ∈ entitiesToRemove, ¬Live members id := by
    intro id mem live
    have table : members.functionIndex = index.functionIndex.eraseAll entitiesToRemove :=
      (List.foldl_hom functionIndex fun _ _ => rfl).symm
    unfold Live at live
    rw [table, lookup_eraseAll, if_pos mem] at live
    cases live
  have dropped := List.foldlRecOn (motive := fun index => KeysBijective index ∧
    ∀ id ∈ entitiesToRemove, ¬Live index id) entitiesToRemove RelationIndex.removeStableSymbol
    ⟨bare, gone⟩ fun index ⟨keys, gone⟩ id mem => by
      refine ⟨keys.removeStableSymbol (gone id mem), fun other mem => ?_⟩
      unfold Live
      rw [frame_removeStableSymbol functionIndex fun _ _ _ _ => rfl]
      exact gone other mem
  have relations : ∀ {β : Type} (field : RelationIndex → β),
      (∀ index id, field (removeEntityRelations index id) = field index) →
      field (entitiesToRemove.foldl removeEntityRelations
        (entitiesToRemove.foldl RelationIndex.removeStableSymbol members)) =
        field (entitiesToRemove.foldl RelationIndex.removeStableSymbol members) :=
    fun field kept => foldl_frame field removeEntityRelations kept _ _
  exact dropped.1.congr (relations functionIndex fun _ _ => rfl)
    (relations symbolKeyToEntity fun _ _ => rfl) (relations entityToSymbolKey fun _ _ => rfl)
    (relations fileSymbolKeys fun _ _ => rfl)

end RemovedFile

section Replay

variable [Sha256] {index : RelationIndex}

/-- A removed file loses its list, so the stored entities with a key there have to go with it. -/
def FilesKeepKeys (index : RelationIndex) (delta : SnapshotDelta) : Prop :=
  ∀ id key, index.entityToSymbolKey.lookup id = some key → Live index id →
    key.filePath ∈ delta.removedFiles → id ∈ delta.removedEntities

theorem KeysBijective.applyRemovals (keys : KeysBijective index) {delta : SnapshotDelta}
    (keeps : FilesKeepKeys index delta) :
    KeysBijective (applyRemovedEntities
      (applyAddedFiles (applyRemovedFiles index delta.removedFiles) delta.addedFiles)
      delta.removedEntities) := by
  let files := applyAddedFiles (applyRemovedFiles index delta.removedFiles) delta.addedFiles
  have frame : ∀ {β : Type} (field : RelationIndex → β),
      (∀ index path, field (applyRemovedFile index path) = field index) →
      (∀ index info, field (applyAddedFile index info) = field index) →
      field files = field index := fun field removing adding =>
    frame_applyFiles index field removing adding _ _
  have keyOf : files.entityToSymbolKey = index.entityToSymbolKey :=
    frame entityToSymbolKey (fun _ _ => rfl) fun _ _ => rfl
  have owners : files.symbolKeyToEntity = index.symbolKeyToEntity :=
    frame symbolKeyToEntity (fun _ _ => rfl) fun _ _ => rfl
  have functions : files.functionIndex = index.functionIndex :=
    frame functionIndex (fun _ _ => rfl) fun _ _ => rfl
  have lists : ∀ path, files.fileSymbolKeys.bucket path =
      if path ∈ delta.removedFiles then [] else index.fileSymbolKeys.bucket path := by
    intro path
    have added : files.fileSymbolKeys =
        (applyRemovedFiles index delta.removedFiles).fileSymbolKeys :=
      foldl_frame fileSymbolKeys applyAddedFile (fun _ _ => rfl) _ _
    rw [added, bucket_fileSymbolKeys_applyRemovedFiles]
  have removedKey : ∀ id key, index.entityToSymbolKey.lookup id = some key →
      ((∃ other ∈ delta.removedEntities, index.entityToSymbolKey.lookup other = some key) ↔
        id ∈ delta.removedEntities) := by
    intro id key keyed
    constructor
    · rintro ⟨other, mem, same⟩
      rw [← keys.inverse, (keys.inverse key id).2 keyed] at same
      rwa [Option.some.inj same]
    · exact fun mem => ⟨id, mem, keyed⟩
  refine ⟨fun key id => ?_, ⟨fun path => ?_, fun path key => ?_⟩⟩
  · rw [lookup_symbolKeyToEntity_applyRemovedEntities, entityToSymbolKey_applyRemovedEntities,
      lookup_eraseAll, keyOf, owners]
    by_cases keyed : index.entityToSymbolKey.lookup id = some key
    · simp only [removedKey id key keyed, (keys.inverse key id).2 keyed, keyed]
      by_cases mem : id ∈ delta.removedEntities
      · simp [mem]
      · simp [mem]
    · refine iff_of_false (fun found => ?_) fun found => ?_
      · split_ifs at found
        exact keyed ((keys.inverse key id).1 found)
      · split_ifs at found
        exact keyed found
  · rw [bucket_fileSymbolKeys_applyRemovedEntities, lists]
    split_ifs
    · exact List.nodup_nil.filter _
    · exact (keys.listed.once path).filter _
  · have live : ∀ id, Live (applyRemovedEntities files delta.removedEntities) id ↔
        id ∉ delta.removedEntities ∧ Live index id := by
      intro id
      unfold Live
      rw [functionIndex_applyRemovedEntities, lookup_eraseAll, functions]
      split_ifs with mem
      · exact iff_of_false (fun found => by cases found) fun both => both.1 mem
      · exact (and_iff_right mem).symm
    have held : (applyRemovedEntities files delta.removedEntities).KeyHeld key ↔
        ∃ id, (applyRemovedEntities files delta.removedEntities).entityToSymbolKey.lookup id =
          some key ∧ id ∉ delta.removedEntities ∧ Live index id :=
      exists_congr fun id => and_congr_right fun _ => live id
    rw [held, bucket_fileSymbolKeys_applyRemovedEntities, entityToSymbolKey_applyRemovedEntities,
      lists, keyOf, List.mem_filter, decide_eq_true_eq]
    simp only [lookup_eraseAll]
    constructor
    · rintro ⟨mem, kept⟩
      split_ifs at mem with removed
      · cases mem
      obtain ⟨here, id, keyed, found⟩ := (keys.listed.mem_iff path key).1 mem
      have stays : id ∉ delta.removedEntities := fun gone => kept ⟨id, gone, keyed, here⟩
      exact ⟨here, id, (if_neg stays).trans keyed, stays, found⟩
    · rintro ⟨here, id, keyed, stays, found⟩
      rw [if_neg stays] at keyed
      refine ⟨?_, ?_⟩
      · rw [if_neg fun removed => stays (keeps id key keyed found (here ▸ removed))]
        exact (keys.listed.mem_iff path key).2 ⟨here, id, keyed, found⟩
      · rintro ⟨other, gone, same, -⟩
        exact stays ((removedKey id key keyed).1 ⟨other, gone, same⟩)

/-- A rename moves no listed key: the old entity has no key, or its key is also that of the new
one, or it is not stored and neither is the new one. -/
def RenameKeepsKeys (index : RelationIndex) (renamed : RenamedEntity) : Prop :=
  (index.entityToSymbolKey.lookup renamed.oldId = none → Live index renamed.oldId →
    Live index renamed.newId ∨ index.entityToSymbolKey.lookup renamed.newId = none) ∧
  ∀ key, index.entityToSymbolKey.lookup renamed.oldId = some key →
    (renamedKey key renamed = key ∧ (Live index renamed.newId → Live index renamed.oldId) ∧
      (renamed.newId = renamed.oldId ∨ index.entityToSymbolKey.lookup renamed.newId = none)) ∨
    (¬Live index renamed.oldId ∧ ¬Live index renamed.newId ∧
      index.symbolKeyToEntity.lookup (renamedKey key renamed) = none ∧
      index.entityToSymbolKey.lookup renamed.newId = none)

variable {renamed : RenamedEntity} {own : SymbolKey}

theorem keyTables_applyRenamedEntity_of_some
    (keyed : index.entityToSymbolKey.lookup renamed.oldId = some own) :
    (applyRenamedEntity index renamed).symbolKeyToEntity =
        (index.symbolKeyToEntity.erase own).insert (renamedKey own renamed) renamed.newId ∧
      (applyRenamedEntity index renamed).entityToSymbolKey =
        (index.entityToSymbolKey.erase renamed.oldId).insert renamed.newId
          (renamedKey own renamed) := by
  constructor <;> simp only [applyRenamedEntity, renameSymbolKey, keyed]

theorem keyTables_applyRenamedEntity_of_none
    (keyed : index.entityToSymbolKey.lookup renamed.oldId = none) :
    (applyRenamedEntity index renamed).symbolKeyToEntity = index.symbolKeyToEntity ∧
      (applyRenamedEntity index renamed).entityToSymbolKey = index.entityToSymbolKey := by
  constructor <;> simp only [applyRenamedEntity, renameSymbolKey, keyed]

private theorem keyHeld_of_unkeyed (keyed : index.entityToSymbolKey.lookup renamed.oldId = none)
    (bare : Live index renamed.oldId →
      Live index renamed.newId ∨ index.entityToSymbolKey.lookup renamed.newId = none)
    (key : SymbolKey) : index.KeyHeld key ↔ (applyRenamedEntity index renamed).KeyHeld key := by
  unfold KeyHeld
  rw [(keyTables_applyRenamedEntity_of_none keyed).2]
  refine exists_congr fun id => and_congr_right fun here => ?_
  have distinct : id ≠ renamed.oldId := by
    rintro rfl
    rw [keyed] at here
    cases here
  have target : Live index renamed.oldId → id = renamed.newId → Live index id := by
    rintro stored rfl
    refine (bare stored).resolve_right fun none => ?_
    rw [none] at here
    cases here
  rw [live_applyRenamedEntity]
  by_cases stored : Live index renamed.oldId
  · simp only [stored, true_and, not_true_eq_false, false_and, or_false]
    exact ⟨fun found => Or.inr ⟨distinct, found⟩,
      fun found => found.elim (target stored) fun both => both.2⟩
  · simp only [stored, false_and, not_false_eq_true, true_and, false_or]

private theorem keyHeld_of_same_key
    (keyed : index.entityToSymbolKey.lookup renamed.oldId = some own)
    (same : renamedKey own renamed = own)
    (alive : Live index renamed.newId → Live index renamed.oldId)
    (unkeyed : renamed.newId = renamed.oldId ∨ index.entityToSymbolKey.lookup renamed.newId = none)
    (key : SymbolKey) : index.KeyHeld key ↔ (applyRenamedEntity index renamed).KeyHeld key := by
  unfold KeyHeld
  rw [(keyTables_applyRenamedEntity_of_some keyed).2]
  simp only [live_applyRenamedEntity, lookup_insert_eq, lookup_erase_eq]
  constructor
  · rintro ⟨id, here, found⟩
    by_cases old : id = renamed.oldId
    · rw [old, keyed] at here
      refine ⟨renamed.newId, (if_pos rfl).trans (same.symm ▸ here), Or.inl ⟨old ▸ found, ?_⟩⟩
      exact Or.inl rfl
    · have distinct : id ≠ renamed.newId := by
        rintro rfl
        have none := unkeyed.resolve_left old
        rw [none] at here
        cases here
      refine ⟨id, by rw [if_neg distinct, if_neg old, here], ?_⟩
      by_cases stored : Live index renamed.oldId
      · exact Or.inl ⟨stored, Or.inr ⟨old, found⟩⟩
      · exact Or.inr ⟨stored, found⟩
  · rintro ⟨id, here, found⟩
    by_cases new : id = renamed.newId
    · rw [if_pos new, same] at here
      refine ⟨renamed.oldId, keyed.trans here, ?_⟩
      rcases found with ⟨stored, -⟩ | ⟨-, stored⟩
      · exact stored
      · exact alive (new ▸ stored)
    · rw [if_neg new] at here
      split_ifs at here with old
      refine ⟨id, here, ?_⟩
      rcases found with ⟨-, target | ⟨-, stored⟩⟩ | ⟨-, stored⟩
      · exact absurd target new
      · exact stored
      · exact stored

private theorem keyHeld_of_dead
    (keyed : index.entityToSymbolKey.lookup renamed.oldId = some own)
    (deadOld : ¬Live index renamed.oldId) (deadNew : ¬Live index renamed.newId)
    (key : SymbolKey) : index.KeyHeld key ↔ (applyRenamedEntity index renamed).KeyHeld key := by
  unfold KeyHeld
  rw [(keyTables_applyRenamedEntity_of_some keyed).2]
  simp only [live_applyRenamedEntity, lookup_insert_eq, lookup_erase_eq, deadOld, false_and,
    not_false_eq_true, true_and, false_or]
  refine exists_congr fun id => ?_
  constructor
  · rintro ⟨here, found⟩
    have notNew : id ≠ renamed.newId := fun new => deadNew (new ▸ found)
    have notOld : id ≠ renamed.oldId := fun old => deadOld (old ▸ found)
    exact ⟨by rw [if_neg notNew, if_neg notOld, here], found⟩
  · rintro ⟨here, found⟩
    have notNew : id ≠ renamed.newId := fun new => deadNew (new ▸ found)
    have notOld : id ≠ renamed.oldId := fun old => deadOld (old ▸ found)
    rw [if_neg notNew, if_neg notOld] at here
    exact ⟨here, found⟩

theorem KeysBijective.applyRenamedEntity (keys : KeysBijective index) {renamed : RenamedEntity}
    (keeps : RenameKeepsKeys index renamed) : KeysBijective (applyRenamedEntity index renamed) := by
  obtain ⟨bare, moved⟩ := keeps
  cases keyed : index.entityToSymbolKey.lookup renamed.oldId with
  | none =>
    obtain ⟨owners, keyOf⟩ := keyTables_applyRenamedEntity_of_none keyed
    refine ⟨?_, keys.listed.congr (keyHeld_of_unkeyed keyed (bare keyed))⟩
    rw [owners, keyOf]
    exact keys.inverse
  | some own =>
    obtain ⟨owners, keyOf⟩ := keyTables_applyRenamedEntity_of_some keyed
    refine ⟨?_, keys.listed.congr ?_⟩
    · rw [owners, keyOf]
      refine keys.inverse.move keyed (Or.inl ?_)
      rcases moved own keyed with ⟨same, -, unkeyed⟩ | ⟨-, -, free, unkeyed⟩
      · exact ⟨Or.inl same, unkeyed⟩
      · exact ⟨Or.inr free, Or.inr unkeyed⟩
    · rcases moved own keyed with ⟨same, alive, unkeyed⟩ | ⟨deadOld, deadNew, -, -⟩
      · exact keyHeld_of_same_key keyed same alive unkeyed
      · exact keyHeld_of_dead keyed deadOld deadNew

/-- An added entity is new without a key, or gets no further key. -/
def AddKeepsKeys (index : RelationIndex) (added : AddedEntity) : Prop :=
  (Live index added.entity.id ∨ index.entityToSymbolKey.lookup added.entity.id = none) ∧
    ∀ key, added.registration index = .placed key →
      index.entityToSymbolKey.lookup added.entity.id = none

theorem KeysBijective.applyAddedEntity (keys : KeysBijective index) {added : AddedEntity}
    (keeps : AddKeepsKeys index added) : KeysBijective (applyAddedEntity index added) := by
  have stored : KeysBijective (index.insertFunction added.entity.id added.entity) :=
    keys.insertFunction keeps.1
  have live : Live (index.insertFunction added.entity.id added.entity) added.entity.id := by
    change ((index.functionIndex.insert added.entity.id added.entity).lookup _).isSome
    rw [AList.lookup_insert]
    rfl
  have registered : KeysBijective
      ((index.insertFunction added.entity.id added.entity).registerSymbolKey
        added.symbolKey.filePath added.symbolKey.scopedName added.entity added.entity.id) :=
    stored.registerSymbolKey fun key placed => ⟨live, keeps.2 key placed⟩
  exact ⟨registered.inverse, registered.listed⟩

/-- A delta keeps the keys in step: its removed files lose no entity that stays, its renames move
no listed key, its added entities get no second key. -/
structure DeltaKeepsKeys (index : RelationIndex) (delta : SnapshotDelta) : Prop where
  files : FilesKeepKeys index delta
  renames : EveryStep ContextEngine.applyRenamedEntity RenameKeepsKeys
    (applyRemovedEntities
      (applyAddedFiles (applyRemovedFiles index delta.removedFiles) delta.addedFiles)
      delta.removedEntities)
    delta.renamedEntities
  adds : EveryStep ContextEngine.applyAddedEntity AddKeepsKeys (replayLosses index delta)
    delta.addedEntities

theorem KeysBijective.applyDelta (keys : KeysBijective index) {delta : SnapshotDelta}
    (keeps : DeltaKeepsKeys index delta) : KeysBijective (applyDelta index delta) := by
  have removals := keys.applyRemovals keeps.files
  have losses : KeysBijective (replayLosses index delta) := by
    unfold replayLosses applyRenamedEntities
    split_ifs
    · exact removals
    · have renamed : KeysBijective
        (delta.renamedEntities.foldl ContextEngine.applyRenamedEntity _) :=
        Runs.invariant (fun _ _ ok keys => keys.applyRenamedEntity ok) removals keeps.renames
      exact ⟨renamed.inverse, renamed.listed⟩
  have entities : KeysBijective (replayEntities index delta) :=
    Runs.invariant (fun _ _ ok keys => keys.applyAddedEntity ok) losses keeps.adds
  have tables := entityTables_applyDelta index delta
  exact entities.congr (congrArg EntityTables.functionIndex tables)
    (congrArg EntityTables.symbolKeyToEntity tables)
    (congrArg EntityTables.entityToSymbolKey tables)
    (congrArg EntityTables.fileSymbolKeys tables)

end Replay

section Run

variable [Sha256]

/-- The step keeps the key tables in step. Removals always do. -/
def KeepsKeys (index : RelationIndex) : IndexOp → Prop
  | .insertFunction entityId _ =>
    Live index entityId ∨ index.entityToSymbolKey.lookup entityId = none
  | .addFunctionWithPath entityId _ _ =>
    Live index entityId ∨ index.entityToSymbolKey.lookup entityId = none
  | .registerSymbolKey filePath scopedName entity entityId =>
    RegisterKeepsKeys index filePath scopedName entity entityId
  | .applyDelta delta => DeltaKeepsKeys index delta
  | _ => True

theorem KeysBijective.applyOp {index : RelationIndex} (keys : KeysBijective index) {op : IndexOp}
    (keeps : KeepsKeys index op) : KeysBijective (index.applyOp op) := by
  cases op with
  | insertFunction entityId entity => exact keys.insertFunction keeps
  | addFunctionWithPath entityId entity filePath =>
    have stored : KeysBijective (index.insertFunction entityId entity) :=
      keys.insertFunction keeps
    exact ⟨stored.inverse, stored.listed⟩
  | registerSymbolKey filePath scopedName entity entityId => exact keys.registerSymbolKey keeps
  | addResolvedRelation relation => exact ⟨keys.inverse, keys.listed⟩
  | addFileRelation filePath relation => exact ⟨keys.inverse, keys.listed⟩
  | removeFunction entityId => exact keys.removeFunction entityId
  | removeFile fileId => exact keys.removeFile fileId
  | applyDelta delta => exact keys.applyDelta keeps
  | rebuildReverseCalleeIndex => exact ⟨keys.inverse, keys.listed⟩
  | rebuildFileCallerIndex => exact ⟨keys.inverse, keys.listed⟩

/-- In a run whose steps all keep the key tables in step they are in step in every state reached.
In any state a key keeps its owner through every registration, and a second registration changes
no table unless the first placed a span-suffixed key. -/
theorem symbolKeys_run (ops : List IndexOp) :
    (EveryStep applyOp KeepsKeys new ops →
      ∀ reached, reached <+: ops → KeysBijective (run reached)) ∧
    ∀ (index : RelationIndex) filePath scopedName entity entityId,
      (∀ key owner, index.symbolKeyToEntity.lookup key = some owner →
        (index.registerSymbolKey filePath scopedName entity
          entityId).symbolKeyToEntity.lookup key = some owner) ∧
      (symbolTables ((index.registerSymbolKey filePath scopedName entity
          entityId).registerSymbolKey filePath scopedName entity entityId) =
        symbolTables (index.registerSymbolKey filePath scopedName entity entityId) ↔
          ¬PlacedUnderSpan index filePath scopedName entity entityId) := by
  refine ⟨fun every reached initial => ?_, fun index filePath scopedName entity entityId =>
    ⟨fun key owner owned => lookup_registerSymbolKey_of_owned owned,
      symbolTables_registerSymbolKey_again_iff⟩⟩
  have kept : ∀ index op, KeepsKeys index op → KeysBijective index →
      KeysBijective (index.applyOp op) := fun _ _ keeps keys => keys.applyOp keeps
  exact Runs.invariant kept KeysBijective.new (every.of_prefix initial)

end Run

section Sample

/-- Two functions of one file that differ in their place only, each registered once. -/
def cfgGatedPair : List (@IndexOp) :=
  [.addFunctionWithPath 1 (functionAt 1 "run" 1) "src/main.rs",
    .addFunctionWithPath 2 (functionAt 2 "run" 7) "src/main.rs",
    .registerSymbolKey "src/main.rs" "run" (functionAt 1 "run" 1) 1,
    .registerSymbolKey "src/main.rs" "run" (functionAt 2 "run" 7) 2]

/-- Registering the second function again lists its span-suffixed key twice. -/
theorem registeredAgain_listedTwice :
    ¬KeysBijective (@run sampleSha256
      (cfgGatedPair ++ [.registerSymbolKey "src/main.rs" "run" (functionAt 2 "run" 7) 2])) := by
  let _ := sampleSha256
  intro keys
  exact absurd (keys.listed.once "src/main.rs") (by decide)

theorem symbolKeys_run_cfgGatedPair : KeysBijective (@run sampleSha256 cfgGatedPair) := by
  let _ := sampleSha256
  refine (symbolKeys_run cfgGatedPair).1 ⟨Or.inr rfl, Or.inr rfl, fun key _ => ?_, fun key _ => ?_,
    trivial⟩ _ (List.prefix_refl _)
  · exact ⟨by unfold Live; decide, by decide⟩
  · exact ⟨by unfold Live; decide, by decide⟩

end Sample

end ContextEngine

/- digest: What each step of a delta replay does to the entity, row and symbol tables. -/

import ContextEngine.Index.ApplyDelta

set_option autoImplicit false

namespace ContextEngine

open RelationIndex HashMap List RelationIndex

section Rows

variable (table : HashMap String FileRows)

def rowsAt (path : String) : List (Nat ×ₗ EntityId) :=
  ((table.lookup path).getD ∅).toList

def rowStands (path : String) (row : Nat)
    (entityId : EntityId) : Bool :=
  ((rowsAt table path).find? fun item => toLex (row, entityId) ≤ item).any
    fun item => (ofLex item).2 = entityId

variable {table : HashMap String FileRows} {path path' : String}

theorem mem_rowsAt_trackFileEntity
    {row : Nat} {entityId : EntityId} {item : Nat ×ₗ EntityId} :
    item ∈ rowsAt (trackFileEntity table path row entityId) path' ↔
      (path' = path ∧ rowStands table path row entityId = false ∧ item = toLex (row, entityId)) ∨
        item ∈ rowsAt table path' := by
  unfold trackFileEntity rowsAt
  rw [lookup_alter]
  by_cases same : path' = path
  · subst same
    simp only [if_true, true_and, Option.getD_some]
    change item ∈ (if rowStands table path' row entityId = true then (table.lookup path').getD ∅
      else ((table.lookup path').getD ∅).insert (toLex (row, entityId))).toList ↔ _
    cases stands : rowStands table path' row entityId with
    | true => simp
    | false =>
      simp only [Bool.false_eq_true, if_false, true_and]
      exact SortedVec.mem_insert
  · simp [same]

theorem rowsAt_untrackFileEntity (path path' : String)
    (entityId : EntityId) :
    rowsAt (untrackFileEntity table path entityId) path' = if path' = path then
        match (rowsAt table path).find? fun item => (ofLex item).2 = entityId with
        | some item => (((table.lookup path).getD ∅).erase item).toList
        | none => rowsAt table path
      else rowsAt table path' := by
  unfold untrackFileEntity rowsAt
  rw [lookup_alter]
  split_ifs with same
  · cases table.lookup path with
    | none => rfl
    | some rows =>
      simp only [Option.getD_some]
      have entry : ∀ rest : FileRows,
          ((if rest.isEmpty = true then none else some rest : Option FileRows).getD ∅).toList =
            rest.toList := by
        intro rest
        split_ifs with bare
        · exact (isEmpty_iff.1 bare).symm
        · rfl
      rw [entry]
      cases rows.toList.find? fun item => decide ((ofLex item).2 = entityId) <;> rfl
  · rfl

theorem find?_rowsAt_untrackFileEntity
    {entityId other : EntityId} (distinct : other ≠ entityId) :
    (rowsAt (untrackFileEntity table path entityId) path').find?
        (fun item => (ofLex item).2 = other) =
      (rowsAt table path').find? fun item => (ofLex item).2 = other := by
  rw [rowsAt_untrackFileEntity]
  split_ifs with same
  · rw [same]
    cases first : (rowsAt table path).find? fun item => (ofLex item).2 = entityId with
    | none => rfl
    | some item =>
      have own : (ofLex item).2 = entityId := of_decide_eq_true (by simpa using find?_some first)
      exact SortedVec.find?_erase (decide_eq_false (own ▸ distinct.symm))
  · rfl

theorem mem_rowsAt_untrackFileEntity
    {entityId : EntityId} {item : Nat ×ₗ EntityId} :
    item ∈ rowsAt (untrackFileEntity table path entityId) path' ↔
      item ∈ rowsAt table path' ∧ ¬(path' = path ∧
        (rowsAt table path).find? (fun item => (ofLex item).2 = entityId) = some item) := by
  rw [rowsAt_untrackFileEntity]
  by_cases same : path' = path
  · subst same
    simp only [if_true, true_and]
    cases first : (rowsAt table path').find? fun item => (ofLex item).2 = entityId with
    | none => simp
    | some found =>
      simp only [Option.some.injEq]
      rw [SortedVec.mem_toList, SortedVec.mem_erase, and_comm, ne_comm]
      exact Iff.rfl
  · simp [same]

end Rows

section RemovedFiles

variable (index : RelationIndex) (removed : List String)

theorem rowsAt_applyRemovedFiles (path : String) :
    rowsAt (applyRemovedFiles index removed).fileEntitiesByStart path =
      if path ∈ removed then [] else rowsAt index.fileEntitiesByStart path := by
  have table : (applyRemovedFiles index removed).fileEntitiesByStart =
      index.fileEntitiesByStart.eraseAll removed :=
    (foldl_hom fileEntitiesByStart fun _ _ => rfl).symm
  unfold rowsAt
  rw [table, lookup_eraseAll]
  split_ifs <;> rfl

theorem bucket_fileSymbolKeys_applyRemovedFiles (path : String) :
    (applyRemovedFiles index removed).fileSymbolKeys.bucket path =
      if path ∈ removed then [] else index.fileSymbolKeys.bucket path := by
  have table : (applyRemovedFiles index removed).fileSymbolKeys =
      index.fileSymbolKeys.eraseAll removed :=
    (foldl_hom fileSymbolKeys fun _ _ => rfl).symm
  unfold bucket
  rw [table, lookup_eraseAll]
  split_ifs <;> rfl

end RemovedFiles

section RemovedEntities

variable [Sha256] (index : RelationIndex) (removed : List EntityId)

theorem functionIndex_applyRemovedEntities :
    (applyRemovedEntities index removed).functionIndex =
      index.functionIndex.eraseAll removed :=
  (foldl_hom functionIndex fun _ _ => rfl).symm

theorem entityFileIndex_applyRemovedEntities :
    (applyRemovedEntities index removed).entityFileIndex =
      index.entityFileIndex.eraseAll removed :=
  (foldl_hom entityFileIndex fun _ _ => rfl).symm

theorem entityToSymbolKey_applyRemovedEntities :
    (applyRemovedEntities index removed).entityToSymbolKey =
      index.entityToSymbolKey.eraseAll removed :=
  (foldl_hom entityToSymbolKey fun _ _ => rfl).symm

private theorem lookup_keyed_applyRemovedEntities {K : Type} [DecidableEq K]
    (field : RelationIndex → HashMap K EntityId) (name : SymbolKey → K)
    (drop : ∀ index id, field (applyRemovedEntity index id) =
      match index.entityToSymbolKey.lookup id with
      | some key => (field index).erase (name key)
      | none => field index)
    (k : K) :
    (field (applyRemovedEntities index removed)).lookup k =
      if ∃ id ∈ removed, ∃ key, index.entityToSymbolKey.lookup id = some key ∧ name key = k
      then none else (field index).lookup k := by
  induction removed generalizing index with
  | nil => simp [applyRemovedEntities]
  | cons a l ih =>
    change (field (applyRemovedEntities (applyRemovedEntity index a) l)).lookup k = _
    have keyed : ∀ id, (applyRemovedEntity index a).entityToSymbolKey.lookup id =
        if id = a then none else index.entityToSymbolKey.lookup id :=
      lookup_erase_eq _ _
    rw [ih, drop]
    simp only [keyed, mem_cons, exists_eq_or_imp]
    by_cases own : ∃ key, index.entityToSymbolKey.lookup a = some key ∧ name key = k
    · obtain ⟨key, found, rfl⟩ := own
      simp [found]
    · have rest : (∃ id ∈ l, ∃ key, (if id = a then none
          else index.entityToSymbolKey.lookup id) = some key ∧ name key = k) ↔
          ∃ id ∈ l, ∃ key, index.entityToSymbolKey.lookup id = some key ∧ name key = k := by
        refine exists_congr fun id => and_congr_right fun _ => ?_
        by_cases same : id = a
        · rw [same, if_pos rfl]
          exact ⟨fun found => (by cases found.choose_spec.1), fun found => absurd found own⟩
        · rw [if_neg same]
      simp only [rest, own, false_or]
      cases found : index.entityToSymbolKey.lookup a with
      | none => rfl
      | some key =>
        have other : k ≠ name key := fun same => own ⟨key, found, same.symm⟩
        simp only
        rw [lookup_erase_eq, if_neg other]

theorem lookup_symbolKeyToEntity_applyRemovedEntities (key : SymbolKey) :
    (applyRemovedEntities index removed).symbolKeyToEntity.lookup key =
      if ∃ id ∈ removed, index.entityToSymbolKey.lookup id = some key then none
      else index.symbolKeyToEntity.lookup key := by
  rw [lookup_keyed_applyRemovedEntities index removed symbolKeyToEntity id fun _ _ => rfl]
  simp only [id_eq, exists_eq_right]

theorem lookup_stableIdToEntity_applyRemovedEntities (stableId : String) :
    (applyRemovedEntities index removed).stableIdToEntity.lookup stableId =
      if ∃ id ∈ removed, ∃ key, index.entityToSymbolKey.lookup id = some key ∧
        key.stableId = stableId then none
      else index.stableIdToEntity.lookup stableId :=
  lookup_keyed_applyRemovedEntities index removed stableIdToEntity
    StableSymbolKey.stableId (fun _ _ => rfl) stableId

theorem bucket_fileSymbolKeys_applyRemovedEntities (path : String) :
    (applyRemovedEntities index removed).fileSymbolKeys.bucket path =
      (index.fileSymbolKeys.bucket path).filter fun key =>
        ¬∃ id ∈ removed, index.entityToSymbolKey.lookup id = some key ∧ key.filePath = path := by
  induction removed generalizing index with
  | nil => simp [applyRemovedEntities]
  | cons a l ih =>
    change (applyRemovedEntities (applyRemovedEntity index a) l).fileSymbolKeys.bucket path = _
    have keyed : ∀ id, (applyRemovedEntity index a).entityToSymbolKey.lookup id =
        if id = a then none else index.entityToSymbolKey.lookup id :=
      lookup_erase_eq _ _
    have twice : ∀ (table : HashMap String (List SymbolKey)) (key : SymbolKey),
        ((table.bucketErase key.filePath key).bucketErase key.filePath key).bucket path =
          (table.bucketErase key.filePath key).bucket path := by
      intro table key
      simp only [bucket_bucketErase]
      split_ifs <;> simp
    have head : (applyRemovedEntity index a).fileSymbolKeys.bucket path =
        (index.fileSymbolKeys.bucket path).filter fun key =>
          ¬(index.entityToSymbolKey.lookup a = some key ∧ key.filePath = path) := by
      simp only [applyRemovedEntity, dropSymbolKey, removeFunction]
      cases index.entityToSymbolKey.lookup a with
      | none => cases index.functionIndex.lookup a <;> simp
      | some key =>
        have dropped : (index.fileSymbolKeys.bucketErase key.filePath key).bucket path =
            (index.fileSymbolKeys.bucket path).filter fun k =>
              ¬(some key = some k ∧ k.filePath = path) := by
          rw [bucket_bucketErase]
          split_ifs with here
          · rw [here]
            refine filter_congr fun k _ => decide_eq_decide.2 ?_
            rw [Option.some.injEq]
            exact ⟨fun other both => other both.1.symm, fun not same => not ⟨same.symm, same ▸ rfl⟩⟩
          · refine (filter_eq_self.2 fun k _ => decide_eq_true ?_).symm
            rintro ⟨same, at_path⟩
            rw [Option.some.inj same] at here
            exact here at_path.symm
        cases index.functionIndex.lookup a with
        | none => exact dropped
        | some _ => exact (twice _ _).trans dropped
    rw [ih, head, filter_filter]
    refine filter_congr fun key _ => ?_
    rw [← Bool.decide_and]
    refine decide_eq_decide.2 ?_
    simp only [keyed, mem_cons, exists_eq_or_imp]
    by_cases own : index.entityToSymbolKey.lookup a = some key ∧ key.filePath = path
    · simp [own]
    · simp only [own, false_or, not_false_eq_true, and_true]
      refine not_congr (exists_congr fun id => and_congr_right fun _ => ?_)
      by_cases same : id = a
      · rw [same, if_pos rfl]
        exact ⟨fun found => absurd found.1.symm (Option.some_ne_none key),
          fun found => absurd found own⟩
      · rw [if_neg same]

theorem mem_bucket_nameIndex_applyRemovedEntities {name : String} {id : EntityId} :
    id ∈ (applyRemovedEntities index removed).nameIndex.bucket name ↔
      id ∈ index.nameIndex.bucket name ∧ ¬(id ∈ removed ∧
        ∃ entity, index.functionIndex.lookup id = some entity ∧ entity.name = name) := by
  induction removed generalizing index with
  | nil => simp [applyRemovedEntities]
  | cons a l ih =>
    change id ∈ (applyRemovedEntities (applyRemovedEntity index a) l).nameIndex.bucket name ↔ _
    have stored : ∀ id, (applyRemovedEntity index a).functionIndex.lookup id =
        if id = a then none else index.functionIndex.lookup id := lookup_erase_eq _ _
    have head : id ∈ (applyRemovedEntity index a).nameIndex.bucket name ↔
        id ∈ index.nameIndex.bucket name ∧ ¬(id = a ∧
          ∃ entity, index.functionIndex.lookup a = some entity ∧ entity.name = name) := by
      simp only [applyRemovedEntity, dropSymbolKey, removeFunction]
      cases index.functionIndex.lookup a with
      | none => simp
      | some entity =>
        simp only [Option.some.injEq, exists_eq_left', bucket_bucketErase]
        split_ifs with here
        · simp [here]
        · simp [Ne.symm here]
    rw [ih, head, stored, mem_cons, and_assoc]
    refine and_congr_right fun _ => ?_
    by_cases same : id = a
    · subst same
      simp
    · simp [same]

theorem mem_rowsAt_applyRemovedEntities {path : String} {item : Nat ×ₗ EntityId} :
    item ∈ rowsAt (applyRemovedEntities index removed).fileEntitiesByStart path ↔
      item ∈ rowsAt index.fileEntitiesByStart path ∧ ¬((ofLex item).2 ∈ removed ∧
        (index.functionIndex.lookup (ofLex item).2).isSome ∧
        index.entityFileIndex.lookup (ofLex item).2 = some path ∧
        (rowsAt index.fileEntitiesByStart path).find?
          (fun other => (ofLex other).2 = (ofLex item).2) = some item) := by
  induction removed generalizing index with
  | nil => simp [applyRemovedEntities]
  | cons a l ih =>
    change item ∈ rowsAt (applyRemovedEntities (applyRemovedEntity index a)
      l).fileEntitiesByStart path ↔ _
    have stored : ∀ id, (applyRemovedEntity index a).functionIndex.lookup id =
        if id = a then none else index.functionIndex.lookup id := lookup_erase_eq _ _
    have filed : ∀ id, (applyRemovedEntity index a).entityFileIndex.lookup id =
        if id = a then none else index.entityFileIndex.lookup id := lookup_erase_eq _ _
    have rows : (applyRemovedEntity index a).fileEntitiesByStart =
        (index.removeFunction a).fileEntitiesByStart := rfl
    have first : (ofLex item).2 ≠ a →
        (rowsAt (applyRemovedEntity index a).fileEntitiesByStart path).find?
            (fun other => (ofLex other).2 = (ofLex item).2) =
          (rowsAt index.fileEntitiesByStart path).find?
            fun other => (ofLex other).2 = (ofLex item).2 := by
      intro other
      rw [rows]
      simp only [removeFunction]
      cases index.functionIndex.lookup a with
      | none => rfl
      | some entity =>
        cases index.entityFileIndex.lookup a with
        | none => rfl
        | some filePath => exact find?_rowsAt_untrackFileEntity other
    have head : item ∈ rowsAt (applyRemovedEntity index a).fileEntitiesByStart path ↔
        item ∈ rowsAt index.fileEntitiesByStart path ∧ ¬((index.functionIndex.lookup a).isSome ∧
            index.entityFileIndex.lookup a = some path ∧
            (rowsAt index.fileEntitiesByStart path).find? (fun other => (ofLex other).2 = a) =
              some item) := by
      rw [rows]
      simp only [removeFunction]
      cases index.functionIndex.lookup a with
      | none => simp
      | some entity =>
        cases index.entityFileIndex.lookup a with
        | none => simp
        | some filePath =>
          simp only [mem_rowsAt_untrackFileEntity, Option.isSome_some, true_and, Option.some.injEq]
          refine and_congr_right fun _ => not_congr ?_
          rw [eq_comm]
          refine and_congr_right fun same => ?_
          rw [same]
    rw [ih, head, stored, filed, mem_cons, and_assoc]
    refine and_congr_right fun _ => ?_
    by_cases same : (ofLex item).2 = a
    · subst same
      simp
    · have unrelated : ¬(rowsAt index.fileEntitiesByStart path).find?
          (fun other => (ofLex other).2 = a) = some item := fun found =>
        same (by simpa using find?_some found)
      rw [if_neg same, if_neg same, first same]
      simp [same, unrelated]

end RemovedEntities

section AddedEntities

variable [Sha256] (index : RelationIndex) (added : List AddedEntity)

/-- Registration as the replay requests it: the entity is stored already. -/
def AddedEntity.registration (added : AddedEntity) (index : RelationIndex) : SymbolRegistration :=
  (index.insertFunction added.entity.id added.entity).resolveSymbolKey added.symbolKey.filePath
    added.symbolKey.scopedName added.entity added.entity.id

theorem symbolKeyToEntity_applyAddedEntity (added : AddedEntity) :
    (applyAddedEntity index added).symbolKeyToEntity =
      match added.registration index with
      | .placed key => index.symbolKeyToEntity.insert key added.entity.id
      | _ => index.symbolKeyToEntity := rfl

theorem entityToSymbolKey_applyAddedEntity (added : AddedEntity) :
    (applyAddedEntity index added).entityToSymbolKey =
      match added.registration index with
      | .placed key => index.entityToSymbolKey.insert added.entity.id key
      | _ => index.entityToSymbolKey := rfl

theorem stableIdToEntity_applyAddedEntity (added : AddedEntity) :
    (applyAddedEntity index added).stableIdToEntity =
      match added.registration index with
      | .placed key => index.stableIdToEntity.insert key.stableId added.entity.id
      | _ => index.stableIdToEntity := rfl

theorem fileSymbolKeys_applyAddedEntity (added : AddedEntity) :
    (applyAddedEntity index added).fileSymbolKeys =
      match added.registration index with
      | .placed key => index.fileSymbolKeys.bucketPush key.filePath key
      | _ => index.fileSymbolKeys := rfl

/-- The numbers under which a replay stores the added entities. -/
def addedIds (added : List AddedEntity) : List EntityId := added.map fun a => a.entity.id

theorem functionIndex_applyAddedEntities :
    (applyAddedEntities index added).functionIndex =
      index.functionIndex.extend (added.map fun a => (a.entity.id, a.entity)) := by
  unfold extend
  rw [foldl_map]
  exact (foldl_hom functionIndex fun _ _ => rfl).symm

theorem entityFileIndex_applyAddedEntities :
    (applyAddedEntities index added).entityFileIndex =
      index.entityFileIndex.extend (added.map fun a => (a.entity.id, a.filePath)) := by
  unfold extend
  rw [foldl_map]
  exact (foldl_hom entityFileIndex fun _ _ => rfl).symm

variable {name : String}

omit [Sha256] in
theorem mem_bucket_nameIndex_insertFunction {entityId id : EntityId} {entity : Entity} :
    id ∈ (index.insertFunction entityId entity).nameIndex.bucket name ↔
      (id = entityId ∧ name = entity.name) ∨
        (id ∈ index.nameIndex.bucket name ∧ ¬(id = entityId ∧ ∃ existing,
          index.functionIndex.lookup entityId = some existing ∧ existing.name = name ∧
            existing.name ≠ entity.name)) := by
  have pushed : ∀ names : HashMap String (List EntityId),
      id ∈ (names.bucketPushNew entity.name entityId).bucket name ↔
        (id = entityId ∧ name = entity.name) ∨ id ∈ names.bucket name := by
    intro names
    rw [bucket_bucketPushNew]
    by_cases same : name = entity.name
    · rw [if_pos same, ← same]
      by_cases listed : entityId ∈ names.bucket name
      · rw [if_pos listed]
        refine ⟨Or.inr, ?_⟩
        rintro (⟨rfl, -⟩ | mem)
        · exact listed
        · exact mem
      · rw [if_neg listed, mem_append, mem_singleton, or_comm]
        simp
    · simp [same]
  unfold insertFunction
  simp only [pushed]
  refine or_congr_right ?_
  cases index.functionIndex.lookup entityId with
  | none => simp
  | some existing =>
    simp only [Option.some.injEq, exists_eq_left']
    split_ifs with renamed
    · rw [bucket_bucketErase]
      by_cases here : name = existing.name
      · subst here
        simp [renamed]
      · simp [here, Ne.symm here]
    · simp [renamed]

variable {id : EntityId}

theorem mem_addedIds_or_of_mem_nameIndex
    (mem : id ∈ (applyAddedEntities index added).nameIndex.bucket name) :
    id ∈ index.nameIndex.bucket name ∨ id ∈ addedIds added := by
  induction added generalizing index with
  | nil => exact Or.inl mem
  | cons a l ih =>
    rcases ih (applyAddedEntity index a) mem with early | late
    · rcases (mem_bucket_nameIndex_insertFunction index).1 early with ⟨rfl, -⟩ | ⟨listed, -⟩
      · exact Or.inr mem_cons_self
      · exact Or.inl listed
    · exact Or.inr (mem_cons_of_mem _ late)

theorem mem_nameIndex_applyAddedEntities_of_notMem
    (other : id ∉ addedIds added) (mem : id ∈ index.nameIndex.bucket name) :
    id ∈ (applyAddedEntities index added).nameIndex.bucket name := by
  induction added generalizing index with
  | nil => exact mem
  | cons a l ih =>
    obtain ⟨notHead, notTail⟩ := not_or.1 fun mem => other (mem_cons.2 mem)
    refine ih (applyAddedEntity index a) notTail ?_
    exact (mem_bucket_nameIndex_insertFunction index).2 (Or.inr ⟨mem, fun both => notHead both.1⟩)

variable {item : Nat ×ₗ EntityId} {path : String}

theorem mem_rowsAt_applyAddedEntities_of_mem
    (mem : item ∈ rowsAt index.fileEntitiesByStart path) :
    item ∈ rowsAt (applyAddedEntities index added).fileEntitiesByStart path := by
  induction added generalizing index with
  | nil => exact mem
  | cons a l ih => exact ih (applyAddedEntity index a) (mem_rowsAt_trackFileEntity.2 (Or.inr mem))

theorem mem_addedIds_or_of_mem_rowsAt
    (mem : item ∈ rowsAt (applyAddedEntities index added).fileEntitiesByStart path) :
    item ∈ rowsAt index.fileEntitiesByStart path ∨ (ofLex item).2 ∈ addedIds added := by
  induction added generalizing index with
  | nil => exact Or.inl mem
  | cons a l ih =>
    rcases ih (applyAddedEntity index a) mem with early | late
    · rcases mem_rowsAt_trackFileEntity.1 early with ⟨-, -, rfl⟩ | listed
      · exact Or.inr mem_cons_self
      · exact Or.inl listed
    · exact Or.inr (mem_cons_of_mem _ late)

theorem mem_nameIndex_applyAddedEntities (distinct : (addedIds added).Nodup)
    (fresh : ∀ a ∈ added, index.functionIndex.lookup a.entity.id = none) :
    id ∈ (applyAddedEntities index added).nameIndex.bucket name ↔
      id ∈ index.nameIndex.bucket name ∨ ∃ a ∈ added, a.entity.id = id ∧ a.entity.name = name := by
  induction added generalizing index with
  | nil => simp [applyAddedEntities]
  | cons a l ih =>
    obtain ⟨notLater, distinctTail⟩ := nodup_cons.1 distinct
    have still : ∀ b ∈ l, (applyAddedEntity index a).functionIndex.lookup b.entity.id = none := by
      intro b mem
      have other : b.entity.id ≠ a.entity.id := fun same =>
        notLater (mem_map.2 ⟨b, mem, same⟩)
      change (index.functionIndex.insert a.entity.id a.entity).lookup b.entity.id = none
      rw [AList.lookup_insert_ne other]
      exact fresh b (mem_cons_of_mem _ mem)
    have head : id ∈ (applyAddedEntity index a).nameIndex.bucket name ↔
        (id = a.entity.id ∧ name = a.entity.name) ∨ id ∈ index.nameIndex.bucket name := by
      refine (mem_bucket_nameIndex_insertFunction index).trans (or_congr_right ?_)
      refine and_iff_left ?_
      rintro ⟨-, existing, found, -⟩
      rw [fresh a mem_cons_self] at found
      cases found
    change id ∈ (applyAddedEntities (applyAddedEntity index a) l).nameIndex.bucket name ↔ _
    rw [ih (applyAddedEntity index a) distinctTail still, head, exists_mem_cons_iff]
    rw [or_assoc, or_left_comm, @eq_comm _ id, @eq_comm _ name]

theorem mem_rowsAt_applyAddedEntities (distinct : (addedIds added).Nodup)
    (fresh : ∀ a ∈ added, ∀ path, ∀ item ∈ rowsAt index.fileEntitiesByStart path,
      (ofLex item).2 ≠ a.entity.id) :
    item ∈ rowsAt (applyAddedEntities index added).fileEntitiesByStart path ↔
      item ∈ rowsAt index.fileEntitiesByStart path ∨ ∃ a ∈ added, a.filePath = path ∧
        item = toLex (asU32 a.entity.span.startPosition.row, a.entity.id) := by
  induction added generalizing index with
  | nil => simp [applyAddedEntities]
  | cons a l ih =>
    obtain ⟨notLater, distinctTail⟩ := nodup_cons.1 distinct
    have stands : rowStands index.fileEntitiesByStart a.filePath
        (asU32 a.entity.span.startPosition.row) a.entity.id = false := by
      unfold rowStands
      cases first : (rowsAt index.fileEntitiesByStart a.filePath).find? fun item =>
          toLex (asU32 a.entity.span.startPosition.row, a.entity.id) ≤ item with
      | none => rfl
      | some standing =>
        exact decide_eq_false
          (fresh a mem_cons_self a.filePath standing (mem_of_find?_eq_some first))
    have head : ∀ path item, item ∈ rowsAt (applyAddedEntity index a).fileEntitiesByStart path ↔
        (path = a.filePath ∧ item = toLex (asU32 a.entity.span.startPosition.row, a.entity.id)) ∨
        item ∈ rowsAt index.fileEntitiesByStart path := by
      intro path item
      refine mem_rowsAt_trackFileEntity.trans (or_congr_left ?_)
      exact and_congr_right fun _ => and_iff_right stands
    have still : ∀ b ∈ l, ∀ path, ∀ item ∈ rowsAt (applyAddedEntity index a).fileEntitiesByStart
        path, (ofLex item).2 ≠ b.entity.id := by
      intro b mem path item listed
      rcases (head path item).1 listed with ⟨-, rfl⟩ | before
      · exact fun same => notLater (mem_map.2 ⟨b, mem, same.symm⟩)
      · exact fresh b (mem_cons_of_mem _ mem) path item before
    change item ∈ rowsAt (applyAddedEntities (applyAddedEntity index a) l).fileEntitiesByStart
      path ↔ _
    rw [ih (applyAddedEntity index a) distinctTail still, head, exists_mem_cons_iff]
    rw [or_assoc, or_left_comm, @eq_comm _ path]

/-- What registering the keys of some entities can do to the symbol tables. -/
structure SymbolsGrow (ids : List EntityId) (before after : RelationIndex) : Prop where
  key_kept : ∀ key id, before.symbolKeyToEntity.lookup key = some id →
    after.symbolKeyToEntity.lookup key = some id
  key_new : ∀ key id, after.symbolKeyToEntity.lookup key = some id →
    before.symbolKeyToEntity.lookup key = some id ∨
      (id ∈ ids ∧ key ∈ after.fileSymbolKeys.bucket key.filePath)
  keyed_new : ∀ id, (after.entityToSymbolKey.lookup id).isSome →
    (before.entityToSymbolKey.lookup id).isSome ∨ id ∈ ids
  listed_kept : ∀ path, ∀ key ∈ before.fileSymbolKeys.bucket path,
    key ∈ after.fileSymbolKeys.bucket path
  listed_new : ∀ path, ∀ key ∈ after.fileSymbolKeys.bucket path,
    key ∈ before.fileSymbolKeys.bucket path ∨
      ((∃ id ∈ ids, after.symbolKeyToEntity.lookup key = some id) ∧ key.filePath = path)
  stable_new : ∀ stableId id, after.stableIdToEntity.lookup stableId = some id →
    before.stableIdToEntity.lookup stableId = some id ∨
      ∃ key, after.symbolKeyToEntity.lookup key = some id ∧ key.stableId = stableId

namespace SymbolsGrow

theorem refl (ids : List EntityId) (index : RelationIndex) : SymbolsGrow ids index index :=
  ⟨fun _ _ found => found, fun _ _ found => Or.inl found, fun _ some => Or.inl some,
    fun _ _ mem => mem, fun _ _ mem => Or.inl mem, fun _ _ found => Or.inl found⟩

theorem trans {ids : List EntityId} {first second third : RelationIndex}
    (left : SymbolsGrow ids first second) (right : SymbolsGrow ids second third) :
    SymbolsGrow ids first third where
  key_kept key id found := right.key_kept key id (left.key_kept key id found)
  key_new key id found := by
    rcases right.key_new key id found with earlier | new
    · exact (left.key_new key id earlier).imp_right fun ⟨mem, listed⟩ =>
        ⟨mem, right.listed_kept _ _ listed⟩
    · exact Or.inr new
  keyed_new id some := (right.keyed_new id some).elim (left.keyed_new id) Or.inr
  listed_kept path key mem := right.listed_kept path key (left.listed_kept path key mem)
  listed_new path key mem := by
    rcases right.listed_new path key mem with earlier | new
    · exact (left.listed_new path key earlier).imp_right fun ⟨⟨id, idMem, found⟩, own⟩ =>
        ⟨⟨id, idMem, right.key_kept key id found⟩, own⟩
    · exact Or.inr new
  stable_new stableId id found := by
    rcases right.stable_new stableId id found with earlier | new
    · exact (left.stable_new stableId id earlier).imp_right fun ⟨key, keyed, own⟩ =>
        ⟨key, right.key_kept key id keyed, own⟩
    · exact Or.inr new

theorem mono {ids : List EntityId} {before after : RelationIndex}
    (grown : SymbolsGrow ids before after) (more : List EntityId) (sub : ∀ id ∈ ids, id ∈ more) :
    SymbolsGrow more before after where
  key_kept := grown.key_kept
  key_new key id found := (grown.key_new key id found).imp_right fun new => ⟨sub id new.1, new.2⟩
  keyed_new id some := (grown.keyed_new id some).imp_right (sub id)
  listed_kept := grown.listed_kept
  listed_new path key mem := (grown.listed_new path key mem).imp_right
    fun ⟨⟨id, idMem, found⟩, own⟩ => ⟨⟨id, sub id idMem, found⟩, own⟩
  stable_new := grown.stable_new

end SymbolsGrow

theorem lookup_of_resolveSymbolKey_placed {filePath scopedName : String} {entity : Entity}
    {entityId : EntityId} {key : SymbolKey}
    (placed : index.resolveSymbolKey filePath scopedName entity entityId = .placed key) :
    index.symbolKeyToEntity.lookup key = none ∨
      index.symbolKeyToEntity.lookup key = some entityId := by
  unfold resolveSymbolKey at placed
  simp only at placed
  split at placed
  · next free =>
      obtain rfl := SymbolRegistration.placed.inj placed
      exact Or.inl free
  · split_ifs at placed with same clash
    obtain rfl := SymbolRegistration.placed.inj placed
    rw [Bool.or_eq_true, not_or] at clash
    cases found : index.symbolKeyToEntity.lookup (StableSymbolKey.forEntity filePath
        (scopedName ++ "#" ++ toString entity.span.startByte ++ "-" ++
          toString entity.span.endByte) entity) with
    | none => exact Or.inl rfl
    | some other =>
      have free := clash.2
      rw [found] at free
      exact Or.inr (congrArg some (by simpa using free))

theorem symbolsGrow_registerSymbolKey (filePath scopedName : String) (entity : Entity)
    (entityId : EntityId) :
    SymbolsGrow [entityId] index (index.registerSymbolKey filePath scopedName entity entityId) := by
  unfold registerSymbolKey
  cases resolved : index.resolveSymbolKey filePath scopedName entity entityId with
  | kept => exact ⟨fun _ _ found => found, fun _ _ found => Or.inl found, fun _ some => Or.inl some,
      fun _ _ mem => mem, fun _ _ mem => Or.inl mem, fun _ _ found => Or.inl found⟩
  | conflict key existing =>
    exact ⟨fun _ _ found => found, fun _ _ found => Or.inl found, fun _ some => Or.inl some,
      fun _ _ mem => mem, fun _ _ mem => Or.inl mem, fun _ _ found => Or.inl found⟩
  | placed own =>
    have free := lookup_of_resolveSymbolKey_placed index resolved
    refine ⟨?_, ?_, ?_, ?_, ?_, ?_⟩
    · intro key id found
      simp only [lookup_insert_eq]
      split_ifs with same
      · subst same
        rcases free with none | kept
        · rw [none] at found
          cases found
        · rw [← kept]
          exact found
      · exact found
    · intro key id found
      simp only [lookup_insert_eq] at found
      split_ifs at found with same
      · subst same
        obtain rfl := Option.some.inj found
        refine Or.inr ⟨mem_singleton_self _, ?_⟩
        simp only [bucket_bucketPush, if_true]
        exact mem_append_right _ (mem_singleton_self key)
      · exact Or.inl found
    · intro id some
      simp only [lookup_insert_eq] at some
      split_ifs at some with same
      · exact Or.inr (mem_singleton.2 same)
      · exact Or.inl some
    · intro path key mem
      simp only [bucket_bucketPush]
      split_ifs with same
      · subst same
        exact mem_append_left _ mem
      · exact mem
    · intro path key mem
      simp only [bucket_bucketPush] at mem
      split_ifs at mem with same
      · rcases mem_append.1 mem with early | new
        · rw [same]
          exact Or.inl early
        · obtain rfl := mem_singleton.1 new
          refine Or.inr ⟨⟨entityId, mem_singleton_self _, ?_⟩, same.symm⟩
          simp only [lookup_insert_eq, if_true]
      · exact Or.inl mem
    · intro stableId id found
      simp only [lookup_insert_eq] at found
      split_ifs at found with same
      · obtain rfl := Option.some.inj found
        refine Or.inr ⟨own, ?_, same.symm⟩
        simp only [lookup_insert_eq, if_true]
      · exact Or.inl found

theorem symbolsGrow_applyAddedEntities :
    SymbolsGrow (addedIds added) index (applyAddedEntities index added) := by
  have step : ∀ (index : RelationIndex) (a : AddedEntity),
      SymbolsGrow [a.entity.id] index (applyAddedEntity index a) := by
    intro index a
    have grown := symbolsGrow_registerSymbolKey
      { index.insertFunction a.entity.id a.entity with
        entityFileIndex := index.entityFileIndex.insert a.entity.id a.filePath }
      a.symbolKey.filePath a.symbolKey.scopedName a.entity a.entity.id
    exact ⟨grown.key_kept, grown.key_new, grown.keyed_new, grown.listed_kept, grown.listed_new,
      grown.stable_new⟩
  induction added generalizing index with
  | nil => exact SymbolsGrow.refl _ index
  | cons a l ih =>
    have head := (step index a).mono (addedIds (a :: l)) fun id mem =>
      mem_cons.2 (Or.inl (mem_singleton.1 mem))
    have tail := (ih (applyAddedEntity index a)).mono (addedIds (a :: l)) fun id mem =>
      mem_cons_of_mem _ mem
    exact head.trans tail

/-- The stable identifiers of registered keys, as long as no two keys share one at the end. -/
theorem stableId_applyAddedEntities
    (start : ∀ key id, index.symbolKeyToEntity.lookup key = some id →
      index.stableIdToEntity.lookup key.stableId = some id)
    (separate : ∀ key other id,
      (applyAddedEntities index added).symbolKeyToEntity.lookup key = some id →
      ((applyAddedEntities index added).symbolKeyToEntity.lookup other).isSome →
        key.stableId = other.stableId → key = other)
    {key : SymbolKey} {id : EntityId}
    (registered : (applyAddedEntities index added).symbolKeyToEntity.lookup key = some id) :
    (applyAddedEntities index added).stableIdToEntity.lookup key.stableId = some id := by
  induction added generalizing index with
  | nil => exact start key id registered
  | cons a l ih =>
    have grown := symbolsGrow_applyAddedEntities (applyAddedEntity index a) l
    refine ih (applyAddedEntity index a) ?_ separate registered
    intro key id found
    have stable := stableIdToEntity_applyAddedEntity index a
    have keys := symbolKeyToEntity_applyAddedEntity index a
    cases outcome : a.registration index with
    | kept =>
      rw [outcome] at stable keys
      rw [stable]
      rw [keys] at found
      exact start key id found
    | conflict base existing =>
      rw [outcome] at stable keys
      rw [stable]
      rw [keys] at found
      exact start key id found
    | placed own =>
      rw [outcome] at stable keys
      simp only at stable keys
      have final := grown.key_kept key id found
      have placed : ((applyAddedEntities index (a :: l)).symbolKeyToEntity.lookup own).isSome := by
        refine Option.isSome_of_eq_some (grown.key_kept own a.entity.id ?_)
        rw [keys, AList.lookup_insert]
      rw [keys, lookup_insert_eq] at found
      rw [stable, lookup_insert_eq]
      by_cases same : key = own
      · rw [if_pos same] at found
        rw [if_pos (congrArg StableSymbolKey.stableId same)]
        exact found
      · rw [if_neg same] at found
        rw [if_neg fun shared => same (separate key own id final placed shared)]
        exact start key id found

end AddedEntities

section Replay

structure EntityTables where
  functionIndex : HashMap EntityId Entity
  nameIndex : HashMap String (List EntityId)
  entityFileIndex : HashMap EntityId String
  symbolKeyToEntity : HashMap SymbolKey EntityId
  entityToSymbolKey : HashMap EntityId SymbolKey
  stableIdToEntity : HashMap String EntityId
  fileSymbolKeys : HashMap String (List SymbolKey)
  fileEntitiesByStart : HashMap String FileRows
  entityIdCounter : Nat

def RelationIndex.entityTables (index : RelationIndex) : EntityTables where
  functionIndex := index.functionIndex
  nameIndex := index.nameIndex
  entityFileIndex := index.entityFileIndex
  symbolKeyToEntity := index.symbolKeyToEntity
  entityToSymbolKey := index.entityToSymbolKey
  stableIdToEntity := index.stableIdToEntity
  fileSymbolKeys := index.fileSymbolKeys
  fileEntitiesByStart := index.fileEntitiesByStart
  entityIdCounter := index.entityIdCounter

variable [Sha256] (index : RelationIndex) (delta : SnapshotDelta)

/-- The replay up to and including the entity steps. -/
def replayEntities : RelationIndex :=
  applyAddedEntities
    (applyRenamedEntities
      (applyRemovedEntities
        (applyAddedFiles (applyRemovedFiles index delta.removedFiles) delta.addedFiles)
        delta.removedEntities)
      delta.renamedEntities)
    delta.addedEntities

theorem entityTables_applyDelta :
    (applyDelta index delta).entityTables = (replayEntities index delta).entityTables := by
  let entities := replayEntities index delta
  let removed := applyRemovedRelations entities delta.removedRelations
  let edges := applyFileRelationDiffs (applyAddedRelations removed delta.addedRelations)
    delta.fileRelationDiffs
  calc (applyDelta index delta).entityTables
      = (applyExportDiffs (applyImportDiffs edges delta.importDiffs)
          delta.exportDiffs).entityTables := rfl
    _ = (applyImportDiffs edges delta.importDiffs).entityTables :=
        foldl_frame entityTables applyExportDiff (fun _ _ => rfl) _ _
    _ = edges.entityTables := foldl_frame entityTables applyImportDiff (fun _ _ => rfl) _ _
    _ = (applyAddedRelations removed delta.addedRelations).entityTables :=
        foldl_frame entityTables applyFileRelationDiff (fun _ _ => rfl) _ _
    _ = removed.entityTables :=
        foldl_frame entityTables addResolvedRelation (fun _ _ => rfl) _ _
    _ = entities.entityTables :=
        foldl_frame entityTables applyRemovedRelation (fun _ _ => rfl) _ _

omit [Sha256] in
theorem frame_applyFiles {β : Type} (field : RelationIndex → β)
    (removing : ∀ index path, field (applyRemovedFile index path) = field index)
    (adding : ∀ index info, field (applyAddedFile index info) = field index)
    (removed : List String) (added : List FileInfo) :
    field (applyAddedFiles (applyRemovedFiles index removed) added) = field index :=
  (foldl_frame field applyAddedFile adding added _).trans
    (foldl_frame field applyRemovedFile removing removed index)

omit [Sha256] in
theorem bucket_groupByName (functions : List (EntityId × Entity)) (name : String) :
    (groupByName functions).bucket name =
      (functions.filter fun entry => entry.2.name = name).map Prod.fst :=
  bucket_foldl_bucketPush (∅ : HashMap String (List EntityId))
    (fun entry : EntityId × Entity => entry.2.name) Prod.fst functions name

omit [Sha256] in
theorem mem_bucket_groupByName {functions : List (EntityId × Entity)} {name : String}
    {id : EntityId} :
    id ∈ (groupByName functions).bucket name ↔
      ∃ entity, (id, entity) ∈ functions ∧ entity.name = name := by
  rw [bucket_groupByName]
  simp only [mem_map, mem_filter, decide_eq_true_eq, Prod.exists, exists_and_right, exists_eq_right]

end Replay

end ContextEngine

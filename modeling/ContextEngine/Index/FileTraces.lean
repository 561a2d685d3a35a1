/- digest: What the removal of a file drops from the tables, and when nothing is left of it. -/

import ContextEngine.Reverse.Transposition

set_option autoImplicit false

namespace ContextEngine

open RelationIndex HashMap

/-- An entry of one of the tables of an index. -/
inductive TableEntry where
  | function (id : EntityId) (entity : Entity)
  | name (name : String) (id : EntityId)
  | member (id : EntityId) (path : String)
  | row (path : String) (item : Nat ×ₗ EntityId)
  | symbol (key : SymbolKey) (id : EntityId)
  | symbolOf (id : EntityId) (key : SymbolKey)
  | stableId (stableId : String) (id : EntityId)
  | fileSymbol (path : String) (key : SymbolKey)
  | edge (caller : EntityId) (relation : ResolvedRelation)
  | reverseCaller (callee caller : EntityId)
  | fileEdge (path : String) (relation : ResolvedRelation)
  | fileCaller (callee : EntityId) (path : String)
  | fileInfo (path : String) (info : FileInfo)
  | importTable (path tableFile : String)
  | imported (path : String) (item : StandardizedImport)
  | exported (path : String) (item : ExportInfo)
  | dependency (source target : String)
  | remap (path : String) (localId globalId : EntityId)

/-- The callee of an edge, or the symbol recorded for it, is of the file. -/
def LeadsInto (fileId : String) (owned : EntityId → Prop) (relation : ResolvedRelation) : Prop :=
  (∃ callee ∈ relation.calleeId, owned callee) ∨
    ∃ symbol ∈ relation.calleeSymbol,
      symbol.location.filePath = fileId ∨ ∃ id ∈ symbol.entityId, owned id

def TableEntry.Mentions (fileId : String) (owned : EntityId → Prop) : TableEntry → Prop
  | .function id entity =>
    owned id ∨ (∃ parent ∈ entity.parent, owned parent) ∨ ∃ child ∈ entity.children, owned child
  | .name _ id => owned id
  | .member id path => path = fileId ∨ owned id
  | .row path item => path = fileId ∨ owned (ofLex item).2
  | .symbol key id => key.filePath = fileId ∨ owned id
  | .symbolOf id key => key.filePath = fileId ∨ owned id
  | .stableId _ id => owned id
  | .fileSymbol path key => path = fileId ∨ key.filePath = fileId
  | .edge caller relation => owned caller ∨ LeadsInto fileId owned relation
  | .reverseCaller callee caller => owned callee ∨ owned caller
  | .fileEdge path relation => path = fileId ∨ LeadsInto fileId owned relation
  | .fileCaller callee path => path = fileId ∨ owned callee
  | .fileInfo path info =>
    path = fileId ∨ info.id = fileId ∨ info.path = fileId ∨ fileId ∈ info.dependsOn
  | .importTable path tableFile => path = fileId ∨ tableFile = fileId
  | .imported path _ => path = fileId
  | .exported path item => path = fileId ∨ owned item.functionId
  | .dependency source target => source = fileId ∨ target = fileId
  | .remap path _ globalId => path = fileId ∨ owned globalId

namespace RelationIndex

section Statement

variable [Sha256] (index : RelationIndex)

def Holds : TableEntry → Prop
  | .function id entity => index.functionIndex.lookup id = some entity
  | .name name id => id ∈ index.nameIndex.bucket name
  | .member id path => index.entityFileIndex.lookup id = some path
  | .row path item => item ∈ rowsAt index.fileEntitiesByStart path
  | .symbol key id => index.symbolKeyToEntity.lookup key = some id
  | .symbolOf id key => index.entityToSymbolKey.lookup id = some key
  | .stableId stableId id => index.stableIdToEntity.lookup stableId = some id
  | .fileSymbol path key => key ∈ index.fileSymbolKeys.bucket path
  | .edge caller relation => relation ∈ edgesOf index.resolvedRelationIndex caller
  | .reverseCaller callee caller => caller ∈ callersAt index.reverseCalleeIndex callee
  | .fileEdge path relation => relation ∈ edgesOf index.fileRelationIndex path
  | .fileCaller callee path => path ∈ index.fileCallersByCallee.members callee
  | .fileInfo path info => ∃ record ∈ index.fileRecords.lookup path, record.info = info
  | .importTable path tableFile =>
    ∃ record ∈ index.fileRecords.lookup path, record.imports.fileId = tableFile
  | .imported path item =>
    ∃ record ∈ index.fileRecords.lookup path, item ∈ record.imports.standardizedImports
  | .exported path item => ∃ record ∈ index.fileRecords.lookup path, item ∈ record.exports
  | .dependency source target => target ∈ index.dependencyGraph.getDependencies source
  | .remap path localId globalId =>
    ∃ remaps ∈ index.entityIdRemaps.lookup path, remaps.lookup localId = some globalId

variable (fileId : String)

def InFile (id : EntityId) : Prop := index.entityFileIndex.lookup id = some fileId

instance (id : EntityId) : Decidable (index.InFile fileId id) :=
  inferInstanceAs (Decidable (_ = _))

def KeyOfFile (key : SymbolKey) : Prop :=
  ∃ id, index.InFile fileId id ∧ index.entityToSymbolKey.lookup id = some key

def ListedKeyOfFile (path : String) (key : SymbolKey) : Prop :=
  ∃ id, index.InFile fileId id ∧ (index.functionIndex.lookup id).isSome ∧
    index.entityToSymbolKey.lookup id = some key ∧ key.filePath = path

def FirstRow (path : String) (item : Nat ×ₗ EntityId) : Prop :=
  path = fileId ∧ index.InFile fileId (ofLex item).2 ∧
    (index.functionIndex.lookup (ofLex item).2).isSome ∧
    (rowsAt index.fileEntitiesByStart path).find? (fun other =>
      (ofLex other).2 = (ofLex item).2) = some item

/-- After the removal no table mentions the file or an entity of it, and all other entries are as
they were. -/
def LeavesNoTrace : Prop :=
  (∀ entry, (index.removeFile fileId).Holds entry →
    ¬ entry.Mentions fileId (index.InFile fileId)) ∧
  ∀ entry : TableEntry, ¬ entry.Mentions fileId (index.InFile fileId) →
    ((index.removeFile fileId).Holds entry ↔ index.Holds entry)

/-- Nothing outside of a file leads into it, and its entities are listed where they belong. -/
structure StandsApart : Prop where
  kin : ∀ id entity, index.functionIndex.lookup id = some entity → ¬ index.InFile fileId id →
    (∀ parent ∈ entity.parent, ¬ index.InFile fileId parent) ∧
      ∀ child ∈ entity.children, ¬ index.InFile fileId child
  names : ∀ name, ∀ id ∈ index.nameIndex.bucket name, index.InFile fileId id →
    ∃ entity, index.functionIndex.lookup id = some entity ∧ entity.name = name
  rows : ∀ path, ∀ item ∈ rowsAt index.fileEntitiesByStart path,
    path = fileId ∨ index.InFile fileId (ofLex item).2 → index.FirstRow fileId path item
  symbols : ∀ key id, index.symbolKeyToEntity.lookup key = some id →
    (index.KeyOfFile fileId key ↔ key.filePath = fileId ∨ index.InFile fileId id)
  symbolsOf : ∀ id key, index.entityToSymbolKey.lookup id = some key → key.filePath = fileId →
    index.InFile fileId id
  stableIds : ∀ stableId id, index.stableIdToEntity.lookup stableId = some id →
    ((∃ key, index.KeyOfFile fileId key ∧ key.stableId = stableId) ↔ index.InFile fileId id)
  fileSymbols : ∀ path, ∀ key ∈ index.fileSymbolKeys.bucket path,
    (index.ListedKeyOfFile fileId path key ↔ path = fileId ∨ key.filePath = fileId)
  edges : ∀ caller, ¬ index.InFile fileId caller →
    ∀ relation ∈ edgesOf index.resolvedRelationIndex caller,
      ¬ LeadsInto fileId (index.InFile fileId) relation
  callers : ∀ callee, ¬ index.InFile fileId callee →
    ∀ caller ∈ callersAt index.reverseCalleeIndex callee, index.InFile fileId caller →
      stillCalls index.resolvedRelationIndex caller callee = true
  fileEdges : ∀ path, path ≠ fileId → ∀ relation ∈ edgesOf index.fileRelationIndex path,
    ¬ LeadsInto fileId (index.InFile fileId) relation
  records : ∀ path, path ≠ fileId → ∀ record ∈ index.fileRecords.lookup path,
    record.info.id ≠ fileId ∧ record.info.path ≠ fileId ∧ fileId ∉ record.info.dependsOn ∧
      record.imports.fileId ≠ fileId ∧ ∀ item ∈ record.exports,
        ¬ index.InFile fileId item.functionId
  remaps : ∀ path, path ≠ fileId → ∀ remaps ∈ index.entityIdRemaps.lookup path,
    ∀ localId globalId, remaps.lookup localId = some globalId → ¬ index.InFile fileId globalId

end Statement

section Removal

variable [Sha256] {index : RelationIndex} {fileId : String}

/-- The entries that go with a file. -/
def Dropped (index : RelationIndex) (fileId : String) : TableEntry → Prop
  | .function id _ => index.InFile fileId id
  | .name name id => index.InFile fileId id ∧
    ∃ entity, index.functionIndex.lookup id = some entity ∧ entity.name = name
  | .member id _ => index.InFile fileId id
  | .row path item => index.FirstRow fileId path item
  | .symbol key _ => index.KeyOfFile fileId key
  | .symbolOf id _ => index.InFile fileId id
  | .stableId stableId _ => ∃ key, index.KeyOfFile fileId key ∧ key.stableId = stableId
  | .fileSymbol path key => index.ListedKeyOfFile fileId path key
  | .edge caller _ => index.InFile fileId caller
  | .reverseCaller callee caller => index.InFile fileId callee ∨
    index.InFile fileId caller ∧ stillCalls index.resolvedRelationIndex caller callee = true
  | .fileEdge path _ => path = fileId
  | .fileCaller _ path => path = fileId
  | .fileInfo path _ => path = fileId
  | .importTable path _ => path = fileId
  | .imported path _ => path = fileId
  | .exported path _ => path = fileId
  | .dependency source target => source = fileId ∨ target = fileId
  | .remap path _ _ => path = fileId

/-- Two indexes on their way through a removal of entities: the first keeps the members. -/
private structure OnTheWay (left right : RelationIndex) : Prop where
  functions : left.functionIndex = right.functionIndex
  names : left.nameIndex = right.nameIndex
  rows : left.fileEntitiesByStart = right.fileEntitiesByStart
  members : ∀ id, (left.functionIndex.lookup id).isSome →
    left.entityFileIndex.lookup id = right.entityFileIndex.lookup id

variable {left right : RelationIndex}

private theorem OnTheWay.step (way : OnTheWay left right)
    (id : EntityId) : OnTheWay (left.removeFunction id) (applyRemovedEntity right id) where
  functions := congrArg (AList.erase id) way.functions
  names := by
    simp only [removeFunction, applyRemovedEntity, dropSymbolKey, way.functions, way.names]
  rows := by
    simp only [removeFunction, applyRemovedEntity, dropSymbolKey, ← way.functions, ← way.rows]
    cases live : left.functionIndex.lookup id with
    | none => rfl
    | some entity => rw [way.members id (by rw [live]; rfl)]
  members := by
    intro other live
    change ((left.functionIndex.erase id).lookup other).isSome at live
    rw [lookup_erase_eq] at live
    split_ifs at live with same
    · cases live
    · change left.entityFileIndex.lookup other = (right.entityFileIndex.erase id).lookup other
      rw [lookup_erase_eq, if_neg same]
      exact way.members other live

variable (ids : List EntityId)

private theorem onTheWay_foldl (way : OnTheWay left right) :
    OnTheWay (ids.foldl removeFunction left) (applyRemovedEntities right ids) := by
  induction ids generalizing left right with
  | nil => exact way
  | cons id ids ih => exact ih (way.step id)

private structure SameKeys (left right : RelationIndex) : Prop where
  keyOf : ∀ id, left.entityToSymbolKey.lookup id = right.entityToSymbolKey.lookup id
  owners : left.symbolKeyToEntity = right.symbolKeyToEntity
  stableIds : left.stableIdToEntity = right.stableIdToEntity

private theorem SameKeys.step (same : SameKeys left right)
    (id : EntityId) : SameKeys (left.removeStableSymbol id) (applyRemovedEntity right id) := by
  have erased : ∀ other, (applyRemovedEntity right id).entityToSymbolKey.lookup other =
      if other = id then none else left.entityToSymbolKey.lookup other := by
    intro other
    rw [same.keyOf]
    exact lookup_erase_eq _ _ _
  rw [removeStableSymbol]
  cases keyed : left.entityToSymbolKey.lookup id with
  | none =>
    refine ⟨fun other => ?_, ?_, ?_⟩
    · rw [erased]
      split_ifs with own
      · rw [own, keyed]
      · rfl
    · simp only [applyRemovedEntity, dropSymbolKey, removeFunction, ← same.keyOf, keyed]
      exact same.owners
    · simp only [applyRemovedEntity, dropSymbolKey, removeFunction, ← same.keyOf, keyed]
      exact same.stableIds
  | some key =>
    refine ⟨fun other => ?_, ?_, ?_⟩
    · rw [erased]
      exact lookup_erase_eq _ _ _
    · simp only [applyRemovedEntity, dropSymbolKey, removeFunction, ← same.keyOf, keyed]
      rw [same.owners]
    · simp only [applyRemovedEntity, dropSymbolKey, removeFunction, ← same.keyOf, keyed]
      rw [same.stableIds]

private theorem sameKeys_foldl (same : SameKeys left right) :
    SameKeys (ids.foldl removeStableSymbol left) (applyRemovedEntities right ids) := by
  induction ids generalizing left right with
  | nil => exact same
  | cons id ids ih => exact ih (same.step id)

omit [Sha256] in
theorem mem_fileSymbolKeys_foldl_removeFunction {index : RelationIndex}
    {path : String} {key : SymbolKey} :
    key ∈ (ids.foldl removeFunction index).fileSymbolKeys.bucket path ↔
      key ∈ index.fileSymbolKeys.bucket path ∧ ¬ ∃ id ∈ ids,
        (index.functionIndex.lookup id).isSome ∧
          index.entityToSymbolKey.lookup id = some key ∧ key.filePath = path := by
  induction ids generalizing index with
  | nil => simp
  | cons a ids ih =>
    have stored : ∀ id, (index.removeFunction a).functionIndex.lookup id =
        if id = a then none else index.functionIndex.lookup id := lookup_erase_eq _ _
    have keyed : (index.removeFunction a).entityToSymbolKey = index.entityToSymbolKey := rfl
    have head : key ∈ (index.removeFunction a).fileSymbolKeys.bucket path ↔
        key ∈ index.fileSymbolKeys.bucket path ∧ ¬((index.functionIndex.lookup a).isSome ∧
          index.entityToSymbolKey.lookup a = some key ∧ key.filePath = path) := by
      simp only [removeFunction]
      cases index.functionIndex.lookup a with
      | none => simp
      | some entity =>
        cases index.entityToSymbolKey.lookup a with
        | none => simp
        | some other =>
          simp only [bucket_bucketErase, Option.isSome_some, true_and, Option.some.injEq]
          by_cases here : path = other.filePath
          · subst here
            simp only [if_true, List.mem_filter, decide_eq_true_eq, ne_eq]
            refine and_congr_right fun _ => not_congr
              ⟨fun same => ?_, fun both => both.1.symm⟩
            exact ⟨same.symm, by rw [same]⟩
          · rw [if_neg here]
            refine (and_iff_left ?_).symm
            rintro ⟨rfl, same⟩
            exact here same.symm
    rw [List.foldl_cons, ih, head, keyed]
    simp only [stored, List.mem_cons, exists_eq_or_imp, and_assoc]
    refine and_congr_right fun _ => ?_
    rw [not_or]
    refine and_congr_right fun fresh => not_congr
      (exists_congr fun id => and_congr_right fun _ => ?_)
    by_cases same : id = a
    · subst same
      rw [if_pos rfl]
      exact iff_of_false (fun both => by cases both.1) fresh
    · rw [if_neg same]

omit [Sha256] in
theorem mem_callersAt_foldl_removeEntityRelations {index : RelationIndex}
    {callee caller : EntityId} :
    caller ∈ callersAt (ids.foldl RelationIndex.removeEntityRelations index).reverseCalleeIndex
        callee ↔
      caller ∈ callersAt index.reverseCalleeIndex callee ∧ ¬(callee ∈ ids ∨
        caller ∈ ids ∧ stillCalls index.resolvedRelationIndex caller callee = true) := by
  induction ids generalizing index with
  | nil => simp
  | cons a ids ih =>
    have head : caller ∈ callersAt (index.removeEntityRelations a).reverseCalleeIndex callee ↔
        caller ∈ callersAt index.reverseCalleeIndex callee ∧ ¬(callee = a ∨
          caller = a ∧ stillCalls index.resolvedRelationIndex caller callee = true) := by
      change caller ∈ callersAt ((List.foldl _ index.reverseCalleeIndex
        (calleeIds index.resolvedRelationIndex a)).erase a) callee ↔ _
      rw [mem_callersAt_erase, mem_callersAt_foldl_untrackReverseCaller, calleeIds,
        List.mem_filterMap, stillCalls_iff]
      constructor
      · rintro ⟨other, unlisted, mem⟩
        refine ⟨mem, not_or.2 ⟨other, ?_⟩⟩
        rintro ⟨rfl, calls⟩
        exact unlisted ⟨calls, rfl⟩
      · rintro ⟨mem, kept⟩
        obtain ⟨other, silent⟩ := not_or.1 kept
        refine ⟨other, ?_, mem⟩
        rintro ⟨calls, rfl⟩
        exact silent ⟨rfl, calls⟩
    have calls : caller ≠ a →
        stillCalls (index.removeEntityRelations a).resolvedRelationIndex caller callee =
          stillCalls index.resolvedRelationIndex caller callee := by
      intro other
      rw [stillCalls, edgesOf_removeEntityRelations, if_neg other, stillCalls]
    rw [List.foldl_cons, ih, head, List.mem_cons, List.mem_cons]
    by_cases own : caller = a
    · subst own
      have silent : stillCalls (index.removeEntityRelations caller).resolvedRelationIndex caller
          callee = false := by
        rw [stillCalls, edgesOf_removeEntityRelations, if_pos rfl]
        rfl
      rw [silent]
      simp only [true_and, Bool.false_eq_true, and_false, or_false, true_or]
      tauto
    · rw [calls own]
      simp only [own, false_and, false_or, or_false]
      tauto

private theorem frame_relations {β : Type} (field : RelationIndex → β)
    (symbols : ∀ index id, field (removeStableSymbol index id) = field index)
    (relations : ∀ index id, field (RelationIndex.removeEntityRelations index id) = field index)
    (ids : List EntityId) (start : RelationIndex) :
    field (ids.foldl RelationIndex.removeEntityRelations
      (ids.foldl removeStableSymbol start)) = field start :=
  (foldl_frame field removeEntityRelations relations ids _).trans
    (foldl_frame field removeStableSymbol symbols ids start)

private theorem foldl_removeFunction_onTheWay (index : RelationIndex) :
    OnTheWay (ids.foldl removeFunction index) (applyRemovedEntities index ids) :=
  onTheWay_foldl ids ⟨rfl, rfl, rfl, fun _ _ => rfl⟩

/-- The entries after a removal are those before it that are not dropped. -/
theorem holds_removeFile (entry : TableEntry) :
    (index.removeFile fileId).Holds entry ↔ index.Holds entry ∧ ¬ index.Dropped fileId entry := by
  let ids := index.getEntityIdsByFile fileId
  let functions := ids.foldl removeFunction index
  let members := { functions with entityFileIndex := functions.entityFileIndex.eraseAll ids }
  have inFile : ∀ {id}, id ∈ ids ↔ index.InFile fileId id := mem_getEntityIdsByFile
  have way : OnTheWay functions (applyRemovedEntities index ids) :=
    foldl_removeFunction_onTheWay ids index
  have functionTable : (index.removeFile fileId).functionIndex =
      (applyRemovedEntities index ids).functionIndex :=
    (frame_relations functionIndex (frame_removeStableSymbol _ fun _ _ _ _ => rfl)
      (fun _ _ => rfl) ids members).trans way.functions
  have nameTable : (index.removeFile fileId).nameIndex =
      (applyRemovedEntities index ids).nameIndex :=
    (frame_relations nameIndex (frame_removeStableSymbol _ fun _ _ _ _ => rfl)
      (fun _ _ => rfl) ids members).trans way.names
  have rowTable : (index.removeFile fileId).fileEntitiesByStart =
      (applyRemovedEntities index ids).fileEntitiesByStart :=
    (frame_relations fileEntitiesByStart (frame_removeStableSymbol _ fun _ _ _ _ => rfl)
      (fun _ _ => rfl) ids members).trans way.rows
  have memberTable : (index.removeFile fileId).entityFileIndex =
      index.entityFileIndex.eraseAll ids :=
    (frame_relations entityFileIndex (frame_removeStableSymbol _ fun _ _ _ _ => rfl)
      (fun _ _ => rfl) ids members).trans (congrArg (fun table => eraseAll table ids)
        (foldl_frame entityFileIndex removeFunction (fun _ _ => rfl) ids index))
  have listTable : (index.removeFile fileId).fileSymbolKeys = functions.fileSymbolKeys :=
    frame_relations fileSymbolKeys (frame_removeStableSymbol _ fun _ _ _ _ => rfl)
      (fun _ _ => rfl) ids members
  have keys : SameKeys (ids.foldl removeStableSymbol members) (applyRemovedEntities index ids) :=
    sameKeys_foldl ids ⟨fun id => congrArg (fun table => AList.lookup id table)
          (foldl_frame entityToSymbolKey removeFunction (fun _ _ => rfl) ids index),
        foldl_frame symbolKeyToEntity removeFunction (fun _ _ => rfl) ids index,
        foldl_frame stableIdToEntity removeFunction (fun _ _ => rfl) ids index⟩
  have keyTable : (index.removeFile fileId).symbolKeyToEntity =
      (applyRemovedEntities index ids).symbolKeyToEntity :=
    (foldl_frame symbolKeyToEntity removeEntityRelations (fun _ _ => rfl) ids
      _).trans keys.owners
  have stableTable : (index.removeFile fileId).stableIdToEntity =
      (applyRemovedEntities index ids).stableIdToEntity :=
    (foldl_frame stableIdToEntity removeEntityRelations (fun _ _ => rfl) ids
      _).trans keys.stableIds
  have keyOfTable : ∀ id, (index.removeFile fileId).entityToSymbolKey.lookup id =
      (index.entityToSymbolKey.eraseAll ids).lookup id := by
    intro id
    rw [← entityToSymbolKey_applyRemovedEntities, ← keys.keyOf id]
    exact congrArg (fun table => AList.lookup id table) (foldl_frame entityToSymbolKey
      removeEntityRelations (fun _ _ => rfl) ids _)
  have forward : (ids.foldl removeStableSymbol members).resolvedRelationIndex =
      index.resolvedRelationIndex :=
    (foldl_frame resolvedRelationIndex removeStableSymbol
      (frame_removeStableSymbol _ fun _ _ _ _ => rfl) ids members).trans
        (foldl_frame resolvedRelationIndex removeFunction (fun _ _ => rfl) ids index)
  have reverse : (ids.foldl removeStableSymbol members).reverseCalleeIndex =
      index.reverseCalleeIndex :=
    (foldl_frame reverseCalleeIndex removeStableSymbol
      (frame_removeStableSymbol _ fun _ _ _ _ => rfl) ids members).trans
        (foldl_frame reverseCalleeIndex removeFunction (fun _ _ => rfl) ids index)
  have kept : ∀ {β : Type} (field : RelationIndex → β),
      (∀ index id, field (removeStableSymbol index id) = field index) →
      (∀ index id, field (removeEntityRelations index id) = field index) →
      (∀ index id, field (removeFunction index id) = field index) →
      field members = field functions →
      field (ids.foldl removeEntityRelations
        (ids.foldl removeStableSymbol members)) = field index :=
    fun field symbols relations functions same =>
      ((frame_relations field symbols relations ids members).trans same).trans
        (foldl_frame field removeFunction functions ids index)
  have fileEdges : (index.removeFile fileId).fileRelationIndex =
      index.fileRelationIndex.erase fileId :=
    congrArg (AList.erase fileId) (kept fileRelationIndex
      (frame_removeStableSymbol _ fun _ _ _ _ => rfl) (fun _ _ => rfl) (fun _ _ => rfl) rfl)
  have recordTable : (index.removeFile fileId).fileRecords = index.fileRecords.erase fileId :=
    congrArg (AList.erase fileId) (kept fileRecords
      (frame_removeStableSymbol _ fun _ _ _ _ => rfl) (fun _ _ => rfl) (fun _ _ => rfl) rfl)
  have remapTable : (index.removeFile fileId).entityIdRemaps =
      index.entityIdRemaps.erase fileId :=
    congrArg (AList.erase fileId) (kept entityIdRemaps
      (frame_removeStableSymbol _ fun _ _ _ _ => rfl) (fun _ _ => rfl) (fun _ _ => rfl) rfl)
  have graph : (index.removeFile fileId).dependencyGraph =
      index.dependencyGraph.removeFile fileId :=
    congrArg (fun graph => FileDependencyGraph.removeFile graph fileId) (kept dependencyGraph
      (frame_removeStableSymbol _ fun _ _ _ _ => rfl) (fun _ _ => rfl) (fun _ _ => rfl) rfl)
  have fileErased : ∀ {V : Type} (table : HashMap String V) (path : String) (P : V → Prop),
      (∃ v ∈ (table.erase fileId).lookup path, P v) ↔
        (∃ v ∈ table.lookup path, P v) ∧ path ≠ fileId := by
    intro V table path P
    rw [lookup_erase_eq]
    split_ifs with same
    · simp [same]
    · simp [same]
  cases entry with
  | function id entity =>
    rw [Holds, Holds, Dropped, functionTable, functionIndex_applyRemovedEntities,
      lookup_eraseAll, ← inFile]
    split_ifs with own
    · simp [own]
    · simp [own]
  | name name id =>
    rw [Holds, Holds, Dropped, nameTable, mem_bucket_nameIndex_applyRemovedEntities, inFile]
  | member id path =>
    rw [Holds, Holds, Dropped, memberTable, lookup_eraseAll, ← inFile]
    split_ifs with own
    · simp [own]
    · simp [own]
  | row path item =>
    rw [Holds, Holds, Dropped, rowTable, mem_rowsAt_applyRemovedEntities, inFile, FirstRow]
    refine and_congr_right fun _ => not_congr ?_
    constructor
    · rintro ⟨own, live, at_path, first⟩
      exact ⟨Option.some.inj (at_path.symm.trans own), own, live, first⟩
    · rintro ⟨rfl, own, live, first⟩
      exact ⟨own, live, own, first⟩
  | symbol key id =>
    have keyed : (∃ id ∈ ids, index.entityToSymbolKey.lookup id = some key) ↔
        index.KeyOfFile fileId key := exists_congr fun other => and_congr_left fun _ => inFile
    rw [Holds, Holds, Dropped, keyTable, lookup_symbolKeyToEntity_applyRemovedEntities, ← keyed]
    split_ifs with own
    · simp [own]
    · simp [own]
  | symbolOf id key =>
    rw [Holds, Holds, Dropped, keyOfTable, lookup_eraseAll, ← inFile]
    split_ifs with own
    · simp [own]
    · simp [own]
  | stableId stableId id =>
    have keyed : (∃ id ∈ ids, ∃ key, index.entityToSymbolKey.lookup id = some key ∧
        key.stableId = stableId) ↔
        ∃ key, index.KeyOfFile fileId key ∧ key.stableId = stableId := by
      constructor
      · rintro ⟨other, mem, key, found, same⟩
        exact ⟨key, ⟨other, inFile.1 mem, found⟩, same⟩
      · rintro ⟨key, ⟨other, own, found⟩, same⟩
        exact ⟨other, inFile.2 own, key, found, same⟩
    rw [Holds, Holds, Dropped, stableTable, lookup_stableIdToEntity_applyRemovedEntities, ← keyed]
    split_ifs with own
    · simp [own]
    · simp [own]
  | fileSymbol path key =>
    rw [Holds, Holds, Dropped, listTable, mem_fileSymbolKeys_foldl_removeFunction]
    simp only [inFile]
    exact Iff.rfl
  | edge caller relation =>
    have edges := edgesOf_foldl_removeEntityRelations (ids.foldl removeStableSymbol members) ids
      caller
    rw [forward] at edges
    change relation ∈ edgesOf (ids.foldl removeEntityRelations
      (ids.foldl removeStableSymbol members)).resolvedRelationIndex caller ↔ _
    rw [edges, Holds, Dropped, ← inFile]
    split_ifs with own
    · simp [own]
    · simp [own]
  | reverseCaller callee caller =>
    change caller ∈ callersAt (ids.foldl removeEntityRelations
      (ids.foldl removeStableSymbol members)).reverseCalleeIndex callee ↔ _
    rw [mem_callersAt_foldl_removeEntityRelations, forward, reverse, inFile, inFile]
    exact Iff.rfl
  | fileEdge path relation =>
    rw [Holds, Holds, Dropped, fileEdges, edgesOf_erase]
    split_ifs with same
    · simp [same]
    · simp [same]
  | fileCaller callee path =>
    rw [Holds, Holds, Dropped, (index.removeFile fileId).fileCallersTransposed.mem_iff,
      index.fileCallersTransposed.mem_iff, fileEdges, stillCalls, edgesOf_erase, stillCalls]
    split_ifs with same
    · simp [same]
    · simp [same]
  | fileInfo path info =>
    rw [Holds, Holds, Dropped, recordTable]
    exact fileErased _ path _
  | importTable path tableFile =>
    rw [Holds, Holds, Dropped, recordTable]
    exact fileErased _ path _
  | imported path item =>
    rw [Holds, Holds, Dropped, recordTable]
    exact fileErased _ path _
  | exported path item =>
    rw [Holds, Holds, Dropped, recordTable]
    exact fileErased _ path _
  | dependency source target =>
    rw [Holds, Holds, Dropped, graph, FileDependencyGraph.mem_getDependencies_removeFile]
    tauto
  | remap path localId globalId =>
    rw [Holds, Holds, Dropped, remapTable]
    exact fileErased _ path _

theorem leavesNoTrace_iff_dropped : index.LeavesNoTrace fileId ↔ ∀ entry, index.Holds entry →
      (index.Dropped fileId entry ↔ entry.Mentions fileId (index.InFile fileId)) := by
  constructor
  · rintro ⟨clean, kept⟩ entry held
    constructor
    · intro dropped
      by_contra foreign_
      exact ((holds_removeFile entry).1 ((kept entry foreign_).2 held)).2 dropped
    · intro mentions
      by_contra stays
      exact clean entry ((holds_removeFile entry).2 ⟨held, stays⟩) mentions
  · intro exact_
    refine ⟨fun entry left mentions => ?_, fun entry foreign_ => ?_⟩
    · obtain ⟨held, stays⟩ := (holds_removeFile entry).1 left
      exact stays ((exact_ entry held).2 mentions)
    · rw [holds_removeFile]
      exact and_iff_left_of_imp fun held dropped => foreign_ ((exact_ entry held).1 dropped)

theorem standsApart_of_dropped (exact_ : ∀ entry, index.Holds entry →
    (index.Dropped fileId entry ↔ entry.Mentions fileId (index.InFile fileId))) :
    index.StandsApart fileId where
  kin id entity stored outside := by
    have apart := mt (exact_ (.function id entity) stored).2 outside
    obtain ⟨-, apart⟩ := not_or.1 apart
    obtain ⟨parents, children⟩ := not_or.1 apart
    exact ⟨fun parent isParent own => parents ⟨parent, isParent, own⟩,
      fun child mem own => children ⟨child, mem, own⟩⟩
  names name id listed own := ((exact_ (.name name id) listed).2 own).2
  rows path item listed mentions := (exact_ (.row path item) listed).2 mentions
  symbols key id owned := exact_ (.symbol key id) owned
  symbolsOf id key keyed same := (exact_ (.symbolOf id key) keyed).2 (Or.inl same)
  stableIds stableId id owned := exact_ (.stableId stableId id) owned
  fileSymbols path key listed := exact_ (.fileSymbol path key) listed
  edges caller outside relation filed leads :=
    outside ((exact_ (.edge caller relation) filed).2 (Or.inr leads))
  callers callee outside caller listed own := by
    rcases (exact_ (.reverseCaller callee caller) listed).2 (Or.inr own) with inside | calls
    · exact absurd inside outside
    · exact calls.2
  fileEdges path other relation filed leads :=
    other ((exact_ (.fileEdge path relation) filed).2 (Or.inr leads))
  records path other record stored := by
    have info := mt (exact_ (.fileInfo path record.info) ⟨record, stored, rfl⟩).2 other
    obtain ⟨-, info⟩ := not_or.1 info
    obtain ⟨id, info⟩ := not_or.1 info
    obtain ⟨ownPath, depends⟩ := not_or.1 info
    have table := mt (exact_ (.importTable path record.imports.fileId)
        ⟨record, stored, rfl⟩).2 other
    refine ⟨id, ownPath, depends, fun same => table (Or.inr same), fun item mem own => other ?_⟩
    exact (exact_ (.exported path item) ⟨record, stored, mem⟩).2 (Or.inr own)
  remaps path other remaps stored localId globalId mapped own :=
    other ((exact_ (.remap path localId globalId) ⟨remaps, stored, mapped⟩).2 (Or.inr own))

theorem StandsApart.dropped_iff (apart : index.StandsApart fileId) (entry : TableEntry)
    (held : index.Holds entry) :
    index.Dropped fileId entry ↔ entry.Mentions fileId (index.InFile fileId) := by
  cases entry with
  | function id entity =>
    refine ⟨Or.inl, fun mentions => ?_⟩
    by_contra outside
    obtain ⟨parents, children⟩ := apart.kin id entity held outside
    rcases mentions with own | ⟨parent, isParent, own⟩ | ⟨child, mem, own⟩
    · exact outside own
    · exact parents parent isParent own
    · exact children child mem own
  | name name id => exact ⟨And.left, fun own => ⟨own, apart.names name id held own⟩⟩
  | member id path =>
    refine ⟨Or.inr, ?_⟩
    rintro (rfl | own)
    · exact held
    · exact own
  | row path item => exact ⟨fun first => Or.inl first.1, apart.rows path item held⟩
  | symbol key id => exact apart.symbols key id held
  | symbolOf id key =>
    refine ⟨Or.inr, ?_⟩
    rintro (same | own)
    · exact apart.symbolsOf id key held same
    · exact own
  | stableId stableId id => exact apart.stableIds stableId id held
  | fileSymbol path key => exact apart.fileSymbols path key held
  | edge caller relation =>
    refine ⟨Or.inl, fun mentions => ?_⟩
    by_contra outside
    rcases mentions with own | leads
    · exact outside own
    · exact apart.edges caller outside relation held leads
  | reverseCaller callee caller =>
    constructor
    · rintro (own | ⟨own, -⟩)
      · exact Or.inl own
      · exact Or.inr own
    · rintro (own | own)
      · exact Or.inl own
      · by_cases inside : index.InFile fileId callee
        · exact Or.inl inside
        · exact Or.inr ⟨own, apart.callers callee inside caller held own⟩
  | fileEdge path relation =>
    refine ⟨Or.inl, fun mentions => ?_⟩
    by_contra other
    rcases mentions with same | leads
    · exact other same
    · exact apart.fileEdges path other relation held leads
  | fileCaller callee path =>
    refine ⟨Or.inl, fun mentions => ?_⟩
    by_contra other
    have calls := (index.fileCallersTransposed.mem_iff callee path).1 held
    obtain ⟨relation, filed, hit⟩ := stillCalls_iff.1 calls
    rcases mentions with same | own
    · exact other same
    · exact apart.fileEdges path other relation filed (Or.inl ⟨callee, hit, own⟩)
  | fileInfo path info =>
    refine ⟨Or.inl, fun mentions => ?_⟩
    by_contra other
    obtain ⟨record, stored, rfl⟩ := held
    obtain ⟨id, ownPath, depends, -⟩ := apart.records path other record stored
    rcases mentions with same | same | same | listed
    · exact other same
    · exact id same
    · exact ownPath same
    · exact depends listed
  | importTable path tableFile =>
    refine ⟨Or.inl, fun mentions => ?_⟩
    by_contra other
    obtain ⟨record, stored, rfl⟩ := held
    rcases mentions with same | same
    · exact other same
    · exact (apart.records path other record stored).2.2.2.1 same
  | imported path item => exact Iff.rfl
  | exported path item =>
    refine ⟨Or.inl, fun mentions => ?_⟩
    by_contra other
    obtain ⟨record, stored, mem⟩ := held
    rcases mentions with same | own
    · exact other same
    · exact (apart.records path other record stored).2.2.2.2 item mem own
  | dependency source target => exact Iff.rfl
  | remap path localId globalId =>
    refine ⟨Or.inl, fun mentions => ?_⟩
    by_contra other
    obtain ⟨remaps, stored, mapped⟩ := held
    rcases mentions with same | own
    · exact other same
    · exact apart.remaps path other remaps stored localId globalId mapped own

/-- The removal of a file leaves no trace exactly where the file stands apart. -/
theorem leavesNoTrace_iff (index : RelationIndex) (fileId : String) :
    index.LeavesNoTrace fileId ↔ index.StandsApart fileId :=
  leavesNoTrace_iff_dropped.trans ⟨standsApart_of_dropped, StandsApart.dropped_iff⟩

end Removal

section Sample

private def calledAcross : List (@IndexOp) :=
  [.addFunctionWithPath 1 (functionAt 1 "main" 1) "src/a.rs",
    .addFunctionWithPath 2 (functionAt 2 "run" 7) "src/b.rs",
    .addResolvedRelation
      { caller := 1
        calleeId := some 2
        calleeName := "run"
        relationType := .directCall
        span := rowSpan 2 2
        callFrequency := 1 }]

/-- A valid index, from which a file is removed: the call into it stays. -/
theorem calleeFile_leaves_trace :
    (@run sampleSha256 calledAcross).validateSnapshot = .ok () ∧
      ¬ @LeavesNoTrace sampleSha256 (@run sampleSha256 calledAcross) "src/b.rs" := by
  let _ := sampleSha256
  refine ⟨by decide +kernel, fun clean => ?_⟩
  have apart := standsApart_of_dropped (leavesNoTrace_iff_dropped.1 clean)
  have outside : ¬ (run calledAcross).InFile "src/b.rs" 1 := by decide +kernel
  have inside : (run calledAcross).InFile "src/b.rs" 2 := by decide +kernel
  have filed : ∃ relation ∈ edgesOf (run calledAcross).resolvedRelationIndex 1,
      relation.calleeId = some 2 := by decide +kernel
  obtain ⟨relation, mem, hit⟩ := filed
  exact apart.edges 1 outside relation mem (Or.inl ⟨2, hit, inside⟩)

end Sample

end RelationIndex

end ContextEngine

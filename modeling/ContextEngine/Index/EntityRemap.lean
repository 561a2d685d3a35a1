/- digest: What the index holds of a file that has just entered it, and when its links agree. -/

import ContextEngine.Delta.ScopedDelta
import ContextEngine.Index.AliasGroups

set_option autoImplicit false

namespace ContextEngine

open List FileEntities MergedLinks

namespace FileEntities

section MergedGroups

variable {entities : List Entity}

variable {ids : List EntityId}

theorem mem_pushNew {id x : EntityId} :
    x ∈ pushNew ids id ↔ x ∈ ids ∨ x = id := by
  unfold pushNew
  split_ifs with listed
  · exact ⟨Or.inl, fun either => either.elim (fun mem => mem) fun same => same ▸ listed⟩
  · rw [mem_append, mem_singleton]

theorem mem_foldl_pushNew {ids others : List EntityId} {x : EntityId} :
    x ∈ others.foldl pushNew ids ↔ x ∈ ids ∨ x ∈ others := by
  induction others generalizing ids with
  | nil => simp only [foldl_nil, not_mem_nil, or_false]
  | cons other others ih => rw [foldl_cons, ih, mem_pushNew, mem_cons, or_assoc]

theorem mem_childrenUnion {x : EntityId} :
    x ∈ childrenUnion entities ids ↔ ∃ id ∈ ids, x ∈ (links entities).children id := by
  unfold childrenUnion
  rw [mem_foldl_pushNew, mem_flatMap]
  exact or_iff_right not_mem_nil

theorem exists_of_parentChoice {p : EntityId} (chosen : parentChoice entities ids = some p) :
    ∃ id ∈ ids, (links entities).parent id = some p :=
  exists_of_findSome?_eq_some chosen

theorem exists_parentChoice {id p : EntityId} (mem : id ∈ ids)
    (named : (links entities).parent id = some p) : ∃ q, parentChoice entities ids = some q := by
  refine Option.isSome_iff_exists.1 (findSome?_isSome_iff.2 ⟨id, mem, ?_⟩)
  exact Option.isSome_iff_exists.2 ⟨p, named⟩

theorem mem_mergedGroups {canonical : EntityId} {ids : List EntityId} :
    (canonical, ids) ∈ mergedGroups entities ↔
      ∃ key, canonicalOf entities key = some canonical ∧ (groups entities).bucket key = ids ∧
        1 < ids.length := by
  unfold mergedGroups
  rw [mem_filterMap]
  constructor
  · rintro ⟨key, _, listed⟩
    simp only at listed
    split_ifs at listed with several
    obtain ⟨standing, chosen, pair⟩ := Option.map_eq_some_iff.1 listed
    cases pair
    exact ⟨key, chosen, rfl, several⟩
  · rintro ⟨key, chosen, rfl, several⟩
    refine ⟨key, mem_orderedKeys (canonicalOf_mem chosen), ?_⟩
    simp only
    rw [if_pos several, chosen, Option.map_some]

/-- The numbers that an entity stands for, as the groups of several members tell it: either it
stands for itself alone, or it is entered with its group. -/
inductive Standing (entities : List Entity) (id : EntityId) : Prop where
  | alone (parent : (mergedParent entities).lookup id = none)
      (children : (mergedChildren entities).lookup id = none)
      (itself : ∀ a ∈ numbers entities, OneNumber entities a id → a = id)
  | group (ids : List EntityId)
      (parent : (mergedParent entities).lookup id = some (parentChoice entities ids))
      (children : ∀ x, (∃ union, (mergedChildren entities).lookup id = some union ∧ x ∈ union) ↔
        x ∈ childrenUnion entities ids)
      (members : ∀ a, a ∈ ids ↔ a ∈ numbers entities ∧ OneNumber entities a id)

variable (oneNode : OneNode entities)

include oneNode

theorem OneNode.group_eq {canonical : EntityId} {ids ids' : List EntityId}
    (listed : (canonical, ids) ∈ mergedGroups entities)
    (listed' : (canonical, ids') ∈ mergedGroups entities) : ids' = ids := by
  obtain ⟨key, chosen, rfl, _⟩ := mem_mergedGroups.1 listed
  obtain ⟨key', chosen', rfl, _⟩ := mem_mergedGroups.1 listed'
  rw [oneNode.key_eq (canonicalOf_mem chosen) (canonicalOf_mem chosen')]

theorem OneNode.mem_group_iff {key : GroupKey} {canonical : EntityId}
    (chosen : canonicalOf entities key = some canonical) (a : EntityId) :
    a ∈ (groups entities).bucket key ↔ a ∈ numbers entities ∧ OneNumber entities a canonical := by
  have standing := canonicalOf_mem chosen
  constructor
  · intro mem
    obtain ⟨first, firstMem, available, key_, same⟩ := mem_bucket_groups.1 mem
    obtain ⟨second, secondMem, available', key', same'⟩ := mem_bucket_groups.1 standing
    exact ⟨⟨first, firstMem, same⟩, Or.inr ⟨first, firstMem, second, secondMem, same, same',
      available, available', key_.trans key'.symm⟩⟩
  · rintro ⟨_, same | ⟨first, firstMem, second, secondMem, rfl, rfl, available, available', key_⟩⟩
    · rw [same]
      exact standing
    · rw [oneNode.key_eq standing (mem_bucket_groupKey secondMem available'), ← key_]
      exact mem_bucket_groupKey firstMem available

theorem OneNode.standing {id : EntityId} (mem : id ∈ canonicalIds entities) :
    Standing entities id := by
  by_cases several : ∃ ids, (id, ids) ∈ mergedGroups entities
  · obtain ⟨ids, listed⟩ := several
    obtain ⟨key, chosen, rfl, _⟩ := mem_mergedGroups.1 listed
    refine .group _ ?_ ?_ (oneNode.mem_group_iff chosen)
    · refine HashMap.lookup_extend_of_mem (mem_map.2 ⟨_, listed, rfl⟩) fun w other => ?_
      obtain ⟨⟨_, ids'⟩, listed', pair⟩ := mem_map.1 other
      cases pair
      simp only
      rw [oneNode.group_eq listed listed']
    · intro x
      constructor
      · rintro ⟨union, found, xMem⟩
        obtain ⟨⟨standing, ids'⟩, listed', entered⟩ :=
          mem_filterMap.1 (exists_of_lookup_extend found)
        simp only at entered
        split_ifs at entered
        cases entered
        rw [oneNode.group_eq listed listed'] at xMem
        exact xMem
      · intro xMem
        refine ⟨_, HashMap.lookup_extend_of_mem (mem_filterMap.2 ⟨_, listed, ?_⟩) ?_, xMem⟩
        · simp only
          rw [if_neg]
          intro empty
          rw [isEmpty_iff.1 empty] at xMem
          cases xMem
        · intro w other
          obtain ⟨⟨standing, ids'⟩, listed', entered⟩ := mem_filterMap.1 other
          simp only at entered
          split_ifs at entered
          cases entered
          rw [oneNode.group_eq listed listed']
  · refine .alone ?_ ?_ ?_
    · refine HashMap.lookup_extend_of_notMem fun entered => several ?_
      rw [map_map] at entered
      obtain ⟨⟨standing, ids⟩, listed, rfl⟩ := mem_map.1 entered
      exact ⟨ids, listed⟩
    · refine HashMap.lookup_extend_of_notMem fun entered => several ?_
      obtain ⟨merged, mergedMem, rfl⟩ := mem_map.1 entered
      obtain ⟨⟨standing, ids⟩, listed, entered⟩ := mem_filterMap.1 mergedMem
      simp only at entered
      split_ifs at entered
      cases entered
      exact ⟨ids, listed⟩
    · rintro a aMem
        (same | ⟨first, firstMem, second, secondMem, rfl, rfl, available, available', key⟩)
      · exact same
      · have chosen := oneNode.canonicalOf_representative (mem_bucket_groupKey secondMem available')
        rw [oneNode.representative_eq mem] at chosen
        have firstListed := mem_bucket_groupKey firstMem available
        rw [key] at firstListed
        have secondListed := mem_bucket_groupKey secondMem available'
        have short : ¬ 1 < ((groups entities).bucket (groupKey second)).length := fun long =>
          several ⟨_, mem_mergedGroups.2 ⟨_, chosen, rfl, long⟩⟩
        -- a group of one member
        cases bucket : (groups entities).bucket (groupKey second) with
        | nil =>
          rw [bucket] at firstListed
          cases firstListed
        | cons only rest =>
          rw [bucket] at firstListed secondListed short
          cases rest with
          | nil =>
            rw [mem_singleton.1 firstListed, mem_singleton.1 secondListed]
          | cons next rest => exact absurd (by simp) short

variable (table : HashMap EntityId EntityId) {entity : Entity}

theorem OneNode.of_remappedParent (mem : entity.id ∈ canonicalIds entities)
    (found : (localToEntity entities).lookup entity.id = some entity) {q : EntityId}
    (stored : remappedParent entities table entity = some q) :
    ∃ b ∈ numbers entities, OneNumber entities b entity.id ∧
      ∃ p, (links entities).parent b = some p ∧ table.lookup p = some q := by
  unfold remappedParent at stored
  cases oneNode.standing mem with
  | alone parent _ _ =>
    rw [parent] at stored
    obtain ⟨p, named, numbered⟩ := Option.bind_eq_some_iff.1 stored
    exact ⟨entity.id, canonicalIds_subset mem, Or.inl rfl, p, (parent_links found).trans named,
      numbered⟩
  | group ids parent _ members =>
    rw [parent] at stored
    obtain ⟨p, chosen, numbered⟩ := Option.bind_eq_some_iff.1 stored
    obtain ⟨b, bMem, named⟩ := exists_of_parentChoice chosen
    obtain ⟨bNumber, same⟩ := (members b).1 bMem
    exact ⟨b, bNumber, same, p, named, numbered⟩

theorem OneNode.exists_remappedParent (mem : entity.id ∈ canonicalIds entities)
    (found : (localToEntity entities).lookup entity.id = some entity)
    (numbered : ∀ b ∈ numbers entities, ∀ p, (links entities).parent b = some p →
      (table.lookup p).isSome)
    {a p : EntityId} (aMem : a ∈ numbers entities) (same : OneNumber entities a entity.id)
    (named : (links entities).parent a = some p) :
    ∃ q, remappedParent entities table entity = some q := by
  unfold remappedParent
  cases oneNode.standing mem with
  | alone parent _ itself =>
    rw [parent]
    obtain ⟨q, stored⟩ := Option.isSome_iff_exists.1 (numbered a aMem p named)
    rw [itself a aMem same, parent_links found] at named
    exact ⟨q, Option.bind_eq_some_iff.2 ⟨p, named, stored⟩⟩
  | group ids parent _ members =>
    rw [parent]
    obtain ⟨chosen, choice⟩ := exists_parentChoice ((members a).2 ⟨aMem, same⟩) named
    obtain ⟨b, bMem, namedB⟩ := exists_of_parentChoice choice
    obtain ⟨q, stored⟩ := Option.isSome_iff_exists.1
      (numbered b ((members b).1 bMem).1 chosen namedB)
    exact ⟨q, Option.bind_eq_some_iff.2 ⟨chosen, choice, stored⟩⟩

theorem OneNode.mem_remappedChildren (mem : entity.id ∈ canonicalIds entities)
    (found : (localToEntity entities).lookup entity.id = some entity) {x : EntityId} :
    x ∈ remappedChildren entities table entity ↔
      ∃ p ∈ numbers entities, OneNumber entities p entity.id ∧
        ∃ a ∈ (links entities).children p, table.lookup a = some x := by
  have own := children_links found
  cases oneNode.standing mem with
  | alone _ children itself =>
    unfold remappedChildren
    rw [children]
    simp only
    rw [mem_filterMap]
    constructor
    · rintro ⟨a, listed, numbered⟩
      exact ⟨entity.id, canonicalIds_subset mem, Or.inl rfl, a, own ▸ listed, numbered⟩
    · rintro ⟨p, pMem, same, a, listed, numbered⟩
      rw [itself p pMem same, own] at listed
      exact ⟨a, listed, numbered⟩
  | group ids _ children members =>
    have merged : x ∈ remappedChildren entities table entity ↔
        x ∈ entity.children.filterMap table.lookup ∨
          x ∈ (childrenUnion entities ids).filterMap table.lookup := by
      unfold remappedChildren
      cases entered : (mergedChildren entities).lookup entity.id with
      | none =>
        simp only
        refine (or_iff_left fun listed => ?_).symm
        obtain ⟨a, aMem, _⟩ := mem_filterMap.1 listed
        obtain ⟨union, present, _⟩ := (children a).2 aMem
        rw [entered] at present
        cases present
      | some union =>
        simp only
        rw [mem_foldl_pushNew]
        refine or_congr_right ?_
        rw [mem_filterMap, mem_filterMap]
        refine exists_congr fun a => and_congr_left fun _ => ?_
        rw [← children a]
        exact ⟨fun aMem => ⟨union, entered, aMem⟩, fun ⟨union', present, aMem⟩ => by
          rw [entered] at present
          cases present
          exact aMem⟩
    rw [merged, mem_filterMap, mem_filterMap]
    constructor
    · rintro (⟨a, listed, numbered⟩ | ⟨a, listed, numbered⟩)
      · exact ⟨entity.id, canonicalIds_subset mem, Or.inl rfl, a, own ▸ listed, numbered⟩
      · obtain ⟨p, pMem, aMem⟩ := mem_childrenUnion.1 listed
        obtain ⟨pNumber, same⟩ := (members p).1 pMem
        exact ⟨p, pNumber, same, a, aMem, numbered⟩
    · rintro ⟨p, pMem, same, a, listed, numbered⟩
      exact Or.inr ⟨a, mem_childrenUnion.2 ⟨p, (members p).2 ⟨pMem, same⟩, listed⟩, numbered⟩

end MergedGroups

section Stored

variable {entities : List Entity}

/-- An entity under its number. -/
def renamed (entities : List Entity) (table : HashMap EntityId EntityId) (entity : Entity)
    (newId : EntityId) : Entity :=
  { entity with
    id := newId
    parent := remappedParent entities table entity
    children := remappedChildren entities table entity }

theorem mem_remappedEntities {table : HashMap EntityId EntityId} {newId : EntityId}
    {stored : Entity} :
    (newId, stored) ∈ remappedEntities entities table ↔
      ∃ entity, entity.id ∈ canonicalIds entities ∧
        (localToEntity entities).lookup entity.id = some entity ∧
        table.lookup entity.id = some newId ∧ stored = renamed entities table entity newId := by
  unfold remappedEntities
  rw [mem_filterMap]
  constructor
  · rintro ⟨entity, listed, entered⟩
    obtain ⟨id, mem, found⟩ := mem_filterMap.1 listed
    obtain ⟨_, same⟩ := of_lookup_localToEntity found
    obtain ⟨newId, numbered, pair⟩ := Option.map_eq_some_iff.1 entered
    cases pair
    subst same
    exact ⟨entity, mem, found, numbered, rfl⟩
  · rintro ⟨entity, mem, found, numbered, rfl⟩
    refine ⟨entity, mem_filterMap.2 ⟨entity.id, mem, found⟩, ?_⟩
    exact Option.map_eq_some_iff.2 ⟨newId, numbered, rfl⟩

variable {iterate : HashMap EntityId EntityId → List (EntityId × EntityId)}
  (order : ∀ table, (iterate table).Perm table.toList) (oneNode : OneNode entities)
  (counter : Nat)

include order oneNode

theorem lookup_extend_remappedEntities (stored : HashMap EntityId Entity) {id newId : EntityId}
    (numbered : (remap entities iterate counter).lookup id = some newId) :
    ∃ entity, entity.id = representative entities id ∧ entity.id ∈ canonicalIds entities ∧
      (localToEntity entities).lookup entity.id = some entity ∧
      (stored.extend (remappedEntities entities (remap entities iterate counter))).lookup newId =
        some (renamed entities (remap entities iterate counter) entity newId) := by
  have known : id ∈ numbers entities :=
    (isSome_lookup_remap counter order oneNode).1 (Option.isSome_iff_exists.2 ⟨newId, numbered⟩)
  have standing := oneNode.representative_mem known
  obtain ⟨entity, found⟩ := exists_lookup_localToEntity (canonicalIds_subset standing)
  obtain ⟨_, same⟩ := of_lookup_localToEntity found
  rw [← same] at standing found
  have alloc : (allocated entities counter).lookup entity.id = some newId := by
    rw [lookup_remap counter order oneNode, ← same] at numbered
    exact numbered
  refine ⟨entity, same, standing, found, ?_⟩
  refine HashMap.lookup_extend_of_mem (mem_remappedEntities.2 ⟨entity, standing, found, ?_, rfl⟩) ?_
  · rw [lookup_remap_of_canonical counter order oneNode standing]
    exact alloc
  · intro other listed
    obtain ⟨second, secondMem, secondFound, secondNumber, rfl⟩ := mem_remappedEntities.1 listed
    rw [lookup_remap_of_canonical counter order oneNode secondMem] at secondNumber
    rw [allocated_inj counter secondNumber alloc, found] at secondFound
    rw [Option.some.inj secondFound]

end Stored

end FileEntities

namespace RelationIndex

section Frames

variable (index : RelationIndex)

section

variable (path : String) (functions : List (EntityId × Entity))

include path functions

theorem functionIndex_addFunctionsWithPaths :
    (index.addFunctionsWithPaths path functions).functionIndex =
      index.functionIndex.extend functions := by
  induction functions generalizing index with
  | nil => rfl
  | cons entry functions ih =>
    exact ih (index.addFunctionWithPath entry.1 entry.2 path)

theorem entityFileIndex_addFunctionsWithPaths :
    (index.addFunctionsWithPaths path functions).entityFileIndex =
      index.entityFileIndex.extend (functions.map fun entry => (entry.1, path)) := by
  induction functions generalizing index with
  | nil => rfl
  | cons entry functions ih =>
    exact ih (index.addFunctionWithPath entry.1 entry.2 path)

theorem fileRecords_addFunctionsWithPaths :
    (index.addFunctionsWithPaths path functions).fileRecords = index.fileRecords :=
  foldl_frame fileRecords (fun index (entry : EntityId × Entity) =>
    index.addFunctionWithPath entry.1 entry.2 path) (fun _ _ => rfl) functions index

end

theorem frame_registerEntity [Sha256] {A : Type} (field : RelationIndex → A)
    (kept : ∀ index filePath scopedName entity entityId,
      field (registerSymbolKey index filePath scopedName entity entityId) = field index)
    (path : String) (table : HashMap EntityId EntityId) (scopedNames : HashMap EntityId String)
    (entities : List Entity) :
    field (entities.foldl (registerEntity path table scopedNames) index) = field index := by
  refine foldl_frame field _ (fun index entity => ?_) entities index
  unfold registerEntity
  simp only
  split
  · exact kept _ _ _ _ _
  · rfl

end Frames

section Indexed

def IndexedAs (index : RelationIndex) (file : ParsedFile) (entity : Entity) (id : EntityId) :
    Prop :=
  ∃ stored, index.functionIndex.lookup id = some stored ∧
    index.entityFileIndex.lookup id = some file.path ∧ stored.id = id ∧
    ∃ given ∈ file.entities, SameNode entity given ∧ Alike given stored

def numberOf (index : RelationIndex) (path : String) (id : EntityId) : Option EntityId :=
  (index.entityIdRemaps.lookup path).bind fun table => table.lookup id

def storedLinks (index : RelationIndex) : Links EntityId where
  parent id := (index.functionIndex.lookup id).bind Entity.parent
  children id := (index.functionIndex.lookup id).elim [] Entity.children

/-- What the numbers of a file that has entered the index should be. -/
structure WellFormed (before after : RelationIndex) (file : ParsedFile) : Prop where
  indexed : ∀ entity ∈ file.entities, ∃ id,
    after.numberOf file.path entity.id = some id ∧ after.IndexedAs file entity id
  closed : ∀ entity ∈ file.entities, ∀ id, after.numberOf file.path entity.id = some id →
    ∀ link, after.storedLinks.parent id = some link ∨ link ∈ after.storedLinks.children id →
      ∃ linked ∈ file.entities, after.IndexedAs file linked link
  linked : Mutual (numbers file.entities) (links file.entities) →
    Mutual {id | ∃ entity ∈ file.entities, after.numberOf file.path entity.id = some id}
      after.storedLinks
  exported : ∀ item ∈ exportsAt after file.path, item ∈ exportsAt before file.path ∨
    ∃ given ∈ file.exports, item = { given with functionId := item.functionId } ∧
      (∃ entity ∈ file.entities, entity.id = given.functionId) ∧
      ∀ entity ∈ file.entities, entity.id = given.functionId →
        after.IndexedAs file entity item.functionId
  fresh : (∀ id, (before.functionIndex.lookup id).isSome → id < before.entityIdCounter) →
    ∀ entity ∈ file.entities, ∀ id, after.numberOf file.path entity.id = some id →
      before.functionIndex.lookup id = none

variable [Sha256] (iterate : HashMap EntityId EntityId → List (EntityId × EntityId))
  (index : RelationIndex) (file : ParsedFile)

theorem functionIndex_indexFileCore :
    (index.indexFileCore iterate file).functionIndex = index.functionIndex.extend
        (remappedEntities file.entities (index.fileRemap iterate file)) := by
  unfold indexFileCore
  simp only
  split <;>
  · refine (frame_registerEntity _ functionIndex (fun _ _ _ _ _ => rfl) _ _ _ _).trans ?_
    exact functionIndex_addFunctionsWithPaths _ _ _

theorem entityFileIndex_indexFileCore :
    (index.indexFileCore iterate file).entityFileIndex = index.entityFileIndex.extend
        ((remappedEntities file.entities (index.fileRemap iterate file)).map fun entry =>
          (entry.1, file.path)) := by
  unfold indexFileCore
  simp only
  split <;>
  · refine (frame_registerEntity _ entityFileIndex (fun _ _ _ _ _ => rfl) _ _ _ _).trans ?_
    exact entityFileIndex_addFunctionsWithPaths _ _ _

theorem numberOf_indexFileCore (id : EntityId) :
    (index.indexFileCore iterate file).numberOf file.path id =
      (index.fileRemap iterate file).lookup id := by
  have entered : (index.indexFileCore iterate file).entityIdRemaps.lookup file.path =
      some (index.fileRemap iterate file) := by
    unfold indexFileCore
    simp only
    split <;> exact AList.lookup_insert _
  unfold numberOf
  rw [entered, Option.bind_some]

omit [Sha256] in
theorem exportsAt_addFile (info : FileInfo) :
    exportsAt (index.addFile info) info.id = exportsAt index info.id := by
  unfold exportsAt addFile
  simp only [HashMap.lookup_alter, if_true]
  cases index.fileRecords.lookup info.id with
  | none => rfl
  | some record => rfl

omit [Sha256] in
theorem exportsAt_addImportTable (path : String) (imports : ImportTable) :
    exportsAt (index.addImportTable path imports) path = exportsAt index path := by
  unfold exportsAt addImportTable
  simp only [HashMap.lookup_alter, if_true]
  cases index.fileRecords.lookup path with
  | none => rfl
  | some record => rfl

omit [Sha256] in
theorem exportsAt_addExports (path : String) (exports : List ExportInfo) :
    exportsAt (index.addExports path exports) path = exports := by
  unfold exportsAt addExports
  simp only [HashMap.lookup_alter, if_true]
  rfl

theorem exportsAt_indexFileCore :
    exportsAt (index.indexFileCore iterate file) file.path =
      if (remapExports (index.fileRemap iterate file) file.exports).isEmpty then
        exportsAt index file.path
      else remapExports (index.fileRemap iterate file) file.exports := by
  unfold indexFileCore
  simp only
  split_ifs with none_
  · rw [exportsAt_addImportTable]
    refine Eq.trans ?_ (exportsAt_addFile index file.info)
    refine (frame_registerEntity _ (fun index => exportsAt index file.path)
      (fun _ _ _ _ _ => rfl) _ _ _ _).trans ?_
    exact congrArg (fun records : HashMap String FileRecord =>
      ((records.lookup file.path).map FileRecord.exports).getD [])
      (fileRecords_addFunctionsWithPaths _ _ _)
  · exact exportsAt_addExports _ _ _

end Indexed

section Agreement

variable [Sha256] {iterate : HashMap EntityId EntityId → List (EntityId × EntityId)}
  (order : ∀ table, (iterate table).Perm table.toList)
  (index : RelationIndex) {file : ParsedFile} (oneNode : OneNode file.entities)

include order oneNode

theorem lookup_indexFileCore {id newId : EntityId}
    (numbered : (index.fileRemap iterate file).lookup id = some newId) :
    ∃ entity, entity.id = representative file.entities id ∧ entity.id ∈ canonicalIds file.entities ∧
      (localToEntity file.entities).lookup entity.id = some entity ∧
      (index.indexFileCore iterate file).functionIndex.lookup newId =
        some (renamed file.entities (index.fileRemap iterate file) entity newId) ∧
      (index.indexFileCore iterate file).entityFileIndex.lookup newId = some file.path := by
  obtain ⟨entity, same, standing, found, stored⟩ := lookup_extend_remappedEntities order oneNode
    index.entityIdCounter index.functionIndex numbered
  refine ⟨entity, same, standing, found, ?_, ?_⟩
  · rw [functionIndex_indexFileCore]
    exact stored
  · rw [entityFileIndex_indexFileCore]
    refine HashMap.lookup_extend_of_mem (mem_map.2 ⟨_, mem_remappedEntities.2
      ⟨entity, standing, found, ?_, rfl⟩, rfl⟩) fun other listed => ?_
    · unfold fileRemap at numbered ⊢
      rw [lookup_remap_of_canonical _ order oneNode standing, same]
      rw [lookup_remap _ order oneNode] at numbered
      exact numbered
    · obtain ⟨_, _, pair⟩ := mem_map.1 listed
      cases pair
      rfl

omit [Sha256] in
theorem isSome_lookup_fileRemap {id : EntityId} :
    ((index.fileRemap iterate file).lookup id).isSome ↔ id ∈ numbers file.entities :=
  isSome_lookup_remap _ order oneNode

theorem indexedAs_indexFileCore {entity : Entity} (mem : entity ∈ file.entities) {newId : EntityId}
    (numbered : (index.fileRemap iterate file).lookup entity.id = some newId) :
    (index.indexFileCore iterate file).IndexedAs file entity newId := by
  obtain ⟨standing, same, canonical, found, stored, path⟩ :=
    lookup_indexFileCore order index oneNode numbered
  have standingMem := (of_lookup_localToEntity found).1
  refine ⟨_, stored, path, rfl, standing, standingMem, ?_, rfl⟩
  have known : ∀ given ∈ file.entities, given.id ∈ numbers file.entities := fun given givenMem =>
    ⟨given, givenMem, rfl⟩
  have one : OneNumber file.entities entity.id standing.id :=
    (oneNode.representative_eq_iff (known entity mem) (known standing standingMem)).1 (by
      rw [oneNode.representative_eq canonical, same])
  rcases one with sameId | ⟨first, firstMem, second, secondMem, idA, idB, aliases⟩
  · exact oneNode entity mem standing standingMem sameId
  · have toFirst := oneNode entity mem first firstMem idA.symm
    have toStanding := oneNode second secondMem standing standingMem idB
    exact toFirst.trans (SameNode.trans (Or.inr aliases) toStanding)

section

variable (linked : Mutual (numbers file.entities) (links file.entities))

include linked

theorem merges_indexFileCore :
    Merges (numbers file.entities) (links file.entities)
      (fun id => ((index.fileRemap iterate file).lookup id).getD 0)
      (index.indexFileCore iterate file).storedLinks := by
  have numbered : ∀ id ∈ numbers file.entities, (index.fileRemap iterate file).lookup id =
      some (((index.fileRemap iterate file).lookup id).getD 0) := by
    intro id mem
    obtain ⟨newId, found⟩ := Option.isSome_iff_exists.1
      ((isSome_lookup_fileRemap order index oneNode).2 mem)
    rw [found, Option.getD_some]
  have standing : ∀ id ∈ numbers file.entities, ∃ entity, entity.id ∈ canonicalIds file.entities ∧
      (localToEntity file.entities).lookup entity.id = some entity ∧
      (index.indexFileCore iterate file).functionIndex.lookup
        (((index.fileRemap iterate file).lookup id).getD 0) =
        some (renamed file.entities (index.fileRemap iterate file) entity
          (((index.fileRemap iterate file).lookup id).getD 0)) ∧
      ∀ b ∈ numbers file.entities, OneNumber file.entities b entity.id ↔
        ((index.fileRemap iterate file).lookup b).getD 0 =
          ((index.fileRemap iterate file).lookup id).getD 0 := by
    intro id mem
    obtain ⟨entity, same, canonical, found, stored, _⟩ :=
      lookup_indexFileCore order index oneNode (numbered id mem)
    refine ⟨entity, canonical, found, stored, fun b bMem => ?_⟩
    have shared : OneNumber file.entities b entity.id ↔
        (index.fileRemap iterate file).lookup b = (index.fileRemap iterate file).lookup id := by
      rw [← oneNode.representative_eq_iff bMem (canonicalIds_subset canonical),
        oneNode.representative_eq canonical, same, oneNode.representative_eq_iff bMem mem]
      exact (lookup_remap_eq_iff _ order oneNode bMem mem).symm
    rw [shared, numbered b bMem, numbered id mem, Option.getD_some, Option.getD_some]
    exact Option.some_inj
  constructor
  · intro a aMem q parent
    obtain ⟨entity, canonical, found, stored, shared⟩ := standing a aMem
    unfold storedLinks at parent
    simp only [stored, Option.bind_some] at parent
    obtain ⟨b, bMem, one, p, named, given⟩ :=
      oneNode.of_remappedParent _ canonical found parent
    have pMem := (isSome_lookup_fileRemap order index oneNode).1
      (Option.isSome_iff_exists.2 ⟨q, given⟩)
    refine ⟨b, bMem, (shared b bMem).1 one, p, pMem, named, ?_⟩
    rw [given, Option.getD_some]
  · intro a aMem p named
    obtain ⟨entity, canonical, found, stored, shared⟩ := standing a aMem
    unfold storedLinks
    simp only [stored, Option.bind_some]
    refine oneNode.exists_remappedParent _ canonical found ?_ aMem ((shared a aMem).2 rfl) named
    intro b bMem q parent
    exact (isSome_lookup_fileRemap order index oneNode).2 (linked.listed b bMem q parent).1
  · intro p pMem b
    obtain ⟨entity, canonical, found, stored, shared⟩ := standing p pMem
    unfold storedLinks
    simp only [stored, Option.elim_some]
    refine (oneNode.mem_remappedChildren _ canonical found).trans ?_
    constructor
    · rintro ⟨p', p'Mem, one, a, listed, given⟩
      have aMem := (isSome_lookup_fileRemap order index oneNode).1
        (Option.isSome_iff_exists.2 ⟨b, given⟩)
      refine ⟨p', p'Mem, (shared p' p'Mem).1 one, a, aMem, listed, ?_⟩
      rw [given, Option.getD_some]
    · rintro ⟨p', p'Mem, same, a, aMem, listed, rfl⟩
      exact ⟨p', p'Mem, (shared p' p'Mem).2 same, a, listed, numbered a aMem⟩

omit [Sha256] in
theorem parentsAgree_iff :
    ParentsAgree (numbers file.entities) (links file.entities)
        (fun id => ((index.fileRemap iterate file).lookup id).getD 0) ↔
      AliasParentsAgree file.entities := by
  have merged : ∀ a ∈ numbers file.entities, ∀ b ∈ numbers file.entities,
      ((index.fileRemap iterate file).lookup a).getD 0 =
        ((index.fileRemap iterate file).lookup b).getD 0 ↔ OneNumber file.entities a b := by
    intro a aMem b bMem
    obtain ⟨x, foundA⟩ := Option.isSome_iff_exists.1
      ((isSome_lookup_fileRemap order index oneNode).2 aMem)
    obtain ⟨y, foundB⟩ := Option.isSome_iff_exists.1
      ((isSome_lookup_fileRemap order index oneNode).2 bMem)
    rw [← lookup_remap_eq_iff index.entityIdCounter order oneNode aMem bMem]
    unfold fileRemap at foundA foundB ⊢
    rw [foundA, foundB, Option.getD_some, Option.getD_some, Option.some_inj]
  constructor
  · intro agree a aMem b bMem one p parentA q parentB
    have pMem := (linked.listed a aMem p parentA).1
    have qMem := (linked.listed b bMem q parentB).1
    exact (merged p pMem q qMem).1 (agree a aMem b bMem ((merged a aMem b bMem).2 one) p parentA q
      parentB)
  · intro agree a aMem b bMem same p parentA q parentB
    have pMem := (linked.listed a aMem p parentA).1
    have qMem := (linked.listed b bMem q parentB).1
    exact (merged p pMem q qMem).2 (agree a aMem b bMem ((merged a aMem b bMem).1 same) p parentA q
      parentB)

theorem mutual_indexFileCore_iff :
    Mutual {id | ∃ entity ∈ file.entities,
        (index.indexFileCore iterate file).numberOf file.path entity.id = some id}
      (index.indexFileCore iterate file).storedLinks ↔ AliasParentsAgree file.entities := by
  have image : {id | ∃ entity ∈ file.entities,
        (index.indexFileCore iterate file).numberOf file.path entity.id = some id} =
      Set.image (fun id => ((index.fileRemap iterate file).lookup id).getD 0)
        (numbers file.entities) := by
    ext id
    simp only [Set.mem_ofPred_eq, numberOf_indexFileCore, Set.mem_image]
    constructor
    · rintro ⟨entity, mem, numbered⟩
      refine ⟨entity.id, ⟨entity, mem, rfl⟩, ?_⟩
      rw [numbered, Option.getD_some]
    · rintro ⟨_, ⟨entity, mem, rfl⟩, rfl⟩
      obtain ⟨newId, found⟩ := Option.isSome_iff_exists.1
        ((isSome_lookup_fileRemap order index oneNode).2 ⟨entity, mem, rfl⟩)
      refine ⟨entity, mem, ?_⟩
      rw [found, Option.getD_some]
  rw [image, mutual_image_iff linked (merges_indexFileCore order index oneNode linked)]
  exact parentsAgree_iff order index oneNode linked

end

theorem closed_indexFileCore {id newId : EntityId}
    (numbered : (index.fileRemap iterate file).lookup id = some newId) {link : EntityId}
    (named : (index.indexFileCore iterate file).storedLinks.parent newId = some link ∨
      link ∈ (index.indexFileCore iterate file).storedLinks.children newId) :
    ∃ linked ∈ file.entities, (index.indexFileCore iterate file).IndexedAs file linked link := by
  obtain ⟨entity, _, canonical, found, stored, _⟩ :=
    lookup_indexFileCore order index oneNode numbered
  have given : ∃ given, (index.fileRemap iterate file).lookup given = some link := by
    unfold storedLinks at named
    simp only [stored, Option.bind_some, Option.elim_some] at named
    rcases named with parent | child
    · obtain ⟨_, _, _, p, _, numbered⟩ := oneNode.of_remappedParent _ canonical found parent
      exact ⟨p, numbered⟩
    · obtain ⟨_, _, _, a, _, numbered⟩ := (oneNode.mem_remappedChildren _ canonical found).1 child
      exact ⟨a, numbered⟩
  obtain ⟨given, linkNumber⟩ := given
  obtain ⟨linked, mem, rfl⟩ := (isSome_lookup_fileRemap order index oneNode).1
    (Option.isSome_iff_exists.2 ⟨link, linkNumber⟩)
  exact ⟨linked, mem, indexedAs_indexFileCore order index oneNode mem linkNumber⟩

end Agreement

section WellFormed

variable {iterate : HashMap EntityId EntityId → List (EntityId × EntityId)}
  {index : RelationIndex} {file : ParsedFile}

theorem WellFormed.oneNode {after : RelationIndex} (formed : WellFormed index after file) :
    OneNode file.entities := by
  intro a aMem b bMem same
  obtain ⟨id, numberedA, stored, found, _, _, givenA, _, nodeA, alikeA⟩ := formed.indexed a aMem
  obtain ⟨id', numberedB, stored', found', _, _, givenB, _, nodeB, alikeB⟩ :=
    formed.indexed b bMem
  rw [same, numberedB] at numberedA
  rw [Option.some.inj numberedA, found] at found'
  rw [← Option.some.inj found'] at alikeB
  have both : SameNode givenA givenB := Or.inl (alikeA.trans alikeB.symm)
  exact (nodeA.trans both).trans nodeB.symm

/-- A file enters the index as it should exactly when the entities under each of its numbers are one
node and, if its links agree, aliases name parents that are aliases. -/
theorem wellFormed_iff [Sha256] (order : ∀ table, (iterate table).Perm table.toList) :
    WellFormed index (index.indexFileCore iterate file) file ↔
      OneNode file.entities ∧
        (Mutual (numbers file.entities) (links file.entities) →
          AliasParentsAgree file.entities) := by
  constructor
  · intro formed
    have oneNode := formed.oneNode
    exact ⟨oneNode, fun linked =>
      (mutual_indexFileCore_iff order index oneNode linked).1 (formed.linked linked)⟩
  · rintro ⟨oneNode, agree⟩
    constructor
    · intro entity mem
      obtain ⟨id, numbered⟩ := Option.isSome_iff_exists.1
        ((isSome_lookup_fileRemap order index oneNode).2 ⟨entity, mem, rfl⟩)
      exact ⟨id, (numberOf_indexFileCore iterate index file _).trans numbered,
        indexedAs_indexFileCore order index oneNode mem numbered⟩
    · intro entity _ id numbered link named
      rw [numberOf_indexFileCore] at numbered
      exact closed_indexFileCore order index oneNode numbered named
    · intro linked
      exact (mutual_indexFileCore_iff order index oneNode linked).2 (agree linked)
    · intro item mem
      rw [exportsAt_indexFileCore] at mem
      split_ifs at mem
      · exact Or.inl mem
      · obtain ⟨given, givenMem, entered⟩ := mem_filterMap.1 mem
        obtain ⟨id, numbered, rfl⟩ := Option.map_eq_some_iff.1 entered
        refine Or.inr ⟨given, givenMem, rfl, ?_, ?_⟩
        · exact (isSome_lookup_fileRemap order index oneNode).1
            (Option.isSome_iff_exists.2 ⟨id, numbered⟩)
        · intro entity entityMem same
          rw [← same] at numbered
          exact indexedAs_indexFileCore order index oneNode entityMem numbered
    · intro below entity _ id numbered
      rw [numberOf_indexFileCore, fileRemap, lookup_remap _ order oneNode] at numbered
      have given := (lookup_allocated _ numbered).1
      cases stored : index.functionIndex.lookup id with
      | none => rfl
      | some _ =>
        have small := below id (by rw [stored]; rfl)
        exact absurd small (Nat.not_lt.2 given)

theorem mutual_of_entities {entities : List Entity}
    (listed : ∀ a ∈ entities, ∀ p ∈ (links entities).parent a.id,
      (∃ entity ∈ entities, entity.id = p) ∧ a.id ∈ (links entities).children p)
    (named : ∀ p ∈ entities, ∀ a ∈ (links entities).children p.id,
      (∃ entity ∈ entities, entity.id = a) ∧ (links entities).parent a = some p.id) :
    Mutual (numbers entities) (links entities) where
  listed := by
    rintro _ ⟨a, mem, rfl⟩ p parent
    exact listed a mem p parent
  named := by
    rintro _ ⟨p, mem, rfl⟩ a child
    exact named p mem a child

def handlers (ofClass ofModule : List EntityId) (owner : EntityId) : ParsedFile where
  info := { id := "app.js" }
  dependencies := []
  imports := ⟨"app.js", []⟩
  exports := [⟨2, "app.handle", .named⟩]
  scopedNames := ∅
  entities :=
    let span : Span := ⟨40, 60, ⟨4, 0⟩, ⟨6, 1⟩⟩
    [{ Entity.new 0 .classKind "app" ⟨0, 90, ⟨0, 0⟩, ⟨9, 1⟩⟩ with children := ofClass },
      { Entity.new 1 .moduleKind "main" ⟨0, 200, ⟨0, 0⟩, ⟨20, 0⟩⟩ with children := ofModule },
      { Entity.new 2 .method "app.handle" span with parent := some 0 },
      { Entity.new 3 .variableKind "handle" span with parent := some owner }]

/-- The class lists the one, the module lists the other. -/
theorem handlers_adopted_not_wellFormed : ¬ WellFormed RelationIndex.new
    (@indexFileCore sampleSha256 HashMap.toList RelationIndex.new (handlers [2] [3] 1))
    (handlers [2] [3] 1) := by
  let _ := sampleSha256
  intro formed
  have order : ∀ table : HashMap EntityId EntityId, table.toList.Perm table.toList :=
    fun table => List.Perm.refl _
  have linked : Mutual (numbers (handlers [2] [3] 1).entities)
      (links (handlers [2] [3] 1).entities) :=
    mutual_of_entities (by decide +kernel) (by decide +kernel)
  have agree := (mutual_indexFileCore_iff order RelationIndex.new formed.oneNode linked).1
    (formed.linked linked)
  have one : OneNumber (handlers [2] [3] 1).entities 2 3 := by decide +kernel
  have parents := agree 2 ⟨_, .tail _ (.tail _ (.head _)), rfl⟩
    3 ⟨_, .tail _ (.tail _ (.tail _ (.head _))), rfl⟩ one
    0 (by decide +kernel) 1 (by decide +kernel)
  exact absurd parents (by decide +kernel)

/-- The class lists both. -/
theorem handlers_wellFormed : WellFormed RelationIndex.new
    (@indexFileCore sampleSha256 HashMap.toList RelationIndex.new (handlers [2, 3] [] 0))
    (handlers [2, 3] [] 0) := by
  let _ := sampleSha256
  have owner : ∀ entity ∈ (handlers [2, 3] [] 0).entities,
      ∀ p ∈ (links (handlers [2, 3] [] 0).entities).parent entity.id, p = 0 := by decide +kernel
  have oneNode : OneNode (handlers [2, 3] [] 0).entities := by
    unfold OneNode
    decide +kernel
  refine (wellFormed_iff fun table => List.Perm.refl _).2 ⟨oneNode, fun _ => ?_⟩
  rintro _ ⟨a, aMem, rfl⟩ _ ⟨b, bMem, rfl⟩ _ p parentA q parentB
  rw [owner a aMem p parentA, owner b bMem q parentB]
  exact Or.inl rfl

end WellFormed

end RelationIndex

end ContextEngine

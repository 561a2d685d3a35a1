/- digest: Which numbers an operation brings into the tables, and when all are below the counter. -/

import ContextEngine.Compact.RoundTrip
import ContextEngine.Index.SnapshotLoader

set_option autoImplicit false

namespace ContextEngine

open HashMap List RelationIndex Runs CompactRelationIndex

/-- The own number of an entity, its parent and its children. -/
structure EntityIdsIn (P : EntityId → Prop) (entity : Entity) : Prop where
  own : P entity.id
  parent : ∀ parent, entity.parent = some parent → P parent
  children : ∀ child ∈ entity.children, P child

theorem EntityIdsIn.mono {P Q : EntityId → Prop} {entity : Entity} (ids : EntityIdsIn P entity)
    (implies : ∀ id, P id → Q id) : EntityIdsIn Q entity where
  own := implies _ ids.own
  parent parent same := implies parent (ids.parent parent same)
  children child mem := implies child (ids.children child mem)

/-- Every number of a stored entity, or within one, of a file membership, a line row, either end of
an edge, the callee of a file edge, an entity in a symbol table, an export, a reverse caller list or
an id remap. The caller of a file edge is a placeholder, and its reverse table lists the callees. -/
structure IdsIn (P : EntityId → Prop) (index : RelationIndex) : Prop where
  stored : ∀ id, Live index id → P id
  within : ∀ id entity, index.functionIndex.lookup id = some entity → EntityIdsIn P entity
  exported : ∀ path record, index.fileRecords.lookup path = some record →
    ∀ item ∈ record.exports, P item.functionId
  member : ∀ id path, index.entityFileIndex.lookup id = some path → P id
  caller : ∀ caller, ∀ relation ∈ edgesOf index.resolvedRelationIndex caller, P caller
  callee : ∀ caller, ∀ relation ∈ edgesOf index.resolvedRelationIndex caller,
    ∀ callee, relation.calleeId = some callee → P callee
  fileCallee : ∀ path, ∀ relation ∈ edgesOf index.fileRelationIndex path,
    ∀ callee, relation.calleeId = some callee → P callee
  owner : ∀ key id, index.symbolKeyToEntity.lookup key = some id → P id
  keyed : ∀ id key, index.entityToSymbolKey.lookup id = some key → P id
  stableOwner : ∀ stableId id, index.stableIdToEntity.lookup stableId = some id → P id
  row : ∀ path, ∀ item ∈ rowsAt index.fileEntitiesByStart path, P (ofLex item).2
  reverse : ∀ callee, ∀ caller ∈ callersAt index.reverseCalleeIndex callee, P callee ∧ P caller
  remapped : ∀ path table, index.entityIdRemaps.lookup path = some table →
    ∀ fileId id, table.lookup fileId = some id → P id

namespace IdsIn

variable {P Q : EntityId → Prop} {index : RelationIndex}

theorem new : IdsIn P new where
  stored id live := by cases live
  within id entity found := by cases found
  exported path record found := by cases found
  member id path found := by cases found
  caller caller relation mem := absurd mem not_mem_nil
  callee caller relation mem := absurd mem not_mem_nil
  fileCallee path relation mem := absurd mem not_mem_nil
  owner key id found := by cases found
  keyed id key found := by cases found
  stableOwner stableId id found := by cases found
  row path item mem := absurd mem not_mem_nil
  reverse callee caller mem := absurd mem not_mem_nil
  remapped path table found := by cases found

theorem mono (ids : IdsIn P index) (implies : ∀ id, P id → Q id) : IdsIn Q index where
  stored id live := implies id (ids.stored id live)
  within id entity found := (ids.within id entity found).mono implies
  exported path record found item mem := implies _ (ids.exported path record found item mem)
  member id path found := implies id (ids.member id path found)
  caller caller relation mem := implies caller (ids.caller caller relation mem)
  callee caller relation mem callee hit :=
    implies callee (ids.callee caller relation mem callee hit)
  fileCallee path relation mem callee hit :=
    implies callee (ids.fileCallee path relation mem callee hit)
  owner key id found := implies id (ids.owner key id found)
  keyed id key found := implies id (ids.keyed id key found)
  stableOwner stableId id found := implies id (ids.stableOwner stableId id found)
  row path item mem := implies _ (ids.row path item mem)
  reverse callee caller mem := (ids.reverse callee caller mem).imp (implies _) (implies _)
  remapped path table found fileId id hit :=
    implies id (ids.remapped path table found fileId id hit)

section Entities

variable {entityId : EntityId}

theorem insertFunction (ids : IdsIn P index) {entity : Entity}
    (new : P entityId) (inner : EntityIdsIn P entity) :
    IdsIn P (index.insertFunction entityId entity) :=
  { ids with
    within := fun id entity' found => by
      change (index.functionIndex.insert entityId entity).lookup id = some entity' at found
      rw [lookup_insert_eq] at found
      split_ifs at found
      · exact Option.some.inj found ▸ inner
      · exact ids.within id entity' found
    stored := fun id live => by
      change ((index.functionIndex.insert entityId entity).lookup id).isSome at live
      rw [lookup_insert_eq] at live
      split_ifs at live with same
      · exact same ▸ new
      · exact ids.stored id live }

theorem insertMember (ids : IdsIn P index) (path : String)
    (new : P entityId) :
    IdsIn P { index with entityFileIndex := index.entityFileIndex.insert entityId path } :=
  { ids with
    member := fun id path' found => by
      change AList.lookup id (index.entityFileIndex.insert entityId path) = some path' at found
      rw [lookup_insert_eq] at found
      split_ifs at found with same
      · exact same ▸ new
      · exact ids.member id path' found }

theorem trackRow (ids : IdsIn P index) (path : String) (row : Nat) (new : P entityId) :
    IdsIn P { index with
      fileEntitiesByStart := trackFileEntity index.fileEntitiesByStart path row entityId } :=
  { ids with
    row := fun path' item mem => by
      rcases mem_rowsAt_trackFileEntity.1 mem with ⟨-, -, rfl⟩ | before
      · exact new
      · exact ids.row path' item before }

theorem untrackRow (ids : IdsIn P index) (path : String) :
    IdsIn P { index with
      fileEntitiesByStart := untrackFileEntity index.fileEntitiesByStart path entityId } :=
  { ids with
    row := fun path' item mem => ids.row path' item (mem_rowsAt_untrackFileEntity.1 mem).1 }

variable [Sha256]

theorem registerSymbolKey (ids : IdsIn P index) (filePath scopedName : String) (entity : Entity)
    (new : P entityId) :
    IdsIn P (index.registerSymbolKey filePath scopedName entity entityId) := by
  unfold RelationIndex.registerSymbolKey
  cases index.resolveSymbolKey filePath scopedName entity entityId with
  | kept => exact { ids with }
  | conflict key existing => exact { ids with }
  | placed own =>
    refine { ids with
      owner := fun key id found => ?_
      keyed := fun id key found => ?_
      stableOwner := fun stableId id found => ?_ }
    · simp only [lookup_insert_eq] at found
      split_ifs at found
      · exact Option.some.inj found ▸ new
      · exact ids.owner key id found
    · simp only [lookup_insert_eq] at found
      split_ifs at found with same
      · exact same ▸ new
      · exact ids.keyed id key found
    · simp only [lookup_insert_eq] at found
      split_ifs at found
      · exact Option.some.inj found ▸ new
      · exact ids.stableOwner stableId id found

theorem applyAddedEntity (ids : IdsIn P index) {added : AddedEntity}
    (inner : EntityIdsIn P added.entity) : IdsIn P (applyAddedEntity index added) := by
  have stored : IdsIn P (index.insertFunction added.entity.id added.entity) :=
    ids.insertFunction inner.own inner
  have registered := (stored.insertMember added.filePath inner.own).registerSymbolKey
    added.symbolKey.filePath added.symbolKey.scopedName added.entity inner.own
  exact registered.trackRow added.filePath _ inner.own

theorem applyRemovedEntity (ids : IdsIn P index) (entityId : EntityId) :
    IdsIn P (applyRemovedEntity index entityId) := by
  have kept : ∀ caller relation, relation ∈ edgesOf (dropResolvedEntity
      index.resolvedRelationIndex entityId) caller →
        relation ∈ edgesOf index.resolvedRelationIndex caller := by
    intro caller relation mem
    rw [edgesOf_dropResolvedEntity] at mem
    split_ifs at mem
    · cases mem
    · exact mem
  have owners : (∀ key id, (ContextEngine.applyRemovedEntity index
        entityId).symbolKeyToEntity.lookup key = some id → P id) ∧
      ∀ stableId id, (ContextEngine.applyRemovedEntity index
        entityId).stableIdToEntity.lookup stableId = some id → P id := by
    simp only [ContextEngine.applyRemovedEntity, dropSymbolKey, RelationIndex.removeFunction]
    cases index.entityToSymbolKey.lookup entityId with
    | none => exact ⟨ids.owner, ids.stableOwner⟩
    | some removed =>
      simp only [lookup_erase_eq]
      refine ⟨fun key id found => ?_, fun stableId id found => ?_⟩ <;> split_ifs at found
      · exact ids.owner key id found
      · exact ids.stableOwner stableId id found
  refine { ids with
    stored := fun id live => ?_
    within := fun id entity found => ?_
    member := fun id path found => ?_
    caller := fun caller relation mem => ids.caller caller relation (kept caller relation mem)
    callee := fun caller relation mem => ids.callee caller relation (kept caller relation mem)
    owner := owners.1
    keyed := fun id key found => ?_
    stableOwner := owners.2
    row := fun path item mem =>
      ids.row path item ((mem_rowsAt_applyRemovedEntities index [entityId]).1 mem).1
    reverse := fun callee caller mem =>
      ids.reverse callee caller (mem_callersAt_dropReverseEntity.1 mem).2.2 }
  · change ((index.functionIndex.erase entityId).lookup id).isSome at live
    rw [lookup_erase_eq] at live
    split_ifs at live
    · cases live
    · exact ids.stored id live
  · change (index.functionIndex.erase entityId).lookup id = some entity at found
    rw [lookup_erase_eq] at found
    split_ifs at found
    exact ids.within id entity found
  · change (index.entityFileIndex.erase entityId).lookup id = some path at found
    rw [lookup_erase_eq] at found
    split_ifs at found
    exact ids.member id path found
  · change (index.entityToSymbolKey.erase entityId).lookup id = some key at found
    rw [lookup_erase_eq] at found
    split_ifs at found
    exact ids.keyed id key found

omit [Sha256] in
def NothingToRename (index : RelationIndex) (id : EntityId) : Prop :=
  ¬Live index id ∧ index.entityFileIndex.lookup id = none ∧
    index.entityToSymbolKey.lookup id = none

theorem applyRenamedEntity (ids : IdsIn P index) {renamed : RenamedEntity}
    (new : P renamed.newId ∨ NothingToRename index renamed.oldId) :
    IdsIn P (applyRenamedEntity index renamed) := by
  have kept : ∀ caller relation, relation ∈ edgesOf (renameResolved
      index.resolvedRelationIndex renamed) caller →
        relation ∈ edgesOf index.resolvedRelationIndex caller := by
    intro caller relation mem
    rw [edgesOf_renameResolved index.edgesFiled] at mem
    split_ifs at mem
    · cases mem
    · exact mem
  have movesStored : ∀ entity, index.functionIndex.lookup renamed.oldId = some entity →
      P renamed.newId := fun entity stored => new.resolve_right fun nothing =>
    nothing.1 (Option.isSome_iff_exists.2 ⟨entity, stored⟩)
  have movesMember : ∀ path, index.entityFileIndex.lookup renamed.oldId = some path →
      P renamed.newId := fun path member => new.resolve_right fun nothing =>
    Option.some_ne_none path (member.symm.trans nothing.2.1)
  have movesKeyed : ∀ key, index.entityToSymbolKey.lookup renamed.oldId = some key →
      P renamed.newId := fun key own => new.resolve_right fun nothing =>
    Option.some_ne_none key (own.symm.trans nothing.2.2)
  have stands : ∀ id entity, (ContextEngine.applyRenamedEntity index renamed).functionIndex.lookup
      id = some entity → (id = renamed.newId ∧
        index.functionIndex.lookup renamed.oldId = some entity) ∨
          index.functionIndex.lookup id = some entity := by
    intro id entity found
    simp only [ContextEngine.applyRenamedEntity] at found
    cases stored : index.functionIndex.lookup renamed.oldId with
    | none =>
      rw [stored] at found
      exact Or.inr found
    | some old =>
      rw [stored] at found
      rcases of_lookup_insert_erase found with ⟨rfl, same⟩ | before
      · exact Or.inl ⟨rfl, same ▸ rfl⟩
      · exact Or.inr before
  have symbols : (∀ key id, (ContextEngine.applyRenamedEntity index
        renamed).symbolKeyToEntity.lookup key = some id → P id) ∧
      (∀ id key, (ContextEngine.applyRenamedEntity index
        renamed).entityToSymbolKey.lookup id = some key → P id) ∧
      ∀ stableId id, (ContextEngine.applyRenamedEntity index
        renamed).stableIdToEntity.lookup stableId = some id → P id := by
    simp only [ContextEngine.applyRenamedEntity, renameSymbolKey]
    cases own : index.entityToSymbolKey.lookup renamed.oldId with
    | none => exact ⟨ids.owner, ids.keyed, ids.stableOwner⟩
    | some oldKey =>
      refine ⟨fun key id found => ?_, fun id key found => ?_, fun stableId id found => ?_⟩
      · rcases of_lookup_insert_erase found with ⟨-, rfl⟩ | before
        · exact movesKeyed oldKey own
        · exact ids.owner key id before
      · rcases of_lookup_insert_erase found with ⟨rfl, -⟩ | before
        · exact movesKeyed oldKey own
        · exact ids.keyed id key before
      · rcases of_lookup_insert_erase found with ⟨-, rfl⟩ | before
        · exact movesKeyed oldKey own
        · exact ids.stableOwner stableId id before
  refine { ids with
    stored := fun id live => ?_
    within := fun id entity found => ?_
    member := fun id path found => ?_
    caller := fun caller relation mem => ids.caller caller relation (kept caller relation mem)
    callee := fun caller relation mem => ids.callee caller relation (kept caller relation mem)
    owner := symbols.1
    keyed := symbols.2.1
    stableOwner := symbols.2.2 }
  · obtain ⟨entity, found⟩ := Option.isSome_iff_exists.1 live
    rcases stands id entity found with ⟨rfl, moved⟩ | before
    · exact movesStored entity moved
    · exact ids.stored id (Option.isSome_iff_exists.2 ⟨entity, before⟩)
  · rcases stands id entity found with ⟨-, moved⟩ | before
    · exact ids.within _ entity moved
    · exact ids.within id entity before
  · simp only [ContextEngine.applyRenamedEntity] at found
    cases member : index.entityFileIndex.lookup renamed.oldId with
    | none =>
      rw [member] at found
      exact ids.member id path found
    | some old =>
      rw [member] at found
      rcases of_lookup_insert_erase found with ⟨rfl, -⟩ | before
      · exact movesMember old member
      · exact ids.member id path before

end Entities

section Edges

/-- The ends of an edge satisfy the predicate. -/
def EndsIn (P : EntityId → Prop) (relation : ResolvedRelation) : Prop :=
  P relation.caller ∧ ∀ callee, relation.calleeId = some callee → P callee

theorem of_stillCalls (ids : IdsIn P index) {caller callee : EntityId}
    (calls : stillCalls index.resolvedRelationIndex caller callee = true) :
    P callee ∧ P caller := by
  obtain ⟨relation, edge, hit⟩ := stillCalls_iff.1 calls
  exact ⟨ids.callee caller relation edge callee hit, ids.caller caller relation edge⟩

theorem rebuildReverseCalleeIndex (ids : IdsIn P index) :
    IdsIn P index.rebuildReverseCalleeIndex :=
  { ids with
    reverse := fun _ _ mem => ids.of_stillCalls (mem_callersAt_rebuildReverseCalleeIndex.1 mem) }

theorem addResolvedRelation (ids : IdsIn P index) {relation : ResolvedRelation}
    (new : EndsIn P relation) : IdsIn P (index.addResolvedRelation relation) := by
  have mem_or : ∀ caller edge, edge ∈ edgesOf (index.addResolvedRelation
      relation).resolvedRelationIndex caller → edge ∈ edgesOf index.resolvedRelationIndex caller ∨
          caller = relation.caller ∧ edge = relation := by
    intro caller edge mem
    change edge ∈ edgesOf (addEdge index.resolvedRelationIndex relation.caller relation) caller
      at mem
    rw [edgesOf_addEdge] at mem
    split_ifs at mem with fresh
    · rcases mem_append.1 mem with old | single
      · exact Or.inl (fresh.1 ▸ old)
      · exact Or.inr ⟨fresh.1, mem_singleton.1 single⟩
    · exact Or.inl mem
  refine { ids with
    caller := fun caller edge mem => ?_
    callee := fun caller edge mem => ?_
    reverse := fun callee caller mem => ?_ }
  · rcases mem_or caller edge mem with old | ⟨same, -⟩
    · exact ids.caller caller edge old
    · exact same ▸ new.1
  · rcases mem_or caller edge mem with old | ⟨-, same⟩
    · exact ids.callee caller edge old
    · exact same ▸ new.2
  · simp only [RelationIndex.addResolvedRelation] at mem
    split at mem
    · exact ids.reverse callee caller mem
    · split at mem
      · next hit =>
        rcases mem_callersAt_trackReverseCaller.1 mem with ⟨rfl, rfl⟩ | before
        · exact ⟨new.2 _ hit, new.1⟩
        · exact ids.reverse callee caller before
      · exact ids.reverse callee caller mem

theorem applyRemovedRelation (ids : IdsIn P index) (relation : ResolvedRelation) :
    IdsIn P (applyRemovedRelation index relation) := by
  have kept : ∀ caller edge, edge ∈ edgesOf (ContextEngine.applyRemovedRelation index
      relation).resolvedRelationIndex caller →
        edge ∈ edgesOf index.resolvedRelationIndex caller := by
    intro caller edge mem
    change edge ∈ edgesOf (removeRelation index.resolvedRelationIndex relation) caller at mem
    rw [edgesOf_removeRelation] at mem
    split_ifs at mem
    · exact (mem_filter.1 mem).1
    · exact mem
  refine { ids with
    caller := fun caller edge mem => ids.caller caller edge (kept caller edge mem)
    callee := fun caller edge mem => ids.callee caller edge (kept caller edge mem)
    reverse := fun callee caller mem => ids.reverse callee caller ?_ }
  simp only [ContextEngine.applyRemovedRelation, maybeUntrackReverseCaller] at mem
  split at mem
  · exact mem
  · split at mem
    · exact mem
    · exact (mem_callersAt_untrackReverseCaller.1 mem).2

theorem addFileRelation (ids : IdsIn P index) (filePath : String) {relation : ResolvedRelation}
    (new : ∀ callee, relation.calleeId = some callee → P callee) :
    IdsIn P (index.addFileRelation filePath relation) := by
  refine { ids with fileCallee := fun path edge mem => ?_ }
  change edge ∈ edgesOf (addEdge index.fileRelationIndex filePath relation) path at mem
  rw [edgesOf_addEdge] at mem
  split_ifs at mem with fresh
  · rcases mem_append.1 mem with old | single
    · exact ids.fileCallee filePath edge old
    · exact mem_singleton.1 single ▸ new
  · exact ids.fileCallee path edge mem

def AddedCalleesIn (P : EntityId → Prop) (diff : FileRelationDiff) : Prop :=
  ∀ relation ∈ diff.addedRelations, ∀ callee, relation.calleeId = some callee → P callee

theorem applyFileRelationDiff (ids : IdsIn P index) {diff : FileRelationDiff}
    (new : AddedCalleesIn P diff) : IdsIn P (applyFileRelationDiff index diff) := by
  refine { ids with fileCallee := fun path edge mem => ?_ }
  change edge ∈ edgesOf (patchFileRelations index.fileRelationIndex diff) path at mem
  rw [edgesOf_patchFileRelations] at mem
  split_ifs at mem
  · rcases mem_of_mem_edges_foldl_insert mem with old | added
    · rw [edges_foldl_removeByIdentity] at old
      exact ids.fileCallee diff.filePath edge (mem_filter.1 old).1
    · exact new edge added
  · exact ids.fileCallee path edge mem

theorem applyRemovedFile (ids : IdsIn P index) (path : String) :
    IdsIn P (applyRemovedFile index path) := by
  refine { ids with
    fileCallee := fun path' edge mem => ?_
    exported := fun path' record found => ?_
    row := fun path' item mem => ?_
    remapped := fun path' table found => ?_ }
  · change (index.fileRecords.erase path).lookup path' = some record at found
    rw [lookup_erase_eq] at found
    split_ifs at found
    exact ids.exported path' record found
  · change edge ∈ edgesOf (index.fileRelationIndex.erase path) path' at mem
    rw [edgesOf_erase] at mem
    split_ifs at mem
    · cases mem
    · exact ids.fileCallee path' edge mem
  · change item ∈ rowsAt (applyRemovedFiles index [path]).fileEntitiesByStart path' at mem
    rw [rowsAt_applyRemovedFiles] at mem
    split_ifs at mem
    · cases mem
    · exact ids.row path' item mem
  · change (index.entityIdRemaps.erase path).lookup path' = some table at found
    rw [lookup_erase_eq] at found
    split_ifs at found
    exact ids.remapped path' table found

theorem alterRecord (ids : IdsIn P index) (path : String)
    (change : Option FileRecord → Option FileRecord)
    (kept : ∀ record, change (index.fileRecords.lookup path) = some record →
      ∀ item ∈ record.exports, P item.functionId) :
    IdsIn P { index with fileRecords := index.fileRecords.alter path change } :=
  { ids with
    exported := fun path' record found => by
      change (index.fileRecords.alter path change).lookup path' = some record at found
      rw [lookup_alter] at found
      split_ifs at found
      · exact kept record found
      · exact ids.exported path' record found }

theorem exported_getD (ids : IdsIn P index) (path : String) :
    ∀ item ∈ ((index.fileRecords.lookup path).getD defaultFileRecord).exports,
      P item.functionId := by
  cases found : index.fileRecords.lookup path with
  | none =>
    intro item mem
    cases mem
  | some record => exact ids.exported path record found

theorem addFile (ids : IdsIn P index) (info : FileInfo) : IdsIn P (index.addFile info) :=
  ids.alterRecord info.id _ fun _ filed => Option.some.inj filed ▸ ids.exported_getD info.id

theorem addImportTable (ids : IdsIn P index) (fileId : String) (imports : ImportTable) :
    IdsIn P (index.addImportTable fileId imports) :=
  ids.alterRecord fileId _ fun _ filed => Option.some.inj filed ▸ ids.exported_getD fileId

theorem applyAddedFile (ids : IdsIn P index) (info : FileInfo) :
    IdsIn P (applyAddedFile index info) :=
  ids.alterRecord info.path _ fun _ filed => Option.some.inj filed ▸ ids.exported_getD info.path

theorem applyImportDiff (ids : IdsIn P index) (diff : ImportDiff) :
    IdsIn P (applyImportDiff index diff) := by
  refine ids.alterRecord diff.filePath _ fun record found => ?_
  obtain ⟨before, standing, rfl⟩ := Option.map_eq_some_iff.1 found
  exact ids.exported diff.filePath before standing

theorem applyExportDiff (ids : IdsIn P index) (diff : ExportDiff) :
    IdsIn P (applyExportDiff index diff) := by
  refine { ids.alterRecord diff.filePath (Option.map fun record => { record with
    exports := patchExports index.symbolKeyToEntity.lookup record.exports diff })
      fun record found item mem => ?_ with }
  obtain ⟨before, standing, rfl⟩ := Option.map_eq_some_iff.1 found
  rcases mem_append.1 mem with kept | fresh
  · exact ids.exported diff.filePath before standing item (mem_filter.1 kept).1
  · obtain ⟨added, -, registered⟩ := mem_filterMap.1 fresh
    obtain ⟨id, owner, rfl⟩ := Option.map_eq_some_iff.1 registered
    exact ids.owner added.symbol id owner

end Edges

end IdsIn

section Names

namespace RelationIndex.NamesExact

variable {index : RelationIndex}

theorem congr {other : RelationIndex} (names : NamesExact index)
    (functions : ∀ id, other.functionIndex.lookup id = index.functionIndex.lookup id)
    (table : other.nameIndex = index.nameIndex) : NamesExact other := by
  refine ⟨?_, fun name id => ?_⟩
  · rw [table]
    exact names.nodup
  · rw [table, functions]
    exact names.mem_iff name id

theorem removeFunction (names : NamesExact index) (entityId : EntityId) :
    NamesExact (index.removeFunction entityId) := by
  have functions : ∀ id, (index.removeFunction entityId).functionIndex.lookup id =
      if id = entityId then none else index.functionIndex.lookup id :=
    lookup_erase_eq _ _
  cases stored : index.functionIndex.lookup entityId with
  | none =>
    refine names.congr (fun id => ?_) ?_
    · rw [functions]
      split_ifs with same
      · rw [same, stored]
      · rfl
    · simp only [RelationIndex.removeFunction, stored]
  | some entity =>
    have table : (index.removeFunction entityId).nameIndex =
        index.nameIndex.bucketErase entity.name entityId := by
      simp only [RelationIndex.removeFunction, stored]
    refine ⟨fun name => ?_, fun name id => ?_⟩
    · rw [table, bucket_bucketErase]
      split_ifs
      · exact (names.nodup _).filter _
      · exact names.nodup name
    · rw [table, bucket_bucketErase, functions]
      by_cases same : id = entityId
      · subst same
        rw [if_pos rfl]
        refine iff_of_false (fun mem => ?_) fun found => by cases found.choose_spec.1
        split_ifs at mem with here
        · exact absurd rfl (of_decide_eq_true (mem_filter.1 mem).2)
        · obtain ⟨other, found, named⟩ := (names.mem_iff name id).1 mem
          rw [stored] at found
          exact here (Option.some.inj found ▸ named.symm)
      · rw [if_neg same, ← names.mem_iff]
        split_ifs with here
        · rw [here, mem_filter, decide_eq_true_eq]
          exact and_iff_left same
        · exact Iff.rfl

theorem applyRenamedEntity [Sha256] (names : NamesExact index) {renamed : RenamedEntity}
    (stays : Live index renamed.oldId → renamed.newId = renamed.oldId) :
    NamesExact (applyRenamedEntity index renamed) := by
  refine names.congr (fun id => ?_) rfl
  simp only [ContextEngine.applyRenamedEntity]
  cases stored : index.functionIndex.lookup renamed.oldId with
  | none => rfl
  | some entity =>
    have same := stays (Option.isSome_iff_exists.2 ⟨entity, stored⟩)
    simp only [lookup_insert_eq, lookup_erase_eq, same]
    split_ifs with here
    · rw [here, stored]
    · rfl

end RelationIndex.NamesExact

theorem namesExact_detachedClone (index : RelationIndex) : NamesExact index.detachedClone where
  nodup name := by
    change ((groupByName index.functionIndex.toList).bucket name).Nodup
    rw [bucket_groupByName]
    refine List.Nodup.sublist (filter_sublist.map Prod.fst) ?_
    rw [map_fst_toList]
    exact index.functionIndex.keys_nodup
  mem_iff name id := by
    change id ∈ (groupByName index.functionIndex.toList).bucket name ↔ _
    rw [mem_bucket_groupByName]
    simp only [mem_toList]
    exact Iff.rfl

end Names

section Replay

variable [Sha256] {index : RelationIndex} {delta : SnapshotDelta}

def counterAfter (index : RelationIndex) (delta : SnapshotDelta) : Nat :=
  delta.addedEntities.foldl (fun counter added => max counter (asU64 (added.entity.id + 1)))
    index.entityIdCounter

theorem entityIdCounter_applyDelta (index : RelationIndex) (delta : SnapshotDelta) :
    (applyDelta index delta).entityIdCounter = counterAfter index delta := by
  have entities : (applyDelta index delta).entityIdCounter =
      (replayEntities index delta).entityIdCounter :=
    congrArg EntityTables.entityIdCounter (entityTables_applyDelta index delta)
  have added : (replayEntities index delta).entityIdCounter =
      delta.addedEntities.foldl (fun counter added => max counter (asU64 (added.entity.id + 1)))
        (replayLosses index delta).entityIdCounter :=
    (foldl_hom entityIdCounter fun _ _ => rfl).symm
  have losses : (replayLosses index delta).entityIdCounter = index.entityIdCounter :=
    (frame_replayLosses entityIdCounter (fun _ _ => rfl) (fun _ _ => rfl) (fun _ => rfl) _ _).trans
      (frame_applyFiles _ entityIdCounter (fun _ _ => rfl) (fun _ _ => rfl) _ _)
  rw [entities, added, losses]
  rfl

omit [Sha256] in
theorem counter_le_counterAfter (index : RelationIndex) (delta : SnapshotDelta) :
    index.entityIdCounter ≤ counterAfter index delta := by
  have folded : counterAfter index delta =
      (delta.addedEntities.map fun added => asU64 (added.entity.id + 1)).foldl max
        index.entityIdCounter := by
    rw [foldl_map]
    rfl
  rw [folded]
  exact (foldl_max_le_iff.1 (Nat.le_refl _)).1

/-- A rename the replay can take: its new number is below the counter that the replay ends with,
unless there is nothing to move, and a stored entity keeps its number. -/
def RenameKeepsIds (bound : Nat) (index : RelationIndex) (renamed : RenamedEntity) : Prop :=
  (renamed.newId < bound ∨ IdsIn.NothingToRename index renamed.oldId) ∧
    (Live index renamed.oldId → renamed.newId = renamed.oldId)

/-- Everything a delta brings in besides its added entities is below the counter that the replay
ends with. -/
structure DeltaKeepsIds (index : RelationIndex) (delta : SnapshotDelta) : Prop where
  renames : EveryStep ContextEngine.applyRenamedEntity (RenameKeepsIds (counterAfter index delta))
    (applyRemovedEntities
      (applyAddedFiles (applyRemovedFiles index delta.removedFiles) delta.addedFiles)
      delta.removedEntities)
    delta.renamedEntities
  added : ∀ added ∈ delta.addedEntities, EntityIdsIn (· < counterAfter index delta) added.entity
  edges : ∀ relation ∈ delta.addedRelations,
    IdsIn.EndsIn (· < counterAfter index delta) relation
  fileEdges : ∀ diff ∈ delta.fileRelationDiffs,
    IdsIn.AddedCalleesIn (· < counterAfter index delta) diff

theorem IdsIn.applyDelta (ids : IdsIn (· < index.entityIdCounter) index)
    (keeps : DeltaKeepsIds index delta) :
    IdsIn (· < (applyDelta index delta).entityIdCounter) (applyDelta index delta) := by
  have start : IdsIn (· < counterAfter index delta) index :=
    ids.mono fun id below => Nat.lt_of_lt_of_le below (counter_le_counterAfter index delta)
  have files : IdsIn (· < counterAfter index delta)
      (applyAddedFiles (applyRemovedFiles index delta.removedFiles) delta.addedFiles) := by
    have removed : IdsIn (· < counterAfter index delta)
        (applyRemovedFiles index delta.removedFiles) :=
      foldlRecOn _ _ start fun _ ids path _ => ids.applyRemovedFile path
    exact foldlRecOn _ _ removed fun _ ids info _ => ids.applyAddedFile info
  have removed : IdsIn (· < counterAfter index delta) (applyRemovedEntities
      (applyAddedFiles (applyRemovedFiles index delta.removedFiles) delta.addedFiles)
      delta.removedEntities) :=
    foldlRecOn _ _ files fun _ ids id _ => ids.applyRemovedEntity id
  have losses : IdsIn (· < counterAfter index delta) (replayLosses index delta) := by
    have kept : ∀ index' renamed, RenameKeepsIds (counterAfter index delta) index' renamed →
        IdsIn (· < counterAfter index delta) index' →
          IdsIn (· < counterAfter index delta) (ContextEngine.applyRenamedEntity index' renamed) :=
      fun _ _ ok ids => ids.applyRenamedEntity ok.1
    have renamed := Runs.invariant kept removed keeps.renames
    unfold replayLosses applyRenamedEntities
    split_ifs
    · exact removed
    · exact renamed.rebuildReverseCalleeIndex
  have entities : IdsIn (· < counterAfter index delta) (replayEntities index delta) :=
    foldlRecOn _ _ losses fun _ ids added mem => ids.applyAddedEntity (keeps.added added mem)
  have edges : IdsIn (· < counterAfter index delta) (replayEdges index delta) := by
    have dropped : IdsIn (· < counterAfter index delta)
        (applyRemovedRelations (replayEntities index delta) delta.removedRelations) :=
      foldlRecOn _ _ entities fun _ ids relation _ => ids.applyRemovedRelation relation
    have filed : IdsIn (· < counterAfter index delta) (applyAddedRelations
        (applyRemovedRelations (replayEntities index delta) delta.removedRelations)
        delta.addedRelations) :=
      foldlRecOn _ _ dropped fun _ ids relation mem =>
        ids.addResolvedRelation (keeps.edges relation mem)
    exact foldlRecOn _ _ filed fun _ ids diff mem =>
      ids.applyFileRelationDiff (keeps.fileEdges diff mem)
  have imports : IdsIn (· < counterAfter index delta)
      (applyImportDiffs (replayEdges index delta) delta.importDiffs) :=
    foldlRecOn _ _ edges fun _ ids diff _ => ids.applyImportDiff diff
  have exports : IdsIn (· < counterAfter index delta) (applyExportDiffs
      (applyImportDiffs (replayEdges index delta) delta.importDiffs) delta.exportDiffs) :=
    foldlRecOn _ _ imports fun _ ids diff _ => ids.applyExportDiff diff
  rw [entityIdCounter_applyDelta]
  exact { exports with }

theorem RelationIndex.NamesExact.applyDelta (names : NamesExact index)
    (keeps : DeltaKeepsIds index delta) : NamesExact (applyDelta index delta) := by
  have files : NamesExact
      (applyAddedFiles (applyRemovedFiles index delta.removedFiles) delta.addedFiles) :=
    names.congr (fun id => congrArg (AList.lookup id)
        (frame_applyFiles _ functionIndex (fun _ _ => rfl) (fun _ _ => rfl) _ _))
      (frame_applyFiles _ nameIndex (fun _ _ => rfl) (fun _ _ => rfl) _ _)
  have removed : NamesExact (applyRemovedEntities
      (applyAddedFiles (applyRemovedFiles index delta.removedFiles) delta.addedFiles)
      delta.removedEntities) :=
    foldlRecOn _ _ files fun _ names id _ =>
      (names.removeFunction id).congr (fun _ => rfl) rfl
  have losses : NamesExact (replayLosses index delta) := by
    have kept : ∀ index' renamed, RenameKeepsIds (counterAfter index delta) index' renamed →
        NamesExact index' → NamesExact (ContextEngine.applyRenamedEntity index' renamed) :=
      fun _ _ ok names => names.applyRenamedEntity ok.2
    have renamed := Runs.invariant kept removed keeps.renames
    unfold replayLosses applyRenamedEntities
    split_ifs
    · exact removed
    · exact renamed.congr (fun _ => rfl) rfl
  have entities : NamesExact (replayEntities index delta) :=
    foldlRecOn _ _ losses fun _ names added _ =>
      (names.insertFunction added.entity.id added.entity).congr (fun _ => rfl) rfl
  have tables := entityTables_applyDelta index delta
  exact entities.congr (fun id => congrArg (fun t => t.functionIndex.lookup id) tables)
    (congrArg EntityTables.nameIndex tables)

end Replay

section Compaction

theorem IdsIn.toRelationIndex {P : EntityId → Prop} {index : RelationIndex} (ids : IdsIn P index) :
    IdsIn P (fromRelationIndex index).toRelationIndex := by
  have shares := sharesTables_toRelationIndex index
  exact
    { stored := fun id live => ids.stored id (by
        unfold Live at live ⊢
        rwa [shares.functions] at live)
      within := fun id entity found => ids.within id entity ((shares.functions id).symm.trans found)
      exported := ids.exported
      member := fun id path found => ids.member id path ((shares.files id).symm.trans found)
      caller := fun caller relation mem => ids.caller caller relation (shares.edges caller ▸ mem)
      callee := fun caller relation mem => ids.callee caller relation (shares.edges caller ▸ mem)
      fileCallee := fun path relation mem =>
        ids.fileCallee path relation (shares.edgesOf_fileRelationIndex path ▸ mem)
      owner := ids.owner
      keyed := ids.keyed
      stableOwner := ids.stableOwner
      row := ids.row
      reverse := fun callee caller mem => ids.of_stillCalls (by
        rwa [reverseTransposed_toRelationIndex, stillCalls_congr (shares.edges caller)] at mem)
      remapped := fun path table found => by
        rw [entityIdRemaps_toRelationIndex] at found
        cases found }

end Compaction

namespace RelationSnapshotLoader

section Numbers

variable {symbolIds : HashMap SymbolKey EntityId}

def Given (symbolIds : HashMap SymbolKey EntityId) (id : EntityId) : Prop :=
  ∃ key, symbolIds.lookup key = some id

variable {key : SymbolKey} {id : EntityId}

theorem requiredId_eq_ok {role : String} :
    requiredId symbolIds key role = .ok id ↔ symbolIds.lookup key = some id := by
  unfold requiredId
  cases symbolIds.lookup key with
  | none => exact iff_of_false (fun failed => by cases failed) fun found => by cases found
  | some given => exact ⟨fun same => Except.ok.inj same ▸ rfl,
      fun same => Option.some.inj same ▸ rfl⟩

theorem given_of_requiredIdOf {key : Option SymbolKey} {role : String} {found : Option EntityId}
    (required : requiredIdOf symbolIds key role = .ok found) :
    ∀ id, found = some id → Given symbolIds id := by
  intro id same
  cases key with
  | none =>
    cases Except.ok.inj required
    cases same
  | some key =>
    unfold requiredIdOf at required
    cases outcome : requiredId symbolIds key role with
    | error message =>
      simp only [outcome] at required
      cases required
    | ok given =>
      simp only [outcome] at required
      cases Except.ok.inj required
      exact ⟨key, Option.some.inj same ▸ requiredId_eq_ok.1 outcome⟩

variable {snapshot : CanonicalRelationSnapshot}

theorem mem_entities_of_given {ids : IdAssignment}
    (done : snapshot.entities.foldlM assignId (initialIds snapshot) = .ok ids)
    (given : ids.symbolIds.lookup key = some id) :
    ∃ canonical ∈ snapshot.entities, canonical.key = key := by
  have kept : ∀ canonical ∈ snapshot.entities, ∀ state state',
      assignId state canonical = .ok state' →
      (∀ key id, state.symbolIds.lookup key = some id → ∃ e ∈ snapshot.entities, e.key = key) →
      ∀ key id, state'.symbolIds.lookup key = some id → ∃ e ∈ snapshot.entities, e.key = key := by
    intro canonical mem state state' first keys key id found
    have inserted : ∃ number, state'.symbolIds = state.symbolIds.insert canonical.key number := by
      unfold assignId at first
      split_ifs at first
      rw [← Except.ok.inj first]
      cases canonical.entityId with
      | none => exact ⟨_, rfl⟩
      | some own => exact ⟨_, rfl⟩
    obtain ⟨number, table⟩ := inserted
    rw [table, HashMap.lookup_insert_eq] at found
    split_ifs at found with same
    · exact ⟨canonical, mem, same.symm⟩
    · exact keys key id found
  exact invariant_of_ok kept done (fun _ _ none => by cases none) key id given

/-- The largest number given, and one more for every entity without one, leave room for the
counter. -/
def NumbersFit (snapshot : CanonicalRelationSnapshot) : Prop :=
  (snapshot.entities.filterMap CanonicalEntity.entityId).foldl max 0 +
    (snapshot.entities.filter fun canonical => canonical.entityId.isNone).length + 1 < 2 ^ 64

/-- Every number taken or assigned so far is below the next one to try. -/
structure BelowNext (state : IdAssignment) : Prop where
  used : ∀ id ∈ state.usedIds, id < state.nextFallback
  assigned : ∀ id, Given state.symbolIds id → id < state.nextFallback

theorem skipUsed_of_below {usedIds : List EntityId} {next : EntityId}
    (below : ∀ id ∈ usedIds, id < next) (fits : next < 2 ^ 64) : skipUsed usedIds next = next := by
  have wraps : asU64 (next + 0) = next := Nat.mod_eq_of_lt fits
  have free : next ∉ usedIds := fun mem => Nat.lt_irrefl next (below next mem)
  unfold skipUsed
  rw [List.range_succ_eq_map, List.map_cons, wraps, List.find?_cons, decide_eq_true free]
  rfl

theorem given_insert {number id : EntityId}
    (given : Given (symbolIds.insert key number) id) : id = number ∨ Given symbolIds id := by
  obtain ⟨other, found⟩ := given
  rw [HashMap.lookup_insert_eq] at found
  split_ifs at found
  · exact Or.inl (Option.some.inj found).symm
  · exact Or.inr ⟨other, found⟩

theorem BelowNext.foldlM {entities : List CanonicalEntity} {state ids : IdAssignment}
    (below : BelowNext state)
    (given : ∀ canonical ∈ entities, ∀ id, canonical.entityId = some id → id < state.nextFallback)
    (fits : state.nextFallback +
      (entities.filter fun canonical => canonical.entityId.isNone).length < 2 ^ 64)
    (done : entities.foldlM assignId state = .ok ids) :
    BelowNext ids ∧ ids.nextFallback < 2 ^ 64 := by
  induction entities generalizing state with
  | nil => exact Except.ok.inj done ▸ ⟨below, fits⟩
  | cons canonical entities ih =>
    rw [List.foldlM_cons, bind_eq_ok] at done
    obtain ⟨next, first, rest⟩ := done
    unfold assignId at first
    split_ifs at first
    have reached := Except.ok.inj first
    have later := fun e mem => given e (List.mem_cons_of_mem canonical mem)
    cases own : canonical.entityId with
    | some id =>
      simp only [own] at reached
      simp only [List.filter_cons, own, Option.isNone_some] at fits
      subst reached
      have kept : BelowNext { state with symbolIds := state.symbolIds.insert canonical.key id } :=
        ⟨below.used, fun id' mem => (given_insert mem).elim
          (fun same => same ▸ given canonical List.mem_cons_self id own) (below.assigned id')⟩
      exact ih kept later fits rest
    | none =>
      simp only [List.filter_cons, own, Option.isNone_none, if_true, List.length_cons] at fits
      have room : state.nextFallback + 1 < 2 ^ 64 :=
        Nat.lt_of_le_of_lt (Nat.add_le_add_left (Nat.le_add_left 1 _) _) fits
      have number := skipUsed_of_below below.used (Nat.lt_of_succ_lt room)
      have wraps : asU64 (state.nextFallback + 1) = state.nextFallback + 1 :=
        Nat.mod_eq_of_lt room
      simp only [own, number, wraps] at reached
      subst reached
      have raised : ∀ id, id = state.nextFallback ∨ id < state.nextFallback →
          id < state.nextFallback + 1 :=
            fun id either => Nat.lt_succ_of_le (Nat.le_iff_lt_or_eq.2 either.symm)
      refine ih ⟨fun id mem => ?_, fun id mem => ?_⟩ (fun e mem id hit => ?_) ?_ rest
      · exact raised id ((List.mem_cons.1 mem).imp_right (below.used id))
      · exact raised id ((given_insert mem).imp_right (below.assigned id))
      · exact raised id (Or.inr (later e mem id hit))
      · rwa [Nat.add_right_comm, Nat.add_assoc]

theorem nextFallback_initialIds
    (fits : NumbersFit snapshot) : (initialIds snapshot).nextFallback =
      (snapshot.entities.filterMap CanonicalEntity.entityId).foldl max 0 + 1 := by
  have wraps : asU64 ((snapshot.entities.filterMap CanonicalEntity.entityId).foldl max 0 + 1) =
      (snapshot.entities.filterMap CanonicalEntity.entityId).foldl max 0 + 1 :=
    Nat.mod_eq_of_lt (Nat.lt_of_le_of_lt (Nat.succ_le_succ (Nat.le_add_right _ _)) fits)
  simp only [initialIds]
  split_ifs with none
  · rw [List.isEmpty_iff.1 none]
    rfl
  · exact wraps

theorem given_succ_lt (fits : NumbersFit snapshot)
    {ids : IdAssignment}
    (done : snapshot.entities.foldlM assignId (initialIds snapshot) = .ok ids)
    (given : Given ids.symbolIds id) : id + 1 < 2 ^ 64 := by
  have start := nextFallback_initialIds fits
  have taken : ∀ id ∈ snapshot.entities.filterMap CanonicalEntity.entityId,
      id < (initialIds snapshot).nextFallback := fun id mem => by
    rw [start]
    exact Nat.lt_succ_of_le ((foldl_max_le_iff.1 (Nat.le_refl _)).2 id mem)
  obtain ⟨below, room⟩ := BelowNext.foldlM ⟨taken, fun id none => by cases none.choose_spec⟩
    (fun canonical mem id own => taken id (List.mem_filterMap.2 ⟨canonical, mem, own⟩))
    (by rw [start, Nat.add_right_comm]; exact fits) done
  exact Nat.lt_of_le_of_lt (below.assigned id given) room

end Numbers

section Steps

variable {index index' : RelationIndex} {snapshot : CanonicalRelationSnapshot}
  {symbolIds : HashMap SymbolKey EntityId}

/-- What a load has established on its way: the numbers filed were given and the names are
exact. -/
def Sound (symbolIds : HashMap SymbolKey EntityId) (index : RelationIndex) : Prop :=
  IdsIn (Given symbolIds) index ∧ NamesExact index

theorem sound_loadFiles (snapshot : CanonicalRelationSnapshot) :
    Sound symbolIds (snapshot.files.foldl (loadFile snapshot)
      (RelationIndex.new, dependenciesByFile snapshot)).1 := by
  have kept : ∀ state file, Sound symbolIds state.1 →
      Sound symbolIds (loadFile snapshot state file).1 := by
    intro state file sound
    exact ⟨(sound.1.addFile _).addImportTable file.path _, sound.2.congr (fun _ => rfl) rfl⟩
  have start : Sound symbolIds RelationIndex.new := ⟨IdsIn.new, NamesExact.new⟩
  exact List.foldlRecOn snapshot.files (loadFile snapshot)
    (motive := fun state : RelationIndex × HashMap String (List String) =>
      Sound symbolIds state.1) start
    fun state sound file _ => kept state file sound

section Entity

variable [Sha256] {canonical : CanonicalEntity}

theorem loadEntity_eq_ok
    (done : loadEntity snapshot symbolIds index canonical = .ok index') :
    ∃ entityId entity, symbolIds.lookup canonical.key = some entityId ∧
      EntityIdsIn (Given symbolIds) entity ∧
      index' = (index.addFunctionWithPath entityId entity canonical.key.filePath).registerSymbolKey
        canonical.key.filePath canonical.key.scopedName entity entityId := by
  unfold loadEntity at done
  obtain ⟨entityId, own, done⟩ := bind_eq_ok.1 done
  obtain ⟨parent, required, done⟩ := bind_eq_ok.1 done
  obtain ⟨children, listed, done⟩ := bind_eq_ok.1 done
  have given := requiredId_eq_ok.1 own
  refine ⟨entityId, restoredEntity canonical entityId parent children, given,
    ⟨⟨_, given⟩, given_of_requiredIdOf required, fun child mem => ?_⟩, (Except.ok.inj done).symm⟩
  obtain ⟨candidate, -, found⟩ := NumberedRows.mem_of_mapM listed mem
  exact ⟨candidate.key, requiredId_eq_ok.1 found⟩

theorem functionIndex_loadEntity
    (done : loadEntity snapshot symbolIds index canonical = .ok index') :
    ∃ entityId entity, symbolIds.lookup canonical.key = some entityId ∧
      ∀ id, index'.functionIndex.lookup id =
        if id = entityId then some entity else index.functionIndex.lookup id := by
  obtain ⟨entityId, entity, own, -, rfl⟩ := loadEntity_eq_ok done
  exact ⟨entityId, entity, own, fun id =>
    HashMap.lookup_insert_eq index.functionIndex entityId id entity⟩

theorem Sound.loadEntity (sound : Sound symbolIds index)
    (done : loadEntity snapshot symbolIds index canonical = .ok index') :
    Sound symbolIds index' := by
  obtain ⟨entityId, entity, own, inner, rfl⟩ := loadEntity_eq_ok done
  have new : Given symbolIds entityId := ⟨canonical.key, own⟩
  have stored : IdsIn (Given symbolIds) (index.insertFunction entityId entity) :=
    sound.1.insertFunction new inner
  have filed : IdsIn (Given symbolIds)
      (index.addFunctionWithPath entityId entity canonical.key.filePath) := by
    unfold RelationIndex.addFunctionWithPath
    split
    · exact ((stored.untrackRow _).insertMember _ new).trackRow _ _ new
    · exact (stored.insertMember _ new).trackRow _ _ new
  refine ⟨filed.registerSymbolKey canonical.key.filePath canonical.key.scopedName entity new, ?_⟩
  exact (sound.2.insertFunction entityId entity).congr (fun _ => rfl) rfl

theorem live_loadEntities {entities : List CanonicalEntity}
    (done : entities.foldlM (RelationSnapshotLoader.loadEntity snapshot symbolIds) index =
      .ok index') (mem : canonical ∈ entities) {id : EntityId}
    (given : symbolIds.lookup canonical.key = some id) : Live index' id := by
  have sets : ∀ canonical index index',
      RelationSnapshotLoader.loadEntity snapshot symbolIds index canonical = .ok index' →
        ∀ id, symbolIds.lookup canonical.key = some id → Live index' id := by
    intro canonical index index' first id given
    obtain ⟨entityId, entity, own, functions⟩ := functionIndex_loadEntity first
    unfold Live
    rw [functions, if_pos (Option.some.inj (given.symm.trans own))]
    rfl
  have kept : ∀ (canonical e : CanonicalEntity) index index',
      RelationSnapshotLoader.loadEntity snapshot symbolIds index e = .ok index' →
        (∀ id, symbolIds.lookup canonical.key = some id → Live index id) →
          ∀ id, symbolIds.lookup canonical.key = some id → Live index' id := by
    intro canonical e index index' first live id given
    obtain ⟨entityId, entity, -, functions⟩ := functionIndex_loadEntity first
    unfold Live
    rw [functions]
    split_ifs
    · rfl
    · exact live id given
  exact established_of_ok sets kept done canonical mem id given

end Entity

theorem Sound.loadExports (sound : Sound symbolIds index) {file : CanonicalFile}
    (done : loadExports symbolIds index file = .ok index') :
    Sound symbolIds index' ∧ index'.functionIndex = index.functionIndex := by
  unfold RelationSnapshotLoader.loadExports at done
  obtain ⟨exports, listed, done⟩ := bind_eq_ok.1 done
  obtain rfl := Except.ok.inj done
  split_ifs
  · exact ⟨sound, rfl⟩
  · refine ⟨⟨sound.1.alterRecord file.path _ fun record filed item mem => ?_,
      sound.2.congr (fun _ => rfl) rfl⟩, rfl⟩
    obtain rfl := Option.some.inj filed
    obtain ⟨canonical, -, loaded⟩ := NumberedRows.mem_of_mapM listed mem
    obtain ⟨functionId, required, loaded⟩ := bind_eq_ok.1 loaded
    obtain ⟨exportType, -, loaded⟩ := bind_eq_ok.1 loaded
    obtain rfl := Except.ok.inj loaded
    exact ⟨canonical.symbol, requiredId_eq_ok.1 required⟩

theorem Sound.loadRelation (sound : Sound symbolIds index) {canonical : CanonicalRelation}
    (done : loadRelation symbolIds index canonical = .ok index') :
    Sound symbolIds index' ∧ index'.functionIndex = index.functionIndex := by
  unfold RelationSnapshotLoader.loadRelation at done
  obtain ⟨calleeId, target, done⟩ := bind_eq_ok.1 done
  have callees := given_of_requiredIdOf target
  split_ifs at done
  · obtain rfl := Except.ok.inj done
    exact ⟨⟨sound.1.addFileRelation _ callees, sound.2.congr (fun _ => rfl) rfl⟩, rfl⟩
  · obtain ⟨caller, own, done⟩ := bind_eq_ok.1 done
    obtain rfl := Except.ok.inj done
    have ends : IdsIn.EndsIn (Given symbolIds) (restoredRelation canonical caller calleeId) :=
      ⟨⟨canonical.caller, requiredId_eq_ok.1 own⟩, callees⟩
    exact ⟨⟨sound.1.addResolvedRelation ends, sound.2.congr (fun _ => rfl) rfl⟩, rfl⟩

end Steps

variable [Sha256]

/-- A load that succeeds ends with the counter above every number and an exact name table. -/
theorem loadCanonical_eq_ok {snapshot : CanonicalRelationSnapshot} {index : RelationIndex}
    (fits : NumbersFit snapshot) (done : loadCanonical snapshot = .ok index) :
    IdsIn (· < index.entityIdCounter) index ∧ NamesExact index := by
  unfold loadCanonical at done
  obtain ⟨-, -, done⟩ := bind_eq_ok.1 done
  unfold buildIndex at done
  obtain ⟨ids, assigned, done⟩ := bind_eq_ok.1 done
  obtain ⟨entities, stored, done⟩ := bind_eq_ok.1 done
  obtain ⟨exports, exported, done⟩ := bind_eq_ok.1 done
  obtain ⟨relations, related, done⟩ := bind_eq_ok.1 done
  have soundEntities : Sound ids.symbolIds entities :=
    invariant_of_ok (fun _ _ _ _ first sound => sound.loadEntity first) stored
      (sound_loadFiles snapshot)
  let Late : RelationIndex → Prop := fun index =>
    Sound ids.symbolIds index ∧ index.functionIndex = entities.functionIndex
  have keptExports : ∀ file ∈ snapshot.files, ∀ index index',
      loadExports ids.symbolIds index file = .ok index' → Late index → Late index' := by
    intro file _ index index' first late
    obtain ⟨sound, functions⟩ := late.1.loadExports first
    exact ⟨sound, functions.trans late.2⟩
  have keptRelations : ∀ relation ∈ snapshot.relations, ∀ index index',
      loadRelation ids.symbolIds index relation = .ok index' → Late index → Late index' := by
    intro relation _ index index' first late
    obtain ⟨sound, functions⟩ := late.1.loadRelation first
    exact ⟨sound, functions.trans late.2⟩
  have soundRelations : Late relations :=
    invariant_of_ok keptRelations related
      (invariant_of_ok keptExports exported ⟨soundEntities, rfl⟩)
  have below : ∀ id, Given ids.symbolIds id →
      id < asU64 (relations.functionIndex.keys.foldl max 0 + 1) := by
    have room : relations.functionIndex.keys.foldl max 0 + 1 < 2 ^ 64 := by
      have largest : relations.functionIndex.keys.foldl max 0 ≤ 2 ^ 64 - 2 := by
        refine foldl_max_le_iff.2 ⟨Nat.zero_le _, fun id key => ?_⟩
        rw [HashMap.mem_keys_iff] at key
        have stored := soundRelations.1.1.stored id (Option.isSome_iff_exists.2 key)
        exact Nat.le_sub_of_add_le (Nat.succ_le_of_lt (given_succ_lt fits assigned stored))
      exact Nat.lt_of_le_of_lt (Nat.succ_le_succ largest) (by decide)
    have wraps : asU64 (relations.functionIndex.keys.foldl max 0 + 1) =
        relations.functionIndex.keys.foldl max 0 + 1 := Nat.mod_eq_of_lt room
    rw [wraps]
    rintro id ⟨key, given⟩
    obtain ⟨canonical, mem, rfl⟩ := mem_entities_of_given assigned given
    have live : Live relations id := by
      unfold Live
      rw [soundRelations.2]
      exact live_loadEntities stored mem given
    have key : id ∈ relations.functionIndex.keys := by
      rw [HashMap.mem_keys_iff]
      exact Option.isSome_iff_exists.1 live
    exact Nat.lt_succ_of_le ((foldl_max_le_iff.1 (Nat.le_refl _)).2 id key)
  obtain rfl := Except.ok.inj done
  obtain ⟨given, names⟩ := soundRelations.1
  exact ⟨{ given.mono below with }, names.congr (fun _ => rfl) rfl⟩

end RelationSnapshotLoader

section Run

/-- The counter is above every number in use and the name table is exact. -/
structure IdsExact (index : RelationIndex) : Prop where
  fresh : IdsIn (· < index.entityIdCounter) index
  allocated : IdsIn (· ≠ index.allocateEntityId.1) index
  names : NamesExact index

variable {index : RelationIndex}

theorem IdsExact.of_fresh (fresh : IdsIn (· < index.entityIdCounter) index)
    (names : NamesExact index) : IdsExact index where
  fresh := fresh
  allocated := fresh.mono fun _ below => Nat.ne_of_lt below
  names := names

theorem IdsExact.insertFunction (ids : IdsExact index)
    {entityId : EntityId} {entity : Entity} (fits : entityId + 1 < 2 ^ 64)
    (inner : EntityIdsIn (· < max index.entityIdCounter (entityId + 1)) entity) :
    IdsExact (index.insertFunction entityId entity) := by
  have wraps : asU64 (entityId + 1) = entityId + 1 := Nat.mod_eq_of_lt fits
  apply IdsExact.of_fresh
  · change IdsIn (· < max index.entityIdCounter (asU64 (entityId + 1))) _
    rw [wraps]
    have raised : IdsIn (· < max index.entityIdCounter (entityId + 1)) index :=
      ids.fresh.mono fun id below => Nat.lt_of_lt_of_le below (Nat.le_max_left _ _)
    exact raised.insertFunction
      (Nat.lt_of_lt_of_le (Nat.lt_succ_self entityId) (Nat.le_max_right _ _)) inner
  · exact ids.names.insertFunction entityId entity

/-- A step of a run with its arguments. -/
inductive IdOp where
  | allocateEntityId
  | insertFunction (entityId : EntityId) (entity : Entity)
  | applyDelta (delta : SnapshotDelta)
  | detachedClone
  | compactRoundTrip
  | loadCanonical (snapshot : CanonicalRelationSnapshot)

variable [Sha256]

def applyIdOp (index : RelationIndex) : IdOp → RelationIndex
  | .allocateEntityId => index.allocateEntityId.2
  | .insertFunction entityId entity => index.insertFunction entityId entity
  | .applyDelta delta => ContextEngine.applyDelta index delta
  | .detachedClone => index.detachedClone
  | .compactRoundTrip => (fromRelationIndex index).toRelationIndex
  | .loadCanonical snapshot =>
    match RelationSnapshotLoader.loadCanonical snapshot with
    | .ok loaded => loaded
    | .error _ => index

/-- The step brings in no number from its end counter on, moves no stored entity to another
number, and neither hands out nor stores the last number of 64 bits. -/
def KeepsIds (index : RelationIndex) : IdOp → Prop
  | .allocateEntityId => index.entityIdCounter + 1 < 2 ^ 64
  | .insertFunction entityId entity =>
    entityId + 1 < 2 ^ 64 ∧ EntityIdsIn (· < max index.entityIdCounter (entityId + 1)) entity
  | .applyDelta delta => DeltaKeepsIds index delta
  | .detachedClone => True
  | .compactRoundTrip => IdsIn (· < nextFreeId index.functionIndex) index
  | .loadCanonical snapshot => RelationSnapshotLoader.NumbersFit snapshot

/-- A step that brings in no number too large leads from an exact state to one. -/
theorem IdsExact.applyIdOp (ids : IdsExact index) {op : IdOp}
    (keeps : KeepsIds index op) : IdsExact (applyIdOp index op) := by
  cases op with
  | allocateEntityId =>
    apply IdsExact.of_fresh
    · have wraps : asU64 (index.entityIdCounter + 1) = index.entityIdCounter + 1 :=
        Nat.mod_eq_of_lt keeps
      have raised : IdsIn (· < asU64 (index.entityIdCounter + 1)) index :=
        ids.fresh.mono fun id below => Nat.lt_of_lt_of_eq (Nat.lt_succ_of_lt below) wraps.symm
      exact { raised with }
    · exact ids.names.congr (fun _ => rfl) rfl
  | insertFunction entityId entity => exact ids.insertFunction keeps.1 keeps.2
  | applyDelta delta =>
    exact IdsExact.of_fresh (ids.fresh.applyDelta keeps) (ids.names.applyDelta keeps)
  | detachedClone =>
    exact IdsExact.of_fresh { ids.fresh with } (namesExact_detachedClone index)
  | compactRoundTrip =>
    apply IdsExact.of_fresh
    · change IdsIn (· < (fromRelationIndex index).toRelationIndex.entityIdCounter) _
      rw [entityIdCounter_toRelationIndex]
      exact IdsIn.toRelationIndex keeps
    · exact namesExact_toRelationIndex _
  | loadCanonical snapshot =>
    cases outcome : RelationSnapshotLoader.loadCanonical snapshot with
    | error message =>
      simp only [ContextEngine.applyIdOp, outcome]
      exact ids
    | ok loaded =>
      simp only [ContextEngine.applyIdOp, outcome]
      obtain ⟨fresh, names⟩ := RelationSnapshotLoader.loadCanonical_eq_ok keeps outcome
      exact IdsExact.of_fresh fresh names

/-- In a run whose steps all bring in small numbers only, the counter of every state reached is
above every number in use and the name table lists exactly the stored entities. -/
theorem freshIds_run (ops : List IdOp) (keeps : EveryStep applyIdOp KeepsIds new ops) :
    ∀ reached, reached <+: ops → IdsExact (reached.foldl applyIdOp new) := by
  intro reached initial
  have kept : ∀ index op, KeepsIds index op → IdsExact index → IdsExact (applyIdOp index op) :=
    fun _ _ keeps ids => ids.applyIdOp keeps
  exact Runs.invariant kept (IdsExact.of_fresh IdsIn.new NamesExact.new) (keeps.of_prefix initial)

end Run

section Sample

def filledDelta : SnapshotDelta :=
  @computeDelta sampleSha256 _ _ (pairIndex (functionAt 2 "run" 7)) RelationIndex.new 1 0 "" none

/-- The delta that renames the second of them, which also gets the next number. -/
def renamedDelta : SnapshotDelta :=
  @computeDelta sampleSha256 _ _ (pairIndex (functionAt 3 "start" 7))
    (pairIndex (functionAt 2 "run" 7)) 2 1 "" none

/-- The number a rename brings in is handed out next. -/
theorem renamedId_handedOutNext :
    ¬IdsExact ([IdOp.applyDelta filledDelta, .applyDelta renamedDelta].foldl
      (@applyIdOp sampleSha256) new) := by
  let _ := sampleSha256
  intro ids
  exact absurd (ids.fresh.stored 3 (by unfold Live; decide)) (by decide)

/-- The first delta of that run, after an allocation and before a copy. -/
theorem freshIds_run_filledOnce :
    IdsExact ([IdOp.allocateEntityId, .applyDelta filledDelta, .detachedClone].foldl
      (@applyIdOp sampleSha256) new) := by
  let _ := sampleSha256
  refine freshIds_run [.allocateEntityId, .applyDelta filledDelta, .detachedClone]
    ⟨show new.entityIdCounter + 1 < 2 ^ 64 by decide, ⟨?_, ?_, ?_, ?_⟩, trivial, trivial⟩
    _ (List.prefix_refl _)
  · have none : filledDelta.renamedEntities = [] := by decide
    rw [none]
    trivial
  · have inside : ∀ added ∈ filledDelta.addedEntities, added.entity.id < 3 ∧
        added.entity.parent = none ∧ added.entity.children = [] := by decide
    have counter : counterAfter (applyIdOp new .allocateEntityId) filledDelta = 3 := by decide
    intro added mem
    obtain ⟨own, parent, children⟩ := inside added mem
    rw [counter]
    exact ⟨own, fun id is => by simp [parent] at is, fun id is => by simp [children] at is⟩
  · have none : filledDelta.addedRelations = [] := by decide
    rw [none]
    exact fun relation mem => absurd mem List.not_mem_nil
  · have none : filledDelta.fileRelationDiffs = [] := by decide
    rw [none]
    exact fun diff mem => absurd mem List.not_mem_nil

end Sample

end ContextEngine

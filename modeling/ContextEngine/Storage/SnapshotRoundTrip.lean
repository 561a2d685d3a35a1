/- digest: Which snapshots are read back from their rows as they were written. -/

import ContextEngine.Lib.NumberedRows
import ContextEngine.Storage.SnapshotTables

set_option autoImplicit false

namespace ContextEngine.SnapshotTables

open Runs List

open NumberedRows (ids idOf)

/-- The rows in an order in which the queries may return them: those of exports and dependencies
come in any order. -/
structure Rows.ReturnedAs (rows returned : Rows) : Prop where
  files : returned.files = rows.files
  entities : returned.entities = rows.entities
  relations : returned.relations = rows.relations
  exports : rows.exports.Perm returned.exports
  dependencies : rows.dependencies.Perm returned.dependencies

section Statement

variable [Sha256] [SerdeJson] [InputJson] (snapshot : CanonicalRelationSnapshot)

/-- A snapshot is written, read back with the same counts and fingerprints, and accepted by the
loader. -/
def RoundTrips : Prop :=
  ∀ fileSequence symbolSequence, ∃ rows manifest,
    allocateAndWrite snapshot fileSequence symbolSequence = .ok (rows, manifest) ∧
    ∀ returned, rows.ReturnedAs returned → ∃ read, readSnapshot manifest returned = .ok read ∧
      read.files.length = snapshot.files.length ∧
      read.entities.length = snapshot.entities.length ∧
      read.relations.length = snapshot.relations.length ∧
      read.dependencies.length = snapshot.dependencies.length ∧
      read.inputFingerprint = snapshot.inputFingerprint ∧
      read.fingerprint = snapshot.fingerprint ∧
      validateManifest read manifest = .ok ()

/-- Placeholders stand for files only, and are told apart by their sort keys. -/
structure PlaceholdersApart : Prop where
  entities : ∀ entity ∈ snapshot.entities, entity.key.isFilePlaceholder = false
  callers : ∀ a ∈ snapshot.relations, ∀ b ∈ snapshot.relations,
    a.caller.isFilePlaceholder = true → b.caller.isFilePlaceholder = true →
    a.caller.sortKey = b.caller.sortKey → a.caller = b.caller

/-- What the tables keep of a snapshot. -/
structure Storable : Prop extends PlaceholdersApart snapshot where
  versions : snapshot.validateVersions = .ok ()
  base : snapshot.baseRelationEpoch = none
  paths : ∀ file ∈ snapshot.files, normalizeProjectPath file.path = file.path
  exported : ∀ file ∈ snapshot.files, ∀ item ∈ file.exports,
    (∃ entity ∈ snapshot.entities, entity.key = item.symbol) ∨
      ∃ relation ∈ snapshot.relations, relation.caller = item.symbol ∧
        item.symbol.isFilePlaceholder = true
  exports : ∀ file ∈ snapshot.files, (file.exports.map exportSortKey).Nodup
  dependencies : (snapshot.dependencies.map dependencySortKey).Nodup

end Statement

section Validation

variable {snapshot : CanonicalRelationSnapshot}

structure Validated (snapshot : CanonicalRelationSnapshot) : Prop where
  paths : (snapshot.files.map CanonicalFile.path).Nodup
  keys : (snapshot.entities.map CanonicalEntity.key).Nodup
  entityFile : ∀ entity ∈ snapshot.entities,
    entity.key.filePath ∈ snapshot.files.map CanonicalFile.path
  parent : ∀ entity ∈ snapshot.entities, ∀ parent ∈ entity.parent,
    parent ∈ snapshot.entities.map CanonicalEntity.key
  caller : ∀ relation ∈ snapshot.relations,
    relation.caller ∈ snapshot.entities.map CanonicalEntity.key ∨
      relation.caller.isFilePlaceholder = true ∧
        relation.caller.filePath ∈ snapshot.files.map CanonicalFile.path
  target : ∀ relation ∈ snapshot.relations, ∀ target ∈ internalTarget relation.target,
    target ∈ snapshot.entities.map CanonicalEntity.key
  dependency : ∀ dependency ∈ snapshot.dependencies,
    dependency.sourceFile ∈ snapshot.files.map CanonicalFile.path

private theorem nodup_of_length_dedup {α : Type} [DecidableEq α] {l : List α}
    (same : l.dedup.length = l.length) : l.Nodup :=
  dedup_eq_self.1 ((dedup_sublist l).eq_of_length same)

theorem validated_of_ok (valid : validateSnapshot snapshot = .ok ()) : Validated snapshot := by
  rw [validateSnapshot] at valid
  split_ifs at valid with repeatedPath repeatedKey
  obtain ⟨_, entities, valid⟩ := bind_eq_ok.1 valid
  obtain ⟨_, relations, dependencies⟩ := bind_eq_ok.1 valid
  have entity := NumberedRows.forM_eq_ok_iff.1 entities
  have relation := NumberedRows.forM_eq_ok_iff.1 relations
  have dependency := NumberedRows.forM_eq_ok_iff.1 dependencies
  have ofEntity : ∀ e ∈ snapshot.entities, e.key.filePath ∈ snapshot.files.map CanonicalFile.path ∧
      ∀ parent ∈ e.parent, parent ∈ snapshot.entities.map CanonicalEntity.key := by
    intro e mem
    have passed := entity e mem
    rw [validateEntity] at passed
    split_ifs at passed with noFile noParent
    refine ⟨noFile, fun parent isParent => ?_⟩
    by_contra absent
    exact noParent ⟨parent, isParent, absent⟩
  have ofRelation : ∀ r ∈ snapshot.relations,
      (r.caller ∈ snapshot.entities.map CanonicalEntity.key ∨ r.caller.isFilePlaceholder = true ∧
          r.caller.filePath ∈ snapshot.files.map CanonicalFile.path) ∧
      ∀ target ∈ internalTarget r.target, target ∈ snapshot.entities.map CanonicalEntity.key := by
    intro r mem
    have passed := relation r mem
    rw [validateRelation] at passed
    split_ifs at passed with noCaller noTarget
    refine ⟨?_, fun target isTarget => ?_⟩
    · by_cases known : r.caller ∈ snapshot.entities.map CanonicalEntity.key
      · exact Or.inl known
      · exact Or.inr (not_not.1 fun other => noCaller ⟨known, other⟩)
    · by_contra absent
      exact noTarget ⟨target, isTarget, absent⟩
  constructor
  · refine nodup_of_length_dedup ?_
    rw [length_map]
    exact not_not.1 repeatedPath
  · refine nodup_of_length_dedup ?_
    rw [length_map]
    exact not_not.1 repeatedKey
  · exact fun e mem => (ofEntity e mem).1
  · exact fun e mem => (ofEntity e mem).2
  · exact fun r mem => (ofRelation r mem).1
  · exact fun r mem => (ofRelation r mem).2
  · intro d mem
    have passed := dependency d mem
    rw [validateDependency] at passed
    split_ifs at passed with noSource
    exact noSource

end Validation

section Placeholders

variable {α κ : Type} [LinearOrder κ] {key : α → κ} {l : List α}

private theorem exists_mem_destutter' {a x : α} (mem : x ∈ a :: l) :
    ∃ b ∈ l.destutter' (fun a b => key a ≠ key b) a, key b = key x := by
  induction l generalizing a with
  | nil => exact ⟨a, mem_singleton_self a, by rw [mem_singleton.1 mem]⟩
  | cons b l ih =>
    by_cases apart : key a ≠ key b
    · rw [destutter'_cons_pos (R := fun a b => key a ≠ key b) _ apart]
      rcases mem_cons.1 mem with rfl | later
      · exact ⟨x, mem_cons_self, rfl⟩
      · obtain ⟨c, cMem, same⟩ := ih later
        exact ⟨c, mem_cons_of_mem _ cMem, same⟩
    · rw [destutter'_cons_neg (R := fun a b => key a ≠ key b) _ apart]
      rcases mem_cons.1 mem with rfl | later
      · exact ih mem_cons_self
      · rcases mem_cons.1 later with rfl | later
        · exact ⟨a, mem_destutter' l _ a, not_not.1 apart⟩
        · exact ih (mem_cons_of_mem _ later)

variable (key) in
private theorem exists_mem_destutter {l : List α} {x : α} (mem : x ∈ l) :
    ∃ b ∈ l.destutter (fun a b => key a ≠ key b), key b = key x := by
  cases l with
  | nil => cases mem
  | cons a l => exact exists_mem_destutter' mem

private theorem ascends (sorted : l.Pairwise fun a b => key a ≤ key b)
    (chain : l.IsChain fun a b => key a ≠ key b) : l.Pairwise fun a b => key a < key b := by
  induction l with
  | nil => exact List.Pairwise.nil
  | cons a l ih =>
    rw [pairwise_cons] at sorted
    cases l with
    | nil => exact pairwise_singleton _ a
    | cons b l =>
      rw [isChain_cons_cons] at chain
      have rest := ih sorted.2 chain.2
      have first := lt_of_le_of_ne (sorted.1 b mem_cons_self) chain.1
      refine pairwise_cons.2 ⟨fun c mem => ?_, rest⟩
      rcases mem_cons.1 mem with rfl | later
      · exact first
      · exact first.trans ((pairwise_cons.1 rest).1 c later)

private theorem nodup_destutter (sorted : l.Pairwise fun a b => key a ≤ key b) :
    ((l.destutter fun a b => key a ≠ key b).map key).Nodup := by
  have chain := isChain_destutter (fun a b => key a ≠ key b) l
  have ascending := sorted.sublist (destutter_sublist (fun a b => key a ≠ key b) l)
  exact pairwise_map.2 ((ascends ascending chain).imp fun lt => ne_of_lt lt)

end Placeholders

section Rows

variable {snapshot : CanonicalRelationSnapshot}

theorem nodup_placeholders : ((placeholders snapshot).map StableSymbolKey.sortKey).Nodup :=
  nodup_destutter (pairwise_sortByKey _ _)

theorem map_key_storageEntities : (storageEntities snapshot).map CanonicalEntity.key =
    snapshot.entities.map CanonicalEntity.key ++ placeholders snapshot := by
  rw [storageEntities, map_append, map_map]
  exact congrArg _ (map_id _)

theorem mem_placeholders (apart : PlaceholdersApart snapshot) {key : StableSymbolKey} :
    key ∈ placeholders snapshot ↔
      ∃ relation ∈ snapshot.relations, relation.caller = key ∧ key.isFilePlaceholder = true := by
  have listed : ∀ {key : StableSymbolKey}, key ∈ sortByKey StableSymbolKey.sortKey
      ((snapshot.relations.map CanonicalRelation.caller).filter StableSymbolKey.isFilePlaceholder) ↔
      ∃ relation ∈ snapshot.relations, relation.caller = key ∧ key.isFilePlaceholder = true := by
    intro key
    rw [mem_sortByKey, mem_filter, mem_map]
    constructor
    · rintro ⟨⟨relation, mem, rfl⟩, placeholder⟩
      exact ⟨relation, mem, rfl, placeholder⟩
    · rintro ⟨relation, mem, rfl, placeholder⟩
      exact ⟨⟨relation, mem, rfl⟩, placeholder⟩
  constructor
  · exact fun mem => listed.1 ((destutter_sublist _ _).subset mem)
  · intro isCaller
    obtain ⟨kept, keptMem, same⟩ := exists_mem_destutter StableSymbolKey.sortKey (listed.2 isCaller)
    obtain ⟨other, otherMem, rfl, otherPlaceholder⟩ :=
      listed.1 ((destutter_sublist _ _).subset keptMem)
    obtain ⟨relation, mem, rfl, placeholder⟩ := isCaller
    rw [← apart.callers other otherMem relation mem otherPlaceholder placeholder same]
    exact keptMem

theorem nodup_storageKeys (valid : Validated snapshot) (apart : PlaceholdersApart snapshot) :
    ((storageEntities snapshot).map CanonicalEntity.key).Nodup := by
  rw [map_key_storageEntities]
  refine valid.keys.append (List.Nodup.of_map _ nodup_placeholders) fun _ isEntity placeholder => ?_
  obtain ⟨entity, mem, rfl⟩ := mem_map.1 isEntity
  obtain ⟨_, _, _, isPlaceholder⟩ := (mem_placeholders apart).1 placeholder
  rw [apart.entities entity mem] at isPlaceholder
  cases isPlaceholder

theorem file_of_storageEntities (valid : Validated snapshot) (apart : PlaceholdersApart snapshot)
    {entity : CanonicalEntity} (mem : entity ∈ storageEntities snapshot) :
    entity.key.filePath ∈ snapshot.files.map CanonicalFile.path := by
  rcases mem_append.1 mem with isEntity | isPlaceholder
  · exact valid.entityFile entity isEntity
  · obtain ⟨key, keyMem, rfl⟩ := mem_map.1 isPlaceholder
    obtain ⟨relation, relationMem, rfl, placeholder⟩ := (mem_placeholders apart).1 keyMem
    rcases valid.caller relation relationMem with known | ⟨_, ofFile⟩
    · obtain ⟨entity, entityMem, same⟩ := mem_map.1 known
      have notPlaceholder := apart.entities entity entityMem
      rw [same, placeholder] at notPlaceholder
      cases notPlaceholder
    · exact ofFile

variable (snapshot) (fileId : String → Nat) (symbolId : StableSymbolKey → Nat)

def storedEntity (entity : CanonicalEntity) : EntityRow :=
  { entityRow (fileId entity.key.filePath) entity (symbolId entity.key) with
    parentSymbolId := entity.parent.map symbolId }

def storedRelation (relation : CanonicalRelation) : RelationRow :=
  relationRow (symbolId relation.caller) ((internalTarget relation.target).map symbolId) relation

def storedExport (file : CanonicalFile) (item : CanonicalExport) : ExportRow :=
  ⟨fileId file.path, symbolId item.symbol, item.exportType⟩

def storedDependency (dependency : CanonicalDependency) : DependencyRow :=
  ⟨fileId dependency.sourceFile, dependency.targetFile, dependency.source⟩

def knownExports (file : CanonicalFile) : List CanonicalExport :=
  file.exports.filter fun item => item.symbol ∈ (storageEntities snapshot).map CanonicalEntity.key

def storedRows : Rows where
  files := snapshot.files.map fun file => fileRow file (fileId file.path)
  entities := (storageEntities snapshot).map (storedEntity fileId symbolId)
  relations := snapshot.relations.map (storedRelation symbolId)
  exports := snapshot.files.flatMap fun file =>
    (knownExports snapshot file).map (storedExport fileId symbolId file)
  dependencies := snapshot.dependencies.map (storedDependency fileId)

end Rows

section Writing

variable {snapshot : CanonicalRelationSnapshot} {fileSequence symbolSequence : Nat}

theorem required_eq_ok {K V : Type} [DecidableEq K] {values : HashMap K V} {key : K} {value : V}
    (found : values.lookup key = some value) (role : String) :
    required values key role = .ok value := by
  rw [required, found]

structure Assigned (snapshot : CanonicalRelationSnapshot) (fileIds : HashMap String Nat)
    (symbolIds : HashMap StableSymbolKey Nat) (fileId : String → Nat)
    (symbolId : StableSymbolKey → Nat) : Prop where
  file : ∀ path ∈ snapshot.files.map CanonicalFile.path,
    fileIds.lookup path = some (fileId path)
  symbol : ∀ key ∈ (storageEntities snapshot).map CanonicalEntity.key,
    symbolIds.lookup key = some (symbolId key)
  fileInj : ∀ p ∈ snapshot.files.map CanonicalFile.path,
    ∀ q ∈ snapshot.files.map CanonicalFile.path, fileId p = fileId q → p = q
  symbolAscends :
    ((storageEntities snapshot).map fun entity => symbolId entity.key).Pairwise (· < ·)

variable {fileIds : HashMap String Nat} {symbolIds : HashMap StableSymbolKey Nat}
  {fileId : String → Nat} {symbolId : StableSymbolKey → Nat}

theorem Assigned.symbolInj (assigned : Assigned snapshot fileIds symbolIds fileId symbolId)
    {j k : StableSymbolKey} (jMem : j ∈ (storageEntities snapshot).map CanonicalEntity.key)
    (kMem : k ∈ (storageEntities snapshot).map CanonicalEntity.key)
    (same : symbolId j = symbolId k) : j = k := by
  obtain ⟨a, aMem, rfl⟩ := mem_map.1 jMem
  obtain ⟨b, bMem, rfl⟩ := mem_map.1 kMem
  have nodup : ((storageEntities snapshot).map fun entity => symbolId entity.key).Nodup :=
    assigned.symbolAscends.imp Nat.ne_of_lt
  rw [inj_on_of_nodup_map nodup aMem bMem same]

theorem assigned_ids (valid : Validated snapshot) (apart : PlaceholdersApart snapshot) :
    Assigned snapshot (ids (fileSequence + 1) CanonicalFile.path snapshot.files)
      (ids (symbolSequence + 1) CanonicalEntity.key (storageEntities snapshot))
      (idOf (fileSequence + 1) CanonicalFile.path snapshot.files)
      (idOf (symbolSequence + 1) CanonicalEntity.key (storageEntities snapshot)) where
  file _ mem := NumberedRows.lookup_ids _ valid.paths mem
  symbol _ mem := NumberedRows.lookup_ids _ (nodup_storageKeys valid apart) mem
  fileInj _ pMem _ qMem same := NumberedRows.idOf_inj _ valid.paths pMem qMem same
  symbolAscends := NumberedRows.pairwise_idOf _ (nodup_storageKeys valid apart)

theorem mem_storageKeys_of_entity {key : StableSymbolKey}
    (mem : key ∈ snapshot.entities.map CanonicalEntity.key) :
    key ∈ (storageEntities snapshot).map CanonicalEntity.key := by
  rw [map_key_storageEntities]
  exact mem_append_left _ mem

theorem mem_storageKeys_of_caller (apart : PlaceholdersApart snapshot)
    {relation : CanonicalRelation} (mem : relation ∈ snapshot.relations)
    (placeholder : relation.caller.isFilePlaceholder = true) :
    relation.caller ∈ (storageEntities snapshot).map CanonicalEntity.key := by
  rw [map_key_storageEntities]
  exact mem_append_right _ ((mem_placeholders apart).2 ⟨relation, mem, rfl, placeholder⟩)

theorem caller_mem (valid : Validated snapshot) (apart : PlaceholdersApart snapshot)
    {relation : CanonicalRelation} (mem : relation ∈ snapshot.relations) :
    relation.caller ∈ (storageEntities snapshot).map CanonicalEntity.key := by
  rcases valid.caller relation mem with known | ⟨placeholder, _⟩
  · exact mem_storageKeys_of_entity known
  · exact mem_storageKeys_of_caller apart mem placeholder

theorem symbol_mem {file : CanonicalFile} {item : CanonicalExport}
    (mem : item ∈ knownExports snapshot file) :
    item.symbol ∈ (storageEntities snapshot).map CanonicalEntity.key :=
  of_decide_eq_true (mem_filter.1 mem).2

theorem knownExports_eq (storable : Storable snapshot) {file : CanonicalFile}
    (fileMem : file ∈ snapshot.files) : knownExports snapshot file = file.exports := by
  refine filter_eq_self.2 fun item mem => decide_eq_true ?_
  rcases storable.exported file fileMem item mem with ⟨entity, entityMem, same⟩ |
    ⟨relation, relationMem, same, placeholder⟩
  · exact mem_storageKeys_of_entity (mem_map.2 ⟨entity, entityMem, same⟩)
  · rw [← same] at placeholder ⊢
    exact mem_storageKeys_of_caller storable.toPlaceholdersApart relationMem placeholder

theorem parent_mem (valid : Validated snapshot) {entity : CanonicalEntity}
    (mem : entity ∈ storageEntities snapshot) {parent : StableSymbolKey}
    (isParent : entity.parent = some parent) :
    parent ∈ (storageEntities snapshot).map CanonicalEntity.key := by
  rcases mem_append.1 mem with isEntity | isPlaceholder
  · exact mem_storageKeys_of_entity (valid.parent entity isEntity parent isParent)
  · obtain ⟨key, _, rfl⟩ := mem_map.1 isPlaceholder
    cases isParent

private theorem insertAll_eq_ok {Row : Type} {clash : Row → Row → Prop} [DecidableRel clash]
    {table : String} {rows : List Row} (apart : rows.Pairwise fun a b => ¬ clash a b) :
    UniqueRows.insertAll clash table [] rows = .ok rows :=
  UniqueRows.insertAll_eq_ok_iff.2
    ⟨⟨fun _ old => absurd old not_mem_nil, apart⟩, (nil_append _).symm⟩

section

variable (valid : Validated snapshot) (apart : PlaceholdersApart snapshot)
  (assigned : Assigned snapshot fileIds symbolIds fileId symbolId)

include valid

theorem insert_files :
    (snapshot.files.map fun file => fileRow file (fileId file.path)).Pairwise
      fun a b => ¬ a.path = b.path :=
  pairwise_map.2 (pairwise_map.1 valid.paths)

include assigned

theorem nodup_exports_iff :
    (storedRows snapshot fileId symbolId).exports.Nodup ↔
      ∀ file ∈ snapshot.files, (knownExports snapshot file).Nodup := by
  rw [storedRows, nodup_flatMap]
  constructor
  · exact fun distinct file mem => List.Nodup.of_map _ (distinct.1 file mem)
  · intro distinct
    refine ⟨fun file mem => List.Nodup.map_on (fun a aMem b bMem same => ?_) (distinct file mem),
      ?_⟩
    · obtain ⟨_, sameSymbol, sameType⟩ := ExportRow.mk.inj same
      have symbol := assigned.symbolInj (symbol_mem aMem) (symbol_mem bMem) sameSymbol
      cases a
      cases b
      rw [CanonicalExport.mk.injEq]
      exact ⟨symbol, sameType⟩
    · refine List.Pairwise.imp_of_mem ?_ (pairwise_map.1 valid.paths)
      intro f g fMem gMem apart row rowOfF rowOfG
      obtain ⟨_, _, rfl⟩ := mem_map.1 rowOfF
      obtain ⟨_, _, same⟩ := mem_map.1 rowOfG
      obtain ⟨sameFile, _⟩ := ExportRow.mk.inj same
      exact apart (assigned.fileInj _ (mem_map_of_mem fMem) _ (mem_map_of_mem gMem) sameFile.symm)

theorem nodup_dependencies_iff :
    (storedRows snapshot fileId symbolId).dependencies.Nodup ↔ snapshot.dependencies.Nodup := by
  constructor
  · exact List.Nodup.of_map _
  · refine List.Nodup.map_on fun a aMem b bMem same => ?_
    obtain ⟨sameFile, sameTarget, sameSource⟩ := DependencyRow.mk.inj same
    have source := assigned.fileInj _ (valid.dependency a aMem) _ (valid.dependency b bMem) sameFile
    cases a
    cases b
    rw [CanonicalDependency.mk.injEq]
    exact ⟨source, sameTarget, sameSource⟩

theorem write_parents :
    ((storageEntities snapshot).zip ((storageEntities snapshot).map fun entity =>
        entityRow (fileId entity.key.filePath) entity (symbolId entity.key))).mapM
        (fun stored => setParent symbolIds stored.1 stored.2) =
      .ok (storedRows snapshot fileId symbolId).entities := by
  rw [NumberedRows.zip_map_self, mapM_map]
  refine NumberedRows.mapM_eq_ok fun entity mem => ?_
  rw [Function.comp_apply, setParent, storedEntity]
  cases parent : entity.parent with
  | none => rfl
  | some key =>
    have found := assigned.symbol _ (parent_mem valid mem parent)
    exact bind_eq_ok.2 ⟨_, required_eq_ok found _, rfl⟩

theorem write_targetIds :
    snapshot.relations.mapM (targetId symbolIds) = .ok (snapshot.relations.map fun relation =>
      (internalTarget relation.target).map symbolId) := by
  refine NumberedRows.mapM_eq_ok fun relation mem => ?_
  have known := valid.target relation mem
  rw [targetId]
  cases target : relation.target with
  | internal key =>
    rw [target] at known
    have found := assigned.symbol key (mem_storageKeys_of_entity (known key rfl))
    exact congrArg (Functor.map some) (required_eq_ok found "relation target")
  | external classification => rfl
  | unresolved reason => rfl

theorem write_dependencies :
    snapshot.dependencies.mapM (dependencyRow fileIds) =
      .ok (storedRows snapshot fileId symbolId).dependencies := by
  refine NumberedRows.mapM_eq_ok fun dependency mem => ?_
  have found := assigned.file _ (valid.dependency dependency mem)
  exact bind_eq_ok.2 ⟨_, required_eq_ok found _, rfl⟩

include apart

theorem insert_entities :
    ((storageEntities snapshot).map fun entity => entityRow (fileId entity.key.filePath) entity
      (symbolId entity.key)).Pairwise fun a b => ¬ SameSymbol a b := by
  refine pairwise_map.2 (List.Pairwise.imp_of_mem ?_
    (pairwise_map.1 (nodup_storageKeys valid apart)))
  rintro a b aMem bMem different ⟨sameFile, sameName, sameKind, sameOverload⟩
  have samePath := assigned.fileInj _ (file_of_storageEntities valid apart aMem) _
    (file_of_storageEntities valid apart bMem) sameFile
  change a.key.scopedName = b.key.scopedName at sameName
  change a.key.kind = b.key.kind at sameKind
  change a.key.overloadDiscriminator = b.key.overloadDiscriminator at sameOverload
  apply different
  calc a.key = ⟨a.key.filePath, a.key.scopedName, a.key.kind, a.key.overloadDiscriminator⟩ := rfl
    _ = ⟨b.key.filePath, b.key.scopedName, b.key.kind, b.key.overloadDiscriminator⟩ := by
      rw [samePath, sameName, sameKind, sameOverload]
    _ = b.key := rfl

theorem write_entityRows :
    ((storageEntities snapshot).map fun entity => (entity, symbolId entity.key)).mapM
        (fun numbered => do
          let fileId ← required fileIds numbered.1.key.filePath "entity file"
          return entityRow fileId numbered.1 numbered.2) =
      .ok ((storageEntities snapshot).map fun entity =>
        entityRow (fileId entity.key.filePath) entity (symbolId entity.key)) := by
  rw [mapM_map]
  refine NumberedRows.mapM_eq_ok fun entity mem => ?_
  have found := assigned.file _ (file_of_storageEntities valid apart mem)
  rw [Function.comp_apply]
  exact bind_eq_ok.2 ⟨_, required_eq_ok found _, rfl⟩

theorem write_relations :
    (snapshot.relations.zip (snapshot.relations.map fun relation =>
        (internalTarget relation.target).map symbolId)).mapM (fun stored => do
          let callerId ← required symbolIds stored.1.caller "relation caller"
          return relationRow callerId stored.2 stored.1) =
      .ok (storedRows snapshot fileId symbolId).relations := by
  rw [NumberedRows.zip_map_self, mapM_map]
  refine NumberedRows.mapM_eq_ok fun relation mem => ?_
  have found := assigned.symbol _ (caller_mem valid apart mem)
  exact bind_eq_ok.2 ⟨_, required_eq_ok found _, rfl⟩

end

theorem write_exports (assigned : Assigned snapshot fileIds symbolIds fileId symbolId)
    (only : ∀ key ∉ (storageEntities snapshot).map CanonicalEntity.key,
      symbolIds.lookup key = none) :
    snapshot.files.mapM (exportRows fileIds symbolIds) = .ok (snapshot.files.map fun file =>
      (knownExports snapshot file).map (storedExport fileId symbolId file)) := by
  refine NumberedRows.mapM_eq_ok fun file mem => ?_
  have found := assigned.file _ (mem_map_of_mem mem)
  refine bind_eq_ok.2 ⟨_, required_eq_ok found _, congrArg Except.ok ?_⟩
  apply NumberedRows.filterMap_eq_map_filter
  · intro item _ known
    exact congrArg (Option.map _) (assigned.symbol _ (of_decide_eq_true known))
  · intro item _ unknown
    exact congrArg (Option.map _) (only _ (of_decide_eq_false unknown))

theorem writeRows_eq_ok_iff (valid : Validated snapshot) (apart : PlaceholdersApart snapshot)
    {rows : Rows} {fileSequence symbolSequence : Nat}
    (assigned : Assigned snapshot (ids (fileSequence + 1) CanonicalFile.path snapshot.files)
      (ids (symbolSequence + 1) CanonicalEntity.key (storageEntities snapshot)) fileId symbolId)
    (numberedFiles : snapshot.files.zipIdx (fileSequence + 1) =
      snapshot.files.map fun file => (file, fileId file.path))
    (numberedSymbols : (storageEntities snapshot).zipIdx (symbolSequence + 1) =
      (storageEntities snapshot).map fun entity => (entity, symbolId entity.key)) :
    writeRows snapshot fileSequence symbolSequence = .ok rows ↔
      (∀ file ∈ snapshot.files, (knownExports snapshot file).Nodup) ∧
        snapshot.dependencies.Nodup ∧ rows = storedRows snapshot fileId symbolId := by
  have files : UniqueRows.insertAll (fun a b : FileRow => a.path = b.path) "relation_snapshot_files"
      [] ((snapshot.files.zipIdx (fileSequence + 1)).map fun numbered =>
        fileRow numbered.1 numbered.2) =
      .ok (storedRows snapshot fileId symbolId).files := by
    rw [numberedFiles, map_map]
    exact insertAll_eq_ok (insert_files valid)
  have entityRows := write_entityRows valid apart assigned
  rw [← numberedSymbols] at entityRows
  have written : writeRows snapshot fileSequence symbolSequence =
      (UniqueRows.insertAll (fun a b => a = b) "relation_snapshot_exports" []
        (storedRows snapshot fileId symbolId).exports >>= fun exports =>
      UniqueRows.insertAll (fun a b => a = b) "relation_snapshot_dependencies" []
        (storedRows snapshot fileId symbolId).dependencies >>= fun dependencies =>
      .ok { storedRows snapshot fileId symbolId with
        exports := exports
        dependencies := dependencies }) := by
    refine (NumberedRows.bind_of_ok files _).trans ?_
    refine (NumberedRows.bind_of_ok entityRows _).trans ?_
    refine (NumberedRows.bind_of_ok
      (insertAll_eq_ok (insert_entities valid apart assigned)) _).trans ?_
    refine (NumberedRows.bind_of_ok (write_parents valid assigned) _).trans ?_
    refine (NumberedRows.bind_of_ok (write_targetIds valid assigned) _).trans ?_
    refine (NumberedRows.bind_of_ok (write_relations valid apart assigned) _).trans ?_
    refine (NumberedRows.bind_of_ok (write_exports assigned fun _ unknown =>
      NumberedRows.lookup_ids_of_notMem (symbolSequence + 1) unknown) _).trans ?_
    refine congrArg (_ >>= ·) (funext fun stored => ?_)
    exact NumberedRows.bind_of_ok (write_dependencies valid assigned) _
  rw [written, ← nodup_exports_iff valid assigned, ← nodup_dependencies_iff valid assigned,
    bind_eq_ok]
  constructor
  · rintro ⟨stored, inserted, rest⟩
    obtain ⟨fits, rfl⟩ := UniqueRows.insertAll_eq_ok_iff.1 inserted
    obtain ⟨_, inserted, rest⟩ := bind_eq_ok.1 rest
    obtain ⟨fits', rfl⟩ := UniqueRows.insertAll_eq_ok_iff.1 inserted
    cases rest
    exact ⟨fits.2, fits'.2, rfl⟩
  · rintro ⟨exportsApart, dependenciesApart, rfl⟩
    exact ⟨_, insertAll_eq_ok exportsApart, bind_eq_ok.2
      ⟨_, insertAll_eq_ok dependenciesApart, rfl⟩⟩

def insertedRows (snapshot : CanonicalRelationSnapshot) (fileSequence symbolSequence : Nat) :
    Rows :=
  storedRows snapshot (idOf (fileSequence + 1) CanonicalFile.path snapshot.files)
    (idOf (symbolSequence + 1) CanonicalEntity.key (storageEntities snapshot))

theorem writeRows_iff (valid : Validated snapshot) (apart : PlaceholdersApart snapshot)
    (fileSequence symbolSequence : Nat) {rows : Rows} :
    writeRows snapshot fileSequence symbolSequence = .ok rows ↔
      (∀ file ∈ snapshot.files, (knownExports snapshot file).Nodup) ∧
        snapshot.dependencies.Nodup ∧ rows = insertedRows snapshot fileSequence symbolSequence :=
  writeRows_eq_ok_iff valid apart (assigned_ids valid apart) (NumberedRows.zipIdx_eq _ valid.paths)
    (NumberedRows.zipIdx_eq _ (nodup_storageKeys valid apart))

end Writing

section Reading

variable {snapshot : CanonicalRelationSnapshot} {fileIds : HashMap String Nat}
  {symbolIds : HashMap StableSymbolKey Nat} {fileId : String → Nat}
  {symbolId : StableSymbolKey → Nat} {returned : Rows}

def filesById (rows : Rows) : HashMap Nat CanonicalFile :=
  HashMap.extend ∅ ((sortByKey FileRow.path rows.files).map fun row => (row.id, row.read))

def keysById (rows : Rows) : HashMap Nat StableSymbolKey :=
  HashMap.extend ∅ ((joined rows).map fun symbol => (symbol.1.id, symbol.2))

/-- What is read comes in the order of the rows. -/
structure ReadInOrder {α β : Type} (stored returned : List α) (known read : List β) : Prop where
  perm : read.Perm known
  same : returned = stored → read = known
  reversed : returned = stored.reverse → read = known.reverse

private theorem readInOrder {α β γ : Type} {stored returned : List α} {known : List β} {f : α → γ}
    {p : γ → Bool} {g : γ → β} (perm : stored.Perm returned)
    (decoded : ((stored.map f).filter p).map g = known) :
    ReadInOrder stored returned known (((returned.map f).filter p).map g) where
  perm := decoded ▸ ((perm.symm.map f).filter p).map g
  same unchanged := by rw [unchanged, decoded]
  reversed turned := by
    rw [turned, map_reverse, filter_reverse, map_reverse, decoded]

def readBack (snapshot : CanonicalRelationSnapshot) (manifest : Manifest)
    (exportsOf : CanonicalFile → List CanonicalExport) (dependencies : List CanonicalDependency) :
    CanonicalRelationSnapshot where
  schemaVersion := manifest.schemaVersion
  parserVersion := manifest.parserVersion
  resolverVersion := manifest.resolverVersion
  pathNormalizationVersion := manifest.pathNormalizationVersion
  configFingerprint := manifest.configFingerprint
  files := (sortByKey CanonicalFile.path snapshot.files).map fun file =>
    { file with exports := exportsOf file }
  entities := snapshot.entities
  relations := snapshot.relations
  dependencies := dependencies

section

variable (valid : Validated snapshot) (apart : PlaceholdersApart snapshot)
  (assigned : Assigned snapshot fileIds symbolIds fileId symbolId)

include valid assigned

theorem lookup_filesById (same : (storedRows snapshot fileId symbolId).ReturnedAs returned)
    {file : CanonicalFile}
    (mem : file ∈ snapshot.files) :
    (filesById returned).lookup (fileId file.path) = some { file with exports := [] } := by
  have distinct : ((sortByKey FileRow.path returned.files).map FileRow.id).Nodup := by
    refine ((perm_sortByKey FileRow.path returned.files).map FileRow.id).nodup_iff.2 ?_
    rw [same.files, storedRows, map_map]
    refine List.Nodup.map_on (fun a aMem b bMem sameId => ?_) (List.Nodup.of_map _ valid.paths)
    exact inj_on_of_nodup_map valid.paths aMem bMem (assigned.fileInj _
      (mem_map_of_mem aMem) _ (mem_map_of_mem bMem) sameId)
  have stored : fileRow file (fileId file.path) ∈ sortByKey FileRow.path returned.files := by
    rw [mem_sortByKey, same.files]
    exact mem_map_of_mem mem
  exact NumberedRows.lookup_collect distinct stored

theorem filter_fileId {file : CanonicalFile}
    (mem : file ∈ snapshot.files) :
    snapshot.files.filter (fun other => fileId other.path = fileId file.path) = [file] := by
  rw [← NumberedRows.filter_key valid.paths mem]
  refine filter_congr fun other otherMem => decide_eq_decide.2 ⟨fun sameId => ?_, ?_⟩
  · exact assigned.fileInj _ (mem_map_of_mem otherMem) _ (mem_map_of_mem mem) sameId
  · exact fun samePath => by rw [samePath]

include apart

section

variable (same : (storedRows snapshot fileId symbolId).ReturnedAs returned)

include same

theorem joined_eq :
    joined returned = (storageEntities snapshot).map fun entity =>
      (storedEntity fileId symbolId entity, entity.key) := by
  have sorted : sortByKey EntityRow.id returned.entities =
      (storageEntities snapshot).map (storedEntity fileId symbolId) := by
    rw [same.entities]
    refine sortByKey_of_pairwise (pairwise_map.2 ?_)
    exact (pairwise_map.1 assigned.symbolAscends).imp Nat.le_of_lt
  have fileOf : ∀ entity ∈ storageEntities snapshot, (returned.files.filter fun file =>
        file.id = (storedEntity fileId symbolId entity).fileId).map
        (fun file => (storedEntity fileId symbolId entity,
          (storedEntity fileId symbolId entity).key file.path)) =
      [(storedEntity fileId symbolId entity, entity.key)] := by
    intro entity mem
    obtain ⟨file, fileMem, path⟩ := mem_map.1 (file_of_storageEntities valid apart mem)
    have only := filter_fileId valid assigned fileMem
    rw [path] at only
    rw [same.files, storedRows, filter_map, map_map]
    have filtered : (fun file : FileRow => decide (file.id =
        (storedEntity fileId symbolId entity).fileId)) ∘
        (fun file => fileRow file (fileId file.path)) =
        fun other => decide (fileId other.path = fileId entity.key.filePath) := rfl
    rw [filtered, only, map_singleton]
    refine congrArg (fun key => [(storedEntity fileId symbolId entity, key)]) ?_
    show (⟨file.path, _, _, _⟩ : StableSymbolKey) = entity.key
    rw [path]
    rfl
  rw [joined, sorted, flatMap_map, map_eq_flatMap]
  exact flatMap_congr fileOf

theorem lookup_keysById {key : StableSymbolKey}
    (mem : key ∈ (storageEntities snapshot).map CanonicalEntity.key) :
    (keysById returned).lookup (symbolId key) = some key := by
  obtain ⟨entity, entityMem, rfl⟩ := mem_map.1 mem
  have nodup : ((storageEntities snapshot).map fun entity => symbolId entity.key).Nodup :=
    assigned.symbolAscends.imp Nat.ne_of_lt
  rw [keysById, joined_eq valid apart assigned same, map_map]
  exact NumberedRows.lookup_collect nodup entityMem

theorem read_entities :
    (((joined returned).filter fun symbol => !symbol.2.isFilePlaceholder).mapM fun symbol => do
      let parent ← readParent (keysById returned) symbol.1
      return symbol.1.read symbol.2 parent) = .ok snapshot.entities := by
  have kept : (storageEntities snapshot).filter (fun entity => !entity.key.isFilePlaceholder) =
      snapshot.entities := by
    have entities : snapshot.entities.filter (fun entity => !entity.key.isFilePlaceholder) =
        snapshot.entities :=
      filter_eq_self.2 fun entity mem => by rw [apart.entities entity mem]; rfl
    have dropped : ((placeholders snapshot).map placeholderEntity).filter
        (fun entity => !entity.key.isFilePlaceholder) = [] := by
      refine filter_eq_nil_iff.2 fun entity mem => ?_
      obtain ⟨key, keyMem, rfl⟩ := mem_map.1 mem
      obtain ⟨_, _, _, placeholder⟩ := (mem_placeholders apart).1 keyMem
      show ¬ (!key.isFilePlaceholder) = true
      rw [placeholder]
      decide
    rw [storageEntities, filter_append, entities, dropped, append_nil]
  rw [joined_eq valid apart assigned same, filter_map]
  have filtered : (fun symbol : EntityRow × StableSymbolKey => !symbol.2.isFilePlaceholder) ∘
      (fun entity => (storedEntity fileId symbolId entity, entity.key)) =
      fun entity => !entity.key.isFilePlaceholder := rfl
  rw [filtered, kept, mapM_map]
  refine (NumberedRows.mapM_eq_ok (g := id) fun entity mem => ?_).trans
    (congrArg Except.ok (map_id _))
  have stored : entity ∈ storageEntities snapshot := mem_append_left _ mem
  have parents : readParent (keysById returned) (storedEntity fileId symbolId entity) =
      .ok entity.parent := by
    rw [readParent, storedEntity]
    cases parent : entity.parent with
    | none => rfl
    | some key =>
      exact congrArg (Functor.map some) (required_eq_ok
        (lookup_keysById valid apart assigned same (parent_mem valid stored parent))
        "parent symbol")
  exact bind_eq_ok.2 ⟨_, parents, rfl⟩

theorem read_relations :
    returned.relations.mapM (readRelation (keysById returned)) = .ok snapshot.relations := by
  have keyOf : ∀ {key : StableSymbolKey},
      key ∈ (storageEntities snapshot).map CanonicalEntity.key → ∀ role,
      required (keysById returned) (symbolId key) role = .ok key := fun mem role =>
    required_eq_ok (lookup_keysById valid apart assigned same mem) role
  rw [same.relations, storedRows, mapM_map]
  refine (NumberedRows.mapM_eq_ok (g := id) fun relation mem => ?_).trans
    (congrArg Except.ok (map_id _))
  have target : readTarget (keysById returned) (storedRelation symbolId relation) =
      .ok relation.target := by
    have known := valid.target relation mem
    cases target : relation.target with
    | internal key =>
      rw [target] at known
      rw [readTarget, storedRelation, relationRow, target]
      exact congrArg (Functor.map CanonicalRelationTarget.internal)
        (keyOf (mem_storageKeys_of_entity (known key rfl)) "relation target")
    | external classification =>
      rw [readTarget, storedRelation, relationRow, target]
      rfl
    | unresolved reason =>
      rw [readTarget, storedRelation, relationRow, target]
      cases reason
      rfl
  exact bind_eq_ok.2 ⟨_, target, bind_eq_ok.2 ⟨_, keyOf (caller_mem valid apart mem) _, rfl⟩⟩

end

theorem read_exports (same : (storedRows snapshot fileId symbolId).ReturnedAs returned) :
    ∃ exports, returned.exports.mapM (readExport (filesById returned) (keysById returned)) =
        .ok exports ∧
      ∀ file ∈ snapshot.files,
        ReadInOrder (storedRows snapshot fileId symbolId).exports returned.exports
          (knownExports snapshot file)
          ((exports.filter fun item => item.1 = fileId file.path).map Prod.snd) := by
  let read (row : ExportRow) : Nat × CanonicalExport :=
    (row.fileId, ⟨((keysById returned).lookup row.symbolId).getD ⟨"", "", .moduleKind, ""⟩,
      row.exportType⟩)
  have readStored : ∀ file : CanonicalFile, ∀ item ∈ knownExports snapshot file,
      read (storedExport fileId symbolId file item) = (fileId file.path, item) := by
    intro file item mem
    have found := lookup_keysById valid apart assigned same (symbol_mem mem)
    show (_, (⟨((keysById returned).lookup (symbolId item.symbol)).getD _, _⟩ :
      CanonicalExport)) = _
    rw [found]
    rfl
  refine ⟨returned.exports.map read, NumberedRows.mapM_eq_ok fun row mem => ?_,
    fun file mem => readInOrder same.exports ?_⟩
  · obtain ⟨file, fileMem, rowMem⟩ := mem_flatMap.1 (same.exports.mem_iff.2 mem)
    obtain ⟨item, itemMem, rfl⟩ := mem_map.1 rowMem
    have key := lookup_keysById valid apart assigned same (symbol_mem itemMem)
    have stored := lookup_filesById valid assigned same fileMem
    rw [readStored file item itemMem]
    exact bind_eq_ok.2 ⟨_, required_eq_ok stored _, bind_eq_ok.2 ⟨_, required_eq_ok key _, rfl⟩⟩
  · have listed : (storedRows snapshot fileId symbolId).exports.map read =
        snapshot.files.flatMap fun file =>
          (knownExports snapshot file).map fun item => (fileId file.path, item) := by
      rw [storedRows, map_flatMap]
      refine flatMap_congr fun other _ => ?_
      rw [map_map]
      exact map_congr_left fun item itemMem => readStored other item itemMem
    have blocks : ∀ other ∈ snapshot.files,
        ∀ item ∈ (knownExports snapshot other).map fun item => (fileId other.path, item),
        decide (item.1 = fileId file.path) = decide (fileId other.path = fileId file.path) := by
      intro other _ item itemMem
      obtain ⟨_, _, rfl⟩ := mem_map.1 itemMem
      rfl
    rw [listed, filter_flatMap_of_blocks blocks, filter_fileId valid assigned mem,
      flatMap_singleton, map_map]
    exact map_id _

omit apart in
theorem read_dependencies (same : (storedRows snapshot fileId symbolId).ReturnedAs returned) :
    ∃ dependencies, returned.dependencies.mapM (readDependency (filesById returned)) =
        .ok dependencies ∧ ReadInOrder (storedRows snapshot fileId symbolId).dependencies
          returned.dependencies snapshot.dependencies dependencies := by
  let read (row : DependencyRow) : CanonicalDependency :=
    ⟨(((filesById returned).lookup row.sourceFileId).map CanonicalFile.path).getD "",
      row.targetPath, row.source⟩
  have sourceOf : ∀ dependency ∈ snapshot.dependencies, ∃ file ∈ snapshot.files,
      file.path = dependency.sourceFile ∧ (filesById returned).lookup
        (fileId dependency.sourceFile) = some { file with exports := [] } := by
    intro dependency mem
    obtain ⟨file, fileMem, path⟩ := mem_map.1 (valid.dependency dependency mem)
    exact ⟨file, fileMem, path, path ▸ lookup_filesById valid assigned same fileMem⟩
  have readStored : ∀ dependency ∈ snapshot.dependencies,
      read (storedDependency fileId dependency) = dependency := by
    intro dependency mem
    obtain ⟨file, _, path, found⟩ := sourceOf dependency mem
    show (⟨(((filesById returned).lookup (fileId dependency.sourceFile)).map _).getD "", _, _⟩ :
      CanonicalDependency) = dependency
    rw [found, Option.map_some, Option.getD_some, path]
    rfl
  refine ⟨returned.dependencies.map read, NumberedRows.mapM_eq_ok fun row mem => ?_, ?_⟩
  · obtain ⟨dependency, dependencyMem, rfl⟩ := mem_map.1 (same.dependencies.mem_iff.2 mem)
    obtain ⟨file, _, path, found⟩ := sourceOf dependency dependencyMem
    refine bind_eq_ok.2 ⟨_, required_eq_ok found _, ?_⟩
    rw [readStored dependency dependencyMem]
    show Except.ok (⟨file.path, _, _⟩ : CanonicalDependency) = _
    rw [path]
    rfl
  · have decoded : (storedRows snapshot fileId symbolId).dependencies.map read =
        snapshot.dependencies := by
      rw [storedRows, map_map]
      exact (map_congr_left readStored).trans (map_id _)
    constructor
    · exact decoded ▸ same.dependencies.symm.map read
    · exact fun unchanged => by rw [unchanged, decoded]
    · exact fun turned => by rw [turned, map_reverse, decoded]

theorem readComponents_eq (same : (storedRows snapshot fileId symbolId).ReturnedAs returned)
    (manifest : Manifest) :
    ∃ (exportsOf : CanonicalFile → List CanonicalExport) (deps : List CanonicalDependency),
      (∀ file ∈ snapshot.files, ReadInOrder (storedRows snapshot fileId symbolId).exports
        returned.exports (knownExports snapshot file) (exportsOf file)) ∧
      ReadInOrder (storedRows snapshot fileId symbolId).dependencies returned.dependencies
        snapshot.dependencies deps ∧
      readComponents manifest returned = .ok (readBack snapshot manifest exportsOf deps) := by
  obtain ⟨exports, readExports, exportsOf⟩ := read_exports valid apart assigned same
  obtain ⟨deps, readDependencies, perm⟩ := read_dependencies valid assigned same
  have files : sortByKey FileRow.path returned.files =
      (sortByKey CanonicalFile.path snapshot.files).map fun file =>
        fileRow file (fileId file.path) := by
    rw [same.files]
    exact (map_sortByKey fun _ _ => rfl).symm
  refine ⟨fun file => (exports.filter fun item => item.1 = fileId file.path).map Prod.snd,
    deps, exportsOf, perm, ?_⟩
  refine bind_eq_ok.2 ⟨_, read_entities valid apart assigned same, ?_⟩
  refine bind_eq_ok.2 ⟨_, read_relations valid apart assigned same, ?_⟩
  refine bind_eq_ok.2 ⟨_, readExports, ?_⟩
  refine bind_eq_ok.2 ⟨_, readDependencies, ?_⟩
  rw [files, map_map]
  rfl

end

end Reading

section RoundTrip

private theorem sortByKey_of_perm {α κ : Type} [LinearOrder κ] {key : α → κ} {l m : List α}
    (apart : ∀ a ∈ l, ∀ b ∈ l, key a = key b → a = b) (perm : l.Perm m) :
    sortByKey key m = sortByKey key l := by
  have same := (map_sortByKey_perm_iff key id).2 apart m perm
  rwa [map_id, map_id] at same

variable {snapshot : CanonicalRelationSnapshot}

theorem versions_of_ok (supported : snapshot.validateVersions = .ok ()) :
    snapshot.schemaVersion = StableSymbolKey.schemaVersion ∧
      snapshot.parserVersion = relationParserVersion ∧
      snapshot.resolverVersion = relationResolverVersion ∧
      snapshot.pathNormalizationVersion = relationPathNormalizationVersion := by
  rw [CanonicalRelationSnapshot.validateVersions] at supported
  split_ifs at supported with unsupported
  simpa [not_or] using unsupported

variable [SerdeJson]

theorem sortFiles_eq (storable : Storable snapshot)
    {exportsOf : CanonicalFile → List CanonicalExport}
    (exports : ∀ file ∈ snapshot.files, (exportsOf file).Perm file.exports) :
    sortByKey CanonicalFile.path (((sortByKey CanonicalFile.path snapshot.files).map fun file =>
        { file with exports := exportsOf file }).map sortFile) =
      sortByKey CanonicalFile.path (snapshot.files.map sortFile) := by
  have sameFile : ∀ file ∈ sortByKey CanonicalFile.path snapshot.files,
      (sortFile ∘ fun file : CanonicalFile => { file with exports := exportsOf file }) file =
        sortFile file := by
    intro file listed
    have mem := mem_sortByKey.1 listed
    have sorted : sortByKey exportSortKey (exportsOf file) = sortByKey exportSortKey file.exports :=
      sortByKey_of_perm (fun a aMem b bMem => inj_on_of_nodup_map (storable.exports file mem)
        aMem bMem) (exports file mem).symm
    rw [Function.comp_apply, sortFile, sortFile]
    dsimp only
    rw [sorted]
  have normal : (sortByKey CanonicalFile.path snapshot.files).map sortFile =
      sortByKey CanonicalFile.path (snapshot.files.map sortFile) :=
    map_sortByKey fun file mem => storable.paths file mem
  rw [map_map, map_congr_left sameFile, normal, sortByKey_sortByKey]

theorem inputs_sortFiles (storable : Storable snapshot) :
    sortByKey toLex ((sortByKey CanonicalFile.path (snapshot.files.map sortFile)).map fun file =>
        (file.path, file.inputHash)) =
      sortByKey toLex (snapshot.files.map fun file => (file.path, file.inputHash)) := by
  refine sortByKey_of_perm (fun a _ b _ same => toLex.injective same) ?_
  have inputs : (snapshot.files.map sortFile).map (fun file => (file.path, file.inputHash)) =
      snapshot.files.map fun file => (file.path, file.inputHash) := by
    rw [map_map]
    refine map_congr_left fun file mem => ?_
    show (normalizeProjectPath file.path, file.inputHash) = _
    rw [storable.paths file mem]
  rw [← inputs]
  exact ((perm_sortByKey CanonicalFile.path _).map _).symm

theorem sortComponents_readBack (storable : Storable snapshot)
    {exportsOf : CanonicalFile → List CanonicalExport} {deps : List CanonicalDependency}
    (exports : ∀ file ∈ snapshot.files, (exportsOf file).Perm file.exports)
    (perm : deps.Perm snapshot.dependencies)
    (inputFingerprint snapshotFingerprint : String) :
    sortComponents (readBack snapshot
      (readyManifest snapshot inputFingerprint snapshotFingerprint) exportsOf deps) =
      sortComponents snapshot := by
  obtain ⟨schema, parser, resolver, normalization⟩ := versions_of_ok storable.versions
  have sortedDependencies : sortByKey dependencySortKey deps =
      sortByKey dependencySortKey snapshot.dependencies :=
    sortByKey_of_perm (fun a aMem b bMem => inj_on_of_nodup_map storable.dependencies
      aMem bMem) perm.symm
  have base := storable.base
  refine CanonicalRelationSnapshot.mk.injEq .. ▸ ⟨schema.symm, parser.symm, resolver.symm,
    normalization.symm, rfl, base.symm, sortFiles_eq storable exports, rfl, rfl, sortedDependencies⟩

variable [Sha256] [InputJson]

theorem validateManifest_eq_ok {manifest : Manifest} {read : CanonicalRelationSnapshot}
    (supported : read.validateVersions = .ok ())
    (header : manifest.schemaVersion = read.schemaVersion ∧
      manifest.parserVersion = read.parserVersion ∧
      manifest.resolverVersion = read.resolverVersion ∧
      manifest.pathNormalizationVersion = read.pathNormalizationVersion ∧
      manifest.configFingerprint = read.configFingerprint)
    (counts : (some read.files.length, some read.entities.length, some read.relations.length,
      some read.dependencies.length) = (manifest.fileCount, manifest.entityCount,
        manifest.relationCount, manifest.dependencyCount))
    (inputs : manifest.inputFingerprint = some read.inputFingerprint)
    (fingerprint : manifest.snapshotFingerprint = some read.fingerprint) :
    validateManifest read manifest = .ok () := by
  refine bind_eq_ok.2 ⟨(), supported, ?_⟩
  rw [if_neg (by simp [header]), if_neg (not_not.2 counts), if_neg (not_not.2 inputs),
    if_neg (not_not.2 fingerprint)]

theorem roundTrips_of_storable (snapshot : CanonicalRelationSnapshot)
    (valid : validateSnapshot snapshot = .ok ()) (storable : Storable snapshot) :
    RoundTrips snapshot := by
  intro fileSequence symbolSequence
  have validated := validated_of_ok valid
  have apart := storable.toPlaceholdersApart
  have written := (writeRows_iff validated apart fileSequence symbolSequence).2
    ⟨fun file mem => knownExports_eq storable mem ▸ List.Nodup.of_map _ (storable.exports file mem),
      List.Nodup.of_map _ storable.dependencies, rfl⟩
  refine ⟨_, readyManifest snapshot snapshot.inputFingerprint snapshot.fingerprint,
    bind_eq_ok.2 ⟨(), storable.versions, bind_eq_ok.2 ⟨(), valid,
      bind_eq_ok.2 ⟨_, written, rfl⟩⟩⟩, fun returned same => ?_⟩
  obtain ⟨exportsOf, dependencies, exports, perm, read⟩ := readComponents_eq validated apart
    (assigned_ids validated apart) same
    (readyManifest snapshot snapshot.inputFingerprint snapshot.fingerprint)
  have sorted := sortComponents_readBack storable
    (fun file mem => knownExports_eq storable mem ▸ (exports file mem).perm) perm.perm
    snapshot.inputFingerprint snapshot.fingerprint
  generalize readBack snapshot (readyManifest snapshot snapshot.inputFingerprint
    snapshot.fingerprint) exportsOf dependencies = raw at read sorted
  have normalized : raw.normalize = sortComponents snapshot := sorted
  have fingerprint : raw.normalize.fingerprint = snapshot.fingerprint := by
    rw [CanonicalRelationSnapshot.fingerprint, fingerprintPayload_normalize, fingerprintPayload,
      sorted]
    rfl
  have inputs : raw.normalize.inputFingerprint = snapshot.inputFingerprint := by
    rw [normalized]
    exact congrArg (fun files => Sha256.hexDigest (asBytes (InputJson.ofFiles files)))
      (inputs_sortFiles storable)
  have files : raw.normalize.files.length = snapshot.files.length := by
    rw [normalized]
    exact (length_sortByKey _ _).trans (length_map _)
  have entities : raw.normalize.entities.length = snapshot.entities.length := by
    rw [normalized]
    exact length_sortByKey _ _
  have relations : raw.normalize.relations.length = snapshot.relations.length := by
    rw [normalized]
    exact length_sortByKey _ _
  have dependenciesLength : raw.normalize.dependencies.length = snapshot.dependencies.length := by
    rw [normalized]
    exact length_sortByKey _ _
  obtain ⟨schema, parser, resolver, normalization⟩ := versions_of_ok storable.versions
  refine ⟨raw.normalize, by rw [readSnapshot, read]; rfl, files, entities, relations,
    dependenciesLength, inputs, fingerprint, validateManifest_eq_ok ?_ ?_ ?_ ?_ ?_⟩
  · rw [normalized]
    exact storable.versions
  · rw [normalized]
    exact ⟨schema.symm, parser.symm, resolver.symm, normalization.symm, rfl⟩
  · rw [files, entities, relations, dependenciesLength]
    rfl
  · rw [inputs]
    rfl
  · rw [fingerprint]
    rfl

end RoundTrip

section Converse

variable {snapshot : CanonicalRelationSnapshot}

/-- A digest and encodings that keep nothing. -/
@[reducible] def blankDigest : Sha256 := ⟨fun _ => ""⟩

@[reducible] def blankJson : SerdeJson := ⟨fun _ => "", fun _ => "", fun _ => ""⟩

@[reducible] def blankInputs : InputJson := ⟨fun _ => ""⟩

/-- A digest and encodings that tell one value from all others. -/
@[reducible] def tellingDigest : Sha256 := ⟨fun bytes => if bytes = [] then "" else "a"⟩

@[reducible] def tellingJson (payload : CanonicalRelationSnapshot) : SerdeJson :=
  ⟨fun _ => "", fun _ => "", fun other => if other = payload then "a" else ""⟩

@[reducible] def tellingInputs (files : List (String × String)) : InputJson :=
  ⟨fun other => if other = files then "a" else ""⟩

private theorem eq_of_telling {α : Type} [DecidableEq α] {read written : α}
    (same : tellingDigest.hexDigest (asBytes (if read = written then "a" else "")) =
      tellingDigest.hexDigest (asBytes (if written = written then "a" else ""))) :
    read = written := by
  by_contra other
  rw [if_neg other, if_pos rfl] at same
  revert same
  decide

theorem reads_of_roundTrips
    (always : ∀ (_ : Sha256) (_ : SerdeJson) (_ : InputJson), RoundTrips snapshot) :
    snapshot.validateVersions = .ok () ∧ ∃ rows manifest, writeRows snapshot 0 0 = .ok rows ∧
      ∀ returned, rows.ReturnedAs returned → ∃ components,
        readComponents manifest returned = .ok components ∧
        @fingerprintPayload blankJson components = @fingerprintPayload blankJson snapshot ∧
        sortByKey toLex ((@CanonicalRelationSnapshot.normalize blankJson components).files.map
            fun file => (file.path, file.inputHash)) =
          sortByKey toLex (snapshot.files.map fun file => (file.path, file.inputHash)) := by
  obtain ⟨rows, manifest, written, reads⟩ := always tellingDigest
    (tellingJson (@fingerprintPayload blankJson snapshot))
    (tellingInputs (sortByKey toLex
      (snapshot.files.map fun file => (file.path, file.inputHash)))) 0 0
  obtain ⟨_, supported, written⟩ := bind_eq_ok.1 written
  obtain ⟨_, _, written⟩ := bind_eq_ok.1 written
  obtain ⟨_, rowsWritten, same⟩ := bind_eq_ok.1 written
  obtain ⟨sameRows, _⟩ := Prod.mk.inj (Except.ok.inj same)
  subst sameRows
  refine ⟨supported, _, manifest, rowsWritten, fun returned order => ?_⟩
  obtain ⟨read, done, _, _, _, _, inputs, fingerprint, _⟩ := reads returned order
  cases components : readComponents manifest returned with
  | error message =>
    rw [readSnapshot, components] at done
    cases done
  | ok raw =>
    rw [readSnapshot, components] at done
    cases done
    refine ⟨raw, rfl, ?_, eq_of_telling inputs⟩
    rw [← @fingerprintPayload_normalize blankJson raw]
    exact eq_of_telling fingerprint

private theorem eq_of_reverse {α : Type} {l : List α} (distinct : l.Nodup) (turned : l.reverse = l)
    {a b : α} (aMem : a ∈ l) (bMem : b ∈ l) : a = b := by
  cases l with
  | nil => cases aMem
  | cons x l =>
    cases l with
    | nil => rw [mem_singleton.1 aMem, mem_singleton.1 bMem]
    | cons y l =>
      have last := congrArg getLast? turned
      rw [getLast?_reverse, head?_cons, getLast?_cons_cons] at last
      exact absurd (mem_of_getLast? last.symm) (nodup_cons.1 distinct).1

/-- A stable sort that forgets the order of its input has keys that tell the elements apart. -/
private theorem nodup_of_sorted_reverse {α κ : Type} [LinearOrder κ] {key : α → κ} {l : List α}
    (distinct : l.Nodup) (same : sortByKey key l.reverse = sortByKey key l) :
    (l.map key).Nodup := by
  refine List.Nodup.map_on (fun a aMem b bMem tie => ?_) distinct
  have filtered := congrArg (filter fun x => key x = key a) same
  rw [filter_sortByKey, filter_sortByKey, filter_reverse] at filtered
  refine eq_of_reverse (distinct.filter _) filtered (mem_filter.2 ⟨aMem, by simp⟩)
    (mem_filter.2 ⟨bMem, by simp [tie]⟩)

theorem caller_of_written {rows : Rows} {fileSequence symbolSequence : Nat}
    (written : writeRows snapshot fileSequence symbolSequence = .ok rows)
    {relation : CanonicalRelation} (mem : relation ∈ snapshot.relations) :
    relation.caller ∈ (storageEntities snapshot).map CanonicalEntity.key := by
  obtain ⟨_, _, written⟩ := bind_eq_ok.1 written
  obtain ⟨_, _, written⟩ := bind_eq_ok.1 written
  obtain ⟨_, _, written⟩ := bind_eq_ok.1 written
  obtain ⟨_, _, written⟩ := bind_eq_ok.1 written
  obtain ⟨targetIds, targets, written⟩ := bind_eq_ok.1 written
  obtain ⟨_, relations, _⟩ := bind_eq_ok.1 written
  have lengths := NumberedRows.length_of_mapM targets
  have paired : (snapshot.relations.zip targetIds).map Prod.fst = snapshot.relations :=
    map_fst_zip (Nat.le_of_eq lengths.symm)
  rw [← paired] at mem
  obtain ⟨stored, storedMem, rfl⟩ := mem_map.1 mem
  obtain ⟨_, _, round⟩ := NumberedRows.exists_of_mapM relations storedMem
  obtain ⟨callerId, found, _⟩ := bind_eq_ok.1 round
  by_contra unknown
  have absent := NumberedRows.lookup_ids_of_notMem (symbolSequence + 1) unknown
  have missing : required (ids (symbolSequence + 1) CanonicalEntity.key (storageEntities snapshot))
      stored.1.caller "relation caller" = .error "missing relation caller" := by
    rw [required, absent]
    rfl
  cases missing.symm.trans found

variable {manifest : Manifest}

theorem entity_of_read {returned : Rows}
    {components : CanonicalRelationSnapshot}
    (read : readComponents manifest returned = .ok components) {entity : CanonicalEntity}
    (mem : entity ∈ components.entities) : entity.key.isFilePlaceholder = false := by
  obtain ⟨entities, entitiesRead, read⟩ := bind_eq_ok.1 read
  obtain ⟨_, _, read⟩ := bind_eq_ok.1 read
  obtain ⟨_, _, read⟩ := bind_eq_ok.1 read
  obtain ⟨_, _, read⟩ := bind_eq_ok.1 read
  cases read
  obtain ⟨symbol, listed, round⟩ := NumberedRows.mem_of_mapM entitiesRead mem
  obtain ⟨_, _, same⟩ := bind_eq_ok.1 round
  cases same
  have proper : symbol.2.isFilePlaceholder = false := by
    simpa using (mem_filter.1 listed).2
  exact proper

theorem placeholdersApart_of_read {rows : Rows}
    {components : CanonicalRelationSnapshot} (written : writeRows snapshot 0 0 = .ok rows)
    (read : readComponents manifest rows = .ok components)
    (payload : @fingerprintPayload blankJson components = @fingerprintPayload blankJson snapshot) :
    PlaceholdersApart snapshot := by
  have entities : ∀ entity ∈ snapshot.entities, entity.key.isFilePlaceholder = false := by
    intro entity mem
    have same := congrArg CanonicalRelationSnapshot.entities payload
    have hashed : ({ entity with entityId := none } : CanonicalEntity) ∈
        (@fingerprintPayload blankJson components).entities := by
      rw [same]
      exact mem_map.2 ⟨entity, mem_sortByKey.2 mem, rfl⟩
    obtain ⟨other, otherMem, sameEntity⟩ := mem_map.1 hashed
    have key : other.key = entity.key := (CanonicalEntity.mk.inj sameEntity).1
    rw [← key]
    exact entity_of_read read (mem_sortByKey.1 otherMem)
  have kept : ∀ relation ∈ snapshot.relations, relation.caller.isFilePlaceholder = true →
      relation.caller ∈ placeholders snapshot := by
    intro relation mem placeholder
    have known := caller_of_written written mem
    rw [map_key_storageEntities] at known
    rcases mem_append.1 known with isEntity | isPlaceholder
    · obtain ⟨entity, entityMem, same⟩ := mem_map.1 isEntity
      have proper := entities entity entityMem
      rw [same, placeholder] at proper
      cases proper
    · exact isPlaceholder
  exact ⟨entities, fun a aMem b bMem isA isB tie =>
    inj_on_of_nodup_map nodup_placeholders (kept a aMem isA) (kept b bMem isB) tie⟩

theorem sortFile_of_payload
    (paths : ∀ file ∈ snapshot.files, normalizeProjectPath file.path = file.path)
    {exportsOf : CanonicalFile → List CanonicalExport} {deps : List CanonicalDependency}
    (payload : @fingerprintPayload blankJson (readBack snapshot manifest exportsOf deps) =
      @fingerprintPayload blankJson snapshot) {file : CanonicalFile} (mem : file ∈ snapshot.files) :
    sortByKey exportSortKey (exportsOf file) = sortByKey exportSortKey file.exports := by
  let _ := blankJson
  have files : sortByKey CanonicalFile.path
      (((sortByKey CanonicalFile.path snapshot.files).map fun file =>
        { file with exports := exportsOf file }).map sortFile) =
      sortByKey CanonicalFile.path (snapshot.files.map sortFile) :=
    congrArg CanonicalRelationSnapshot.files payload
  have normal : (sortByKey CanonicalFile.path snapshot.files).map sortFile =
      sortByKey CanonicalFile.path (snapshot.files.map sortFile) :=
    map_sortByKey fun file mem => paths file mem
  have resorted : sortByKey CanonicalFile.path
      ((sortByKey CanonicalFile.path snapshot.files).map sortFile) =
      sortByKey CanonicalFile.path (snapshot.files.map sortFile) := by
    rw [normal, sortByKey_sortByKey]
  rw [← resorted, map_map] at files
  have kept : ∀ file ∈ sortByKey CanonicalFile.path snapshot.files,
      (sortFile file).path = file.path := fun file listed => paths file (mem_sortByKey.1 listed)
  have keptRead : ∀ file ∈ sortByKey CanonicalFile.path snapshot.files,
      ((sortFile ∘ fun file : CanonicalFile =>
        { file with exports := exportsOf file }) file).path = file.path := kept
  have alike := (sortByKey_map_eq_iff CanonicalFile.path keptRead kept).1 files file
    (mem_sortByKey.2 mem)
  exact congrArg CanonicalFile.exports alike

theorem storable_of_roundTrips (valid : validateSnapshot snapshot = .ok ())
    (always : ∀ (_ : Sha256) (_ : SerdeJson) (_ : InputJson), RoundTrips snapshot) :
    Storable snapshot := by
  have validated := validated_of_ok valid
  obtain ⟨supported, rows, manifest, written, reads⟩ := reads_of_roundTrips always
  have unchanged : rows.ReturnedAs rows := ⟨rfl, rfl, rfl, .refl _, .refl _⟩
  obtain ⟨components, read, payload, inputs⟩ := reads rows unchanged
  have apart := placeholdersApart_of_read written read payload
  obtain ⟨exportsOnce, dependenciesOnce, rfl⟩ := (writeRows_iff validated apart 0 0).1 written
  -- The rows as they were written, and in reverse.
  obtain ⟨exportsOf, dependencies, exports, _, sameRead⟩ := readComponents_eq validated apart
    (assigned_ids validated apart) unchanged manifest
  cases sameRead.symm.trans read
  let turned : Rows :=
    { insertedRows snapshot 0 0 with
      exports := (insertedRows snapshot 0 0).exports.reverse
      dependencies := (insertedRows snapshot 0 0).dependencies.reverse }
  have reordered : (insertedRows snapshot 0 0).ReturnedAs turned :=
    ⟨rfl, rfl, rfl, (reverse_perm _).symm, (reverse_perm _).symm⟩
  obtain ⟨components, read, turnedPayload, _⟩ := reads turned reordered
  obtain ⟨turnedExportsOf, turnedDependencies, turnedExports, turnedOrder, sameRead⟩ :=
    readComponents_eq validated apart (assigned_ids validated apart) reordered manifest
  cases sameRead.symm.trans read
  have paths : ∀ file ∈ snapshot.files, normalizeProjectPath file.path = file.path := by
    intro file mem
    have listed : (file.path, file.inputHash) ∈ sortByKey toLex
        (snapshot.files.map fun file => (file.path, file.inputHash)) :=
      mem_sortByKey.2 (mem_map.2 ⟨file, mem, rfl⟩)
    rw [← inputs, mem_sortByKey] at listed
    obtain ⟨readFile, readMem, same⟩ := mem_map.1 listed
    obtain ⟨original, _, rfl⟩ := mem_map.1 (mem_sortByKey.1 readMem)
    have normal : normalizeProjectPath original.path = file.path := congrArg Prod.fst same
    rw [← normal, normalizeProjectPath_idem]
  have known : ∀ file ∈ snapshot.files, knownExports snapshot file = file.exports := by
    intro file mem
    have sorted := sortFile_of_payload paths payload mem
    rw [(exports file mem).same rfl] at sorted
    have lengths := congrArg length sorted
    rw [length_sortByKey, length_sortByKey] at lengths
    exact filter_sublist.eq_of_length lengths
  refine ⟨apart, supported, (congrArg CanonicalRelationSnapshot.baseRelationEpoch payload).symm,
    paths, fun file fileMem item mem => ?_, fun file mem => ?_, ?_⟩
  · have listed := known file fileMem ▸ mem
    have symbol := symbol_mem listed
    rw [map_key_storageEntities] at symbol
    rcases mem_append.1 symbol with isEntity | isPlaceholder
    · exact Or.inl (mem_map.1 isEntity)
    · exact Or.inr ((mem_placeholders apart).1 isPlaceholder)
  · have sorted := sortFile_of_payload paths turnedPayload mem
    rw [(turnedExports file mem).reversed rfl, known file mem] at sorted
    exact nodup_of_sorted_reverse (known file mem ▸ exportsOnce file mem) sorted
  · have sorted : sortByKey dependencySortKey turnedDependencies =
        sortByKey dependencySortKey snapshot.dependencies :=
      congrArg CanonicalRelationSnapshot.dependencies turnedPayload
    rw [turnedOrder.reversed rfl] at sorted
    exact nodup_of_sorted_reverse dependenciesOnce sorted

/-- A validated snapshot is written, read back and accepted, whatever the digest and the encodings,
if and only if the tables keep all of it. -/
theorem roundTrips_iff (snapshot : CanonicalRelationSnapshot)
    (valid : validateSnapshot snapshot = .ok ()) :
    (∀ (_ : Sha256) (_ : SerdeJson) (_ : InputJson), RoundTrips snapshot) ↔ Storable snapshot :=
  ⟨storable_of_roundTrips valid,
    fun storable _ _ _ => roundTrips_of_storable snapshot valid storable⟩

end Converse

section Samples

private def runKey : StableSymbolKey := ⟨"src/lib.rs", "run", .function, ""⟩

private def fileKey : StableSymbolKey := ⟨"src/lib.rs", "<file>", .moduleKind, ""⟩

private def libFile : CanonicalFile where
  path := "src/lib.rs"
  language := "rust"
  inputHash := "0a"
  fileSize := 9
  imports := []
  exports := [⟨runKey, "named"⟩]

private def runEntity : CanonicalEntity :=
  { placeholderEntity runKey with name := "run", signature := "fn run()" }

private def runReference : CanonicalRelation where
  caller := fileKey
  target := .internal runKey
  rawTarget := "run"
  relationType := .functionReference
  span := ⟨0, 3, ⟨0, 0⟩, ⟨0, 3⟩⟩
  stdlibCategory := none
  overloadSignature := none
  calleeSymbol := none
  ownerType := none
  callContext := .direct
  callFrequency := 1
  cfgCondition := none

private def utilDependency : CanonicalDependency := ⟨"src/lib.rs", "src/util.rs", "use util"⟩

/-- A file with a function, its export, a reference and a number of equal dependencies. -/
def libSnapshot (dependencies : Nat) : CanonicalRelationSnapshot where
  configFingerprint := ""
  files := [libFile]
  entities := [runEntity]
  relations := [runReference]
  dependencies := List.replicate dependencies utilDependency

private theorem storable_libSnapshot : Storable (libSnapshot 1) := by
  refine ⟨⟨?_, ?_⟩, rfl, rfl, ?_, ?_, ?_, ?_⟩
  · decide +kernel
  · decide +kernel
  · decide +kernel
  · decide +kernel
  · decide +kernel
  · decide +kernel

theorem roundTrips_libSnapshot : Storable (libSnapshot 1) ∧
    @RoundTrips blankDigest blankJson blankInputs (libSnapshot 1) :=
  ⟨storable_libSnapshot, (roundTrips_iff (libSnapshot 1) rfl).2 storable_libSnapshot _ _ _⟩

/-- A dependency that is listed twice passes the validation and is refused by its table. -/
theorem repeatedDependency_refused : validateSnapshot (libSnapshot 2) = .ok () ∧
    ∀ (_ : Sha256) (_ : SerdeJson) (_ : InputJson), ¬ RoundTrips (libSnapshot 2) := by
  have valid : validateSnapshot (libSnapshot 2) = .ok () := rfl
  refine ⟨valid, fun _ _ _ roundTrips => ?_⟩
  have apart : PlaceholdersApart (libSnapshot 2) :=
    ⟨storable_libSnapshot.entities, storable_libSnapshot.callers⟩
  obtain ⟨_, _, written, _⟩ := roundTrips 0 0
  obtain ⟨_, _, written⟩ := bind_eq_ok.1 written
  obtain ⟨_, _, written⟩ := bind_eq_ok.1 written
  obtain ⟨_, written, _⟩ := bind_eq_ok.1 written
  have once := ((writeRows_iff (validated_of_ok valid) apart 0 0).1 written).2.1
  revert once
  decide +kernel

end Samples

end ContextEngine.SnapshotTables

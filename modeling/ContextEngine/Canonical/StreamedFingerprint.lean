/- digest: The payload that is hashed: when streaming keeps it, and when order does not matter to
   it. -/

import ContextEngine.Delta.EdgeRoundTrip
import ContextEngine.Index.Canonical

set_option autoImplicit false

namespace ContextEngine

open HashMap List RelationIndex

section Keys

variable [Sha256] (index : RelationIndex)

/-- The entity has a registered key or is stored, so that no key is made up for it. -/
def RelationIndex.Named (id : EntityId) : Prop :=
  (index.entityToSymbolKey.lookup id).isSome ∨ (index.functionIndex.lookup id).isSome

variable {index}

variable {id : EntityId}

theorem keyOrDerived_eq_of_named (named : index.Named id) (left right : String → SymbolKey) :
    index.keyOrDerived left id = index.keyOrDerived right id := by
  unfold keyOrDerived
  cases registered : index.entityToSymbolKey.lookup id with
  | some key => rfl
  | none =>
    cases stored : index.functionIndex.lookup id with
    | some entity => rfl
    | none =>
      unfold RelationIndex.Named at named
      rw [registered, stored] at named
      exact absurd named (not_or_intro Bool.false_ne_true Bool.false_ne_true)

theorem keyOrDerived_of_not_named (unnamed : ¬index.Named id) (madeUp : String → SymbolKey) :
    index.keyOrDerived madeUp id = madeUp ((index.entityFileIndex.lookup id).getD "") := by
  obtain ⟨unregistered, unstored⟩ := not_or.1 unnamed
  unfold keyOrDerived
  rw [Option.not_isSome_iff_eq_none.1 unregistered, Option.not_isSome_iff_eq_none.1 unstored]

theorem symbolKeyOfId_eq_entityKeyOrDerived_iff (name : String) :
    index.symbolKeyOfId id name = index.entityKeyOrDerived id ↔ index.Named id := by
  constructor
  · intro same
    by_contra unnamed
    unfold symbolKeyOfId entityKeyOrDerived at same
    rw [keyOrDerived_of_not_named unnamed, keyOrDerived_of_not_named unnamed] at same
    cases congrArg StableSymbolKey.kind same
  · exact fun named => keyOrDerived_eq_of_named named _ _

theorem symbolKeyOfId_eq_relationKeyOrDerived (named : index.Named id)
    (name : String) : index.symbolKeyOfId id name = index.relationKeyOrDerived id name :=
  keyOrDerived_eq_of_named named _ _

def unknownWeight (key : SymbolKey) : Nat := if key.kind = .unknown then 1 else 0

theorem unknownWeight_symbolKeyOfId_le (id : EntityId) (name : String) :
    unknownWeight (index.symbolKeyOfId id name) ≤
      unknownWeight (index.relationKeyOrDerived id name) := by
  by_cases named : index.Named id
  · exact (congrArg unknownWeight (symbolKeyOfId_eq_relationKeyOrDerived named name)).le
  · unfold symbolKeyOfId
    rw [keyOrDerived_of_not_named named]
    exact Nat.zero_le _

theorem named_of_unknownWeight_eq {name : String}
    (same : unknownWeight (index.symbolKeyOfId id name) =
      unknownWeight (index.relationKeyOrDerived id name)) : index.Named id := by
  by_contra unnamed
  unfold symbolKeyOfId relationKeyOrDerived at same
  rw [keyOrDerived_of_not_named unnamed, keyOrDerived_of_not_named unnamed] at same
  cases same

end Keys

section Components

variable [Sha256] (index : RelationIndex)

omit [Sha256] in
theorem normalized_mem_activeFileSet {record : FileRecord}
    (mem : record ∈ index.fileRecords.values) :
    normalizeProjectPath record.info.path ∈ index.activeFileSet := by
  obtain ⟨path, found⟩ := mem_values.1 mem
  unfold activeFileSet
  rw [HashSet.mem_ofList, mem_append, mem_flatMap]
  refine Or.inl ⟨(path, record), mem_toList.2 found, ?_⟩
  simp

omit [Sha256] in
theorem inFiles_activeFileSet (id : EntityId) : index.inFiles index.activeFileSet id = true := by
  unfold inFiles
  cases found : index.entityFileIndex.lookup id with
  | none => rfl
  | some file =>
    refine decide_eq_true ?_
    unfold activeFileSet
    rw [HashSet.mem_ofList, mem_append]
    exact Or.inr (mem_values.2 ⟨id, found⟩)

/-- An edge with its owner, a caller or the path of a file. -/
abbrev OwnedEdge := (EntityId ⊕ String) × ResolvedRelation

/-- Every edge of the index with its owner, in the order both traversals visit them. -/
def ownedEdges : List OwnedEdge :=
  (index.resolvedRelationIndex.toList.flatMap fun entry =>
    entry.2.edges.map fun relation => (Sum.inl entry.1, relation)) ++
  index.fileRelationIndex.toList.flatMap fun entry =>
    entry.2.edges.map fun relation => (Sum.inr entry.1, relation)

/-- The key of an owner; entities get theirs from the given function. -/
def ownerKey (keyOf : EntityId → String → SymbolKey) : EntityId ⊕ String → SymbolKey
  | .inl caller => keyOf caller ""
  | .inr path => fileCallerKey path

/-- Whether the fingerprint visits the edges of an owner. -/
def ownerActive : EntityId ⊕ String → Bool
  | .inl _ => true
  | .inr path => path ∈ index.activeFileSet

theorem relations_canonicalComponents (config : String) :
    (index.canonicalComponents config).relations = (ownedEdges index).map fun edge =>
        canonicalRelationOf index.relationKeyOrDerived
          (ownerKey index.relationKeyOrDerived edge.1) edge.2 := by
  unfold canonicalComponents ownedEdges
  rw [map_append, map_flatMap, map_flatMap]
  simp only [map_map]
  refine congrArg (· ++ _) (flatMap_congr fun entry mem => map_congr_left fun r inSet => ?_)
  have own : r.caller = entry.1 := by
    refine index.edgesFiled.caller_eq ?_
    rw [mem_toList_edges mem]
    exact inSet
  rw [own]
  rfl

theorem relations_componentsInFiles :
    (index.componentsInFiles index.activeFileSet).relations =
      ((ownedEdges index).filter fun edge => ownerActive index edge.1).map fun edge =>
        canonicalRelationOf index.symbolKeyOfId (ownerKey index.symbolKeyOfId edge.1) edge.2 := by
  have callers : (index.resolvedRelationIndex.toList.filter fun entry =>
      index.inFiles index.activeFileSet entry.1) = index.resolvedRelationIndex.toList :=
    filter_eq_self.2 fun entry _ => inFiles_activeFileSet index entry.1
  have entityEdges : ((index.resolvedRelationIndex.toList.flatMap fun entry =>
      entry.2.edges.map fun relation => ((Sum.inl entry.1, relation) : OwnedEdge)).filter
        fun edge => ownerActive index edge.1) =
      index.resolvedRelationIndex.toList.flatMap fun entry =>
        entry.2.edges.map fun relation => (Sum.inl entry.1, relation) := by
    refine filter_eq_self.2 fun edge mem => ?_
    obtain ⟨entry, -, inBlock⟩ := mem_flatMap.1 mem
    obtain ⟨relation, -, rfl⟩ := mem_map.1 inBlock
    rfl
  have fileEdges : ((index.fileRelationIndex.toList.flatMap fun entry =>
      entry.2.edges.map fun relation => ((Sum.inr entry.1, relation) : OwnedEdge)).filter
        fun edge => ownerActive index edge.1) =
      (index.fileRelationIndex.toList.filter fun entry =>
        entry.1 ∈ index.activeFileSet).flatMap fun entry =>
          entry.2.edges.map fun relation => (Sum.inr entry.1, relation) := by
    refine filter_flatMap_of_blocks fun entry _ edge inBlock => ?_
    obtain ⟨relation, -, rfl⟩ := mem_map.1 inBlock
    rfl
  unfold componentsInFiles ownedEdges
  rw [filter_append, entityEdges, fileEdges, callers, map_append, map_flatMap, map_flatMap]
  simp only [map_map]
  rfl

end Components

section Agreement

variable [Sha256] [SerdeJson] (index : RelationIndex) (config : String)

/-- The directly hashed components are those of the exported snapshot. -/
def FingerprintComponentsAgree : Prop :=
  fingerprintPayload (index.componentsInFiles index.activeFileSet) =
    fingerprintPayload (index.toCanonicalSnapshot config)

def sortedExports (exportKey : ExportInfo → SymbolKey) (record : FileRecord) :
    List CanonicalExport :=
  sortByKey exportSortKey (canonicalFileOf exportKey record).exports

/-- Nothing is left out and no made-up key is used, other than export keys that come out the
same. -/
structure TraversalsMeet : Prop where
  config : config = ""
  exports : ∀ record ∈ index.fileRecords.values,
    sortedExports (index.exportKeyOrNamed (normalizeProjectPath record.info.path)) record =
      sortedExports (fun item => index.entityKeyOrDerived item.functionId) record
  parents : ∀ id entity, index.functionIndex.lookup id = some entity →
    ∀ parent, entity.parent = some parent → index.Named parent
  edges : ∀ caller, ∀ relation ∈ edgesOf index.resolvedRelationIndex caller,
    index.Named caller ∧ ∀ callee, relation.calleeId = some callee → index.Named callee
  fileEdges : ∀ path, ∀ relation ∈ edgesOf index.fileRelationIndex path,
    path ∈ index.activeFileSet ∧
      ∀ callee, relation.calleeId = some callee → index.Named callee
  targets : ∀ record ∈ index.fileRecords.values,
    ∀ target ∈ index.dependencyGraph.getDependencies (normalizeProjectPath record.info.path),
      normalizeProjectPath target ∈ index.activeFileSet

variable {index config}

private theorem payload_files_eq_iff :
    (fingerprintPayload (index.componentsInFiles index.activeFileSet)).files =
        (fingerprintPayload (index.canonicalComponents config)).files ↔
      ∀ record ∈ index.fileRecords.values,
        sortedExports (index.exportKeyOrNamed (normalizeProjectPath record.info.path)) record =
          sortedExports (fun item => index.entityKeyOrDerived item.functionId) record := by
  have visible : (index.fileRecords.values.filter fun record =>
      normalizeProjectPath record.info.path ∈ index.activeFileSet) = index.fileRecords.values :=
    filter_eq_self.2 fun record mem =>
      decide_eq_true (normalized_mem_activeFileSet index mem)
  change sortByKey CanonicalFile.path (((index.fileRecords.values.filter _).map _).map sortFile) =
    sortByKey CanonicalFile.path ((index.fileRecords.values.map _).map sortFile) ↔ _
  rw [visible, map_map, map_map, sortByKey_map_eq_iff fun record : FileRecord =>
    normalizeProjectPath (normalizeProjectPath record.info.path)]
  · refine forall_congr' fun record => forall_congr' fun _ => ?_
    simp only [Function.comp_apply, sortFile, canonicalFileOf, CanonicalFile.mk.injEq, true_and]
    rfl
  · exact fun _ _ => rfl
  · exact fun _ _ => rfl

private theorem payload_entities_eq_iff :
    (fingerprintPayload (index.componentsInFiles index.activeFileSet)).entities =
        (fingerprintPayload (index.canonicalComponents config)).entities ↔
      ∀ id entity, index.functionIndex.lookup id = some entity →
        ∀ parent, entity.parent = some parent → index.Named parent := by
  have stored : ∀ entry ∈ index.functionIndex.toList, index.Named entry.1 := by
    intro entry mem
    exact Or.inr (Option.isSome_of_eq_some (mem_toList.1 mem))
  have visible : (index.functionIndex.toList.filter fun entry =>
      index.inFiles index.activeFileSet entry.1) = index.functionIndex.toList :=
    filter_eq_self.2 fun entry _ => inFiles_activeFileSet index entry.1
  have keyed : ∀ (entities : List CanonicalEntity),
      (sortByKey (fun entity => entity.key.sortKey) entities).map
          (fun entity => { entity with entityId := none }) =
        sortByKey (fun entity : CanonicalEntity => entity.key.sortKey)
          (entities.map fun entity => { entity with entityId := none }) := fun entities =>
    map_sortByKey fun _ _ => rfl
  change (sortByKey _ ((index.functionIndex.toList.filter _).map _)).map _ =
    (sortByKey _ (index.functionIndex.toList.map _)).map _ ↔ _
  have sameEntry : ∀ entry ∈ index.functionIndex.toList,
      (canonicalEntityOf (index.symbolKeyOfId entry.1 entry.2.name)
          (entry.2.parent.map fun parent => index.symbolKeyOfId parent entry.2.name) none entry.2 =
        canonicalEntityOf (index.entityKeyOrDerived entry.1)
          (entry.2.parent.map index.entityKeyOrDerived) none entry.2 ↔
        ∀ parent, entry.2.parent = some parent → index.Named parent) := by
    intro entry mem
    rw [(symbolKeyOfId_eq_entityKeyOrDerived_iff _).2 (stored entry mem)]
    cases hasParent : entry.2.parent with
    | none =>
      simp only [Option.map_none, reduceCtorEq, false_implies, implies_true]
    | some parent =>
      simp only [Option.map_some, Option.some.injEq, forall_eq',
        ← symbolKeyOfId_eq_entityKeyOrDerived_iff entry.2.name]
      constructor
      · intro same
        exact Option.some.inj (congrArg CanonicalEntity.parent same)
      · intro same
        rw [same]
  rw [visible, keyed, keyed, map_map, map_map, sortByKey_map_eq_iff
    fun entry : EntityId × Entity => (index.entityKeyOrDerived entry.1).sortKey]
  · constructor
    · intro same id entity found
      exact (sameEntry (id, entity) (mem_toList.2 found)).1 (same (id, entity) (mem_toList.2 found))
    · intro named entry mem
      exact (sameEntry entry mem).2 (named entry.1 entry.2 (mem_toList.1 mem))
  · exact fun entry mem => congrArg StableSymbolKey.sortKey
      ((symbolKeyOfId_eq_entityKeyOrDerived_iff _).2 (stored entry mem))
  · exact fun _ _ => rfl

omit [Sha256] [SerdeJson] in
private theorem mem_ownedEdges_inl {caller : EntityId} {relation : ResolvedRelation} :
    ((Sum.inl caller, relation) : OwnedEdge) ∈ ownedEdges index ↔
      relation ∈ edgesOf index.resolvedRelationIndex caller := by
  unfold ownedEdges
  simp only [mem_edgesOf, mem_append, mem_flatMap, mem_map, Prod.mk.injEq, Sum.inl.injEq,
    reduceCtorEq, false_and, and_false, exists_false, or_false, exists_eq_right_right]
  constructor
  · rintro ⟨⟨own, set⟩, mem, inSet, rfl⟩
    exact ⟨set, mem_toList.1 mem, inSet⟩
  · rintro ⟨set, found, inSet⟩
    exact ⟨(caller, set), mem_toList.2 found, inSet, rfl⟩

omit [Sha256] [SerdeJson] in
private theorem mem_ownedEdges_inr {path : String} {relation : ResolvedRelation} :
    ((Sum.inr path, relation) : OwnedEdge) ∈ ownedEdges index ↔
      relation ∈ edgesOf index.fileRelationIndex path := by
  unfold ownedEdges
  simp only [mem_edgesOf, mem_append, mem_flatMap, mem_map, Prod.mk.injEq, Sum.inr.injEq,
    reduceCtorEq, false_and, and_false, exists_false, false_or, exists_eq_right_right]
  constructor
  · rintro ⟨⟨own, set⟩, mem, inSet, rfl⟩
    exact ⟨set, mem_toList.1 mem, inSet⟩
  · rintro ⟨set, found, inSet⟩
    exact ⟨(path, set), mem_toList.2 found, inSet, rfl⟩

/-- No key is made up for the owner of an edge or for its target. -/
private def EdgeNamed (index : RelationIndex) (edge : OwnedEdge) : Prop :=
  (∀ caller, edge.1 = .inl caller → index.Named caller) ∧
    ∀ callee, edge.2.calleeId = some callee → index.Named callee

/-- How many of the two keys of an edge are of the unknown kind. -/
private def unknownKeys (relation : CanonicalRelation) : Nat :=
  unknownWeight relation.caller +
    match relation.target with
    | .internal key => unknownWeight key
    | _ => 0

omit [SerdeJson] in
private theorem unknownKeys_le (edge : OwnedEdge) :
    unknownKeys (canonicalRelationOf index.symbolKeyOfId
        (ownerKey index.symbolKeyOfId edge.1) edge.2) ≤
      unknownKeys (canonicalRelationOf index.relationKeyOrDerived
        (ownerKey index.relationKeyOrDerived edge.1) edge.2) := by
  obtain ⟨owner, relation⟩ := edge
  refine Nat.add_le_add ?_ ?_
  · cases owner with
    | inl caller => exact unknownWeight_symbolKeyOfId_le caller ""
    | inr path => exact Nat.le_refl _
  · simp only [canonicalRelationOf, canonicalTargetOf]
    cases relation.calleeId with
    | some callee => exact unknownWeight_symbolKeyOfId_le callee relation.calleeName
    | none => exact Nat.le_refl _

omit [SerdeJson] in
private theorem edgeNamed_of_unknownKeys_eq {edge : OwnedEdge}
    (same : unknownKeys (canonicalRelationOf index.symbolKeyOfId
        (ownerKey index.symbolKeyOfId edge.1) edge.2) =
      unknownKeys (canonicalRelationOf index.relationKeyOrDerived
        (ownerKey index.relationKeyOrDerived edge.1) edge.2)) : EdgeNamed index edge := by
  obtain ⟨owner, relation⟩ := edge
  simp only [unknownKeys, canonicalRelationOf, canonicalTargetOf] at same
  refine ⟨?_, ?_⟩
  · rintro caller rfl
    have callerLe : unknownWeight (index.symbolKeyOfId caller "") ≤
        unknownWeight (index.relationKeyOrDerived caller "") :=
      unknownWeight_symbolKeyOfId_le caller ""
    have target : unknownKeys (canonicalRelationOf index.symbolKeyOfId
          (ownerKey index.symbolKeyOfId (Sum.inr "")) relation) ≤
        unknownKeys (canonicalRelationOf index.relationKeyOrDerived
          (ownerKey index.relationKeyOrDerived (Sum.inr "")) relation) :=
      unknownKeys_le (Sum.inr "", relation)
    simp only [unknownKeys, canonicalRelationOf, canonicalTargetOf, ownerKey] at target
    simp only [ownerKey] at same
    have equal : unknownWeight (index.symbolKeyOfId caller "") =
        unknownWeight (index.relationKeyOrDerived caller "") := by omega
    exact named_of_unknownWeight_eq equal
  · intro callee hit
    simp only at hit
    rw [hit] at same
    simp only at same
    have ownerLe : unknownWeight (ownerKey index.symbolKeyOfId owner) ≤
        unknownWeight (ownerKey index.relationKeyOrDerived owner) := by
      cases owner with
      | inl caller => exact unknownWeight_symbolKeyOfId_le caller ""
      | inr path => exact Nat.le_refl _
    have calleeLe : unknownWeight (index.symbolKeyOfId callee relation.calleeName) ≤
        unknownWeight (index.relationKeyOrDerived callee relation.calleeName) :=
      unknownWeight_symbolKeyOfId_le callee relation.calleeName
    have equal : unknownWeight (index.symbolKeyOfId callee relation.calleeName) =
        unknownWeight (index.relationKeyOrDerived callee relation.calleeName) := by omega
    exact named_of_unknownWeight_eq equal

omit [SerdeJson] in
private theorem canonicalRelationOf_eq_of_named {edge : OwnedEdge} (named : EdgeNamed index edge) :
    canonicalRelationOf index.symbolKeyOfId (ownerKey index.symbolKeyOfId edge.1) edge.2 =
      canonicalRelationOf index.relationKeyOrDerived
        (ownerKey index.relationKeyOrDerived edge.1) edge.2 := by
  obtain ⟨owner, relation⟩ := edge
  have owners : ownerKey index.symbolKeyOfId owner = ownerKey index.relationKeyOrDerived owner := by
    cases owner with
    | inl caller => exact symbolKeyOfId_eq_relationKeyOrDerived (named.1 caller rfl) ""
    | inr path => rfl
  have targets : canonicalTargetOf index.symbolKeyOfId relation =
      canonicalTargetOf index.relationKeyOrDerived relation := by
    unfold canonicalTargetOf
    cases hit : relation.calleeId with
    | none => rfl
    | some callee =>
      exact congrArg CanonicalRelationTarget.internal
        (symbolKeyOfId_eq_relationKeyOrDerived (named.2 callee hit) relation.calleeName)
  unfold canonicalRelationOf
  rw [owners, targets]

omit [Sha256] in
private theorem payload_relations (snapshot : CanonicalRelationSnapshot) :
    (fingerprintPayload snapshot).relations = sortByKey relationSortKey
        (snapshot.relations.map fun relation => { relation with calleeSymbol := none }) :=
  map_sortByKey fun _ _ => rfl

private theorem payload_relations_eq_iff :
    (fingerprintPayload (index.componentsInFiles index.activeFileSet)).relations =
        (fingerprintPayload (index.canonicalComponents config)).relations ↔
      ∀ edge ∈ ownedEdges index, ownerActive index edge.1 = true ∧ EdgeNamed index edge := by
  rw [payload_relations, payload_relations, relations_componentsInFiles,
    relations_canonicalComponents, map_map, map_map]
  constructor
  · intro same
    have lengths := congrArg length same
    rw [length_sortByKey, length_sortByKey, length_map, length_map] at lengths
    have active := length_filter_eq_length_iff.1 lengths
    rw [filter_eq_self.2 active] at same
    have weights := weight_eq_of_sortByKey_map_eq unknownKeys same
      fun edge _ => unknownKeys_le edge
    exact fun edge mem => ⟨active edge mem, edgeNamed_of_unknownKeys_eq (weights edge mem)⟩
  · intro meets
    rw [filter_eq_self.2 fun edge mem => (meets edge mem).1]
    refine congrArg _ (map_congr_left fun edge mem => ?_)
    exact congrArg (fun relation : CanonicalRelation => { relation with calleeSymbol := none })
      (canonicalRelationOf_eq_of_named (meets edge mem).2)

private theorem payload_dependencies_eq_iff :
    (fingerprintPayload (index.componentsInFiles index.activeFileSet)).dependencies =
        (fingerprintPayload (index.canonicalComponents config)).dependencies ↔
      ∀ record ∈ index.fileRecords.values,
        ∀ target ∈ index.dependencyGraph.getDependencies (normalizeProjectPath record.info.path),
          normalizeProjectPath target ∈ index.activeFileSet := by
  let items := index.fileRecords.values.flatMap fun record =>
    (index.dependencyGraph.getDependencies (normalizeProjectPath record.info.path)).map
      fun target => (normalizeProjectPath record.info.path, target)
  have visible : (index.fileRecords.values.filter fun record =>
      normalizeProjectPath record.info.path ∈ index.activeFileSet) = index.fileRecords.values :=
    filter_eq_self.2 fun record mem =>
      decide_eq_true (normalized_mem_activeFileSet index mem)
  have exported : (index.canonicalComponents config).dependencies =
      items.map fun item => canonicalDependencyOf item.1 item.2 := by
    change (index.fileRecords.values.map _).flatMap _ = _
    rw [flatMap_map, map_flatMap]
    simp only [map_map]
    rfl
  have streamed : (index.componentsInFiles index.activeFileSet).dependencies =
      (items.filter fun item => normalizeProjectPath item.2 ∈ index.activeFileSet).map
        fun item => canonicalDependencyOf item.1 item.2 := by
    change ((index.fileRecords.values.filter _).map _).flatMap _ = _
    rw [visible, flatMap_map, filter_flatMap, map_flatMap]
    simp only [filter_map, map_map]
    rfl
  have listed : (∀ item ∈ items,
      decide (normalizeProjectPath item.2 ∈ index.activeFileSet) = true) ↔
      ∀ record ∈ index.fileRecords.values,
        ∀ target ∈ index.dependencyGraph.getDependencies (normalizeProjectPath record.info.path),
          normalizeProjectPath target ∈ index.activeFileSet := by
    simp only [items, forall_mem_flatMap, forall_mem_map, decide_eq_true_eq]
  rw [← listed]
  change sortByKey dependencySortKey _ = sortByKey dependencySortKey _ ↔ _
  rw [exported, streamed]
  constructor
  · intro same
    have lengths := congrArg length same
    rw [length_sortByKey, length_sortByKey, length_map, length_map] at lengths
    exact length_filter_eq_length_iff.1 lengths
  · intro all
    rw [filter_eq_self.2 all]

variable (index config)

/-- For every index and configuration, the two traversals hash the same components if and only
if they meet. -/
theorem fingerprintComponentsAgree_iff :
    FingerprintComponentsAgree index config ↔ TraversalsMeet index config := by
  unfold FingerprintComponentsAgree toCanonicalSnapshot
  rw [fingerprintPayload_normalize]
  have parts : ∀ left right : CanonicalRelationSnapshot,
      left.schemaVersion = right.schemaVersion → left.parserVersion = right.parserVersion →
      left.resolverVersion = right.resolverVersion →
      left.pathNormalizationVersion = right.pathNormalizationVersion →
      left.baseRelationEpoch = right.baseRelationEpoch →
      (left = right ↔ left.configFingerprint = right.configFingerprint ∧
        left.files = right.files ∧ left.entities = right.entities ∧
        left.relations = right.relations ∧ left.dependencies = right.dependencies) := by
    intro left right schema parser resolver paths epoch
    cases left
    cases right
    simp only at schema parser resolver paths epoch
    simp only [CanonicalRelationSnapshot.mk.injEq, schema, parser, resolver, paths, epoch,
      true_and]
  rw [parts (fingerprintPayload (index.componentsInFiles index.activeFileSet))
    (fingerprintPayload (index.canonicalComponents config)) rfl rfl rfl rfl rfl,
      payload_files_eq_iff, payload_entities_eq_iff,
    payload_relations_eq_iff, payload_dependencies_eq_iff]
  constructor
  · rintro ⟨noConfig, exports, parents, edges, targets⟩
    refine ⟨noConfig.symm, exports, parents, fun caller relation mem => ?_,
      fun path relation mem => ?_, targets⟩
    · obtain ⟨-, owner, callee⟩ := edges _ (mem_ownedEdges_inl.2 mem)
      exact ⟨owner caller rfl, callee⟩
    · obtain ⟨active, -, callee⟩ := edges _ (mem_ownedEdges_inr.2 mem)
      exact ⟨of_decide_eq_true active, callee⟩
  · intro meet
    refine ⟨meet.config.symm, meet.exports, meet.parents, ?_, meet.targets⟩
    rintro ⟨caller | path, relation⟩ mem
    · obtain ⟨owner, callee⟩ := meet.edges caller relation (mem_ownedEdges_inl.1 mem)
      refine ⟨rfl, ?_, callee⟩
      rintro _ ⟨⟩
      exact owner
    · obtain ⟨active, callee⟩ := meet.fileEdges path relation (mem_ownedEdges_inr.1 mem)
      exact ⟨decide_eq_true active, fun _ other => (nomatch other), callee⟩

end Agreement

section Sample

/-- A serializer that tells nothing apart; the component lists do not depend on it. -/
@[reducible] def sampleSerdeJson : SerdeJson := ⟨fun _ => "", fun _ => "", fun _ => ""⟩

def outsideDependency : RelationIndex :=
  applyDependencyDiffs (applyAddedFile .new { path := "src/a.rs" })
    [⟨"src/a.rs", [], ["src/b.rs"]⟩]

/-- A dependency on a file outside the index is exported but not hashed directly. -/
theorem outsideDependency_not_streamed :
    ¬@FingerprintComponentsAgree sampleSha256 sampleSerdeJson outsideDependency "" := by
  let _ := sampleSha256
  let _ := sampleSerdeJson
  intro agree
  unfold FingerprintComponentsAgree toCanonicalSnapshot at agree
  rw [fingerprintPayload_normalize] at agree
  have lengths := congrArg (fun snapshot => snapshot.dependencies.length) agree
  change (sortByKey dependencySortKey _).length = (sortByKey dependencySortKey _).length at lengths
  rw [length_sortByKey, length_sortByKey] at lengths
  exact absurd lengths (by decide)

end Sample

section Reordering

/-- The same file with its imports and exports in another order. -/
structure FileReordered (left right : CanonicalFile) : Prop where
  path : left.path = right.path
  language : left.language = right.language
  inputHash : left.inputHash = right.inputHash
  fileSize : left.fileSize = right.fileSize
  imports : left.imports.Perm right.imports
  exports : left.exports.Perm right.exports

theorem FileReordered.refl (file : CanonicalFile) : FileReordered file file :=
  ⟨rfl, rfl, rfl, rfl, .refl _, .refl _⟩

/-- The same header and the same components, every list in another order. -/
structure ComponentsReordered (left right : CanonicalRelationSnapshot) : Prop where
  schemaVersion : left.schemaVersion = right.schemaVersion
  parserVersion : left.parserVersion = right.parserVersion
  resolverVersion : left.resolverVersion = right.resolverVersion
  pathNormalizationVersion : left.pathNormalizationVersion = right.pathNormalizationVersion
  configFingerprint : left.configFingerprint = right.configFingerprint
  baseRelationEpoch : left.baseRelationEpoch = right.baseRelationEpoch
  files : ∃ files, left.files.Perm files ∧ List.Forall₂ FileReordered files right.files
  entities : left.entities.Perm right.entities
  relations : left.relations.Perm right.relations
  dependencies : left.dependencies.Perm right.dependencies

theorem ComponentsReordered.refl (snapshot : CanonicalRelationSnapshot) :
    ComponentsReordered snapshot snapshot where
  schemaVersion := rfl
  parserVersion := rfl
  resolverVersion := rfl
  pathNormalizationVersion := rfl
  configFingerprint := rfl
  baseRelationEpoch := rfl
  files := ⟨_, .refl _, forall₂_same.2 fun file _ => .refl file⟩
  entities := .refl _
  relations := .refl _
  dependencies := .refl _

end Reordering

section Ties

def withoutNumber (entity : CanonicalEntity) : CanonicalEntity := { entity with entityId := none }

def withoutSymbol (relation : CanonicalRelation) : CanonicalRelation :=
  { relation with calleeSymbol := none }

/-- A sorted list is order independent exactly when elements that tie are equal. -/
private theorem sortByKey_perm_iff {α κ : Type} [LinearOrder κ] (key : α → κ) {l : List α} :
    (∀ m, l.Perm m → sortByKey key m = sortByKey key l) ↔
      ∀ a ∈ l, ∀ b ∈ l, key a = key b → a = b := by
  have images := map_sortByKey_perm_iff key id (l := l)
  simp only [map_id, id] at images
  exact images

variable [SerdeJson] (snapshot : CanonicalRelationSnapshot)

def OrderIndependent : Prop :=
  ∀ other, ComponentsReordered snapshot other →
    fingerprintPayload other = fingerprintPayload snapshot

/-- Components that tie in the canonical order agree on every hashed field. -/
structure TiesHashAlike : Prop where
  imports : ∀ file ∈ snapshot.files, ∀ a ∈ file.imports, ∀ b ∈ file.imports,
    SerdeJson.ofImport a = SerdeJson.ofImport b → a = b
  exports : ∀ file ∈ snapshot.files, ∀ a ∈ file.exports, ∀ b ∈ file.exports,
    exportSortKey a = exportSortKey b → a = b
  files : ∀ a ∈ snapshot.files, ∀ b ∈ snapshot.files,
    normalizeProjectPath a.path = normalizeProjectPath b.path → sortFile a = sortFile b
  entities : ∀ a ∈ snapshot.entities, ∀ b ∈ snapshot.entities,
    a.key.sortKey = b.key.sortKey → withoutNumber a = withoutNumber b
  relations : ∀ a ∈ snapshot.relations, ∀ b ∈ snapshot.relations,
    relationSortKey a = relationSortKey b → withoutSymbol a = withoutSymbol b
  dependencies : ∀ a ∈ snapshot.dependencies, ∀ b ∈ snapshot.dependencies,
    dependencySortKey a = dependencySortKey b → a = b

variable {snapshot}

private theorem sortByKey_sortFile (files : List CanonicalFile) :
    sortByKey CanonicalFile.path (files.map sortFile) =
      (sortByKey (fun file => normalizeProjectPath file.path) files).map sortFile :=
  (map_sortByKey fun _ _ => rfl).symm

theorem OrderIndependent.relations_alike (independent : OrderIndependent snapshot)
    {a b : CanonicalRelation} (aMem : a ∈ snapshot.relations) (bMem : b ∈ snapshot.relations)
    (tie : relationSortKey a = relationSortKey b) : withoutSymbol a = withoutSymbol b := by
  refine (map_sortByKey_perm_iff relationSortKey withoutSymbol).1
    (fun m perm => ?_) a aMem b bMem tie
  have hashed := independent { snapshot with relations := m }
    { ComponentsReordered.refl snapshot with relations := perm }
  exact congrArg CanonicalRelationSnapshot.relations hashed

private theorem OrderIndependent.sortFile_eq (independent : OrderIndependent snapshot)
    {file changed : CanonicalFile} (mem : file ∈ snapshot.files)
    (alike : FileReordered file changed) : sortFile changed = sortFile file := by
  let reorder := fun other : CanonicalFile => if other = file then changed else other
  have reordered : ∀ other, FileReordered other (reorder other) := by
    intro other
    by_cases same : other = file
    · rwa [show reorder other = changed from if_pos same, same]
    · rw [show reorder other = other from if_neg same]
      exact .refl other
  have inside : List.Forall₂ FileReordered snapshot.files (snapshot.files.map reorder) :=
    forall₂_map_right_iff.2 (forall₂_same.2 fun file _ => reordered file)
  have hashed := independent { snapshot with files := snapshot.files.map reorder }
    { ComponentsReordered.refl snapshot with files := ⟨_, .refl _, inside⟩ }
  have files := congrArg CanonicalRelationSnapshot.files hashed
  change sortByKey CanonicalFile.path ((snapshot.files.map reorder).map sortFile) =
    sortByKey CanonicalFile.path (snapshot.files.map sortFile) at files
  rw [map_map] at files
  have keptLeft : ∀ file ∈ snapshot.files, CanonicalFile.path ((sortFile ∘ reorder) file) =
      normalizeProjectPath file.path := fun file _ =>
    congrArg normalizeProjectPath (reordered file).path.symm
  have keptRight : ∀ file ∈ snapshot.files, CanonicalFile.path (sortFile file) =
      normalizeProjectPath file.path := fun _ _ => rfl
  have sorted := (sortByKey_map_eq_iff (fun file => normalizeProjectPath file.path) keptLeft
    keptRight).1 files file mem
  rwa [Function.comp_apply, show reorder file = changed from if_pos rfl] at sorted

private theorem OrderIndependent.tiesHashAlike (independent : OrderIndependent snapshot) :
    TiesHashAlike snapshot where
  imports file mem := by
    refine (sortByKey_perm_iff SerdeJson.ofImport).1 fun m perm => ?_
    have sorted : sortFile { file with imports := m } = sortFile file :=
      independent.sortFile_eq mem { FileReordered.refl file with imports := perm }
    exact congrArg CanonicalFile.imports sorted
  exports file mem := by
    refine (sortByKey_perm_iff exportSortKey).1 fun m perm => ?_
    have sorted : sortFile { file with exports := m } = sortFile file :=
      independent.sortFile_eq mem { FileReordered.refl file with exports := perm }
    exact congrArg CanonicalFile.exports sorted
  files := by
    refine (map_sortByKey_perm_iff (fun file : CanonicalFile => normalizeProjectPath file.path)
      sortFile).1 fun m perm => ?_
    have hashed := independent { snapshot with files := m }
      { ComponentsReordered.refl snapshot with
        files := ⟨m, perm, forall₂_same.2 fun file _ => .refl file⟩ }
    have files := congrArg CanonicalRelationSnapshot.files hashed
    change sortByKey CanonicalFile.path (m.map sortFile) =
      sortByKey CanonicalFile.path (snapshot.files.map sortFile) at files
    rw [sortByKey_sortFile, sortByKey_sortFile] at files
    exact files
  entities := by
    refine (map_sortByKey_perm_iff (fun entity : CanonicalEntity => entity.key.sortKey)
      withoutNumber).1 fun m perm => ?_
    have hashed := independent { snapshot with entities := m }
      { ComponentsReordered.refl snapshot with entities := perm }
    exact congrArg CanonicalRelationSnapshot.entities hashed
  relations a aMem b bMem tie := independent.relations_alike aMem bMem tie
  dependencies := by
    refine (sortByKey_perm_iff dependencySortKey).1 fun m perm => ?_
    have hashed := independent { snapshot with dependencies := m }
      { ComponentsReordered.refl snapshot with dependencies := perm }
    exact congrArg CanonicalRelationSnapshot.dependencies hashed

private theorem TiesHashAlike.sortFile_eq (alike : TiesHashAlike snapshot)
    {file other : CanonicalFile} (mem : file ∈ snapshot.files)
    (reordered : FileReordered file other) : sortFile other = sortFile file := by
  obtain ⟨path, language, inputHash, fileSize, imports, exports⟩ := reordered
  have sortedImports :=
    (sortByKey_perm_iff SerdeJson.ofImport).2 (alike.imports file mem) other.imports imports
  have sortedExports :=
    (sortByKey_perm_iff exportSortKey).2 (alike.exports file mem) other.exports exports
  unfold sortFile
  rw [sortedImports, sortedExports, ← path]
  cases file
  cases other
  simp only at language inputHash fileSize
  simp only [language, inputHash, fileSize]

private theorem TiesHashAlike.orderIndependent (alike : TiesHashAlike snapshot) :
    OrderIndependent snapshot := by
  intro other reordered
  obtain ⟨files, perm, inside⟩ := reordered.files
  have sortedInside : other.files.map sortFile = files.map sortFile := by
    have pairs : List.Forall₂ (fun file changed => sortFile changed = sortFile file) files
        other.files := by
      refine (forall₂_iff_get.2 ⟨inside.length_eq, fun i left right => ?_⟩)
      refine alike.sortFile_eq (perm.symm.subset (get_mem files ⟨i, left⟩)) ?_
      exact (forall₂_iff_get.1 inside).2 i left right
    have images : List.Forall₂ (· = ·) (other.files.map sortFile) (files.map sortFile) :=
      forall₂_map_left_iff.2 (forall₂_map_right_iff.2 pairs.flip)
    exact forall₂_eq_eq_eq ▸ images
  have sortedFiles : sortByKey CanonicalFile.path (other.files.map sortFile) =
      sortByKey CanonicalFile.path (snapshot.files.map sortFile) := by
    rw [sortedInside, sortByKey_sortFile, sortByKey_sortFile]
    exact (map_sortByKey_perm_iff _ _).2 alike.files files perm
  have sortedEntities := (map_sortByKey_perm_iff _ _).2 alike.entities other.entities
    reordered.entities
  have sortedRelations := (map_sortByKey_perm_iff _ _).2 alike.relations other.relations
    reordered.relations
  have sortedDependencies := (sortByKey_perm_iff _).2 alike.dependencies other.dependencies
    reordered.dependencies
  refine CanonicalRelationSnapshot.mk.injEq .. ▸ ⟨reordered.schemaVersion.symm,
    reordered.parserVersion.symm, reordered.resolverVersion.symm,
    reordered.pathNormalizationVersion.symm, reordered.configFingerprint.symm,
    reordered.baseRelationEpoch.symm, sortedFiles, sortedEntities, sortedRelations,
    sortedDependencies⟩

/-- The payload is independent of the order of the components if and only if components that
tie in the canonical order agree on every hashed field. -/
theorem orderIndependent_iff (snapshot : CanonicalRelationSnapshot) :
    OrderIndependent snapshot ↔ TiesHashAlike snapshot :=
  ⟨fun independent => independent.tiesHashAlike, fun alike => alike.orderIndependent⟩

end Ties

section Sample

def unresolvedReference (rawTarget : String) : CanonicalRelation where
  caller := ⟨"src/a.rs", "<file>", .moduleKind, "function"⟩
  target := .unresolved .symbolNotFound
  rawTarget := rawTarget
  relationType := .typeReference
  span := ⟨0, 9, ⟨0, 0⟩, ⟨0, 9⟩⟩
  stdlibCategory := none
  overloadSignature := none
  calleeSymbol := none
  ownerType := none
  callContext := .direct
  callFrequency := 0
  cfgCondition := none

/-- Two unresolved references from one place. -/
def unresolvedPair : CanonicalRelationSnapshot where
  configFingerprint := ""
  files := []
  entities := []
  relations := [unresolvedReference "Job", unresolvedReference "Run"]
  dependencies := []

/-- Two unresolved references of one place tie whatever their targets, and are hashed in the
order in which they come. -/
theorem unresolvedPair_orderDependent : ¬@OrderIndependent sampleSerdeJson unresolvedPair := by
  let _ := sampleSerdeJson
  intro independent
  have job : unresolvedReference "Job" ∈ unresolvedPair.relations := mem_cons_self
  have run : unresolvedReference "Run" ∈ unresolvedPair.relations :=
    mem_cons_of_mem _ mem_cons_self
  have alike := independent.relations_alike job run rfl
  exact absurd (congrArg CanonicalRelation.rawTarget alike) (by decide)

end Sample

end ContextEngine

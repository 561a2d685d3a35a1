/- digest: The counters of a layered snapshot and the chains along which they count exactly. -/

import ContextEngine.Layered.EdgeAnswers

set_option autoImplicit false

namespace ContextEngine

open RelationIndex HashMap List RelationIndex Runs

section Counts

namespace RelationIndex

variable (index : RelationIndex)

def functionCount : Nat := index.functionIndex.size

/-- The lengths of all entries of the forward table added up. -/
def resolvedRelationCount : Nat :=
  (index.resolvedRelationIndex.toList.map fun entry => entry.2.edges.length).foldl (· + ·) 0

def fileCount : Nat := index.fileRecords.size

def importCount : Nat := index.fileRecords.size

def containsFile (fileId : String) : Bool := (index.fileRecords.lookup fileId).isSome

def hasImports (fileId : String) : Bool := (index.fileRecords.lookup fileId).isSome

end RelationIndex

namespace LayeredSnapshotIndex

variable (layered : LayeredSnapshotIndex)

def functionTally : Int :=
  layered.deltas.foldl
    (fun count d => count + d.addedEntities.length - d.removedEntities.length)
    layered.base.index.functionCount

/-- A sum below zero counts as zero. -/
def functionCount : Nat := layered.functionTally.toNat

def ownedByRemoved (base : RelationIndex) (delta : SnapshotDelta) : Nat :=
  ((delta.removedEntities.filterMap base.resolvedRelationIndex.lookup).map
    fun entry => entry.edges.length).foldl (· + ·) 0

def relationTally : Int :=
  layered.deltas.foldl
    (fun count d => count - ownedByRemoved layered.base.index d - d.removedRelations.length +
      d.addedRelations.length)
    layered.base.index.resolvedRelationCount

def resolvedRelationCount : Nat := layered.relationTally.toNat

def fileTally : Int :=
  layered.deltas.foldl
    (fun count d =>
      count - (d.removedFiles.filter layered.base.index.containsFile).length +
        d.addedFiles.length)
    layered.base.index.fileCount

def fileCount : Nat := layered.fileTally.toNat

def importTally : Int :=
  layered.deltas.foldl
    (fun count d => count - (d.removedFiles.filter layered.base.index.hasImports).length)
    layered.base.index.importCount

def importCount : Nat := layered.importTally.toNat

end LayeredSnapshotIndex

end Counts

section Conditions

variable [Sha256]

/-- What a delta must be like for the counters to follow its replay: it brings and takes what
it lists, and takes nothing from the base that the base does not store. -/
structure SnapshotDelta.CountsAsListed (delta : SnapshotDelta) (base current : RelationIndex) :
    Prop where
  /-- The entities that lose their number are stored, each named once. -/
  takenOnce : (delta.removedEntities ++ delta.renamedEntities.map RenamedEntity.oldId).Nodup
  takenStored : ∀ id ∈ delta.removedEntities ++ delta.renamedEntities.map RenamedEntity.oldId,
    (current.functionIndex.lookup id).isSome
  /-- The numbers that are brought in are free, each named once. -/
  broughtOnce : (delta.renamedEntities.map RenamedEntity.newId ++
    addedIds delta.addedEntities).Nodup
  broughtFree : ∀ id ∈ delta.renamedEntities.map RenamedEntity.newId ++
    addedIds delta.addedEntities, current.functionIndex.lookup id = none
  /-- An edge listed as removed is stored, its caller stays, and it is listed once. -/
  listedStored : ∀ edge ∈ delta.removedRelations,
    edge ∈ edgesOf current.resolvedRelationIndex edge.caller ∧
      edge.caller ∉ delta.removedEntities
  listedOnce : (delta.removedRelations.map relationIdentity).Nodup
  /-- Every edge of a renamed caller is listed as removed. -/
  renamedCallers : ∀ renamed ∈ delta.renamedEntities,
    ∀ edge ∈ edgesOf current.resolvedRelationIndex renamed.oldId, delta.Lists edge
  /-- Added edges differ in identity from each other and from every edge that stays. -/
  addedOnce : (delta.addedRelations.map relationIdentity).Nodup
  addedFresh : ∀ added ∈ delta.addedRelations,
    ∀ edge ∈ edgesOf current.resolvedRelationIndex added.caller,
      relationIdentity edge = relationIdentity added → ¬delta.Keeps edge
  /-- A removed caller owns as many edges as in the base, and none of them is classified. -/
  ownedAsInBase : ∀ id ∈ delta.removedEntities,
    (edgesOf current.resolvedRelationIndex id).length =
      (edgesOf base.resolvedRelationIndex id).length
  ownedUnclassified : ∀ id ∈ delta.removedEntities,
    ∀ edge ∈ edgesOf current.resolvedRelationIndex id, edge.externalType = none
  /-- No file is added, and every removed file is recorded and named once. -/
  noAddedFile : delta.addedFiles = []
  filesOnce : delta.removedFiles.Nodup
  filesRecorded : ∀ path ∈ delta.removedFiles, current.containsFile path = true

end Conditions

section Entities

variable [Sha256]

def renameFunction (functions : HashMap EntityId Entity) (renamed : RenamedEntity) :
    HashMap EntityId Entity :=
  match functions.lookup renamed.oldId with
  | some entity => (functions.erase renamed.oldId).insert renamed.newId entity
  | none => functions

theorem functionIndex_applyRenamedEntities (index : RelationIndex) (renamed : List RenamedEntity) :
    (applyRenamedEntities index renamed).functionIndex =
      renamed.foldl renameFunction index.functionIndex := by
  unfold applyRenamedEntities
  split
  · next none => rw [isEmpty_iff.1 none]; rfl
  · exact (foldl_hom functionIndex fun _ _ => rfl).symm

omit [Sha256] in
theorem lookup_renameFunction_of_stored {functions : HashMap EntityId Entity}
    {renamed : RenamedEntity} (stored : (functions.lookup renamed.oldId).isSome) (id : EntityId) :
    ((renameFunction functions renamed).lookup id).isSome = if id = renamed.newId then true
      else if id = renamed.oldId then false else (functions.lookup id).isSome := by
  obtain ⟨entity, found⟩ := Option.isSome_iff_exists.1 stored
  unfold renameFunction
  rw [found]
  simp only [lookup_insert_eq, lookup_erase_eq]
  split_ifs <;> rfl

omit [Sha256] in
theorem size_renameFunction {functions : HashMap EntityId Entity} {renamed : RenamedEntity}
    (stored : (functions.lookup renamed.oldId).isSome)
    (free : functions.lookup renamed.newId = none) :
    (renameFunction functions renamed).size = functions.size := by
  obtain ⟨entity, found⟩ := Option.isSome_iff_exists.1 stored
  have erased : (functions.erase renamed.oldId).lookup renamed.newId = none := by
    rw [lookup_erase_eq, free, ite_self]
  have smaller := size_erase stored
  have larger := size_insert entity erased
  unfold renameFunction
  rw [found]
  simp only
  omega

omit [Sha256] in
theorem foldl_renameFunction {renamed : List RenamedEntity}
    {functions : HashMap EntityId Entity}
    (oldOnce : (renamed.map RenamedEntity.oldId).Nodup)
    (newOnce : (renamed.map RenamedEntity.newId).Nodup)
    (stored : ∀ id ∈ renamed.map RenamedEntity.oldId, (functions.lookup id).isSome)
    (free : ∀ id ∈ renamed.map RenamedEntity.newId, functions.lookup id = none) :
    (renamed.foldl renameFunction functions).size = functions.size ∧
      ∀ id, id ∉ renamed.map RenamedEntity.newId → functions.lookup id = none →
        (renamed.foldl renameFunction functions).lookup id = none := by
  induction renamed generalizing functions with
  | nil => exact ⟨rfl, fun _ _ none => none⟩
  | cons r renamed ih =>
    rw [map_cons] at oldOnce newOnce stored free
    obtain ⟨oldFresh, oldOnce⟩ := nodup_cons.1 oldOnce
    obtain ⟨newFresh, newOnce⟩ := nodup_cons.1 newOnce
    have here := stored r.oldId mem_cons_self
    have known := lookup_renameFunction_of_stored here
    have absent : ∀ id, id ≠ r.newId → functions.lookup id = none →
        (renameFunction functions r).lookup id = none := by
      intro id other none
      have gone := known id
      rw [if_neg other, none, Option.isSome_none, ite_self] at gone
      exact Option.not_isSome_iff_eq_none.1 (by rw [gone]; exact Bool.false_ne_true)
    have stored' : ∀ id ∈ renamed.map RenamedEntity.oldId,
        ((renameFunction functions r).lookup id).isSome := by
      intro id mem
      have other : id ≠ r.oldId := fun same => oldFresh (same ▸ mem)
      rw [known, if_neg other, stored id (mem_cons_of_mem _ mem), ite_self]
    have free' : ∀ id ∈ renamed.map RenamedEntity.newId,
        (renameFunction functions r).lookup id = none := by
      intro id mem
      have other : id ≠ r.newId := fun same => newFresh (same ▸ mem)
      exact absent id other (free id (mem_cons_of_mem _ mem))
    obtain ⟨size, later⟩ := ih oldOnce newOnce stored' free'
    have first := size_renameFunction here (free r.newId mem_cons_self)
    refine ⟨size.trans first, fun id fresh none => ?_⟩
    rw [map_cons, mem_cons, not_or] at fresh
    exact later id fresh.2 (absent id fresh.1 none)

theorem functionIndex_applyDelta (index : RelationIndex) (delta : SnapshotDelta) :
    (applyDelta index delta).functionIndex = (delta.renamedEntities.foldl renameFunction
          (index.functionIndex.eraseAll delta.removedEntities)).extend
        (delta.addedEntities.map fun a => (a.entity.id, a.entity)) := by
  have entities : (applyDelta index delta).functionIndex =
      (replayEntities index delta).functionIndex :=
    congrArg EntityTables.functionIndex (entityTables_applyDelta index delta)
  have files := frame_applyFiles index functionIndex (fun _ _ => rfl)
    (fun _ _ => rfl) delta.removedFiles delta.addedFiles
  rw [entities, replayEntities, functionIndex_applyAddedEntities,
    functionIndex_applyRenamedEntities, functionIndex_applyRemovedEntities]
  -- files first, then the losses
  exact congrArg (fun functions : HashMap EntityId Entity =>
    (delta.renamedEntities.foldl renameFunction
      (functions.eraseAll delta.removedEntities)).extend _) files

variable {delta : SnapshotDelta} {base current : RelationIndex}

theorem SnapshotDelta.CountsAsListed.functionCount (counts : delta.CountsAsListed base current) :
    (applyDelta current delta).functionCount + delta.removedEntities.length =
      current.functionCount + delta.addedEntities.length := by
  obtain ⟨removedOnce, oldOnce, apart⟩ := nodup_append.1 counts.takenOnce
  obtain ⟨newOnce, addedOnce, newApart⟩ := nodup_append.1 counts.broughtOnce
  have erased := size_eraseAll removedOnce fun id mem =>
    counts.takenStored id (mem_append_left _ mem)
  have gone : ∀ id, current.functionIndex.lookup id = none →
      (current.functionIndex.eraseAll delta.removedEntities).lookup id = none := by
    intro id none
    rw [lookup_eraseAll, none, ite_self]
  obtain ⟨renamed, free⟩ := @foldl_renameFunction delta.renamedEntities
    (current.functionIndex.eraseAll delta.removedEntities) oldOnce newOnce
    (fun id mem => by
      have stays : id ∉ delta.removedEntities := fun removed => apart id removed id mem rfl
      rw [lookup_eraseAll, if_neg stays]
      exact counts.takenStored id (mem_append_right _ mem))
    (fun id mem => gone id (counts.broughtFree id (mem_append_left _ mem)))
  have keys : (delta.addedEntities.map fun a => (a.entity.id, a.entity)).map Prod.fst =
      addedIds delta.addedEntities := map_map
  have extended := size_extend
    (m := delta.renamedEntities.foldl renameFunction
      (current.functionIndex.eraseAll delta.removedEntities))
    (l := delta.addedEntities.map fun a => (a.entity.id, a.entity))
    (keys ▸ addedOnce) (fun id mem => by
      rw [keys] at mem
      exact free id (fun taken => newApart id taken id mem rfl)
        (gone id (counts.broughtFree id (mem_append_right _ mem))))
  rw [length_map, renamed] at extended
  unfold RelationIndex.functionCount
  rw [functionIndex_applyDelta, extended]
  omega

end Entities

section Edges

theorem classifiedCount_append (l l' : List ResolvedRelation) (classes : ExternalCallType) :
    classifiedCount (l ++ l') classes = classifiedCount l classes + classifiedCount l' classes :=
  Overlay.occurrences_append l l' classes

variable {delta : SnapshotDelta} {base current : RelationIndex}

theorem resolvedRelationCount_eq (index : RelationIndex) :
    index.resolvedRelationCount = index.allRelations.length := by
  unfold resolvedRelationCount allRelations
  rw [length_flatMap, sum_eq_foldl]

theorem ownedByRemoved_eq (base : RelationIndex) (delta : SnapshotDelta) :
    LayeredSnapshotIndex.ownedByRemoved base delta =
      (delta.removedEntities.flatMap (edgesOf base.resolvedRelationIndex)).length := by
  unfold LayeredSnapshotIndex.ownedByRemoved
  rw [← sum_eq_foldl, length_flatMap]
  induction delta.removedEntities with
  | nil => rfl
  | cons id removed ih =>
    rw [map_cons, sum_cons, ← ih]
    cases found : base.resolvedRelationIndex.lookup id with
    | none =>
      simp only [filterMap_cons, found, edgesOf]
      exact (Nat.zero_add _).symm
    | some set => simp only [filterMap_cons, found, edgesOf, map_cons,
        sum_cons, Option.getD_some]

variable [Sha256]

namespace SnapshotDelta.CountsAsListed

section

variable (counts : delta.CountsAsListed base current)

include counts

omit [Sha256] in
theorem perm_parted :
    current.allRelations.Perm (current.allRelations.filter (fun edge => delta.Keeps edge) ++
        (delta.removedEntities.flatMap (edgesOf current.resolvedRelationIndex) ++
          delta.removedRelations)) := by
  have stored := (nodup_allRelations current).of_map
  have removedOnce := (nodup_append.1 counts.takenOnce).1
  have own : ∀ {caller edge}, edge ∈ edgesOf current.resolvedRelationIndex caller →
      edge.caller = caller := current.edgesFiled.caller_eq
  have owned : (delta.removedEntities.flatMap (edgesOf current.resolvedRelationIndex)).Nodup := by
    refine nodup_flatMap.2 ⟨fun id _ => (nodup_edgesOf _ id).of_map, ?_⟩
    exact removedOnce.imp fun {left right} different edge inLeft inRight =>
      different ((own inLeft).symm.trans (own inRight))
  have ofRemoved : ∀ {edge},
      edge ∈ delta.removedEntities.flatMap (edgesOf current.resolvedRelationIndex) →
        edge.caller ∈ delta.removedEntities := by
    intro edge mem
    obtain ⟨id, removed, here⟩ := mem_flatMap.1 mem
    exact (own here).symm ▸ removed
  refine (perm_ext_iff_of_nodup stored ?_).2 fun edge => ?_
  · refine nodup_append.2 ⟨stored.filter _, nodup_append.2
      ⟨owned, counts.listedOnce.of_map, ?_⟩, ?_⟩
    · rintro edge inOwned _ listed rfl
      exact (counts.listedStored edge listed).2 (ofRemoved inOwned)
    · rintro edge inKept _ lost rfl
      have keeps := of_decide_eq_true (mem_filter.1 inKept).2
      rcases mem_append.1 lost with inOwned | listed
      · exact keeps.1 (ofRemoved inOwned)
      · exact keeps.2 (mem_map_of_mem listed)
  · rw [mem_append, mem_append, mem_filter, mem_allRelations, decide_eq_true_eq]
    constructor
    · intro mem
      by_cases removed : edge.caller ∈ delta.removedEntities
      · exact Or.inr (Or.inl (mem_flatMap.2 ⟨edge.caller, removed, mem⟩))
      by_cases listed : delta.Lists edge
      · obtain ⟨other, otherListed, same⟩ := mem_map.1 listed
        have otherStored := (counts.listedStored other otherListed).1
        have callers : other.caller = edge.caller :=
          congrArg RelationEdgeIdentity.caller same
        rw [callers] at otherStored
        have equal := inj_on_of_nodup_map (nodup_edgesOf _ _) otherStored mem same
        exact Or.inr (Or.inr (equal ▸ otherListed))
      · exact Or.inl ⟨mem, removed, listed⟩
    · rintro (⟨mem, -⟩ | inOwned | listed)
      · exact mem
      · obtain ⟨id, -, here⟩ := mem_flatMap.1 inOwned
        exact (own here).symm ▸ here
      · exact (counts.listedStored edge listed).1

theorem perm_replayed :
    (applyDelta current delta).allRelations.Perm
      (current.allRelations.filter (fun edge => delta.Keeps edge) ++ delta.addedRelations) := by
  have stored := (nodup_allRelations current).of_map
  refine (perm_ext_iff_of_nodup (nodup_allRelations _).of_map ?_).2 fun edge => ?_
  · refine nodup_append.2 ⟨stored.filter _, counts.addedOnce.of_map, ?_⟩
    rintro edge inKept _ added rfl
    obtain ⟨mem, keeps⟩ := mem_filter.1 inKept
    exact counts.addedFresh edge added edge (mem_allRelations.1 mem) rfl (of_decide_eq_true keeps)
  · rw [mem_append, mem_filter, mem_allRelations, mem_allRelations,
      decide_eq_true_eq, edgesOf_applyDelta counts.addedOnce, mem_append, mem_filter,
      mem_filter]
    · simp only [decide_eq_true_eq, and_true]
      refine or_congr_left ?_
      by_cases removed : edge.caller ∈ delta.removedEntities
      · rw [if_pos (Or.inl removed)]
        exact iff_of_false (fun mem => not_mem_nil mem.1) fun mem => mem.2.1 removed
      by_cases renamed : edge.caller ∈ delta.renamedEntities.map RenamedEntity.oldId
      · rw [if_pos (Or.inr renamed)]
        obtain ⟨entity, mem, same⟩ := mem_map.1 renamed
        refine iff_of_false (fun mem => not_mem_nil mem.1) fun kept => kept.2.2 ?_
        exact counts.renamedCallers entity mem edge (same.symm ▸ kept.1)
      · rw [if_neg (not_or.2 ⟨removed, renamed⟩)]
        exact and_congr_right fun _ => (and_iff_right removed).symm
    · intro added mem other inOld stays _ same
      by_contra unlisted
      have callers : other.caller = added.caller := current.edgesFiled.caller_eq inOld
      exact counts.addedFresh added mem other inOld same ⟨callers.symm ▸ stays, unlisted⟩

omit [Sha256] in
theorem length_owned :
    (delta.removedEntities.flatMap (edgesOf current.resolvedRelationIndex)).length =
      LayeredSnapshotIndex.ownedByRemoved base delta := by
  rw [ownedByRemoved_eq, length_flatMap, length_flatMap]
  exact congrArg sum (map_congr_left counts.ownedAsInBase)

theorem relationCount :
    (applyDelta current delta).resolvedRelationCount +
        (LayeredSnapshotIndex.ownedByRemoved base delta + delta.removedRelations.length) =
      current.resolvedRelationCount + delta.addedRelations.length := by
  have before := counts.perm_parted.length_eq
  have after := counts.perm_replayed.length_eq
  rw [length_append, length_append, counts.length_owned] at before
  rw [length_append] at after
  rw [resolvedRelationCount_eq, resolvedRelationCount_eq]
  omega

theorem classifiedCount_applyDelta (classes : ExternalCallType) :
    classifiedCount (applyDelta current delta).allRelations classes +
        classifiedCount delta.removedRelations classes =
      classifiedCount current.allRelations classes +
        classifiedCount delta.addedRelations classes := by
  have respects : ∀ {l l' : List ResolvedRelation}, l.Perm l' →
      classifiedCount l classes = classifiedCount l' classes :=
    fun perm => (perm.filter _).length_eq
  have unclassified : classifiedCount
      (delta.removedEntities.flatMap (edgesOf current.resolvedRelationIndex)) classes =
        0 := by
    refine length_eq_zero_iff.2 (filter_eq_nil_iff.2 fun edge mem ofClass => ?_)
    obtain ⟨id, removed, here⟩ := mem_flatMap.1 mem
    have none := counts.ownedUnclassified id removed edge here
    rw [of_decide_eq_true ofClass] at none
    cases none
  have before := respects counts.perm_parted
  have after := respects counts.perm_replayed
  rw [classifiedCount_append, classifiedCount_append, unclassified] at before
  rw [classifiedCount_append] at after
  omega

end

end SnapshotDelta.CountsAsListed

end Edges

section Files

variable [Sha256] {delta : SnapshotDelta} {base current : RelationIndex}

theorem containsFile_applyDelta (noAddedFile : delta.addedFiles = []) (path : String) :
    (applyDelta current delta).containsFile path =
      ((current.fileRecords.eraseAll delta.removedFiles).lookup path).isSome := by
  have files : (applyAddedFiles (applyRemovedFiles current delta.removedFiles)
      delta.addedFiles).fileRecords = current.fileRecords.eraseAll delta.removedFiles := by
    rw [noAddedFile]
    show (delta.removedFiles.foldl applyRemovedFile current).fileRecords = _
    exact (foldl_hom fileRecords fun _ _ => rfl).symm
  rw [← files]
  exact isSome_fileRecords_applyDelta current delta path

theorem SnapshotDelta.CountsAsListed.fileCount (counts : delta.CountsAsListed base current) :
    (applyDelta current delta).fileCount + delta.removedFiles.length = current.fileCount := by
  have same : (applyDelta current delta).fileCount =
      (current.fileRecords.eraseAll delta.removedFiles).size :=
    size_congr (containsFile_applyDelta counts.noAddedFile)
  rw [same]
  exact size_eraseAll counts.filesOnce counts.filesRecorded

end Files

section Run

variable [Sha256]

/-- Every counter of a layered snapshot agrees with the materialized index, and no subtraction
goes below zero. -/
structure CountersExact (layered : LayeredSnapshotIndex) : Prop where
  functions : layered.functionCount = layered.materializeMergedIndex.functionCount
  relations : layered.resolvedRelationCount =
    layered.materializeMergedIndex.resolvedRelationCount
  files : layered.fileCount = layered.materializeMergedIndex.fileCount
  imports : layered.importCount = layered.materializeMergedIndex.importCount
  classified : ∀ classification,
    (layered.getClassificationStats.lookup classification).getD 0 =
      (layered.materializeMergedIndex.getClassificationStats.lookup classification).getD 0
  functions_nonneg : 0 ≤ layered.functionTally
  relations_nonneg : 0 ≤ layered.relationTally
  files_nonneg : 0 ≤ layered.fileTally
  imports_nonneg : 0 ≤ layered.importTally
  classified_nonneg : ∀ classification,
    classifiedCount (layered.deltas.flatMap SnapshotDelta.removedRelations) classification ≤
      classifiedCount layered.base.index.allRelations classification +
        classifiedCount (layered.deltas.flatMap SnapshotDelta.addedRelations) classification

/-- The sums are the counts of the materialized index, and its files are files of the base. -/
structure TalliesMatch (layered : LayeredSnapshotIndex) : Prop where
  functions : layered.functionTally = layered.materializeMergedIndex.functionCount
  relations : layered.relationTally = layered.materializeMergedIndex.resolvedRelationCount
  files : layered.fileTally = layered.materializeMergedIndex.fileCount
  imports : layered.importTally = layered.materializeMergedIndex.importCount
  classified : ∀ classification,
    classifiedCount layered.base.index.allRelations classification +
        classifiedCount (layered.deltas.flatMap SnapshotDelta.addedRelations) classification =
      classifiedCount (layered.deltas.flatMap SnapshotDelta.removedRelations) classification +
        classifiedCount layered.materializeMergedIndex.allRelations classification
  recorded : ∀ path, layered.materializeMergedIndex.containsFile path = true →
    layered.base.index.containsFile path = true

omit [Sha256] in
theorem lookup_getClassificationStats_getD (index : RelationIndex) (classes : ExternalCallType) :
    (index.getClassificationStats.lookup classes).getD 0 =
      classifiedCount index.allRelations classes := by
  rw [lookup_getClassificationStats]
  split_ifs with none
  · exact none.symm
  · rfl

theorem TalliesMatch.exact {layered : LayeredSnapshotIndex} (sums : TalliesMatch layered) :
    CountersExact layered where
  functions := by rw [LayeredSnapshotIndex.functionCount, sums.functions, Int.toNat_natCast]
  relations := by
    rw [LayeredSnapshotIndex.resolvedRelationCount, sums.relations, Int.toNat_natCast]
  files := by rw [LayeredSnapshotIndex.fileCount, sums.files, Int.toNat_natCast]
  imports := by rw [LayeredSnapshotIndex.importCount, sums.imports, Int.toNat_natCast]
  classified classification := by
    have counted := sums.classified classification
    have inBase := lookup_getClassificationStats_getD layered.base.index classification
    have adjusted : (layered.getClassificationStats.lookup classification).getD 0 =
        (layered.base.index.getClassificationStats.lookup classification).getD 0 +
            classifiedCount (layered.deltas.flatMap SnapshotDelta.addedRelations) classification -
          classifiedCount (layered.deltas.flatMap SnapshotDelta.removedRelations)
            classification := by
      unfold LayeredSnapshotIndex.getClassificationStats
      have lowered := @Overlay.lookup_foldl_untally _ _ _ ResolvedRelation.externalType
        ((layered.deltas.flatMap SnapshotDelta.addedRelations).foldl countClassified
          layered.base.getClassificationStats)
        (layered.deltas.flatMap SnapshotDelta.removedRelations) classification
      have raised := @Overlay.lookup_foldl_tally _ _ _ ResolvedRelation.externalType
        layered.base.getClassificationStats
        (layered.deltas.flatMap SnapshotDelta.addedRelations) classification
      change AList.lookup classification ((layered.deltas.flatMap
        SnapshotDelta.removedRelations).foldl discountClassified _) = _ at lowered
      change AList.lookup classification ((layered.deltas.flatMap
        SnapshotDelta.addedRelations).foldl countClassified _) = _ at raised
      have taken : ∀ (count : Option Nat) (lost : Nat),
          (count.map (· - lost)).getD 0 = count.getD 0 - lost := by
        intro count lost
        cases count with
        | none => exact (Nat.zero_sub lost).symm
        | some n => rfl
      rw [lowered, taken, raised]
      split_ifs with noneAdded
      · have none : classifiedCount (layered.deltas.flatMap SnapshotDelta.addedRelations)
            classification = 0 := noneAdded
        rw [none]
        rfl
      · rfl
    rw [adjusted, inBase, lookup_getClassificationStats_getD]
    omega
  functions_nonneg := sums.functions ▸ Int.natCast_nonneg _
  relations_nonneg := sums.relations ▸ Int.natCast_nonneg _
  files_nonneg := sums.files ▸ Int.natCast_nonneg _
  imports_nonneg := sums.imports ▸ Int.natCast_nonneg _
  classified_nonneg classification := by
    have counted := sums.classified classification
    omega

theorem talliesMatch_base (base : RelationSnapshotIndex) : TalliesMatch ⟨base, []⟩ := by
  have copied : (LayeredSnapshotIndex.materializeMergedIndex ⟨base, []⟩).allRelations.Perm
      base.index.allRelations := by
    refine (perm_ext_iff_of_nodup (nodup_allRelations _).of_map
      (nodup_allRelations _).of_map).2 fun edge => ?_
    rw [mem_allRelations, mem_allRelations]
    show edge ∈ ((base.index.resolvedRelationIndex.copy.lookup edge.caller).getD ∅).edges ↔ _
    rw [lookup_copy]
    rfl
  constructor
  · show (base.index.functionIndex.size : Int) = ((copyTables base.index).functionIndex.size : Nat)
    rw [functionIndex_copyTables, size_copy]
  · show (base.index.resolvedRelationCount : Int) = _
    rw [resolvedRelationCount_eq, resolvedRelationCount_eq, copied.length_eq]
  · show (base.index.fileRecords.size : Int) = (base.index.fileRecords.copy.size : Nat)
    rw [size_copy]
  · show (base.index.fileRecords.size : Int) = (base.index.fileRecords.copy.size : Nat)
    rw [size_copy]
  · intro classification
    have same := (copied.filter fun edge =>
      edge.externalType = some classification).length_eq
    show _ + 0 = 0 + _
    rw [Nat.add_zero, Nat.zero_add]
    exact same.symm
  · intro path recorded
    change (base.index.fileRecords.copy.lookup path).isSome = true at recorded
    rwa [lookup_copy] at recorded

theorem TalliesMatch.publish {layered : LayeredSnapshotIndex} {delta : SnapshotDelta}
    (sums : TalliesMatch layered)
    (counts : delta.CountsAsListed layered.base.index layered.materializeMergedIndex) :
    TalliesMatch (layered.publish delta) := by
  let merged := layered.deltas.foldl applyDelta (copyTables layered.base.index)
  -- the reverse tables, rebuilt last, are not counted
  have counted : delta.CountsAsListed layered.base.index merged := { counts with }
  have next : (layered.publish delta).deltas.foldl applyDelta
      (copyTables (layered.publish delta).base.index) = applyDelta merged delta := by
    show (layered.deltas ++ [delta]).foldl applyDelta _ = _
    rw [foldl_append]
    rfl
  have flat : ∀ (field : SnapshotDelta → List ResolvedRelation) classification,
      classifiedCount ((layered.publish delta).deltas.flatMap field) classification =
        classifiedCount (layered.deltas.flatMap field) classification +
          classifiedCount (field delta) classification := by
    intro field classification
    show classifiedCount ((layered.deltas ++ [delta]).flatMap field) classification = _
    rw [flatMap_append, flatMap_singleton, classifiedCount_append]
  have inBase : delta.removedFiles.filter layered.base.index.containsFile =
      delta.removedFiles :=
    filter_eq_self.2 fun path mem => sums.recorded path (counts.filesRecorded path mem)
  constructor
  · have tally : (layered.publish delta).functionTally =
        layered.functionTally + delta.addedEntities.length - delta.removedEntities.length :=
      foldl_append
    have before : layered.functionTally = (merged.functionCount : Nat) := sums.functions
    have step := counted.functionCount
    show (layered.publish delta).functionTally =
      (functionCount ((layered.publish delta).deltas.foldl applyDelta _) : Nat)
    rw [next, tally, before]
    omega
  · have tally : (layered.publish delta).relationTally = layered.relationTally -
            LayeredSnapshotIndex.ownedByRemoved layered.base.index delta -
          delta.removedRelations.length + delta.addedRelations.length := foldl_append
    have before : layered.relationTally = (merged.resolvedRelationCount : Nat) := sums.relations
    have step := counted.relationCount
    show (layered.publish delta).relationTally =
      (resolvedRelationCount ((layered.publish delta).deltas.foldl applyDelta _) :
        Nat)
    rw [next, tally, before]
    omega
  · have tally : (layered.publish delta).fileTally =
        layered.fileTally - (delta.removedFiles.filter layered.base.index.containsFile).length +
          delta.addedFiles.length := foldl_append
    have before : layered.fileTally = (merged.fileCount : Nat) := sums.files
    have step := counted.fileCount
    show (layered.publish delta).fileTally =
      (fileCount ((layered.publish delta).deltas.foldl applyDelta _) : Nat)
    rw [next, tally, before, inBase, counts.noAddedFile, length_nil]
    omega
  · have tally : (layered.publish delta).importTally = layered.importTally -
          (delta.removedFiles.filter layered.base.index.containsFile).length := foldl_append
    have before : layered.importTally = (merged.fileCount : Nat) := sums.imports
    have step := counted.fileCount
    show (layered.publish delta).importTally =
      (fileCount ((layered.publish delta).deltas.foldl applyDelta _) : Nat)
    rw [next, tally, before, inBase]
    omega
  · intro classification
    have before := sums.classified classification
    change _ = _ + classifiedCount merged.allRelations classification at before
    have step := counted.classifiedCount_applyDelta classification
    show _ = _ + classifiedCount (allRelations
      ((layered.publish delta).deltas.foldl applyDelta _)) classification
    rw [next, flat, flat]
    show classifiedCount layered.base.index.allRelations classification + _ = _
    omega
  · intro path recorded
    change containsFile ((layered.publish delta).deltas.foldl applyDelta _) path = true at recorded
    rw [next, containsFile_applyDelta counts.noAddedFile, lookup_eraseAll] at recorded
    split_ifs at recorded with removed
    · cases recorded
    · exact sums.recorded path recorded

/-- Along a chain of deltas that count as listed, every counter of every layered snapshot is the
count of the materialized index, and none goes below zero. -/
theorem countersExact_run {base : RelationSnapshotIndex} {deltas : List SnapshotDelta}
    (every : EveryStep LayeredSnapshotIndex.publish
      (fun layered delta =>
        delta.CountsAsListed layered.base.index layered.materializeMergedIndex)
      ⟨base, []⟩ deltas) :
    ∀ reached, reached <+: deltas → CountersExact ⟨base, reached⟩ := by
  intro reached initial
  have sums := invariant (fun _ _ counts sums => TalliesMatch.publish sums counts)
    (talliesMatch_base base) (every.of_prefix initial)
  rw [LayeredSnapshotIndex.foldl_publish] at sums
  exact sums.exact

end Run

section Sample

def callerRemovedAfterCallAdded : LayeredSnapshotIndex :=
  let _ := sampleSha256
  let base := RelationSnapshotIndex.fromIndexShared silentMain
  let added := computeDelta printingMain silentMain 2 1 "" none
  let current := LayeredSnapshotIndex.materializeMergedIndex ⟨base, [added]⟩
  ⟨base, [added, computeDelta RelationIndex.new current 3 2 "" none]⟩

/-- The call that went with its caller is still counted. -/
theorem droppedCall_stillCounted : ¬@CountersExact sampleSha256 callerRemovedAfterCallAdded := by
  let _ := sampleSha256
  intro counters
  exact absurd counters.relations (by decide +kernel)

/-- A delta that only removes a call counts as listed. -/
theorem countersExact_callRemoved :
    @CountersExact sampleSha256 (overlaid silentMain printingMain) := by
  let _ := sampleSha256
  have computed : computeDelta silentMain printingMain 2 1 "" none =
      { epoch := 2
        baseEpoch := 1
        configFingerprint := ""
        removedRelations := [printing] } := by decide
  have every : EveryStep LayeredSnapshotIndex.publish
      (fun layered delta =>
        delta.CountsAsListed layered.base.index layered.materializeMergedIndex)
      ⟨.fromIndexShared printingMain, []⟩ [computeDelta silentMain printingMain 2 1 "" none] := by
    refine ⟨?_, trivial⟩
    rw [computed]
    constructor
    · exact nodup_nil
    · exact fun _ mem => absurd mem not_mem_nil
    · exact nodup_nil
    · exact fun _ mem => absurd mem not_mem_nil
    · decide +kernel
    · exact nodup_singleton _
    · exact fun _ mem => absurd mem not_mem_nil
    · exact nodup_nil
    · exact fun _ mem => absurd mem not_mem_nil
    · exact fun _ mem => absurd mem not_mem_nil
    · exact fun _ mem => absurd mem not_mem_nil
    · rfl
    · exact nodup_nil
    · exact fun _ mem => absurd mem not_mem_nil
  exact countersExact_run every _ (prefix_refl _)

end Sample

end ContextEngine

/- digest: When a compaction is a faithful copy, and what it leaves when it runs again. -/

import ContextEngine.Storage.Compaction

set_option autoImplicit false

namespace ContextEngine

open List Runs UniqueRows

namespace IndexRows

section Statement

variable (decode : String → Option (List String)) (encode : List String → String)
  (before after : IndexRows) (sourceEpoch targetEpoch : Int) (excludedPaths : List PathBuf)

/-- The paths of the files that are copied. -/
def isSource (path : PathBuf) : Bool := path ∈ before.sourcePaths sourceEpoch excludedPaths

/-- The target has the rows of the source paths, in their order and in every column, under new row
ids and the new epoch. -/
def Copies : Prop :=
  let isSource := before.isSource sourceEpoch excludedPaths
  ∃ fileId entityId : Nat → Nat,
    (∀ a ∈ before.fileIdsOf sourceEpoch isSource, ∀ b ∈ before.fileIdsOf sourceEpoch isSource,
      fileId a = fileId b → a = b) ∧
    (∀ a ∈ before.entityIdsOf sourceEpoch isSource, ∀ b ∈ before.entityIdsOf sourceEpoch isSource,
      entityId a = entityId b → a = b) ∧
    after.filesOf targetEpoch isSource = (before.filesOf sourceEpoch isSource).map
      (fun f => { f with id := fileId f.id, epoch := targetEpoch }) ∧
    after.entitiesOf targetEpoch isSource = (before.entitiesOf sourceEpoch isSource).map
      (fun e => { e with
        id := entityId e.id
        fileId := fileId e.fileId
        parentId := e.parentId.map entityId
        epoch := targetEpoch }) ∧
    List.Forall₂ (fun m copy => copy = { m with
        entityId := entityId m.entityId
        epoch := targetEpoch
        qdrantPointIds := copy.qdrantPointIds
        bm25DocIds := copy.bm25DocIds } ∧
      SameIdsButEpoch decode m.qdrantPointIds copy.qdrantPointIds ∧
      SameIdsButEpoch decode m.bm25DocIds copy.bm25DocIds)
      (before.mappingsOf sourceEpoch isSource) (after.mappingsOf targetEpoch isSource) ∧
    after.chunksOf targetEpoch isSource = (before.chunksOf sourceEpoch isSource).map
      (fun c => { c with epoch := targetEpoch })

def SameRows (inScope : PathBuf → Bool) : Prop :=
  after.filesOf targetEpoch inScope = before.filesOf targetEpoch inScope ∧
    after.entitiesOf targetEpoch inScope = before.entitiesOf targetEpoch inScope ∧
    after.mappingsOf targetEpoch inScope = before.mappingsOf targetEpoch inScope ∧
    after.chunksOf targetEpoch inScope = before.chunksOf targetEpoch inScope

def SameButRowIds : Prop :=
  ∃ fileId entityId : Nat → Nat, fileId.Injective ∧ entityId.Injective ∧
    after.files = before.files.map (fun f => { f with id := fileId f.id }) ∧
    after.entities = before.entities.map (fun e => { e with
      id := entityId e.id
      fileId := fileId e.fileId
      parentId := e.parentId.map entityId }) ∧
    after.mappings = before.mappings.map (fun m => { m with entityId := entityId m.entityId }) ∧
    after.chunks = before.chunks

/-- The compaction succeeds, copies the source, keeps the hidden paths, and changes nothing when it
runs again. -/
def Faithful : Prop :=
  ∃ after, before.materializeSqliteGeneration decode encode sourceEpoch targetEpoch
      excludedPaths = .ok after ∧
    Copies decode before after sourceEpoch targetEpoch excludedPaths ∧
    SameRows before after targetEpoch (fun path => path ∈ excludedPaths) ∧
    ∃ again, after.materializeSqliteGeneration decode encode sourceEpoch targetEpoch
        excludedPaths = .ok again ∧
      SameButRowIds after again

/-- What the copy is faithful for: statements within the limit of parameters, categories that fit a
byte, entities without overload discriminator, parents that are copied too, chunks of copied files
with defaults in the columns that are left out, and no link from a hidden path of the target into a
path that is copied. -/
structure Copyable : Prop where
  exclusions : 3 + excludedPaths.length ≤ maxVariableNumber
  copiedFiles : 2 + (before.sourcePaths sourceEpoch excludedPaths).length ≤ maxVariableNumber
  categories : ∀ f ∈ before.filesOf sourceEpoch (isCopied excludedPaths),
    0 ≤ f.category ∧ f.category ≤ 255
  overloads : ∀ e ∈ before.entitiesOf sourceEpoch (isCopied excludedPaths),
    e.overloadDiscriminator = ""
  parents : ∀ e ∈ before.entitiesOf sourceEpoch (isCopied excludedPaths), ∀ parent,
    e.parentId = some parent →
      parent ∈ before.entityIdsOf sourceEpoch (isCopied excludedPaths)
  chunkFiles : ∀ c ∈ before.chunksOf sourceEpoch (isCopied excludedPaths),
    c.filePath ∈ before.sourcePaths sourceEpoch excludedPaths
  chunkColumns : ∀ c ∈ before.chunksOf sourceEpoch (isCopied excludedPaths),
    copyChunk c.epoch c = c
  hiddenParents : ∀ e ∈ before.entitiesOf targetEpoch (fun path => path ∈ excludedPaths),
    ∀ parent, e.parentId = some parent →
      parent ∉ before.entityIdsIn (before.fileIdsOf targetEpoch fun path =>
        path ∈ before.sourcePaths sourceEpoch excludedPaths)

end Statement

section Scope

variable {rows : IndexRows} {epoch : Int} {p q : PathBuf → Bool}

theorem entitiesOf_congr (same : rows.filesOf epoch p = rows.filesOf epoch q) :
    rows.entitiesOf epoch p = rows.entitiesOf epoch q := by
  rw [entitiesOf, entitiesOf, fileIdsOf, fileIdsOf, same]

theorem mappingsOf_congr (same : rows.filesOf epoch p = rows.filesOf epoch q) :
    rows.mappingsOf epoch p = rows.mappingsOf epoch q := by
  rw [mappingsOf, mappingsOf, entityIdsOf, entityIdsOf, entitiesOf_congr same]

theorem mem_filesOf {f : FileRow} :
    f ∈ rows.filesOf epoch p ↔ f ∈ rows.files ∧ f.epoch = epoch ∧ p f.path = true := by
  rw [filesOf, mem_filter, decide_eq_true_iff]

theorem mem_entitiesOf {e : EntityRow} : e ∈ rows.entitiesOf epoch p ↔
    e ∈ rows.entities ∧ e.epoch = epoch ∧ e.fileId ∈ rows.fileIdsOf epoch p := by
  rw [entitiesOf, mem_filter, decide_eq_true_iff]

theorem mem_mappingsOf {m : DetailMappingRow} : m ∈ rows.mappingsOf epoch p ↔
    m ∈ rows.mappings ∧ m.epoch = epoch ∧ m.entityId ∈ rows.entityIdsOf epoch p := by
  rw [mappingsOf, mem_filter, decide_eq_true_iff]

theorem mem_chunksOf {c : ChunkRow} :
    c ∈ rows.chunksOf epoch p ↔ c ∈ rows.chunks ∧ c.epoch = epoch ∧ p c.filePath = true := by
  rw [chunksOf, mem_filter, decide_eq_true_iff]

theorem filesOf_isSource (source : Int) (excluded : List PathBuf) :
    rows.filesOf source (rows.isSource source excluded) =
      rows.filesOf source (isCopied excluded) := by
  rw [filesOf, filesOf]
  refine filter_congr fun f mem => decide_eq_decide.2 (and_congr_right fun ofSource => ?_)
  rw [isSource, decide_eq_true_iff, sourcePaths, mem_map]
  constructor
  · rintro ⟨other, otherMem, same⟩
    exact same ▸ (mem_filesOf.1 otherMem).2.2
  · exact fun inScope => ⟨f, mem_filesOf.2 ⟨mem, ofSource, inScope⟩, rfl⟩

end Scope

private theorem filter_of_all {link : Option Nat} {test : Nat → Bool}
    (all : ∀ parent, link = some parent → test parent = true) : link.filter test = link := by
  cases link with
  | none => rfl
  | some parent => exact if_pos (all parent rfl)

theorem unlink_of_kept {deleted : List Nat} {e : EntityRow}
    (kept : ∀ parent, e.parentId = some parent → parent ∉ deleted) : unlink deleted e = e := by
  rw [unlink, filter_of_all fun parent linked => decide_eq_true (kept parent linked)]

namespace Constraints

variable {rows : IndexRows} {epoch target : Int} {p : PathBuf → Bool} {paths : List PathBuf}

section

variable (valid : rows.Constraints)

include valid

theorem mem_fileIdsOf {f : FileRow} (mem : f ∈ rows.files) :
    f.id ∈ rows.fileIdsOf epoch p ↔ f.epoch = epoch ∧ p f.path = true := by
  rw [fileIdsOf, mem_map]
  constructor
  · rintro ⟨other, otherMem, same⟩
    obtain ⟨listed, inScope⟩ := mem_filesOf.1 otherMem
    have equal := inj_on_of_nodup_map valid.fileIds listed mem same
    exact equal ▸ inScope
  · exact fun inScope => ⟨f, mem_filesOf.2 ⟨mem, inScope⟩, rfl⟩

variable {e : EntityRow}

theorem mem_entityIdsIn (mem : e ∈ rows.entities)
    (fileIds : List Nat) : e.id ∈ rows.entityIdsIn fileIds ↔ e.fileId ∈ fileIds := by
  rw [entityIdsIn, mem_map]
  constructor
  · rintro ⟨other, otherMem, same⟩
    obtain ⟨listed, inFile⟩ := mem_filter.1 otherMem
    have equal := inj_on_of_nodup_map valid.entityIds listed mem same
    exact equal ▸ of_decide_eq_true inFile
  · exact fun inFile => ⟨e, mem_filter.2 ⟨mem, decide_eq_true inFile⟩, rfl⟩

theorem fileId_le (mem : e ∈ rows.entities) :
    e.fileId ≤ rows.fileSequence := by
  obtain ⟨f, fileMem, same⟩ := valid.entityFiles e mem
  exact same ▸ valid.fileSequence f fileMem

theorem entityId_le {m : DetailMappingRow}
    (mem : m ∈ rows.mappings) : m.entityId ≤ rows.entitySequence := by
  obtain ⟨e, entityMem, same⟩ := valid.mappingEntities m mem
  exact same ▸ valid.entitySequence e entityMem

theorem parent_le (mem : e ∈ rows.entities)
    {parent : Nat} (linked : e.parentId = some parent) : parent ≤ rows.entitySequence := by
  obtain ⟨other, otherMem, same⟩ := valid.parents e mem parent linked
  exact same ▸ valid.entitySequence other otherMem

end

section Clear

section

variable (valid : rows.Constraints)
  (spared : ∀ path, p path = true → epoch = target → path ∉ paths)

include valid spared

theorem filesOf_clear :
    (rows.clearTargetRowsForPaths target paths).filesOf epoch p = rows.filesOf epoch p := by
  show filter _ (filter _ _) = _
  rw [filter_filter, filesOf]
  refine filter_congr fun f mem => ?_
  rw [Bool.eq_iff_iff, Bool.and_eq_true, decide_eq_true_iff, decide_eq_true_iff,
    valid.mem_fileIdsOf mem, decide_eq_true_iff]
  constructor
  · exact And.left
  · rintro ⟨ofEpoch, inScope⟩
    exact ⟨⟨ofEpoch, inScope⟩, fun deleted =>
      spared _ inScope (ofEpoch.symm.trans deleted.1) deleted.2⟩

theorem fileIdsOf_clear :
    (rows.clearTargetRowsForPaths target paths).fileIdsOf epoch p = rows.fileIdsOf epoch p := by
  rw [fileIdsOf, valid.filesOf_clear spared, fileIdsOf]

theorem not_mem_deleted {e : EntityRow} (mem : e ∈ rows.entitiesOf epoch p) :
    e.id ∉ rows.entityIdsIn (rows.fileIdsOf target fun path => path ∈ paths) := by
  obtain ⟨listed, _, inScope⟩ := mem_entitiesOf.1 mem
  rw [valid.mem_entityIdsIn listed]
  obtain ⟨f, fileMem, same⟩ := valid.entityFiles e listed
  rw [← same, valid.mem_fileIdsOf fileMem] at inScope ⊢
  exact fun deleted => spared _ inScope.2 (inScope.1.symm.trans deleted.1)
    (of_decide_eq_true deleted.2)

theorem entitiesOf_clear :
    (rows.clearTargetRowsForPaths target paths).entitiesOf epoch p =
      (rows.entitiesOf epoch p).map (unlink
        (rows.entityIdsIn (rows.fileIdsOf target fun path => path ∈ paths))) := by
  rw [entitiesOf, valid.fileIdsOf_clear spared]
  show filter _ (map _ (filter _ _)) = _
  rw [filter_map, filter_filter, entitiesOf]
  congr 1
  refine filter_congr fun e mem => ?_
  rw [Bool.eq_iff_iff, Bool.and_eq_true, Function.comp_apply, decide_eq_true_iff,
    decide_eq_true_iff, decide_eq_true_iff]
  exact ⟨And.left, fun inScope =>
    ⟨inScope, valid.not_mem_deleted spared (mem_entitiesOf.2 ⟨mem, inScope⟩)⟩⟩

theorem entityIdsOf_clear :
    (rows.clearTargetRowsForPaths target paths).entityIdsOf epoch p =
      rows.entityIdsOf epoch p := by
  rw [entityIdsOf, valid.entitiesOf_clear spared, map_map, entityIdsOf]
  rfl

theorem mappingsOf_clear :
    (rows.clearTargetRowsForPaths target paths).mappingsOf epoch p =
      rows.mappingsOf epoch p := by
  rw [mappingsOf, valid.entityIdsOf_clear spared]
  show filter _ (filter _ _) = _
  rw [filter_filter, mappingsOf]
  refine filter_congr fun m mem => ?_
  rw [Bool.eq_iff_iff, Bool.and_eq_true, decide_eq_true_iff, decide_eq_true_iff]
  refine ⟨And.left, fun inScope => ⟨inScope, ?_⟩⟩
  obtain ⟨e, entityMem, same⟩ := mem_map.1 inScope.2
  exact same ▸ valid.not_mem_deleted spared entityMem

end

theorem chunksOf_clear (spared : ∀ path, p path = true → epoch = target → path ∉ paths) :
    (rows.clearTargetRowsForPaths target paths).chunksOf epoch p = rows.chunksOf epoch p := by
  show filter _ (filter _ _) = _
  rw [filter_filter, chunksOf]
  refine filter_congr fun c mem => ?_
  rw [Bool.eq_iff_iff, Bool.and_eq_true, decide_eq_true_iff, decide_eq_true_iff]
  exact ⟨And.left, fun inScope => ⟨inScope, fun deleted =>
    spared _ inScope.2 (inScope.1.symm.trans deleted.1) deleted.2⟩⟩

theorem clear (valid : rows.Constraints) (target : Int) (paths : List PathBuf) :
    (rows.clearTargetRowsForPaths target paths).Constraints := by
  set fileIds := rows.fileIdsOf target fun path => path ∈ paths with isFileIds
  set deleted := rows.entityIdsIn fileIds with isDeleted
  have kept : ∀ e ∈ (rows.clearTargetRowsForPaths target paths).entities,
      ∃ old ∈ rows.entities, old.id ∉ deleted ∧ e = unlink deleted old := by
    intro e mem
    obtain ⟨old, oldMem, rfl⟩ := mem_map.1 mem
    obtain ⟨listed, spared⟩ := mem_filter.1 oldMem
    exact ⟨old, listed, of_decide_eq_true spared, rfl⟩
  have keeps : ∀ old ∈ rows.entities, old.id ∉ deleted →
      unlink deleted old ∈ (rows.clearTargetRowsForPaths target paths).entities :=
    fun old mem spared => mem_map.2
      ⟨old, mem_filter.2 ⟨mem, decide_eq_true spared⟩, rfl⟩
  constructor
  · exact valid.fileIds.sublist (filter_sublist.map _)
  · exact fun f mem => valid.fileSequence f (mem_of_mem_filter mem)
  · exact valid.fileKeys.filter _
  · show ((map _ (filter _ _)).map EntityRow.id).Nodup
    rw [map_map]
    exact valid.entityIds.sublist (filter_sublist.map EntityRow.id)
  · intro e mem
    obtain ⟨old, listed, _, rfl⟩ := kept e mem
    exact valid.entitySequence old listed
  · exact pairwise_map.2 (valid.entityKeys.filter _)
  · intro e mem
    obtain ⟨old, listed, spared, rfl⟩ := kept e mem
    obtain ⟨f, fileMem, same⟩ := valid.entityFiles old listed
    refine ⟨f, mem_filter.2 ⟨fileMem, decide_eq_true fun gone => spared ?_⟩, same⟩
    rw [isDeleted, valid.mem_entityIdsIn listed, ← same]
    exact gone
  · intro e mem parent linked
    obtain ⟨old, listed, _, rfl⟩ := kept e mem
    obtain ⟨link, spared⟩ := Option.filter_eq_some_iff.1 linked
    obtain ⟨other, otherMem, rfl⟩ := valid.parents old listed parent link
    exact ⟨unlink deleted other, keeps other otherMem (of_decide_eq_true spared), rfl⟩
  · exact valid.mappingKeys.filter _
  · intro m mem
    obtain ⟨listed, spared⟩ := mem_filter.1 mem
    obtain ⟨e, entityMem, same⟩ := valid.mappingEntities m listed
    refine ⟨unlink deleted e, keeps e entityMem ?_, same⟩
    rw [same]
    exact of_decide_eq_true spared
  · exact valid.chunkKeys.filter _

end Clear

end Constraints

section Success

variable {decode : String → Option (List String)} {encode : List String → String}
  {rows after : IndexRows} {source target : Int} {inScope : PathBuf → Bool}

/-- The copies that the unique keys take. -/
structure CopiesFit (decode : String → Option (List String)) (encode : List String → String)
    (rows : IndexRows) (sourceEpoch targetEpoch : Int) (inScope : PathBuf → Bool) : Prop where
  files : Fits FileRow.Clash rows.files
    ((rows.filesOf sourceEpoch inScope).map (rows.copyFile sourceEpoch targetEpoch inScope))
  entities : Fits EntityRow.Clash rows.entities
    ((rows.entitiesOf sourceEpoch inScope).map (rows.copyEntity sourceEpoch targetEpoch inScope))
  mappings : Fits DetailMappingRow.Clash rows.mappings ((rows.mappingsOf sourceEpoch inScope).map
    (rows.copyMapping decode encode sourceEpoch targetEpoch inScope))
  chunks : Fits ChunkRow.Clash rows.chunks
    ((rows.chunksOf sourceEpoch inScope).map (copyChunk targetEpoch))

theorem bindVariables_eq_ok_iff {count : Nat} {done : Unit} :
    bindVariables count = .ok done ↔ count ≤ maxVariableNumber := by
  unfold bindVariables
  split_ifs with fits
  · exact iff_of_true rfl fits
  · exact iff_of_false (fun failed => by cases failed) fits

/-- The copy succeeds exactly when the categories are bytes, the last statement has not too many
parameters and the copies fit. -/
theorem insertCopies_eq_ok_iff {excluded : Nat} :
    rows.insertCopies decode encode source target inScope excluded = .ok after ↔
      3 + excluded ≤ maxVariableNumber ∧
      (∀ f ∈ rows.filesOf source inScope, 0 ≤ f.category ∧ f.category ≤ 255) ∧
      CopiesFit decode encode rows source target inScope ∧
      after = rows.withCopies decode encode source target inScope := by
  rw [insertCopies]
  split_ifs with outside
  · constructor
    · exact fun failed => by cases failed
    · rintro ⟨_, bytes, _⟩
      obtain ⟨f, mem, range⟩ := outside
      have byte := bytes f mem
      omega
  · have bytes : ∀ f ∈ rows.filesOf source inScope, 0 ≤ f.category ∧ f.category ≤ 255 := by
      intro f mem
      have inside : ¬ (f.category < 0 ∨ 255 < f.category) := fun range => outside ⟨f, mem, range⟩
      omega
    constructor
    · intro done
      rw [bind_eq_ok] at done
      obtain ⟨files, filesDone, done⟩ := done
      rw [bind_eq_ok] at done
      obtain ⟨entities, entitiesDone, done⟩ := done
      rw [bind_eq_ok] at done
      obtain ⟨mappings, mappingsDone, done⟩ := done
      rw [bind_eq_ok] at done
      obtain ⟨_, bound, done⟩ := done
      rw [bind_eq_ok] at done
      obtain ⟨chunks, chunksDone, done⟩ := done
      obtain ⟨fileFit, rfl⟩ := insertAll_eq_ok_iff.1 filesDone
      obtain ⟨entityFit, rfl⟩ := insertAll_eq_ok_iff.1 entitiesDone
      obtain ⟨mappingFit, rfl⟩ := insertAll_eq_ok_iff.1 mappingsDone
      obtain ⟨chunkFit, rfl⟩ := insertAll_eq_ok_iff.1 chunksDone
      cases done
      exact ⟨bindVariables_eq_ok_iff.1 bound, bytes, ⟨fileFit, entityFit, mappingFit, chunkFit⟩,
        rfl⟩
    · rintro ⟨bound, _, fit, rfl⟩
      rw [bind_eq_ok]
      refine ⟨_, insertAll_eq_ok_iff.2 ⟨fit.files, rfl⟩, ?_⟩
      rw [bind_eq_ok]
      refine ⟨_, insertAll_eq_ok_iff.2 ⟨fit.entities, rfl⟩, ?_⟩
      rw [bind_eq_ok]
      refine ⟨_, insertAll_eq_ok_iff.2 ⟨fit.mappings, rfl⟩, ?_⟩
      rw [bind_eq_ok]
      refine ⟨(), bindVariables_eq_ok_iff.2 bound, ?_⟩
      rw [bind_eq_ok]
      exact ⟨_, insertAll_eq_ok_iff.2 ⟨fit.chunks, rfl⟩, rfl⟩

theorem materializeSqliteGeneration_eq_ok_iff {excludedPaths : List PathBuf} :
    rows.materializeSqliteGeneration decode encode source target excludedPaths = .ok after ↔
      2 + (rows.sourcePaths source excludedPaths).length ≤ maxVariableNumber ∧
      (rows.cleared source target excludedPaths).insertCopies decode encode source target
        (isCopied excludedPaths) excludedPaths.length = .ok after := by
  rw [materializeSqliteGeneration, bind_eq_ok]
  constructor
  · rintro ⟨_, _, done⟩
    obtain ⟨_, bound, inserted⟩ := bind_eq_ok.1 done
    exact ⟨bindVariables_eq_ok_iff.1 bound, inserted⟩
  · rintro ⟨bound, inserted⟩
    have exclusions := (insertCopies_eq_ok_iff.1 inserted).1
    refine ⟨(), bindVariables_eq_ok_iff.2 (by omega), bind_eq_ok.2 ⟨(), ?_, inserted⟩⟩
    exact bindVariables_eq_ok_iff.2 bound

end Success

namespace Constraints

variable {rows : IndexRows} {decode : String → Option (List String)}
  {encode : List String → String} {epoch source target : Int}
  {inScope p : PathBuf → Bool}

theorem fileIdsOf_le (valid : rows.Constraints) {id : Nat}
    (mem : id ∈ rows.fileIdsOf epoch p) : id ≤ rows.fileSequence := by
  obtain ⟨f, fileMem, rfl⟩ := mem_map.1 mem
  exact valid.fileSequence f (mem_filesOf.1 fileMem).1

theorem entityIdsOf_le (valid : rows.Constraints) {id : Nat}
    (mem : id ∈ rows.entityIdsOf epoch p) : id ≤ rows.entitySequence := by
  obtain ⟨e, entityMem, rfl⟩ := mem_map.1 mem
  exact valid.entitySequence e (mem_entitiesOf.1 entityMem).1

section OutOfScope

private theorem filter_append_of_none {Row : Type} {hit : Row → Bool} {stored added : List Row}
    (none : ∀ row ∈ added, ¬ hit row = true) :
    (stored ++ added).filter hit = stored.filter hit := by
  rw [filter_append, filter_eq_nil_iff.2 none, append_nil]

private theorem filter_append_of_all {Row : Type} {hit : Row → Bool} {stored added : List Row}
    (none : stored.filter hit = []) (all : ∀ row ∈ added, hit row = true) :
    (stored ++ added).filter hit = added := by
  rw [filter_append, none, nil_append, filter_eq_self.2 all]

theorem filesOf_withCopies
    (out : ∀ f ∈ rows.filesOf source inScope, target = epoch → p f.path = false) :
    (rows.withCopies decode encode source target inScope).filesOf epoch p =
      rows.filesOf epoch p := by
  refine filter_append_of_none fun copy mem => ?_
  obtain ⟨f, fileMem, rfl⟩ := mem_map.1 mem
  rw [decide_eq_true_iff]
  rintro ⟨same, hit⟩
  exact Bool.false_ne_true ((out f fileMem same).symm.trans hit)

theorem entitiesOf_withCopies (valid : rows.Constraints)
    (out : ∀ f ∈ rows.filesOf source inScope, target = epoch → p f.path = false) :
    (rows.withCopies decode encode source target inScope).entitiesOf epoch p =
      rows.entitiesOf epoch p := by
  rw [entitiesOf, fileIdsOf, filesOf_withCopies out]
  refine filter_append_of_none fun copy mem => ?_
  obtain ⟨e, entityMem, rfl⟩ := mem_map.1 mem
  rw [decide_eq_true_iff]
  exact fun hit => ne_copyId (valid.fileIdsOf_le hit.2) rfl

theorem mappingsOf_withCopies (valid : rows.Constraints)
    (out : ∀ f ∈ rows.filesOf source inScope, target = epoch → p f.path = false) :
    (rows.withCopies decode encode source target inScope).mappingsOf epoch p =
      rows.mappingsOf epoch p := by
  rw [mappingsOf, entityIdsOf, valid.entitiesOf_withCopies out]
  refine filter_append_of_none fun copy mem => ?_
  obtain ⟨m, mappingMem, rfl⟩ := mem_map.1 mem
  rw [decide_eq_true_iff]
  exact fun hit => ne_copyId (valid.entityIdsOf_le hit.2) rfl

theorem chunksOf_withCopies
    (out : ∀ c ∈ rows.chunksOf source inScope, target = epoch → p c.filePath = false) :
    (rows.withCopies decode encode source target inScope).chunksOf epoch p =
      rows.chunksOf epoch p := by
  refine filter_append_of_none fun copy mem => ?_
  obtain ⟨c, chunkMem, rfl⟩ := mem_map.1 mem
  rw [decide_eq_true_iff]
  rintro ⟨same, hit⟩
  exact Bool.false_ne_true ((out c chunkMem same).symm.trans hit)

end OutOfScope

section InScope

theorem filesOf_copies (free : rows.filesOf target p = [])
    (covers : ∀ f ∈ rows.filesOf source inScope, p f.path = true) :
    (rows.withCopies decode encode source target inScope).filesOf target p =
      (rows.filesOf source inScope).map (rows.copyFile source target inScope) := by
  refine filter_append_of_all free fun copy mem => ?_
  obtain ⟨f, fileMem, rfl⟩ := mem_map.1 mem
  exact decide_eq_true ⟨rfl, covers f fileMem⟩

theorem fileIdsOf_copies (free : rows.filesOf target p = [])
    (covers : ∀ f ∈ rows.filesOf source inScope, p f.path = true) :
    (rows.withCopies decode encode source target inScope).fileIdsOf target p =
      (rows.fileIdsOf source inScope).map
        (copyId rows.fileSequence (rows.fileIdsOf source inScope)) := by
  rw [fileIdsOf, filesOf_copies free covers, fileIdsOf, map_map, map_map]
  rfl

section

variable (valid : rows.Constraints)
  (free : rows.filesOf target p = [])
  (covers : ∀ f ∈ rows.filesOf source inScope, p f.path = true)

include valid free covers

theorem entitiesOf_copies :
    (rows.withCopies decode encode source target inScope).entitiesOf target p =
      (rows.entitiesOf source inScope).map (rows.copyEntity source target inScope) := by
  rw [entitiesOf, fileIdsOf_copies free covers]
  refine filter_append_of_all (filter_eq_nil_iff.2 fun e mem hit => ?_) fun copy mem => ?_
  · obtain ⟨id, _, same⟩ := mem_map.1 (of_decide_eq_true hit).2
    exact ne_copyId (valid.fileId_le mem) same.symm
  · obtain ⟨e, entityMem, rfl⟩ := mem_map.1 mem
    exact decide_eq_true ⟨rfl, mem_map_of_mem (mem_entitiesOf.1 entityMem).2.2⟩

theorem entityIdsOf_copies :
    (rows.withCopies decode encode source target inScope).entityIdsOf target p =
      (rows.entityIdsOf source inScope).map
        (copyId rows.entitySequence (rows.entityIdsOf source inScope)) := by
  rw [entityIdsOf, valid.entitiesOf_copies free covers, entityIdsOf, map_map, map_map]
  rfl

theorem mappingsOf_copies :
    (rows.withCopies decode encode source target inScope).mappingsOf target p =
      (rows.mappingsOf source inScope).map
        (rows.copyMapping decode encode source target inScope) := by
  rw [mappingsOf, valid.entityIdsOf_copies free covers]
  refine filter_append_of_all (filter_eq_nil_iff.2 fun m mem hit => ?_) fun copy mem => ?_
  · obtain ⟨id, _, same⟩ := mem_map.1 (of_decide_eq_true hit).2
    exact ne_copyId (valid.entityId_le mem) same.symm
  · obtain ⟨m, mappingMem, rfl⟩ := mem_map.1 mem
    exact decide_eq_true ⟨rfl, mem_map_of_mem (mem_mappingsOf.1 mappingMem).2.2⟩

end

end InScope

section Fit

theorem copiesFit (valid : rows.Constraints) (freeFiles : ∀ old ∈ rows.files, old.epoch = target →
      ∀ f ∈ rows.filesOf source inScope, old.path ≠ f.path)
    (freeChunks : ∀ old ∈ rows.chunks, old.epoch = target →
      ∀ c ∈ rows.chunksOf source inScope, old.filePath ≠ c.filePath)
    (overloads : ∀ e ∈ rows.entitiesOf source inScope, e.overloadDiscriminator = "") :
    CopiesFit decode encode rows source target inScope := by
  constructor
  · refine ⟨fun old mem copy copyMem clash => ?_, ?_⟩
    · obtain ⟨f, fileMem, rfl⟩ := mem_map.1 copyMem
      exact freeFiles old mem clash.1 f fileMem clash.2
    · refine pairwise_map.2 ((valid.fileKeys.filter _).imp_of_mem ?_)
      intro a b aMem bMem apart clash
      have epochs := (mem_filesOf.1 aMem).2.1.trans (mem_filesOf.1 bMem).2.1.symm
      exact apart ⟨epochs, clash.2⟩
  · refine ⟨fun old mem copy copyMem clash => ?_, ?_⟩
    · obtain ⟨e, _, rfl⟩ := mem_map.1 copyMem
      exact ne_copyId (valid.fileId_le mem) clash.2.1
    · refine pairwise_map.2 ((valid.entityKeys.filter _).imp_of_mem ?_)
      intro a b aMem bMem apart clash
      obtain ⟨_, aEpoch, aFile⟩ := mem_entitiesOf.1 aMem
      obtain ⟨_, files, names, named, kinds, _⟩ := clash
      have sameFile : a.fileId = b.fileId := copyId_inj aFile files
      have overload := (overloads a aMem).trans (overloads b bMem).symm
      exact apart ⟨aEpoch.trans (mem_entitiesOf.1 bMem).2.1.symm, sameFile, names, named, kinds,
        overload⟩
  · refine ⟨fun old mem copy copyMem clash => ?_, ?_⟩
    · obtain ⟨m, _, rfl⟩ := mem_map.1 copyMem
      exact ne_copyId (valid.entityId_le mem) clash.2
    · refine pairwise_map.2 ((valid.mappingKeys.filter _).imp_of_mem ?_)
      intro a b aMem bMem apart clash
      obtain ⟨_, aEpoch, aEntity⟩ := mem_mappingsOf.1 aMem
      have sameEntity : a.entityId = b.entityId := copyId_inj aEntity clash.2
      exact apart ⟨aEpoch.trans (mem_mappingsOf.1 bMem).2.1.symm, sameEntity⟩
  · refine ⟨fun old mem copy copyMem clash => ?_, ?_⟩
    · obtain ⟨c, chunkMem, rfl⟩ := mem_map.1 copyMem
      exact freeChunks old mem clash.1 c chunkMem clash.2.1
    · refine pairwise_map.2 ((valid.chunkKeys.filter _).imp_of_mem ?_)
      intro a b aMem bMem apart clash
      have epochs := (mem_chunksOf.1 aMem).2.1.trans (mem_chunksOf.1 bMem).2.1.symm
      exact apart ⟨epochs, clash.2.1, clash.2.2⟩

theorem nodup_fileIdsOf (valid : rows.Constraints) : (rows.fileIdsOf epoch p).Nodup :=
  valid.fileIds.sublist (filter_sublist.map _)

theorem nodup_entityIdsOf (valid : rows.Constraints) : (rows.entityIdsOf epoch p).Nodup :=
  valid.entityIds.sublist (filter_sublist.map _)

private theorem nodup_append_copyIds {stored ids : List Nat} {sequence : Nat}
    (distinct : stored.Nodup) (bound : ∀ id ∈ stored, id ≤ sequence) (idsDistinct : ids.Nodup) :
    (stored ++ ids.map (copyId sequence ids)).Nodup := by
  refine distinct.append (idsDistinct.map_on ?_) ?_
  · exact fun a aMem b _ same => copyId_inj aMem same
  · intro id mem copied
    obtain ⟨old, _, rfl⟩ := mem_map.1 copied
    exact absurd (lt_copyId sequence ids old) (not_lt_of_ge (bound _ mem))

theorem withCopies (valid : rows.Constraints)
    (fit : CopiesFit decode encode rows source target inScope) :
    (rows.withCopies decode encode source target inScope).Constraints := by
  have fileIds : ((rows.filesOf source inScope).map
      (rows.copyFile source target inScope)).map FileRow.id = (rows.fileIdsOf source inScope).map
          (copyId rows.fileSequence (rows.fileIdsOf source inScope)) := by
    rw [fileIdsOf, map_map, map_map]
    rfl
  have entityIds : ((rows.entitiesOf source inScope).map
      (rows.copyEntity source target inScope)).map EntityRow.id =
        (rows.entityIdsOf source inScope).map
          (copyId rows.entitySequence (rows.entityIdsOf source inScope)) := by
    rw [entityIdsOf, map_map, map_map]
    rfl
  have fileCount : (rows.fileIdsOf source inScope).length =
      (rows.filesOf source inScope).length := length_map _
  have entityCount : (rows.entityIdsOf source inScope).length =
      (rows.entitiesOf source inScope).length := length_map _
  have copiedFile : ∀ id ∈ rows.fileIdsOf source inScope,
      ∃ f ∈ (rows.withCopies decode encode source target inScope).files,
        f.id = copyId rows.fileSequence (rows.fileIdsOf source inScope) id := by
    intro id mem
    obtain ⟨f, fileMem, rfl⟩ := mem_map.1 mem
    exact ⟨_, mem_append_right _ (mem_map_of_mem fileMem), rfl⟩
  have copiedEntity : ∀ id ∈ rows.entityIdsOf source inScope,
      ∃ e ∈ (rows.withCopies decode encode source target inScope).entities,
        e.id = copyId rows.entitySequence (rows.entityIdsOf source inScope) id := by
    intro id mem
    obtain ⟨e, entityMem, rfl⟩ := mem_map.1 mem
    exact ⟨_, mem_append_right _ (mem_map_of_mem entityMem), rfl⟩
  constructor
  · show ((_ ++ _ : List FileRow).map FileRow.id).Nodup
    rw [map_append, fileIds]
    exact nodup_append_copyIds valid.fileIds (forall_mem_map.2 valid.fileSequence)
      valid.nodup_fileIdsOf
  · intro f mem
    show f.id ≤ rows.fileSequence + _
    rcases mem_append.1 mem with stored | copied
    · have bound := valid.fileSequence f stored
      omega
    · obtain ⟨old, oldMem, rfl⟩ := mem_map.1 copied
      rw [← fileCount]
      exact copyId_le (mem_map_of_mem oldMem)
  · exact pairwise_append.2 ⟨valid.fileKeys, fit.files.2, fit.files.1⟩
  · show ((_ ++ _ : List EntityRow).map EntityRow.id).Nodup
    rw [map_append, entityIds]
    exact nodup_append_copyIds valid.entityIds (forall_mem_map.2 valid.entitySequence)
      valid.nodup_entityIdsOf
  · intro e mem
    show e.id ≤ rows.entitySequence + _
    rcases mem_append.1 mem with stored | copied
    · have bound := valid.entitySequence e stored
      omega
    · obtain ⟨old, oldMem, rfl⟩ := mem_map.1 copied
      rw [← entityCount]
      exact copyId_le (mem_map_of_mem oldMem)
  · exact pairwise_append.2 ⟨valid.entityKeys, fit.entities.2, fit.entities.1⟩
  · intro e mem
    rcases mem_append.1 mem with stored | copied
    · obtain ⟨f, fileMem, same⟩ := valid.entityFiles e stored
      exact ⟨f, mem_append_left _ fileMem, same⟩
    · obtain ⟨old, oldMem, rfl⟩ := mem_map.1 copied
      exact copiedFile _ (mem_entitiesOf.1 oldMem).2.2
  · intro e mem parent linked
    rcases mem_append.1 mem with stored | copied
    · obtain ⟨other, otherMem, same⟩ := valid.parents e stored parent linked
      exact ⟨other, mem_append_left _ otherMem, same⟩
    · obtain ⟨old, _, rfl⟩ := mem_map.1 copied
      obtain ⟨former, link, rfl⟩ := Option.map_eq_some_iff.1 linked
      have isCopied := (Option.filter_eq_some_iff.1 link).2
      exact copiedEntity former (of_decide_eq_true isCopied)
  · exact pairwise_append.2 ⟨valid.mappingKeys, fit.mappings.2, fit.mappings.1⟩
  · intro m mem
    rcases mem_append.1 mem with stored | copied
    · obtain ⟨e, entityMem, same⟩ := valid.mappingEntities m stored
      exact ⟨e, mem_append_left _ entityMem, same⟩
    · obtain ⟨old, oldMem, rfl⟩ := mem_map.1 copied
      exact copiedEntity _ (mem_mappingsOf.1 oldMem).2.2
  · exact pairwise_append.2 ⟨valid.chunkKeys, fit.chunks.2, fit.chunks.1⟩

end Fit

section Again

variable {paths : List PathBuf}

section

variable (valid : rows.Constraints)

include valid

theorem lt_of_mem_deleted (free : rows.filesOf target (fun path => path ∈ paths) = [])
    (covers : ∀ f ∈ rows.filesOf source inScope, f.path ∈ paths) {id : Nat}
    (deleted : id ∈ (rows.withCopies decode encode source target inScope).entityIdsIn
      ((rows.withCopies decode encode source target inScope).fileIdsOf target
        fun path => path ∈ paths)) : rows.entitySequence < id := by
  rw [fileIdsOf_copies free fun f mem => decide_eq_true (covers f mem)] at deleted
  obtain ⟨e, entityMem, rfl⟩ := mem_map.1 deleted
  obtain ⟨listed, inFile⟩ := mem_filter.1 entityMem
  obtain ⟨file, _, same⟩ := mem_map.1 (of_decide_eq_true inFile)
  rcases mem_append.1 listed with stored | copied
  · exact (ne_copyId (valid.fileId_le stored) same.symm).elim
  · obtain ⟨old, _, rfl⟩ := mem_map.1 copied
    exact lt_copyId _ _ _

theorem clear_withCopies (fit : CopiesFit decode encode rows source target inScope)
    (free : rows.filesOf target (fun path => path ∈ paths) = [])
    (freeChunks : ∀ c ∈ rows.chunks, c.epoch = target → c.filePath ∉ paths)
    (covers : ∀ f ∈ rows.filesOf source inScope, f.path ∈ paths)
    (chunkCovers : ∀ c ∈ rows.chunksOf source inScope, c.filePath ∈ paths) :
    (rows.withCopies decode encode source target inScope).clearTargetRowsForPaths target paths =
      { rows with
        fileSequence := rows.fileSequence + (rows.filesOf source inScope).length
        entitySequence := rows.entitySequence + (rows.entitiesOf source inScope).length } := by
  set after := rows.withCopies decode encode source target inScope with isAfter
  set deleted := after.entityIdsIn (after.fileIdsOf target fun path => path ∈ paths)
    with isDeleted
  have fileIds : after.fileIdsOf target (fun path => path ∈ paths) =
      (rows.fileIdsOf source inScope).map
        (copyId rows.fileSequence (rows.fileIdsOf source inScope)) :=
    fileIdsOf_copies free fun f mem => decide_eq_true (covers f mem)
  have copied : after.Constraints := valid.withCopies fit
  have late : ∀ id ∈ deleted, rows.entitySequence < id := fun id =>
    valid.lt_of_mem_deleted free covers
  have ofCopy : ∀ e ∈ rows.entitiesOf source inScope,
      copyId rows.entitySequence (rows.entityIdsOf source inScope) e.id ∈ deleted := by
    intro e mem
    have listed : rows.copyEntity source target inScope e ∈ after.entities :=
      mem_append_right _ (mem_map_of_mem mem)
    refine (copied.mem_entityIdsIn listed _).2 ?_
    rw [fileIds]
    exact mem_map_of_mem (mem_entitiesOf.1 mem).2.2
  have files : after.files.filter (fun f => decide
      (f.id ∉ after.fileIdsOf target fun path => path ∈ paths)) = rows.files := by
    rw [fileIds]
    show filter _ (_ ++ _) = _
    rw [filter_append_of_none, filter_eq_self]
    · intro f mem
      refine decide_eq_true fun hit => ?_
      obtain ⟨id, _, same⟩ := mem_map.1 hit
      exact ne_copyId (valid.fileSequence f mem) same.symm
    · intro copy mem kept
      obtain ⟨f, fileMem, rfl⟩ := mem_map.1 mem
      exact of_decide_eq_true kept (mem_map_of_mem (mem_map_of_mem fileMem))
  have entities : (after.entities.filter fun e => decide (e.id ∉ deleted)).map (unlink deleted) =
      rows.entities := by
    show map _ (filter _ (_ ++ _)) = _
    rw [filter_append_of_none, filter_eq_self.2]
    · refine (map_congr_left fun e mem => ?_).trans (map_id _)
      refine unlink_of_kept fun parent link gone => ?_
      exact absurd (late parent gone) (valid.parent_le mem link).not_gt
    · intro e mem
      refine decide_eq_true fun gone => ?_
      exact absurd (late e.id gone) (valid.entitySequence e mem).not_gt
    · intro copy mem kept
      obtain ⟨e, entityMem, rfl⟩ := mem_map.1 mem
      exact of_decide_eq_true kept (ofCopy e entityMem)
  have mappings : after.mappings.filter (fun m => decide (m.entityId ∉ deleted)) =
      rows.mappings := by
    show filter _ (_ ++ _) = _
    rw [filter_append_of_none, filter_eq_self]
    · intro m mem
      refine decide_eq_true fun gone => ?_
      exact absurd (late m.entityId gone) (valid.entityId_le mem).not_gt
    · intro copy mem kept
      obtain ⟨m, mappingMem, rfl⟩ := mem_map.1 mem
      obtain ⟨e, entityMem, same⟩ := mem_map.1 (mem_mappingsOf.1 mappingMem).2.2
      refine of_decide_eq_true kept ?_
      show copyId _ _ m.entityId ∈ deleted
      rw [← same]
      exact ofCopy e entityMem
  have chunks : after.chunks.filter (fun c => decide
      (¬ (c.epoch = target ∧ c.filePath ∈ paths))) = rows.chunks := by
    show filter _ (_ ++ _) = _
    rw [filter_append_of_none, filter_eq_self]
    · exact fun c mem => decide_eq_true fun hit => freeChunks c mem hit.1 hit.2
    · intro copy mem kept
      obtain ⟨c, chunkMem, rfl⟩ := mem_map.1 mem
      exact of_decide_eq_true kept ⟨rfl, chunkCovers c chunkMem⟩
  rw [clearTargetRowsForPaths, files, entities, mappings, chunks]
  rfl

theorem sameButRowIds_withCopies (fileCount entityCount : Nat) :
    SameButRowIds (rows.withCopies decode encode source target inScope) ({ rows with
        fileSequence := rows.fileSequence + fileCount
        entitySequence := rows.entitySequence + entityCount }.withCopies decode encode source
          target inScope) := by
  refine ⟨shift rows.fileSequence fileCount, shift rows.entitySequence entityCount,
    shift_injective _ _, shift_injective _ _, ?_, ?_, ?_, rfl⟩
  · show rows.files ++ _ = map _ (rows.files ++ _)
    rw [map_append, map_map]
    congr 1
    · refine ((map_congr_left fun f mem => ?_).trans (map_id _)).symm
      rw [shift_of_le (valid.fileSequence f mem)]
      rfl
    · refine map_congr_left fun f _ => ?_
      rw [Function.comp_apply, copyFile, copyFile, shift_copyId]
      rfl
  · show rows.entities ++ _ = map _ (rows.entities ++ _)
    rw [map_append, map_map]
    congr 1
    · refine ((map_congr_left fun e mem => ?_).trans (map_id _)).symm
      have link : e.parentId.map (shift rows.entitySequence entityCount) = e.parentId := by
        cases linked : e.parentId with
        | none => rfl
        | some parent => exact congrArg some (shift_of_le (valid.parent_le mem linked))
      rw [shift_of_le (valid.entitySequence e mem), shift_of_le (valid.fileId_le mem), link]
      rfl
    · refine map_congr_left fun e _ => ?_
      have moved : shift rows.entitySequence entityCount ∘
          copyId rows.entitySequence (rows.entityIdsOf source inScope) =
            copyId (rows.entitySequence + entityCount) (rows.entityIdsOf source inScope) :=
        funext fun id => shift_copyId _ _ _ _
      rw [Function.comp_apply, copyEntity, copyEntity, shift_copyId, shift_copyId, Option.map_map,
        moved]
      rfl
  · show rows.mappings ++ _ = map _ (rows.mappings ++ _)
    rw [map_append, map_map]
    congr 1
    · refine ((map_congr_left fun m mem => ?_).trans (map_id _)).symm
      rw [shift_of_le (valid.entityId_le mem)]
      rfl
    · refine map_congr_left fun m _ => ?_
      rw [Function.comp_apply, copyMapping, copyMapping, shift_copyId]
      rfl

theorem of_later (fileCount entityCount : Nat) :
    { rows with
      fileSequence := rows.fileSequence + fileCount
      entitySequence := rows.entitySequence + entityCount }.Constraints :=
  { valid with
    fileSequence := fun f mem =>
      (valid.fileSequence f mem).trans (Nat.le_add_right _ _)
    entitySequence := fun e mem =>
      (valid.entitySequence e mem).trans (Nat.le_add_right _ _) }

end

end Again

section Base

variable {rows : IndexRows} {excluded : List PathBuf}

/-- A source that is another generation than the target is not touched by the deletion. -/
private theorem spares_source (apart : source ≠ target) {paths : List PathBuf}
    (path : PathBuf) (_ : p path = true) (same : source = target) : path ∉ paths :=
  absurd same apart

theorem spares_hidden {path : PathBuf} (hidden : path ∈ excluded) :
    path ∉ rows.sourcePaths source excluded := by
  intro listed
  obtain ⟨f, fileMem, rfl⟩ := mem_map.1 listed
  exact of_decide_eq_true (mem_filesOf.1 fileMem).2.2 hidden

theorem filesOf_cleared (valid : rows.Constraints) (apart : source ≠ target) :
    (rows.cleared source target excluded).filesOf source p =
      rows.filesOf source p := valid.filesOf_clear (spares_source apart)

theorem entityIdsOf_cleared (valid : rows.Constraints) (apart : source ≠ target) :
    (rows.cleared source target excluded).entityIdsOf source p =
      rows.entityIdsOf source p := valid.entityIdsOf_clear (spares_source apart)

/-- The entities that the deletion takes. -/
def deletedIds (rows : IndexRows) (sourceEpoch targetEpoch : Int) (excludedPaths : List PathBuf) :
    List Nat :=
  rows.entityIdsIn (rows.fileIdsOf targetEpoch fun path =>
    path ∈ rows.sourcePaths sourceEpoch excludedPaths)

theorem entitiesOf_cleared (valid : rows.Constraints) (apart : source ≠ target) :
    (rows.cleared source target excluded).entitiesOf source p = (rows.entitiesOf source p).map
        (unlink (deletedIds rows source target excluded)) :=
  valid.entitiesOf_clear (spares_source apart)

theorem mappingsOf_cleared (valid : rows.Constraints) (apart : source ≠ target) :
    (rows.cleared source target excluded).mappingsOf source p =
      rows.mappingsOf source p := valid.mappingsOf_clear (spares_source apart)

theorem chunksOf_cleared (apart : source ≠ target) :
    (rows.cleared source target excluded).chunksOf source p =
      rows.chunksOf source p := chunksOf_clear (spares_source apart)

theorem covers_cleared (valid : rows.Constraints) (apart : source ≠ target) :
    ∀ f ∈ (rows.cleared source target excluded).filesOf source
      (isCopied excluded), f.path ∈ rows.sourcePaths source excluded := by
  rw [valid.filesOf_cleared apart]
  exact fun f mem => mem_map_of_mem mem

theorem free_cleared (valid : rows.Constraints) :
    (rows.cleared source target excluded).filesOf target
      (fun path => path ∈ rows.sourcePaths source excluded) = [] := by
  refine filter_eq_nil_iff.2 fun f mem hit => ?_
  obtain ⟨listed, spared⟩ := mem_filter.1 mem
  exact of_decide_eq_true spared ((valid.mem_fileIdsOf listed).2 (of_decide_eq_true hit))

theorem freeChunks_cleared :
    ∀ c ∈ (rows.cleared source target excluded).chunks, c.epoch = target →
      c.filePath ∉ rows.sourcePaths source excluded :=
  fun _ mem ofTarget listed => of_decide_eq_true (mem_filter.1 mem).2 ⟨ofTarget, listed⟩

theorem sourcePaths_withCopies (valid : rows.Constraints) (apart : source ≠ target) :
    ((rows.cleared source target excluded).withCopies decode encode source
      target inScope).sourcePaths source excluded =
        rows.sourcePaths source excluded := by
  rw [sourcePaths, filesOf_withCopies fun _ _ same => absurd same.symm apart,
    valid.filesOf_cleared apart, sourcePaths]

end Base

end Constraints

section Main

variable {decode : String → Option (List String)} {encode : List String → String}
  {rows : IndexRows} {sourceEpoch targetEpoch : Int} {excludedPaths : List PathBuf}

open Constraints

section

variable (valid : rows.Constraints) (apart : sourceEpoch ≠ targetEpoch)

include valid apart

theorem entitiesOf_copied :
    ((rows.cleared sourceEpoch targetEpoch excludedPaths).withCopies decode encode sourceEpoch
      targetEpoch (isCopied excludedPaths)).entitiesOf targetEpoch
        (rows.isSource sourceEpoch excludedPaths) =
      (rows.entitiesOf sourceEpoch (rows.isSource sourceEpoch excludedPaths)).map fun e =>
        (rows.cleared sourceEpoch targetEpoch excludedPaths).copyEntity sourceEpoch targetEpoch
          (isCopied excludedPaths)
          (unlink (deletedIds rows sourceEpoch targetEpoch excludedPaths) e) := by
  have base := valid.clear targetEpoch (rows.sourcePaths sourceEpoch excludedPaths)
  refine (base.entitiesOf_copies valid.free_cleared fun f mem =>
    decide_eq_true (valid.covers_cleared apart f mem)).trans ?_
  rw [entitiesOf_congr (filesOf_isSource sourceEpoch excludedPaths)]
  refine (congrArg (map _) (valid.entitiesOf_cleared apart)).trans ?_
  rw [map_map]
  rfl

theorem filesOf_copied :
    ((rows.cleared sourceEpoch targetEpoch excludedPaths).withCopies decode encode sourceEpoch
      targetEpoch (isCopied excludedPaths)).filesOf targetEpoch
        (rows.isSource sourceEpoch excludedPaths) =
      (rows.filesOf sourceEpoch (rows.isSource sourceEpoch excludedPaths)).map
        ((rows.cleared sourceEpoch targetEpoch excludedPaths).copyFile sourceEpoch targetEpoch
          (isCopied excludedPaths)) := by
  refine (filesOf_copies valid.free_cleared fun f mem =>
    decide_eq_true (valid.covers_cleared apart f mem)).trans ?_
  rw [filesOf_isSource, valid.filesOf_cleared apart]

theorem mappingsOf_copied :
    ((rows.cleared sourceEpoch targetEpoch excludedPaths).withCopies decode encode sourceEpoch
      targetEpoch (isCopied excludedPaths)).mappingsOf targetEpoch
        (rows.isSource sourceEpoch excludedPaths) =
      (rows.mappingsOf sourceEpoch (rows.isSource sourceEpoch excludedPaths)).map
        ((rows.cleared sourceEpoch targetEpoch excludedPaths).copyMapping decode encode sourceEpoch
          targetEpoch (isCopied excludedPaths)) := by
  have base := valid.clear targetEpoch (rows.sourcePaths sourceEpoch excludedPaths)
  refine (base.mappingsOf_copies valid.free_cleared fun f mem =>
    decide_eq_true (valid.covers_cleared apart f mem)).trans ?_
  rw [mappingsOf_congr (filesOf_isSource sourceEpoch excludedPaths)]
  exact congrArg (map _) (valid.mappingsOf_cleared apart)

end

theorem chunksOf_isSource (files : ∀ c ∈ rows.chunksOf sourceEpoch (isCopied excludedPaths),
      c.filePath ∈ rows.sourcePaths sourceEpoch excludedPaths) :
    rows.chunksOf sourceEpoch (rows.isSource sourceEpoch excludedPaths) =
      rows.chunksOf sourceEpoch (isCopied excludedPaths) := by
  rw [chunksOf, chunksOf]
  refine filter_congr fun c mem => decide_eq_decide.2 (and_congr_right fun ofSource => ?_)
  rw [isSource, decide_eq_true_iff]
  constructor
  · intro listed
    obtain ⟨f, fileMem, same⟩ := mem_map.1 listed
    exact same ▸ (mem_filesOf.1 fileMem).2.2
  · exact fun inScope => files c (mem_chunksOf.2 ⟨mem, ofSource, inScope⟩)

theorem chunksOf_copied (apart : sourceEpoch ≠ targetEpoch)
    (files : ∀ c ∈ rows.chunksOf sourceEpoch (isCopied excludedPaths),
      c.filePath ∈ rows.sourcePaths sourceEpoch excludedPaths) :
    ((rows.cleared sourceEpoch targetEpoch excludedPaths).withCopies decode encode sourceEpoch
      targetEpoch (isCopied excludedPaths)).chunksOf targetEpoch
        (rows.isSource sourceEpoch excludedPaths) =
      (rows.chunksOf sourceEpoch (isCopied excludedPaths)).map (copyChunk targetEpoch) := by
  show filter _ (_ ++ _) = _
  have own : (rows.cleared sourceEpoch targetEpoch excludedPaths).chunks.filter (fun c =>
      decide (c.epoch = targetEpoch ∧ rows.isSource sourceEpoch excludedPaths c.filePath = true)) =
        [] := by
    refine filter_eq_nil_iff.2 fun c mem hit => ?_
    obtain ⟨ofTarget, listed⟩ := of_decide_eq_true hit
    exact freeChunks_cleared c mem ofTarget (of_decide_eq_true listed)
  rw [filter_append, own, nil_append, chunksOf_cleared apart, filter_eq_self]
  intro copy mem
  obtain ⟨c, chunkMem, rfl⟩ := mem_map.1 mem
  exact decide_eq_true ⟨rfl, decide_eq_true (files c chunkMem)⟩

theorem hidden_withCopies (valid : rows.Constraints) :
    let after := (rows.cleared sourceEpoch targetEpoch excludedPaths).withCopies decode encode
      sourceEpoch targetEpoch (isCopied excludedPaths)
    let hidden : PathBuf → Bool := fun path => path ∈ excludedPaths
    after.filesOf targetEpoch hidden = rows.filesOf targetEpoch hidden ∧
    after.entitiesOf targetEpoch hidden = (rows.entitiesOf targetEpoch hidden).map
      (unlink (deletedIds rows sourceEpoch targetEpoch excludedPaths)) ∧
    after.mappingsOf targetEpoch hidden = rows.mappingsOf targetEpoch hidden ∧
    after.chunksOf targetEpoch hidden = rows.chunksOf targetEpoch hidden := by
  intro after hidden
  have base := valid.clear targetEpoch (rows.sourcePaths sourceEpoch excludedPaths)
  have spared : ∀ path, hidden path = true → targetEpoch = targetEpoch →
      path ∉ rows.sourcePaths sourceEpoch excludedPaths := fun path isHidden _ =>
    spares_hidden (of_decide_eq_true isHidden)
  have apart : ∀ path, isCopied excludedPaths path = true → hidden path = false :=
    fun path shown => decide_eq_false (of_decide_eq_true shown)
  have out : ∀ f ∈ (rows.cleared sourceEpoch targetEpoch excludedPaths).filesOf sourceEpoch
      (isCopied excludedPaths), targetEpoch = targetEpoch → hidden f.path = false :=
    fun f mem _ => apart f.path (mem_filesOf.1 mem).2.2
  refine ⟨?_, ?_, ?_, ?_⟩
  · exact (filesOf_withCopies out).trans (valid.filesOf_clear spared)
  · exact (base.entitiesOf_withCopies out).trans (valid.entitiesOf_clear spared)
  · exact (base.mappingsOf_withCopies out).trans (valid.mappingsOf_clear spared)
  · refine (chunksOf_withCopies fun c mem _ => ?_).trans (chunksOf_clear spared)
    exact apart c.filePath (mem_chunksOf.1 mem).2.2

section

variable (copyable : rows.Copyable sourceEpoch targetEpoch excludedPaths)

include copyable

theorem Copyable.fit (valid : rows.Constraints) (apart : sourceEpoch ≠ targetEpoch)
    (fileCount entityCount : Nat) :
    let base := rows.cleared sourceEpoch targetEpoch excludedPaths
    CopiesFit decode encode { base with
      fileSequence := base.fileSequence + fileCount
      entitySequence := base.entitySequence + entityCount } sourceEpoch targetEpoch
        (isCopied excludedPaths) := by
  intro base
  have constrained := valid.clear targetEpoch (rows.sourcePaths sourceEpoch excludedPaths)
  refine (constrained.of_later fileCount entityCount).copiesFit ?_ ?_ ?_
  · intro old mem ofTarget f fileMem same
    have covered := valid.covers_cleared apart f fileMem
    have found : old ∈ base.filesOf targetEpoch fun path =>
        path ∈ rows.sourcePaths sourceEpoch excludedPaths :=
      mem_filesOf.2 ⟨mem, ofTarget, decide_eq_true (same ▸ covered)⟩
    rw [valid.free_cleared] at found
    cases found
  · intro old mem ofTarget c chunkMem same
    have listed : c ∈ rows.chunksOf sourceEpoch (isCopied excludedPaths) := by
      rw [← chunksOf_cleared apart]
      exact chunkMem
    exact freeChunks_cleared old mem ofTarget (same ▸ copyable.chunkFiles c listed)
  · intro e mem
    have copied : e ∈ base.entitiesOf sourceEpoch (isCopied excludedPaths) := mem
    rw [valid.entitiesOf_cleared apart] at copied
    obtain ⟨old, oldMem, rfl⟩ := mem_map.1 copied
    exact copyable.overloads old oldMem

theorem Copyable.copies (roundTrips : RoundTrips decode encode) (valid : rows.Constraints)
    (apart : sourceEpoch ≠ targetEpoch) :
    Copies decode rows ((rows.cleared sourceEpoch targetEpoch excludedPaths).withCopies decode
      encode sourceEpoch targetEpoch (isCopied excludedPaths)) sourceEpoch targetEpoch
        excludedPaths := by
  refine ⟨copyId rows.fileSequence ((rows.cleared sourceEpoch targetEpoch
      excludedPaths).fileIdsOf sourceEpoch (isCopied excludedPaths)),
    copyId rows.entitySequence ((rows.cleared sourceEpoch targetEpoch
      excludedPaths).entityIdsOf sourceEpoch (isCopied excludedPaths)), ?_, ?_, ?_, ?_, ?_, ?_⟩
  · intro a mem b _ same
    rw [fileIdsOf, filesOf_isSource] at mem
    refine copyId_inj ?_ same
    rw [fileIdsOf, valid.filesOf_cleared apart]
    exact mem
  · intro a mem b _ same
    rw [entityIdsOf, entitiesOf_congr (filesOf_isSource sourceEpoch excludedPaths)] at mem
    refine copyId_inj ?_ same
    rw [valid.entityIdsOf_cleared apart]
    exact mem
  · exact filesOf_copied valid apart
  · rw [entitiesOf_copied valid apart,
      entitiesOf_congr (filesOf_isSource sourceEpoch excludedPaths)]
    refine map_congr_left fun e mem => ?_
    have overload := copyable.overloads e mem
    have kept : ∀ parent, e.parentId = some parent →
        parent ∉ deletedIds rows sourceEpoch targetEpoch excludedPaths := by
      intro parent linked
      obtain ⟨other, otherMem, same⟩ := mem_map.1 (copyable.parents e mem parent linked)
      rw [← same]
      exact valid.not_mem_deleted (spares_source apart) otherMem
    have link : (e.parentId.filter fun parent => decide
        (parent ∈ (rows.cleared sourceEpoch targetEpoch excludedPaths).entityIdsOf
          sourceEpoch (isCopied excludedPaths))) = e.parentId := by
      refine filter_of_all fun parent linked => decide_eq_true ?_
      rw [valid.entityIdsOf_cleared apart]
      exact copyable.parents e mem parent linked
    rw [unlink_of_kept kept, copyEntity, link, ← overload]
    rfl
  · rw [mappingsOf_copied valid apart, forall₂_map_right_iff]
    refine forall₂_same.2 fun m _ => ⟨rfl, ?_, ?_⟩
    · exact sameIdsButEpoch_replace roundTrips _ _ _
    · exact sameIdsButEpoch_replace roundTrips _ _ _
  · rw [chunksOf_copied apart copyable.chunkFiles, chunksOf_isSource copyable.chunkFiles]
    refine map_congr_left fun c mem => ?_
    have columns := copyable.chunkColumns c mem
    exact congrArg (fun c : ChunkRow => { c with epoch := targetEpoch }) columns

theorem Copyable.keepsHidden (valid : rows.Constraints) :
    SameRows rows ((rows.cleared sourceEpoch targetEpoch excludedPaths).withCopies decode encode
      sourceEpoch targetEpoch (isCopied excludedPaths)) targetEpoch
        (fun path => path ∈ excludedPaths) := by
  obtain ⟨files, entities, mappings, chunks⟩ := hidden_withCopies valid
  refine ⟨files, entities.trans ?_, mappings, chunks⟩
  refine (map_congr_left fun e mem => ?_).trans (map_id _)
  exact unlink_of_kept (copyable.hiddenParents e mem)

theorem Copyable.faithful (roundTrips : RoundTrips decode encode) (valid : rows.Constraints)
    (apart : sourceEpoch ≠ targetEpoch) :
    Faithful decode encode rows sourceEpoch targetEpoch excludedPaths := by
  set base := rows.cleared sourceEpoch targetEpoch excludedPaths with isBase
  have constrained : base.Constraints :=
    valid.clear targetEpoch (rows.sourcePaths sourceEpoch excludedPaths)
  have bytes : ∀ f ∈ base.filesOf sourceEpoch (isCopied excludedPaths),
      0 ≤ f.category ∧ f.category ≤ 255 := by
    rw [isBase, valid.filesOf_cleared apart]
    exact copyable.categories
  have fit : ∀ fileCount entityCount, CopiesFit decode encode { base with
      fileSequence := base.fileSequence + fileCount
      entitySequence := base.entitySequence + entityCount } sourceEpoch targetEpoch
        (isCopied excludedPaths) := copyable.fit valid apart
  have first : CopiesFit decode encode base sourceEpoch targetEpoch (isCopied excludedPaths) :=
    fit 0 0
  refine ⟨_, materializeSqliteGeneration_eq_ok_iff.2 ⟨copyable.copiedFiles,
      insertCopies_eq_ok_iff.2 ⟨copyable.exclusions, bytes, first, rfl⟩⟩,
    copyable.copies roundTrips valid apart, copyable.keepsHidden valid, ?_⟩
  have chunkCovers : ∀ c ∈ base.chunksOf sourceEpoch (isCopied excludedPaths),
      c.filePath ∈ rows.sourcePaths sourceEpoch excludedPaths := by
    rw [isBase, chunksOf_cleared apart]
    exact copyable.chunkFiles
  have again : (base.withCopies decode encode sourceEpoch targetEpoch
      (isCopied excludedPaths)).cleared sourceEpoch targetEpoch excludedPaths = { base with
        fileSequence := base.fileSequence +
          (base.filesOf sourceEpoch (isCopied excludedPaths)).length
        entitySequence := base.entitySequence +
          (base.entitiesOf sourceEpoch (isCopied excludedPaths)).length } := by
    rw [cleared, isBase, valid.sourcePaths_withCopies apart]
    exact constrained.clear_withCopies first valid.free_cleared freeChunks_cleared
      (valid.covers_cleared apart) chunkCovers
  refine ⟨_, ?_, constrained.sameButRowIds_withCopies
    (base.filesOf sourceEpoch (isCopied excludedPaths)).length
    (base.entitiesOf sourceEpoch (isCopied excludedPaths)).length⟩
  rw [materializeSqliteGeneration_eq_ok_iff, again, valid.sourcePaths_withCopies apart]
  exact ⟨copyable.copiedFiles,
    insertCopies_eq_ok_iff.2 ⟨copyable.exclusions, bytes, fit _ _, rfl⟩⟩

end

theorem chunkFiles_of_again (valid : rows.Constraints) (apart : sourceEpoch ≠ targetEpoch)
    {again : IndexRows}
    (done : ((rows.cleared sourceEpoch targetEpoch excludedPaths).withCopies decode encode
      sourceEpoch targetEpoch (isCopied excludedPaths)).materializeSqliteGeneration decode encode
        sourceEpoch targetEpoch excludedPaths = .ok again) :
    ∀ c ∈ rows.chunksOf sourceEpoch (isCopied excludedPaths),
      c.filePath ∈ rows.sourcePaths sourceEpoch excludedPaths := by
  intro c mem
  by_contra orphan
  set after := (rows.cleared sourceEpoch targetEpoch excludedPaths).withCopies decode encode
    sourceEpoch targetEpoch (isCopied excludedPaths) with isAfter
  have inserted := (materializeSqliteGeneration_eq_ok_iff.1 done).2
  have fit := (insertCopies_eq_ok_iff.1 inserted).2.2.1.chunks.1
  have paths : after.sourcePaths sourceEpoch excludedPaths =
      rows.sourcePaths sourceEpoch excludedPaths := valid.sourcePaths_withCopies apart
  have spared : ∀ chunk ∈ after.chunks, chunk.filePath = c.filePath →
      chunk ∈ (after.cleared sourceEpoch targetEpoch excludedPaths).chunks := by
    intro chunk listed same
    refine mem_filter.2 ⟨listed, decide_eq_true fun gone => orphan ?_⟩
    rw [← paths, ← same]
    exact gone.2
  have source : c ∈ (rows.cleared sourceEpoch targetEpoch excludedPaths).chunksOf sourceEpoch
      (isCopied excludedPaths) := by
    rw [chunksOf_cleared apart]
    exact mem
  have copy : copyChunk targetEpoch c ∈ after.chunks :=
    mem_append_right _ (mem_map_of_mem source)
  obtain ⟨listed, inScope⟩ := mem_chunksOf.1 source
  have stays := spared c (mem_append_left _ listed) rfl
  exact fit _ (spared _ copy rfl) _ (mem_map_of_mem (mem_chunksOf.2 ⟨stays, inScope⟩))
    ⟨rfl, rfl, rfl⟩

theorem Faithful.copyable (faithful : Faithful decode encode rows sourceEpoch targetEpoch
      excludedPaths) (valid : rows.Constraints) (apart : sourceEpoch ≠ targetEpoch) :
    rows.Copyable sourceEpoch targetEpoch excludedPaths := by
  obtain ⟨after, done, copies, hidden, again, repeated, _⟩ := faithful
  obtain ⟨copiedFiles, inserted⟩ := materializeSqliteGeneration_eq_ok_iff.1 done
  obtain ⟨exclusions, bytes, _, rfl⟩ := insertCopies_eq_ok_iff.1 inserted
  obtain ⟨fileId, entityId, _, _, _, entities, _, chunks⟩ := copies
  have chunkFiles := chunkFiles_of_again valid apart repeated
  rw [entitiesOf_copied valid apart, entitiesOf_congr (filesOf_isSource _ _),
    map_inj_left] at entities
  rw [chunksOf_copied apart chunkFiles, chunksOf_isSource chunkFiles, map_inj_left] at chunks
  refine ⟨exclusions, copiedFiles, ?_, ?_, ?_, chunkFiles, ?_, ?_⟩
  · intro f mem
    rw [← valid.filesOf_cleared apart] at mem
    exact bytes f mem
  · intro e mem
    exact (congrArg EntityRow.overloadDiscriminator (entities e mem)).symm
  · intro e mem parent linked
    have link := congrArg EntityRow.parentId (entities e mem)
    have copied : Option.map entityId e.parentId = some (entityId parent) := by
      rw [linked]
      rfl
    obtain ⟨former, kept, _⟩ := Option.map_eq_some_iff.1 (link.trans copied)
    obtain ⟨unlinked, isCopied⟩ := Option.filter_eq_some_iff.1 kept
    have same := (Option.filter_eq_some_iff.1 unlinked).1
    rw [linked] at same
    cases same
    rw [← valid.entityIdsOf_cleared apart]
    exact of_decide_eq_true isCopied
  · intro c mem
    exact congrArg (fun copy : ChunkRow => { copy with epoch := c.epoch }) (chunks c mem)
  · intro e mem parent linked
    have cut := (hidden_withCopies valid).2.1.symm.trans hidden.2.1
    have same : (rows.entitiesOf targetEpoch fun path => path ∈ excludedPaths).map
        (unlink (deletedIds rows sourceEpoch targetEpoch excludedPaths)) =
          (rows.entitiesOf targetEpoch fun path => path ∈ excludedPaths).map id :=
      cut.trans (map_id _).symm
    have link := congrArg EntityRow.parentId (map_inj_left.1 same e mem)
    exact of_decide_eq_true (Option.filter_eq_some_iff.1 (link.trans linked)).2

/-- A compaction is faithful exactly when its source can be copied. -/
theorem faithful_iff (roundTrips : RoundTrips decode encode) (constraints : rows.Constraints)
    (apart : sourceEpoch ≠ targetEpoch) :
    Faithful decode encode rows sourceEpoch targetEpoch excludedPaths ↔
      rows.Copyable sourceEpoch targetEpoch excludedPaths :=
  ⟨fun faithful => faithful.copyable constraints apart,
    fun copyable => copyable.faithful roundTrips constraints apart⟩

private def function (id : Nat) (overloadDiscriminator : String) : EntityRow where
  id := id
  name := "push"
  kind := "method"
  fileId := 1
  signature := none
  spanStartRow := none
  spanEndRow := none
  spanStartColumn := none
  spanEndColumn := none
  spanStartByte := none
  spanEndByte := none
  scopedName := some "Queue::push"
  overloadDiscriminator := overloadDiscriminator
  depth := none
  parentId := none
  metadata := none
  parametersJson := none
  returnType := none
  docComment := none
  modifiersJson := none
  epoch := 1
  batchId := 0

private def generation (entities : List EntityRow) : IndexRows where
  files := [⟨1, "src/queue.ts", "typescript", 0, 0, 0, none, 1, 0⟩]
  fileSequence := 1
  entities := entities
  entitySequence := entities.length
  mappings := []
  chunks := []

/-- JSON of the lists that stand in the tables of the example. -/
private def decodeEmpty (list : String) : Option (List String) :=
  if list = "[]" then some [] else none

theorem faithful_iff_function :
    Faithful decodeEmpty (fun _ => "[]") (generation [function 1 ""]) 1 2 [] ↔
      (generation [function 1 ""]).Copyable 1 2 [] := by
  refine faithful_iff ?_ ?_ (by decide)
  · intro list ids decoded f
    rw [decodeEmpty] at decoded
    split_ifs at decoded
    cases decoded
    rfl
  · constructor
    · decide
    · decide
    · exact pairwise_singleton _ _
    · decide
    · decide
    · exact pairwise_singleton _ _
    · decide
    · intro e mem parent linked
      obtain rfl := mem_singleton.1 mem
      cases linked
    · exact List.Pairwise.nil
    · exact fun m mem => absurd mem not_mem_nil
    · exact List.Pairwise.nil

/-- Two overloads of one name clash once their discriminators are gone. -/
theorem overloads_unfaithful :
    (generation [function 1 "(a)", function 2 "(a,b)"]).Constraints ∧
      ¬ Faithful decodeEmpty (fun _ => "[]")
        (generation [function 1 "(a)", function 2 "(a,b)"]) 1 2 [] := by
  constructor
  · constructor
    · decide
    · decide
    · exact pairwise_singleton _ _
    · decide
    · decide
    · decide +kernel
    · decide
    · intro e mem parent linked
      rcases mem_pair.1 mem with rfl | rfl <;> cases linked
    · exact List.Pairwise.nil
    · exact fun m mem => absurd mem not_mem_nil
    · exact List.Pairwise.nil
  · rintro ⟨after, done, _⟩
    have failed : ((generation [function 1 "(a)", function 2 "(a,b)"]).materializeSqliteGeneration
        decodeEmpty (fun _ => "[]") 1 2 []).isOk = false := by decide +kernel
    rw [done] at failed
    cases failed

end Main

end IndexRows

end ContextEngine

/- digest: The rows of index generations, and the copy of one generation into another. -/

import ContextEngine.HotUpdate.FileHashCache
import ContextEngine.Lib.Runs
import ContextEngine.Lib.UniqueRows

set_option autoImplicit false

namespace ContextEngine

open UniqueRows

/-- A row of `files`. -/
structure FileRow where
  id : Nat
  path : PathBuf
  language : String
  category : Int
  lastModified : Int
  createdAt : Int
  contentHash : Option String
  epoch : Int
  batchId : Int

/-- A row of `entities`. -/
structure EntityRow where
  id : Nat
  name : String
  kind : String
  fileId : Nat
  signature : Option String
  spanStartRow : Option Int
  spanEndRow : Option Int
  spanStartColumn : Option Int
  spanEndColumn : Option Int
  spanStartByte : Option Int
  spanEndByte : Option Int
  scopedName : Option String
  overloadDiscriminator : String
  depth : Option Int
  parentId : Option Nat
  metadata : Option String
  parametersJson : Option String
  returnType : Option String
  docComment : Option String
  modifiersJson : Option String
  epoch : Int
  batchId : Int

/-- A row of `entity_detail_mappings`. -/
structure DetailMappingRow where
  entityId : Nat
  epoch : Int
  qdrantPointIds : String
  bm25DocIds : String
  chunkCount : Int
  createdAt : Int
  updatedAt : Int

/-- A row of `chunks`. -/
structure ChunkRow where
  chunkId : String
  filePath : PathBuf
  content : String
  startLine : Int
  endLine : Int
  entityIds : String
  entityNames : String
  entityKinds : String
  groupTitle : String
  chunkType : String
  testStatus : Int
  testSource : Int
  createdAt : Int
  updatedAt : Int
  epoch : Int
  batchId : Int
  path : String
  bm25Keywords : String
  segmentId : String
  truncated : Int

section Keys

def FileRow.Clash (a b : FileRow) : Prop := a.epoch = b.epoch ∧ a.path = b.path

def EntityRow.Clash (a b : EntityRow) : Prop :=
  a.epoch = b.epoch ∧ a.fileId = b.fileId ∧ a.scopedName = b.scopedName ∧ a.scopedName ≠ none ∧
    a.kind = b.kind ∧ a.overloadDiscriminator = b.overloadDiscriminator

def DetailMappingRow.Clash (a b : DetailMappingRow) : Prop :=
  a.epoch = b.epoch ∧ a.entityId = b.entityId

def ChunkRow.Clash (a b : ChunkRow) : Prop :=
  a.epoch = b.epoch ∧ a.filePath = b.filePath ∧ a.chunkId = b.chunkId

instance : DecidableRel FileRow.Clash := fun _ _ => inferInstanceAs (Decidable (_ ∧ _))
instance : DecidableRel EntityRow.Clash := fun _ _ => inferInstanceAs (Decidable (_ ∧ _))
instance : DecidableRel DetailMappingRow.Clash := fun _ _ => inferInstanceAs (Decidable (_ ∧ _))
instance : DecidableRel ChunkRow.Clash := fun _ _ => inferInstanceAs (Decidable (_ ∧ _))

end Keys

section StoredIds

/-- An id is `prefix::epoch::suffix`. -/
def replaceEpochInId (id : String) (oldEpoch newEpoch : Int) : String :=
  match id.splitOn "::" with
  | first :: second :: rest =>
    if second = toString oldEpoch then
      String.intercalate "::" (first :: toString newEpoch :: rest)
    else id
  | _ => id

variable (decode : String → Option (List String)) (encode : List String → String)

def replaceEpochInIdList (list : String) (oldEpoch newEpoch : Int) : String :=
  match decode list with
  | none => list
  | some ids => encode (ids.map fun id => replaceEpochInId id oldEpoch newEpoch)

/-- Ids that are the same but for the epoch in them. -/
def SameButEpoch (a b : String) : Prop :=
  a = b ∨ ∃ first old new rest, a.splitOn "::" = first :: old :: rest ∧
    b = String.intercalate "::" (first :: new :: rest)

/-- Stored lists of such ids. -/
def SameIdsButEpoch (a b : String) : Prop :=
  a = b ∨ ∃ ids other, decode a = some ids ∧ decode b = some other ∧
    List.Forall₂ SameButEpoch ids other

/-- A list that was decoded round trips when its entries are replaced. -/
def RoundTrips : Prop :=
  ∀ list ids, decode list = some ids → ∀ f : String → String,
    decode (encode (ids.map f)) = some (ids.map f)

theorem sameButEpoch_replace (id : String) (oldEpoch newEpoch : Int) :
    SameButEpoch id (replaceEpochInId id oldEpoch newEpoch) := by
  rw [replaceEpochInId]
  cases parts : id.splitOn "::" with
  | nil => exact Or.inl rfl
  | cons first others =>
    cases others with
    | nil => exact Or.inl rfl
    | cons second rest =>
      simp only
      split_ifs
      · exact Or.inr ⟨first, second, _, rest, parts, rfl⟩
      · exact Or.inl rfl

theorem sameIdsButEpoch_replace {decode : String → Option (List String)}
    {encode : List String → String} (roundTrips : RoundTrips decode encode) (list : String)
    (oldEpoch newEpoch : Int) :
    SameIdsButEpoch decode list (replaceEpochInIdList decode encode list oldEpoch newEpoch) := by
  rw [replaceEpochInIdList]
  cases decoded : decode list with
  | none => exact Or.inl rfl
  | some ids =>
    refine Or.inr ⟨ids, _, decoded, roundTrips list ids decoded _, ?_⟩
    rw [List.forall₂_map_right_iff]
    exact List.forall₂_same.2 fun id _ => sameButEpoch_replace id oldEpoch newEpoch

end StoredIds

/-- The tables of a project's generations, with the last ids given to files and entities. -/
structure IndexRows where
  files : List FileRow
  fileSequence : Nat
  entities : List EntityRow
  entitySequence : Nat
  mappings : List DetailMappingRow
  chunks : List ChunkRow

namespace IndexRows

variable (rows : IndexRows)

section Rows

variable (epoch : Int) (inScope : PathBuf → Bool)

def filesOf : List FileRow := rows.files.filter fun f => f.epoch = epoch ∧ inScope f.path

def fileIdsOf : List Nat := (rows.filesOf epoch inScope).map FileRow.id

def entitiesOf : List EntityRow :=
  rows.entities.filter fun e => e.epoch = epoch ∧ e.fileId ∈ rows.fileIdsOf epoch inScope

def entityIdsOf : List Nat := (rows.entitiesOf epoch inScope).map EntityRow.id

def mappingsOf : List DetailMappingRow :=
  rows.mappings.filter fun m => m.epoch = epoch ∧ m.entityId ∈ rows.entityIdsOf epoch inScope

def chunksOf : List ChunkRow := rows.chunks.filter fun c => c.epoch = epoch ∧ inScope c.filePath

end Rows

/-- The entities that go with the deletion of files. -/
def entityIdsIn (fileIds : List Nat) : List Nat :=
  (rows.entities.filter fun e => e.fileId ∈ fileIds).map EntityRow.id

/-- A link to a deleted entity is cut. -/
def unlink (deleted : List Nat) (entity : EntityRow) : EntityRow :=
  { entity with parentId := entity.parentId.filter fun parent => parent ∉ deleted }

/-- The foreign keys let the entities of a file go with it, and their detail mappings with them;
chunks are deleted by path. -/
def clearTargetRowsForPaths (targetEpoch : Int) (paths : List PathBuf) : IndexRows :=
  let fileIds := rows.fileIdsOf targetEpoch fun path => path ∈ paths
  let deleted := rows.entityIdsIn fileIds
  { rows with
    files := rows.files.filter fun f => f.id ∉ fileIds
    entities := (rows.entities.filter fun e => e.id ∉ deleted).map (unlink deleted)
    mappings := rows.mappings.filter fun m => m.entityId ∉ deleted
    chunks := rows.chunks.filter fun c => ¬ (c.epoch = targetEpoch ∧ c.filePath ∈ paths) }

section Copies

variable (decode : String → Option (List String)) (encode : List String → String)
  (sourceEpoch targetEpoch : Int) (inScope : PathBuf → Bool)

def copyFile (file : FileRow) : FileRow :=
  { file with
    id := copyId rows.fileSequence (rows.fileIdsOf sourceEpoch inScope) file.id
    epoch := targetEpoch }

/-- A parent that is copied too is linked once all entities are in. -/
def copyEntity (entity : EntityRow) : EntityRow :=
  { entity with
    id := copyId rows.entitySequence (rows.entityIdsOf sourceEpoch inScope) entity.id
    fileId := copyId rows.fileSequence (rows.fileIdsOf sourceEpoch inScope) entity.fileId
    overloadDiscriminator := ""
    parentId := (entity.parentId.filter fun parent =>
      parent ∈ rows.entityIdsOf sourceEpoch inScope).map
        (copyId rows.entitySequence (rows.entityIdsOf sourceEpoch inScope))
    epoch := targetEpoch }

def copyMapping (mapping : DetailMappingRow) : DetailMappingRow :=
  { mapping with
    entityId := copyId rows.entitySequence (rows.entityIdsOf sourceEpoch inScope) mapping.entityId
    epoch := targetEpoch
    qdrantPointIds :=
      replaceEpochInIdList decode encode mapping.qdrantPointIds sourceEpoch targetEpoch
    bm25DocIds := replaceEpochInIdList decode encode mapping.bm25DocIds sourceEpoch targetEpoch }

/-- The columns that are not listed take their defaults. -/
def copyChunk (chunk : ChunkRow) : ChunkRow :=
  { chunk with
    entityKinds := "[]"
    groupTitle := ""
    testStatus := 0
    testSource := 0
    path := "emb"
    bm25Keywords := ""
    segmentId := ""
    epoch := targetEpoch }

/-- The copies come after the rows that are there. -/
def withCopies : IndexRows where
  files := rows.files ++
    (rows.filesOf sourceEpoch inScope).map (rows.copyFile sourceEpoch targetEpoch inScope)
  fileSequence := rows.fileSequence + (rows.filesOf sourceEpoch inScope).length
  entities := rows.entities ++
    (rows.entitiesOf sourceEpoch inScope).map (rows.copyEntity sourceEpoch targetEpoch inScope)
  entitySequence := rows.entitySequence + (rows.entitiesOf sourceEpoch inScope).length
  mappings := rows.mappings ++ (rows.mappingsOf sourceEpoch inScope).map
    (rows.copyMapping decode encode sourceEpoch targetEpoch inScope)
  chunks := rows.chunks ++ (rows.chunksOf sourceEpoch inScope).map (copyChunk targetEpoch)

/-- The most parameters that a statement may have. -/
def maxVariableNumber : Nat := 32766

def bindVariables (count : Nat) : Except String Unit :=
  if count ≤ maxVariableNumber then .ok () else .error "too many SQL variables"

/-- The rows of four tables are inserted in turn. The category of a file is read as a byte, and the
statement for the chunks has a parameter for every excluded path. -/
def insertCopies (excluded : Nat) : Except String IndexRows :=
  if ∃ f ∈ rows.filesOf sourceEpoch inScope, f.category < 0 ∨ 255 < f.category then
    .error "Integer out of range"
  else do
    let files ← insertAll FileRow.Clash "files" rows.files
      ((rows.filesOf sourceEpoch inScope).map (rows.copyFile sourceEpoch targetEpoch inScope))
    let entities ← insertAll EntityRow.Clash "entities" rows.entities
      ((rows.entitiesOf sourceEpoch inScope).map (rows.copyEntity sourceEpoch targetEpoch inScope))
    let mappings ← insertAll DetailMappingRow.Clash "entity_detail_mappings" rows.mappings
      ((rows.mappingsOf sourceEpoch inScope).map
        (rows.copyMapping decode encode sourceEpoch targetEpoch inScope))
    bindVariables (3 + excluded)
    let chunks ← insertAll ChunkRow.Clash "chunks" rows.chunks
      ((rows.chunksOf sourceEpoch inScope).map (copyChunk targetEpoch))
    return { rows.withCopies decode encode sourceEpoch targetEpoch inScope with
      files := files
      entities := entities
      mappings := mappings
      chunks := chunks }

end Copies

section Compaction

variable (decode : String → Option (List String)) (encode : List String → String)
  (sourceEpoch targetEpoch : Int) (excludedPaths : List PathBuf)

/-- No exclusion hides the path. -/
def isCopied (path : PathBuf) : Bool := path ∉ excludedPaths

def sourcePaths : List PathBuf :=
  (rows.filesOf sourceEpoch (isCopied excludedPaths)).map FileRow.path

/-- What an earlier attempt left under the paths that are copied goes. -/
def cleared : IndexRows :=
  rows.clearTargetRowsForPaths targetEpoch (rows.sourcePaths sourceEpoch excludedPaths)

/-- The copy of what no exclusion hides, in one transaction. The source is read with a parameter for
every excluded path, and residue is deleted with one for every path that is copied. -/
def materializeSqliteGeneration : Except String IndexRows := do
  bindVariables (2 + excludedPaths.length)
  bindVariables (2 + (rows.sourcePaths sourceEpoch excludedPaths).length)
  (rows.cleared sourceEpoch targetEpoch excludedPaths).insertCopies decode encode sourceEpoch
    targetEpoch (isCopied excludedPaths) excludedPaths.length

end Compaction

/-- The unique keys and foreign keys of the tables. -/
structure Constraints : Prop where
  fileIds : (rows.files.map FileRow.id).Nodup
  fileSequence : ∀ f ∈ rows.files, f.id ≤ rows.fileSequence
  fileKeys : rows.files.Pairwise fun a b => ¬ FileRow.Clash a b
  entityIds : (rows.entities.map EntityRow.id).Nodup
  entitySequence : ∀ e ∈ rows.entities, e.id ≤ rows.entitySequence
  entityKeys : rows.entities.Pairwise fun a b => ¬ EntityRow.Clash a b
  entityFiles : ∀ e ∈ rows.entities, ∃ f ∈ rows.files, f.id = e.fileId
  parents : ∀ e ∈ rows.entities, ∀ parent, e.parentId = some parent →
    ∃ other ∈ rows.entities, other.id = parent
  mappingKeys : rows.mappings.Pairwise fun a b => ¬ DetailMappingRow.Clash a b
  mappingEntities : ∀ m ∈ rows.mappings, ∃ e ∈ rows.entities, e.id = m.entityId
  chunkKeys : rows.chunks.Pairwise fun a b => ¬ ChunkRow.Clash a b

end IndexRows

end ContextEngine

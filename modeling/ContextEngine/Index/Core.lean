/- digest: The relation index, its tables, the operations that mutate them, and its validation. -/

import Mathlib.Data.Prod.Lex
import ContextEngine.Index.DependencyGraph
import ContextEngine.Index.EdgeTables

set_option autoImplicit false

namespace ContextEngine

open HashMap

structure SymbolKeyConflictRecord where
  filePath : String
  scopedName : String
  kind : EntityKind
  keptEntity : EntityId
  rejectedEntity : EntityId
  deriving DecidableEq

structure RelationDiagnostics where
  symbolKeyConflictCount : Nat := 0
  symbolKeyConflictSamples : List SymbolKeyConflictRecord := []
  deltaExportUnresolvedCount : Nat := 0
  deriving DecidableEq

/-- The entities of one file ordered by start row, then by number. -/
abbrev FileRows := SortedVec (Nat ×ₗ EntityId)

/-- The relation index: entities, edges, files and symbols with their derived indexes. The last
two fields hold of every index the operations can build. -/
structure RelationIndex where
  functionIndex : HashMap EntityId Entity
  nameIndex : HashMap String (List EntityId)
  entityFileIndex : HashMap EntityId String
  resolvedRelationIndex : ResolvedTable
  reverseCalleeIndex : ReverseTable
  fileRelationIndex : FileRelationTable
  fileCallersByCallee : HashMap EntityId (HashSet String)
  fileRecords : HashMap String FileRecord
  dependencyGraph : FileDependencyGraph
  symbolKeyToEntity : HashMap SymbolKey EntityId
  entityToSymbolKey : HashMap EntityId SymbolKey
  stableIdToEntity : HashMap String EntityId
  entityIdCounter : Nat
  entityIdRemaps : HashMap String (HashMap EntityId EntityId)
  diagnostics : RelationDiagnostics
  fileSymbolKeys : HashMap String (List SymbolKey)
  fileEntitiesByStart : HashMap String FileRows
  edgesFiled : EdgesFiled resolvedRelationIndex
  fileCallersTransposed : FileCallersTransposed fileRelationIndex fileCallersByCallee

def asU32 (row : Nat) : Nat := row % 2 ^ 32

def asU64 (number : Nat) : Nat := number % 2 ^ 64

def asI64 (row : Nat) : Int := (row : Int).bmod (2 ^ 64)

section Rows

/-- Insert a row entry at its sorted position, unless the entry already standing there
belongs to the same entity. -/
def trackFileEntity (table : HashMap String FileRows) (filePath : String) (row : Nat)
    (entityId : EntityId) : HashMap String FileRows :=
  table.alter filePath fun entry =>
    let rows := entry.getD ∅
    let standing := rows.toList.find? fun item => toLex (row, entityId) ≤ item
    some (if standing.any fun item => (ofLex item).2 = entityId then rows
      else rows.insert (toLex (row, entityId)))

def untrackFileEntity (table : HashMap String FileRows) (filePath : String)
    (entityId : EntityId) : HashMap String FileRows :=
  table.alter filePath fun entry =>
    match entry with
    | none => none
    | some rows =>
      let rest :=
        match rows.toList.find? fun item => (ofLex item).2 = entityId with
        | some item => rows.erase item
        | none => rows
      if rest.isEmpty then none else some rest

end Rows

namespace RelationIndex

def new : RelationIndex where
  functionIndex := ∅
  nameIndex := ∅
  entityFileIndex := ∅
  resolvedRelationIndex := ∅
  reverseCalleeIndex := ∅
  fileRelationIndex := ∅
  fileCallersByCallee := ∅
  fileRecords := ∅
  dependencyGraph := ∅
  symbolKeyToEntity := ∅
  entityToSymbolKey := ∅
  stableIdToEntity := ∅
  entityIdCounter := 0
  entityIdRemaps := ∅
  diagnostics := {}
  fileSymbolKeys := ∅
  fileEntitiesByStart := ∅
  edgesFiled := .empty
  fileCallersTransposed := .empty

instance : Inhabited RelationIndex := ⟨new⟩

section Entities

variable (index : RelationIndex) (entityId : EntityId)

/-- Store an entity and its name, moving the name entry when the name changed. -/
def insertFunction (entity : Entity) :
    RelationIndex :=
  let names :=
    match index.functionIndex.lookup entityId with
    | some existing =>
      if existing.name ≠ entity.name then index.nameIndex.bucketErase existing.name entityId
      else index.nameIndex
    | none => index.nameIndex
  { index with
    functionIndex := index.functionIndex.insert entityId entity
    nameIndex := names.bucketPushNew entity.name entityId
    entityIdCounter := max index.entityIdCounter (asU64 (entityId + 1)) }

def removeFunction : RelationIndex :=
  { index with
    functionIndex := index.functionIndex.erase entityId
    nameIndex :=
      match index.functionIndex.lookup entityId with
      | some entity => index.nameIndex.bucketErase entity.name entityId
      | none => index.nameIndex
    fileEntitiesByStart :=
      match index.functionIndex.lookup entityId, index.entityFileIndex.lookup entityId with
      | some _, some filePath => untrackFileEntity index.fileEntitiesByStart filePath entityId
      | _, _ => index.fileEntitiesByStart
    fileSymbolKeys :=
      match index.functionIndex.lookup entityId, index.entityToSymbolKey.lookup entityId with
      | some _, some key => index.fileSymbolKeys.bucketErase key.filePath key
      | _, _ => index.fileSymbolKeys }

/-- `add_function_with_path`: an entity stored before is first dropped from its old rows. -/
def addFunctionWithPath (entity : Entity)
    (filePath : String) : RelationIndex :=
  let rows :=
    match index.functionIndex.lookup entityId, index.entityFileIndex.lookup entityId with
    | some _, some oldFile => untrackFileEntity index.fileEntitiesByStart oldFile entityId
    | _, _ => index.fileEntitiesByStart
  { index.insertFunction entityId entity with
    entityFileIndex := index.entityFileIndex.insert entityId filePath
    fileEntitiesByStart :=
      trackFileEntity rows filePath (asU32 entity.span.startPosition.row) entityId }

/-- The largest stored number, or the counter's predecessor when that is larger. -/
def maxEntityId : Nat :=
  if index.functionIndex.keys.isEmpty then 0
  else
    let maxId := index.functionIndex.keys.foldl max 0
    if 0 < index.entityIdCounter then
      if index.entityIdCounter < asU64 (maxId + 1) then maxId else index.entityIdCounter - 1
    else maxId

/-- The name table `detached_clone` rebuilds from the stored entities. -/
def groupByName (functions : List (EntityId × Entity)) : HashMap String (List EntityId) :=
  functions.foldl (fun names entry => names.bucketPush entry.2.name entry.1) ∅

/-- An independent copy: every table is copied except the name table, which is rebuilt. -/
def detachedClone : RelationIndex :=
  { index with nameIndex := groupByName index.functionIndex.toList }

end Entities

section Edges

def addResolvedRelation (index : RelationIndex) (relation : ResolvedRelation) : RelationIndex :=
  { index with
    resolvedRelationIndex := addEdge index.resolvedRelationIndex relation.caller relation
    reverseCalleeIndex :=
      if hasEdge index.resolvedRelationIndex relation.caller relation then
        index.reverseCalleeIndex
      else
        match relation.calleeId with
        | some callee => trackReverseCaller index.reverseCalleeIndex callee relation.caller
        | none => index.reverseCalleeIndex
    edgesFiled := index.edgesFiled.addEdge relation }

def addFileRelation (index : RelationIndex) (filePath : String) (relation : ResolvedRelation) :
    RelationIndex :=
  { index with
    fileRelationIndex := addEdge index.fileRelationIndex filePath relation
    fileCallersByCallee :=
      if hasEdge index.fileRelationIndex filePath relation then index.fileCallersByCallee
      else trackFileCaller index.fileCallersByCallee relation.calleeId filePath
    fileCallersTransposed := index.fileCallersTransposed.addEdge filePath relation }

def takeFileRelations (index : RelationIndex) (filePath : String) : RelationIndex :=
  { index with
    fileRelationIndex := index.fileRelationIndex.erase filePath
    fileCallersByCallee :=
      (edgesOf index.fileRelationIndex filePath).foldl
        (fun table relation => untrackFileCaller table relation.calleeId filePath)
        index.fileCallersByCallee
    fileCallersTransposed := index.fileCallersTransposed.takeFile filePath }

def rebuildReverseCalleeIndex (index : RelationIndex) : RelationIndex :=
  { index with
    reverseCalleeIndex :=
      index.resolvedRelationIndex.toList.foldl
        (fun table entry =>
          entry.2.edges.foldl
            (fun table relation =>
              match relation.calleeId with
              | some callee => trackReverseCaller table callee entry.1
              | none => table)
            table)
        ∅ }

end Edges

section Symbols

variable [Sha256]

/-- What a registration request leads to. -/
inductive SymbolRegistration where
  | kept
  | placed (key : SymbolKey)
  | conflict (key : SymbolKey) (existing : EntityId)
  deriving DecidableEq

/-- First registration wins. A second entity gets a span-suffixed key only if the winner's
span differs and that key is free. -/
def resolveSymbolKey (index : RelationIndex) (filePath scopedName : String) (entity : Entity)
    (entityId : EntityId) : SymbolRegistration :=
  let key := StableSymbolKey.forEntity filePath scopedName entity
  match index.symbolKeyToEntity.lookup key with
  | none => .placed key
  | some existing =>
    if existing = entityId then .kept
    else
      let ownerDiffers :=
        match index.functionIndex.lookup existing with
        | some owner =>
          decide (owner.span.startByte ≠ entity.span.startByte ∨
            owner.span.endByte ≠ entity.span.endByte)
        | none => false
      let spanScoped := scopedName ++ "#" ++ toString entity.span.startByte ++ "-" ++
        toString entity.span.endByte
      let spanKey := StableSymbolKey.forEntity filePath spanScoped entity
      let spanTaken :=
        match index.symbolKeyToEntity.lookup spanKey with
        | some other => decide (other ≠ entityId)
        | none => false
      if !ownerDiffers || spanTaken then .conflict key existing else .placed spanKey

def symbolKeyConflictSampleCap : Nat := 64

def recordSymbolKeyConflict (diagnostics : RelationDiagnostics) (key : SymbolKey)
    (kept rejected : EntityId) : RelationDiagnostics :=
  let samples := diagnostics.symbolKeyConflictSamples
  let room := if symbolKeyConflictSampleCap ≤ samples.length then samples.drop 1 else samples
  { diagnostics with
    symbolKeyConflictCount := diagnostics.symbolKeyConflictCount + 1
    symbolKeyConflictSamples := room ++
      [⟨key.filePath, key.scopedName, key.kind, kept, rejected⟩] }

def registerSymbolKey (index : RelationIndex) (filePath scopedName : String) (entity : Entity)
    (entityId : EntityId) : RelationIndex :=
  let registration := index.resolveSymbolKey filePath scopedName entity entityId
  { index with
    symbolKeyToEntity :=
      match registration with
      | .placed key => index.symbolKeyToEntity.insert key entityId
      | _ => index.symbolKeyToEntity
    entityToSymbolKey :=
      match registration with
      | .placed key => index.entityToSymbolKey.insert entityId key
      | _ => index.entityToSymbolKey
    stableIdToEntity :=
      match registration with
      | .placed key => index.stableIdToEntity.insert key.stableId entityId
      | _ => index.stableIdToEntity
    fileSymbolKeys :=
      match registration with
      | .placed key => index.fileSymbolKeys.bucketPush key.filePath key
      | _ => index.fileSymbolKeys
    diagnostics :=
      match registration with
      | .conflict key existing =>
        recordSymbolKeyConflict index.diagnostics key existing entityId
      | _ => index.diagnostics }

end Symbols

section Validation

/-- The checks of `validate_snapshot`, each with the error it reports when it fails. -/
def snapshotChecks (index : RelationIndex) : List (Bool × String) :=
  let isLive (entityId : EntityId) : Bool := (index.functionIndex.lookup entityId).isSome
  (index.resolvedRelationIndex.toList.flatMap fun entry =>
    (isLive entry.1, s!"relation caller {entry.1} has no entity in the snapshot") ::
      entry.2.edges.filterMap fun relation =>
        relation.calleeId.map fun callee =>
          (isLive callee,
            s!"relation from {entry.1} to {callee} references a missing internal target")) ++
  (index.fileRelationIndex.toList.flatMap fun entry =>
    entry.2.edges.filterMap fun relation =>
      relation.calleeId.map fun callee =>
        (isLive callee,
          s!"file-level relation in {entry.1} references a missing internal target {callee}")) ++
  (index.functionIndex.keys.map fun entityId =>
    ((index.entityFileIndex.lookup entityId).isSome,
      s!"entity {entityId} has no file membership in the snapshot")) ++
  (index.symbolKeyToEntity.keys.map fun key =>
    (decide (key ∈ index.fileSymbolKeys.bucket key.filePath),
      s!"symbol key {key.filePath}/{key.scopedName} is missing from the per-file reverse index")) ++
  (index.fileSymbolKeys.toList.flatMap fun entry =>
    entry.2.flatMap fun key =>
      [((index.symbolKeyToEntity.lookup key).isSome,
        s!"stale symbol key {key.filePath}/{key.scopedName} in the per-file reverse index"),
       (decide (key.filePath = entry.1),
        s!"symbol key {key.filePath}/{key.scopedName} is filed under mismatched path {entry.1}")])

def validateSnapshot (index : RelationIndex) : Except String Unit :=
  match index.snapshotChecks.find? fun check => !check.1 with
  | some check => .error check.2
  | none => .ok ()

end Validation

/-- What `validate_snapshot` checks: every edge endpoint and every membership is backed by a
live entity, and the per-file key lists mirror the symbol map. -/
structure SnapshotValid (index : RelationIndex) : Prop where
  caller_live : ∀ caller set, index.resolvedRelationIndex.lookup caller = some set →
    (index.functionIndex.lookup caller).isSome
  callee_live : ∀ caller, ∀ relation ∈ edgesOf index.resolvedRelationIndex caller,
    ∀ callee, relation.calleeId = some callee → (index.functionIndex.lookup callee).isSome
  file_callee_live : ∀ path, ∀ relation ∈ edgesOf index.fileRelationIndex path,
    ∀ callee, relation.calleeId = some callee → (index.functionIndex.lookup callee).isSome
  member : ∀ entityId, (index.functionIndex.lookup entityId).isSome →
    (index.entityFileIndex.lookup entityId).isSome
  key_listed : ∀ key, (index.symbolKeyToEntity.lookup key).isSome →
    key ∈ index.fileSymbolKeys.bucket key.filePath
  listed_live : ∀ path, ∀ key ∈ index.fileSymbolKeys.bucket path,
    (index.symbolKeyToEntity.lookup key).isSome
  listed_path : ∀ path, ∀ key ∈ index.fileSymbolKeys.bucket path, key.filePath = path

private theorem validateSnapshot_ok_iff (index : RelationIndex) :
    index.validateSnapshot = .ok () ↔ ∀ check ∈ index.snapshotChecks, check.1 = true := by
  unfold validateSnapshot
  cases found : index.snapshotChecks.find? fun check => !check.1 with
  | some check =>
    have failed := List.find?_some found
    have mem := List.mem_of_find?_eq_some found
    simp only [reduceCtorEq, false_iff]
    intro passed
    rw [passed check mem] at failed
    cases failed
  | none =>
    simp only [true_iff]
    intro check mem
    simpa using List.find?_eq_none.1 found check mem

private theorem edge_entry_iff {K : Type} [DecidableEq K] {table : HashMap K RelationEdgeSet}
    {P : K → ResolvedRelation → Prop} :
    (∀ entry ∈ table.toList, ∀ relation ∈ entry.2.edges, P entry.1 relation) ↔
      ∀ key, ∀ relation ∈ edgesOf table key, P key relation := by
  constructor
  · intro all key relation mem
    obtain ⟨set, found, inSet⟩ := mem_edgesOf.1 mem
    exact all (key, set) (mem_toList.2 found) relation inSet
  · rintro all ⟨key, set⟩ mem relation inSet
    refine all key relation ?_
    rw [mem_toList_edges mem]
    exact inSet

private theorem bucket_entry_iff {table : HashMap String (List SymbolKey)}
    (P : String → SymbolKey → Prop) :
    (∀ entry ∈ table.toList, ∀ key ∈ entry.2, P entry.1 key) ↔
      ∀ path, ∀ key ∈ table.bucket path, P path key := by
  constructor
  · intro all path key mem
    unfold bucket at mem
    cases found : table.lookup path with
    | none =>
      rw [found] at mem
      cases mem
    | some l =>
      rw [found] at mem
      exact all (path, l) (mem_toList.2 found) key mem
  · rintro all ⟨path, l⟩ mem key inList
    refine all path key ?_
    unfold bucket
    rw [mem_toList.1 mem]
    exact inList

private theorem forall_mem_filterMap_callee {edges : List ResolvedRelation}
    {check : EntityId → Bool × String} :
    (∀ item ∈ edges.filterMap fun relation => relation.calleeId.map check, item.1 = true) ↔
      ∀ relation ∈ edges, ∀ callee, relation.calleeId = some callee → (check callee).1 = true := by
  simp only [List.mem_filterMap, Option.map_eq_some_iff]
  constructor
  · intro all relation mem callee hit
    exact all _ ⟨relation, mem, callee, hit, rfl⟩
  · rintro all _ ⟨relation, mem, callee, hit, rfl⟩
    exact all relation mem callee hit

theorem validateSnapshot_iff (index : RelationIndex) :
    index.validateSnapshot = .ok () ↔ index.SnapshotValid := by
  rw [validateSnapshot_ok_iff]
  unfold snapshotChecks
  simp only [List.forall_mem_append, List.forall_mem_flatMap, List.forall_mem_cons,
    forall_mem_filterMap_callee, List.forall_mem_map, List.not_mem_nil, false_implies,
    implies_true, and_true, decide_eq_true_eq]
  constructor
  · rintro ⟨⟨⟨⟨entities, files⟩, members⟩, listed⟩, buckets⟩
    have byPath := (bucket_entry_iff fun path key =>
      (index.symbolKeyToEntity.lookup key).isSome = true ∧ key.filePath = path).1 buckets
    refine ⟨?_, ?_, ?_, ?_, ?_, ?_, ?_⟩
    · exact fun caller set found => (entities (caller, set) (mem_toList.2 found)).1
    · exact edge_entry_iff.1 fun entry mem => (entities entry mem).2
    · exact edge_entry_iff.1 files
    · intro entityId live
      obtain ⟨entity, found⟩ := Option.isSome_iff_exists.1 live
      exact members entityId (mem_keys_iff.2 ⟨entity, found⟩)
    · intro key registered
      obtain ⟨entityId, found⟩ := Option.isSome_iff_exists.1 registered
      exact listed key (mem_keys_iff.2 ⟨entityId, found⟩)
    · exact fun path key mem => (byPath path key mem).1
    · exact fun path key mem => (byPath path key mem).2
  · intro valid
    refine ⟨⟨⟨⟨?_, ?_⟩, ?_⟩, ?_⟩, ?_⟩
    · intro entry mem
      refine ⟨valid.caller_live entry.1 entry.2 (mem_toList.1 mem), ?_⟩
      intro relation inSet
      refine valid.callee_live entry.1 relation ?_
      rw [mem_toList_edges mem]
      exact inSet
    · exact edge_entry_iff.2 valid.file_callee_live
    · intro entityId mem
      obtain ⟨entity, found⟩ := mem_keys_iff.1 mem
      exact valid.member entityId (by rw [found]; rfl)
    · intro key mem
      obtain ⟨entityId, found⟩ := mem_keys_iff.1 mem
      exact valid.key_listed key (by rw [found]; rfl)
    · exact (bucket_entry_iff fun path key =>
        (index.symbolKeyToEntity.lookup key).isSome = true ∧ key.filePath = path).2
          fun path key mem => ⟨valid.listed_live path key mem, valid.listed_path path key mem⟩

theorem SnapshotValid.live_of_edge {index : RelationIndex} (valid : index.SnapshotValid)
    {caller : EntityId} {relation : ResolvedRelation}
    (mem : relation ∈ edgesOf index.resolvedRelationIndex caller) :
    (index.functionIndex.lookup caller).isSome := by
  obtain ⟨set, found, _⟩ := mem_edgesOf.1 mem
  exact valid.caller_live caller set found

end RelationIndex

end ContextEngine

/- digest: How a parsed file enters the index, and which of its entities share a number. -/

import ContextEngine.Chunking.MergeFixpoint
import ContextEngine.Index.SnapshotLoader
import ContextEngine.Lib.MergedLinks
import ContextEngine.Lib.NumberedRows

set_option autoImplicit false

namespace ContextEngine

open HashMap List MergedLinks

def EntityKind.isFunctionLike : EntityKind → Bool
  | .function | .method | .accessor | .constructor | .destructor | .operator => true
  | _ => false

/-- What `index_file_core` takes of a file: its record, its imports and exports, the names its
entities resolve to, and the entities. -/
structure ParsedFile where
  info : FileInfo
  dependencies : List String
  imports : ImportTable
  exports : List ExportInfo
  scopedNames : HashMap EntityId String
  entities : List Entity

def ParsedFile.path (file : ParsedFile) : String := file.info.id

namespace FileEntities

section Aliases

/-- `rsplit(['.', ':']).next()`. -/
def simpleName (name : String) : String :=
  String.ofList (name.toList.reverse.takeWhile fun c => c ≠ '.' ∧ c ≠ ':').reverse

def priority : EntityKind → Nat
  | .method => 11
  | .function => 10
  | .classKind | .structKind | .enumKind | .trait | .interface => 9
  | kind => if kind.isFunctionLike then 10 else 0

/-- Where an entity starts and ends, and the last segment of its name. -/
abbrev GroupKey := Nat ×ₗ Nat ×ₗ String

def groupKey (entity : Entity) : GroupKey :=
  toLex (entity.span.startByte, toLex (entity.span.endByte, simpleName entity.name))

/-- Entities that are one addressable node. -/
def Aliases (a b : Entity) : Prop :=
  MergeStrategy.isAvailable a.span = true ∧ MergeStrategy.isAvailable b.span = true ∧
    groupKey a = groupKey b
  deriving Decidable

variable (entities : List Entity)

/-- The entities by number. The last one of a number stays. -/
def localToEntity : HashMap EntityId Entity :=
  HashMap.extend ∅ (entities.map fun entity => (entity.id, entity))

def groups : HashMap GroupKey (List EntityId) :=
  (entities.filter fun entity => MergeStrategy.isAvailable entity.span).foldl
    (fun groups entity => groups.bucketPush (groupKey entity) entity.id) ∅

def orderedKeys : List GroupKey := sortByKey id (groups entities).keys

def score (id : EntityId) : Nat :=
  ((localToEntity entities).lookup id).elim 0 fun entity => priority entity.kind

def best (first : EntityId) (rest : List EntityId) : EntityId :=
  (rest.foldl (fun found id =>
    if found.2 < score entities id then (id, score entities id) else found)
    (first, score entities first)).1

def canonicalOf (key : GroupKey) : Option EntityId :=
  match (groups entities).bucket key with
  | [] => none
  | first :: rest => some (best entities first rest)

def canonicalSet : List EntityId := (orderedKeys entities).filterMap (canonicalOf entities)

/-- The members of a group that another one stands for. -/
def aliasesOf (key : GroupKey) : List (EntityId × EntityId) :=
  match canonicalOf entities key with
  | none => []
  | some canonical =>
    (((groups entities).bucket key).filter fun id => id ≠ canonical).map fun id =>
      (id, canonical)

def aliasToCanonical : HashMap EntityId EntityId :=
  HashMap.extend ∅ ((orderedKeys entities).flatMap (aliasesOf entities))

variable (ids : List EntityId)

/-- The parent that the first member with one names. -/
def parentChoice : Option EntityId :=
  ids.findSome? fun id => ((localToEntity entities).lookup id).bind Entity.parent

def pushNew (id : EntityId) : List EntityId :=
  if id ∈ ids then ids else ids ++ [id]

def childrenUnion : List EntityId :=
  (ids.flatMap fun id => ((localToEntity entities).lookup id).elim [] Entity.children).foldl
    pushNew []

def mergedGroups : List (EntityId × List EntityId) :=
  (orderedKeys entities).filterMap fun key =>
    let ids := (groups entities).bucket key
    if 1 < ids.length then (canonicalOf entities key).map fun canonical => (canonical, ids)
    else none

def mergedParent : HashMap EntityId (Option EntityId) :=
  HashMap.extend ∅ ((mergedGroups entities).map fun group =>
    (group.1, parentChoice entities group.2))

def mergedChildren : HashMap EntityId (List EntityId) :=
  HashMap.extend ∅ ((mergedGroups entities).filterMap fun group =>
    let union := childrenUnion entities group.2
    if union.isEmpty then none else some (group.1, union))

/-- The entities that are stored: those without span first, then one of each group. -/
def canonicalIds : List EntityId :=
  (entities.filter fun entity => !MergeStrategy.isAvailable entity.span).map Entity.id ++
    (entities.filter fun entity =>
      MergeStrategy.isAvailable entity.span && entity.id ∈ canonicalSet entities).map Entity.id

end Aliases

section Remap

variable (entities : List Entity)

/-- The numbers of the stored entities, from the counter of the index on. -/
def allocated (counter : Nat) : HashMap EntityId EntityId :=
  HashMap.extend ∅ ((canonicalIds entities).zipIdx counter)

def addAlias (remap : HashMap EntityId EntityId) (entry : EntityId × EntityId) :
    HashMap EntityId EntityId :=
  match remap.lookup entry.2 with
  | some global => remap.insert entry.1 global
  | none => remap

/-- The number of every entity. The aliases come in the order a hash map is iterated in. -/
def remap (iterate : HashMap EntityId EntityId → List (EntityId × EntityId)) (counter : Nat) :
    HashMap EntityId EntityId :=
  (iterate (aliasToCanonical entities)).foldl addAlias (allocated entities counter)

variable (remap : HashMap EntityId EntityId) (entity : Entity)

def remappedParent : Option EntityId :=
  match (mergedParent entities).lookup entity.id with
  | some merged => merged.bind remap.lookup
  | none => entity.parent.bind remap.lookup

def remappedChildren : List EntityId :=
  let own := entity.children.filterMap remap.lookup
  match (mergedChildren entities).lookup entity.id with
  | some extra => (extra.filterMap remap.lookup).foldl pushNew own
  | none => own

/-- A stored entity under its number. -/
def remapEntity : Option (EntityId × Entity) :=
  (remap.lookup entity.id).map fun newId =>
    (newId, { entity with
      id := newId
      parent := remappedParent entities remap entity
      children := remappedChildren entities remap entity })

def remappedEntities : List (EntityId × Entity) :=
  ((canonicalIds entities).filterMap (localToEntity entities).lookup).filterMap
    (remapEntity entities remap)

/-- The exports of entities of the file. -/
def remapExports (exports : List ExportInfo) : List ExportInfo :=
  exports.filterMap fun item =>
    (remap.lookup item.functionId).map fun globalId => { item with functionId := globalId }

end Remap

end FileEntities

namespace RelationIndex

open FileEntities

variable [Sha256] (iterate : HashMap EntityId EntityId → List (EntityId × EntityId))
  (index : RelationIndex) (file : ParsedFile)

def fileRemap : HashMap EntityId EntityId :=
  remap file.entities iterate index.entityIdCounter

variable (path : String)

def trackDependencies (dependencies : List String) : RelationIndex :=
  { index with
    dependencyGraph := dependencies.foldl (fun graph dependency =>
      graph.addDependency path (normalizeProjectPath dependency)) index.dependencyGraph }

def addFunctionsWithPaths (functions : List (EntityId × Entity)) :
    RelationIndex :=
  functions.foldl (fun index entry => index.addFunctionWithPath entry.1 entry.2 path) index

def registerEntity (remap : HashMap EntityId EntityId)
    (scopedNames : HashMap EntityId String) (index : RelationIndex) (entity : Entity) :
    RelationIndex :=
  let newId := (remap.lookup entity.id).getD entity.id
  match index.functionIndex.lookup newId, scopedNames.lookup entity.id with
  | some _, some scopedName =>
    index.registerSymbolKey path scopedName { entity with id := newId } newId
  | _, _ => index

/-- `index_file_core`, behind the gathering of the record, imports, exports and dependencies. -/
def indexFileCore : RelationIndex :=
  let remap := index.fileRemap iterate file
  let recorded := (index.addFile file.info).trackDependencies file.path file.dependencies
  let counted := { recorded with
    entityIdCounter := index.entityIdCounter + (canonicalIds file.entities).length }
  let stored := counted.addFunctionsWithPaths file.path (remappedEntities file.entities remap)
  let keyed := (file.entities.filter fun entity => entity.id ∈ canonicalIds file.entities).foldl
    (registerEntity file.path remap file.scopedNames) stored
  let exports := remapExports remap file.exports
  let imported := { keyed with
    entityIdRemaps := keyed.entityIdRemaps.insert file.path remap }.addImportTable file.path
      file.imports
  if exports.isEmpty then imported else imported.addExports file.path exports

end RelationIndex

namespace FileEntities

section Nodes

/-- Equal but for number and links. -/
def Alike (a b : Entity) : Prop :=
  b = { a with id := b.id, parent := b.parent, children := b.children }
  deriving Decidable

def SameNode (a b : Entity) : Prop := Alike a b ∨ Aliases a b
  deriving Decidable

variable {a b : Entity}

theorem Alike.symm (alike : Alike a b) : Alike b a := by
  unfold Alike at alike ⊢
  rw [alike]

theorem Alike.trans {a b c : Entity} (first : Alike a b) (second : Alike b c) : Alike a c := by
  unfold Alike at first second ⊢
  rw [second, first]

theorem Alike.span_eq (alike : Alike a b) : b.span = a.span := by
  unfold Alike at alike
  rw [alike]

theorem Alike.groupKey_eq (alike : Alike a b) : groupKey b = groupKey a := by
  unfold Alike at alike
  rw [alike]
  rfl

theorem Aliases.symm (aliases : Aliases a b) : Aliases b a :=
  ⟨aliases.2.1, aliases.1, aliases.2.2.symm⟩

theorem SameNode.symm (same : SameNode a b) : SameNode b a := by
  rcases same with alike | aliases
  · exact Or.inl alike.symm
  · exact Or.inr aliases.symm

theorem SameNode.available_eq (same : SameNode a b) :
    MergeStrategy.isAvailable b.span = MergeStrategy.isAvailable a.span := by
  rcases same with alike | ⟨availableA, availableB, _⟩
  · rw [alike.span_eq]
  · rw [availableA, availableB]

theorem SameNode.groupKey_eq (same : SameNode a b) : groupKey b = groupKey a := by
  rcases same with alike | ⟨_, _, key⟩
  · exact alike.groupKey_eq
  · exact key.symm

theorem SameNode.aliases (same : SameNode a b)
    (available : MergeStrategy.isAvailable a.span = true) : Aliases a b :=
  ⟨available, same.available_eq.trans available, same.groupKey_eq.symm⟩

theorem SameNode.trans {a b c : Entity} (first : SameNode a b) (second : SameNode b c) :
    SameNode a c := by
  rcases first with alike | aliases
  · rcases second with further | ⟨available, availableC, key⟩
    · exact Or.inl (alike.trans further)
    · exact Or.inr ⟨by rw [← alike.span_eq]; exact available, availableC,
        alike.groupKey_eq.symm.trans key⟩
  · have further := second.aliases aliases.2.1
    exact Or.inr ⟨aliases.1, further.2.1, aliases.2.2.trans further.2.2⟩

variable (entities : List Entity)

def OneNode : Prop := ∀ a ∈ entities, ∀ b ∈ entities, a.id = b.id → SameNode a b

def numbers : Set EntityId := {id | ∃ entity ∈ entities, entity.id = id}

/-- The links of the file. A number means the last entity that carries it. -/
def links : Links EntityId where
  parent id := ((localToEntity entities).lookup id).bind Entity.parent
  children id := ((localToEntity entities).lookup id).elim [] Entity.children

def OneNumber (a b : EntityId) : Prop :=
  a = b ∨ ∃ first ∈ entities, ∃ second ∈ entities, first.id = a ∧ second.id = b ∧
    Aliases first second
  deriving Decidable

/-- Aliases name parents that are aliases. -/
def AliasParentsAgree : Prop :=
  ∀ a ∈ numbers entities, ∀ b ∈ numbers entities, OneNumber entities a b →
    ∀ p, (links entities).parent a = some p → ∀ q, (links entities).parent b = some q →
      OneNumber entities p q

end Nodes

section Local

variable {entities : List Entity}

theorem exists_of_lookup_extend {K V : Type} [DecidableEq K] {l : List (K × V)} {k : K} {v : V}
    (found : (HashMap.extend ∅ l).lookup k = some v) : (k, v) ∈ l := by
  induction l using reverseRecOn with
  | nil => cases found
  | append_singleton l last ih =>
    rw [extend, foldl_append] at found
    change ((extend ∅ l).insert last.1 last.2).lookup k = some v at found
    rw [lookup_insert_eq] at found
    split_ifs at found with same
    · cases found
      rw [same]
      exact mem_append_right l mem_cons_self
    · exact mem_append_left _ (ih found)

variable {id : EntityId} {entity : Entity}

theorem of_lookup_localToEntity
    (found : (localToEntity entities).lookup id = some entity) :
    entity ∈ entities ∧ entity.id = id := by
  obtain ⟨stored, mem, pair⟩ := mem_map.1 (exists_of_lookup_extend found)
  cases pair
  exact ⟨mem, rfl⟩

theorem parent_links (found : (localToEntity entities).lookup id = some entity) :
    (links entities).parent id = entity.parent := by
  show ((localToEntity entities).lookup id).bind Entity.parent = entity.parent
  rw [found, Option.bind_some]

theorem children_links
    (found : (localToEntity entities).lookup id = some entity) :
    (links entities).children id = entity.children := by
  show ((localToEntity entities).lookup id).elim [] Entity.children = entity.children
  rw [found, Option.elim_some]

theorem exists_lookup_localToEntity (mem : id ∈ numbers entities) :
    ∃ entity, (localToEntity entities).lookup id = some entity := by
  obtain ⟨entity, entityMem, rfl⟩ := mem
  refine Option.isSome_iff_exists.1 (isSome_lookup_extend.2 (Or.inl ?_))
  rw [map_map]
  exact mem_map.2 ⟨entity, entityMem, rfl⟩

end Local

section Groups

variable {entities : List Entity}

variable {key : GroupKey} {id : EntityId}

theorem mem_bucket_groups :
    id ∈ (groups entities).bucket key ↔
      ∃ entity ∈ entities, MergeStrategy.isAvailable entity.span = true ∧ groupKey entity = key ∧
        entity.id = id := by
  have filled : (groups entities).bucket key =
      (((entities.filter fun entity => MergeStrategy.isAvailable entity.span).filter
        fun entity => groupKey entity = key).map Entity.id) :=
    bucket_foldl_bucketPush ∅ groupKey Entity.id _ key
  rw [filled, mem_map]
  constructor
  · rintro ⟨entity, mem, same⟩
    obtain ⟨mem, here⟩ := mem_filter.1 mem
    obtain ⟨mem, available⟩ := mem_filter.1 mem
    exact ⟨entity, mem, available, of_decide_eq_true here, same⟩
  · rintro ⟨entity, mem, available, here, same⟩
    refine ⟨entity, mem_filter.2 ⟨mem_filter.2 ⟨mem, available⟩, ?_⟩, same⟩
    exact decide_eq_true here

theorem mem_bucket_groupKey {entity : Entity} (mem : entity ∈ entities)
    (available : MergeStrategy.isAvailable entity.span = true) :
    entity.id ∈ (groups entities).bucket (groupKey entity) :=
  mem_bucket_groups.2 ⟨entity, mem, available, rfl, rfl⟩

theorem mem_orderedKeys (mem : id ∈ (groups entities).bucket key) : key ∈ orderedKeys entities := by
  rw [orderedKeys, mem_sortByKey, mem_keys_iff]
  rw [bucket] at mem
  cases found : (groups entities).lookup key with
  | none =>
    rw [found] at mem
    cases mem
  | some ids => exact ⟨ids, rfl⟩

private theorem best_fold_mem (rest : List EntityId) (found : EntityId × Nat) :
    (rest.foldl (fun found id =>
      if found.2 < score entities id then (id, score entities id) else found) found).1 ∈
        found.1 :: rest := by
  induction rest generalizing found with
  | nil => exact mem_cons_self
  | cons id rest ih =>
    rw [foldl_cons]
    split
    · exact mem_cons_of_mem _ (ih (id, score entities id))
    · rcases mem_cons.1 (ih found) with same | later
      · rw [same]
        exact mem_cons_self
      · exact mem_cons_of_mem _ (mem_cons_of_mem _ later)

theorem canonicalOf_mem
    (chosen : canonicalOf entities key = some id) : id ∈ (groups entities).bucket key := by
  unfold canonicalOf at chosen
  cases bucket : (groups entities).bucket key with
  | nil =>
    rw [bucket] at chosen
    cases chosen
  | cons first rest =>
    rw [bucket] at chosen
    cases chosen
    exact best_fold_mem rest (first, score entities first)

theorem exists_canonicalOf (mem : id ∈ (groups entities).bucket key) :
    ∃ canonical, canonicalOf entities key = some canonical := by
  unfold canonicalOf
  cases bucket : (groups entities).bucket key with
  | nil =>
    rw [bucket] at mem
    cases mem
  | cons first rest => exact ⟨_, rfl⟩

theorem canonicalIds_subset (mem : id ∈ canonicalIds entities) :
    id ∈ numbers entities := by
  rcases mem_append.1 mem with spanless | canonical
  · obtain ⟨entity, entityMem, same⟩ := mem_map.1 spanless
    exact ⟨entity, (mem_filter.1 entityMem).1, same⟩
  · obtain ⟨entity, entityMem, same⟩ := mem_map.1 canonical
    exact ⟨entity, (mem_filter.1 entityMem).1, same⟩

theorem canonicalOf_mem_canonicalIds
    (chosen : canonicalOf entities key = some id) : id ∈ canonicalIds entities := by
  have member := canonicalOf_mem chosen
  have listed : id ∈ canonicalSet entities :=
    mem_filterMap.2 ⟨key, mem_orderedKeys member, chosen⟩
  obtain ⟨entity, mem, available, _, rfl⟩ := mem_bucket_groups.1 member
  refine mem_append_right _ (mem_map.2 ⟨entity, mem_filter.2 ⟨mem, ?_⟩, rfl⟩)
  rw [available, decide_eq_true listed]
  rfl

theorem of_mem_canonicalIds (mem : id ∈ canonicalIds entities) :
    (∃ entity ∈ entities, MergeStrategy.isAvailable entity.span = false ∧ entity.id = id) ∨
      ∃ key, canonicalOf entities key = some id := by
  rcases mem_append.1 mem with spanless | canonical
  · obtain ⟨entity, entityMem, same⟩ := mem_map.1 spanless
    obtain ⟨entityMem, away⟩ := mem_filter.1 entityMem
    exact Or.inl ⟨entity, entityMem, (Bool.not_eq_true' _).mp away, same⟩
  · obtain ⟨entity, entityMem, same⟩ := mem_map.1 canonical
    obtain ⟨_, both⟩ := mem_filter.1 entityMem
    obtain ⟨_, listed⟩ := (Bool.and_eq_true _ _).mp both
    obtain ⟨key, _, chosen⟩ := mem_filterMap.1 (of_decide_eq_true listed)
    exact Or.inr ⟨key, chosen.trans (congrArg some same)⟩

end Groups

section Representatives

variable {entities : List Entity}

/-- The entity that stands for a number. -/
def representative (entities : List Entity) (id : EntityId) : EntityId :=
  ((aliasToCanonical entities).lookup id).getD id

theorem exists_of_lookup_aliasToCanonical {second canonical : EntityId}
    (found : (aliasToCanonical entities).lookup second = some canonical) :
    ∃ key, second ∈ (groups entities).bucket key ∧ canonicalOf entities key = some canonical ∧
      second ≠ canonical := by
  obtain ⟨key, _, listed⟩ := mem_flatMap.1 (exists_of_lookup_extend found)
  unfold aliasesOf at listed
  cases chosen : canonicalOf entities key with
  | none =>
    rw [chosen] at listed
    cases listed
  | some standing =>
    rw [chosen] at listed
    obtain ⟨id, mem, pair⟩ := mem_map.1 listed
    cases pair
    obtain ⟨mem, other⟩ := mem_filter.1 mem
    exact ⟨key, mem, chosen, of_decide_eq_true other⟩

variable (oneNode : OneNode entities)

include oneNode

variable {id : EntityId}

theorem OneNode.key_eq {key key' : GroupKey}
    (mem : id ∈ (groups entities).bucket key) (mem' : id ∈ (groups entities).bucket key') :
    key = key' := by
  obtain ⟨a, aMem, _, rfl, same⟩ := mem_bucket_groups.1 mem
  obtain ⟨b, bMem, _, rfl, same'⟩ := mem_bucket_groups.1 mem'
  exact (oneNode b bMem a aMem (same'.trans same.symm)).groupKey_eq

variable {key : GroupKey}

theorem OneNode.available {entity : Entity} (entityMem : entity ∈ entities)
    (mem : entity.id ∈ (groups entities).bucket key) :
    MergeStrategy.isAvailable entity.span = true := by
  obtain ⟨a, aMem, available, _, same⟩ := mem_bucket_groups.1 mem
  exact (oneNode a aMem entity entityMem same).available_eq.trans available

theorem OneNode.lookup_aliasToCanonical {second canonical : EntityId}
    (mem : second ∈ (groups entities).bucket key)
    (chosen : canonicalOf entities key = some canonical) (other : second ≠ canonical) :
    (aliasToCanonical entities).lookup second = some canonical := by
  have listed : (second, canonical) ∈ aliasesOf entities key := by
    unfold aliasesOf
    rw [chosen]
    exact mem_map.2 ⟨second, mem_filter.2 ⟨mem, decide_eq_true other⟩, rfl⟩
  refine lookup_extend_of_mem (mem_flatMap.2 ⟨key, mem_orderedKeys mem, listed⟩) fun w listed' => ?_
  obtain ⟨key', _, listed'⟩ := mem_flatMap.1 listed'
  unfold aliasesOf at listed'
  cases chosen' : canonicalOf entities key' with
  | none =>
    rw [chosen'] at listed'
    cases listed'
  | some standing =>
    rw [chosen'] at listed'
    obtain ⟨id, mem', pair⟩ := mem_map.1 listed'
    cases pair
    have sameKey := oneNode.key_eq mem (mem_filter.1 mem').1
    rw [sameKey, chosen'] at chosen
    exact Option.some.inj chosen

theorem OneNode.canonicalOf_representative
    (mem : id ∈ (groups entities).bucket key) :
    canonicalOf entities key = some (representative entities id) := by
  obtain ⟨canonical, chosen⟩ := exists_canonicalOf mem
  unfold representative
  by_cases same : id = canonical
  · cases found : (aliasToCanonical entities).lookup id with
    | none => rw [chosen, same, Option.getD_none]
    | some standing =>
      obtain ⟨key', mem', chosen', other⟩ := exists_of_lookup_aliasToCanonical found
      rw [← oneNode.key_eq mem mem', chosen] at chosen'
      exact absurd (same.trans (Option.some.inj chosen')) other
  · rw [oneNode.lookup_aliasToCanonical mem chosen same, chosen, Option.getD_some]

theorem OneNode.representative_of_unavailable {entity : Entity} (mem : entity ∈ entities)
    (away : MergeStrategy.isAvailable entity.span = false) :
    representative entities entity.id = entity.id := by
  unfold representative
  cases found : (aliasToCanonical entities).lookup entity.id with
  | none => rfl
  | some canonical =>
    obtain ⟨key, member, _, _⟩ := exists_of_lookup_aliasToCanonical found
    rw [oneNode.available mem member] at away
    cases away

theorem OneNode.representative_mem (mem : id ∈ numbers entities) :
    representative entities id ∈ canonicalIds entities := by
  obtain ⟨entity, entityMem, rfl⟩ := mem
  cases available : MergeStrategy.isAvailable entity.span with
  | true =>
    exact canonicalOf_mem_canonicalIds
      (oneNode.canonicalOf_representative (mem_bucket_groupKey entityMem available))
  | false =>
    rw [oneNode.representative_of_unavailable entityMem available]
    refine mem_append_left _ (mem_map.2 ⟨entity, mem_filter.2 ⟨entityMem, ?_⟩, rfl⟩)
    rw [available]
    rfl

theorem OneNode.representative_eq (mem : id ∈ canonicalIds entities) :
    representative entities id = id := by
  rcases of_mem_canonicalIds mem with ⟨entity, entityMem, away, rfl⟩ | ⟨key, chosen⟩
  · exact oneNode.representative_of_unavailable entityMem away
  · have standing := oneNode.canonicalOf_representative (canonicalOf_mem chosen)
    rw [chosen] at standing
    exact (Option.some.inj standing).symm

theorem OneNode.representative_eq_iff {a b : EntityId} (aMem : a ∈ numbers entities)
    (bMem : b ∈ numbers entities) :
    representative entities a = representative entities b ↔ OneNumber entities a b := by
  obtain ⟨first, firstMem, rfl⟩ := aMem
  obtain ⟨second, secondMem, rfl⟩ := bMem
  constructor
  · intro same
    cases availableA : MergeStrategy.isAvailable first.span with
    | true =>
      have memA := mem_bucket_groupKey firstMem availableA
      have chosenA := oneNode.canonicalOf_representative memA
      cases availableB : MergeStrategy.isAvailable second.span with
      | true =>
        have memB := mem_bucket_groupKey secondMem availableB
        have chosenB := oneNode.canonicalOf_representative memB
        rw [← same] at chosenB
        have key := oneNode.key_eq (canonicalOf_mem chosenA) (canonicalOf_mem chosenB)
        exact Or.inr ⟨first, firstMem, second, secondMem, rfl, rfl, availableA, availableB, key⟩
      | false =>
        rw [oneNode.representative_of_unavailable secondMem availableB] at same
        rw [same] at chosenA
        rw [oneNode.available secondMem (canonicalOf_mem chosenA)] at availableB
        cases availableB
    | false =>
      rw [oneNode.representative_of_unavailable firstMem availableA] at same
      cases availableB : MergeStrategy.isAvailable second.span with
      | true =>
        have chosenB := oneNode.canonicalOf_representative
          (mem_bucket_groupKey secondMem availableB)
        rw [← same] at chosenB
        rw [oneNode.available firstMem (canonicalOf_mem chosenB)] at availableA
        cases availableA
      | false =>
        rw [oneNode.representative_of_unavailable secondMem availableB] at same
        exact Or.inl same
  · rintro (same | ⟨a, aMem, b, bMem, sameA, sameB, availableA, availableB, key⟩)
    · rw [same]
    · have chosenA := oneNode.canonicalOf_representative (mem_bucket_groupKey aMem availableA)
      have chosenB := oneNode.canonicalOf_representative (mem_bucket_groupKey bMem availableB)
      rw [key, chosenB, sameA, sameB] at chosenA
      exact (Option.some.inj chosenA).symm

end Representatives

section Remap

theorem lookup_addAlias {base : HashMap EntityId EntityId} {entry : EntityId × EntityId}
    (known : (base.lookup entry.2).isSome) (id : EntityId) :
    (addAlias base entry).lookup id =
      if id = entry.1 then base.lookup entry.2 else base.lookup id := by
  obtain ⟨global, found⟩ := Option.isSome_iff_exists.1 known
  unfold addAlias
  rw [found]
  exact lookup_insert_eq base entry.1 id global

theorem lookup_foldl_addAlias {entries : List (EntityId × EntityId)}
    (apart : ∀ p ∈ entries, ∀ q ∈ entries, q.2 ≠ p.1) (once : (entries.map Prod.fst).Nodup)
    (base : HashMap EntityId EntityId) (known : ∀ p ∈ entries, (base.lookup p.2).isSome) :
    (∀ id, id ∉ entries.map Prod.fst → (entries.foldl addAlias base).lookup id = base.lookup id) ∧
      ∀ p ∈ entries, (entries.foldl addAlias base).lookup p.1 = base.lookup p.2 := by
  induction entries generalizing base with
  | nil => exact ⟨fun _ _ => rfl, fun p mem => absurd mem not_mem_nil⟩
  | cons entry entries ih =>
    obtain ⟨absent, once⟩ := nodup_cons.1 once
    have step := lookup_addAlias (known entry mem_cons_self)
    have kept : ∀ p ∈ entry :: entries, (addAlias base entry).lookup p.2 = base.lookup p.2 := by
      intro p mem
      rw [step, if_neg (apart entry mem_cons_self p mem)]
    obtain ⟨others, listed⟩ := ih
      (fun p pMem q qMem => apart p (mem_cons_of_mem _ pMem) q (mem_cons_of_mem _ qMem))
      once (addAlias base entry) fun p mem => by
        rw [kept p (mem_cons_of_mem _ mem)]
        exact known p (mem_cons_of_mem _ mem)
    constructor
    · intro id fresh
      rw [map_cons, mem_cons, not_or] at fresh
      rw [foldl_cons, others id fresh.2, step, if_neg fresh.1]
    · intro p mem
      rw [foldl_cons]
      rcases mem_cons.1 mem with rfl | later
      · rw [others p.1 absent, step, if_pos rfl]
      · rw [listed p later, kept p mem]

variable {entities : List Entity} (counter : Nat)

theorem lookup_allocated {id global : EntityId}
    (found : (allocated entities counter).lookup id = some global) :
    counter ≤ global ∧ (canonicalIds entities)[global - counter]? = some id := by
  have listed := exists_of_lookup_extend found
  exact mem_zipIdx_iff_le_and_getElem?_sub.1 listed

theorem isSome_lookup_allocated {id : EntityId} :
    ((allocated entities counter).lookup id).isSome ↔ id ∈ canonicalIds entities := by
  unfold allocated
  rw [isSome_lookup_extend, zipIdx_map_fst]
  simp

theorem allocated_inj {a b global : EntityId}
    (foundA : (allocated entities counter).lookup a = some global)
    (foundB : (allocated entities counter).lookup b = some global) : a = b := by
  have atA := (lookup_allocated counter foundA).2
  have atB := (lookup_allocated counter foundB).2
  rw [atA] at atB
  exact Option.some.inj atB

variable {iterate : HashMap EntityId EntityId → List (EntityId × EntityId)}
  (order : ∀ table, (iterate table).Perm table.toList) (oneNode : OneNode entities)

include order oneNode

theorem lookup_remap (id : EntityId) :
    (remap entities iterate counter).lookup id =
      (allocated entities counter).lookup (representative entities id) := by
  have entry : ∀ p ∈ iterate (aliasToCanonical entities),
      (aliasToCanonical entities).lookup p.1 = some p.2 := fun p mem =>
    mem_toList.1 ((order _).mem_iff.1 mem)
  have standing : ∀ p ∈ iterate (aliasToCanonical entities), p.2 ∈ canonicalIds entities := by
    intro p mem
    obtain ⟨key, _, chosen, _⟩ := exists_of_lookup_aliasToCanonical (entry p mem)
    exact canonicalOf_mem_canonicalIds chosen
  -- what stands for an alias is no alias, so the order does not matter
  have apart : ∀ p ∈ iterate (aliasToCanonical entities),
      ∀ q ∈ iterate (aliasToCanonical entities), q.2 ≠ p.1 := by
    intro p pMem q qMem same
    have itself := oneNode.representative_eq (standing q qMem)
    obtain ⟨_, _, _, other⟩ := exists_of_lookup_aliasToCanonical (entry p pMem)
    rw [same, representative, entry p pMem, Option.getD_some] at itself
    exact other itself.symm
  have once : ((iterate (aliasToCanonical entities)).map Prod.fst).Nodup := by
    rw [((order _).map Prod.fst).nodup_iff, map_fst_toList]
    exact AList.keys_nodup _
  obtain ⟨others, listed⟩ := lookup_foldl_addAlias apart once (allocated entities counter)
    fun p mem => (isSome_lookup_allocated counter).2 (standing p mem)
  unfold remap representative
  cases found : (aliasToCanonical entities).lookup id with
  | none =>
    refine others id fun mem => ?_
    obtain ⟨p, pMem, rfl⟩ := mem_map.1 mem
    rw [entry p pMem] at found
    cases found
  | some canonical =>
    have mem : (id, canonical) ∈ iterate (aliasToCanonical entities) :=
      (order _).mem_iff.2 (mem_toList.2 found)
    exact listed (id, canonical) mem

theorem isSome_lookup_remap {id : EntityId} :
    ((remap entities iterate counter).lookup id).isSome ↔ id ∈ numbers entities := by
  rw [lookup_remap counter order oneNode, isSome_lookup_allocated]
  constructor
  · intro mem
    unfold representative at mem
    cases found : (aliasToCanonical entities).lookup id with
    | none =>
      rw [found] at mem
      exact canonicalIds_subset mem
    | some canonical =>
      obtain ⟨key, member, _, _⟩ := exists_of_lookup_aliasToCanonical found
      obtain ⟨entity, entityMem, _, _, same⟩ := mem_bucket_groups.1 member
      exact ⟨entity, entityMem, same⟩
  · exact oneNode.representative_mem

theorem lookup_remap_of_canonical {id : EntityId} (mem : id ∈ canonicalIds entities) :
    (remap entities iterate counter).lookup id = (allocated entities counter).lookup id := by
  rw [lookup_remap counter order oneNode, oneNode.representative_eq mem]

theorem lookup_remap_eq_iff {a b : EntityId} (aMem : a ∈ numbers entities)
    (bMem : b ∈ numbers entities) :
    (remap entities iterate counter).lookup a = (remap entities iterate counter).lookup b ↔
      OneNumber entities a b := by
  rw [← oneNode.representative_eq_iff aMem bMem, lookup_remap counter order oneNode,
    lookup_remap counter order oneNode]
  constructor
  · intro same
    obtain ⟨global, found⟩ := Option.isSome_iff_exists.1
      ((isSome_lookup_allocated counter).2 (oneNode.representative_mem aMem))
    exact allocated_inj counter found (same.symm.trans found)
  · intro same
    rw [same]

end Remap

end FileEntities

end ContextEngine

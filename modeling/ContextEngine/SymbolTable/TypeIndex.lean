/- digest: The global type index, and when it is the disjoint union of the indexes of the modules.
   -/

import ContextEngine.Lib.Listing
import ContextEngine.Lib.Runs
import ContextEngine.Types.SymbolKey

set_option autoImplicit false

namespace ContextEngine

inductive Language where
  | c | cpp | cSharp
  | javaScript | typeScript
  | html | css | scss | less | vue | svelte | ejs | jsx | tsx
  | rust | go
  | java | kotlin | scala
  | python | ruby | php | dart
  | bash | lua
  | unknown
  | json | yaml | toml | xml
  | custom (index : Nat)
  deriving DecidableEq

inductive Visibility where
  | publicAll | package | moduleOnly | superOnly | privateOnly
  | restricted (path : String)
  | protectedOnly | internalOnly | protectedInternal | privateProtected
  | friend (allowed : List String)
  deriving DecidableEq

structure TypeKey where
  qualified : String
  simple : String
  filePath : String
  deriving DecidableEq

structure MemberEntry where
  entityId : EntityId
  name : String
  kind : EntityKind
  visibility : Visibility
  isStatic : Bool
  isAssociated : Bool
  span : Span
  filePath : String
  modulePath : Option String
  package : String
  deriving DecidableEq

/-- A type with its members by name, its fields by name, its constructors and the names of its
direct supertypes. -/
structure TypeEntry where
  entityId : EntityId
  key : TypeKey
  kind : EntityKind
  language : Language
  visibility : Visibility
  members : HashMap String (List MemberEntry)
  fields : HashMap String MemberEntry
  constructors : List MemberEntry
  isPlaceholder : Bool
  supertypes : List String
  deriving DecidableEq

namespace TypeEntry

def new (entityId : EntityId) (key : TypeKey) (kind : EntityKind) (language : Language)
    (visibility : Visibility) : TypeEntry where
  entityId := entityId
  key := key
  kind := kind
  language := language
  visibility := visibility
  members := ∅
  fields := ∅
  constructors := []
  isPlaceholder := false
  supertypes := []

def placeholder (key : TypeKey) (language : Language) : TypeEntry :=
  { new 0 key .structKind language .publicAll with isPlaceholder := true }

/-- The numbers of everything a type holds. -/
def memberIds (entry : TypeEntry) : List EntityId :=
  (entry.members.values.flatten ++ entry.fields.values ++ entry.constructors).map
    MemberEntry.entityId

/-- Drop what was written in a file, and the names left without a member. -/
def withoutFile (entry : TypeEntry) (filePath : String) : TypeEntry :=
  { entry with
    members := HashMap.retain
      (entry.members.mapValues fun members => members.filter fun m => m.filePath ≠ filePath)
      fun _ members => !members.isEmpty
    fields := entry.fields.retain fun _ m => m.filePath ≠ filePath
    constructors := entry.constructors.filter fun m => m.filePath ≠ filePath }

end TypeEntry

structure DuplicateEvent where
  typeKey : TypeKey
  memberName : String
  duplicateEntityId : EntityId
  deriving DecidableEq

/-- The index: types by key, the owner of every member, and the keys by either name. -/
structure TypeMemberIndex where
  types : HashMap TypeKey TypeEntry
  memberToType : HashMap EntityId TypeKey
  qualifiedIndex : HashMap String (List TypeKey)
  simpleIndex : HashMap String (List TypeKey)
  deriving DecidableEq

namespace TypeMemberIndex

def new : TypeMemberIndex := ⟨∅, ∅, ∅, ∅⟩

def isEmpty (index : TypeMemberIndex) : Bool := index.types.toList.isEmpty

section Building

variable (index : TypeMemberIndex) (key : TypeKey)

def fileType (entry : TypeEntry) : TypeMemberIndex :=
  { index with
    types := index.types.insert key entry
    qualifiedIndex := index.qualifiedIndex.bucketPush key.qualified key
    simpleIndex := index.simpleIndex.bucketPush key.simple key }

def insertType (entry : TypeEntry) : TypeMemberIndex :=
  if (index.types.lookup key).isSome then index else index.fileType key { entry with key }

def upsertTypePlaceholder (language : Language) :
    TypeMemberIndex :=
  if (index.types.lookup key).isSome then index
  else index.fileType key (.placeholder key language)

/-- Add a member to a filed type: a constructor or a member unless its number is there, a field
unless its name is. A duplicate is returned; its owner is set all the same. -/
def insertMember (typeKey : TypeKey) (member : MemberEntry) :
    TypeMemberIndex × Option DuplicateEvent :=
  match index.types.lookup typeKey with
  | none => (index, none)
  | some entry =>
    let known (list : List MemberEntry) : Bool := list.any fun m => m.entityId = member.entityId
    let (extended, dup) : TypeEntry × Option String :=
      if member.kind = .constructor then
        if known entry.constructors then (entry, some "constructor")
        else ({ entry with constructors := entry.constructors ++ [member] }, none)
      else if member.kind = .field ∨ member.kind = .property then
        if (entry.fields.lookup member.name).isSome then (entry, some member.name)
        else ({ entry with fields := entry.fields.insert member.name member }, none)
      else if known (entry.members.bucket member.name) then (entry, some member.name)
      else ({ entry with members := entry.members.bucketPush member.name member }, none)
    ({ index with
        types := index.types.insert typeKey extended
        memberToType := index.memberToType.insert member.entityId typeKey },
      dup.map fun name => ⟨typeKey, name, member.entityId⟩)

end Building

section Queries

variable (index : TypeMemberIndex)

def getTypeByKey (key : TypeKey) : Option TypeEntry :=
  index.types.lookup key

def typesNamed (qualified : String) : List TypeEntry :=
  (index.qualifiedIndex.bucket qualified).filterMap index.types.lookup

def getType (qualified : String) : Option TypeEntry :=
  ((index.typesNamed qualified).find? fun entry => !entry.isPlaceholder).or
    (index.typesNamed qualified).head?

def getTypeBySimple (simple : String) : List TypeEntry :=
  (index.simpleIndex.bucket simple).filterMap index.types.lookup

def getMembers (qualified name : String) : Option (List MemberEntry) :=
  (index.getType qualified).bind fun entry => entry.members.lookup name

def ownerOf (memberId : EntityId) : Option TypeKey :=
  index.memberToType.lookup memberId

def typeKeys : List TypeKey := index.types.keys

end Queries

section Removal

def removeType (index : TypeMemberIndex) (key : TypeKey) : TypeMemberIndex :=
  match index.types.lookup key with
  | none => index
  | some entry =>
    { types := index.types.erase key
      memberToType := index.memberToType.eraseAll entry.memberIds
      qualifiedIndex := index.qualifiedIndex.bucketErase key.qualified key
      simpleIndex := index.simpleIndex.bucketErase key.simple key }

/-- Drop the types filed under a file, what the file wrote into other types, and the owners of
members that no type holds any more. -/
def removeFileContribution (index : TypeMemberIndex) (filePath : String) : TypeMemberIndex :=
  let keys := index.types.keys.filter fun key => key.filePath = filePath
  let dropped := keys.foldl removeType index
  let types := dropped.types.mapValues fun entry => entry.withoutFile filePath
  let stillPresent := HashSet.ofList (types.values.flatMap TypeEntry.memberIds)
  let owners := dropped.memberToType.retain fun _ key => key.filePath ≠ filePath
  { dropped with
    types := types
    memberToType := HashMap.retain owners fun memberId _ => memberId ∈ stillPresent }

end Removal

section Merging

/-- A type while another is merged into it, the owners, and the duplicates met so far. -/
structure Merge where
  entry : TypeEntry
  owners : HashMap EntityId TypeKey
  dups : List DuplicateEvent

variable (key : TypeKey) (fix : MemberEntry → MemberEntry)

/-- Add one member under a name, as `fix` leaves it, unless one of its number and file is there. -/
def mergeMember (name : String) (merge : Merge)
    (member : MemberEntry) : Merge :=
  let known := (merge.entry.members.bucket name).any fun m =>
    m.entityId = member.entityId ∧ m.filePath = member.filePath
  if known then { merge with dups := merge.dups ++ [⟨key, member.name, member.entityId⟩] }
  else
    { merge with
      entry := { merge.entry with
        members := merge.entry.members.bucketPush name (fix member) }
      owners := merge.owners.insert member.entityId key }

variable (merge : Merge)

/-- Add the members of one name; the name gets an entry even if there are none. -/
def mergeMembers
    (named : String × List MemberEntry) : Merge :=
  named.2.foldl (mergeMember key fix named.1)
    { merge with
      entry := { merge.entry with
        members := merge.entry.members.insert named.1 (merge.entry.members.bucket named.1) } }

/-- Add a field unless its name is taken; its owner is set either way. -/
def mergeField (named : String × MemberEntry) : Merge :=
  let owners := merge.owners.insert named.2.entityId key
  if (merge.entry.fields.lookup named.1).isSome then
    { merge with
      owners := owners
      dups := merge.dups ++ [⟨key, named.1, named.2.entityId⟩] }
  else
    { merge with
      entry := { merge.entry with fields := merge.entry.fields.insert named.1 named.2 }
      owners := owners }

/-- Add a constructor unless its number is there. -/
def mergeConstructor (ctor : MemberEntry) : Merge :=
  if merge.entry.constructors.any fun m => m.entityId = ctor.entityId then
    { merge with dups := merge.dups ++ [⟨key, ctor.name, ctor.entityId⟩] }
  else
    { merge with
      entry := { merge.entry with constructors := merge.entry.constructors ++ [ctor] }
      owners := merge.owners.insert ctor.entityId key }

def mergeHoldings (start : Merge)
    (entry : TypeEntry) : Merge :=
  let members := entry.members.toList.foldl (mergeMembers key fix) start
  let fields := entry.fields.toList.foldl (mergeField key) members
  entry.constructors.foldl (mergeConstructor key) fields

def adoptType (index : TypeMemberIndex) (key : TypeKey) (entry : TypeEntry) : TypeMemberIndex :=
  { index.fileType key entry with
    memberToType := entry.memberIds.foldl (fun owners id => owners.insert id key)
      index.memberToType }

/-- Merge one type: into the type under the same key, where a placeholder becomes real, or as a
new one. -/
def mergeType (merged : TypeMemberIndex × List DuplicateEvent) (named : TypeKey × TypeEntry) :
    TypeMemberIndex × List DuplicateEvent :=
  let (key, entry) := named
  match merged.1.types.lookup key with
  | some existing =>
    let merge := mergeHoldings key id ⟨existing, merged.1.memberToType, merged.2⟩ entry
    let completed : TypeEntry :=
      if merge.entry.isPlaceholder && !entry.isPlaceholder then
        { merge.entry with
          entityId := entry.entityId
          kind := entry.kind
          visibility := entry.visibility
          isPlaceholder := false }
      else merge.entry
    ({ merged.1 with
        types := merged.1.types.insert key completed
        memberToType := merge.owners },
      merge.dups)
  | none => (merged.1.adoptType key entry, merged.2)

/-- Merge every type of another index; the duplicates met are returned. -/
def mergeFrom (index other : TypeMemberIndex) : TypeMemberIndex × List DuplicateEvent :=
  other.types.toList.foldl mergeType (index, [])

end Merging

section Placeholders

def beforeLastSeparator : List Char → Option (List Char)
  | [] => none
  | c :: rest =>
    match beforeLastSeparator rest with
    | some before => some (c :: before)
    | none => if c = ':' ∧ rest.head? = some ':' then some [] else none

def modulePathOf (qualified : String) : Option String :=
  (beforeLastSeparator qualified.toList).map String.ofList

/-- The first type listed under a simple name that is no placeholder. -/
def realKeyOf (index : TypeMemberIndex) (simple : String) : Option TypeKey :=
  (index.simpleIndex.bucket simple).find? fun key =>
    (index.types.lookup key).any fun entry => !entry.isPlaceholder && entry.key.simple = simple

def completePlaceholder (source index : TypeMemberIndex) (toMerge : TypeKey × TypeKey) :
    TypeMemberIndex :=
  let (placeholderKey, realKey) := toMerge
  match source.types.lookup placeholderKey with
  | none => index
  | some placeholder =>
    let moved : TypeMemberIndex :=
      match index.types.lookup realKey with
      | none => index
      | some real =>
        let fix (m : MemberEntry) : MemberEntry :=
          { m with modulePath := modulePathOf realKey.qualified }
        let merge := mergeHoldings realKey fix ⟨real, index.memberToType, []⟩ placeholder
        { index with
          types := index.types.insert realKey merge.entry
          memberToType := merge.owners }
    moved.removeType placeholderKey

def completePlaceholdersFrom (index source : TypeMemberIndex) : TypeMemberIndex :=
  let toMerge := source.types.toList.filterMap fun named =>
    if named.2.isPlaceholder then
      (index.realKeyOf named.2.key.simple).map fun realKey => (named.1, realKey)
    else none
  toMerge.foldl (completePlaceholder source) index

end Placeholders

end TypeMemberIndex

open TypeMemberIndex

/-- What a project's symbol table holds of types: the index of every module of every package, by
file, the global index over them, and the qualified names every file contributed. -/
structure ProjectSymbolTable where
  modules : HashMap String TypeMemberIndex
  globalTypeIndex : TypeMemberIndex
  fileTypeContrib : HashMap String (HashSet String)

namespace ProjectSymbolTable

def contributed (index : TypeMemberIndex) : HashSet String :=
  .ofList (index.typeKeys.map TypeKey.qualified)

/-- The global index over modules in their iteration order: all merged, then the placeholders of
each completed. -/
def globalOf (modules : HashMap String TypeMemberIndex) : TypeMemberIndex :=
  let moduleIndexes := modules.values.filter fun index => !index.isEmpty
  let merged := moduleIndexes.foldl
    (fun global index => (global.mergeFrom index).1) TypeMemberIndex.new
  moduleIndexes.foldl completePlaceholdersFrom merged

variable (project : ProjectSymbolTable)

def rebuildGlobalTypeIndex : ProjectSymbolTable :=
  { project with
    globalTypeIndex := globalOf project.modules
    fileTypeContrib :=
      HashMap.extend ∅ <|
        (project.modules.toList.filter fun entry => !entry.2.isEmpty).map fun entry =>
          (entry.1, contributed entry.2) }

def pruneFileTypes (filePath : String)
    (newQualified : HashSet String) : ProjectSymbolTable :=
  let normalized := normalizeProjectPath filePath
  { project with
    globalTypeIndex := project.globalTypeIndex.removeFileContribution normalized
    fileTypeContrib := project.fileTypeContrib.insert normalized newQualified }

def applyTypeDeltaForFile (filePath : String)
    (newIndex : TypeMemberIndex) : ProjectSymbolTable :=
  let normalized := normalizeProjectPath filePath
  let removed := project.globalTypeIndex.removeFileContribution normalized
  { project with
    globalTypeIndex :=
      if newIndex.isEmpty then removed
      else (removed.mergeFrom newIndex).1.completePlaceholdersFrom newIndex
    fileTypeContrib := project.fileTypeContrib.insert normalized (contributed newIndex) }

inductive TypeOp where
  | applyTypeDeltaForFile (filePath : String) (newIndex : TypeMemberIndex)
  | pruneFileTypes (filePath : String) (newQualified : HashSet String)
  | rebuildGlobalTypeIndex

/-- The modules after a change: the module of the file is replaced or gone. -/
def modulesAfter (modules : HashMap String TypeMemberIndex) :
    TypeOp → HashMap String TypeMemberIndex
  | .applyTypeDeltaForFile filePath newIndex => modules.insert filePath newIndex
  | .pruneFileTypes filePath _ => modules.erase filePath
  | .rebuildGlobalTypeIndex => modules

/-- The modules change first, then the global index follows. -/
def applyOp (op : TypeOp) : ProjectSymbolTable :=
  let changed : ProjectSymbolTable := { project with modules := modulesAfter project.modules op }
  match op with
  | .applyTypeDeltaForFile filePath newIndex => changed.applyTypeDeltaForFile filePath newIndex
  | .pruneFileTypes filePath newQualified => changed.pruneFileTypes filePath newQualified
  | .rebuildGlobalTypeIndex => changed.rebuildGlobalTypeIndex

end ProjectSymbolTable

open List HashMap TypeMemberIndex

section Modules

def storedType (modules : HashMap String TypeMemberIndex) (key : TypeKey) : Option TypeEntry :=
  (modules.lookup key.filePath).bind fun index => index.types.lookup key

def moduleKeys (modules : HashMap String TypeMemberIndex) (file : String) : List TypeKey :=
  ((modules.lookup file).map fun index => index.types.keys).getD []

/-- Everything a type holds was written in the file, and no name is left without a member. -/
structure TypeEntry.WrittenIn (entry : TypeEntry) (file : String) : Prop where
  members : ∀ name list, entry.members.lookup name = some list →
    list ≠ [] ∧ ∀ m ∈ list, m.filePath = file
  fields : ∀ name m, entry.fields.lookup name = some m → m.filePath = file
  constructors : ∀ m ∈ entry.constructors, m.filePath = file

/-- The index of a file: its types are filed under the file, with everything in them. -/
structure FileOwns (file : String) (index : TypeMemberIndex) : Prop where
  key : ∀ key entry, index.types.lookup key = some entry → entry.key = key
  filed : ∀ key entry, index.types.lookup key = some entry → key.filePath = file
  written : ∀ key entry, index.types.lookup key = some entry → entry.WrittenIn file

/-- Modules whose types do not interfere: every module owns what it files, a number is in one type
only, no placeholder has the simple name of a real type, and a qualified name is told apart within
one file. -/
structure Coherent (modules : HashMap String TypeMemberIndex) : Prop where
  owns : ∀ file index, modules.lookup file = some index → FileOwns file index
  apart : ∀ key entry key' entry' id, storedType modules key = some entry →
    storedType modules key' = some entry' → id ∈ entry.memberIds → id ∈ entry'.memberIds →
      key = key'
  unmet : ∀ key entry key' entry', storedType modules key = some entry →
    storedType modules key' = some entry' → entry.isPlaceholder = true →
      entry'.isPlaceholder = false → key.simple ≠ key'.simple
  oneReal : ∀ key entry key' entry', storedType modules key = some entry →
    storedType modules key' = some entry' → key.qualified = key'.qualified →
      entry.isPlaceholder = false → entry'.isPlaceholder = false → key.filePath = key'.filePath
  onePlaceholder : ∀ key entry key' entry', storedType modules key = some entry →
    storedType modules key' = some entry' → key.qualified = key'.qualified →
      (∀ real found, storedType modules real = some found → real.qualified = key.qualified →
        found.isPlaceholder = true) → key.filePath = key'.filePath

variable {modules modules' : HashMap String TypeMemberIndex}

theorem storedType_insert (modules : HashMap String TypeMemberIndex) (file : String)
    (index : TypeMemberIndex) (key : TypeKey) :
    storedType (modules.insert file index) key =
      if key.filePath = file then index.types.lookup key else storedType modules key := by
  unfold storedType
  rw [lookup_insert_eq]
  split_ifs <;> rfl

theorem storedType_erase (modules : HashMap String TypeMemberIndex) (file : String)
    (key : TypeKey) :
    storedType (modules.erase file) key =
      if key.filePath = file then none else storedType modules key := by
  unfold storedType
  rw [lookup_erase_eq]
  split_ifs <;> rfl

theorem moduleKeys_insert (modules : HashMap String TypeMemberIndex) (file other : String)
    (index : TypeMemberIndex) :
    moduleKeys (modules.insert file index) other =
      if other = file then index.types.keys else moduleKeys modules other := by
  unfold moduleKeys
  rw [lookup_insert_eq]
  split_ifs <;> rfl

theorem moduleKeys_erase (modules : HashMap String TypeMemberIndex) (file other : String) :
    moduleKeys (modules.erase file) other =
      if other = file then [] else moduleKeys modules other := by
  unfold moduleKeys
  rw [lookup_erase_eq]
  split_ifs <;> rfl

theorem storedType_congr (same : ∀ file, modules'.lookup file = modules.lookup file)
    (key : TypeKey) : storedType modules' key = storedType modules key := by
  unfold storedType
  rw [same]

theorem moduleKeys_congr (same : ∀ file, modules'.lookup file = modules.lookup file)
    (file : String) : moduleKeys modules' file = moduleKeys modules file := by
  unfold moduleKeys
  rw [same]

theorem Coherent.congr (coherent : Coherent modules)
    (same : ∀ file, modules'.lookup file = modules.lookup file) : Coherent modules' := by
  obtain ⟨owns, apart, unmet, oneReal, onePlaceholder⟩ := coherent
  constructor
  · intro file index found
    exact owns file index (same file ▸ found)
  all_goals simp only [storedType_congr same]
  · exact apart
  · exact unmet
  · exact oneReal
  · exact onePlaceholder

theorem mem_moduleKeys_iff {key : TypeKey} :
    key ∈ moduleKeys modules key.filePath ↔ (storedType modules key).isSome := by
  unfold moduleKeys storedType
  cases modules.lookup key.filePath with
  | none => simp
  | some index =>
    simp only [Option.map_some, Option.getD_some, Option.bind_some]
    rw [mem_keys_iff, Option.isSome_iff_exists]

theorem nodup_moduleKeys (modules : HashMap String TypeMemberIndex) (file : String) :
    (moduleKeys modules file).Nodup := by
  unfold moduleKeys
  cases modules.lookup file with
  | none => exact nodup_nil
  | some index => exact index.types.keys_nodup

end Modules

section Entries

theorem TypeEntry.WrittenIn.withoutFile {entry : TypeEntry} {file other : String}
    (written : entry.WrittenIn file) (distinct : file ≠ other) :
    entry.withoutFile other = entry := by
  have kept : ∀ {list : List MemberEntry}, (∀ m ∈ list, m.filePath = file) →
      (list.filter fun m => m.filePath ≠ other) = list := by
    intro list all
    refine filter_eq_self.2 fun m mem => decide_eq_true ?_
    rw [all m mem]
    exact distinct
  have members : entry.members.mapValues (fun members => members.filter fun m =>
      m.filePath ≠ other) = entry.members :=
    mapValues_eq_self fun name list found => kept (written.members name list found).2
  have named : entry.members.retain (fun _ members => !members.isEmpty) = entry.members := by
    refine retain_eq_self fun name list found => ?_
    simpa using (written.members name list found).1
  have fields : entry.fields.retain (fun _ m => m.filePath ≠ other) = entry.fields := by
    refine retain_eq_self fun name m found => decide_eq_true ?_
    rw [written.fields name m found]
    exact distinct
  unfold TypeEntry.withoutFile
  rw [members, named, fields, kept written.constructors]

def OwnersExact (index : TypeMemberIndex) : Prop :=
  ∀ id key, index.memberToType.lookup id = some key ↔
    ∃ entry, index.types.lookup key = some entry ∧ id ∈ entry.memberIds

theorem lookup_foldl_insert_owner (owners : HashMap EntityId TypeKey) (ids : List EntityId)
    (key : TypeKey) (id : EntityId) :
    (ids.foldl (fun owners id => owners.insert id key) owners).lookup id =
      if id ∈ ids then some key else owners.lookup id := by
  induction ids generalizing owners with
  | nil => simp
  | cons head ids ih =>
    rw [foldl_cons, ih, lookup_insert_eq]
    by_cases later : id ∈ ids
    · simp [later]
    · by_cases same : id = head
      · simp [same]
      · simp [later, same]

end Entries

section Adopting

variable {index : TypeMemberIndex}

/-- No number is held by two types, one of which is filed and the other to come or both to come. -/
def IdsApart (index : TypeMemberIndex) (incoming : List (TypeKey × TypeEntry)) : Prop :=
  ∀ named ∈ incoming, ∀ key entry,
    index.types.lookup key = some entry ∨ (key, entry) ∈ incoming → named.1 ≠ key →
      ∀ id ∈ named.2.memberIds, id ∉ entry.memberIds

theorem OwnersExact.adoptType (exact : OwnersExact index) {key : TypeKey} {entry : TypeEntry}
    (new : index.types.lookup key = none)
    (apart : ∀ key' entry', index.types.lookup key' = some entry' →
      ∀ id ∈ entry.memberIds, id ∉ entry'.memberIds) : OwnersExact (index.adoptType key entry) := by
  intro id key'
  change (entry.memberIds.foldl (fun owners id => owners.insert id key)
    index.memberToType).lookup id = some key' ↔
      ∃ entry', (index.types.insert key entry).lookup key' = some entry' ∧ id ∈ entry'.memberIds
  rw [lookup_foldl_insert_owner, lookup_insert_eq]
  by_cases held : id ∈ entry.memberIds
  · rw [if_pos held]
    constructor
    · intro same
      rw [if_pos (Option.some.inj same).symm]
      exact ⟨entry, rfl, held⟩
    · rintro ⟨entry', found, mem⟩
      split_ifs at found with same
      · rw [same]
      · exact absurd mem (apart key' entry' found id held)
  · rw [if_neg held, exact]
    refine exists_congr fun entry' => ?_
    split_ifs with same
    · rw [same, new]
      refine iff_of_false (fun both => by cases both.1) fun both => held ?_
      exact Option.some.inj both.1 ▸ both.2
    · exact Iff.rfl

theorem foldl_mergeType_of_new {incoming : List (TypeKey × TypeEntry)}
    (distinct : (incoming.map Prod.fst).Nodup)
    (new : ∀ named ∈ incoming, index.types.lookup named.1 = none) (dups : List DuplicateEvent) :
    incoming.foldl mergeType (index, dups) =
      (incoming.foldl (fun index named => index.adoptType named.1 named.2) index, dups) := by
  induction incoming generalizing index with
  | nil => rfl
  | cons named incoming ih =>
    have first : mergeType (index, dups) named = (index.adoptType named.1 named.2, dups) := by
      unfold mergeType
      simp only [new named mem_cons_self]
    rw [foldl_cons, foldl_cons, first]
    rw [map_cons, nodup_cons] at distinct
    refine ih distinct.2 fun later mem => ?_
    change (index.types.insert named.1 named.2).lookup later.1 = none
    rw [lookup_insert_eq, if_neg]
    · exact new later (mem_cons_of_mem _ mem)
    · exact fun same => distinct.1 (same ▸ mem_map_of_mem mem)

theorem OwnersExact.foldl_adoptType (exact : OwnersExact index)
    {incoming : List (TypeKey × TypeEntry)} (distinct : (incoming.map Prod.fst).Nodup)
    (new : ∀ named ∈ incoming, index.types.lookup named.1 = none)
    (apart : IdsApart index incoming) :
    OwnersExact (incoming.foldl (fun index named => index.adoptType named.1 named.2) index) := by
  induction incoming generalizing index with
  | nil => exact exact
  | cons named incoming ih =>
    rw [map_cons, nodup_cons] at distinct
    have free := new named mem_cons_self
    have lookup : ∀ key, (index.adoptType named.1 named.2).types.lookup key =
        if key = named.1 then some named.2 else index.types.lookup key := fun key =>
      lookup_insert_eq index.types named.1 key named.2
    refine ih (exact.adoptType free fun key entry found => ?_) distinct.2
      (fun later mem => ?_) fun later mem key entry found different => ?_
    · refine apart named mem_cons_self key entry (Or.inl found) ?_
      rintro rfl
      rw [free] at found
      cases found
    · rw [lookup, if_neg]
      · exact new later (mem_cons_of_mem _ mem)
      · exact fun same => distinct.1 (same ▸ mem_map_of_mem mem)
    · refine apart later (mem_cons_of_mem _ mem) key entry ?_ different
      rw [lookup] at found
      split_ifs at found with same
      · rcases found with this | later
        · refine Or.inr ?_
          rw [same, ← Option.some.inj this]
          exact mem_cons_self
        · exact Or.inr (mem_cons_of_mem _ later)
      · exact found.imp id (mem_cons_of_mem _)

end Adopting

section Removing

variable {index : TypeMemberIndex} {keys : List TypeKey}

theorem lookup_types_foldl_removeType (index : TypeMemberIndex) (keys : List TypeKey)
    (key : TypeKey) :
    (keys.foldl removeType index).types.lookup key =
      if key ∈ keys then none else index.types.lookup key := by
  have once : ∀ (index : TypeMemberIndex) (gone : TypeKey),
      (index.removeType gone).types.lookup key =
      if key = gone then none else index.types.lookup key := by
    intro index gone
    unfold removeType
    cases stored : index.types.lookup gone with
    | none =>
      split_ifs with same
      · exact same ▸ stored
      · rfl
    | some entry => exact lookup_erase_eq _ _ _
  induction keys generalizing index with
  | nil => simp
  | cons gone keys ih =>
    rw [foldl_cons, ih, once]
    by_cases later : key ∈ keys
    · simp [later]
    · by_cases same : key = gone
      · simp [same]
      · simp [later, same]

theorem names_foldl_removeType (distinct : keys.Nodup)
    (stored : ∀ key ∈ keys, (index.types.lookup key).isSome) :
    (keys.foldl removeType index).qualifiedIndex =
        keys.foldl (fun lists key => lists.bucketErase key.qualified key) index.qualifiedIndex ∧
      (keys.foldl removeType index).simpleIndex =
        keys.foldl (fun lists key => lists.bucketErase key.simple key) index.simpleIndex := by
  induction keys generalizing index with
  | nil => exact ⟨rfl, rfl⟩
  | cons key keys ih =>
    obtain ⟨entry, found⟩ := Option.isSome_iff_exists.1 (stored key mem_cons_self)
    rw [nodup_cons] at distinct
    have rest : ∀ later ∈ keys, ((index.removeType key).types.lookup later).isSome := by
      intro later mem
      have kept := lookup_types_foldl_removeType index [key] later
      rw [foldl_cons, foldl_nil, if_neg] at kept
      · rw [kept]
        exact stored later (mem_cons_of_mem _ mem)
      · rintro single
        exact distinct.1 (mem_singleton.1 single ▸ mem)
    have first : (index.removeType key).qualifiedIndex =
        index.qualifiedIndex.bucketErase key.qualified key ∧
          (index.removeType key).simpleIndex = index.simpleIndex.bucketErase key.simple key := by
      unfold removeType
      simp only [found, and_self]
    rw [foldl_cons, foldl_cons, foldl_cons, ← first.1, ← first.2]
    exact ih distinct.2 rest

theorem owner_of_foldl_removeType {id : EntityId} {owner : TypeKey}
    (found : (keys.foldl removeType index).memberToType.lookup id = some owner) :
    index.memberToType.lookup id = some owner := by
  induction keys generalizing index with
  | nil => exact found
  | cons key keys ih =>
    have earlier := ih found
    unfold removeType at earlier
    cases stored : index.types.lookup key with
    | none =>
      simp only [stored] at earlier
      exact earlier
    | some entry =>
      simp only [stored, lookup_eraseAll] at earlier
      split_ifs at earlier
      exact earlier

theorem owner_foldl_removeType {id : EntityId} {owner : TypeKey}
    (owned : index.memberToType.lookup id = some owner)
    (apart : ∀ key ∈ keys, ∀ entry, index.types.lookup key = some entry → id ∉ entry.memberIds) :
    (keys.foldl removeType index).memberToType.lookup id = some owner := by
  induction keys generalizing index with
  | nil => exact owned
  | cons key keys ih =>
    refine ih ?_ fun later mem entry found => ?_
    · unfold removeType
      cases stored : index.types.lookup key with
      | none => exact owned
      | some entry =>
        change (index.memberToType.eraseAll entry.memberIds).lookup id = some owner
        rw [lookup_eraseAll, if_neg (apart key mem_cons_self entry stored)]
        exact owned
    · have kept := lookup_types_foldl_removeType index [key] later
      rw [foldl_cons, foldl_nil] at kept
      rw [kept] at found
      split_ifs at found
      exact apart later (mem_cons_of_mem _ mem) entry found

end Removing

section Represents

/-- The global index holds the types of all modules as they are, its owners are exact, and its
lists name the keys of every module in the order of the module. -/
structure Represents (global : TypeMemberIndex) (modules : HashMap String TypeMemberIndex) :
    Prop where
  types : ∀ key, global.types.lookup key = storedType modules key
  owners : OwnersExact global
  qualified : ListsBySource global.qualifiedIndex TypeKey.qualified TypeKey.filePath
    (moduleKeys modules)
  simple : ListsBySource global.simpleIndex TypeKey.simple TypeKey.filePath (moduleKeys modules)

variable {global : TypeMemberIndex} {modules modules' : HashMap String TypeMemberIndex}

theorem Represents.congr (represents : Represents global modules)
    (types : ∀ key, storedType modules' key = storedType modules key)
    (keys : ∀ file, moduleKeys modules' file = moduleKeys modules file) :
    Represents global modules' where
  types key := (represents.types key).trans (types key).symm
  owners := represents.owners
  qualified := represents.qualified.congr keys
  simple := represents.simple.congr keys

theorem represents_new : Represents TypeMemberIndex.new ∅ where
  types _ := rfl
  owners _ _ := iff_of_false (fun found => by cases found) fun found => by
    obtain ⟨entry, stored, -⟩ := found
    cases stored
  qualified := ListsBySource.empty
  simple := ListsBySource.empty

theorem Represents.removeFileContribution (represents : Represents global modules)
    (coherent : Coherent modules) (file : String) :
    Represents (global.removeFileContribution file) (modules.erase file) := by
  let keys := global.types.keys.filter fun key => key.filePath = file
  have distinct : keys.Nodup := global.types.keys_nodup.filter _
  have mem_keys : ∀ key, key ∈ keys ↔ (global.types.lookup key).isSome ∧ key.filePath = file := by
    intro key
    rw [mem_filter, mem_keys_iff, Option.isSome_iff_exists, decide_eq_true_eq]
  have unchanged : ∀ key entry, global.types.lookup key = some entry → key.filePath ≠ file →
      entry.withoutFile file = entry := by
    intro key entry found distinct
    rw [represents.types] at found
    obtain ⟨index, module, typed⟩ := Option.bind_eq_some_iff.1 found
    exact ((coherent.owns _ index module).written key entry typed).withoutFile distinct
  have types : ∀ key, (global.removeFileContribution file).types.lookup key =
      if key.filePath = file then none else global.types.lookup key := by
    intro key
    have dropped := lookup_types_foldl_removeType global keys key
    ext entry
    change ((keys.foldl removeType global).types.mapValues _).lookup key = some entry ↔ _
    rw [lookup_mapValues_eq_some, dropped]
    by_cases here : key.filePath = file
    · rw [if_pos here]
      refine iff_of_false ?_ fun found => by cases found
      rintro ⟨before, found, -⟩
      split_ifs at found with mem
      exact mem ((mem_keys key).2 ⟨found ▸ rfl, here⟩)
    · have notIn : key ∉ keys := fun mem => here ((mem_keys key).1 mem).2
      rw [if_neg here, if_neg notIn]
      constructor
      · rintro ⟨before, found, same⟩
        rw [← same, unchanged key before found here]
        exact found
      · exact fun found => ⟨entry, found, unchanged key entry found here⟩
  have names := names_foldl_removeType distinct fun key mem => ((mem_keys key).1 mem).1
  have own : ∀ key ∈ keys, key.filePath = file := fun key mem => ((mem_keys key).1 mem).2
  have covers : ∀ key ∈ moduleKeys modules file, key ∈ keys := by
    intro key mem
    have filed : key.filePath = file := by
      unfold moduleKeys at mem
      cases module : modules.lookup file with
      | none =>
        rw [module] at mem
        cases mem
      | some index =>
        rw [module] at mem
        obtain ⟨entry, found⟩ := mem_keys_iff.1 mem
        exact (coherent.owns file index module).filed key entry found
    refine (mem_keys key).2 ⟨?_, filed⟩
    rw [represents.types, ← mem_moduleKeys_iff, filed]
    exact mem
  constructor
  · intro key
    rw [types, storedType_erase, represents.types]
  · intro id key
    let owners := (keys.foldl removeType global).memberToType
    have kept : (global.removeFileContribution file).memberToType.lookup id = some key ↔
        (owners.lookup id = some key ∧ key.filePath ≠ file) ∧
          ∃ other entry, (global.removeFileContribution file).types.lookup other = some entry ∧
            id ∈ entry.memberIds := by
      change AList.lookup id (HashMap.retain (HashMap.retain owners _) _) = some key ↔ _
      rw [lookup_retain_eq_some, lookup_retain_eq_some, decide_eq_true_eq, decide_eq_true_eq,
        HashSet.mem_ofList, mem_flatMap]
      refine and_congr_right fun _ => ?_
      constructor
      · rintro ⟨entry, value, mem⟩
        obtain ⟨other, found⟩ := mem_values.1 value
        exact ⟨other, entry, found, mem⟩
      · rintro ⟨other, entry, found, mem⟩
        exact ⟨entry, mem_values.2 ⟨other, found⟩, mem⟩
    rw [kept]
    simp only [types]
    constructor
    · rintro ⟨⟨owned, distinct⟩, -⟩
      rw [if_neg distinct]
      exact (represents.owners id key).1 (owner_of_foldl_removeType owned)
    · rintro ⟨entry, found, mem⟩
      have distinct : key.filePath ≠ file := by
        intro same
        rw [if_pos same] at found
        cases found
      rw [if_neg distinct] at found
      have owned := (represents.owners id key).2 ⟨entry, found, mem⟩
      refine ⟨⟨owner_foldl_removeType owned fun other gone before stored held => ?_, distinct⟩,
        key, entry, by rw [if_neg distinct, found], mem⟩
      have second := (represents.owners id other).2 ⟨before, stored, held⟩
      rw [owned] at second
      exact distinct (Option.some.inj second ▸ own other gone)
  · have lists := represents.qualified.drop own covers
    rw [← names.1] at lists
    exact lists.congr (moduleKeys_erase modules file)
  · have lists := represents.simple.drop own covers
    rw [← names.2] at lists
    exact lists.congr (moduleKeys_erase modules file)

private theorem foldl_adoptType_lists
    (lists : TypeMemberIndex → HashMap String (List TypeKey)) (place : TypeKey → String)
    (adopts : ∀ index key entry, lists (adoptType index key entry) =
      (lists index).bucketPush (place key) key)
    {incoming : List (TypeKey × TypeEntry)} {global : TypeMemberIndex} :
    (incoming.map Prod.fst).foldl (fun table key => table.bucketPush (place key) key)
        (lists global) =
      lists (incoming.foldl (fun index named => index.adoptType named.1 named.2) global) := by
  rw [foldl_map]
  exact foldl_hom lists fun index named => (adopts index named.1 named.2).symm

theorem Represents.mergeFrom (represents : Represents global modules)
    {all : HashMap String TypeMemberIndex} (coherent : Coherent all) {file : String}
    {index : TypeMemberIndex} (here : all.lookup file = some index)
    (sub : ∀ other found, modules.lookup other = some found → all.lookup other = some found)
    (fresh : modules.lookup file = none) :
    Represents (global.mergeFrom index).1 (modules.insert file index) := by
  let incoming := index.types.toList
  have keys : incoming.map Prod.fst = index.types.keys := map_fst_toList index.types
  have distinct : (incoming.map Prod.fst).Nodup := keys ▸ index.types.keys_nodup
  have filed : ∀ key ∈ index.types.keys, key.filePath = file := by
    intro key mem
    obtain ⟨entry, found⟩ := mem_keys_iff.1 mem
    exact (coherent.owns file index here).filed key entry found
  have new : ∀ named ∈ incoming, global.types.lookup named.1 = none := by
    intro named mem
    have own := filed named.1 (keys ▸ mem_map_of_mem mem)
    rw [represents.types]
    unfold storedType
    rw [own, fresh]
    rfl
  have incomingStored : ∀ named ∈ incoming, storedType all named.1 = some named.2 := by
    intro named mem
    have own := filed named.1 (keys ▸ mem_map_of_mem mem)
    unfold storedType
    rw [own, here]
    exact mem_toList.1 mem
  have storedAll : ∀ key entry, storedType modules key = some entry →
      storedType all key = some entry := by
    intro key entry found
    obtain ⟨other, module, typed⟩ := Option.bind_eq_some_iff.1 found
    exact Option.bind_eq_some_iff.2 ⟨other, sub _ other module, typed⟩
  have apart : IdsApart global incoming := by
    intro named mem key entry found different id held other
    refine different (coherent.apart named.1 named.2 key entry id (incomingStored named mem) ?_
      held other)
    rcases found with before | later
    · exact storedAll key entry (represents.types key ▸ before)
    · exact incomingStored (key, entry) later
  have merged : (global.mergeFrom index).1 =
      incoming.foldl (fun index named => index.adoptType named.1 named.2) global :=
    congrArg Prod.fst (foldl_mergeType_of_new distinct new [])
  have unlisted : moduleKeys modules file = [] := by
    unfold moduleKeys
    rw [fresh]
    rfl
  rw [merged]
  constructor
  · intro key
    have table : (incoming.foldl (fun index named => index.adoptType named.1 named.2)
        global).types = HashMap.extend global.types incoming :=
      (foldl_hom TypeMemberIndex.types fun _ _ => rfl).symm
    rw [table, storedType_insert]
    cases found : index.types.lookup key with
    | some entry =>
      have mem : (key, entry) ∈ incoming := mem_toList.2 found
      rw [if_pos (filed key (mem_keys_iff.2 ⟨entry, found⟩))]
      refine lookup_extend_of_mem mem fun other mem' => ?_
      exact Option.some.inj ((mem_toList.1 mem').symm.trans found)
    | none =>
      have absent : key ∉ incoming.map Prod.fst := by
        rw [keys, mem_keys_iff]
        rintro ⟨entry, present⟩
        rw [found] at present
        cases present
      rw [lookup_extend_of_notMem absent, represents.types]
      split_ifs with own
      · unfold storedType
        rw [own, fresh]
        rfl
      · rfl
  · exact represents.owners.foldl_adoptType distinct new apart
  · rw [← foldl_adoptType_lists TypeMemberIndex.qualifiedIndex TypeKey.qualified fun _ _ _ => rfl,
      keys]
    exact (represents.qualified.add unlisted filed).congr
      fun other => moduleKeys_insert modules file other index
  · rw [← foldl_adoptType_lists TypeMemberIndex.simpleIndex TypeKey.simple fun _ _ _ => rfl, keys]
    exact (represents.simple.add unlisted filed).congr
      fun other => moduleKeys_insert modules file other index

theorem Represents.completePlaceholdersFrom (represents : Represents global modules)
    (coherent : Coherent modules) {file : String} {index : TypeMemberIndex}
    (here : modules.lookup file = some index) :
    global.completePlaceholdersFrom index = global := by
  have owns := coherent.owns file index here
  have none : (index.types.toList.filterMap fun named =>
      if named.2.isPlaceholder then
        (global.realKeyOf named.2.key.simple).map fun realKey => (named.1, realKey)
      else none) = [] := by
    refine filterMap_eq_nil_iff.2 fun named mem => ?_
    have found := mem_toList.1 mem
    split_ifs with placeholder
    · rw [Option.map_eq_none_iff]
      refine find?_eq_none.2 fun real listed isReal => ?_
      obtain ⟨entry, stored, test⟩ := (Option.any_eq_true _ _).1 isReal
      rw [Bool.and_eq_true, Bool.not_eq_true', decide_eq_true_eq] at test
      have own : storedType modules named.1 = some named.2 := by
        unfold storedType
        rw [owns.filed named.1 named.2 found, here]
        exact found
      have simple := (represents.simple.mem_iff.1 listed).2
      refine coherent.unmet named.1 named.2 real entry own (represents.types real ▸ stored)
        placeholder test.1 ?_
      rw [simple, owns.key named.1 named.2 found]
    · rfl
  unfold TypeMemberIndex.completePlaceholdersFrom
  rw [none]
  rfl

end Represents

section Rebuild

variable {global : TypeMemberIndex} {modules all : HashMap String TypeMemberIndex}

theorem Represents.foldl_mergeFrom (represents : Represents global modules)
    (coherent : Coherent all) {pairs : List (String × TypeMemberIndex)}
    (distinct : (pairs.map Prod.fst).Nodup)
    (here : ∀ pair ∈ pairs, all.lookup pair.1 = some pair.2)
    (sub : ∀ other found, modules.lookup other = some found → all.lookup other = some found)
    (fresh : ∀ pair ∈ pairs, modules.lookup pair.1 = none) :
    Represents (pairs.foldl (fun global pair => (global.mergeFrom pair.2).1) global)
      (modules.extend pairs) := by
  induction pairs generalizing global modules with
  | nil => exact represents
  | cons pair pairs ih =>
    rw [map_cons, nodup_cons] at distinct
    have own := here pair mem_cons_self
    have next := represents.mergeFrom coherent own sub (fresh pair mem_cons_self)
    refine ih next distinct.2 (fun later mem => here later (mem_cons_of_mem _ mem))
      (fun other found module => ?_) fun later mem => ?_
    · rw [lookup_insert_eq] at module
      split_ifs at module with same
      · rw [same, ← Option.some.inj module]
        exact own
      · exact sub other found module
    · rw [lookup_insert_eq, if_neg]
      · exact fresh later (mem_cons_of_mem _ mem)
      · exact fun same => distinct.1 (same ▸ mem_map_of_mem mem)

theorem represents_globalOf (coherent : Coherent modules) :
    Represents (ProjectSymbolTable.globalOf modules) modules := by
  let pairs := modules.toList.filter fun pair => !pair.2.isEmpty
  have indexes : modules.values.filter (fun index => !index.isEmpty) = pairs.map Prod.snd :=
    filter_map
  have distinct : (pairs.map Prod.fst).Nodup := by
    refine List.Nodup.sublist (filter_sublist.map Prod.fst) ?_
    rw [map_fst_toList]
    exact modules.keys_nodup
  have here : ∀ pair ∈ pairs, modules.lookup pair.1 = some pair.2 := fun pair mem =>
    mem_toList.1 (mem_filter.1 mem).1
  have listed : Represents (pairs.foldl (fun global pair => (global.mergeFrom pair.2).1)
      TypeMemberIndex.new) (HashMap.extend ∅ pairs) :=
    represents_new.foldl_mergeFrom coherent distinct here (fun _ _ found => by cases found)
      fun _ _ => rfl
  have lookup : ∀ file index, (HashMap.extend ∅ pairs).lookup file = some index ↔
      modules.lookup file = some index ∧ index.isEmpty = false := by
    intro file index
    have filtered : (file, index) ∈ pairs ↔
        modules.lookup file = some index ∧ index.isEmpty = false := by
      rw [mem_filter, mem_toList, Bool.not_eq_true']
    have value : ∀ {index}, (file, index) ∈ pairs →
        (HashMap.extend ∅ pairs).lookup file = some index := fun mem =>
      lookup_extend_of_mem mem fun other mem' =>
        Option.some.inj ((here (file, other) mem').symm.trans (here (file, _) mem))
    rw [← filtered]
    refine ⟨fun found => ?_, value⟩
    have some : ((HashMap.extend ∅ pairs).lookup file).isSome := found ▸ rfl
    have named : file ∈ pairs.map Prod.fst :=
      (isSome_lookup_extend.1 some).resolve_right fun empty => by cases empty
    obtain ⟨⟨file', other⟩, mem, rfl⟩ := mem_map.1 named
    rw [value mem] at found
    exact Option.some.inj found ▸ mem
  have bare : ∀ index : TypeMemberIndex, index.isEmpty = true → index.types.toList = [] :=
    fun index empty => isEmpty_iff.1 empty
  have merged : Represents (pairs.foldl (fun global pair => (global.mergeFrom pair.2).1)
      TypeMemberIndex.new) modules := by
    refine listed.congr (fun key => ?_) fun file => ?_
    · ext entry
      unfold storedType
      rw [Option.bind_eq_some_iff, Option.bind_eq_some_iff]
      refine exists_congr fun index => ?_
      rw [lookup, and_assoc]
      refine and_congr_right fun _ => (and_iff_right_of_imp fun found => ?_).symm
      rw [Bool.eq_false_iff]
      intro empty
      have mem : (key, entry) ∈ index.types.toList := mem_toList.2 found
      rw [bare index empty] at mem
      cases mem
    · unfold moduleKeys
      cases module : modules.lookup file with
      | none =>
        cases other : AList.lookup file (HashMap.extend ∅ pairs) with
        | none => rfl
        | some index =>
          rw [((lookup file index).1 other).1] at module
          cases module
      | some index =>
        cases empty : index.isEmpty with
        | false => rw [(lookup file index).2 ⟨module, empty⟩]
        | true =>
          have keys : index.types.keys = [] := by
            rw [← map_fst_toList, bare index empty]
            rfl
          cases other : AList.lookup file (HashMap.extend ∅ pairs) with
          | none => exact keys
          | some index' =>
            have both := (lookup file index').1 other
            rw [module] at both
            rw [← Option.some.inj both.1]
  have completed : pairs.foldl (fun global pair => global.completePlaceholdersFrom pair.2)
      (pairs.foldl (fun global pair => (global.mergeFrom pair.2).1) TypeMemberIndex.new) =
        pairs.foldl (fun global pair => (global.mergeFrom pair.2).1) TypeMemberIndex.new :=
    foldlRecOn pairs _ (motive := fun global => global = _) rfl fun global same pair mem => by
      rw [same]
      exact merged.completePlaceholdersFrom coherent (here pair mem)
  unfold ProjectSymbolTable.globalOf
  simp only [indexes, foldl_map]
  rw [completed]
  exact merged

end Rebuild

end ContextEngine

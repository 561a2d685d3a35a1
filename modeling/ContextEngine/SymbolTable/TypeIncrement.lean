/- digest: When patching the global type index file by file is as good as rebuilding it. -/

import ContextEngine.SymbolTable.TypeIndex

set_option autoImplicit false

namespace ContextEngine

open List HashMap TypeMemberIndex ProjectSymbolTable Runs

section Answers

/-- Two indexes answer alike. An answer carries the members, fields, constructors and supertypes of
a type. The types of a simple name are a list in no particular order, unless one file has all of
them. -/
structure TypesAnsweredAlike (left right : TypeMemberIndex) : Prop where
  byKey : ∀ key, left.getTypeByKey key = right.getTypeByKey key
  byQualified : ∀ qualified, left.getType qualified = right.getType qualified
  bySimple : ∀ simple, (left.getTypeBySimple simple).Perm (right.getTypeBySimple simple)
  bySimpleInFile : ∀ simple file,
    (∀ key entry, left.getTypeByKey key = some entry → key.simple = simple → key.filePath = file) →
      left.getTypeBySimple simple = right.getTypeBySimple simple
  members : ∀ qualified name, left.getMembers qualified name = right.getMembers qualified name
  owner : ∀ memberId, left.ownerOf memberId = right.ownerOf memberId

/-- The owners are exactly the members some type holds, and each name list has exactly the keys of
the stored types of that name, each once. -/
structure TypesExact (index : TypeMemberIndex) : Prop where
  owners : OwnersExact index
  qualifiedOnce : ∀ qualified, (index.qualifiedIndex.bucket qualified).Nodup
  qualified : ∀ qualified key, key ∈ index.qualifiedIndex.bucket qualified ↔
    (index.types.lookup key).isSome ∧ key.qualified = qualified
  simpleOnce : ∀ simple, (index.simpleIndex.bucket simple).Nodup
  simple : ∀ simple key, key ∈ index.simpleIndex.bucket simple ↔
    (index.types.lookup key).isSome ∧ key.simple = simple

variable {global left right : TypeMemberIndex} {modules : HashMap String TypeMemberIndex}

theorem Represents.exact (represents : Represents global modules) : TypesExact global where
  owners := represents.owners
  qualifiedOnce _ := represents.qualified.nodup (nodup_moduleKeys modules)
  qualified name key := by
    rw [represents.types, ← mem_moduleKeys_iff]
    exact represents.qualified.mem_iff
  simpleOnce _ := represents.simple.nodup (nodup_moduleKeys modules)
  simple name key := by
    rw [represents.types, ← mem_moduleKeys_iff]
    exact represents.simple.mem_iff

theorem OwnersExact.lookup_eq (exact : OwnersExact left) (exact' : OwnersExact right)
    (types : ∀ key, left.types.lookup key = right.types.lookup key) (id : EntityId) :
    left.memberToType.lookup id = right.memberToType.lookup id := by
  ext key
  rw [exact id key, exact' id key, types]

theorem Represents.getType_eq (represents : Represents left modules)
    (represents' : Represents right modules) (coherent : Coherent modules) (qualified : String) :
    left.getType qualified = right.getType qualified := by
  have stored : ∀ {index}, Represents index modules → index.typesNamed qualified =
        (index.qualifiedIndex.bucket qualified).filterMap (storedType modules) :=
    fun represents => congrArg (filterMap · _) (funext represents.types)
  have listed : ∀ {index key}, Represents index modules →
      key ∈ index.qualifiedIndex.bucket qualified →
        (∃ entry, storedType modules key = some entry) ∧ key.qualified = qualified := by
    intro index key represents mem
    obtain ⟨own, placed⟩ := represents.qualified.mem_iff.1 mem
    exact ⟨Option.isSome_iff_exists.1 (mem_moduleKeys_iff.1 own), placed⟩
  let isReal : TypeKey → Bool := fun key =>
    (storedType modules key).any fun entry => !entry.isPlaceholder
  have real_iff : ∀ key, isReal key = true ↔
      ∃ entry, storedType modules key = some entry ∧ entry.isPlaceholder = false := by
    intro key
    rw [Option.any_eq_true]
    simp only [Bool.not_eq_true']
  have firstReal : ∀ {index}, Represents index modules →
      (index.typesNamed qualified).find? (fun entry => !entry.isPlaceholder) =
        ((index.qualifiedIndex.bucket qualified).find? isReal).bind (storedType modules) := by
    intro index represents
    rw [stored represents, find?_filterMap]
  have same : (left.qualifiedIndex.bucket qualified).Perm
      (right.qualifiedIndex.bucket qualified) := represents.qualified.perm represents'.qualified
  unfold getType
  by_cases real : ∃ key ∈ left.qualifiedIndex.bucket qualified, isReal key = true
  · obtain ⟨key, mem, passes⟩ := real
    obtain ⟨entry, found, notPlaceholder⟩ := (real_iff key).1 passes
    have named := (listed represents mem).2
    have one : ∀ {index}, Represents index modules →
        ∀ other ∈ index.qualifiedIndex.bucket qualified, isReal other = true →
          other.filePath = key.filePath := by
      intro index represents other mem' passes'
      obtain ⟨entry', found', notPlaceholder'⟩ := (real_iff other).1 passes'
      exact coherent.oneReal other entry' key entry found' found
        ((listed represents mem').2.trans named.symm) notPlaceholder' notPlaceholder
    have first := represents.qualified.find?_eq_of_one_source represents'.qualified
      (one represents) (one represents')
    have hit : ((left.qualifiedIndex.bucket qualified).find? isReal).isSome :=
      find?_isSome.2 ⟨key, mem, passes⟩
    obtain ⟨chosen, chosenFirst⟩ := Option.isSome_iff_exists.1 hit
    have chosenListed := listed represents (mem_of_find?_eq_some chosenFirst)
    obtain ⟨⟨chosenEntry, chosenFound⟩, -⟩ := chosenListed
    rw [firstReal represents, firstReal represents', ← first, chosenFirst, Option.bind_some,
      chosenFound]
    rfl
  · have noReal : ∀ {index}, Represents index modules →
        (∀ key, key ∈ index.qualifiedIndex.bucket qualified →
          key ∈ left.qualifiedIndex.bucket qualified) →
        (index.typesNamed qualified).find? (fun entry => !entry.isPlaceholder) = none := by
      intro index represents sub
      rw [firstReal represents, find?_eq_none.2]
      · rfl
      · exact fun key mem passes => real ⟨key, sub key mem, passes⟩
    rw [noReal represents fun _ => id, noReal represents' fun _ => same.mem_iff.2]
    have lists : left.qualifiedIndex.bucket qualified = right.qualifiedIndex.bucket qualified := by
      cases bucket : left.qualifiedIndex.bucket qualified with
      | nil =>
        rw [bucket] at same
        exact (nil_perm.1 same).symm
      | cons key rest =>
        rw [← bucket]
        have mem : key ∈ left.qualifiedIndex.bucket qualified := bucket ▸ mem_cons_self
        obtain ⟨⟨entry, found⟩, named⟩ := listed represents mem
        have one : ∀ other ∈ left.qualifiedIndex.bucket qualified,
            other.filePath = key.filePath := by
          intro other mem'
          obtain ⟨⟨entry', found'⟩, named'⟩ := listed represents mem'
          refine coherent.onePlaceholder other entry' key entry found' found
            (named'.trans named.symm) fun third found'' stored'' named'' => ?_
          by_contra placeholder
          refine real ⟨third, ?_, (real_iff third).2
            ⟨found'', stored'', Bool.eq_false_iff.2 placeholder⟩⟩
          rw [represents.qualified.mem_iff, mem_moduleKeys_iff, stored'']
          exact ⟨rfl, named''.trans named'⟩
        exact represents.qualified.eq_of_one_source represents'.qualified one
          fun other mem' => one other (same.mem_iff.2 mem')
    rw [stored represents, stored represents', lists]

theorem Represents.answeredAlike (represents : Represents left modules)
    (represents' : Represents right modules) (coherent : Coherent modules) :
    TypesAnsweredAlike left right := by
  have types : ∀ key, left.types.lookup key = right.types.lookup key := fun key =>
    (represents.types key).trans (represents'.types key).symm
  have byQualified : ∀ qualified, left.getType qualified = right.getType qualified :=
    represents.getType_eq represents' coherent
  constructor
  · exact types
  · exact byQualified
  · intro simple
    unfold getTypeBySimple
    rw [funext types]
    exact (represents.simple.perm represents'.simple).filterMap _
  · intro simple file one
    have here : ∀ key ∈ left.simpleIndex.bucket simple, key.filePath = file := by
      intro key mem
      obtain ⟨stored, named⟩ := (represents.exact.simple simple key).1 mem
      obtain ⟨entry, found⟩ := Option.isSome_iff_exists.1 stored
      exact one key entry found named
    have lists := represents.simple.eq_of_one_source represents'.simple here fun key mem =>
      here key ((represents.simple.perm represents'.simple).mem_iff.2 mem)
    unfold getTypeBySimple
    rw [funext types, lists]
  · intro qualified name
    unfold getMembers
    rw [byQualified]
  · exact represents.owners.lookup_eq represents'.owners types

end Answers

section Run

variable {project : ProjectSymbolTable}

def AnswersAsRebuilt (project : ProjectSymbolTable) : Prop :=
  (∀ modules, (∀ file, modules.lookup file = project.modules.lookup file) →
    TypesAnsweredAlike project.globalTypeIndex (globalOf modules)) ∧
  TypesExact project.globalTypeIndex

/-- The modules do not interfere and the global index is their union. -/
structure Separated (project : ProjectSymbolTable) : Prop where
  coherent : Coherent project.modules
  represents : Represents project.globalTypeIndex project.modules

theorem Separated.answersAsRebuilt (separated : Separated project) : AnswersAsRebuilt project := by
  refine ⟨fun modules same => ?_, separated.represents.exact⟩
  have rebuilt := represents_globalOf (separated.coherent.congr same)
  refine separated.represents.answeredAlike ?_ separated.coherent
  exact rebuilt.congr (fun key => (storedType_congr same key).symm)
    fun file => (moduleKeys_congr same file).symm

def KeepsSeparated (project : ProjectSymbolTable) (op : TypeOp) : Prop :=
  Coherent (modulesAfter project.modules op) ∧
    match op with
    | .applyTypeDeltaForFile filePath _ => normalizeProjectPath filePath = filePath
    | .pruneFileTypes filePath _ => normalizeProjectPath filePath = filePath
    | .rebuildGlobalTypeIndex => True

/-- A change that keeps the modules apart keeps the global index their union. -/
theorem Separated.applyOp (separated : Separated project) {op : TypeOp}
    (keeps : KeepsSeparated project op) : Separated (project.applyOp op) := by
  obtain ⟨coherent, named⟩ := keeps
  refine ⟨by cases op <;> exact coherent, ?_⟩
  cases op with
  | rebuildGlobalTypeIndex => exact represents_globalOf coherent
  | pruneFileTypes filePath newQualified =>
    have removed := separated.represents.removeFileContribution separated.coherent filePath
    change Represents (project.globalTypeIndex.removeFileContribution
      (normalizeProjectPath filePath)) (project.modules.erase filePath)
    rw [named]
    exact removed
  | applyTypeDeltaForFile filePath newIndex =>
    change Represents (if newIndex.isEmpty then
        project.globalTypeIndex.removeFileContribution (normalizeProjectPath filePath)
      else
        ((project.globalTypeIndex.removeFileContribution
          (normalizeProjectPath filePath)).mergeFrom newIndex).1.completePlaceholdersFrom newIndex)
      (project.modules.insert filePath newIndex)
    rw [named]
    have removed := separated.represents.removeFileContribution separated.coherent filePath
    have here : (project.modules.insert filePath newIndex).lookup filePath = some newIndex :=
      AList.lookup_insert _
    have sub : ∀ other found, (project.modules.erase filePath).lookup other = some found →
        (project.modules.insert filePath newIndex).lookup other = some found := by
      intro other found module
      rw [lookup_erase_eq] at module
      rw [lookup_insert_eq]
      split_ifs at module ⊢
      exact module
    have merged := removed.mergeFrom coherent here sub (AList.lookup_erase _ _)
    have same : ∀ file, (project.modules.insert filePath newIndex).lookup file =
        ((project.modules.erase filePath).insert filePath newIndex).lookup file := by
      intro file
      rw [lookup_insert_eq, lookup_insert_eq, lookup_erase_eq]
      split_ifs <;> rfl
    have union := merged.congr (storedType_congr same) (moduleKeys_congr same)
    split_ifs with empty
    · have nothing : newIndex.types.toList = [] := isEmpty_iff.1 empty
      have unchanged : ((project.globalTypeIndex.removeFileContribution filePath).mergeFrom
          newIndex).1 = project.globalTypeIndex.removeFileContribution filePath := by
        unfold TypeMemberIndex.mergeFrom
        rw [nothing]
        rfl
      rw [← unchanged]
      exact union
    · rw [union.completePlaceholdersFrom coherent here]
      exact union

/-- In a run from a rebuilt project whose changes all keep the modules apart, every state reached
answers as rebuilt. -/
theorem typeIndex_run (project : ProjectSymbolTable) (coherent : Coherent project.modules)
    (ops : List TypeOp)
    (keeps : EveryStep applyOp KeepsSeparated project.rebuildGlobalTypeIndex ops) :
    ∀ reached, reached <+: ops →
      AnswersAsRebuilt (reached.foldl applyOp project.rebuildGlobalTypeIndex) := by
  intro reached initial
  have start : Separated project.rebuildGlobalTypeIndex :=
    ⟨coherent, represents_globalOf coherent⟩
  have kept : ∀ project op, KeepsSeparated project op → Separated project →
      Separated (project.applyOp op) := fun _ _ keeps separated => separated.applyOp keeps
  exact (Runs.invariant kept start (keeps.of_prefix initial)).answersAsRebuilt

end Run

section Sample

def methodIn (id : EntityId) (name filePath : String) : MemberEntry where
  entityId := id
  name := name
  kind := .method
  visibility := .publicAll
  isStatic := false
  isAssociated := false
  span := .unavailable
  filePath := filePath
  modulePath := none
  package := "pkg"

def fooKey : TypeKey := ⟨"a::Foo", "Foo", "src/a.rs"⟩

def definesFoo : TypeMemberIndex :=
  ((TypeMemberIndex.new.insertType fooKey (.new 1 fooKey .structKind .rust .publicAll)).insertMember
    fooKey (methodIn 2 "bar" "src/a.rs")).1

def foreignFooKey : TypeKey := ⟨"b::Foo", "Foo", "src/b.rs"⟩

def extendsFoo : TypeMemberIndex :=
  ((TypeMemberIndex.new.upsertTypePlaceholder foreignFooKey .rust).insertMember
    foreignFooKey (methodIn 5 "baz" "src/b.rs")).1

def emptyProject : ProjectSymbolTable := ⟨∅, TypeMemberIndex.new, ∅⟩

/-- The placeholder stays when its file comes before the file that defines the type. -/
theorem placeholderFirst_notCompleted :
    ¬AnswersAsRebuilt ([TypeOp.applyTypeDeltaForFile "src/b.rs" extendsFoo,
      .applyTypeDeltaForFile "src/a.rs" definesFoo].foldl applyOp
        emptyProject.rebuildGlobalTypeIndex) := by
  rintro ⟨alike, -⟩
  have same := (alike _ fun _ => rfl).byKey foreignFooKey
  exact absurd (congrArg Option.isSome same) (by decide)

def bazKey : TypeKey := ⟨"b::Baz", "Baz", "src/b.rs"⟩

/-- Another file, with a type of its own. -/
def definesBaz : TypeMemberIndex :=
  ((TypeMemberIndex.new.insertType bazKey (.new 4 bazKey .structKind .rust .publicAll)).insertMember
    bazKey (methodIn 5 "qux" "src/b.rs")).1

def InSample (file : String) (index : TypeMemberIndex) : Prop :=
  file = "src/a.rs" ∧ index = definesFoo ∨ file = "src/b.rs" ∧ index = definesBaz

theorem InSample.owns {file : String} {index : TypeMemberIndex} (own : InSample file index) :
    FileOwns file index := by
  have typed : ∀ p ∈ index.types.toList, p.2.key = p.1 ∧ p.1.filePath = file ∧
      (∀ list ∈ p.2.members.toList, list.2 ≠ [] ∧ ∀ m ∈ list.2, m.filePath = file) ∧
      (∀ m ∈ p.2.fields.toList, m.2.filePath = file) ∧
      ∀ m ∈ p.2.constructors, m.filePath = file := by
    rcases own with ⟨rfl, rfl⟩ | ⟨rfl, rfl⟩ <;> decide
  constructor
  · exact fun key entry found => (typed (key, entry) (mem_toList.2 found)).1
  · exact fun key entry found => (typed (key, entry) (mem_toList.2 found)).2.1
  · intro key entry found
    obtain ⟨-, -, members, fields, constructors⟩ := typed (key, entry) (mem_toList.2 found)
    exact ⟨fun name list listed => members (name, list) (mem_toList.2 listed),
      fun name m listed => fields (name, m) (mem_toList.2 listed), constructors⟩

theorem InSample.insert {modules : HashMap String TypeMemberIndex} {file : String}
    {index : TypeMemberIndex} (own : InSample file index)
    (all : ∀ file index, modules.lookup file = some index → InSample file index) :
    ∀ other found, (modules.insert file index).lookup other = some found →
      InSample other found := by
  intro other found listed
  rw [lookup_insert_eq] at listed
  split_ifs at listed with same
  · rw [same, ← Option.some.inj listed]
    exact own
  · exact all other found listed

theorem coherent_sample {modules : HashMap String TypeMemberIndex}
    (all : ∀ file index, modules.lookup file = some index → InSample file index) :
    Coherent modules := by
  have stored : ∀ key entry, storedType modules key = some entry →
      (key, entry) ∈ definesFoo.types.toList ++ definesBaz.types.toList := by
    intro key entry found
    obtain ⟨index, module, typed⟩ := Option.bind_eq_some_iff.1 found
    rcases all _ index module with ⟨-, rfl⟩ | ⟨-, rfl⟩
    · exact mem_append_left _ (mem_toList.2 typed)
    · exact mem_append_right _ (mem_toList.2 typed)
  have pairs : ∀ p ∈ definesFoo.types.toList ++ definesBaz.types.toList,
      p.2.isPlaceholder = false ∧
        ∀ q ∈ definesFoo.types.toList ++ definesBaz.types.toList,
          (∀ id ∈ p.2.memberIds, id ∈ q.2.memberIds → p.1 = q.1) ∧
            (p.1.qualified = q.1.qualified → p.1.filePath = q.1.filePath) := by decide
  constructor
  · exact fun file index found => (all file index found).owns
  · exact fun key entry key' entry' id found found' =>
      ((pairs _ (stored key entry found)).2 _ (stored key' entry' found')).1 id
  · intro key entry key' entry' found _ placeholder
    rw [(pairs _ (stored key entry found)).1] at placeholder
    cases placeholder
  · exact fun key entry key' entry' found found' same _ _ =>
      ((pairs _ (stored key entry found)).2 _ (stored key' entry' found')).2 same
  · exact fun key entry key' entry' found found' same _ =>
      ((pairs _ (stored key entry found)).2 _ (stored key' entry' found')).2 same

theorem typeIndex_run_twoFiles :
    AnswersAsRebuilt ([TypeOp.applyTypeDeltaForFile "src/a.rs" definesFoo,
      .applyTypeDeltaForFile "src/b.rs" definesBaz].foldl applyOp
        emptyProject.rebuildGlobalTypeIndex) := by
  have none : ∀ file index, emptyProject.modules.lookup file = some index →
      InSample file index := fun _ _ found => by cases found
  have first := InSample.insert (Or.inl ⟨rfl, rfl⟩) none
  have second := InSample.insert (Or.inr ⟨rfl, rfl⟩) first
  exact typeIndex_run emptyProject (coherent_sample none)
    [.applyTypeDeltaForFile "src/a.rs" definesFoo, .applyTypeDeltaForFile "src/b.rs" definesBaz]
    ⟨⟨coherent_sample first, by decide⟩, ⟨coherent_sample second, by decide⟩, trivial⟩ _
    (List.prefix_refl _)

end Sample

end ContextEngine

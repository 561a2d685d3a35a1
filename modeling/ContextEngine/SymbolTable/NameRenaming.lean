/- digest: Runs that file the same modules in different hash orders differ by a renaming of ids. -/

import ContextEngine.SymbolTable.ProjectNames

set_option autoImplicit false

namespace ContextEngine

open Option List KeyedNumbers

section Symbols

/-- Ids of two runs that stand for the same symbol. -/
inductive SameSymbol (ids ids' : FiniteMap String Nat) : SymbolId → SymbolId → Prop
  | real (id : EntityId) : SameSymbol ids ids' (.real id) (.real id)
  | synthetic {key : String} {counter counter' : Nat} (held : ids.lookup key = some counter)
      (held' : ids'.lookup key = some counter') :
      SameSymbol ids ids' (.synthetic counter) (.synthetic counter')

theorem SameSymbol.mono {ids ids' later later' : FiniteMap String Nat} (grown : Extends ids later)
    (grown' : Extends ids' later') {i j : SymbolId} (same : SameSymbol ids ids' i j) :
    SameSymbol later later' i j := by
  cases same with
  | real id => exact .real id
  | synthetic held held' => exact .synthetic (grown _ _ held) (grown' _ _ held')

/-- Entries that differ in the id at most. -/
inductive SameEntry (R : SymbolId → SymbolId → Prop) : SimpleNameEntry → SimpleNameEntry → Prop
  | fileSymbol (filePath modulePath : String) {i j : SymbolId} (same : R i j) :
      SameEntry R (.fileSymbol filePath modulePath i) (.fileSymbol filePath modulePath j)
  | packageExport (packageId : String) {i j : SymbolId} (same : R i j) :
      SameEntry R (.packageExport packageId i) (.packageExport packageId j)

namespace SameEntry

variable {R : SymbolId → SymbolId → Prop} {a b : SimpleNameEntry} {as bs : List SimpleNameEntry}

theorem mono {R' : SymbolId → SymbolId → Prop} (weaker : ∀ i j, R i j → R' i j)
    (same : SameEntry R a b) : SameEntry R' a b := by
  cases same with
  | fileSymbol filePath modulePath same => exact .fileSymbol _ _ (weaker _ _ same)
  | packageExport packageId same => exact .packageExport _ (weaker _ _ same)

theorem sortKey_eq (same : SameEntry R a b) : a.sortKey = b.sortKey := by cases same <;> rfl

theorem filePath_eq (same : SameEntry R a b) : a.filePath = b.filePath := by cases same <;> rfl

theorem outsidePackage_eq (same : SameEntry R a b) (packageId : String) :
    a.outsidePackage packageId = b.outsidePackage packageId := by
  cases same <;> rfl

theorem map_sortKey (same : List.Forall₂ (SameEntry R) as bs) :
    as.map SimpleNameEntry.sortKey = bs.map SimpleNameEntry.sortKey := by
  induction same with
  | nil => rfl
  | cons head _ ih => rw [map_cons, map_cons, head.sortKey_eq, ih]

theorem insertIdx (same : List.Forall₂ (SameEntry R) as bs) (new : SameEntry R a b)
    (position : Nat) :
    List.Forall₂ (SameEntry R) (as.insertIdx position a) (bs.insertIdx position b) := by
  induction same generalizing position with
  | nil =>
    cases position with
    | zero => exact .cons new .nil
    | succ position => exact .nil
  | cons head tail ih =>
    cases position with
    | zero => exact .cons new (.cons head tail)
    | succ position => exact .cons head (ih position)

theorem placeEntry (same : List.Forall₂ (SameEntry R) as bs) (new : SameEntry R a b) :
    List.Forall₂ (SameEntry R) (placeEntry as a) (placeEntry bs b) := by
  rw [ContextEngine.placeEntry, ContextEngine.placeEntry, map_sortKey same, new.sortKey_eq]
  exact insertIdx same new _

theorem filter {keep : SimpleNameEntry → Bool}
    (blind : ∀ a b, SameEntry R a b → keep a = keep b) (same : List.Forall₂ (SameEntry R) as bs) :
    List.Forall₂ (SameEntry R) (as.filter keep) (bs.filter keep) :=
  rel_filter (fun {a b} entry => iff_of_eq (congrArg (· = true) (blind a b entry))) same

end SameEntry

end Symbols

namespace ProjectNames

/-- The tables of two runs from the same numbers file the same symbols. -/
structure Alike (base : FiniteMap String Nat) (s t : ProjectNames) : Prop where
  packages : s.packages = t.packages
  packagesByName : s.packagesByName = t.packagesByName
  fileToPackage : s.fileToPackage = t.fileToPackage
  fileSymbolContrib : s.fileSymbolContrib = t.fileSymbolContrib
  grown : Extends base s.entityIdCache
  grown' : Extends base t.entityIdCache
  numbered : Numbered s.entityIdCache
  numbered' : Numbered t.entityIdCache
  cached : ∀ key, (s.entityIdCache.lookup key).isSome ↔ (t.entityIdCache.lookup key).isSome
  globalIndex : FiniteMap.Related (SameSymbol s.entityIdCache t.entityIdCache) s.globalIndex
    t.globalIndex
  namespaceIndex : FiniteMap.Related (SameSymbol s.entityIdCache t.entityIdCache) s.namespaceIndex
    t.namespaceIndex
  simpleNameIndex : FiniteMap.Related
    (List.Forall₂ (SameEntry (SameSymbol s.entityIdCache t.entityIdCache))) s.simpleNameIndex
    t.simpleNameIndex

theorem Alike.candidates {base : FiniteMap String Nat} {s t : ProjectNames} (alike : Alike base s t)
    (name : String) :
    List.Forall₂ (SameEntry (SameSymbol s.entityIdCache t.entityIdCache)) (s.candidates name)
      (t.candidates name) := by
  have here := alike.simpleNameIndex name
  unfold ProjectNames.candidates
  generalize s.simpleNameIndex.lookup name = entries, t.simpleNameIndex.lookup name = entries'
    at here ⊢
  cases here with
  | some same => exact same
  | none => exact .nil

section Numbering

/-- A made-up id is the one cached for some export. -/
def KnownId (ids : FiniteMap String Nat) : SymbolId → Prop
  | .real _ => True
  | .synthetic counter => counter ∈ used ids

/-- The made-up ids are those of the cache, where every export has its own. -/
structure WellNumbered (names : ProjectNames) : Prop where
  numbered : Numbered names.entityIdCache
  globalIndex : ∀ key id, names.globalIndex.lookup key = some id →
    KnownId names.entityIdCache id
  namespaceIndex : ∀ key id, names.namespaceIndex.lookup key = some id →
    KnownId names.entityIdCache id
  simpleNameIndex : ∀ name entries, names.simpleNameIndex.lookup name = some entries →
    ∀ entry ∈ entries, KnownId names.entityIdCache entry.entityId

theorem KnownId.mono {ids later : FiniteMap String Nat} (grown : Extends ids later) {id : SymbolId}
    (known : KnownId ids id) : KnownId later id := by
  cases id with
  | real id => trivial
  | synthetic counter =>
    obtain ⟨key, held⟩ := known
    exact ⟨key, grown key counter held⟩

theorem WellNumbered.empty : WellNumbered {} where
  numbered := Numbered.empty
  globalIndex key _ found := absurd ((Finmap.lookup_empty key).symm.trans found) nofun
  namespaceIndex key _ found := absurd ((Finmap.lookup_empty key).symm.trans found) nofun
  simpleNameIndex name _ found := absurd ((Finmap.lookup_empty name).symm.trans found) nofun

theorem known_placeEntry {ids : FiniteMap String Nat} {entries : List SimpleNameEntry}
    {new : SimpleNameEntry} (known : ∀ entry ∈ entries, KnownId ids entry.entityId)
    (knownNew : KnownId ids new.entityId) :
    ∀ entry ∈ placeEntry entries new, KnownId ids entry.entityId := by
  intro entry mem
  rcases eq_or_mem_of_mem_insertIdx mem with rfl | held
  · exact knownNew
  · exact known entry held

variable {names : ProjectNames}

section

variable (numbered : names.WellNumbered)

include numbered

theorem WellNumbered.candidates
    (name : String) : ∀ entry ∈ names.candidates name,
      KnownId names.entityIdCache entry.entityId := by
  unfold ProjectNames.candidates
  cases found : names.simpleNameIndex.lookup name with
  | some entries => exact numbered.simpleNameIndex name entries found
  | none => exact fun entry mem => absurd mem not_mem_nil

variable (package : PackageSymbolTable)

theorem WellNumbered.upsertExport (name : String) (metadata : SymbolMetadata) :
    (names.upsertExport package name metadata).WellNumbered := by
  have grown := extends_allocate names.entityIdCache (names.symbolKey metadata)
  have made : KnownId (allocate names.entityIdCache (names.symbolKey metadata)).2
      (.synthetic (allocate names.entityIdCache (names.symbolKey metadata)).1) :=
    ⟨_, lookup_allocate_self _ _⟩
  refine ⟨numbered.numbered.allocate _, fun key id found => ?_, fun key id found => ?_,
    fun other entries found => ?_⟩
  · rw [ProjectNames.upsertExport, FiniteMap.lookup_insert_eq] at found
    split_ifs at found
    · rw [← some.inj found]
      exact made
    · exact (numbered.globalIndex key id found).mono grown
  · exact (numbered.namespaceIndex key id found).mono grown
  · rw [ProjectNames.upsertExport, FiniteMap.lookup_insert_eq] at found
    split_ifs at found
    · rw [← some.inj found]
      refine known_placeEntry (fun entry mem => ?_) made
      exact (numbered.candidates name entry (mem_filter.1 mem).1).mono grown
    · exact fun entry mem => (numbered.simpleNameIndex other entries found entry mem).mono grown

theorem WellNumbered.storePackage : (names.storePackage package).WellNumbered :=
  ⟨numbered.numbered, numbered.globalIndex, numbered.namespaceIndex, numbered.simpleNameIndex⟩

theorem WellNumbered.addPackage (exportNames : List String) :
    (names.addPackage package exportNames).WellNumbered := by
  refine WellNumbered.storePackage ?_ package
  induction exportNames generalizing names with
  | nil => exact numbered
  | cons name exportNames ih =>
    refine ih ?_
    unfold applyAdded
    split
    · exact numbered.upsertExport package name _
    · exact numbered

theorem WellNumbered.insertSymbol
    (qualifiedName : String) (entityId : EntityId) (filePath modulePath : String) :
    (names.insertSymbol qualifiedName entityId filePath modulePath).WellNumbered := by
  have real : KnownId names.entityIdCache (.real entityId) := trivial
  refine ⟨numbered.numbered, fun key id found => ?_, fun key id found => ?_,
    fun other entries found => ?_⟩
  · rw [ProjectNames.insertSymbol, FiniteMap.lookup_insert_eq] at found
    split_ifs at found
    · rw [← some.inj found]
      exact real
    · exact numbered.globalIndex key id found
  · simp only [ProjectNames.insertSymbol] at found
    split at found
    · split_ifs at found
      · rw [FiniteMap.lookup_insert_eq] at found
        split_ifs at found
        · rw [← some.inj found]
          exact real
        · exact numbered.namespaceIndex key id found
      · exact numbered.namespaceIndex key id found
    · exact numbered.namespaceIndex key id found
  · rw [ProjectNames.insertSymbol, FiniteMap.lookup_insert_eq] at found
    split_ifs at found
    · rw [← some.inj found]
      exact known_placeEntry (fun entry mem => numbered.candidates _ entry (mem_filter.1 mem).1)
        real
    · exact numbered.simpleNameIndex other entries found

end

theorem KnownId.sameSymbol {ids : FiniteMap String Nat} {id : SymbolId} (known : KnownId ids id) :
    SameSymbol ids ids id id := by
  cases id with
  | real id => exact .real id
  | synthetic counter =>
    obtain ⟨key, held⟩ := known
    exact .synthetic held held

theorem related_self {V : Type} {R : V → V → Prop} {m : FiniteMap String V}
    (refl : ∀ key v, m.lookup key = some v → R v v) : FiniteMap.Related R m m := by
  intro key
  cases found : m.lookup key with
  | some v => exact .some (refl key v found)
  | none => exact .none

theorem WellNumbered.alike (numbered : names.WellNumbered) :
    Alike names.entityIdCache names names where
  packages := rfl
  packagesByName := rfl
  fileToPackage := rfl
  fileSymbolContrib := rfl
  grown := Extends.refl _
  grown' := Extends.refl _
  numbered := numbered.numbered
  numbered' := numbered.numbered
  cached _ := Iff.rfl
  globalIndex := related_self fun key id found => (numbered.globalIndex key id found).sameSymbol
  namespaceIndex :=
    related_self fun key id found => (numbered.namespaceIndex key id found).sameSymbol
  simpleNameIndex := related_self fun name entries found => by
    refine forall₂_same.2 fun entry mem => ?_
    have same := (numbered.simpleNameIndex name entries found entry mem).sameSymbol
    cases entry with
    | fileSymbol filePath modulePath id => exact .fileSymbol filePath modulePath same
    | packageExport packageId id => exact .packageExport packageId same

end Numbering

section Filing

theorem symbolKey_congr {s t : ProjectNames} (packages : s.packages = t.packages)
    (owners : s.fileToPackage = t.fileToPackage) : s.symbolKey = t.symbolKey := by
  have stored : s.getPackage = t.getPackage := by
    funext packageId
    rw [getPackage, getPackage, packages]
  funext metadata
  simp only [symbolKey, modulePathForFile, getPackageForFile, sortedPackages, stored, packages,
    owners]

theorem qualified_inj {package name name' : String}
    (same : package ++ "::" ++ name = package ++ "::" ++ name') : name = name' := by
  have chars := congrArg String.toList same
  rw [String.toList_append, String.toList_append (s := package ++ "::")] at chars
  exact String.toList_injective (append_cancel_left chars)

variable (package : PackageSymbolTable)

def exportKeys (s : ProjectNames) (names : List String) : List String :=
  names.filterMap fun name => (package.getPublicExport name).map s.symbolKey

/-- What filing public exports of a package leaves: the ids are those cached at the end. -/
structure Filed (names : List String) (s r : ProjectNames) : Prop where
  packages : r.packages = s.packages
  packagesByName : r.packagesByName = s.packagesByName
  fileToPackage : r.fileToPackage = s.fileToPackage
  fileSymbolContrib : r.fileSymbolContrib = s.fileSymbolContrib
  namespaceIndex : r.namespaceIndex = s.namespaceIndex
  entityIdCache : r.entityIdCache = allocateAll s.entityIdCache (exportKeys package s names)
  global_of_mem : ∀ name ∈ names, ∀ metadata, package.getPublicExport name = some metadata →
    ∃ counter, r.entityIdCache.lookup (s.symbolKey metadata) = some counter ∧
      r.globalIndex.lookup (package.packageName ++ "::" ++ name) = some (.synthetic counter)
  global_of_notMem : ∀ key, (∀ name ∈ names, key ≠ package.packageName ++ "::" ++ name) →
    r.globalIndex.lookup key = s.globalIndex.lookup key
  simple_of_mem : ∀ name ∈ names, ∀ metadata, package.getPublicExport name = some metadata →
    ∃ counter, r.entityIdCache.lookup (s.symbolKey metadata) = some counter ∧
      r.simpleNameIndex.lookup name =
        some (placeEntry ((s.candidates name).filter (·.outsidePackage package.packageId))
          (.packageExport package.packageId (.synthetic counter)))
  simple_of_notMem : ∀ name ∉ names, r.simpleNameIndex.lookup name = s.simpleNameIndex.lookup name

variable {package}

theorem candidates_upsertExport_of_ne (s : ProjectNames) {name other : String}
    (different : other ≠ name) (metadata : SymbolMetadata) :
    (s.upsertExport package name metadata).candidates other = s.candidates other := by
  unfold candidates upsertExport
  exact congrArg (fun found => getD found []) (Finmap.lookup_insert_of_ne _ different)

theorem filed_foldl_applyAdded {names : List String} (once : names.Nodup)
    (exported : ∀ name ∈ names, (package.getPublicExport name).isSome) (s : ProjectNames) :
    Filed package names s (names.foldl (applyAdded package) s) := by
  induction names generalizing s with
  | nil =>
    exact ⟨rfl, rfl, rfl, rfl, rfl, rfl, by simp, fun _ _ => rfl, by simp, fun _ _ => rfl⟩
  | cons first names ih =>
    obtain ⟨metadata, found⟩ := isSome_iff_exists.1 (exported first mem_cons_self)
    have turn : applyAdded package s first = s.upsertExport package first metadata := by
      rw [applyAdded, found]
    obtain ⟨fresh, onceRest⟩ := nodup_cons.1 once
    have rest := ih onceRest (fun name mem => exported name (mem_cons_of_mem _ mem))
      (s.upsertExport package first metadata)
    rw [foldl_cons, turn]
    have keyed : (s.upsertExport package first metadata).symbolKey = s.symbolKey :=
      symbolKey_congr rfl rfl
    set r := names.foldl (applyAdded package) (s.upsertExport package first metadata)
    have held : r.entityIdCache.lookup (s.symbolKey metadata) =
        some (allocate s.entityIdCache (s.symbolKey metadata)).1 := by
      rw [rest.entityIdCache]
      exact extends_allocateAll _ _ _ _ (lookup_allocate_self _ _)
    refine
      { packages := rest.packages
        packagesByName := rest.packagesByName
        fileToPackage := rest.fileToPackage
        fileSymbolContrib := rest.fileSymbolContrib
        namespaceIndex := rest.namespaceIndex
        entityIdCache := ?_
        global_of_mem := ?_
        global_of_notMem := ?_
        simple_of_mem := ?_
        simple_of_notMem := ?_ }
    · rw [rest.entityIdCache, exportKeys, exportKeys, keyed,
        filterMap_cons_some (by rw [found]; rfl)]
      rfl
    · intro name mem other otherFound
      rcases mem_cons.1 mem with rfl | later
      · rw [found] at otherFound
        cases otherFound
        refine ⟨_, held, ?_⟩
        have outside : ∀ name' ∈ names, package.packageName ++ "::" ++ name ≠
            package.packageName ++ "::" ++ name' := by
          intro name' mem' same
          rw [qualified_inj same] at fresh
          exact fresh mem'
        rw [rest.global_of_notMem _ outside]
        exact Finmap.lookup_insert _
      · rw [← keyed]
        exact rest.global_of_mem name later other otherFound
    · intro key outside
      rw [rest.global_of_notMem key fun name mem => outside name (mem_cons_of_mem _ mem)]
      exact Finmap.lookup_insert_of_ne _ (outside first mem_cons_self)
    · intro name mem other otherFound
      rcases mem_cons.1 mem with rfl | later
      · rw [found] at otherFound
        cases otherFound
        refine ⟨_, held, ?_⟩
        rw [rest.simple_of_notMem name fresh]
        exact Finmap.lookup_insert _
      · have different : name ≠ first := fun same => fresh (same ▸ later)
        rw [← keyed, ← candidates_upsertExport_of_ne s different metadata]
        exact rest.simple_of_mem name later other otherFound
    · intro name outside
      rw [mem_cons, not_or] at outside
      rw [rest.simple_of_notMem name outside.2]
      exact Finmap.lookup_insert_of_ne _ outside.1

end Filing

section Preservation

variable {base : FiniteMap String Nat} {s t r r' : ProjectNames} {package : PackageSymbolTable}

theorem mem_exportKeys {names : List String} {key : String} :
    key ∈ exportKeys package s names ↔
      ∃ name ∈ names, ∃ metadata, package.getPublicExport name = some metadata ∧
        s.symbolKey metadata = key := by
  simp only [exportKeys, mem_filterMap, map_eq_some_iff]

theorem Alike.of_filed (alike : Alike base s t) {names names' : List String}
    (same : ∀ name, name ∈ names ↔ name ∈ names')
    (exported : ∀ name ∈ names, (package.getPublicExport name).isSome)
    (filed : Filed package names s r) (filed' : Filed package names' t r') : Alike base r r' := by
  have keyed : s.symbolKey = t.symbolKey := symbolKey_congr alike.packages alike.fileToPackage
  have grows : Extends s.entityIdCache r.entityIdCache := by
    rw [filed.entityIdCache]
    exact extends_allocateAll _ _
  have grows' : Extends t.entityIdCache r'.entityIdCache := by
    rw [filed'.entityIdCache]
    exact extends_allocateAll _ _
  have weaker : ∀ i j, SameSymbol s.entityIdCache t.entityIdCache i j →
      SameSymbol r.entityIdCache r'.entityIdCache i j := fun i j => SameSymbol.mono grows grows'
  refine
    { packages := by rw [filed.packages, filed'.packages, alike.packages]
      packagesByName := by rw [filed.packagesByName, filed'.packagesByName, alike.packagesByName]
      fileToPackage := by rw [filed.fileToPackage, filed'.fileToPackage, alike.fileToPackage]
      fileSymbolContrib := by
        rw [filed.fileSymbolContrib, filed'.fileSymbolContrib, alike.fileSymbolContrib]
      grown := alike.grown.trans grows
      grown' := alike.grown'.trans grows'
      numbered := by
        rw [filed.entityIdCache]
        exact alike.numbered.allocateAll _
      numbered' := by
        rw [filed'.entityIdCache]
        exact alike.numbered'.allocateAll _
      cached := fun key => ?_
      globalIndex := fun key => ?_
      namespaceIndex := by
        rw [filed.namespaceIndex, filed'.namespaceIndex]
        exact alike.namespaceIndex.mono weaker
      simpleNameIndex := fun name => ?_ }
  · rw [filed.entityIdCache, filed'.entityIdCache, isSome_lookup_allocateAll,
      isSome_lookup_allocateAll, mem_exportKeys, mem_exportKeys, alike.cached key, keyed]
    simp only [same]
  · by_cases qualified : ∃ name ∈ names, key = package.packageName ++ "::" ++ name
    · obtain ⟨name, mem, rfl⟩ := qualified
      obtain ⟨metadata, found⟩ := isSome_iff_exists.1 (exported name mem)
      obtain ⟨counter, held, filedHere⟩ := filed.global_of_mem name mem metadata found
      obtain ⟨counter', held', filedThere⟩ :=
        filed'.global_of_mem name ((same name).1 mem) metadata found
      rw [← keyed] at held'
      rw [filedHere, filedThere]
      exact .some (.synthetic held held')
    · have outside : ∀ name ∈ names, key ≠ package.packageName ++ "::" ++ name :=
        fun name mem eq => qualified ⟨name, mem, eq⟩
      rw [filed.global_of_notMem key outside,
        filed'.global_of_notMem key fun name mem => outside name ((same name).2 mem)]
      exact alike.globalIndex.mono weaker key
  · by_cases mem : name ∈ names
    · obtain ⟨metadata, found⟩ := isSome_iff_exists.1 (exported name mem)
      obtain ⟨counter, held, filedHere⟩ := filed.simple_of_mem name mem metadata found
      obtain ⟨counter', held', filedThere⟩ :=
        filed'.simple_of_mem name ((same name).1 mem) metadata found
      rw [← keyed] at held'
      rw [filedHere, filedThere]
      refine .some (SameEntry.placeEntry (SameEntry.filter (fun a b entry =>
        entry.outsidePackage_eq package.packageId) ?_) (.packageExport _ (.synthetic held held')))
      exact (alike.candidates name).imp fun a b entry => entry.mono weaker
    · rw [filed.simple_of_notMem name mem,
        filed'.simple_of_notMem name fun mem' => mem ((same name).2 mem')]
      refine alike.simpleNameIndex.mono (fun entries entries' related => ?_) name
      exact related.imp fun a b entry => entry.mono weaker

theorem Alike.storePackage (alike : Alike base s t) (package : PackageSymbolTable) :
    Alike base (s.storePackage package) (t.storePackage package) :=
  { alike with
    packages := by simp only [ProjectNames.storePackage, alike.packages]
    packagesByName := by simp only [ProjectNames.storePackage, alike.packagesByName]
    fileToPackage := by simp only [ProjectNames.storePackage, alike.fileToPackage] }

theorem Alike.sharePackage (alike : Alike base s t) (packageId : String)
    (package : PackageSymbolTable) :
    Alike base (s.sharePackage packageId package) (t.sharePackage packageId package) := by
  have stored : t.getPackage packageId = s.getPackage packageId := by
    rw [getPackage, getPackage, alike.packages]
  unfold ProjectNames.sharePackage
  rw [stored]
  split_ifs
  · exact { alike with packages := by rw [alike.packages] }
  · exact alike

theorem Alike.insertSymbol (alike : Alike base s t) (qualifiedName : String) (entityId : EntityId)
    (filePath modulePath : String) :
    Alike base (s.insertSymbol qualifiedName entityId filePath modulePath)
      (t.insertSymbol qualifiedName entityId filePath modulePath) := by
  have same := alike.candidates (String.ofList (lastPathSegment qualifiedName.toList))
  refine
    { alike with
      fileSymbolContrib := ?_
      globalIndex := alike.globalIndex.insert _ (.real entityId)
      namespaceIndex := ?_
      simpleNameIndex := alike.simpleNameIndex.insert _ (SameEntry.placeEntry (SameEntry.filter
        (fun a b entry => by rw [entry.filePath_eq]) same) (.fileSymbol _ _ (.real entityId))) }
  · simp only [ProjectNames.insertSymbol, alike.fileSymbolContrib]
  · simp only [ProjectNames.insertSymbol]
    cases (NamespacePath.parse qualifiedName).namespacePrefix with
    | none => exact alike.namespaceIndex
    | some nsPrefix =>
      simp only
      split_ifs
      · exact alike.namespaceIndex.insert _ (.real entityId)
      · exact alike.namespaceIndex

end Preservation

section Modules

variable {package : PackageSymbolTable} {table : ModuleSymbolTable}

theorem removed_addModuleIncremental (order : HashOrder)
    (unseen : package.moduleExportContrib.lookup table.filePath = none) :
    (package.addModuleIncremental order table).2.removed = [] := by
  refine eq_nil_iff_forall_not_mem.2 fun name mem => ?_
  have inDifference := (order.mem_deltaNames _ _ name).1 mem
  rw [unseen] at inDifference
  simp at inDifference

theorem addModuleIncremental_eq (order order' : HashOrder)
    (unseen : package.moduleExportContrib.lookup table.filePath = none) :
    (package.addModuleIncremental order table).1 =
      (package.addModuleIncremental order' table).1 := by
  have removed := removed_addModuleIncremental order unseen
  have removed' := removed_addModuleIncremental order' unseen
  simp only [PackageSymbolTable.addModuleIncremental] at removed removed' ⊢
  rw [removed, removed']
  rfl

theorem mem_added (package : PackageSymbolTable) (order : HashOrder) (name : String) :
    name ∈ (package.addModuleIncremental order table).2.added ↔ name ∈ table.publicExports.keys :=
  order.mem_deltaNames _ _ _

theorem isSome_getPublicExport (order : HashOrder) {name : String}
    (mem : name ∈ table.publicExports.keys) :
    ((package.addModuleIncremental order table).1.getPublicExport name).isSome := by
  rw [PackageSymbolTable.getPublicExport, Finmap.lookup_isSome]
  exact Finmap.mem_union.2 (Or.inl (Finmap.mem_keys.1 mem))

theorem Alike.addModule {base : FiniteMap String Nat} {s t : ProjectNames}
    (alike : Alike base s t) (order order' : HashOrder) (packageId : String)
    (created : PackageSymbolTable)
    (unseen : ((s.getPackage packageId).getD created).moduleExportContrib.lookup
      table.filePath = none) :
    Alike base (s.addModule order packageId created table)
      (t.addModule order' packageId created table) := by
  have stored : t.getPackage packageId = s.getPackage packageId := by
    rw [getPackage, getPackage, alike.packages]
  unfold ProjectNames.addModule
  rw [stored]
  set package := (s.getPackage packageId).getD created
  have removed := removed_addModuleIncremental order unseen
  have removed' := removed_addModuleIncremental order' unseen
  simp only [applyPackageDelta, removed, removed', foldl_nil,
    ← addModuleIncremental_eq order order' unseen]
  refine Alike.storePackage ?_ _
  refine (alike.sharePackage packageId _).of_filed (fun name => ?_) (fun name mem => ?_)
    (filed_foldl_applyAdded (order.nodup_deltaNames _ _) (fun name mem => ?_) _)
    (filed_foldl_applyAdded (order'.nodup_deltaNames _ _) (fun name mem => ?_) _)
  · exact (mem_added package order name).trans (mem_added package order' name).symm
  · exact isSome_getPublicExport order ((mem_added package order name).1 mem)
  · exact isSome_getPublicExport order ((mem_added package order name).1 mem)
  · exact isSome_getPublicExport order ((mem_added package order' name).1 mem)

end Modules

end ProjectNames

section Renaming

/-- Renumber the made-up ids. -/
def SymbolId.rename (ρ : Nat → Nat) : SymbolId → SymbolId
  | real id => real id
  | synthetic counter => synthetic (ρ counter)

def SimpleNameEntry.rename (ρ : Nat → Nat) : SimpleNameEntry → SimpleNameEntry
  | fileSymbol filePath modulePath id => fileSymbol filePath modulePath (id.rename ρ)
  | packageExport packageId id => packageExport packageId (id.rename ρ)

namespace ProjectNames

/-- The second tables are the first with the made-up ids renumbered. -/
structure RenamedBy (ρ : Nat → Nat) (s t : ProjectNames) : Prop where
  packages : t.packages = s.packages
  packagesByName : t.packagesByName = s.packagesByName
  fileToPackage : t.fileToPackage = s.fileToPackage
  fileSymbolContrib : t.fileSymbolContrib = s.fileSymbolContrib
  entityIdCache : ∀ key, t.entityIdCache.lookup key = (s.entityIdCache.lookup key).map ρ
  globalIndex : ∀ key,
    t.globalIndex.lookup key = (s.globalIndex.lookup key).map (SymbolId.rename ρ)
  namespaceIndex : ∀ key,
    t.namespaceIndex.lookup key = (s.namespaceIndex.lookup key).map (SymbolId.rename ρ)
  simpleNameIndex : ∀ name, t.simpleNameIndex.lookup name =
    (s.simpleNameIndex.lookup name).map (List.map (SimpleNameEntry.rename ρ))

def SameUpToFreshIds (base : FiniteMap String Nat) (s t : ProjectNames) : Prop :=
  ∃ ρ : Nat → Nat, (∀ counter ∈ used base, ρ counter = counter) ∧
    Set.InjOn ρ (used s.entityIdCache) ∧ RenamedBy ρ s t

theorem map_eq_of_related {V : Type} {R : V → V → Prop} {f : V → V} {m n : FiniteMap String V}
    (related : FiniteMap.Related R m n) (maps : ∀ v w, R v w → w = f v) (key : String) :
    n.lookup key = (m.lookup key).map f := by
  have here := related key
  generalize m.lookup key = v, n.lookup key = w at here ⊢
  cases here with
  | some holds => rw [maps _ _ holds, map_some]
  | none => rfl

theorem Alike.sameUpToFreshIds {base : FiniteMap String Nat} {s t : ProjectNames}
    (alike : Alike base s t) : SameUpToFreshIds base s t := by
  have renamed : ∀ i j, SameSymbol s.entityIdCache t.entityIdCache i j →
      j = i.rename (counterpart s.entityIdCache t.entityIdCache) := by
    intro i j same
    cases same with
    | real id => rfl
    | synthetic held held' =>
      rw [SymbolId.rename, counterpart_eq alike.numbered held held']
  have renamedEntry : ∀ a b, SameEntry (SameSymbol s.entityIdCache t.entityIdCache) a b →
      b = a.rename (counterpart s.entityIdCache t.entityIdCache) := by
    intro a b same
    cases same with
    | fileSymbol filePath modulePath same => rw [SimpleNameEntry.rename, renamed _ _ same]
    | packageExport packageId same => rw [SimpleNameEntry.rename, renamed _ _ same]
  refine ⟨counterpart s.entityIdCache t.entityIdCache,
    fun counter mem => counterpart_of_extends alike.numbered alike.grown alike.grown' mem,
    injOn_counterpart alike.numbered alike.numbered' alike.cached,
    { packages := alike.packages.symm
      packagesByName := alike.packagesByName.symm
      fileToPackage := alike.fileToPackage.symm
      fileSymbolContrib := alike.fileSymbolContrib.symm
      entityIdCache := fun key => ?_
      globalIndex := map_eq_of_related alike.globalIndex renamed
      namespaceIndex := map_eq_of_related alike.namespaceIndex renamed
      simpleNameIndex := map_eq_of_related alike.simpleNameIndex fun as bs same => ?_ }⟩
  · have cached := alike.cached key
    cases held : s.entityIdCache.lookup key with
    | some counter =>
      rw [held] at cached
      obtain ⟨counter', held'⟩ := isSome_iff_exists.1 (cached.1 rfl)
      rw [held', map_some, counterpart_eq alike.numbered held held']
    | none =>
      rw [held] at cached
      exact not_isSome_iff_eq_none.1 fun some => Bool.false_ne_true (cached.2 some)
  · induction same with
    | nil => rfl
    | cons head _ ih => rw [map_cons, renamedEntry _ _ head, ih]

end ProjectNames

end Renaming

end ContextEngine

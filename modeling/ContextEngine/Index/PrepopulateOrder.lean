/- digest: Filling by package agrees with filling file by file where no second package is named. -/

import ContextEngine.Index.PrepopulateSymbols
import ContextEngine.SymbolTable.NameRenaming

set_option autoImplicit false

namespace ContextEngine

open List

namespace ProjectNames

section Packages

variable (names : ProjectNames)

def KeyedById : Prop :=
  ∀ packageId package, names.getPackage packageId = some package → package.packageId = packageId

def packageWith (order : HashOrder) (packageId : String)
    (created : PackageSymbolTable) (table : ModuleSymbolTable) : PackageSymbolTable :=
  (((names.getPackage packageId).getD created).addModuleIncremental order table).1

variable {names : ProjectNames} {order : HashOrder} {packageId : String}
  {created : PackageSymbolTable} {table : ModuleSymbolTable}

theorem packageId_packageWith (keyed : names.KeyedById) (own : created.packageId = packageId) :
    (names.packageWith order packageId created table).packageId = packageId := by
  change ((names.getPackage packageId).getD created).packageId = packageId
  cases found : names.getPackage packageId with
  | some package => exact keyed packageId package found
  | none => exact own

variable (package : PackageSymbolTable)

theorem packages_applyRemoved (names : ProjectNames)
    (name : String) : (applyRemoved package names name).packages = names.packages := by
  unfold applyRemoved
  split <;> rfl

theorem packages_applyAdded (names : ProjectNames) (name : String) :
    (applyAdded package names name).packages = names.packages := by
  unfold applyAdded
  split <;> rfl

theorem getPackage_applyPackageDelta
    (delta : PackageDelta) (other : String) :
    (names.applyPackageDelta package delta).getPackage other =
      if other = package.packageId then some package else names.getPackage other := by
  have filed : (delta.added.foldl (applyAdded package)
      (delta.removed.foldl (applyRemoved package) names)).packages = names.packages := by
    rw [foldl_frame ProjectNames.packages _ (packages_applyAdded package),
      foldl_frame ProjectNames.packages _ (packages_applyRemoved package)]
  unfold applyPackageDelta getPackage
  rw [← FiniteMap.lookup_insert_eq, ← filed]
  rfl

theorem getPackage_addModule (keyed : names.KeyedById) (own : created.packageId = packageId)
    (other : String) :
    (names.addModule order packageId created table).getPackage other =
      if other = packageId then some (names.packageWith order packageId created table)
      else names.getPackage other := by
  have id : (names.packageWith order packageId created table).packageId = packageId :=
    packageId_packageWith keyed own
  change ((names.sharePackage packageId (names.packageWith order packageId created table)
    ).applyPackageDelta (names.packageWith order packageId created table) _).getPackage other = _
  rw [getPackage_applyPackageDelta, id]
  split_ifs with here
  · rfl
  · unfold sharePackage
    split_ifs
    · exact Finmap.lookup_insert_of_ne _ here
    · rfl

theorem KeyedById.addModule (keyed : names.KeyedById) (own : created.packageId = packageId) :
    (names.addModule order packageId created table).KeyedById := by
  intro other package found
  rw [getPackage_addModule keyed own] at found
  split_ifs at found with here
  · rw [here, ← Option.some.inj found]
    exact packageId_packageWith keyed own
  · exact keyed other package found

theorem addModule_of_stored (stored : (names.getPackage packageId).isSome)
    (created' : PackageSymbolTable) :
    names.addModule order packageId created table =
      names.addModule order packageId created' table := by
  obtain ⟨package, found⟩ := Option.isSome_iff_exists.1 stored
  unfold addModule
  rw [found]
  rfl

end Packages

end ProjectNames

section FileTurns

variable {V Shape : Type} [RelationIndexView V] {policy : SymbolPolicy} {existing : V}
  {order : HashOrder} {packageId : String} {created : PackageSymbolTable}
  {state : PrefillState Shape} {entry : PrecomputedEntry}

theorem getPackage_insertFileSymbols (policy : SymbolPolicy) (entry : PrecomputedEntry)
    (names : ProjectNames) (packageId : String) :
    (insertFileSymbols policy entry names).getPackage packageId = names.getPackage packageId := by
  unfold insertFileSymbols ProjectNames.getPackage
  rw [foldl_frame ProjectNames.packages (insertFileSymbol entry.filePath) fun _ _ => rfl]

theorem getPackage_applyFile (keyed : state.names.KeyedById) (own : created.packageId = packageId)
    (other : String) :
    (applyFile policy existing order packageId created state entry).names.getPackage other =
      if other = packageId then
        some (state.names.packageWith order packageId created entry.moduleTable)
      else state.names.getPackage other := by
  rw [← ProjectNames.getPackage_addModule keyed own]
  exact getPackage_insertFileSymbols _ _ _ _

theorem keyedById_applyFile (keyed : state.names.KeyedById) (own : created.packageId = packageId) :
    (applyFile policy existing order packageId created state entry).names.KeyedById := by
  intro other package found
  exact keyed.addModule own other package ((getPackage_insertFileSymbols _ _ _ _).symm.trans found)

theorem applyFile_of_stored (stored : (state.names.getPackage packageId).isSome)
    (created' : PackageSymbolTable) :
    applyFile policy existing order packageId created state entry =
      applyFile policy existing order packageId created' state entry := by
  unfold applyFile
  rw [ProjectNames.addModule_of_stored stored created']

end FileTurns

section SerialRuns

variable {V Shape : Type} [RelationIndexView V] {policy : SymbolPolicy} {existing : V}
  {order : HashOrder} {byFile : HashMap String (List Entity)}
  {base : FiniteMap String Nat}

/-- What the tables of the changed files grant: every package is under its id, and the default
package has seen none of the files to fill in. -/
structure ReadyFor (names : ProjectNames) (filePaths : List String) : Prop where
  keyed : names.KeyedById
  unseen : ∀ package, names.getPackage defaultPackage = some package →
    ∀ path ∈ filePaths, package.moduleExportContrib.lookup path = none

/-- The states of two runs agree up to the ids made up on the way. -/
structure StatesAlike (base : FiniteMap String Nat) (s t : PrefillState Shape) : Prop where
  index : s.index = t.index
  names : ProjectNames.Alike base s.names t.names
  propagator : s.propagator = t.propagator
  typeContexts : s.typeContexts = t.typeContexts

def serialTurn (policy : SymbolPolicy) (existing : V) (order : HashOrder)
    (entitiesByFile : HashMap String (List Entity)) (state : PrefillState Shape)
    (filePath : String) : PrefillState Shape :=
  applyFile policy existing order defaultPackage
    (newPackage defaultPackage (policy.detectLanguage filePath)) state
    (precompute policy entitiesByFile filePath)

variable {rest : List String} {path : String}

theorem unseen_of_ready {names : ProjectNames}
    (ready : ReadyFor names (path :: rest)) (language : Language) :
    ((names.getPackage defaultPackage).getD (newPackage defaultPackage language)
      ).moduleExportContrib.lookup path = none := by
  cases found : names.getPackage defaultPackage with
  | some package => exact ready.unseen package found path mem_cons_self
  | none => exact Finmap.lookup_empty path

theorem filePath_moduleTableOf (policy : SymbolPolicy) (filePath : String) (language : Language)
    (entities : List Entity) (exports : List ExportInfo) :
    (moduleTableOf policy filePath language entities exports).filePath = filePath := by
  unfold moduleTableOf
  rw [foldl_frame ModuleSymbolTable.filePath, foldl_frame ModuleSymbolTable.filePath]
  · rfl
  · intro table entity
    split_ifs <;> rfl
  · intro table exported
    split_ifs
    · rfl
    · split <;> rfl

theorem ReadyFor.serialTurn {state : PrefillState Shape}
    (ready : ReadyFor state.names (path :: rest)) (fresh : path ∉ rest) :
    ReadyFor (serialTurn policy existing order byFile state path).names rest := by
  refine ⟨keyedById_applyFile ready.keyed rfl, fun package found other mem => ?_⟩
  have own : (newPackage defaultPackage (policy.detectLanguage path)).packageId = defaultPackage :=
    rfl
  rw [ContextEngine.serialTurn, getPackage_applyFile ready.keyed own, if_pos rfl] at found
  cases found
  change (Finmap.insert (moduleTableOf policy path _ _ _).filePath _ _).lookup other = none
  have different : other ≠ path := by
    rintro rfl
    exact fresh mem
  rw [filePath_moduleTableOf, Finmap.lookup_insert_of_ne _ different]
  cases stored : state.names.getPackage defaultPackage with
  | some package => exact ready.unseen package stored other (mem_cons_of_mem _ mem)
  | none => exact Finmap.lookup_empty other

theorem StatesAlike.serialTurn {s t : PrefillState Shape}
    (alike : StatesAlike base s t) (ready : ReadyFor s.names (path :: rest))
    (order order' : HashOrder) :
    StatesAlike base (serialTurn policy existing order byFile s path)
      (serialTurn policy existing order' byFile t path) := by
  have unseen : ((s.names.getPackage defaultPackage).getD
      (newPackage defaultPackage (policy.detectLanguage path))).moduleExportContrib.lookup
      (precompute policy byFile path).moduleTable.filePath = none := by
    rw [precompute, filePath_moduleTableOf]
    exact unseen_of_ready ready _
  have filed := alike.names.addModule order order' defaultPackage
    (newPackage defaultPackage (policy.detectLanguage path)) unseen
  refine
    { index := ?_
      names := ?_
      propagator := ?_
      typeContexts := ?_ }
  · simp only [ContextEngine.serialTurn, applyFile, alike.index]
  · change ProjectNames.Alike base (insertFileSymbols policy _ _) (insertFileSymbols policy _ _)
    unfold insertFileSymbols
    induction fileSymbols policy (precompute policy byFile path) using reverseRecOn with
    | nil => exact filed
    | append_singleton symbols symbol ih =>
      rw [foldl_append, foldl_append]
      exact ih.insertSymbol _ _ _ _
  · simp only [ContextEngine.serialTurn, applyFile, alike.propagator]
  · simp only [ContextEngine.serialTurn, applyFile, alike.typeContexts]

theorem StatesAlike.prefillSerially {filePaths : List String} (once : filePaths.Nodup)
    {s t : PrefillState Shape} (alike : StatesAlike base s t)
    (ready : ReadyFor s.names filePaths) (order order' : HashOrder) :
    StatesAlike base (prefillSerially policy existing order byFile filePaths s)
      (prefillSerially policy existing order' byFile filePaths t) := by
  induction filePaths generalizing s t with
  | nil => exact alike
  | cons path rest ih =>
    obtain ⟨fresh, onceRest⟩ := nodup_cons.1 once
    exact ih onceRest (alike.serialTurn ready order order') (ready.serialTurn fresh)

theorem getPackage_prefillSerially {filePaths : List String} {s : PrefillState Shape}
    (keyed : s.names.KeyedById) {other : String} (different : other ≠ defaultPackage) :
    (prefillSerially policy existing order byFile filePaths s).names.getPackage other =
      s.names.getPackage other := by
  induction filePaths generalizing s with
  | nil => rfl
  | cons path rest ih =>
    have own : (newPackage defaultPackage (policy.detectLanguage path)).packageId =
        defaultPackage := rfl
    refine (ih (keyedById_applyFile keyed own)).trans ?_
    rw [getPackage_applyFile keyed own, if_neg different]

end SerialRuns

section PackageRuns

variable {V Shape : Type} [RelationIndexView V] {policy : SymbolPolicy} {existing : V}
  {order : HashOrder} {byFile : HashMap String (List Entity)}

section Grouping

variable {entries : List PrecomputedEntry}

theorem bucket_groupByPackage (entries : List PrecomputedEntry) (packageName : String) :
    (groupByPackage entries).bucket packageName =
      entries.filter fun entry => packageOf entry.filePath entry.language = packageName := by
  have pushed := HashMap.bucket_foldl_bucketPush (∅ : HashMap String (List PrecomputedEntry))
    (fun entry => packageOf entry.filePath entry.language) id entries packageName
  rw [map_id] at pushed
  exact pushed

theorem mem_keys_groupByPackage {packageName : String} :
    packageName ∈ (groupByPackage entries).keys ↔
      ∃ entry ∈ entries, packageOf entry.filePath entry.language = packageName := by
  rw [HashMap.mem_keys_iff]
  induction entries using reverseRecOn with
  | nil => simp [groupByPackage]
  | append_singleton entries entry ih =>
    rw [groupByPackage, foldl_append, foldl_cons, foldl_nil,
      HashMap.bucketPush, HashMap.lookup_alter]
    split_ifs with here
    · simp [here]
    · rw [← groupByPackage, ih]
      simp [Ne.symm here]

end Grouping

theorem packageNames_singleton (order : HashOrder) (packageName : String) :
    order.packageNames {packageName} = [packageName] := by
  refine perm_singleton.1 ((perm_ext_iff_of_nodup (order.nodup_packageNames _)
    (nodup_singleton _)).2 fun other => ?_)
  rw [order.mem_packageNames, Finset.mem_singleton, mem_singleton]

theorem foldl_applyFile_of_stored {filePaths : List String} {s : PrefillState Shape}
    (keyed : s.names.KeyedById) (stored : (s.names.getPackage defaultPackage).isSome)
    {created : PackageSymbolTable} (own : created.packageId = defaultPackage) :
    (filePaths.map (precompute policy byFile)).foldl
        (applyFile policy existing order defaultPackage created) s =
      prefillSerially policy existing order byFile filePaths s := by
  induction filePaths generalizing s with
  | nil => rfl
  | cons path rest ih =>
    have turn : applyFile policy existing order defaultPackage created s
          (precompute policy byFile path) =
        serialTurn policy existing order byFile s path := applyFile_of_stored stored _
    rw [map_cons, foldl_cons, ih (keyedById_applyFile keyed own), turn]
    · rfl
    · rw [getPackage_applyFile keyed own, if_pos rfl]
      rfl

theorem prefillByPackage_eq_serially {filePaths : List String} {s : PrefillState Shape}
    (keyed : s.names.KeyedById) (nonempty : filePaths ≠ [])
    (allDefault : ∀ path ∈ filePaths, packageOf path
      (policy.detectLanguage path) = defaultPackage) :
    prefillByPackage policy existing order byFile filePaths s =
      prefillSerially policy existing order byFile filePaths s := by
  obtain ⟨path, rest, rfl⟩ := exists_cons_of_ne_nil nonempty
  set entries := (path :: rest).map (precompute policy byFile) with entriesDef
  have grouped : ∀ entry ∈ entries, packageOf entry.filePath entry.language = defaultPackage := by
    intro entry mem
    obtain ⟨file, fileMem, rfl⟩ := mem_map.1 mem
    exact allDefault file fileMem
  have keys : (groupByPackage entries).keys.toFinset = {defaultPackage} := by
    ext packageName
    rw [mem_toFinset, mem_keys_groupByPackage, Finset.mem_singleton]
    constructor
    · rintro ⟨entry, mem, rfl⟩
      exact grouped entry mem
    · rintro rfl
      exact ⟨_, mem_cons_self, grouped _ mem_cons_self⟩
  have bucket : (groupByPackage entries).bucket defaultPackage = entries := by
    rw [bucket_groupByPackage, filter_eq_self]
    exact fun entry mem => decide_eq_true (grouped entry mem)
  have own : (newPackage defaultPackage (policy.detectLanguage path)).packageId = defaultPackage :=
    rfl
  simp only [prefillByPackage, keys, packageNames_singleton, foldl_cons, foldl_nil,
    applyPackage, bucket, ← entriesDef]
  rw [entriesDef, map_cons, foldl_cons]
  refine foldl_applyFile_of_stored (keyedById_applyFile keyed own) ?_ own
  rw [getPackage_applyFile keyed own, if_pos rfl]
  rfl

section Opening

variable {packageId : String} {created : PackageSymbolTable} {s : PrefillState Shape}

theorem packages_foldl_applyFile (policy : SymbolPolicy) (existing : V) (order : HashOrder)
    (own : created.packageId = packageId) (entries : List PrecomputedEntry)
    (keyed : s.names.KeyedById) :
    (entries.foldl (applyFile policy existing order packageId created) s).names.KeyedById ∧
      ∀ other, (s.names.getPackage other).isSome ∨ other = packageId ∧ entries ≠ [] →
        ((entries.foldl (applyFile policy existing order packageId created) s).names.getPackage
          other).isSome := by
  induction entries generalizing s with
  | nil =>
    refine ⟨keyed, fun other held => held.elim id fun opened => absurd rfl opened.2⟩
  | cons entry entries ih =>
    have keyedNext : (applyFile policy existing order packageId created s entry).names.KeyedById :=
      keyedById_applyFile keyed own
    obtain ⟨keyedLater, later⟩ := ih keyedNext
    refine ⟨keyedLater, fun other held => later other (Or.inl ?_)⟩
    rw [getPackage_applyFile keyed own]
    split_ifs with here
    · rfl
    · exact held.resolve_right fun opened => here opened.1

theorem packages_foldl_applyPackage (byPackage : HashMap String (List PrecomputedEntry))
    (packageNames : List String) (keyed : s.names.KeyedById) (other : String)
    (held : (s.names.getPackage other).isSome ∨
      other ∈ packageNames ∧ byPackage.bucket other ≠ []) :
    ((packageNames.foldl (applyPackage policy existing order byPackage) s).names.getPackage
      other).isSome := by
  induction packageNames generalizing s with
  | nil => exact held.elim id fun opened => absurd opened.1 not_mem_nil
  | cons packageName packageNames ih =>
    have own : (newPackage packageName ((((byPackage.bucket packageName).head?.map
        (·.filePath)).map policy.detectLanguage).getD .unknown)).packageId = packageName := rfl
    obtain ⟨keyedLater, later⟩ := packages_foldl_applyFile policy existing order own
      (byPackage.bucket packageName) keyed
    refine ih keyedLater ?_
    rcases held with stored | ⟨mem, nonempty⟩
    · exact Or.inl (later other (Or.inl stored))
    · rcases mem_cons.1 mem with rfl | elsewhere
      · exact Or.inl (later other (Or.inr ⟨rfl, nonempty⟩))
      · exact Or.inr ⟨elsewhere, nonempty⟩

theorem isSome_getPackage_prefillByPackage (policy : SymbolPolicy) (existing : V)
    (order : HashOrder) (byFile : HashMap String (List Entity)) {filePaths : List String}
    (keyed : s.names.KeyedById) {path : String} (mem : path ∈ filePaths) :
    ((prefillByPackage policy existing order byFile filePaths s).names.getPackage
      (packageOf path (policy.detectLanguage path))).isSome := by
  have grouped : ∃ entry ∈ filePaths.map (precompute policy byFile),
      packageOf entry.filePath entry.language = packageOf path (policy.detectLanguage path) :=
    ⟨_, mem_map_of_mem mem, rfl⟩
  refine packages_foldl_applyPackage _ _ keyed _ (Or.inr ⟨?_, ?_⟩)
  · rw [order.mem_packageNames, mem_toFinset, mem_keys_groupByPackage]
    exact grouped
  · obtain ⟨entry, entryMem, same⟩ := grouped
    rw [bucket_groupByPackage]
    exact ne_nil_of_mem (mem_filter.2 ⟨entryMem, decide_eq_true same⟩)

end Opening

end PackageRuns

section Prepopulation

variable {V Shape : Type} [RelationIndexView V]

/-- What the symbol table of the changed files grants: the default package is its only one and has
seen none of the files to fill in, and its made-up ids are numbered. -/
structure ChangedFilesTable (names : ProjectNames) (filePaths : List String) : Prop
    extends ReadyFor names filePaths where
  onlyDefault : ∀ packageId, (names.getPackage packageId).isSome → packageId = defaultPackage
  wellNumbered : names.WellNumbered

/-- The index and the symbol tables are equal, up to a renumbering of ids made up on the way. -/
structure PrefillState.SameUpToFreshIds (base : FiniteMap String Nat) (s t : PrefillState Shape) :
    Prop where
  index : s.index = t.index
  names : ProjectNames.SameUpToFreshIds base s.names t.names
  propagator : s.propagator = t.propagator
  typeContexts : s.typeContexts = t.typeContexts

theorem StatesAlike.sameUpToFreshIds {base : FiniteMap String Nat} {s t : PrefillState Shape}
    (alike : StatesAlike base s t) : PrefillState.SameUpToFreshIds base s t :=
  ⟨alike.index, alike.names.sameUpToFreshIds, alike.propagator, alike.typeContexts⟩

theorem prefillSerially_sameUpToFreshIds (policy : SymbolPolicy) (existing : V)
    (byFile : HashMap String (List Entity)) {filePaths : List String}
    (once : filePaths.Nodup) (start : PrefillState Shape)
    (table : ChangedFilesTable start.names filePaths) (order order' : HashOrder) :
    PrefillState.SameUpToFreshIds start.names.entityIdCache
      (prefillSerially policy existing order byFile filePaths start)
      (prefillSerially policy existing order' byFile filePaths start) := by
  have alike : StatesAlike start.names.entityIdCache start start :=
    ⟨rfl, table.wellNumbered.alike, rfl, rfl⟩
  exact (alike.prefillSerially once table.toReadyFor order order').sameUpToFreshIds

theorem nodup_prefillPaths (byFile : HashMap String (List Entity))
    (skipFiles : HashSet String) (scopeFiles : Option (HashSet String)) :
    (prefillPaths byFile skipFiles scopeFiles).Nodup :=
  (perm_sortByKey id _).nodup_iff.2 (byFile.keys_nodup.filter _)

section Builder

abbrev QualifiedSymbol := String × EntityId × String

def insertQualified (names : ProjectNames) (symbol : QualifiedSymbol) : ProjectNames :=
  names.insertSymbol symbol.1 symbol.2.1 symbol.2.2 symbol.2.2

/-- What the symbol table builder leaves for the changed files: their package, with its exports, and
their file symbols. -/
def builtNames (package : PackageSymbolTable) (exportNames : List String)
    (symbols : List QualifiedSymbol) : ProjectNames :=
  symbols.foldl insertQualified (({} : ProjectNames).addPackage package exportNames)

theorem getPackage_builtNames (package : PackageSymbolTable) (exportNames : List String)
    (symbols : List QualifiedSymbol) (packageId : String) :
    (builtNames package exportNames symbols).getPackage packageId =
      if packageId = package.packageId then some package else none := by
  unfold builtNames ProjectNames.getPackage
  rw [foldl_frame ProjectNames.packages insertQualified fun _ _ => rfl]
  change Finmap.lookup packageId (Finmap.insert package.packageId package
    (exportNames.foldl (ProjectNames.applyAdded package) {}).packages) = _
  rw [foldl_frame ProjectNames.packages _ (ProjectNames.packages_applyAdded package),
    FiniteMap.lookup_insert_eq]
  split_ifs
  · rfl
  · exact Finmap.lookup_empty packageId

/-- The builder grants what the prepopulation asks for: the changed files are the skipped ones. -/
theorem changedFilesTable_builtNames {package : PackageSymbolTable}
    (own : package.packageId = defaultPackage) {skipFiles : HashSet String}
    (changed : ∀ path, (package.moduleExportContrib.lookup path).isSome → path ∈ skipFiles)
    (exportNames : List String) (symbols : List QualifiedSymbol)
    (byFile : HashMap String (List Entity)) (scopeFiles : Option (HashSet String)) :
    ChangedFilesTable (builtNames package exportNames symbols)
      (prefillPaths byFile skipFiles scopeFiles) := by
  have stored : ∀ packageId found,
      (builtNames package exportNames symbols).getPackage packageId = some found →
      packageId = defaultPackage ∧ found = package := by
    intro packageId found here
    rw [getPackage_builtNames] at here
    split_ifs at here with same
    exact ⟨same.trans own, (Option.some.inj here).symm⟩
  refine
    { keyed := fun packageId found here => ?_
      unseen := fun found here path mem => ?_
      onlyDefault := fun packageId here => ?_
      wellNumbered := ?_ }
  · rw [(stored packageId found here).1, (stored packageId found here).2, own]
  · rw [(stored _ found here).2]
    refine Option.not_isSome_iff_eq_none.1 fun seen => ?_
    rw [prefillPaths, mem_sortByKey, mem_filter, Bool.and_eq_true, decide_eq_true_iff] at mem
    exact mem.2.1 (changed path seen)
  · obtain ⟨found, here⟩ := Option.isSome_iff_exists.1 here
    exact (stored packageId found here).1
  · unfold builtNames
    induction symbols using reverseRecOn with
    | nil => exact ProjectNames.WellNumbered.empty.addPackage package exportNames
    | append_singleton symbols symbol ih =>
      rw [foldl_append, foldl_cons, foldl_nil]
      refine (ih fun packageId found here => ?_).insertSymbol _ _ _ _
      rw [getPackage_builtNames] at here
      split_ifs at here with same
      exact ⟨same.trans own, (Option.some.inj here).symm⟩

end Builder

section Branches

variable {policy : SymbolPolicy} {existing : V} {order : HashOrder}
  {byFile : HashMap String (List Entity)} {skipFiles : HashSet String}
  {scopeFiles : Option (HashSet String)} {start : PrefillState Shape}

theorem prepopulateIndexSymbols_of_lt
    (many : parallelThreshold < (prefillPaths byFile skipFiles scopeFiles).length) :
    prepopulateIndexSymbols policy existing order byFile skipFiles scopeFiles start =
      prefillByPackage policy existing order byFile
        (prefillPaths byFile skipFiles scopeFiles) start := if_pos many

theorem prepopulateIndexSymbols_of_le
    (few : (prefillPaths byFile skipFiles scopeFiles).length ≤ parallelThreshold) :
    prepopulateIndexSymbols policy existing order byFile skipFiles scopeFiles start =
      prefillSerially policy existing order byFile
        (prefillPaths byFile skipFiles scopeFiles) start := if_neg (Nat.not_lt.2 few)

end Branches

theorem not_sameUpToFreshIds_of_second (policy : SymbolPolicy) (existing : V)
    {byFile : HashMap String (List Entity)} {skipFiles : HashSet String}
    {scopeFiles : Option (HashSet String)} {start : PrefillState Shape}
    (table : ChangedFilesTable start.names (prefillPaths byFile skipFiles scopeFiles))
    (many : parallelThreshold < (prefillPaths byFile skipFiles scopeFiles).length)
    {path : String} (mem : path ∈ prefillPaths byFile skipFiles scopeFiles)
    (second : packageOf path (policy.detectLanguage path) ≠ defaultPackage)
    (order serialOrder : HashOrder) :
    ¬ PrefillState.SameUpToFreshIds start.names.entityIdCache
      (prepopulateIndexSymbols policy existing order byFile skipFiles scopeFiles start)
      (prefillSerially policy existing serialOrder byFile
        (prefillPaths byFile skipFiles scopeFiles) start) := by
  intro same
  obtain ⟨ρ, -, -, renamed⟩ := same.names
  rw [prepopulateIndexSymbols_of_lt many] at renamed
  have opened := isSome_getPackage_prefillByPackage policy existing order byFile
    table.keyed mem
  rw [ProjectNames.getPackage, ← renamed.packages, ← ProjectNames.getPackage,
    getPackage_prefillSerially table.keyed second] at opened
  exact second (table.onlyDefault _ opened)

section ManyModules

def rustPolicy : SymbolPolicy where
  detectLanguage _ := .rust
  detectVisibility entity _ := if "pub" ∈ entity.modifiers then .publicAll else .privateOnly

def rustFile (dir : String) (n : Nat) : String :=
  String.ofList (dir.toList ++ (List.replicate (n + 1) 'm' ++ ".rs".toList))

def rustFunction (n : Nat) : Entity :=
  { Entity.new n .function "run" Span.unavailable with modifiers := ["pub"] }

def rustBase (dir : String) : Nat → RelationIndex
  | 0 => .new
  | n + 1 => (rustBase dir n).addFunctionWithPath n (rustFunction n) (rustFile dir n)

variable {dir : String}

theorem lookup_rustBase {count n : Nat} (lt : n < count) :
    (rustBase dir count).entityFileIndex.lookup n = some (rustFile dir n) ∧
      (rustBase dir count).functionIndex.lookup n = some (rustFunction n) := by
  induction count with
  | zero => exact absurd lt (Nat.not_lt_zero n)
  | succ count ih =>
    change ((rustBase dir count).entityFileIndex.insert count (rustFile dir count)).lookup n = _ ∧
      ((rustBase dir count).functionIndex.insert count (rustFunction count)).lookup n = _
    rw [HashMap.lookup_insert_eq, HashMap.lookup_insert_eq]
    split_ifs with last
    · rw [last]
      exact ⟨rfl, rfl⟩
    · exact ih (lt_of_le_of_ne (Nat.le_of_lt_succ lt) last)

variable {path : String}

theorem mem_keys_entitiesByFile {index : RelationIndex} :
    path ∈ index.entitiesByFile.keys ↔ ∃ id entity,
      index.entityFileIndex.lookup id = some path ∧
        index.functionIndex.lookup id = some entity := by
  refine (HashMap.mem_keys_foldl_iff (P := fun entry => entry.2 = path ∧
    (index.functionIndex.lookup entry.1).isSome) (fun byFile entry => ?_) _ ∅).trans ?_
  · split
    · next live => simp [HashMap.mem_keys_bucketPush, live, eq_comm]
    · next absent => simp [absent]
  · simp [HashMap.mem_toList, Option.isSome_iff_exists]

theorem rustFile_of_lookup {count : Nat} {id : EntityId}
    (filed : (rustBase dir count).entityFileIndex.lookup id = some path) :
    ∃ n, path = rustFile dir n := by
  induction count with
  | zero => cases filed
  | succ count ih =>
    change ((rustBase dir count).entityFileIndex.insert count (rustFile dir count)).lookup id = _
      at filed
    rw [HashMap.lookup_insert_eq] at filed
    split_ifs at filed with last
    · exact ⟨count, (Option.some.inj filed).symm⟩
    · exact ih filed

theorem rustFile_of_mem_prefillPaths {count : Nat}
    (mem : path ∈ prefillPaths (rustBase dir count).entitiesByFile ∅ none) :
    ∃ n, path = rustFile dir n := by
  rw [prefillPaths, mem_sortByKey, mem_filter] at mem
  obtain ⟨id, _, filed, -⟩ := mem_keys_entitiesByFile.1 mem.1
  exact rustFile_of_lookup filed

theorem mem_prefillPaths_rustBase {count n : Nat} (lt : n < count) :
    rustFile dir n ∈ prefillPaths (rustBase dir count).entitiesByFile ∅ none := by
  obtain ⟨filed, live⟩ := lookup_rustBase lt
  rw [prefillPaths, mem_sortByKey, mem_filter]
  exact ⟨mem_keys_entitiesByFile.2 ⟨n, _, filed, live⟩, rfl⟩

theorem le_length_prefillPaths_rustBase (dir : String) (count : Nat) :
    count ≤ (prefillPaths (rustBase dir count).entitiesByFile ∅ none).length := by
  have once : ((range count).map (rustFile dir)).Nodup := by
    refine nodup_range.map fun n n' same => ?_
    have chars := congrArg (fun path => path.toList.length) same
    simpa [rustFile] using chars
  have listed : (range count).map (rustFile dir) ⊆
      prefillPaths (rustBase dir count).entitiesByFile ∅ none := by
    intro path mem
    obtain ⟨n, inRange, rfl⟩ := mem_map.1 mem
    exact mem_prefillPaths_rustBase (mem_range.1 inRange)
  simpa using (once.subperm listed).length_le

/-- The tables of a batch without changed files. -/
def emptyStart : PrefillState Unit where
  index := .new
  names := builtNames (newPackage defaultPackage .rust) [] []

theorem changedFilesTable_emptyStart (dir : String) (count : Nat) :
    ChangedFilesTable emptyStart.names (prefillPaths (rustBase dir count).entitiesByFile ∅ none) :=
  changedFilesTable_builtNames rfl
    (fun path seen => absurd ((congrArg Option.isSome (Finmap.lookup_empty path)).symm.trans seen)
      Bool.false_ne_true) _ _ _ _

end ManyModules

/-- Prepopulation equals the serial path exactly when there are few files or no file opens a second
package. -/
theorem prepopulateIndexSymbols_eq_serial_iff (policy : SymbolPolicy) (existing : V)
    (entitiesByFile : HashMap String (List Entity)) (skipFiles : HashSet String)
    (scopeFiles : Option (HashSet String)) (start : PrefillState Shape)
    (table : ChangedFilesTable start.names (prefillPaths entitiesByFile skipFiles scopeFiles)) :
    (∀ order serialOrder, PrefillState.SameUpToFreshIds start.names.entityIdCache
      (prepopulateIndexSymbols policy existing order entitiesByFile skipFiles scopeFiles start)
      (prefillSerially policy existing serialOrder entitiesByFile
        (prefillPaths entitiesByFile skipFiles scopeFiles) start)) ↔
    ((prefillPaths entitiesByFile skipFiles scopeFiles).length ≤ parallelThreshold ∨
      ∀ path ∈ prefillPaths entitiesByFile skipFiles scopeFiles,
        packageOf path (policy.detectLanguage path) = defaultPackage) := by
  have once := nodup_prefillPaths entitiesByFile skipFiles scopeFiles
  constructor
  · intro same
    refine (Nat.lt_or_ge parallelThreshold _).symm.imp id fun many path mem => ?_
    by_contra second
    exact not_sameUpToFreshIds_of_second policy existing table many mem second HashOrder.sorted
      HashOrder.sorted (same HashOrder.sorted HashOrder.sorted)
  · intro agrees order serialOrder
    rcases Nat.lt_or_ge parallelThreshold (prefillPaths entitiesByFile skipFiles scopeFiles).length
      with many | few
    · rw [prepopulateIndexSymbols_of_lt many, prefillByPackage_eq_serially table.keyed
        (ne_nil_of_length_pos (Nat.zero_lt_of_lt many))
        (agrees.resolve_left (Nat.not_le.2 many))]
      exact prefillSerially_sameUpToFreshIds policy existing entitiesByFile once start table _ _
    · rw [prepopulateIndexSymbols_of_le few]
      exact prefillSerially_sameUpToFreshIds policy existing entitiesByFile once start table _ _

/-- With 65 Rust files, `m.rs` opens the package `m`. -/
theorem rustBase_not_sameUpToFreshIds :
    ¬ PrefillState.SameUpToFreshIds emptyStart.names.entityIdCache
      (prepopulateIndexSymbols rustPolicy (rustBase "" 65) HashOrder.sorted
        (rustBase "" 65).entitiesByFile ∅ none emptyStart)
      (prefillSerially rustPolicy (rustBase "" 65) HashOrder.sorted
        (rustBase "" 65).entitiesByFile
        (prefillPaths (rustBase "" 65).entitiesByFile ∅ none) emptyStart) :=
  not_sameUpToFreshIds_of_second rustPolicy (rustBase "" 65) (changedFilesTable_emptyStart "" _)
    (le_length_prefillPaths_rustBase "" 65) (mem_prefillPaths_rustBase (Nat.zero_lt_succ 64))
    (by decide) _ _

/-- Files outside the project root are all in the default package, however many there are. -/
theorem rustBase_foreign_sameUpToFreshIds :
    parallelThreshold < (prefillPaths (rustBase "/deps/" 65).entitiesByFile ∅ none).length ∧
      PrefillState.SameUpToFreshIds emptyStart.names.entityIdCache
        (prepopulateIndexSymbols rustPolicy (rustBase "/deps/" 65) HashOrder.sorted
          (rustBase "/deps/" 65).entitiesByFile ∅ none emptyStart)
        (prefillSerially rustPolicy (rustBase "/deps/" 65) HashOrder.sorted
          (rustBase "/deps/" 65).entitiesByFile
          (prefillPaths (rustBase "/deps/" 65).entitiesByFile ∅ none) emptyStart) := by
  refine ⟨le_length_prefillPaths_rustBase "/deps/" 65,
    (prepopulateIndexSymbols_eq_serial_iff rustPolicy (rustBase "/deps/" 65)
      (rustBase "/deps/" 65).entitiesByFile ∅ none emptyStart
      (changedFilesTable_emptyStart "/deps/" _)).2 (Or.inr fun path mem => ?_)
      HashOrder.sorted HashOrder.sorted⟩
  obtain ⟨n, rfl⟩ := rustFile_of_mem_prefillPaths mem
  have outside : relativeToRoot (rustFile "/deps/" n) = none := by
    simp [relativeToRoot, rustFile, stripCurrentDir]
  simp [packageOf, modulePathOfFile, determineModulePath, outside]

end Prepopulation

end ContextEngine

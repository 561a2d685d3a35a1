/- digest: The module path of a file, the packages of a project and the indexes of its names. -/

import Mathlib.Data.Finset.Sort
import Mathlib.Data.String.Basic
import ContextEngine.Chunking.NameSearch
import ContextEngine.Lib.KeyedNumbers
import ContextEngine.SymbolTable.TypeIndex

set_option autoImplicit false

namespace ContextEngine

section Trimming

/-- At most so many copies of a text dropped from the front. -/
def dropCopies (pattern : List Char) : Nat → List Char → List Char
  | 0, text => text
  | copies + 1, text =>
    if pattern.isPrefixOf text then dropCopies pattern copies (text.drop pattern.length) else text

def trimStartMatches (pattern : String) (text : List Char) : List Char :=
  dropCopies pattern.toList text.length text

def trimEndMatches (pattern : String) (text : List Char) : List Char :=
  (dropCopies pattern.toList.reverse text.length text.reverse).reverse

/-- `replace(['/', '\\'], with)`. -/
def replaceSeparators (separator : String) (text : List Char) : List Char :=
  text.flatMap fun c => if c = '/' ∨ c = '\\' then separator.toList else [c]

/-- The stem in front of the last dot, unless it is empty. -/
def stripFileExtension (path : List Char) : List Char :=
  let stem := (path.reverse.dropWhile fun c => c ≠ '.').tail.reverse
  if stem = [] then path else stem

end Trimming

section ModulePath

/-- A path without the empty and `.` components at its ends, as a component iterator spells it. -/
def trimComponents (path : List Char) : List Char :=
  let skipped (component : List Char) : Bool := component = [] ∨ component = ['.']
  ['/'].intercalate
    ((((path.splitOn '/').dropWhile skipped).reverse.dropWhile skipped).reverse)

/-- `Path::strip_prefix(".")`: only a path that is spelled with a leading `.` has that prefix. -/
def stripCurrentDir : List Char → Option (List Char)
  | ['.'] => some []
  | '.' :: '/' :: rest => some (trimComponents rest)
  | _ => none

variable (filePath : String)

def relativeToRoot : Option (List Char) :=
  match stripCurrentDir filePath.toList with
  | some rest => some (rest.map fun c => if c = '\\' then '/' else c)
  | none =>
    let normalized := (normalizeProjectPath filePath).toList
    if filePath.toList.head? ≠ some '/' ∧ ¬ ['.', '.', '/'].isPrefixOf normalized then
      some normalized
    else none

variable (language : Language)

def moduleText (relative : List Char) : List Char :=
  match language with
  | .python =>
    replaceSeparators "." (trimEndMatches ".py"
      (trimEndMatches "\\__init__.py" (trimEndMatches "/__init__.py" relative)))
  | .java => replaceSeparators "." (trimEndMatches ".java" relative)
  | .rust =>
    replaceSeparators "::" (trimEndMatches ".rs"
      (trimStartMatches "src\\" (trimStartMatches "src/" relative)))
  | .go => trimEndMatches "/" (trimEndMatches ".go" relative)
  | .kotlin | .scala | .cSharp => replaceSeparators "." (stripFileExtension relative)
  -- a header and its implementation share a stem, so the extension is kept
  | .c | .cpp => relative
  | _ => replaceSeparators "/" (stripFileExtension relative)

def determineModulePath : Option String :=
  (relativeToRoot filePath).map fun relative => String.ofList (moduleText language relative)

example : determineModulePath "src/utils/helper.rs" .rust = some "utils::helper" := by decide

example : determineModulePath "pkg/utils/__init__.py" .python = some "pkg.utils" := by decide

/-- The module path the symbol tables file a source file under. -/
def modulePathOfFile : String :=
  (determineModulePath filePath language).getD ""

end ModulePath

/-- A module path cut into namespace segments and the name of the module. -/
structure NamespacePath where
  segments : List String
  moduleName : String
  deriving DecidableEq

namespace NamespacePath

def parse (path : String) : NamespacePath :=
  let parts := (splitPaths path.toList).map String.ofList
  if parts.length ≤ 1 then ⟨[], path⟩ else ⟨parts.dropLast, parts.getLastD ""⟩

variable (path : NamespacePath)

def qualified : String :=
  "::".intercalate (path.segments ++ [path.moduleName])

def namespacePrefix : Option String :=
  if path.segments.isEmpty then none else some ("::".intercalate path.segments)

/-- The prefix, and the proper prefixes of it that a hierarchical lookup asks for. -/
def namespaceLevels : List String :=
  match path.namespacePrefix with
  | none => []
  | some whole =>
    let parts := (splitPaths whole.toList).map String.ofList
    whole :: (List.range parts.length).tail.map fun i => "::".intercalate (parts.take i)

end NamespacePath

def firstSegment (path : String) : String :=
  String.ofList ((splitPaths path.toList).headD [])

/-- The orders in which one run walks over its hash tables: the names of a delta of a file, the
modules of a package in search of a surviving export, and the packages of a batch. -/
structure HashOrder where
  deltaNames : String → Finset String → List String
  moduleFiles : Finset String → List String
  packageNames : Finset String → List String
  nodup_deltaNames : ∀ file names, (deltaNames file names).Nodup
  mem_deltaNames : ∀ file names name, name ∈ deltaNames file names ↔ name ∈ names
  mem_moduleFiles : ∀ files file, file ∈ moduleFiles files ↔ file ∈ files
  nodup_packageNames : ∀ packages, (packageNames packages).Nodup
  mem_packageNames : ∀ packages package, package ∈ packageNames packages ↔ package ∈ packages

def HashOrder.sorted : HashOrder where
  deltaNames _ names := names.sort
  moduleFiles files := files.sort
  packageNames packages := packages.sort
  nodup_deltaNames _ names := names.sort_nodup (· ≤ ·)
  mem_deltaNames _ names _ := Finset.mem_sort (s := names) (· ≤ ·)
  mem_moduleFiles files _ := Finset.mem_sort (s := files) (· ≤ ·)
  nodup_packageNames packages := packages.sort_nodup (· ≤ ·)
  mem_packageNames packages _ := Finset.mem_sort (s := packages) (· ≤ ·)

section Module

structure SymbolLocation where
  filePath : String
  span : Span
  language : Language
  deriving DecidableEq

structure SymbolMetadata where
  name : String
  kind : EntityKind
  location : SymbolLocation
  visibility : Visibility := .privateOnly
  deriving DecidableEq

/-- Exports by visibility; a restricted one is listed with its path. -/
structure ModuleExportMap where
  publicAll : FiniteMap String SymbolMetadata := ∅
  package : FiniteMap String SymbolMetadata := ∅
  moduleOnly : FiniteMap String SymbolMetadata := ∅
  restricted : List (String × SymbolMetadata) := []

structure ModuleSymbolTable where
  namespacePath : NamespacePath
  modulePath : String
  filePath : String
  language : Language
  package : String
  exports : ModuleExportMap := {}

namespace ModuleSymbolTable

def new (modulePath filePath : String) (language : Language) (package : String) :
    ModuleSymbolTable :=
  let namespacePath := NamespacePath.parse modulePath
  { namespacePath, modulePath := namespacePath.qualified, filePath, language, package }

variable (table : ModuleSymbolTable) (name : String)

/-- Visibilities that do not reach outside of their scope are not exported. -/
def addExport (metadata : SymbolMetadata)
    (visibility : Visibility) : ModuleSymbolTable :=
  let metadata := { metadata with visibility }
  let exports := table.exports
  { table with
    exports :=
      match visibility with
      | .publicAll => { exports with publicAll := exports.publicAll.insert name metadata }
      | .package | .protectedOnly | .internalOnly | .protectedInternal =>
        { exports with package := exports.package.insert name metadata }
      | .moduleOnly => { exports with moduleOnly := exports.moduleOnly.insert name metadata }
      | .restricted path => { exports with restricted := exports.restricted ++ [(path, metadata)] }
      | _ => exports }

def getExport : Option SymbolMetadata :=
  ((table.exports.publicAll.lookup name).or (table.exports.package.lookup name)).or
    ((table.exports.moduleOnly.lookup name).or
      ((table.exports.restricted.find? fun entry => entry.2.name = name).map Prod.snd))

def hasExport : Bool := (table.getExport name).isSome

def publicExports : FiniteMap String SymbolMetadata :=
  table.exports.publicAll

end ModuleSymbolTable

end Module

section Package

/-- The package-level exports. A namespace is paired with each of its files, and none is kept without
one. -/
structure PackageSymbolTable where
  packageId : String
  packageName : String
  packagePath : String
  language : Language
  publicExports : FiniteMap String SymbolMetadata := ∅
  modules : FiniteMap String ModuleSymbolTable := ∅
  modulePathIndex : FiniteMap String String := ∅
  moduleExportContrib : FiniteMap String (Finset String) := ∅
  namespaceModules : Finset (String × String) := ∅

/-- The export names a module no longer has, those it has, and whether its path is taken. -/
structure PackageDelta where
  removed : List String
  added : List String
  pathCollision : Bool

def isPackageInitFile (filePath : String) : Bool :=
  let name := (filePath.toList.splitOn '/').getLastD []
  decide (name = "__init__.py".toList ∨ name = "__init__.pyi".toList)

namespace PackageSymbolTable

variable (package : PackageSymbolTable)

def getPublicExport (name : String) : Option SymbolMetadata := package.publicExports.lookup name

def getModule (filePath : String) : Option ModuleSymbolTable := package.modules.lookup filePath

/-- The module paths with a module filed, and whether its path was taken: a package init file wins,
otherwise the first file does. -/
def indexModulePath (table : ModuleSymbolTable) : FiniteMap String String × Bool :=
  match package.modulePathIndex.lookup table.modulePath with
  | some existing =>
    if existing = table.filePath then (package.modulePathIndex, false)
    else if isPackageInitFile table.filePath then
      (package.modulePathIndex.insert table.modulePath table.filePath, true)
    else (package.modulePathIndex, true)
  | none => (package.modulePathIndex.insert table.modulePath table.filePath, false)

/-- The namespaces with the contributions of a file replaced. -/
def indexNamespaces (table : ModuleSymbolTable) : Finset (String × String) :=
  (package.namespaceModules.filter fun entry => entry.2 ≠ table.filePath) ∪
    (table.namespacePath.namespaceLevels.map fun level => (level, table.filePath)).toFinset

def stillExported (filePath name : String) : Prop :=
  ∃ file ∈ package.moduleExportContrib.keys, file ≠ filePath ∧
    name ∈ (package.moduleExportContrib.lookup file).getD ∅

instance (filePath name : String) : Decidable (package.stillExported filePath name) :=
  inferInstanceAs (Decidable (∃ file ∈ package.moduleExportContrib.keys, file ≠ filePath ∧
    name ∈ (package.moduleExportContrib.lookup file).getD ∅))

/-- A removed export gives way to the first other module found that has the name. -/
def dropExport (order : HashOrder) (modules : FiniteMap String ModuleSymbolTable)
    (filePath : String) (exports : FiniteMap String SymbolMetadata) (name : String) :
    FiniteMap String SymbolMetadata :=
  if package.stillExported filePath name then
    let survivors := (order.moduleFiles modules.keys).filterMap fun file =>
      if file = filePath then none
      else (modules.lookup file).bind fun table => table.publicExports.lookup name
    match survivors.head? with
    | some metadata => exports.insert name metadata
    | none => exports
  else exports.erase name

/-- `add_module_incremental`: only the exports of this module are patched. -/
def addModuleIncremental (order : HashOrder) (table : ModuleSymbolTable) :
    PackageSymbolTable × PackageDelta :=
  let filePath := table.filePath
  let newSet := table.publicExports.keys
  let oldSet := (package.moduleExportContrib.lookup filePath).getD ∅
  let removed := order.deltaNames filePath (oldSet \ newSet)
  let modules := package.modules.insert filePath table
  let indexed := package.indexModulePath table
  let patched := removed.foldl (package.dropExport order modules filePath) package.publicExports
  ({ package with
      modules
      modulePathIndex := indexed.1
      namespaceModules := package.indexNamespaces table
      publicExports := table.publicExports ∪ patched
      moduleExportContrib := package.moduleExportContrib.insert filePath newSet },
    { removed, added := order.deltaNames filePath newSet, pathCollision := indexed.2 })

end PackageSymbolTable

end Package

/-- The id of a parsed entity, or one made up for an export: bit 63 marks the latter, over a counter
that stays below that bit. -/
inductive SymbolId where
  | real (id : EntityId)
  | synthetic (counter : Nat)
  deriving DecidableEq

inductive SimpleNameEntry where
  | fileSymbol (filePath modulePath : String) (entityId : SymbolId)
  | packageExport (packageId : String) (entityId : SymbolId)
  deriving DecidableEq

namespace SimpleNameEntry

/-- Candidates of a name are ordered by this. No call is ever counted, so the frequency in front is
the one of no calls. -/
def sortKey : SimpleNameEntry → String
  | fileSymbol filePath modulePath _ => s!"{usizeMax}::{filePath}::{modulePath}"
  | packageExport packageId _ => s!"{usizeMax}::{packageId}::"

def filePath : SimpleNameEntry → Option String
  | fileSymbol filePath _ _ => some filePath
  | packageExport _ _ => none

def entityId : SimpleNameEntry → SymbolId
  | fileSymbol _ _ entityId => entityId
  | packageExport _ entityId => entityId

def outsidePackage (packageId : String) : SimpleNameEntry → Bool
  | packageExport id _ => id ≠ packageId
  | fileSymbol _ _ _ => true

end SimpleNameEntry

section BinarySearch

/-- The halving of `binary_search_by`: where the search ends for a window of the given size. -/
def searchBase (keys : List String) (key : String) : Nat → Nat → Nat → Nat
  | 0, _, base => base
  | rounds + 1, size, base =>
    if size ≤ 1 then base
    else
      let half := size / 2
      searchBase keys key rounds (size - half)
        (if key < keys.getD (base + half) "" then base else base + half)

def insertPosition (keys : List String) (key : String) : Nat :=
  if keys.isEmpty then 0
  else
    let base := searchBase keys key keys.length keys.length 0
    if keys.getD base "" < key then base + 1 else base

def placeEntry (entries : List SimpleNameEntry) (entry : SimpleNameEntry) :
    List SimpleNameEntry :=
  entries.insertIdx (insertPosition (entries.map SimpleNameEntry.sortKey) entry.sortKey) entry

end BinarySearch

structure ProjectNames where
  packages : FiniteMap String PackageSymbolTable := ∅
  packagesByName : FiniteMap String String := ∅
  globalIndex : FiniteMap String SymbolId := ∅
  simpleNameIndex : FiniteMap String (List SimpleNameEntry) := ∅
  /-- The counter of the synthetic id of every export seen so far. -/
  entityIdCache : FiniteMap String Nat := ∅
  fileSymbolContrib : FiniteMap String (Finset String) := ∅
  fileToPackage : FiniteMap String String := ∅
  namespaceIndex : FiniteMap String SymbolId := ∅

namespace ProjectNames

variable (names : ProjectNames)

section Resolution

def getPackage (packageId : String) : Option PackageSymbolTable := names.packages.lookup packageId

def sortedPackages : List PackageSymbolTable :=
  names.packages.keys.sort.filterMap names.getPackage

def getPackageForFile (filePath : String) : Option PackageSymbolTable :=
  (names.fileToPackage.lookup (normalizeProjectPath filePath)).bind names.getPackage

def modulePathForFile (filePath : String) : String :=
  match (names.getPackageForFile filePath).bind (·.getModule filePath) with
  | some table => table.modulePath
  | none =>
    match names.sortedPackages.findSome? (·.getModule filePath) with
    | some table => table.modulePath
    | none => ""

variable (metadata : SymbolMetadata)

/-- The key the id of an export is cached under. -/
def cacheKey (modulePath : String) : String :=
  metadata.name ++ "\x00" ++ metadata.location.filePath ++ "\x00" ++ modulePath

/-- The key of an export in the current tables. -/
def symbolKey : String :=
  cacheKey metadata (names.modulePathForFile metadata.location.filePath)

/-- The id of an export, which is made up when it is first asked for. -/
def stableSymbolRef : SymbolId × ProjectNames :=
  let allocated := KeyedNumbers.allocate names.entityIdCache (names.symbolKey metadata)
  (.synthetic allocated.1, { names with entityIdCache := allocated.2 })

end Resolution

section PackageDelta

def candidates (name : String) : List SimpleNameEntry := (names.simpleNameIndex.lookup name).getD []

def upsertExport (package : PackageSymbolTable) (name : String) (metadata : SymbolMetadata) :
    ProjectNames :=
  let (symbolId, names) := names.stableSymbolRef metadata
  let others := (names.candidates name).filter (·.outsidePackage package.packageId)
  { names with
    globalIndex := names.globalIndex.insert (package.packageName ++ "::" ++ name) symbolId
    simpleNameIndex := names.simpleNameIndex.insert name
      (placeEntry others (.packageExport package.packageId symbolId)) }

def removeExport (package : PackageSymbolTable) (name : String) : ProjectNames :=
  let others := (names.candidates name).filter (·.outsidePackage package.packageId)
  { names with
    globalIndex := names.globalIndex.erase (package.packageName ++ "::" ++ name)
    simpleNameIndex :=
      if others.isEmpty then names.simpleNameIndex.erase name
      else names.simpleNameIndex.insert name others }

/-- A removed name that another file still exports is an update. -/
def applyRemoved (package : PackageSymbolTable) (names : ProjectNames) (name : String) :
    ProjectNames :=
  match package.getPublicExport name with
  | some metadata => names.upsertExport package name metadata
  | none => names.removeExport package name

def applyAdded (package : PackageSymbolTable) (names : ProjectNames) (name : String) :
    ProjectNames :=
  match package.getPublicExport name with
  | some metadata => names.upsertExport package name metadata
  | none => names

def storePackage (package : PackageSymbolTable) : ProjectNames :=
  { names with
    packagesByName := names.packagesByName.insert package.packageName package.packageId
    packages := names.packages.insert package.packageId package
    -- all modules get the same package, in whichever order they are walked
    fileToPackage := (package.modules.keys.sort).foldl
      (fun owners file => owners.insert (normalizeProjectPath file) package.packageId)
      names.fileToPackage }

def applyPackageDelta (package : PackageSymbolTable) (delta : PackageDelta) : ProjectNames :=
  let removed := delta.removed.foldl (applyRemoved package) names
  (delta.added.foldl (applyAdded package) removed).storePackage package

/-- Add a whole package; its exports are walked in the given order. -/
def addPackage (package : PackageSymbolTable) (exportNames : List String) : ProjectNames :=
  (exportNames.foldl (applyAdded package) names).storePackage package

/-- A package of the project is shared: what is added to it is seen at once. -/
def sharePackage (packageId : String) (package : PackageSymbolTable) : ProjectNames :=
  if (names.getPackage packageId).isSome then
    { names with packages := names.packages.insert packageId package }
  else names

def addModule (order : HashOrder) (packageId : String) (created : PackageSymbolTable)
    (table : ModuleSymbolTable) : ProjectNames :=
  let added := ((names.getPackage packageId).getD created).addModuleIncremental order table
  (names.sharePackage packageId added.1).applyPackageDelta added.1 added.2

end PackageDelta

def insertSymbol (qualifiedName : String) (entityId : EntityId) (filePath modulePath : String) :
    ProjectNames :=
  let filePath := normalizeProjectPath filePath
  let simpleName := String.ofList (lastPathSegment qualifiedName.toList)
  let others := (names.candidates simpleName).filter fun entry => entry.filePath ≠ some filePath
  let packageName := firstSegment modulePath
  let entry := SimpleNameEntry.fileSymbol filePath modulePath (.real entityId)
  { names with
    simpleNameIndex := names.simpleNameIndex.insert simpleName (placeEntry others entry)
    fileSymbolContrib := names.fileSymbolContrib.insert filePath
      (insert simpleName ((names.fileSymbolContrib.lookup filePath).getD ∅))
    namespaceIndex :=
      match (NamespacePath.parse qualifiedName).namespacePrefix with
      | some nsPrefix =>
        if packageName ≠ "" then
          names.namespaceIndex.insert (packageName ++ "::" ++ nsPrefix ++ "::" ++ simpleName)
            (.real entityId)
        else names.namespaceIndex
      | none => names.namespaceIndex
    globalIndex := names.globalIndex.insert (filePath ++ "::" ++ simpleName) (.real entityId) }

end ProjectNames

end ContextEngine

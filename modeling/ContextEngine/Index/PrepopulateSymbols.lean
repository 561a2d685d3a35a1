/- digest: The symbol tables of unchanged files, filled file by file or package by package. -/

import ContextEngine.Index.SnapshotLoader
import ContextEngine.SymbolTable.ProjectNames
import ContextEngine.TypeInference.CrossFilePropagator

set_option autoImplicit false

namespace ContextEngine

/-- The language of a path, under the plugin languages registered at run time, and the visibility a
language gives to an entity. -/
structure SymbolPolicy where
  detectLanguage : String → Language
  detectVisibility : Entity → Language → Visibility

section Exports

/-- The visibility reaches outside of the defining scope. -/
def isExportedVisibility : Visibility → Bool
  | .publicAll | .package | .moduleOnly | .restricted _ | .protectedOnly | .internalOnly
  | .protectedInternal => true
  | _ => false

variable (policy : SymbolPolicy)

def isEntityExported (entity : Entity) (language : Language) : Bool :=
  isExportedVisibility (policy.detectVisibility entity language)

def hasFlag (entity : Entity) (flag : String) : Bool := entity.metadata.lookup flag = some "true"

/-- The top-level entities that are exported. In the JavaScript family, `export` statements decide
if there are any. -/
def extractExportsFromEntities (entities : List Entity) (language : Language) : List ExportInfo :=
  let explicit := language ∈ [.javaScript, .typeScript, .jsx, .tsx] ∧
    entities.any (hasFlag · "is_exported") = true
  entities.filterMap fun entity =>
    if 0 < entity.depth ∨ entity.parent.isSome then none
    else
      let isExport :=
        if explicit then hasFlag entity "is_exported" else isEntityExported policy entity language
      if isExport then
        some ⟨entity.id, entity.name, if hasFlag entity "is_default" then .default else .named⟩
      else none

/-- The default package: the root `.` has no file name. -/
def defaultPackage : String := "default"

variable (filePath : String) (language : Language)

def addEntityExport (table : ModuleSymbolTable)
    (name : String) (entity : Entity) : ModuleSymbolTable :=
  let location : SymbolLocation := ⟨filePath, entity.span, language⟩
  table.addExport name { name := entity.name, kind := entity.kind, location }
    (policy.detectVisibility entity language)

def moduleTableOf (entities : List Entity)
    (exports : List ExportInfo) : ModuleSymbolTable :=
  let table := ModuleSymbolTable.new (modulePathOfFile filePath language) filePath language
    defaultPackage
  let declared := entities.foldl (fun table entity =>
    if isEntityExported policy entity language then
      addEntityExport policy filePath language table entity.name entity
    else table) table
  exports.foldl (fun table exported =>
    if table.hasExport exported.functionName then table
    else
      match entities.find? fun entity => entity.id = exported.functionId with
      | some entity => addEntityExport policy filePath language table exported.functionName entity
      | none => table) declared

/-- What is computed of a file before any shared table is touched. -/
structure PrecomputedEntry where
  filePath : String
  moduleTable : ModuleSymbolTable
  exports : List ExportInfo
  entities : List Entity
  language : Language

def precompute (entitiesByFile : HashMap String (List Entity)) (filePath : String) :
    PrecomputedEntry :=
  let entities := entitiesByFile.bucket filePath
  let language := policy.detectLanguage filePath
  let exports := extractExportsFromEntities policy entities language
  { filePath, moduleTable := moduleTableOf policy filePath language entities exports, exports,
    entities, language }

def packageOf : String :=
  let modulePath := modulePathOfFile filePath language
  if modulePath = "" then defaultPackage else firstSegment modulePath

end Exports

section ReturnTypes

variable {Shape : Type}

def ScopedTypeContext.isEmpty (ctx : ScopedTypeContext Shape) : Bool :=
  ctx.returnTypes.entries.isEmpty && ctx.parameterTypes.entries.isEmpty &&
    ctx.frames.all fun frame => frame.bindings.entries.isEmpty && frame.narrowed.entries.isEmpty

def returnTypeContext (entities : List Entity) : ScopedTypeContext Shape where
  returnTypes := entities.foldl (fun types entity =>
    match entity.returnType with
    | some type => types.insert entity.id { typeName := type, span := entity.span, origin := none }
    | none => types) ∅

end ReturnTypes

/-- The index and the tables of the project symbols that the prepopulation writes. -/
structure PrefillState (Shape : Type) where
  index : RelationIndex
  names : ProjectNames
  propagator : CrossFilePropagator Shape := {}
  typeContexts : HashMap String (ScopedTypeContext Shape) := ∅

/-- Make a base entity known by name, without adding it to the candidate. -/
def RelationIndex.registerExternalEntityName (index : RelationIndex) (name : String)
    (entityId : EntityId) (filePath : String) : RelationIndex :=
  { index with
    nameIndex := index.nameIndex.bucketPushNew name entityId
    entityFileIndex := index.entityFileIndex.insert entityId filePath }

section Files

variable {V Shape : Type} [RelationIndexView V]

def copyFileTables (existing : V) (index : RelationIndex) (filePath : String) : RelationIndex :=
  let normalized := normalizeProjectPath filePath
  let imported :=
    match RelationIndexView.importsOf existing filePath with
    | some importTable => index.addImportTable normalized importTable
    | none => index
  match RelationIndexView.exportsOf existing filePath with
  | some exports => if exports.isEmpty then imported else imported.addExports normalized exports
  | none => imported

def fileSymbols (policy : SymbolPolicy) (entry : PrecomputedEntry) : List (String × EntityId) :=
  ((entry.entities.filter fun entity => isEntityExported policy entity entry.language).map
    fun entity => (entity.name, entity.id)) ++
    entry.exports.map fun exported => (exported.functionName, exported.functionId)

def insertFileSymbol (filePath : String) (names : ProjectNames) (symbol : String × EntityId) :
    ProjectNames :=
  names.insertSymbol (filePath ++ "::" ++ symbol.1) symbol.2 filePath filePath

def insertFileSymbols (policy : SymbolPolicy) (entry : PrecomputedEntry) (names : ProjectNames) :
    ProjectNames :=
  (fileSymbols policy entry).foldl (insertFileSymbol entry.filePath) names

/-- Everything that the turn of a file writes. -/
def applyFile (policy : SymbolPolicy) (existing : V) (order : HashOrder) (packageId : String)
    (created : PackageSymbolTable) (state : PrefillState Shape) (entry : PrecomputedEntry) :
    PrefillState Shape :=
  let ctx : ScopedTypeContext Shape := returnTypeContext entry.entities
  { index := entry.entities.foldl
      (fun index entity => index.registerExternalEntityName entity.name entity.id entry.filePath)
      (copyFileTables existing state.index entry.filePath)
    names := insertFileSymbols policy entry
      (state.names.addModule order packageId created entry.moduleTable)
    propagator :=
      if ctx.isEmpty then state.propagator
      else state.propagator.insertFile entry.filePath ⟨ctx, entry.entities⟩
    typeContexts :=
      if ctx.isEmpty then state.typeContexts
      else state.typeContexts.insert (normalizeProjectPath entry.filePath) ctx }

def newPackage (name : String) (language : Language) : PackageSymbolTable where
  packageId := name
  packageName := name
  packagePath := "."
  language := language

def prefillPaths (entitiesByFile : HashMap String (List Entity)) (skipFiles : HashSet String)
    (scopeFiles : Option (HashSet String)) : List String :=
  sortByKey id (entitiesByFile.keys.filter fun path =>
    decide (path ∉ skipFiles) && scopeFiles.all fun scope => decide (path ∈ scope))

def prefillSerially (policy : SymbolPolicy) (existing : V) (order : HashOrder)
    (entitiesByFile : HashMap String (List Entity)) (filePaths : List String)
    (state : PrefillState Shape) : PrefillState Shape :=
  filePaths.foldl (fun state filePath =>
    applyFile policy existing order defaultPackage
      (newPackage defaultPackage (policy.detectLanguage filePath)) state
      (precompute policy entitiesByFile filePath)) state

def groupByPackage (entries : List PrecomputedEntry) : HashMap String (List PrecomputedEntry) :=
  entries.foldl (fun byPackage entry =>
    byPackage.bucketPush (packageOf entry.filePath entry.language) entry) ∅

def applyPackage (policy : SymbolPolicy) (existing : V) (order : HashOrder)
    (byPackage : HashMap String (List PrecomputedEntry)) (state : PrefillState Shape)
    (packageName : String) : PrefillState Shape :=
  let entries := byPackage.bucket packageName
  let language := ((entries.head?.map (·.filePath)).map policy.detectLanguage).getD .unknown
  entries.foldl (applyFile policy existing order packageName
    (newPackage packageName language)) state

/-- The parallel path: the entries are computed ahead, in the order of the paths. -/
def prefillByPackage (policy : SymbolPolicy) (existing : V) (order : HashOrder)
    (entitiesByFile : HashMap String (List Entity)) (filePaths : List String)
    (state : PrefillState Shape) : PrefillState Shape :=
  let byPackage := groupByPackage (filePaths.map (precompute policy entitiesByFile))
  (order.packageNames byPackage.keys.toFinset).foldl
    (applyPackage policy existing order byPackage) state

/-- More files than this are taken package by package. -/
def parallelThreshold : Nat := 64

def prepopulateIndexSymbols (policy : SymbolPolicy) (existing : V) (order : HashOrder)
    (entitiesByFile : HashMap String (List Entity)) (skipFiles : HashSet String)
    (scopeFiles : Option (HashSet String)) (state : PrefillState Shape) : PrefillState Shape :=
  let filePaths := prefillPaths entitiesByFile skipFiles scopeFiles
  if parallelThreshold < filePaths.length then
    prefillByPackage policy existing order entitiesByFile filePaths state
  else prefillSerially policy existing order entitiesByFile filePaths state

end Files

end ContextEngine

/- digest: Source-level records: positions, entity kinds, entities, imports, exports, files. -/

import ContextEngine.Lib.Collections

set_option autoImplicit false

namespace ContextEngine

/-- Process-local entity number. -/
abbrev EntityId := Nat

/-- `usize::MAX` and `u64::MAX` on the 64-bit targets the engine is built for. -/
def usizeMax : Nat := 2 ^ 64 - 1

structure Position where
  row : Nat
  column : Nat
  deriving DecidableEq

structure Span where
  startByte : Nat
  endByte : Nat
  startPosition : Position
  endPosition : Position
  deriving DecidableEq

namespace Span

/-- The span of a record whose source location is unknown. -/
def unavailable : Span := ⟨0, 0, ⟨usizeMax, usizeMax⟩, ⟨usizeMax, usizeMax⟩⟩

instance : Inhabited Span := ⟨unavailable⟩

end Span

inductive EntityKind where
  | unknown
  | classKind | structKind | enumKind | interface | trait | traitImpl | inherentImpl | typeAlias
  | union | enumVariant
  | annotationKind | macroKind
  | function | method | constructor | accessor | destructor | operator
  | field | property | variableKind | constant
  | moduleKind | namespaceKind | package | importKind | require | includeKind | exportKind
  | styleRule | styleSelector | styleProperty | keyframe
  | element | attributeKind | expression
  | component | template | directive | controlFlow | animation | binding | action | atRule
  | eventHandler | scriptContent | styleContent | embeddedBlock
  | testSuite | testCase | testHook | assertion | mock
  deriving DecidableEq, Inhabited

namespace EntityKind

/-- The `Display` rendering, which is also what a stable symbol identifier hashes. -/
def display : EntityKind → String
  | unknown => "unknown"
  | classKind => "class"
  | structKind => "struct"
  | enumKind => "enum"
  | interface => "interface"
  | trait => "trait"
  | traitImpl => "trait_impl"
  | inherentImpl => "inherent_impl"
  | typeAlias => "type_alias"
  | union => "union"
  | enumVariant => "enum_variant"
  | annotationKind => "annotation"
  | macroKind => "macro"
  | function => "function"
  | method => "method"
  | constructor => "constructor"
  | accessor => "accessor"
  | destructor => "destructor"
  | operator => "operator"
  | field => "field"
  | property => "property"
  | variableKind => "variable"
  | constant => "constant"
  | moduleKind => "module"
  | namespaceKind => "namespace"
  | package => "package"
  | importKind => "import"
  | require => "require"
  | includeKind => "include"
  | exportKind => "export"
  | styleRule => "style_rule"
  | styleSelector => "style_selector"
  | styleProperty => "style_property"
  | keyframe => "keyframe"
  | element => "element"
  | attributeKind => "attribute"
  | expression => "expression"
  | component => "component"
  | template => "template"
  | directive => "directive"
  | controlFlow => "control_flow"
  | animation => "animation"
  | binding => "binding"
  | action => "action"
  | atRule => "at_rule"
  | eventHandler => "event_handler"
  | scriptContent => "script_content"
  | styleContent => "style_content"
  | embeddedBlock => "embedded_block"
  | testSuite => "test_suite"
  | testCase => "test_case"
  | testHook => "test_hook"
  | assertion => "assertion"
  | mock => "mock"

def isVariableLike : EntityKind → Bool
  | field | property | variableKind | constant | enumVariant => true
  | _ => false

def isAnnotationLike : EntityKind → Bool
  | annotationKind => true
  | _ => false

/-- Kinds whose stable symbol key carries the start position. -/
def isPositionScoped (kind : EntityKind) : Bool := kind.isVariableLike || kind.isAnnotationLike

end EntityKind

inductive StdlibCategory where
  | collection | io | concurrency | utility | string | numeric | error | macroUse
  | trait | other
  deriving DecidableEq

/-- A parsed entity with its place in the containment tree. -/
structure Entity where
  id : EntityId
  kind : EntityKind
  name : String
  signature : String := ""
  parameters : List (String × Option String) := []
  returnType : Option String := none
  span : Span
  depth : Nat := 0
  parent : Option EntityId := none
  children : List EntityId := []
  docComment : Option String := none
  modifiers : List String := []
  attributes : HashMap String String := ∅
  metadata : HashMap String String := ∅
  isStdlib : Bool := false
  stdlibCategory : Option StdlibCategory := none
  subtype : Option String := none
  deriving DecidableEq

/-- `Entity::new`: every unlisted field takes its default. -/
def Entity.new (id : EntityId) (kind : EntityKind) (name : String) (span : Span) : Entity :=
  { id, kind, name, span }

namespace MetaKeys

def cfgPredicate : String := "cfg_predicate"

def duplicateSiblingOrdinal : String := "duplicate_sibling_ordinal"

end MetaKeys

inductive ImportKind where
  | symbolImport | moduleImport | sideEffectImport | dynamicImport | includeImport | defaultImport
  | namespaceImport | commonJsRequire
  deriving DecidableEq

inductive TargetKind where
  | function | classTarget | interface | typeTarget | variableTarget | moduleTarget | other
  deriving DecidableEq

structure ImportTarget where
  localName : String
  originalName : Option String
  kind : TargetKind
  deriving DecidableEq

structure StandardizedImport where
  kind : ImportKind
  source : String
  target : ImportTarget
  aliasName : Option String
  isWildcard : Bool
  isDefault : Bool
  isSystemHeader : Bool
  isRelative : Bool
  span : Option Span
  deriving DecidableEq

structure ImportTable where
  fileId : String
  standardizedImports : List StandardizedImport
  deriving DecidableEq

inductive ExportType where
  | named | default | wildcard
  deriving DecidableEq

structure ExportInfo where
  functionId : EntityId
  functionName : String
  exportType : ExportType
  deriving DecidableEq

inductive ParseStatus where
  | pending | parsing | success | failed | skipped
  deriving DecidableEq, Inhabited

structure FileInfo where
  id : String := ""
  path : String := ""
  language : String := ""
  fileHash : String := ""
  fileSize : Nat := 0
  modifiedTime : Nat := 0
  parseStatus : ParseStatus := .pending
  parseErrors : List String := []
  parseVersion : Nat := 0
  entityCount : Nat := 0
  relationCount : Nat := 0
  exportCount : Nat := 0
  importCount : Nat := 0
  dependsOn : List String := []
  deriving DecidableEq

end ContextEngine

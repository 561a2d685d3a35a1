/- digest: The filter of a vector search, its meaning on stored payloads, and its translations. -/

import ContextEngine.Chunking.ChunkedResult
import ContextEngine.Lib.Wildcard

set_option autoImplicit false

namespace ContextEngine

open Wildcard (Piece matchesWord)

inductive PointKind where
  | chunk | summary
  deriving DecidableEq

def PointKind.asU8 : PointKind → Nat
  | .chunk => 0
  | .summary => 1

def FileCategory.asU8 : FileCategory → Nat
  | .code => 0
  | .config => 1
  | .documentation => 2
  | .schema => 3
  | .other => 4

/-- What is stored beside a vector. -/
structure Payload where
  sourceId : String
  filePath : String
  groupId : Option String
  type : Option PointKind
  category : Option FileCategory
  test : Option Bool
  generated : Option Bool
  dependency : Option Bool
  epoch : Option Int

/-- The filter of a search, less the raw Qdrant condition. -/
structure SearchFilter where
  epochs : List Int := []
  excludedFiles : Option (List String) := none
  groupId : Option String := none
  pointType : Option PointKind := none
  filePath : Option String := none
  directoryPrefix : Option String := none
  excludeTest : Bool := false
  excludeGenerated : Bool := false
  excludeDependency : Bool := false
  includeCategories : Option (List FileCategory) := none
  excludeCategories : Option (List FileCategory) := none

/-- `i64::MIN`. -/
def i64Min : Int := -2 ^ 63

/-- A directory prefix, normalized and without its trailing slashes. -/
def trimmedPrefix (directory : String) : List Char :=
  (normalizeProjectPath directory).toList.rdropWhile (· = '/')

def underDirectory (trimmed path : List Char) : Bool :=
  trimmed.isEmpty || path = trimmed || (trimmed ++ ['/']).isPrefixOf path

/-- Whether a generation list shows the rows of an epoch for a file. -/
def epochVisible (filter : SearchFilter) (epoch : Int) (filePath : String) : Bool :=
  filter.epochs.contains epoch &&
    !(filter.excludedFiles.any fun excluded =>
      decide (1 < filter.epochs.length) && decide (filter.epochs.head? = some epoch) &&
        excluded.contains filePath)

def payloadMatchesFilter (payload : Payload) (filter : SearchFilter) : Bool :=
  filter.groupId.all (fun groupId => payload.groupId = some groupId) &&
  filter.filePath.all (fun path => payload.filePath = normalizeProjectPath path) &&
  (filter.epochs.isEmpty || epochVisible filter (payload.epoch.getD i64Min) payload.filePath) &&
  filter.pointType.all (fun pointType => payload.type = some pointType) &&
  filter.directoryPrefix.all (fun directory =>
    underDirectory (trimmedPrefix directory) payload.filePath.toList) &&
  filter.includeCategories.all (fun categories =>
    categories.isEmpty || payload.category.any categories.contains) &&
  filter.excludeCategories.all (fun categories => !payload.category.any categories.contains) &&
  !(filter.excludeTest && payload.test = some true) &&
  !(filter.excludeGenerated && payload.generated = some true) &&
  !(filter.excludeDependency && payload.dependency = some true)

section JsonPayload

/-- A scalar of a payload's JSON object. -/
inductive JsonScalar where
  | text (content : String)
  | number (value : Int)
  | flag (value : Bool)
  deriving DecidableEq

/-- The payload as a JSON object, restricted to the keys the filters name. -/
def payloadToMap (payload : Payload) (key : String) : Option JsonScalar :=
  if key = "file_path" then some (.text payload.filePath)
  else if key = "group_id" then payload.groupId.map .text
  else if key = "type" then payload.type.map fun kind => .number kind.asU8
  else if key = "category" then payload.category.map fun category => .number category.asU8
  else if key = "test" then payload.test.map .flag
  else if key = "generated" then payload.generated.map .flag
  else if key = "dependency" then payload.dependency.map .flag
  else if key = "epoch" then payload.epoch.map .number
  else none

end JsonPayload

section Qdrant

inductive FieldCondition where
  | matchValue (key : String) (value : JsonScalar)
  | wildcard (key : String) (pattern : List Char)
  deriving DecidableEq

/-- A nested condition; `should` asks for one of its members. -/
structure NestedCondition where
  must : List FieldCondition := []
  should : List FieldCondition
  deriving DecidableEq

inductive QdrantCondition where
  | field (condition : FieldCondition)
  | nested (condition : NestedCondition)
  deriving DecidableEq

structure QdrantFilter where
  must : List QdrantCondition
  mustNot : List QdrantCondition
  deriving DecidableEq

/-- A pattern in which `*` stands for any string. -/
def wildcardPieces (pattern : List Char) : List (Piece Char) :=
  pattern.map fun c => if c = '*' then .star else .letter c

variable (object : String → Option JsonScalar)

def FieldCondition.holds : FieldCondition → Bool
  | .matchValue key value => object key = some value
  | .wildcard key pattern =>
    match object key with
    | some (.text content) => matchesWord (wildcardPieces pattern) content.toList
    | _ => false

def NestedCondition.holds
    (condition : NestedCondition) : Bool :=
  condition.must.all (·.holds object) && condition.should.any (·.holds object)

def QdrantCondition.holds : QdrantCondition → Bool
  | .field condition => condition.holds object
  | .nested condition => condition.holds object

def QdrantFilter.holds (filter : QdrantFilter) : Bool :=
  filter.must.all (·.holds object) && !filter.mustNot.any (·.holds object)

/-- A search without a filter sees every point. -/
def qdrantShows (filter : Option QdrantFilter) (object : String → Option JsonScalar) : Bool :=
  filter.all (·.holds object)

def buildEpochCondition (epochs : List Int) : QdrantCondition :=
  match epochs with
  | [epoch] => .field (.matchValue "epoch" (.number epoch))
  | epochs => .nested { should := epochs.map fun epoch => .matchValue "epoch" (.number epoch) }

def buildParentExclusionCondition (parentEpoch : Int) (excludedFiles : List String) :
    QdrantCondition :=
  .nested
    { must := [.matchValue "epoch" (.number parentEpoch)]
      should := excludedFiles.map fun path => .matchValue "file_path" (.text path) }

def directoryPattern (trimmed : List Char) : List Char :=
  if trimmed.isEmpty then ['*'] else trimmed ++ ['/', '*']

variable (filter : SearchFilter)

def mustConditions : List QdrantCondition :=
  (if filter.epochs.isEmpty then [] else [buildEpochCondition filter.epochs]) ++
  (filter.groupId.map fun groupId => .field (.matchValue "group_id" (.text groupId))).toList ++
  (filter.pointType.map fun pointType =>
    .field (.matchValue "type" (.number pointType.asU8))).toList ++
  (filter.filePath.map fun path =>
    .field (.matchValue "file_path" (.text (normalizeProjectPath path)))).toList ++
  (filter.directoryPrefix.map fun directory =>
    .field (.wildcard "file_path" (directoryPattern (trimmedPrefix directory)))).toList ++
  ((filter.includeCategories.filter fun categories => !categories.isEmpty).map fun categories =>
    .nested { should := categories.map fun category =>
      .matchValue "category" (.number category.asU8) }).toList

def parentExclusions : List QdrantCondition :=
  match filter.excludedFiles.filter fun files => !files.isEmpty with
  | none => []
  | some excluded =>
    match filter.epochs with
    | parent :: _ :: _ => [buildParentExclusionCondition parent excluded]
    | _ => []

def mustNotConditions : List QdrantCondition :=
  parentExclusions filter ++
  (filter.excludeCategories.getD []).map (fun category =>
    .field (.matchValue "category" (.number category.asU8))) ++
  (if filter.excludeTest then [.field (.matchValue "test" (.flag true))] else []) ++
  (if filter.excludeGenerated then [.field (.matchValue "generated" (.flag true))] else []) ++
  (if filter.excludeDependency then [.field (.matchValue "dependency" (.flag true))] else [])

def buildFilter : Option QdrantFilter :=
  if (mustConditions filter).isEmpty && (mustNotConditions filter).isEmpty then none
  else some { must := mustConditions filter, mustNot := mustNotConditions filter }

end Qdrant

section Simvec

/-- `FilterCondition::match_value` with a text. -/
structure SimvecCondition where
  key : String
  value : String
  deriving DecidableEq

structure SimvecFilter where
  must : List SimvecCondition := []
  should : List SimvecCondition := []
  mustNot : List SimvecCondition := []
  deriving DecidableEq

/-- Whether any condition was added. -/
def SimvecFilter.has (filter : SimvecFilter) : Bool :=
  !(filter.must.isEmpty && filter.should.isEmpty && filter.mustNot.isEmpty)

def simvecConditions (filter : SearchFilter) : SimvecFilter where
  must :=
    (filter.groupId.map fun groupId => ⟨"group_id", groupId⟩).toList ++
    (filter.filePath.map fun path => ⟨"file_path", normalizeProjectPath path⟩).toList ++
    (filter.pointType.map fun pointType => ⟨"type", toString pointType.asU8⟩).toList ++
    (if filter.epochs.length = 1 then
      filter.epochs.map fun epoch => ⟨"epoch", toString epoch⟩ else [])
  should :=
    (if filter.epochs.length = 1 then [] else
      filter.epochs.map fun epoch => ⟨"epoch", toString epoch⟩) ++
    (filter.includeCategories.getD []).map fun category =>
      ⟨"category", toString category.asU8⟩
  mustNot :=
    (filter.excludeCategories.getD []).map (fun category =>
      ⟨"category", toString category.asU8⟩) ++
    (if filter.excludeTest then [⟨"test", "true"⟩] else []) ++
    (if filter.excludeGenerated then [⟨"generated", "true"⟩] else []) ++
    (if filter.excludeDependency then [⟨"dependency", "true"⟩] else [])

/-- The filter pushed down to the local engine, absent when no condition was added. -/
def simvecFilter (filter : SearchFilter) : Option SimvecFilter :=
  if (simvecConditions filter).has then some (simvecConditions filter) else none

/-- The text the local engine compares a payload value by. -/
def JsonScalar.render : JsonScalar → String
  | .text content => content
  | .number value => toString value
  | .flag value => if value then "true" else "false"

/-- Whether the payload's value under the key reads as the text. -/
def SimvecCondition.holds (object : String → Option JsonScalar) (condition : SimvecCondition) :
    Bool :=
  (object condition.key).any fun value => value.render = condition.value

def simvecAccepts (filter : SimvecFilter) (object : String → Option JsonScalar) : Bool :=
  filter.must.all (·.holds object) && !filter.mustNot.any (·.holds object) &&
    (filter.should.isEmpty || filter.should.any (·.holds object))

/-- The engine gives a filter its Boolean reading. -/
def ReadsFilters (accepts : SimvecFilter → (String → Option JsonScalar) → Bool) : Prop :=
  ∀ filter object, accepts filter object = simvecAccepts filter object

end Simvec

end ContextEngine

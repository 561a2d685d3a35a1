/- digest: The chunk record shared by all chunkers, and the boundaries of the code splitter. -/

import ContextEngine.Chunking.TokenSplit
import ContextEngine.SymbolTable.TypeIndex

set_option autoImplicit false

namespace ContextEngine

open Offsets

inductive GroupType where
  | classWithMethods | interfaceWithImpls | relatedFunctions | standalone | traitWithImpls
  | moduleWithContents | testSuiteWithCases | compositePattern | classWithNestedClasses
  | structWithNestedStructs | functionWithMembers | mergedFragments | fileDocumentation
  deriving DecidableEq

/-- What a group of entities is converted to. -/
inductive OutputMode where
  | bm25 | embedding | both
  deriving DecidableEq

namespace OutputMode

variable (mode : OutputMode)

def producesBm25 : Bool := mode = .bm25 || mode = .both

def producesEmbedding : Bool := mode = .embedding || mode = .both

def produces : ChunkPath → Bool
  | .bm25 => mode.producesBm25
  | .embedding => mode.producesEmbedding

theorem exists_produces : ∃ path, mode.produces path = true := by
  cases mode with
  | bm25 => exact ⟨.bm25, rfl⟩
  | embedding => exact ⟨.embedding, rfl⟩
  | both => exact ⟨.bm25, rfl⟩

end OutputMode

inductive TestStatus where
  | unknown | test
  deriving DecidableEq

/-- Where a test marker comes from. -/
inductive TestSource where
  | none | path | ast
  deriving DecidableEq

namespace TestSource

/-- The trust order of the sources. -/
def rank : TestSource → Nat
  | ast => 3
  | path => 2
  | none => 1

end TestSource

inductive TestGranularity where
  | file | entity | group
  deriving DecidableEq

structure TestInfo where
  status : TestStatus
  source : TestSource
  granularity : TestGranularity
  deriving DecidableEq

namespace TestInfo

def unknown : TestInfo := ⟨.unknown, .none, .group⟩

def isTest (info : TestInfo) : Bool := info.status = .test

/-- A test marker wins, and among two the one from the more trusted source. -/
def merge (info other : TestInfo) : TestInfo :=
  match info.status, other.status with
  | .test, .test =>
    { (if info.source.rank < other.source.rank then other else info) with granularity := .group }
  | .test, .unknown => { info with granularity := .group }
  | .unknown, .test => { other with granularity := .group }
  | .unknown, .unknown => unknown

def canMerge (a b : TestInfo) : Bool := a.isTest = b.isTest

theorem isTest_merge {a b : TestInfo} (same : canMerge a b = true) :
    (merge a b).isTest = a.isTest := by
  obtain ⟨status, source, granularity⟩ := a
  obtain ⟨status', source', granularity'⟩ := b
  cases status <;> cases status' <;> simp [canMerge, isTest] at same
  · rfl
  · simp only [merge, isTest]
    split <;> rfl

end TestInfo

inductive ChunkContentType where
  | code (language : Language)
  | document
  | config (format : String)
  | plainText
  deriving DecidableEq

inductive FileCategory where
  | code | config | documentation | schema | other
  deriving DecidableEq

inductive SplitReason where
  | memberBoundary | sentenceBoundary | paragraphBoundary | lineBoundary | tokenLimit | hardLimit
  | notSplit | overview
  deriving DecidableEq

/-- How accurately the source ranges of a chunk describe its text. -/
inductive SourceSpanKind where
  | exactEntities | enclosingEntity | groupFallback | documentRange | unavailable
  deriving DecidableEq

structure CodeSpecificMetadata where
  contentEntityIds : List EntityId
  contentEntityNames : List String
  contentEntityKinds : List String
  contextEntityIds : List EntityId
  entityKind : EntityKind
  modifiers : List String
  splitReason : SplitReason
  overlapEntities : List EntityId
  hasOverlap : Bool
  isFragment : Bool
  fragmentIndex : Option Nat
  totalFragments : Option Nat
  originalEntityId : Option EntityId
  patternInfo : Option String

instance : Inhabited CodeSpecificMetadata :=
  ⟨⟨[], [], [], [], default, [], .notSplit, [], false, false, none, none, none, none⟩⟩

structure DocumentSpecificMetadata where
  docStructure : Option String
  docNodeIds : List String

instance : Inhabited DocumentSpecificMetadata := ⟨⟨none, []⟩⟩

structure ChunkMetadata where
  contentType : ChunkContentType
  filePath : String
  sourceSpan : Span
  sourceRanges : List Span
  sourceSpanKind : SourceSpanKind
  bm25WordCount : Option Nat
  segmentId : String
  mergedGroupIds : List String
  testInfo : TestInfo
  fileCategory : FileCategory
  codeMetadata : Option CodeSpecificMetadata
  docMetadata : Option DocumentSpecificMetadata

namespace ChunkMetadata

variable (metadata : ChunkMetadata)

def contentEntityIds : List EntityId :=
  (metadata.codeMetadata.map CodeSpecificMetadata.contentEntityIds).getD []

def contextEntityIds : List EntityId :=
  (metadata.codeMetadata.map CodeSpecificMetadata.contextEntityIds).getD []

def entityKind : Option EntityKind :=
  metadata.codeMetadata.map CodeSpecificMetadata.entityKind

/-- `from_parts` completed by `build`: the fields neither of them sets have their defaults. -/
def build (contentType : ChunkContentType) (fileCategory : FileCategory) (filePath : String)
    (sourceSpan : Span) (sourceSpanKind : SourceSpanKind)
    (codeMetadata : Option CodeSpecificMetadata) (docMetadata : Option DocumentSpecificMetadata) :
    ChunkMetadata where
  contentType
  filePath := normalizeProjectPath filePath
  sourceSpan
  sourceRanges := [sourceSpan]
  sourceSpanKind
  bm25WordCount := none
  segmentId := ""
  mergedGroupIds := []
  testInfo := TestInfo.unknown
  fileCategory
  codeMetadata
  docMetadata

def withClassification (contentType : ChunkContentType) (fileCategory : FileCategory)
    (filePath : String) (sourceSpan : Span) (docMetadata : Option DocumentSpecificMetadata) :
    ChunkMetadata :=
  build contentType fileCategory filePath sourceSpan
    (if contentType = .plainText then .unavailable else .documentRange) none docMetadata

def forCode (filePath : String) (sourceSpan : Span) (language : Language)
    (codeMetadata : CodeSpecificMetadata) : ChunkMetadata :=
  build (.code language) .code filePath sourceSpan .exactEntities (some codeMetadata) none

end ChunkMetadata

inductive OverlapType where
  | previous | next
  deriving DecidableEq

structure OverlapRegion where
  text : Text
  tokenCount : Nat
  sourceChunkId : String
  overlapType : OverlapType
  startByte : Nat
  endByte : Nat

inductive GroupRelationType where
  | predecessor | successor | caller | callee | sameHierarchy
  deriving DecidableEq

structure GroupRelation where
  groupId : String
  relationType : GroupRelationType
  strength : Rat

structure ChunkedResult where
  chunkId : String
  sourceGroupId : String
  path : ChunkPath
  groupType : GroupType
  chunkIndex : Nat
  totalChunks : Nat
  text : Text
  bm25Title : Option String
  bm25Keywords : List String
  tokenCount : Nat
  startByte : Nat
  endByte : Nat
  prevOverlap : Option OverlapRegion
  nextOverlap : Option OverlapRegion
  relatedGroups : List GroupRelation
  selfContained : Bool
  truncated : Bool
  metadata : ChunkMetadata

structure ChunkBoundary where
  startByte : Nat
  endByte : Nat
  startLine : Nat
  endLine : Nat
  splitReason : SplitReason
  entityIds : List EntityId
  tokenCount : Nat
  groupId : Option String
  nestingLevel : Nat
  deriving DecidableEq

namespace ChunkBoundary

def of (startByte endByte : Nat) (splitReason : SplitReason) (tokenCount : Nat)
    (entityIds : List EntityId) (groupId : Option String) : ChunkBoundary :=
  ⟨startByte, endByte, 0, 0, splitReason, entityIds, tokenCount, groupId, 0⟩

end ChunkBoundary

/-- The interval of an entity in the assembled text. -/
structure NlEntityBoundary where
  entityId : EntityId
  startByte : Nat
  endByte : Nat

/-- The groups nested in a group, each by its identifier and name. -/
structure EntityGroup where
  groupId : String
  name : String
  nestedGroups : List EntityGroup

inductive ParseError where
  | codeSplitting (reason : String)

section Validate

def isRange (text : Text) (low high : Nat) : Bool :=
  low ≤ high && high ≤ extent text && isCut text low && isCut text high

def validateRange (text : Text) (low high : Nat) : Except ParseError Unit :=
  if isRange text low high then .ok ()
  else .error (.codeSplitting
    s!"invalid split range [{low}, {high}) for text of length {extent text}")

def validateBoundary (boundary : ChunkBoundary) (low high : Nat) (text : Text) :
    Except ParseError Unit :=
  if boundary.startByte < low || high < boundary.endByte ||
      boundary.endByte ≤ boundary.startByte || extent text < boundary.endByte ||
      !isCut text boundary.startByte || !isCut text boundary.endByte then
    .error (.codeSplitting (s!"strategy boundary [{boundary.startByte}, {boundary.endByte}) " ++
      s!"escapes [{low}, {high}) or is not char-aligned"))
  else .ok ()

/-- The loop of `validate_partition`: how far the boundaries reach. -/
def validateFrom (text : Text) (low high : Nat) (prevEnd : Nat) :
    List ChunkBoundary → Except ParseError Nat
  | [] => .ok prevEnd
  | boundary :: rest => do
      validateBoundary boundary low high text
      if boundary.startByte ≠ prevEnd then
        throw (.codeSplitting (s!"split partition gap/overlap: previous end {prevEnd} vs start " ++
          s!"{boundary.startByte}"))
      validateFrom text low high boundary.endByte rest

def validatePartition (boundaries : List ChunkBoundary) (text : Text) (low high : Nat) :
    Except ParseError Unit := do
  validateRange text low high
  let reached ← validateFrom text low high low boundaries
  if reached ≠ high then
    throw (.codeSplitting
      (s!"split partition does not cover the range (covered up to {reached}, " ++
      s!"range end {high})"))

end Validate

section Trailing

/-- The last boundary drawn out to `stop`, where it does not reach that far. -/
def extendLast (boundaries : List ChunkBoundary) (stop : Nat) : List ChunkBoundary :=
  match boundaries.getLast? with
  | some last =>
    boundaries.dropLast ++ [if last.endByte < stop then { last with endByte := stop } else last]
  | none => []

variable [CostModel]

def extendOrPushTrailing (boundaries : List ChunkBoundary) (text : Text) (currentStart stop : Nat)
    (path : ChunkPath) (reason : SplitReason) : List ChunkBoundary :=
  if stop ≤ currentStart then boundaries
  else
    let remaining := slice text currentStart stop
    if trim remaining = [] ∧ boundaries ≠ [] then extendLast boundaries stop
    else
      boundaries ++ [ChunkBoundary.of currentStart stop
        (if boundaries.isEmpty then .notSplit else reason)
        (ChunkingConfig.cost remaining path) [] none]

end Trailing

/-- Boundaries that follow each other over a range, all of them between characters. -/
structure SplitPartition (text : Text) (low high : Nat) (boundaries : List ChunkBoundary) :
    Prop where
  tiles : Tiles ChunkBoundary.startByte ChunkBoundary.endByte low high boundaries
  cuts : ∀ boundary ∈ boundaries, Cut text boundary.startByte ∧ Cut text boundary.endByte

theorem isRange_of_cut {text : Text} {low high : Nat} (cutLow : Cut text low)
    (cutHigh : Cut text high) (le : low ≤ high) : isRange text low high = true := by
  simp [isRange, le, cutHigh.le, (isCut_iff _ _).2 cutLow, (isCut_iff _ _).2 cutHigh]

namespace SplitPartition

variable {text : Text} {low mid high : Nat} {bs : List ChunkBoundary} {b : ChunkBoundary}

theorem nil (text : Text) (low : Nat) : SplitPartition text low low [] :=
  ⟨Tiles.nil low, by simp⟩

theorem push (front : SplitPartition text low mid bs) (begins : b.startByte = mid)
    (ends : b.endByte = high) (lt : mid < high) (cutStart : Cut text mid)
    (cutStop : Cut text high) : SplitPartition text low high (bs ++ [b]) := by
  refine ⟨front.tiles.push begins ends lt, fun c isMem => ?_⟩
  rcases List.mem_append.1 isMem with inFront | isLast
  · exact front.cuts c inFront
  · rw [List.mem_singleton.1 isLast, begins, ends]
    exact ⟨cutStart, cutStop⟩

theorem lastEnd_eq (whole : SplitPartition text low high bs) :
    (bs.getLast?.map ChunkBoundary.endByte).getD low = high := by
  by_cases none : bs = []
  · subst none
    exact whole.tiles.eq_nil_iff.1 rfl
  · obtain ⟨front, b, rfl, -, ends, -⟩ := whole.tiles.exists_last none
    simpa using ends

theorem extend (whole : SplitPartition text low mid bs) (ne : bs ≠ []) (le : mid ≤ high)
    (cutStop : Cut text high) : SplitPartition text low high (extendLast bs high) := by
  obtain ⟨front, b, rfl, before, rfl, lt⟩ := whole.tiles.exists_last ne
  have reached : extendLast (front ++ [b]) high = front ++ [{ b with endByte := high }] := by
    simp only [extendLast, List.getLast?_concat, List.dropLast_concat]
    by_cases later : b.endByte < high
    · rw [if_pos later]
    · have same : b.endByte = high := by omega
      rw [if_neg later, ← same]
  rw [reached]
  refine ⟨whole.tiles.extend_last rfl rfl le, fun c isMem => ?_⟩
  rcases List.mem_append.1 isMem with inFront | isLast
  · exact whole.cuts c (List.mem_append_left _ inFront)
  · rw [List.mem_singleton.1 isLast]
    exact ⟨(whole.cuts b (by simp)).1, cutStop⟩

theorem validateBoundary_eq_ok (whole : SplitPartition text low high bs) (cutHigh : Cut text high)
    (isMem : b ∈ bs) : validateBoundary b low high text = .ok () := by
  obtain ⟨lower, inner, upper⟩ := whole.tiles.mem isMem
  obtain ⟨cutStart, cutStop⟩ := whole.cuts b isMem
  have bound := cutHigh.le
  rw [validateBoundary, if_neg]
  simp only [(isCut_iff _ _).2 cutStart, (isCut_iff _ _).2 cutStop, Bool.not_true, Bool.or_false,
    Bool.or_eq_true, decide_eq_true_eq]
  omega

private theorem validateFrom_eq_ok {prevEnd : Nat}
    (tiles : Tiles ChunkBoundary.startByte ChunkBoundary.endByte prevEnd mid bs)
    (valid : ∀ b ∈ bs, validateBoundary b low high text = .ok ()) :
    validateFrom text low high prevEnd bs = .ok mid := by
  induction tiles with
  | nil => rfl
  | @cons prevEnd mid b bs begins proper rest ih =>
    have later := ih fun c isMem => valid c (List.mem_cons_of_mem _ isMem)
    rw [validateFrom, valid b List.mem_cons_self, begins, later]
    simp
    rfl

theorem validatePartition_eq_ok (whole : SplitPartition text low high bs) (cutLow : Cut text low)
    (cutHigh : Cut text high) : validatePartition bs text low high = .ok () := by
  have reached : validateFrom text low high low bs = .ok high :=
    validateFrom_eq_ok whole.tiles fun b isMem => whole.validateBoundary_eq_ok cutHigh isMem
  rw [validatePartition, validateRange, isRange_of_cut cutLow cutHigh whole.tiles.le, reached]
  simp [bind, Except.bind, pure, Except.pure]

theorem extendOrPushTrailing [CostModel] (front : SplitPartition text low mid bs) (le : mid ≤ high)
    (cutMid : Cut text mid) (cutHigh : Cut text high) (path : ChunkPath) (reason : SplitReason) :
    SplitPartition text low high
      (ContextEngine.extendOrPushTrailing bs text mid high path reason) := by
  rw [ContextEngine.extendOrPushTrailing]
  by_cases done : high ≤ mid
  · rw [if_pos done, show high = mid by omega]
    exact front
  · rw [if_neg done]
    simp only
    split
    · rename_i blank
      exact front.extend blank.2 le cutHigh
    · exact front.push rfl rfl (by omega) cutMid cutHigh

end SplitPartition

end ContextEngine

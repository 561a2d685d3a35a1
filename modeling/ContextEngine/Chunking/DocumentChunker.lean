/- digest: Document groups turned into chunks, and when each keyword segment adds to the text. -/

import ContextEngine.Chunking.ChunkedResult
import ContextEngine.Chunking.TermPositions
import ContextEngine.Chunking.TextSplitter
import ContextEngine.Chunking.TokenSplit
import ContextEngine.Glob.Tokens

set_option autoImplicit false

namespace ContextEngine

open List Offsets

def Spreads (overlap : Prop) (text : Text) (segments : List Text) : Prop :=
  ∃ ranges : List (Nat × Nat),
    Covers Prod.fst Prod.snd overlap 0 (extent text) ranges ∧
    (∀ range ∈ ranges, Cut text range.1 ∧ Cut text range.2) ∧
    segments = ranges.map fun range => slice text range.1 range.2

theorem Spreads.ne_nil {overlap : Prop} {text : Text} {segments : List Text}
    (spreads : Spreads overlap text segments) : segments ≠ [] := by
  obtain ⟨ranges, covers, _, rfl⟩ := spreads
  intro none
  exact covers.ne_nil (List.map_eq_nil_iff.1 none)

theorem spreads_whole (overlap : Prop) (text : Text) : Spreads overlap text [text] := by
  refine ⟨[(0, extent text)], Covers.last rfl rfl (Nat.zero_le _), ?_, by simp⟩
  intro range isMem
  rw [List.mem_singleton.1 isMem]
  exact ⟨Cut.zero text, Cut.end text⟩

namespace DocumentSplit

/-- `find_good_split_point` of the document chunkers, which moves the start to a character boundary
before it does what the code chunkers do. -/
def findGoodSplitPoint (text : Text) (start target : Nat) : Nat :=
  let start := floorCharBoundary text start
  if isCut text start then TokenSplit.findGoodSplitPoint text start target
  else clamp target start (extent text)

variable [CostModel]

def splitByTokens (text : Text) (path : ChunkPath) (config : ChunkingConfig) : List (Nat × Nat) :=
  TokenSplit.splitByTokensInRange findGoodSplitPoint (ChunkingConfig.unit path) (config.limit path)
    text 0 (extent text)

def termEnd (text : Text) (maxTerms start : Nat) : Nat :=
  let remaining := slice text start (extent text)
  let stop := start + extent (truncateToCost .terms remaining maxTerms)
  if stop ≤ start then
    match remaining.head? with
    | some c => start + c.utf8Size
    | none => extent text
  else if stop < extent text then
    let front := slice text start stop
    match rfind (fun rest => rest.head?.any isWhitespace) front with
    | some relative =>
      let whitespaceLen := match (slice front relative (extent front)).head? with
        | some c => c.utf8Size
        | none => 1
      let candidate := start + relative + whitespaceLen
      if start < candidate then candidate else stop
    | none => stop
  else stop

def nextStart (text : Text) (maxTerms overlapTerms start stop : Nat) : Nat :=
  let overlapLimit := min overlapTerms (maxTerms - 1)
  let next := start + suffixStartForCost .terms (slice text start stop) overlapLimit
  if next ≤ start then stop else next

variable (text : Text)

theorem lt_termEnd (maxTerms : Nat) {start : Nat} (lt : start < extent text) :
    start < termEnd text maxTerms start := by
  rw [termEnd]
  generalize start + extent (truncateToCost .terms (slice text start (extent text)) maxTerms) = stop
  simp only
  split
  · cases slice text start (extent text) with
    | nil => exact lt
    | cons c rest =>
      have wide := c.utf8Size_pos
      simp only [List.head?_cons]
      omega
  · split
    · split
      · split
        · split <;> omega
        · split <;> omega
      · omega
    · omega

variable (maxTerms overlap : Nat)

theorem lt_nextStart {start stop : Nat}
    (lt : start < stop) : start < nextStart text maxTerms overlap start stop := by
  rw [nextStart]
  split <;> omega

/-- The loop of `split_bm25_by_terms`. -/
def termRangesFrom (text : Text) (maxTerms overlapTerms start : Nat) : List (Nat × Nat) :=
  if start < extent text then
    let stop := termEnd text maxTerms start
    (start, stop) ::
      if extent text ≤ stop then []
      else termRangesFrom text maxTerms overlapTerms
        (nextStart text maxTerms overlapTerms start stop)
  else []
termination_by extent text - start
decreasing_by
  have later := lt_nextStart text maxTerms overlapTerms (lt_termEnd text maxTerms ‹_›)
  omega

def splitBm25ByTerms (text : Text) (maxTerms overlapTerms : Nat) : List Text :=
  if maxTerms = 0 then [text]
  else if ChunkUnit.cost .terms text ≤ maxTerms then [text]
  else (termRangesFrom text maxTerms overlapTerms 0).map fun range => slice text range.1 range.2

def embeddingSegments (text : Text) (config : ChunkingConfig) : List Text :=
  if text.isEmpty then [[]]
  else (splitByTokens text .embedding config).map fun range => slice text range.1 range.2

omit [CostModel] in
private theorem splitPoint {text : Text} {start target : Nat} (cutStart : Cut text start)
    (cutTarget : Cut text target) (le : start ≤ target) :
    TokenSplit.SplitPoint text start target (findGoodSplitPoint text start target) := by
  have same : floorCharBoundary text start = start := by
    rw [floorCharBoundary, Nat.min_eq_left cutStart.le, floorCut_eq_self cutStart]
  simp only [findGoodSplitPoint, same, (isCut_iff text start).2 cutStart, if_true]
  exact TokenSplit.splitPoint_findGoodSplitPoint cutStart cutTarget le

theorem spreads_embeddingSegments (config : ChunkingConfig) :
    Spreads False text (embeddingSegments text config) := by
  rw [embeddingSegments]
  cases text with
  | nil => exact spreads_whole False []
  | cons c rest =>
    have pieces : TokenSplit.Pieces (c :: rest) 0 (extent (c :: rest))
        (splitByTokens (c :: rest) .embedding config) :=
      TokenSplit.pieces_splitByTokensInRange
        (fun start target cutStart cutTarget le => splitPoint cutStart cutTarget le)
        (Cut.zero _) (Cut.end _) (Nat.zero_le _)
    have room : 0 < extent (c :: rest) := extent_pos (by simp)
    have ne : splitByTokens (c :: rest) .embedding config ≠ [] := by
      intro none
      have same := pieces.tiles.eq_nil_iff.1 none
      omega
    exact ⟨_, pieces.tiles.covers ne False, pieces.cuts, rfl⟩

theorem cut_termEnd {text : Text} {start : Nat} (maxTerms : Nat) (cut : Cut text start)
    (lt : start < extent text) : Cut text (termEnd text maxTerms start) := by
  have isFront := truncateToCost_isFront .terms (slice text start (extent text)) maxTerms
  obtain ⟨cutStop, inside, same⟩ := slice_of_front cut (Cut.end text) cut.le isFront
  rw [termEnd]
  generalize start + extent (truncateToCost .terms (slice text start (extent text)) maxTerms) = stop
    at cutStop inside same ⊢
  simp only
  split
  · cases remaining : slice text start (extent text) with
    | nil => exact absurd remaining (slice_ne_nil cut (Cut.end text) lt)
    | cons c rest =>
      have first : [c] <+: slice text start (extent text) := ⟨rest, by rw [remaining]; rfl⟩
      exact (slice_of_front cut (Cut.end text) cut.le first).1
  · rename_i proper
    have le : start ≤ stop := by omega
    split
    · cases found : rfind (fun rest => rest.head?.any isWhitespace) (slice text start stop) with
      | none => exact cutStop
      | some relative =>
        obtain ⟨before, after, whole, rfl, passes⟩ := rfind_eq_some found
        cases after with
        | nil => cases passes
        | cons c after =>
          have isFront' : before ++ [c] <+: slice text start stop := ⟨after, by simp [whole]⟩
          obtain ⟨cutThrough, _, _⟩ := slice_of_front cut cutStop le isFront'
          have rest : slice (slice text start stop) (extent before)
              (extent (slice text start stop)) = c :: after := by
            have parts := slice_of_append before (c :: after) []
            rw [List.append_nil] at parts
            rw [whole, extent_append]
            exact parts
          simp only [rest, List.head?_cons]
          split
          · rw [extent_append, ← Nat.add_assoc] at cutThrough
            exact cutThrough
          · exact cutStop
    · exact cutStop

theorem nextStart_spec {text : Text} {start stop : Nat}
    (cut : Cut text start) (cutStop : Cut text stop) (lt : start < stop) :
    Cut text (nextStart text maxTerms overlap start stop) ∧
      nextStart text maxTerms overlap start stop ≤ stop ∧
      (overlap = 0 → nextStart text maxTerms overlap start stop = stop) := by
  have le := Nat.le_of_lt lt
  obtain ⟨cutNext, inside⟩ := Cut.of_slice cut cutStop le
    (cut_suffixStartForCost .terms (slice text start stop) (min overlap (maxTerms - 1)))
  rw [nextStart]
  refine ⟨?_, ?_, ?_⟩
  · split
    · exact cutStop
    · exact cutNext
  · split
    · exact Nat.le_refl _
    · exact inside
  · rintro rfl
    have reaches : start + suffixStartForCost .terms (slice text start stop)
        (min 0 (maxTerms - 1)) = stop := by
      rw [Nat.zero_min, suffixStartForCost, if_pos rfl, extent_slice cut cutStop le]
      omega
    rw [reaches]
    split <;> rfl

theorem covers_termRangesFrom :
    ∀ start, Cut text start → start < extent text →
      Covers Prod.fst Prod.snd (overlap ≠ 0) start (extent text)
        (termRangesFrom text maxTerms overlap start) ∧
      ∀ range ∈ termRangesFrom text maxTerms overlap start,
        Cut text range.1 ∧ Cut text range.2 := by
  intro start
  fun_induction termRangesFrom text maxTerms overlap start with
  | case1 start lt stop ih =>
    intro cut _
    have proper : start < stop := lt_termEnd text maxTerms lt
    have cutStop : Cut text stop := cut_termEnd maxTerms cut lt
    have le := cutStop.le
    by_cases ends : extent text ≤ stop
    · rw [if_pos ends]
      refine ⟨Covers.last rfl (Nat.le_antisymm le ends) (Nat.le_of_lt lt), ?_⟩
      intro range isMem
      rw [List.mem_singleton.1 isMem]
      exact ⟨cut, cutStop⟩
    · rw [if_neg ends]
      obtain ⟨cutNext, inside, meets⟩ := nextStart_spec maxTerms overlap cut cutStop proper
      obtain ⟨covers, cuts⟩ := ih cutNext (by omega)
      refine ⟨Covers.cons rfl (lt_nextStart text maxTerms overlap proper) inside
        (fun none => meets (not_not.1 none)) covers, ?_⟩
      intro range isMem
      rcases List.mem_cons.1 isMem with rfl | isLater
      · exact ⟨cut, cutStop⟩
      · exact cuts range isLater
  | case2 start done =>
    intro _ lt
    exact absurd lt done

theorem spreads_splitBm25ByTerms :
    Spreads (overlap ≠ 0) text (splitBm25ByTerms text maxTerms overlap) := by
  rw [splitBm25ByTerms]
  split
  · exact spreads_whole _ text
  · split
    · exact spreads_whole _ text
    · rename_i exceeds
      have ne : text ≠ [] := by
        rintro rfl
        exact exceeds (by simp)
      obtain ⟨covers, cuts⟩ :=
        covers_termRangesFrom text maxTerms overlap 0 (Cut.zero text) (extent_pos ne)
      exact ⟨_, covers, cuts, rfl⟩

end DocumentSplit

inductive DocGroupType where
  | chapter | sectionGroup | standaloneBlock | paragraphGroup | listGroup
  deriving DecidableEq

def DocGroupType.toGroupType : DocGroupType → GroupType
  | chapter => .moduleWithContents
  | sectionGroup => .moduleWithContents
  | standaloneBlock => .standalone
  | paragraphGroup => .relatedFunctions
  | listGroup => .relatedFunctions

structure DocNode where
  content : Text

structure DocGroup where
  groupId : String
  groupType : DocGroupType
  header : Option DocNode
  embeddingText : Text
  bm25Text : Text
  span : Span

/-- The payload type and the category of a document, derived together from its path. -/
structure DocumentClassification where
  payload : ChunkContentType
  category : FileCategory

/-- `expansion` is `max_merge_expansion_factor`, as the function that scales a token limit by it. -/
structure MergingConfig where
  enableSmartMerging : Bool
  minChunkTokens : Nat
  expansion : Nat → Nat

structure TwoTierParams where
  embeddingText : Text
  bm25Text : Text
  sourceSpan : Span
  sourceGroupId : String
  filePath : String
  config : ChunkingConfig
  groupType : GroupType
  bm25Title : Option String
  outputMode : OutputMode
  contentType : ChunkContentType
  fileCategory : FileCategory

def metadataFor (contentType : ChunkContentType) (fileCategory : FileCategory) (filePath : String)
    (sourceSpan : Span) : ChunkMetadata :=
  match contentType with
  | .code language => ChunkMetadata.forCode filePath sourceSpan language default
  | other => ChunkMetadata.withClassification other fileCategory filePath sourceSpan (some default)

def ChunkPath.asStr : ChunkPath → String
  | bm25 => "bm25"
  | embedding => "emb"

def chunkIdOf (groupId : String) (path : ChunkPath) (index : Nat) : String :=
  groupId ++ "_" ++ path.asStr ++ "_" ++ toString index

section TwoTier

variable [CostModel] (p : TwoTierParams)

def segmentsOf : ChunkPath → List Text
  | .embedding => DocumentSplit.embeddingSegments p.embeddingText p.config
  | .bm25 => DocumentSplit.splitBm25ByTerms p.bm25Text p.config.maxBm25Terms
      p.config.overlapBm25Terms

def segmentChunk (path : ChunkPath) (total index : Nat) (text : Text) : ChunkedResult where
  chunkId := chunkIdOf p.sourceGroupId path index
  sourceGroupId := p.sourceGroupId
  path
  groupType := p.groupType
  chunkIndex := index
  totalChunks := total
  text
  bm25Title := p.bm25Title
  bm25Keywords := []
  tokenCount := ChunkingConfig.cost text path
  startByte := p.sourceSpan.startByte
  endByte := p.sourceSpan.endByte
  prevOverlap := none
  nextOverlap := none
  relatedGroups := []
  selfContained := false
  truncated := false
  metadata :=
    { metadataFor p.contentType p.fileCategory p.filePath p.sourceSpan with
      bm25WordCount := match path with
        | .bm25 => some (ChunkingConfig.cost text path)
        | .embedding => none
      segmentId := p.sourceGroupId }

def pathChunks (path : ChunkPath) : List ChunkedResult :=
  if p.outputMode.produces path then
    (segmentsOf p path).mapIdx (segmentChunk p path (segmentsOf p path).length)
  else []

def twoTierChunking : List ChunkedResult := pathChunks p .embedding ++ pathChunks p .bm25

end TwoTier

/-- `Path::file_stem`: the file name up to its last dot, unless that dot is its first character. -/
def fileStem (path : PathBuf) : Option String :=
  (pathFileName path.toList).map fun name =>
    let fromDot := name.reverse.dropWhile (· ≠ '.')
    String.ofList (if fromDot.length ≤ 1 then name else fromDot.tail.reverse)

def ancestorTitles : List DocGroup → List Text
  | [] => []
  | g :: rest =>
    let title := (g.header.map fun header => trim header.content).getD []
    let own :=
      if (g.groupType = .chapter ∨ g.groupType = .sectionGroup) ∧ title ≠ [] then [title] else []
    if g.groupType = .chapter then own else own ++ ancestorTitles rest

def buildContextPath (groups : List DocGroup) (index : Nat) : Text :=
  if index = 0 ∨ groups.isEmpty then []
  else
    let ancestors := (ancestorTitles (groups.take index).reverse).reverse
    let path := List.intercalate " > ".toList ancestors
    let title :=
      ((groups[index]?.bind DocGroup.header).map fun header => trim header.content).getD []
    if title.isEmpty then path
    else if path.isEmpty then title
    else path ++ " > ".toList ++ title

def joinBlank : List Text → Text := List.intercalate blankLine

structure DocChunker where
  config : ChunkingConfig
  mergingConfig : MergingConfig

namespace DocChunker

def extractTitle (group : DocGroup) (filePath : String) : Option String :=
  let content := (group.header.map fun header => trim header.content).getD []
  if content.isEmpty then fileStem filePath else some (String.ofList (content.take 80))

def embeddingPrefix (groupType : DocGroupType) (contextPath : Text) : Text :=
  match groupType with
  | .chapter =>
    if contextPath.isEmpty then "[Document Chapter]".toList
    else "[Document Chapter | ".toList ++ contextPath ++ "]".toList
  | .sectionGroup =>
    if contextPath.isEmpty then "[Document Section]".toList
    else "[Document Section | Under: ".toList ++ contextPath ++ "]".toList
  | .paragraphGroup => []
  | .listGroup => "[List Items]".toList
  | .standaloneBlock =>
    if contextPath.isEmpty then "[Standalone Code Block]".toList
    else "[Standalone Code Block | Context: ".toList ++ contextPath ++ "]".toList

def toEmbeddingText (text : Text) (groupType : DocGroupType) (contextPath : Text) : Text :=
  let label := embeddingPrefix groupType contextPath
  if label.isEmpty then trim text else label ++ newline ++ trim text

/-- The small groups wait for the group behind them in one of these pairs only. -/
def compatiblePair (small context : DocGroupType) : Bool :=
  (small, context) ∈ [(.paragraphGroup, .sectionGroup), (.sectionGroup, .chapter),
    (.paragraphGroup, .paragraphGroup), ((.listGroup, .sectionGroup) : DocGroupType × DocGroupType)]

def areSemanticallyCompatible (smallGroups : List DocGroup) (contextGroup : DocGroup) : Bool :=
  smallGroups.all fun g => compatiblePair g.groupType contextGroup.groupType

variable [CostModel] (chunker : DocChunker) (filePath : String) (outputMode : OutputMode)
  (classification : DocumentClassification)

/-- The parameters `two_tier_chunking` gets for texts filed under a group. -/
def paramsFor (group : DocGroup) (embeddingText bm25Text : Text) : TwoTierParams where
  embeddingText
  bm25Text
  sourceSpan := group.span
  sourceGroupId := group.groupId
  filePath
  config := chunker.config
  groupType := group.groupType.toGroupType
  bm25Title := extractTitle group filePath
  outputMode
  contentType := classification.payload
  fileCategory := classification.category

def chunkGroupWithContext (group : DocGroup) (contextPath : Text) : List ChunkedResult :=
  twoTierChunking (chunker.paramsFor filePath outputMode classification group
    (toEmbeddingText group.embeddingText group.groupType contextPath) group.bm25Text)

def isSmall (group : DocGroup) : Bool :=
  ChunkUnit.cost .tokens group.bm25Text < chunker.mergingConfig.minChunkTokens

/-- The first of the two checks of a merge. -/
def exceedsMergeBudget (smallGroups : List DocGroup) (contextGroup : DocGroup) : Bool :=
  let totalTokens :=
    smallGroups.foldl (fun total g => total + ChunkUnit.cost .tokens g.bm25Text) 0 +
      ChunkUnit.cost .tokens contextGroup.bm25Text
  let maxAllowed := chunker.mergingConfig.expansion chunker.config.maxTokens
  0 < chunker.config.maxTokens && maxAllowed < totalTokens

def createMergedChunk (smallIndices : List Nat) (contextIndex : Nat) (contextGroup : DocGroup)
    (groups : List DocGroup) : List ChunkedResult :=
  let smallGroups := smallIndices.filterMap (groups[·]?)
  let combinedBm25 :=
    (smallGroups.flatMap fun g => g.bm25Text ++ blankLine) ++ contextGroup.bm25Text
  let combinedEmbedding :=
    (smallGroups.flatMap fun g => g.embeddingText ++ blankLine) ++ contextGroup.embeddingText
  let relatedGroups := smallGroups.map fun g => (⟨g.groupId, .sameHierarchy, 1⟩ : GroupRelation)
  let embeddingText := toEmbeddingText combinedEmbedding contextGroup.groupType
    (buildContextPath groups contextIndex)
  (twoTierChunking (chunker.paramsFor filePath outputMode classification contextGroup embeddingText
    combinedBm25)).map fun chunk => { chunk with relatedGroups }

def tryMergeWithContext (smallIndices : List Nat) (contextIndex : Nat) (contextGroup : DocGroup)
    (groups : List DocGroup) : Option (List ChunkedResult) :=
  let smallGroups := smallIndices.filterMap (groups[·]?)
  if chunker.exceedsMergeBudget smallGroups contextGroup then none
  else if !areSemanticallyCompatible smallGroups contextGroup then none
  else some (chunker.createMergedChunk filePath outputMode classification smallIndices contextIndex
    contextGroup groups)

variable (groups : List DocGroup)

def chunkAt (index : Nat) : List ChunkedResult :=
  match groups[index]? with
  | some group =>
    chunker.chunkGroupWithContext filePath outputMode classification group
      (buildContextPath groups index)
  | none => []

structure SmartState where
  chunks : List ChunkedResult
  pendingIndices : List Nat

/-- One group of the loop of `chunk_groups_smart`. A merge does not keep the group from being
chunked by itself as well. -/
def smartStep (state : SmartState) (entry : DocGroup × Nat) : SmartState :=
  if chunker.isSmall entry.1 then
    { state with pendingIndices := state.pendingIndices ++ [entry.2] }
  else
    let flushed :=
      if state.pendingIndices.isEmpty then state.chunks
      else
        match chunker.tryMergeWithContext filePath outputMode classification state.pendingIndices
            entry.2 entry.1 groups with
        | some merged => state.chunks ++ merged
        | none => state.chunks ++ state.pendingIndices.flatMap
            (chunker.chunkAt filePath outputMode classification groups)
    { chunks := flushed ++ chunker.chunkAt filePath outputMode classification groups entry.2
      pendingIndices := [] }

def chunkGroupsSmart : List ChunkedResult :=
  let state := groups.zipIdx.foldl (chunker.smartStep filePath outputMode classification groups)
    ⟨[], []⟩
  state.chunks ++
    state.pendingIndices.flatMap (chunker.chunkAt filePath outputMode classification groups)

def chunkGroups : List ChunkedResult :=
  if groups.isEmpty then []
  else if !chunker.mergingConfig.enableSmartMerging then
    (List.range groups.length).flatMap (chunker.chunkAt filePath outputMode classification groups)
  else chunker.chunkGroupsSmart filePath outputMode classification groups

end DocChunker

namespace DocumentSplit

theorem rfind_char_eq_none {p : Char → Bool} {text : Text}
    (nothing : rfind (fun rest => rest.head?.any p) text = none) : ∀ d ∈ text, p d = false := by
  induction text with
  | nil => exact fun d mem => absurd mem not_mem_nil
  | cons a text ih =>
    rw [rfind] at nothing
    split at nothing
    · cases nothing
    · next later =>
        split_ifs at nothing with first
        intro d mem
        rcases mem_cons.1 mem with rfl | mem
        · simpa using first
        · exact ih later d mem

theorem rfind_char {p : Char → Bool} {text : Text} {offset : Nat}
    (found : rfind (fun rest => rest.head?.any p) text = some offset) :
    ∃ before c after, text = before ++ c :: after ∧ extent before = offset ∧ p c = true ∧
      ∀ d ∈ after, p d = false := by
  induction text generalizing offset with
  | nil => cases found
  | cons a text ih =>
    cases later : rfind (fun rest => rest.head?.any p) text with
    | some last =>
      simp only [rfind, later] at found
      cases found
      obtain ⟨before, c, after, rfl, rfl, passes, none⟩ := ih later
      exact ⟨a :: before, c, after, rfl, rfl, passes, none⟩
    | none =>
      simp only [rfind, later] at found
      split_ifs at found with passes
      cases found
      exact ⟨[], a, text, rfl, rfl, passes, rfind_char_eq_none later⟩

variable [CostModel] {text : Text} {maxTerms overlapTerms start stop : Nat}

/-- The longest fitting text from `start` goes beyond `stop`, and it is the rest of the text, or has
white space behind `stop`, or has none at all. -/
def ReachesAhead (text : Text) (maxTerms start stop : Nat) : Prop :=
  let fitting := start + extent (truncateToCost .terms (slice text start (extent text)) maxTerms)
  stop < fitting ∧ (fitting = extent text ∨ (∃ c ∈ slice text stop fitting, isWhitespace c = true) ∨
    ∀ c ∈ slice text start fitting, isWhitespace c = false)

/-- The rounds of the loop from `origin` on: where they start and where they cut. -/
inductive Round (text : Text) (maxTerms overlapTerms origin : Nat) : Nat → Nat → Prop
  | first : Round text maxTerms overlapTerms origin origin (termEnd text maxTerms origin)
  | next {start stop : Nat} (round : Round text maxTerms overlapTerms origin start stop)
      (more : stop < extent text) :
      Round text maxTerms overlapTerms origin (nextStart text maxTerms overlapTerms start stop)
        (termEnd text maxTerms (nextStart text maxTerms overlapTerms start stop))

def termRanges (text : Text) (maxTerms overlapTerms : Nat) : List (Nat × Nat) :=
  if ChunkUnit.cost .terms text ≤ maxTerms then [(0, extent text)]
  else termRangesFrom text maxTerms overlapTerms 0

/-- Whole characters without a gap over the text, each range within the limit or of one character,
and each reaching further than the one before. -/
structure AdvancingRanges (text : Text) (maxTerms : Nat) (ranges : List (Nat × Nat)) : Prop where
  covers : Covers Prod.fst Prod.snd True 0 (extent text) ranges
  aligned : ∀ range ∈ ranges, Cut text range.1 ∧ Cut text range.2
  within : ∀ range ∈ ranges, TokenSplit.WithinLimit .terms maxTerms (slice text range.1 range.2)
  advances : ranges.IsChain fun range next => range.2 < next.2

def RoundsReachAhead (text : Text) (maxTerms overlapTerms origin : Nat) : Prop :=
  ∀ start stop, Round text maxTerms overlapTerms origin start stop → stop < extent text →
    nextStart text maxTerms overlapTerms start stop < stop →
      ReachesAhead text maxTerms (nextStart text maxTerms overlapTerms start stop) stop

theorem termEnd_cases (cut : Cut text start) (lt : start < extent text) :
    let front := truncateToCost .terms (slice text start (extent text)) maxTerms
    (front = [] ∧ ∃ c rest, slice text start (extent text) = c :: rest ∧
        termEnd text maxTerms start = start + c.utf8Size) ∨
      (front ≠ [] ∧ start + extent front = extent text ∧
        termEnd text maxTerms start = extent text) ∨
      (front ≠ [] ∧ start + extent front < extent text ∧ (∀ c ∈ front, isWhitespace c = false) ∧
        termEnd text maxTerms start = start + extent front) ∨
      ∃ before c after, front = before ++ c :: after ∧ start + extent front < extent text ∧
        isWhitespace c = true ∧ (∀ d ∈ after, isWhitespace d = false) ∧
        termEnd text maxTerms start = start + extent (before ++ [c]) := by
  intro front
  have isFront : front <+: slice text start (extent text) :=
    truncateToCost_isFront .terms (slice text start (extent text)) maxTerms
  obtain ⟨cutStop, inside, same⟩ := slice_of_front cut (Cut.end text) cut.le isFront
  have shown : termEnd text maxTerms start = termEnd text maxTerms start := rfl
  have named : truncateToCost .terms (slice text start (extent text)) maxTerms = front := rfl
  conv_rhs at shown => unfold termEnd
  simp only [named] at shown
  rw [same] at shown
  by_cases empty : front = []
  · left
    rw [empty] at shown
    cases remaining : slice text start (extent text) with
    | nil => exact absurd remaining (slice_ne_nil cut (Cut.end text) lt)
    | cons c rest =>
      rw [remaining] at shown
      exact ⟨empty, c, rest, rfl, by simpa using shown⟩
  · right
    have wide := extent_pos empty
    rw [if_neg (by omega)] at shown
    by_cases more : start + extent front < extent text
    · right
      rw [if_pos more] at shown
      cases found : rfind (fun rest => rest.head?.any isWhitespace) front with
      | none =>
        left
        rw [found] at shown
        exact ⟨empty, more, rfind_char_eq_none found, shown⟩
      | some relative =>
        right
        obtain ⟨before, c, after, whole, reaches, space, none_⟩ := rfind_char found
        refine ⟨before, c, after, whole, more, space, none_, ?_⟩
        have rest : slice front relative (extent front) = c :: after := by
          have parts := slice_of_append before (c :: after) []
          rw [append_nil] at parts
          rw [whole, ← reaches, extent_append]
          exact parts
        have cwide := c.utf8Size_pos
        rw [found] at shown
        simp only [rest, head?_cons] at shown
        rw [if_pos (by omega)] at shown
        rw [shown, ← reaches, extent_append]
        exact Nat.add_assoc ..
    · left
      rw [if_neg more] at shown
      exact ⟨empty, by omega, by omega⟩

theorem lt_termEnd_iff (cut : Cut text start) (cutStop : Cut text stop) (lt : start < stop)
    (inside : stop < extent text) :
    stop < termEnd text maxTerms start ↔ ReachesAhead text maxTerms start stop := by
  have isFront := truncateToCost_isFront .terms (slice text start (extent text)) maxTerms
  have cases_ := @termEnd_cases _ text maxTerms start cut (Nat.lt_trans lt inside)
  unfold ReachesAhead
  simp only at cases_ ⊢
  generalize truncateToCost .terms (slice text start (extent text)) maxTerms = front
    at isFront cases_ ⊢
  obtain ⟨cutFitting, -, same⟩ := slice_of_front cut (Cut.end text) cut.le isFront
  rcases cases_ with ⟨rfl, c, rest, remaining, ends⟩ | ⟨-, whole, ends⟩ | ⟨-, -, none, ends⟩ |
    ⟨before, c, after, rfl, more, space, none, ends⟩
  · -- one character is taken, and the earlier end lies behind it
    obtain ⟨tail, parts⟩ := slice_isFront cut cutStop (Cut.end text) (Nat.le_of_lt lt) cutStop.le
    have reaches := extent_slice cut cutStop (Nat.le_of_lt lt)
    cases taken : slice text start stop with
    | nil => exact absurd taken (slice_ne_nil cut cutStop lt)
    | cons d more =>
      rw [taken, remaining] at parts
      obtain ⟨rfl, -⟩ := cons.inj parts
      rw [taken, extent_cons] at reaches
      have wide : Wide.width d = d.utf8Size := rfl
      rw [ends, extent_nil]
      constructor
      · intro further
        omega
      · intro further
        omega
  · rw [ends, whole]
    exact ⟨fun further => ⟨further, Or.inl rfl⟩, fun ahead => ahead.1⟩
  · rw [ends, same]
    exact ⟨fun further => ⟨further, Or.inr (Or.inr none)⟩, fun ahead => ahead.1⟩
  · rw [ends, same]
    by_cases further : stop < start + extent (before ++ c :: after)
    · have parts := slice_append cut cutStop cutFitting (Nat.le_of_lt lt) (Nat.le_of_lt further)
      have reaches := extent_slice cut cutStop (Nat.le_of_lt lt)
      rw [same] at parts
      generalize slice text start stop = front at parts reaches
      generalize slice text stop (start + extent (before ++ c :: after)) = back at parts ⊢
      have wide := c.utf8Size_pos
      have width : Wide.width c = c.utf8Size := rfl
      rw [extent_append, extent_cons, extent_nil]
      -- the last white space lies behind the earlier end or in front of it
      rcases append_eq_append_iff.1 parts with ⟨m, rfl, rfl⟩ | ⟨m, rfl, behind⟩
      · rw [extent_append]
        exact ⟨fun _ => ⟨further, Or.inr (Or.inl ⟨c, by simp, space⟩)⟩, fun _ => by omega⟩
      · cases m with
        | nil =>
          rw [nil_append] at behind
          rw [append_nil] at reaches
          exact ⟨fun _ => ⟨further, Or.inr (Or.inl ⟨c, by rw [← behind]; simp, space⟩)⟩,
            fun _ => by omega⟩
        | cons d m =>
          obtain ⟨rfl, rfl⟩ := cons.inj behind
          rw [extent_append, extent_cons] at reaches
          constructor
          · intro ahead
            omega
          · rintro ⟨-, whole | ⟨e, mem, spaced⟩ | all⟩
            · omega
            · rw [none e (mem_append_right _ mem)] at spaced
              cases spaced
            · rw [all c (by simp)] at space
              cases space
    · refine iff_of_false (fun ahead => further ?_) fun ahead => further ahead.1
      rw [extent_append, extent_cons, extent_nil] at ahead
      rw [extent_append, extent_cons]
      omega

theorem withinLimit_termEnd (positive : maxTerms ≠ 0)
    (spaces : ∀ (front rest : Text) (c : Char), isWhitespace c = true →
      ChunkUnit.cost .terms (front ++ [c]) ≤ ChunkUnit.cost .terms (front ++ c :: rest))
    (cut : Cut text start) (lt : start < extent text) :
    TokenSplit.WithinLimit .terms maxTerms (slice text start (termEnd text maxTerms start)) := by
  have isFront := truncateToCost_isFront .terms (slice text start (extent text)) maxTerms
  have fits := cost_truncateToCost .terms (slice text start (extent text)) positive
  have cases_ := @termEnd_cases _ text maxTerms start cut lt
  simp only at cases_
  generalize truncateToCost .terms (slice text start (extent text)) maxTerms = front
    at isFront fits cases_
  obtain ⟨-, -, same⟩ := slice_of_front cut (Cut.end text) cut.le isFront
  rcases cases_ with ⟨-, c, rest, remaining, ends⟩ | ⟨-, whole, ends⟩ | ⟨-, -, -, ends⟩ |
    ⟨before, c, after, rfl, -, space, -, ends⟩
  · have first : [c] <+: slice text start (extent text) := ⟨rest, by rw [remaining]; rfl⟩
    obtain ⟨-, -, single⟩ := slice_of_front cut (Cut.end text) cut.le first
    exact Or.inr ⟨c, by rw [ends]; exact single⟩
  · left
    rw [ends, ← whole, same]
    exact fits
  · left
    rw [ends, same]
    exact fits
  · left
    have shorter : before ++ [c] <+: slice text start (extent text) := by
      obtain ⟨tail, parts⟩ := isFront
      exact ⟨after ++ tail, by rw [← parts]; simp⟩
    obtain ⟨-, -, cutBack⟩ := slice_of_front cut (Cut.end text) cut.le shorter
    rw [ends, cutBack]
    exact Nat.le_trans (spaces before after c space) fits

theorem round_cases {origin : Nat} : Round text maxTerms overlapTerms origin start stop ↔
    (start = origin ∧ stop = termEnd text maxTerms origin) ∨
      (termEnd text maxTerms origin < extent text ∧ Round text maxTerms overlapTerms
          (nextStart text maxTerms overlapTerms origin (termEnd text maxTerms origin)) start
          stop) := by
  constructor
  · intro round
    induction round with
    | first => exact Or.inl ⟨rfl, rfl⟩
    | next round more ih =>
      right
      rcases ih with ⟨rfl, rfl⟩ | ⟨further, later⟩
      · exact ⟨more, .first⟩
      · exact ⟨further, later.next more⟩
  · rintro (⟨rfl, rfl⟩ | ⟨more, later⟩)
    · exact .first
    · induction later with
      | first => exact Round.next .first more
      | next _ further ih => exact ih.next further

theorem isChain_termRangesFrom_iff (text : Text) (maxTerms overlapTerms origin : Nat)
    (cut : Cut text origin) (lt : origin < extent text) :
    (termRangesFrom text maxTerms overlapTerms origin).IsChain
        (fun range next => range.2 < next.2) ↔
      RoundsReachAhead text maxTerms overlapTerms origin := by
  fun_induction termRangesFrom text maxTerms overlapTerms origin with
  | case1 start inside stop ih =>
    have proper : start < stop := lt_termEnd text maxTerms inside
    have cutStop : Cut text stop := cut_termEnd maxTerms cut inside
    by_cases ends : extent text ≤ stop
    · rw [if_pos ends]
      refine iff_of_true (isChain_singleton _) fun s e round more => ?_
      rcases round_cases.1 round with ⟨rfl, rfl⟩ | ⟨further, -⟩ <;> omega
    · rw [if_neg ends]
      obtain ⟨cutNext, le, -⟩ := nextStart_spec maxTerms overlapTerms cut cutStop proper
      have later := lt_nextStart text maxTerms overlapTerms proper
      have more : nextStart text maxTerms overlapTerms start stop < extent text := by omega
      have rest := ih cutNext more
      have first : stop < termEnd text maxTerms (nextStart text maxTerms overlapTerms start stop) ↔
          (nextStart text maxTerms overlapTerms start stop < stop → ReachesAhead text maxTerms
              (nextStart text maxTerms overlapTerms start stop) stop) := by
        by_cases overlaps : nextStart text maxTerms overlapTerms start stop < stop
        · rw [lt_termEnd_iff cutNext cutStop overlaps (by omega)]
          exact ⟨fun ahead _ => ahead, fun ahead => ahead overlaps⟩
        · have goes := lt_termEnd text maxTerms more
          exact iff_of_true (by omega) fun overlap => absurd overlap overlaps
      rw [termRangesFrom, if_pos more] at rest ⊢
      rw [isChain_cons_cons]
      refine (and_congr first rest).trans ?_
      constructor
      · rintro ⟨ahead, all⟩ s e round
        rcases round_cases.1 round with ⟨rfl, rfl⟩ | ⟨-, round⟩
        · exact fun _ => ahead
        · exact all s e round
      · intro all
        exact ⟨all start stop .first (Nat.lt_of_not_le ends), fun s e round =>
          all s e (round_cases.2 (Or.inr ⟨Nat.lt_of_not_le ends, round⟩))⟩
  | case2 start done => exact absurd lt done

theorem withinLimit_termRangesFrom (text : Text) (overlap origin : Nat) (positive : maxTerms ≠ 0)
    (spaces : ∀ (front rest : Text) (c : Char), isWhitespace c = true →
      ChunkUnit.cost .terms (front ++ [c]) ≤ ChunkUnit.cost .terms (front ++ c :: rest))
    (cut : Cut text origin) :
    ∀ range ∈ termRangesFrom text maxTerms overlap origin,
      TokenSplit.WithinLimit .terms maxTerms (slice text range.1 range.2) := by
  fun_induction termRangesFrom text maxTerms overlap origin with
  | case1 start inside stop ih =>
    have proper : start < stop := lt_termEnd text maxTerms inside
    have cutStop : Cut text stop := cut_termEnd maxTerms cut inside
    intro range mem
    rcases mem_cons.1 mem with rfl | later
    · exact withinLimit_termEnd positive spaces cut inside
    · by_cases ends : extent text ≤ stop
      · rw [if_pos ends] at later
        cases later
      · rw [if_neg ends] at later
        exact ih (nextStart_spec maxTerms overlap cut cutStop proper).1 range later
  | case2 start done => exact fun range mem => absurd mem not_mem_nil

def SegmentsAdvance (text : Text) (maxTerms overlapTerms : Nat) : Prop :=
  splitBm25ByTerms text maxTerms overlapTerms =
      (termRanges text maxTerms overlapTerms).map (fun range => slice text range.1 range.2) ∧
    AdvancingRanges text maxTerms (termRanges text maxTerms overlapTerms)

theorem segmentsAdvance_iff_of_cut_le
    (spaces : ∀ (front rest : Text) (c : Char), isWhitespace c = true →
      ChunkUnit.cost .terms (front ++ [c]) ≤ ChunkUnit.cost .terms (front ++ c :: rest))
    (text : Text) (maxTerms overlap : Nat) (positive : 0 < maxTerms) :
    SegmentsAdvance text maxTerms overlap ↔
      ChunkUnit.cost .terms text ≤ maxTerms ∨ RoundsReachAhead text maxTerms overlap 0 := by
  have nonzero : maxTerms ≠ 0 := Nat.ne_of_gt positive
  unfold SegmentsAdvance splitBm25ByTerms termRanges
  rw [if_neg nonzero]
  by_cases fits : ChunkUnit.cost .terms text ≤ maxTerms
  · rw [if_pos fits, if_pos fits]
    refine iff_of_true ⟨by simp, ?_⟩ (Or.inl fits)
    exact {
      covers := Covers.last rfl rfl (Nat.zero_le _)
      aligned := fun range mem => by
        rw [mem_singleton.1 mem]
        exact ⟨Cut.zero text, Cut.end text⟩
      within := fun range mem => by
        rw [mem_singleton.1 mem]
        exact Or.inl (by rwa [slice_whole])
      advances := isChain_singleton _ }
  · rw [if_neg fits, if_neg fits, or_iff_right fits]
    have ne : text ≠ [] := by
      rintro rfl
      exact fits (by simp)
    obtain ⟨covers, cuts⟩ :=
      covers_termRangesFrom text maxTerms overlap 0 (Cut.zero text) (extent_pos ne)
    have chain := isChain_termRangesFrom_iff text maxTerms overlap 0 (Cut.zero text)
      (extent_pos ne)
    constructor
    · rintro ⟨-, ranges⟩
      exact chain.1 ranges.advances
    · intro ahead
      exact ⟨rfl, {
        covers := covers.mono fun _ => trivial
        aligned := cuts
        within := withinLimit_termRangesFrom text overlap 0 nonzero spaces (Cut.zero text)
        advances := chain.2 ahead }⟩

omit [CostModel] in
/-- The segments of a text with a positive limit advance exactly where the whole text fits or every
round with an overlap goes on ahead. -/
theorem segmentsAdvance_iff [UnicodeTables] [Tokenizer] (text : Text) (maxTerms overlapTerms : Nat)
    (positive : 0 < maxTerms) :
    @SegmentsAdvance tokenizedCosts text maxTerms overlapTerms ↔
      positionCount text ≤ maxTerms ∨
        @RoundsReachAhead tokenizedCosts text maxTerms overlapTerms 0 :=
  @segmentsAdvance_iff_of_cut_le tokenizedCosts
    (fun front rest _ space => positionCount_cut_le front rest space) text maxTerms overlapTerms
    positive

@[reducible] def characterWords : Tokenizer where
  jieba := List.length
  estimateTokens := List.length
  estimateTokens_nil := rfl

omit [CostModel] in
/-- A text over the limit, cut into segments that overlap. -/
theorem segmentsAdvance_overlapping :
    3 < @positionCount asciiTables characterWords "a b c d e".toList ∧
      (@SegmentsAdvance (@tokenizedCosts asciiTables characterWords) "a b c d e".toList 3 1 ↔
        @positionCount asciiTables characterWords "a b c d e".toList ≤ 3 ∨
          @RoundsReachAhead (@tokenizedCosts asciiTables characterWords) "a b c d e".toList
            3 1 0) :=
  ⟨by decide +kernel,
    @segmentsAdvance_iff asciiTables characterWords "a b c d e".toList 3 1 (by decide)⟩

omit [CostModel] in
/-- The second segment of this text is the overlap alone. -/
theorem repeatedOverlap_not_advancing :
    0 < 3 ∧ @splitBm25ByTerms (@tokenizedCosts asciiTables characterWords) "a b 中,国,人".toList 3 1 =
        ["a b ".toList, " b ".toList, "中,国,人".toList] ∧
      ¬ @SegmentsAdvance (@tokenizedCosts asciiTables characterWords) "a b 中,国,人".toList 3 1 := by
  refine ⟨by decide, by decide +kernel, fun advance => ?_⟩
  have ranges : @termRanges (@tokenizedCosts asciiTables characterWords) "a b 中,国,人".toList 3 1 =
      [(0, 4), (1, 4), (4, 15)] := by decide +kernel
  have chain := @AdvancingRanges.advances (@tokenizedCosts asciiTables characterWords) _ _ _
    advance.2
  rw [ranges, isChain_cons_cons] at chain
  exact absurd chain.1 (by decide)

end DocumentSplit

end ContextEngine

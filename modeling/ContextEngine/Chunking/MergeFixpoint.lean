/- digest: Which neighbouring chunks are merged across groups, and where the merge ends. -/

import ContextEngine.Chunking.ChunkedResult
import ContextEngine.Lib.Sorting
import ContextEngine.Lib.StackMerge

set_option autoImplicit false

namespace ContextEngine

open Offsets List

def blankLineBetween (front back : Text) : Text := front ++ ['\n', '\n'] ++ back

def lines (text : Text) : List Text :=
  let parts := text.splitOn '\n'
  let terminated := parts.dropLast.map fun line =>
    if line.getLast? = some '\r' then line.dropLast else line
  match parts.getLast? with
  | some [] => terminated
  | some last => terminated ++ [last]
  | none => terminated

section Topic

def topicLinePrefixes : List String := ["branches on: ", "control flow: ", "calls: "]

/-- Whether a line names what an entity branches on, its control flow or what it calls. -/
def isTopicLine (line : Text) : Bool :=
  let line := line.dropWhile isWhitespace
  topicLinePrefixes.any fun start =>
    (line.take start.length).map Char.toLower = start.toList.map Char.toLower

def statesOwnTopic (text : Text) : Bool := (lines text).any isTopicLine

def isTopicUnit (chunk : ChunkedResult) : Bool :=
  let content := chunk.metadata.contentEntityIds
  let context := chunk.metadata.contextEntityIds
  let singleUnit :=
    content.isEmpty || (content.filter fun id => !context.contains id).length = 1
  singleUnit && match chunk.metadata.codeMetadata with
    | some code => code.splitReason = .memberBoundary || code.splitReason = .notSplit
    | none => true

end Topic

namespace MergeStrategy

def isAvailable (span : Span) : Bool := span.startPosition.row ≠ usizeMax

def spansContainOrContained (a b : Span) : Bool :=
  isAvailable a && isAvailable b &&
    ((a.startByte ≤ b.startByte && b.endByte ≤ a.endByte) ||
      (b.startByte ≤ a.startByte && a.endByte ≤ b.endByte))

/-- A chunk without a kind contradicts no other. -/
def sharesKind (prev next : ChunkedResult) : Bool :=
  match prev.metadata.entityKind, next.metadata.entityKind with
  | some prevKind, some nextKind => prevKind = nextKind
  | _, _ => true

variable [CostModel]

def cost (text : Text) (path : ChunkPath) : Nat := (ChunkingConfig.unit path).cost text

def combinedCost (a b : ChunkedResult) (path : ChunkPath) : Nat :=
  cost (blankLineBetween a.text b.text) path

variable (budget : ChunkBudget) (path : ChunkPath)

/-- A self-contained topic below the minimum stays by itself on the embedding path. -/
def protectsSmallTopic (chunk : ChunkedResult) : Bool :=
  chunk.selfContained && isTopicUnit chunk && cost chunk.text path < budget.minLimit

/-- A splinter goes back to its own group, or to a neighbour that covers the same source. -/
def rescuesTiny (prev next : ChunkedResult) : Bool :=
  let tiny := budget.minLimit / 3
  (cost prev.text path ≤ tiny || cost next.text path ≤ tiny) &&
    combinedCost prev next path ≤ budget.hardLimit &&
    (prev.sourceGroupId = next.sourceGroupId ||
      spansContainOrContained prev.metadata.sourceSpan next.metadata.sourceSpan)

def followsTopic (prev next : ChunkedResult) : Bool :=
  path = .embedding && statesOwnTopic prev.text && !statesOwnTopic next.text && isTopicUnit prev &&
    combinedCost prev next path ≤ budget.mergeLimit

def shouldMerge (prev next : ChunkedResult) (path : ChunkPath) (config : ChunkingConfig) : Bool :=
  let budget := config.budget path false 0
  if path = .embedding &&
      (protectsSmallTopic budget path prev || protectsSmallTopic budget path next) then false
  else if !TestInfo.canMerge prev.metadata.testInfo next.metadata.testInfo then false
  else if rescuesTiny budget path prev next then true
  else if !sharesKind prev next then false
  else if followsTopic budget path prev next then true
  else
    combinedCost prev next path ≤ budget.mergeLimit &&
      (cost prev.text path < budget.minLimit || cost next.text path < budget.minLimit)

def spanKey (groupSpans : HashMap String Span) (chunk : ChunkedResult) : Nat :=
  ((groupSpans.lookup chunk.sourceGroupId).map Span.startByte).getD 0

def sortChunksBySpan (groupSpans : HashMap String Span) (chunks : List ChunkedResult) :
    List ChunkedResult := sortByKey (spanKey groupSpans) chunks

end MergeStrategy

section MergeTwo

/-- `Vec::dedup_by`: of a run of elements that agree with its first, only that one stays. -/
def dedupRuns {α : Type} (same : α → α → Bool) : List α → List α
  | [] => []
  | a :: rest => a :: go a rest
where
  go (kept : α) : List α → List α
    | [] => []
    | b :: rest => if same b kept then go kept rest else b :: go b rest

/-- The ranges of both sides in order, joined where they touch. -/
def mergeRanges (ranges : List Span) : List Span :=
  ranges.foldl (fun merged span =>
    match merged.getLast? with
    | some last =>
      if span.startByte ≤ last.endByte + 1 then
        if last.endByte < span.endByte then
          merged.dropLast ++ [{ last with endByte := span.endByte
                                          endPosition := span.endPosition }]
        else merged
      else merged ++ [span]
    | none => merged ++ [span]) []

/-- `merged_kind`: a union is covered as well as the weaker of the two sides. -/
def mergedKind : SourceSpanKind → SourceSpanKind → SourceSpanKind
  | .groupFallback, _ => .groupFallback
  | .unavailable, _ => .groupFallback
  | _, .groupFallback => .groupFallback
  | _, .unavailable => .groupFallback
  | .enclosingEntity, _ => .enclosingEntity
  | _, .enclosingEntity => .enclosingEntity
  | .documentRange, .exactEntities => .enclosingEntity
  | .exactEntities, .documentRange => .enclosingEntity
  | .documentRange, .documentRange => .documentRange
  | .exactEntities, .exactEntities => .exactEntities

def enclosing (combined current : Span) : Span :=
  let first := if current.startByte < combined.startByte then current else combined
  let last := if combined.endByte < current.endByte then current else combined
  ⟨first.startByte, last.endByte, first.startPosition, last.endPosition⟩

def mergeSourceCoverage (a b : ChunkMetadata) : Span × List Span × SourceSpanKind :=
  let ranges := (a.sourceRanges ++ b.sourceRanges).mergeSort fun x y =>
    decide (x.startByte < y.startByte ∨ (x.startByte = y.startByte ∧ x.endByte ≤ y.endByte))
  match mergeRanges ranges with
  | [] => (.unavailable, [], .groupFallback)
  | first :: rest =>
    (rest.foldl enclosing first, first :: rest, mergedKind a.sourceSpanKind b.sourceSpanKind)

/-- Names or kinds positionally aligned with the entity ids of a chunk. -/
def aligned (labels : CodeSpecificMetadata → List String) (metadata : ChunkMetadata) :
    List (EntityId × String) :=
  let known := (metadata.codeMetadata.map labels).getD []
  metadata.contentEntityIds.mapIdx fun i id => (id, (known[i]?).getD "")

def mergedLabels (labels : CodeSpecificMetadata → List String) (a b : ChunkMetadata)
    (ids : List EntityId) : List String :=
  let byId := dedupRuns (fun x y => x.1 = y.1) (aligned labels a ++ aligned labels b)
  ids.map fun id => ((byId.find? fun entry => entry.1 = id).map Prod.snd).getD ""

def unionOf {α : Type} [DecidableEq α] (field : CodeSpecificMetadata → List α)
    (a b : ChunkMetadata) : List α :=
  ((a.codeMetadata.map field).getD [] ++ (b.codeMetadata.map field).getD []).eraseDups

/-- `rsplit_once('.')`, with an empty owner where there is no dot. -/
def ownerAndName (title : String) : List Char × List Char :=
  let reversed := title.toList.reverse
  match reversed.dropWhile (· ≠ '.') with
  | [] => ([], title.toList)
  | _ :: owner => (owner.reverse, (reversed.takeWhile (· ≠ '.')).reverse)

/-- Both titles, with a common owner named once. -/
def mergedTitle : Option String → Option String → Option String
  | some a, some b =>
    if a ≠ b then
      let (aOwner, aName) := ownerAndName a
      let (bOwner, bName) := ownerAndName b
      if aOwner ≠ [] ∧ aOwner = bOwner then
        some (String.ofList (aOwner ++ ['.'] ++ aName ++ " + ".toList ++ bName))
      else some (a ++ " + " ++ b)
    else some a
  | some a, none => some a
  | none, some b => some b
  | none, none => none

def mergedRelations (a b : List GroupRelation) : List GroupRelation :=
  b.foldl (fun related rel =>
    if related.any fun r => r.groupId = rel.groupId && r.relationType = rel.relationType
    then related
    else related ++ [rel]) a

/-- Every group that contributed to the right side, behind those of the left. -/
def mergedGroups (a b : ChunkedResult) : List String :=
  (b.sourceGroupId :: b.metadata.mergedGroupIds).foldl
    (fun ids gid => if ids.contains gid then ids else ids ++ [gid]) a.metadata.mergedGroupIds

variable [CostModel]

def mergeTwoChunks (a b : ChunkedResult) (combinedCost : Nat) : ChunkedResult :=
  let mergedText := blankLineBetween a.text b.text
  let contentEntityIds := unionOf CodeSpecificMetadata.contentEntityIds a.metadata b.metadata
  let coverage := mergeSourceCoverage a.metadata b.metadata
  let codeMetadata : CodeSpecificMetadata :=
    { contentEntityIds
      contentEntityNames := mergedLabels CodeSpecificMetadata.contentEntityNames a.metadata
        b.metadata contentEntityIds
      contentEntityKinds := mergedLabels CodeSpecificMetadata.contentEntityKinds a.metadata
        b.metadata contentEntityIds
      contextEntityIds := unionOf CodeSpecificMetadata.contextEntityIds a.metadata b.metadata
      entityKind := a.metadata.entityKind.getD default
      modifiers := unionOf CodeSpecificMetadata.modifiers a.metadata b.metadata
      splitReason := .memberBoundary
      overlapEntities := unionOf CodeSpecificMetadata.overlapEntities a.metadata b.metadata
      hasOverlap := false
      isFragment := false
      fragmentIndex := none
      totalFragments := none
      originalEntityId := a.metadata.codeMetadata.bind CodeSpecificMetadata.originalEntityId
      patternInfo := a.metadata.codeMetadata.bind CodeSpecificMetadata.patternInfo }
  { chunkId := a.chunkId
    sourceGroupId := a.sourceGroupId
    path := a.path
    groupType := a.groupType
    chunkIndex := a.chunkIndex
    totalChunks := a.totalChunks
    text := mergedText
    bm25Title := mergedTitle a.bm25Title b.bm25Title
    bm25Keywords := dedupRuns (fun x y => x = y) (a.bm25Keywords ++ b.bm25Keywords)
    tokenCount := combinedCost
    startByte := a.startByte
    endByte := b.endByte
    prevOverlap := none
    nextOverlap := none
    relatedGroups := mergedRelations a.relatedGroups b.relatedGroups
    selfContained := a.selfContained && b.selfContained
    truncated := a.truncated || b.truncated
    metadata :=
      { contentType := a.metadata.contentType
        filePath := a.metadata.filePath
        sourceSpan := coverage.1
        sourceRanges := coverage.2.1
        sourceSpanKind := coverage.2.2
        bm25WordCount := some (MergeStrategy.cost mergedText .bm25)
        segmentId := a.metadata.segmentId
        mergedGroupIds := mergedGroups a b
        testInfo := a.metadata.testInfo.merge b.metadata.testInfo
        fileCategory := a.metadata.fileCategory
        codeMetadata := some codeMetadata
        docMetadata := a.metadata.docMetadata } }

end MergeTwo

section Pass

def renumber (total index : Nat) (chunk : ChunkedResult) : ChunkedResult :=
  { chunk with
    chunkIndex := index
    totalChunks := total
    metadata :=
      { chunk.metadata with
        codeMetadata := chunk.metadata.codeMetadata.map fun code =>
          { code with isFragment := false, fragmentIndex := none, totalFragments := none } } }

variable [CostModel]

def mergeNeighbours (path : ChunkPath) (prev next : ChunkedResult) : ChunkedResult :=
  mergeTwoChunks prev next (MergeStrategy.combinedCost prev next path)

def mergeSmallChunksCrossGroup (chunks : List ChunkedResult) (groupSpans : HashMap String Span)
    (config : ChunkingConfig) : List ChunkedResult :=
  match chunks with
  | [] => []
  | [chunk] => [chunk]
  | first :: _ :: _ =>
    let merged := StackMerge.mergeAll
      (fun prev next => MergeStrategy.shouldMerge prev next first.path config)
      (mergeNeighbours first.path) (MergeStrategy.sortChunksBySpan groupSpans chunks)
    merged.mapIdx (renumber merged.length)

end Pass

section Joined

private theorem intercalate_append {front back : List Text} (frontSome : front ≠ [])
    (backSome : back ≠ []) :
    ['\n', '\n'].intercalate (front ++ back) =
      blankLineBetween (['\n', '\n'].intercalate front) (['\n', '\n'].intercalate back) := by
  induction front with
  | nil => exact absurd rfl frontSome
  | cons text front ih =>
    cases front with
    | nil =>
      obtain ⟨next, back, rfl⟩ := exists_cons_of_ne_nil backSome
      rw [singleton_append, intercalate_cons_cons, intercalate_singleton]
      rfl
    | cons next front =>
      have rest := ih (cons_ne_nil _ _)
      rw [cons_append, cons_append, intercalate_cons_cons, ← cons_append,
        rest, intercalate_cons_cons]
      simp only [blankLineBetween, append_assoc]

private theorem mem_joinedTexts {parts : List Text} {part : Text} {c : Char}
    (isPart : part ∈ parts) (inPart : c ∈ part) (sep : Text) : c ∈ sep.intercalate parts := by
  induction parts with
  | nil => cases isPart
  | cons first rest ih =>
    cases rest with
    | nil =>
      rw [mem_singleton.1 isPart] at inPart
      simpa using inPart
    | cons next rest =>
      rw [intercalate_cons_cons]
      rcases mem_cons.1 isPart with rfl | later
      · exact mem_append_left _ (mem_append_left _ inPart)
      · exact mem_append_right _ (ih later)

end Joined

section Letters

private theorem mem_of_mem_lines {text line : Text} {c : Char} (isLine : line ∈ lines text)
    (inLine : c ∈ line) : c ∈ text := by
  have ofPart : ∀ part ∈ text.splitOn '\n', c ∈ part → c ∈ text := by
    intro part isPart inPart
    have whole : ['\n'].intercalate (text.splitOn '\n') = text := intercalate_splitOn '\n'
    rw [← whole]
    exact mem_joinedTexts isPart inPart _
  have ofTerminated : ∀ line ∈ (text.splitOn '\n').dropLast.map (fun line : Text =>
      if line.getLast? = some '\r' then line.dropLast else line), c ∈ line → c ∈ text := by
    intro line isMem inLine
    obtain ⟨part, isPart, rfl⟩ := mem_map.1 isMem
    apply ofPart part ((dropLast_sublist _).subset isPart)
    split at inLine
    · exact (dropLast_sublist _).subset inLine
    · exact inLine
  simp only [lines] at isLine
  split at isLine
  · exact ofTerminated line isLine inLine
  · rename_i last _ isLast
    rcases mem_append.1 isLine with isMem | isMem
    · exact ofTerminated line isMem inLine
    · rw [mem_singleton.1 isMem] at inLine
      exact ofPart last (mem_of_getLast? isLast) inLine
  · exact ofTerminated line isLine inLine

private theorem isAlpha_of_toLower {c : Char} (lower : c.toLower.isAlpha = true) :
    c.isAlpha = true := by
  by_cases upper : c.isUpper = true
  · show (c.isUpper || c.isLower) = true
    rw [upper, Bool.true_or]
  · have kept : c.toLower = c := dif_neg fun between => upper (decide_eq_true between)
    rwa [kept] at lower

theorem exists_letter_of_statesOwnTopic {text : Text} (topic : statesOwnTopic text = true) :
    ∃ c ∈ text, c.isAlpha = true := by
  obtain ⟨line, isLine, named⟩ := any_eq_true.1 topic
  obtain ⟨start, isStart, agrees⟩ := any_eq_true.1 named
  have folded := of_decide_eq_true agrees
  have lettered : ∃ c rest, start.toList.map Char.toLower = c :: rest ∧ c.isAlpha = true := by
    simp only [topicLinePrefixes, mem_cons, not_mem_nil, or_false] at isStart
    rcases isStart with rfl | rfl | rfl <;> exact ⟨_, _, rfl, rfl⟩
  obtain ⟨c, rest, begins, isLetter⟩ := lettered
  rw [begins] at folded
  obtain ⟨d, isTaken, lowered⟩ := mem_map.1 (folded ▸ mem_cons_self)
  refine ⟨d, ?_, isAlpha_of_toLower (lowered ▸ isLetter)⟩
  apply mem_of_mem_lines isLine
  exact (dropWhile_sublist _).subset (mem_of_mem_take isTaken)

end Letters

/-- A chunk and the run of chunks it comes of: their texts with blank lines between them, and all
of them on its side of the test boundary. -/
structure MergedFrom (block : List ChunkedResult) (chunk : ChunkedResult) : Prop where
  nonempty : block ≠ []
  text : chunk.text = ['\n', '\n'].intercalate (block.map ChunkedResult.text)
  side : ∀ part ∈ block, part.metadata.testInfo.isTest = chunk.metadata.testInfo.isTest

section Renumber

variable (total index : Nat) (chunk : ChunkedResult)

@[simp] theorem renumber_path : (renumber total index chunk).path = chunk.path := rfl

@[simp] theorem renumber_text : (renumber total index chunk).text = chunk.text := rfl

@[simp] theorem renumber_sourceGroupId :
    (renumber total index chunk).sourceGroupId = chunk.sourceGroupId := rfl

@[simp] theorem renumber_testInfo :
    (renumber total index chunk).metadata.testInfo = chunk.metadata.testInfo := rfl

@[simp] theorem renumber_renumber :
    renumber total index (renumber total index chunk) = renumber total index chunk := by
  simp only [renumber, Option.map_map]
  rfl

theorem contentEntityIds_renumber :
    (renumber total index chunk).metadata.contentEntityIds = chunk.metadata.contentEntityIds := by
  simp only [renumber, ChunkMetadata.contentEntityIds, Option.map_map]
  rfl

theorem contextEntityIds_renumber :
    (renumber total index chunk).metadata.contextEntityIds = chunk.metadata.contextEntityIds := by
  simp only [renumber, ChunkMetadata.contextEntityIds, Option.map_map]
  rfl

theorem entityKind_renumber :
    (renumber total index chunk).metadata.entityKind = chunk.metadata.entityKind := by
  simp only [renumber, ChunkMetadata.entityKind, Option.map_map]
  rfl

theorem isTopicUnit_renumber : isTopicUnit (renumber total index chunk) = isTopicUnit chunk := by
  simp only [isTopicUnit, contentEntityIds_renumber, contextEntityIds_renumber]
  congr 1
  simp only [renumber]
  cases chunk.metadata.codeMetadata <;> rfl

end Renumber

namespace MergeStrategy

variable [CostModel]

theorem shouldMerge_renumber (total i j : Nat) (prev next : ChunkedResult) (path : ChunkPath)
    (config : ChunkingConfig) :
    shouldMerge (renumber total i prev) (renumber total j next) path config =
      shouldMerge prev next path config := by
  have kinds : sharesKind (renumber total i prev) (renumber total j next) =
      sharesKind prev next := by
    simp only [sharesKind, entityKind_renumber]
  simp only [shouldMerge, protectsSmallTopic, rescuesTiny, followsTopic, combinedCost,
    isTopicUnit_renumber, kinds]
  rfl

section Limits

omit [CostModel]

variable (path : ChunkPath) (config : ChunkingConfig)

theorem hardLimit_budget : (config.budget path false 0).hardLimit = config.limit path := by
  simp only [ChunkingConfig.budget, ChunkingConfig.budgetWithReserve]
  split
  · rename_i off
    exact off.symm
  · rfl

theorem minLimit_budget_of_off (off : config.limit path = 0) :
    (config.budget path false 0).minLimit = 0 := by
  simp only [ChunkingConfig.budget, ChunkingConfig.budgetWithReserve, off]
  rfl

theorem mergeLimit_budget_le (limited : config.limit path ≠ 0) :
    (config.budget path false 0).mergeLimit ≤ config.limit path := by
  simp only [ChunkingConfig.budget, ChunkingConfig.budgetWithReserve, if_neg limited]
  cases path with
  | bm25 => simp only; omega
  | embedding =>
    simp only
    split <;> omega

end Limits

section Verdict

variable {prev next : ChunkedResult} {path : ChunkPath} {config : ChunkingConfig}

/-- What a merge rests on: the test boundary is kept, and one of three rules bounds its size. -/
theorem shouldMerge_cases (merges : shouldMerge prev next path config = true) :
    TestInfo.canMerge prev.metadata.testInfo next.metadata.testInfo = true ∧
      (rescuesTiny (config.budget path false 0) path prev next = true ∨
        followsTopic (config.budget path false 0) path prev next = true ∨
        (combinedCost prev next path ≤ (config.budget path false 0).mergeLimit ∧
          (cost prev.text path < (config.budget path false 0).minLimit ∨
            cost next.text path < (config.budget path false 0).minLimit))) := by
  simp only [shouldMerge] at merges
  split at merges
  · cases merges
  · split at merges
    · cases merges
    · rename_i sameSide
      refine ⟨by simpa using sameSide, ?_⟩
      split at merges
      · exact Or.inl ‹_›
      · split at merges
        · cases merges
        · split at merges
          · exact Or.inr (Or.inl ‹_›)
          · exact Or.inr (Or.inr (by simpa using merges))

theorem combinedCost_le_of_shouldMerge (wordsCost : config.limit path = 0 →
      ∀ text : Text, (∃ c ∈ text, c.isAlpha = true) → 0 < ChunkUnit.tokens.cost text)
    (merges : shouldMerge prev next path config = true)
    (within : cost prev.text path ≤ config.limit path) :
    combinedCost prev next path ≤ config.limit path := by
  have rules := (shouldMerge_cases merges).2
  have rescued : rescuesTiny (config.budget path false 0) path prev next = true →
      combinedCost prev next path ≤ config.limit path := by
    intro rescues
    simp only [rescuesTiny, Bool.and_eq_true, decide_eq_true_eq, hardLimit_budget] at rescues
    exact rescues.1.2
  by_cases off : config.limit path = 0
  · rw [minLimit_budget_of_off path config off] at rules
    rcases rules with rescues | follows | sized
    · exact rescued rescues
    · simp only [followsTopic, Bool.and_eq_true, decide_eq_true_eq] at follows
      obtain ⟨⟨⟨⟨rfl, topic⟩, -⟩, -⟩, -⟩ := follows
      have costs : 0 < cost prev.text .embedding :=
        wordsCost off prev.text (exists_letter_of_statesOwnTopic topic)
      omega
    · omega
  · have ceiling := mergeLimit_budget_le path config off
    rcases rules with rescues | follows | sized
    · exact rescued rescues
    · simp only [followsTopic, Bool.and_eq_true, decide_eq_true_eq] at follows
      exact follows.2.trans ceiling
    · exact sized.1.trans ceiling

end Verdict

end MergeStrategy

section Places

variable {α β γ : Type} {l : List α} {f : Nat → α → α}

private theorem map_mapIdx_of_kept {g : α → β} (kept : ∀ i a, g (f i a) = g a) :
    (l.mapIdx f).map g = l.map g := by
  apply ext_getElem
  · simp
  · intro i _ _
    simp [kept]

private theorem isChain_mapIdx_of_kept {R : α → α → Prop}
    (kept : ∀ i j a b, R (f i a) (f j b) ↔ R a b) (chain : l.IsChain R) :
    (l.mapIdx f).IsChain R := by
  rw [isChain_iff_getElem] at chain ⊢
  intro i inside
  have below : i + 1 < l.length := by simpa using inside
  simpa [kept] using chain i below

private theorem forall₂_mapIdx_of_kept {R : γ → α → Prop} {blocks : List γ}
    (kept : ∀ i block a, R block a → R block (f i a)) (related : List.Forall₂ R blocks l) :
    List.Forall₂ R blocks (l.mapIdx f) := by
  induction related generalizing f with
  | nil => exact List.Forall₂.nil
  | cons head _ ih =>
    rw [mapIdx_cons]
    exact List.Forall₂.cons (kept 0 _ _ head) (ih fun i block a => kept (i + 1) block a)

end Places

section Fixpoint

variable [CostModel] {path : ChunkPath} {config : ChunkingConfig}
  {groupSpans : HashMap String Span} {chunks : List ChunkedResult}

open MergeStrategy

/-- What a merge of neighbours brings about, for the runs of chunks both sides come of. -/
theorem MergedFrom.mergeNeighbours {front back : List ChunkedResult} {prev next : ChunkedResult}
    (fromFront : MergedFrom front prev) (fromBack : MergedFrom back next)
    (merges : shouldMerge prev next path config = true) :
    MergedFrom (front ++ back) (ContextEngine.mergeNeighbours path prev next) where
  nonempty := by simp [fromFront.nonempty]
  text := by
    rw [map_append, intercalate_append (by simpa using fromFront.nonempty)
      (by simpa using fromBack.nonempty), ← fromFront.text, ← fromBack.text]
    rfl
  side := by
    have sameSide := (shouldMerge_cases merges).1
    have stays : (ContextEngine.mergeNeighbours path prev next).metadata.testInfo.isTest =
        prev.metadata.testInfo.isTest := TestInfo.isTest_merge sameSide
    intro part isPart
    rw [stays]
    rcases mem_append.1 isPart with inFront | inBack
    · exact fromFront.side part inFront
    · rw [fromBack.side part inBack]
      exact (of_decide_eq_true sameSide).symm

omit [CostModel] in
theorem MergedFrom.single (chunk : ChunkedResult) : MergedFrom [chunk] chunk where
  nonempty := cons_ne_nil _ _
  text := by simp
  side := by simp

omit [CostModel] in
theorem MergedFrom.renumber {block : List ChunkedResult} {chunk : ChunkedResult} {total i : Nat}
    (fromBlock : MergedFrom block chunk) :
    MergedFrom block (ContextEngine.renumber total i chunk) where
  nonempty := fromBlock.nonempty
  text := fromBlock.text
  side := fromBlock.side

section Settled

variable (path) (config) (groupSpans) (chunks)

/-- The chunks as the loop leaves them, before they get their places. -/
def settledChunks : List ChunkedResult :=
  StackMerge.mergeAll (fun prev next => shouldMerge prev next path config) (mergeNeighbours path)
    (sortChunksBySpan groupSpans chunks)

private theorem mergeSmallChunksCrossGroup_of_short (short : chunks.length ≤ 1) :
    mergeSmallChunksCrossGroup chunks groupSpans config = chunks ∧
      sortChunksBySpan groupSpans chunks = chunks := by
  cases chunks with
  | nil => exact ⟨rfl, sortByKey_of_pairwise List.Pairwise.nil⟩
  | cons chunk rest =>
    cases rest with
    | nil => exact ⟨rfl, sortByKey_of_pairwise (pairwise_singleton _ chunk)⟩
    | cons next rest => simp at short

variable {path} in
private theorem mergeSmallChunksCrossGroup_of_several
    (onePath : ∀ chunk ∈ chunks, chunk.path = path)
    (several : 1 < chunks.length) :
    mergeSmallChunksCrossGroup chunks groupSpans config =
      (settledChunks path config groupSpans chunks).mapIdx
        (renumber (settledChunks path config groupSpans chunks).length) := by
  cases chunks with
  | nil => simp at several
  | cons first rest =>
    cases rest with
    | nil => simp at several
    | cons next rest =>
      simp only [mergeSmallChunksCrossGroup, onePath first mem_cons_self]
      rfl

private theorem path_settledChunks (onePath : ∀ chunk ∈ chunks, chunk.path = path) :
    ∀ chunk ∈ settledChunks path config groupSpans chunks, chunk.path = path := by
  apply StackMerge.forall_mem_mergeAll
  · intro chunk isMem
    exact onePath chunk (mem_sortByKey.1 isMem)
  · exact fun prev next pathPrev _ _ => pathPrev

private theorem pairwise_settledChunks :
    ((settledChunks path config groupSpans chunks).map (spanKey groupSpans)).Pairwise (· ≤ ·) := by
  have left : ∀ prev next, spanKey groupSpans (mergeNeighbours path prev next) =
      spanKey groupSpans prev := fun _ _ => rfl
  have keys : ((settledChunks path config groupSpans chunks).map (spanKey groupSpans)).Sublist
      ((sortChunksBySpan groupSpans chunks).map (spanKey groupSpans)) :=
    StackMerge.map_mergeAll_sublist left _
  exact (pairwise_map.2 (pairwise_sortByKey (spanKey groupSpans) chunks)).sublist keys

private theorem exists_blocks_settledChunks :
    ∃ blocks, blocks.flatten = sortChunksBySpan groupSpans chunks ∧
      List.Forall₂ MergedFrom blocks (settledChunks path config groupSpans chunks) := by
  apply StackMerge.exists_blocks
  · exact fun chunk _ => MergedFrom.single chunk
  · exact fun front back prev next fromFront fromBack merges =>
      fromFront.mergeNeighbours fromBack merges

private theorem cost_settledChunks (wordsCost : config.limit path = 0 →
      ∀ text : Text, (∃ c ∈ text, c.isAlpha = true) → 0 < ChunkUnit.tokens.cost text)
    (within : ∀ chunk ∈ chunks, cost chunk.text path ≤ config.limit path) :
    ∀ chunk ∈ settledChunks path config groupSpans chunks,
      cost chunk.text path ≤ config.limit path := by
  apply StackMerge.forall_mem_mergeAll
  · intro chunk isMem
    exact within chunk (mem_sortByKey.1 isMem)
  · intro prev next withinPrev _ merges
    exact combinedCost_le_of_shouldMerge wordsCost merges withinPrev

end Settled

private theorem mergeSmallChunksCrossGroup_of_settled
    (onePath : ∀ chunk ∈ chunks, chunk.path = path)
    (ordered : (chunks.map (spanKey groupSpans)).Pairwise (· ≤ ·))
    (apart : chunks.IsChain fun prev next => shouldMerge prev next path config = false)
    (several : 1 < chunks.length) :
    mergeSmallChunksCrossGroup chunks groupSpans config =
      chunks.mapIdx (renumber chunks.length) := by
  have sorted : sortChunksBySpan groupSpans chunks = chunks :=
    sortByKey_of_pairwise (pairwise_map.1 ordered)
  have settled : settledChunks path config groupSpans chunks = chunks := by
    rw [settledChunks, sorted, StackMerge.mergeAll_of_isChain apart]
  rw [mergeSmallChunksCrossGroup_of_several config groupSpans chunks onePath several, settled]

private theorem mergeSmallChunksCrossGroup_renumbered {settled : List ChunkedResult}
    (onePath : ∀ chunk ∈ settled, chunk.path = path)
    (ordered : (settled.map (spanKey groupSpans)).Pairwise (· ≤ ·))
    (apart : settled.IsChain fun prev next => shouldMerge prev next path config = false) :
    mergeSmallChunksCrossGroup (settled.mapIdx (renumber settled.length)) groupSpans config =
      settled.mapIdx (renumber settled.length) := by
  by_cases several : 1 < settled.length
  · have paths : ∀ chunk ∈ settled.mapIdx (renumber settled.length), chunk.path = path := by
      intro chunk isMem
      obtain ⟨i, inside, rfl⟩ := mem_mapIdx.1 isMem
      rw [renumber_path]
      exact onePath _ (getElem_mem inside)
    have keys : ((settled.mapIdx (renumber settled.length)).map (spanKey groupSpans)).Pairwise
        (· ≤ ·) := by
      have kept : ∀ i chunk, spanKey groupSpans (renumber settled.length i chunk) =
          spanKey groupSpans chunk := fun _ _ => rfl
      rwa [map_mapIdx_of_kept kept]
    have chain := isChain_mapIdx_of_kept
      (fun i j a b => by rw [shouldMerge_renumber settled.length i j a b path config]) apart
    rw [mergeSmallChunksCrossGroup_of_settled paths keys chain (by rwa [length_mapIdx]),
      length_mapIdx, mapIdx_mapIdx]
    simp only [Function.comp_def, renumber_renumber]
  · apply (mergeSmallChunksCrossGroup_of_short config groupSpans _ _).1
    rw [length_mapIdx]
    exact Nat.le_of_not_lt several

/-- The merge of chunks of one path. Every text is kept, in the order of the groups; no two
neighbours of the result are to be merged, so a second merge changes nothing; no result stands on
both sides of the test boundary; and the hard limit is kept. `wordsCost` is what is asked of the
token estimate where the limit is off: text with a letter in it is not free. -/
theorem mergeSmallChunksCrossGroup_reachesFixpoint
    (onePath : ∀ chunk ∈ chunks, chunk.path = path)
    (wordsCost : config.limit path = 0 →
      ∀ text : Text, (∃ c ∈ text, c.isAlpha = true) → 0 < ChunkUnit.tokens.cost text) :
    (∃ blocks, blocks.flatten = sortChunksBySpan groupSpans chunks ∧
      List.Forall₂ MergedFrom blocks (mergeSmallChunksCrossGroup chunks groupSpans config)) ∧
    (mergeSmallChunksCrossGroup chunks groupSpans config).IsChain
      (fun prev next => shouldMerge prev next path config = false) ∧
    mergeSmallChunksCrossGroup (mergeSmallChunksCrossGroup chunks groupSpans config) groupSpans
      config = mergeSmallChunksCrossGroup chunks groupSpans config ∧
    ((∀ chunk ∈ chunks, cost chunk.text path ≤ (config.budget path false 0).hardLimit) →
      ∀ chunk ∈ mergeSmallChunksCrossGroup chunks groupSpans config,
        cost chunk.text path ≤ (config.budget path false 0).hardLimit) := by
  rw [hardLimit_budget]
  by_cases several : 1 < chunks.length
  · rw [mergeSmallChunksCrossGroup_of_several config groupSpans chunks onePath several]
    have apart : (settledChunks path config groupSpans chunks).IsChain
        fun prev next => shouldMerge prev next path config = false :=
      StackMerge.isChain_mergeAll _
    obtain ⟨blocks, same, related⟩ := exists_blocks_settledChunks path config groupSpans chunks
    refine ⟨⟨blocks, same, forall₂_mapIdx_of_kept (fun _ _ _ => MergedFrom.renumber) related⟩,
      isChain_mapIdx_of_kept (fun i j a b => by rw [shouldMerge_renumber]) apart, ?_, ?_⟩
    · exact mergeSmallChunksCrossGroup_renumbered
        (path_settledChunks path config groupSpans chunks onePath)
        (pairwise_settledChunks path config groupSpans chunks) apart
    · intro within chunk isMem
      obtain ⟨i, inside, rfl⟩ := mem_mapIdx.1 isMem
      rw [renumber_text]
      exact cost_settledChunks path config groupSpans chunks wordsCost within _
        (getElem_mem inside)
  · obtain ⟨kept, sorted⟩ :=
      mergeSmallChunksCrossGroup_of_short config groupSpans chunks (Nat.le_of_not_lt several)
    rw [kept, kept, sorted]
    refine ⟨⟨chunks.map fun chunk => [chunk], ?_, ?_⟩, ?_, rfl, id⟩
    · rw [← flatMap_def, flatMap_singleton']
    · rw [forall₂_map_left_iff]
      exact forall₂_same.2 fun chunk _ => MergedFrom.single chunk
    · rw [isChain_iff_getElem]
      omega

end Fixpoint

section Example

def shortFunctions : List ChunkedResult :=
  let chunk (groupId text : String) : ChunkedResult :=
    { chunkId := groupId ++ "_embedding_0"
      sourceGroupId := groupId
      path := .embedding
      groupType := .standalone
      chunkIndex := 0
      totalChunks := 1
      text := text.toList
      bm25Title := none
      bm25Keywords := []
      tokenCount := (text.length + 3) / 4
      startByte := 0
      endByte := text.utf8ByteSize
      prevOverlap := none
      nextOverlap := none
      relatedGroups := []
      selfContained := false
      truncated := false
      metadata := ChunkMetadata.forCode "src/walk.rs" default .rust default }
  [chunk "walk_1" "leave (function).", chunk "walk_0" "enter (function)."]

/-- Where their groups stand in the file. -/
def shortFunctionSpans : HashMap String Span :=
  (AList.insert "walk_1" ⟨40, 70, ⟨4, 0⟩, ⟨6, 1⟩⟩ ∅).insert "walk_0" ⟨0, 38, ⟨0, 0⟩, ⟨2, 1⟩⟩

def defaultLimits : ChunkingConfig :=
  ⟨512, 150, 5, 150, 45, 0, fun limit => (limit * 6 + 99) / 100⟩

private theorem quarterTokens_pos {text : Text} (worded : ∃ c ∈ text, c.isAlpha = true) :
    0 < @ChunkUnit.cost quarterTokens .tokens text := by
  obtain ⟨c, isMem, -⟩ := worded
  have some := length_pos_of_mem isMem
  show 0 < (text.length + 3) / 4
  omega

/-- With the default limits, two short functions are merged for good. -/
theorem shortFunctions_merged :
    @mergeSmallChunksCrossGroup quarterTokens
        (@mergeSmallChunksCrossGroup quarterTokens shortFunctions shortFunctionSpans defaultLimits)
        shortFunctionSpans defaultLimits =
      @mergeSmallChunksCrossGroup quarterTokens shortFunctions shortFunctionSpans defaultLimits :=
  (@mergeSmallChunksCrossGroup_reachesFixpoint quarterTokens .embedding defaultLimits
    shortFunctionSpans shortFunctions (by decide) fun _ _ => quarterTokens_pos).2.2.1

end Example

end ContextEngine

/- digest: The recursion over boundary levels, and when the fragments of an entity are packed. -/

import Mathlib.Data.List.Forall2
import ContextEngine.Chunking.MergeFixpoint
import ContextEngine.Chunking.EntitySplit
import ContextEngine.Chunking.ProseSplit

set_option autoImplicit false

namespace ContextEngine

open List Offsets

inductive SplitStrategy where
  | byParagraphs | byNestedGroups | byNlEntityBoundaries
  deriving DecidableEq

inductive BoundaryLevel where
  | nestedGroups | entities | sentences | paragraphs | tokens
  deriving DecidableEq

namespace BoundaryLevel

/-- The next coarser source of boundaries. -/
def next (level : BoundaryLevel) : ChunkPath → BoundaryLevel
  | .bm25 =>
    match level with
    | nestedGroups => entities
    | entities | sentences => paragraphs
    | paragraphs | tokens => tokens
  | .embedding =>
    match level with
    | nestedGroups => entities
    | entities => sentences
    | sentences | paragraphs | tokens => tokens

/-- The source that suits the inside of a piece cut at this level. -/
def subdivide (level : BoundaryLevel) : ChunkPath → BoundaryLevel
  | .bm25 =>
    match level with
    | nestedGroups | entities => paragraphs
    | sentences | paragraphs | tokens => tokens
  | .embedding =>
    match level with
    | nestedGroups | entities => sentences
    | sentences | paragraphs | tokens => tokens

def fromStrategy : SplitStrategy → BoundaryLevel
  | .byNestedGroups => nestedGroups
  | .byNlEntityBoundaries => entities
  | .byParagraphs => paragraphs

/-- How many levels there still are. -/
def descents : BoundaryLevel → Nat
  | nestedGroups => 4
  | entities => 3
  | sentences => 2
  | paragraphs => 1
  | tokens => 0

theorem descents_next_lt {level : BoundaryLevel} (more : level ≠ tokens) (path : ChunkPath) :
    (level.next path).descents < level.descents := by
  cases path <;> cases level <;> simp [next, descents] at more ⊢

theorem descents_subdivide_lt {level : BoundaryLevel} (more : level ≠ tokens) (path : ChunkPath) :
    (level.subdivide path).descents < level.descents := by
  cases path <;> cases level <;> simp [subdivide, descents] at more ⊢

end BoundaryLevel

variable (b : ChunkBoundary) (entityIds : List EntityId)

/-- The entities of the piece a boundary was cut from, where it has none of its own. -/
def ChunkBoundary.inherit : ChunkBoundary :=
  if b.entityIds.isEmpty then { b with entityIds } else b

@[simp] theorem ChunkBoundary.startByte_inherit :
    (b.inherit entityIds).startByte = b.startByte := by
  rw [inherit]
  split <;> rfl

@[simp] theorem ChunkBoundary.endByte_inherit :
    (b.inherit entityIds).endByte = b.endByte := by
  rw [inherit]
  split <;> rfl

structure TextSplitter where
  config : ChunkingConfig
  embBudget : ChunkBudget
  bm25Budget : ChunkBudget

namespace TextSplitter

def budget (splitter : TextSplitter) : ChunkPath → ChunkBudget
  | .embedding => splitter.embBudget
  | .bm25 => splitter.bm25Budget

def effectiveConfig (splitter : TextSplitter) (path : ChunkPath) : ChunkingConfig :=
  let b := splitter.budget path
  match path with
  | .embedding =>
    { splitter.config with
      maxTokens := b.bodyLimit
      minChunkTokens := b.minLimit
      crossGroupMergeThreshold := b.mergeLimit }
  | .bm25 =>
    { splitter.config with
      maxBm25Terms := b.bodyLimit
      minChunkBm25Terms := b.minLimit }

variable [CostModel] [UnicodeTables] (splitter : TextSplitter) (text : Text) (group : EntityGroup)
  (path : ChunkPath) (nlBoundaries : Option (List NlEntityBoundary))

/-- `partition_at`. The hard cut is no partition of this kind. -/
def partitionAt (low high : Nat) : BoundaryLevel → List ChunkBoundary
  | .nestedGroups => splitByNestedGroups text path low high group
  | .entities =>
    match nlBoundaries with
    | some nl => splitByMembersWithNl text (splitter.effectiveConfig path) path low high nl
    | none => []
  | .sentences => splitTextBySentences text (splitter.effectiveConfig path) path low high
  | .paragraphs => splitTextByParagraphs text (splitter.effectiveConfig path) path low high
  | .tokens => []

def splitByTokens (low high : Nat) : List ChunkBoundary :=
  (TokenSplit.splitByTokensInRange TokenSplit.findGoodSplitPoint (ChunkingConfig.unit path)
    ((splitter.effectiveConfig path).limit path) text low high).map fun piece =>
      ChunkBoundary.of piece.1 piece.2 .hardLimit
        (ChunkingConfig.cost (slice text piece.1 piece.2) path) [] none

omit [UnicodeTables] in
def splitPiece (splitFurther : Nat → Nat → List EntityId → Except ParseError (List ChunkBoundary))
    (bodyLimit : Nat) (inherited : List EntityId) (boundary : ChunkBoundary) :
    Except ParseError (List ChunkBoundary) :=
  let b := boundary.inherit inherited
  if bodyLimit = 0 ∨ ChunkingConfig.cost (slice text b.startByte b.endByte) path ≤ bodyLimit then
    .ok [b]
  else splitFurther b.startByte b.endByte b.entityIds

def splitRangeAt (low high : Nat) (level : BoundaryLevel) (inherited : List EntityId) :
    Except ParseError (List ChunkBoundary) :=
  if !isRange text low high then
    .error (.codeSplitting (s!"splitter received an invalid range [{low}, {high}) " ++
      s!"for text of length {extent text}"))
  else if _last : level = .tokens then
    .ok ((splitter.splitByTokens text path low high).map fun b => b.inherit inherited)
  else
    let piece := splitPiece text path
      (fun start stop entityIds => splitRangeAt start stop (level.subdivide path) entityIds)
      (splitter.budget path).bodyLimit inherited
    match splitter.partitionAt text group path nlBoundaries low high level with
    | [] => splitRangeAt low high (level.next path) inherited
    | [boundary] => do
        validateBoundary boundary low high text
        if boundary.startByte ≠ low ∨ boundary.endByte ≠ high then
          throw (.codeSplitting (s!"single boundary [{boundary.startByte}, {boundary.endByte}) " ++
            s!"does not cover the split range [{low}, {high})"))
        piece boundary
    | boundaries => do
        let pieces ← boundaries.mapM fun boundary => do
          validateBoundary boundary low high text
          piece boundary
        return pieces.flatten
termination_by level.descents
decreasing_by
  all_goals first
    | exact BoundaryLevel.descents_subdivide_lt _last path
    | exact BoundaryLevel.descents_next_lt _last path

def trySplitRange (strategy : SplitStrategy) (low high : Nat) :
    Except ParseError (List ChunkBoundary) := do
  validateRange text low high
  let boundaries ← splitter.splitRangeAt text group path nlBoundaries low high
    (BoundaryLevel.fromStrategy strategy) []
  validatePartition boundaries text low high
  return boundaries

section Bounded

/-- A partition of a range whose pieces keep the limit, or are single characters. -/
structure Bounded (limit : Nat) (path : ChunkPath) (text : Text) (low high : Nat)
    (pieces : List ChunkBoundary) : Prop where
  partition : SplitPartition text low high pieces
  within : ∀ b ∈ pieces,
    TokenSplit.WithinLimit (ChunkingConfig.unit path) limit (slice text b.startByte b.endByte)

/-- A partition of a range whose pieces have a property. -/
structure Divided (P : Text → Prop) (text : Text) (low high : Nat) (pieces : List ChunkBoundary) :
    Prop where
  partition : SplitPartition text low high pieces
  each : ∀ b ∈ pieces, P (slice text b.startByte b.endByte)

variable {text path} {P : Text → Prop} {limit low mid high : Nat} {bs cs : List ChunkBoundary}

omit [CostModel] [UnicodeTables] in
theorem Divided.append (front : Divided P text low mid bs) (back : Divided P text mid high cs) :
    Divided P text low high (bs ++ cs) := by
  refine ⟨⟨front.partition.tiles.append back.partition.tiles, fun b isMem => ?_⟩,
    fun b isMem => ?_⟩
  · rcases mem_append.1 isMem with inFront | inBack
    · exact front.partition.cuts b inFront
    · exact back.partition.cuts b inBack
  · rcases mem_append.1 isMem with inFront | inBack
    · exact front.each b inFront
    · exact back.each b inBack

omit [CostModel] [UnicodeTables] in
theorem divided_mapM {f : ChunkBoundary → Except ParseError (List ChunkBoundary)}
    (tiles : Tiles ChunkBoundary.startByte ChunkBoundary.endByte low high bs)
    (parts : ∀ b ∈ bs, ∃ pieces, f b = .ok pieces ∧ Divided P text b.startByte b.endByte pieces) :
    ∃ pieces, bs.mapM f = .ok pieces ∧ Divided P text low high pieces.flatten := by
  induction tiles with
  | nil low => exact ⟨[], rfl, SplitPartition.nil text low, by simp⟩
  | @cons low high b bs begins proper rest ih =>
    obtain ⟨first, same, front⟩ := parts b mem_cons_self
    obtain ⟨later, same', back⟩ := ih fun c isMem => parts c (mem_cons_of_mem _ isMem)
    refine ⟨first :: later, ?_, ?_⟩
    · rw [mapM_cons, same, same']
      rfl
    · rw [flatten_cons, ← begins]
      exact front.append back

omit [UnicodeTables] in
theorem splitPiece_divided
    {splitFurther : Nat → Nat → List EntityId → Except ParseError (List ChunkBoundary)}
    (further : ∀ start stop entityIds, Cut text start → Cut text stop → start ≤ stop →
      ∃ pieces, splitFurther start stop entityIds = .ok pieces ∧ Divided P text start stop pieces)
    (positive : limit ≠ 0) (keeps : ∀ piece, ChunkingConfig.cost piece path ≤ limit → P piece)
    (inherited : List EntityId) {b : ChunkBoundary} (cutStart : Cut text b.startByte)
    (cutStop : Cut text b.endByte) (lt : b.startByte < b.endByte) :
    ∃ pieces, splitPiece text path splitFurther limit inherited b = .ok pieces ∧
      Divided P text b.startByte b.endByte pieces := by
  simp only [splitPiece, ChunkBoundary.startByte_inherit, ChunkBoundary.endByte_inherit]
  split
  · rename_i kept
    refine ⟨[b.inherit inherited], rfl, ⟨?_, fun c isMem => ?_⟩, fun c isMem => ?_⟩
    · exact Tiles.single (b.startByte_inherit _) (b.endByte_inherit _) lt
    · rw [mem_singleton.1 isMem, b.startByte_inherit, b.endByte_inherit]
      exact ⟨cutStart, cutStop⟩
    · rw [mem_singleton.1 isMem, b.startByte_inherit, b.endByte_inherit]
      exact keeps _ (kept.resolve_left positive)
  · exact further _ _ _ cutStart cutStop (Nat.le_of_lt lt)

end Bounded

variable {splitter text group path nlBoundaries} {low high : Nat}

omit [CostModel] [UnicodeTables] in
theorem limit_effectiveConfig :
    (splitter.effectiveConfig path).limit path = (splitter.budget path).bodyLimit := by
  cases path <;> rfl

theorem partitionAt_partition
    (aligned : ∀ nl ∈ nlBoundaries, ∀ b ∈ nl, Cut text b.startByte ∧ b.startByte < b.endByte)
    (cutLow : Cut text low) (cutHigh : Cut text high) (le : low ≤ high) (level : BoundaryLevel) :
    splitter.partitionAt text group path nlBoundaries low high level = [] ∨
      SplitPartition text low high
        (splitter.partitionAt text group path nlBoundaries low high level) := by
  cases level with
  | nestedGroups => exact splitByNestedGroups_partition path group cutLow cutHigh le
  | entities =>
    cases nlBoundaries with
    | none => exact Or.inl rfl
    | some nl => exact splitByMembersWithNl_partition _ path (aligned nl rfl) cutLow cutHigh le
  | sentences => exact Or.inr (splitTextBySentences_partition cutLow cutHigh le)
  | paragraphs => exact Or.inr (splitTextByParagraphs_partition cutLow cutHigh le)
  | tokens => exact Or.inl rfl

omit [CostModel] [UnicodeTables] in
private theorem splitPoint_of_cuts (start target : Nat) (cutStart : Cut text start)
    (cutTarget : Cut text target) (le : start ≤ target) :
    TokenSplit.SplitPoint text start target (TokenSplit.findGoodSplitPoint text start target) :=
  TokenSplit.splitPoint_findGoodSplitPoint cutStart cutTarget le

omit [UnicodeTables] in
theorem splitByTokens_partition (inherited : List EntityId) (cutLow : Cut text low)
    (cutHigh : Cut text high) (le : low ≤ high) :
    SplitPartition text low high
      ((splitter.splitByTokens text path low high).map fun b => b.inherit inherited) := by
  have pieces : TokenSplit.Pieces text low high (TokenSplit.splitByTokensInRange
      TokenSplit.findGoodSplitPoint (ChunkingConfig.unit path)
      ((splitter.effectiveConfig path).limit path) text low high) :=
    TokenSplit.pieces_splitByTokensInRange splitPoint_of_cuts cutLow cutHigh le
  rw [splitByTokens, map_map]
  refine ⟨pieces.tiles.map (fun piece => ?_) (fun piece => ?_), fun b isMem => ?_⟩
  · exact ChunkBoundary.startByte_inherit _ _
  · exact ChunkBoundary.endByte_inherit _ _
  · obtain ⟨piece, isPiece, rfl⟩ := mem_map.1 isMem
    simp only [Function.comp_apply, ChunkBoundary.startByte_inherit, ChunkBoundary.endByte_inherit]
    exact pieces.cuts piece isPiece

section

variable (positive : (splitter.budget path).bodyLimit ≠ 0)

include positive

omit [UnicodeTables] in
theorem withinLimit_splitByTokens
    (monotone : TokenSplit.CutMonotone (ChunkingConfig.unit path)) (cutLow : Cut text low)
    (cutHigh : Cut text high) (le : low ≤ high) :
    ∀ b ∈ splitter.splitByTokens text path low high, TokenSplit.WithinLimit
      (ChunkingConfig.unit path) (splitter.budget path).bodyLimit
      (slice text b.startByte b.endByte) := by
  have limited : (splitter.effectiveConfig path).limit path ≠ 0 := by
    rw [limit_effectiveConfig]
    exact positive
  have within := TokenSplit.withinLimit_splitByTokensInRange splitPoint_of_cuts cutLow cutHigh le
    monotone limited
  rw [limit_effectiveConfig] at within
  intro b isMem
  rw [splitByTokens, limit_effectiveConfig] at isMem
  obtain ⟨piece, isPiece, rfl⟩ := mem_map.1 isMem
  exact within piece isPiece

variable {P : Text → Prop}
  (keeps : ∀ piece, ChunkingConfig.cost piece path ≤ (splitter.budget path).bodyLimit → P piece)
  (hard : ∀ low high, Cut text low → Cut text high → low ≤ high →
    ∀ b ∈ splitter.splitByTokens text path low high, P (slice text b.startByte b.endByte))
  (aligned : ∀ nl ∈ nlBoundaries, ∀ b ∈ nl, Cut text b.startByte ∧ b.startByte < b.endByte)

include keeps hard aligned

theorem splitRangeAt_divided (level : BoundaryLevel) (inherited : List EntityId)
    (cutLow : Cut text low) (cutHigh : Cut text high) (le : low ≤ high) :
    ∃ pieces, splitter.splitRangeAt text group path nlBoundaries low high level inherited =
        .ok pieces ∧ Divided P text low high pieces := by
  induction remaining : level.descents using Nat.strong_induction_on
    generalizing level inherited low high with
  | _ descents ih =>
    subst remaining
    rw [splitRangeAt, isRange_of_cut cutLow cutHigh le]
    by_cases last : level = .tokens
    · rw [dif_pos last]
      refine ⟨_, rfl, splitByTokens_partition inherited cutLow cutHigh le, fun b isMem => ?_⟩
      obtain ⟨piece, isPiece, rfl⟩ := mem_map.1 isMem
      rw [piece.startByte_inherit, piece.endByte_inherit]
      exact hard low high cutLow cutHigh le piece isPiece
    · rw [dif_neg last]
      have further : ∀ start stop entityIds, Cut text start → Cut text stop → start ≤ stop →
          ∃ pieces, splitter.splitRangeAt text group path nlBoundaries start stop
              (level.subdivide path) entityIds = .ok pieces ∧
            Divided P text start stop pieces :=
        fun start stop entityIds cutStart cutStop le =>
          ih _ (BoundaryLevel.descents_subdivide_lt last path) _ entityIds cutStart cutStop le rfl
      have parts : splitter.partitionAt text group path nlBoundaries low high level = [] ∨
          SplitPartition text low high
            (splitter.partitionAt text group path nlBoundaries low high level) :=
        partitionAt_partition aligned cutLow cutHigh le level
      simp only [Bool.not_true, Bool.false_eq_true, if_false]
      split
      · exact ih _ (BoundaryLevel.descents_next_lt last path) _ inherited cutLow cutHigh le rfl
      · rename_i boundary single
        rw [single] at parts
        have whole := parts.resolve_left (cons_ne_nil _ _)
        obtain ⟨begins, ends, lt⟩ := whole.tiles.of_single
        rw [whole.validateBoundary_eq_ok cutHigh mem_cons_self]
        simp only [bind, Except.bind, begins, ends, ne_eq, not_true_eq_false, or_self, if_false]
        have piece := splitPiece_divided (b := boundary) further positive keeps inherited
          (begins ▸ cutLow) (ends ▸ cutHigh) (by omega)
        rwa [begins, ends] at piece
      · rename_i boundaries some _
        have whole := parts.resolve_left some
        have pieces : ∀ b ∈ splitter.partitionAt text group path nlBoundaries low high level,
            ∃ pieces, (do
                validateBoundary b low high text
                splitPiece text path (fun start stop entityIds => splitter.splitRangeAt text group
                  path nlBoundaries start stop (level.subdivide path) entityIds)
                  (splitter.budget path).bodyLimit inherited b) = .ok pieces ∧
              Divided P text b.startByte b.endByte pieces := by
          intro b isMem
          obtain ⟨cutStart, cutStop⟩ := whole.cuts b isMem
          rw [whole.validateBoundary_eq_ok cutHigh isMem]
          exact splitPiece_divided further positive keeps inherited cutStart cutStop
            (whole.tiles.mem isMem).2.1
        obtain ⟨all, done, divided⟩ := divided_mapM whole.tiles pieces
        rw [done]
        exact ⟨all.flatten, rfl, divided⟩

theorem trySplitRange_divided (cutLow : Cut text low) (cutHigh : Cut text high) (le : low ≤ high)
    (strategy : SplitStrategy) :
    ∃ pieces, splitter.trySplitRange text group path nlBoundaries strategy low high = .ok pieces ∧
      Divided P text low high pieces := by
  obtain ⟨pieces, done, divided⟩ := splitRangeAt_divided positive keeps hard aligned
    (BoundaryLevel.fromStrategy strategy) [] cutLow cutHigh le
  refine ⟨pieces, ?_, divided⟩
  rw [trySplitRange, validateRange, isRange_of_cut cutLow cutHigh le, done]
  simp only [if_true, bind, Except.bind, divided.partition.validatePartition_eq_ok cutLow cutHigh]
  rfl

end

/-- The splitter always succeeds. It cuts the range in pieces of whole characters that follow each
other from one end to the other, each of them within the limit of the body or a single character. -/
theorem trySplitRange_bounded (limited : 1 ≤ (splitter.budget path).bodyLimit)
    (monotone : TokenSplit.CutMonotone (ChunkingConfig.unit path))
    (aligned : ∀ nl ∈ nlBoundaries, ∀ b ∈ nl,
      Cut text b.startByte ∧ Cut text b.endByte ∧ b.startByte < b.endByte)
    (cutLow : Cut text low) (cutHigh : Cut text high) (le : low ≤ high)
    (strategy : SplitStrategy) :
    ∃ pieces, splitter.trySplitRange text group path nlBoundaries strategy low high = .ok pieces ∧
      Bounded (splitter.budget path).bodyLimit path text low high pieces := by
  have positive : (splitter.budget path).bodyLimit ≠ 0 := Nat.ne_of_gt limited
  have starts : ∀ nl ∈ nlBoundaries, ∀ b ∈ nl, Cut text b.startByte ∧ b.startByte < b.endByte :=
    fun nl isGiven b isMem => ⟨(aligned nl isGiven b isMem).1, (aligned nl isGiven b isMem).2.2⟩
  have keeps : ∀ piece, ChunkingConfig.cost piece path ≤ (splitter.budget path).bodyLimit →
      TokenSplit.WithinLimit (ChunkingConfig.unit path) (splitter.budget path).bodyLimit piece :=
    fun _ kept => Or.inl kept
  have hard : ∀ low high, Cut text low → Cut text high → low ≤ high →
      ∀ b ∈ splitter.splitByTokens text path low high, TokenSplit.WithinLimit
        (ChunkingConfig.unit path) (splitter.budget path).bodyLimit
        (slice text b.startByte b.endByte) :=
    fun _ _ cutLow cutHigh le => withinLimit_splitByTokens positive monotone cutLow cutHigh le
  obtain ⟨pieces, done, divided⟩ :=
    trySplitRange_divided positive keeps hard starts cutLow cutHigh le strategy
  exact ⟨pieces, done, divided.partition, divided.each⟩

end TextSplitter

section Example

@[reducible] def asciiTables : UnicodeTables where
  toLowercase c := [c.toLower]
  isUppercase := Char.isUpper
  isLowercase := Char.isLower
  isAlphanumeric := Char.isAlphanum

/-- At most two tokens for the body of a chunk. -/
def narrowSplitter : TextSplitter :=
  let config : ChunkingConfig := ⟨2, 150, 5, 0, 45, 0, fun _ => 0⟩
  ⟨config, config.budget .embedding false 0, config.budget .bm25 false 0⟩

def describedMembers : Text := "Opens the queue. Drains it.\n\nCloses the queue.".toList

private theorem quarterTokens_cutMonotone :
    @TokenSplit.CutMonotone quarterTokens (ChunkingConfig.unit .embedding) := by
  intro front c rest _
  show ((front ++ [c]).length + 3) / 4 ≤ ((front ++ c :: rest).length + 3) / 4
  simp only [length_append, length_cons, length_nil]
  omega

/-- Two members far above the limit are cut in bounded pieces. -/
theorem describedMembers_bounded :
    ∃ pieces, @TextSplitter.trySplitRange quarterTokens asciiTables narrowSplitter describedMembers
        ⟨"queue_0", "Queue", []⟩ .embedding (some [⟨1, 0, 27⟩, ⟨2, 29, 46⟩]) .byNlEntityBoundaries
        0 46 = .ok pieces ∧
      @TextSplitter.Bounded quarterTokens 2 .embedding describedMembers 0 46 pieces :=
  @TextSplitter.trySplitRange_bounded quarterTokens asciiTables narrowSplitter describedMembers
    ⟨"queue_0", "Queue", []⟩ .embedding (some [⟨1, 0, 27⟩, ⟨2, 29, 46⟩]) 0 46 (by decide)
    quarterTokens_cutMonotone (by decide +kernel) (by decide +kernel) (by decide +kernel)
    (by decide) .byNlEntityBoundaries

end Example

/-- What the chunk builder reads of an entity in a group. -/
structure GroupedEntity where
  id : EntityId
  name : String
  kind : EntityKind
  testInfo : TestInfo

/-- A group of code entities, as far as its chunks depend on it. -/
structure CodeGroup extends EntityGroup where
  kind : EntityKind
  groupType : GroupType
  headerId : Option EntityId
  memberIds : List EntityId
  header : Option GroupedEntity
  members : List GroupedEntity
  entitySpans : HashMap EntityId Span
  parentGroupId : Option String
  testInfo : TestInfo

namespace ChunkBuilder

variable (group : CodeGroup)

/-- The marker of one entity; the header counts under its own identifier. -/
def entityTestInfo (id : EntityId) : Option TestInfo :=
  if some id = group.headerId then group.header.map GroupedEntity.testInfo
  else (group.members.find? fun member => member.id = id).map GroupedEntity.testInfo

def fragmentTestInfo (contentEntityIds : List EntityId) : TestInfo :=
  if contentEntityIds.isEmpty then group.testInfo
  else
    match contentEntityIds.filterMap (entityTestInfo group) with
    | [] => group.testInfo
    | markers => markers.foldl TestInfo.merge .unknown

end ChunkBuilder

/-- A piece of the text with what is known about it. -/
structure ChunkSegment where
  boundary : ChunkBoundary
  text : Text

section Merge

variable [CostModel]

/-- Whether a segment may absorb the next one. A ceiling of zero does not bound the result. -/
def canMergeWithCeiling (prev next : Text) (path : ChunkPath) (minThreshold ceiling : Nat)
    (sameUnit : Bool) : Bool :=
  let undersized := ChunkingConfig.cost prev path < minThreshold ||
    ChunkingConfig.cost next path < minThreshold
  if ceiling = 0 then undersized
  else if ceiling < ChunkingConfig.cost (prev ++ next) path then false
  else sameUnit || undersized

/-- Whether two neighbours are merged: fragments of one entity up to the limit in front of the
injection, others up to the merge limit, and never across the test boundary. -/
def mergesSegments (group : CodeGroup) (budget : ChunkBudget) (path : ChunkPath)
    (last segment : ChunkSegment) : Bool :=
  let sameUnit := !last.boundary.entityIds.isEmpty &&
    last.boundary.entityIds = segment.boundary.entityIds
  let ceiling := if sameUnit then max budget.preInjectionLimit budget.mergeLimit
    else budget.mergeLimit
  TestInfo.canMerge (ChunkBuilder.fragmentTestInfo group last.boundary.entityIds)
      (ChunkBuilder.fragmentTestInfo group segment.boundary.entityIds) &&
    canMergeWithCeiling last.text segment.text path budget.minLimit ceiling sameUnit

def joinSegments (path : ChunkPath) (last segment : ChunkSegment) : ChunkSegment where
  boundary :=
    { last.boundary with
      endByte := segment.boundary.endByte
      endLine := segment.boundary.endLine
      tokenCount := ChunkingConfig.cost (last.text ++ segment.text) path
      entityIds := last.boundary.entityIds ++ segment.boundary.entityIds }
  text := last.text ++ segment.text

/-- The loop of `merge_small_segments`, with the segment that may still grow. -/
def mergeInto (group : CodeGroup) (budget : ChunkBudget) (path : ChunkPath) (last : ChunkSegment) :
    List ChunkSegment → List ChunkSegment
  | [] => [last]
  | segment :: rest =>
    if mergesSegments group budget path last segment then
      mergeInto group budget path (joinSegments path last segment) rest
    else last :: mergeInto group budget path segment rest

def mergeSmallSegments (group : CodeGroup) (budget : ChunkBudget) (path : ChunkPath) :
    List ChunkSegment → List ChunkSegment
  | [] => []
  | segment :: rest => mergeInto group budget path segment rest

end Merge

section Sides

variable (group : CodeGroup)

theorem isTest_merge_eq_or (a b : TestInfo) :
    (TestInfo.merge a b).isTest = (a.isTest || b.isTest) := by
  obtain ⟨status, source, granularity⟩ := a
  obtain ⟨status', source', granularity'⟩ := b
  cases status <;> cases status' <;> simp [TestInfo.merge, TestInfo.isTest, TestInfo.unknown]
  split <;> rfl

theorem isTest_foldl_merge (markers : List TestInfo) (info : TestInfo) :
    (markers.foldl TestInfo.merge info).isTest = (info.isTest || markers.any TestInfo.isTest) := by
  induction markers generalizing info with
  | nil => simp
  | cons marker markers ih =>
    rw [foldl_cons, ih, isTest_merge_eq_or, any_cons, Bool.or_assoc]

def onTestSide (ids : List EntityId) : Bool := (ChunkBuilder.fragmentTestInfo group ids).isTest

theorem onTestSide_eq (ids : List EntityId) : onTestSide group ids =
    if ids.filterMap (ChunkBuilder.entityTestInfo group) = [] then group.testInfo.isTest
    else (ids.filterMap (ChunkBuilder.entityTestInfo group)).any TestInfo.isTest := by
  unfold onTestSide ChunkBuilder.fragmentTestInfo
  cases ids with
  | nil => rfl
  | cons id ids =>
    rw [if_neg (by simp)]
    cases (id :: ids).filterMap (ChunkBuilder.entityTestInfo group) with
    | nil => rfl
    | cons marker markers =>
      rw [if_neg (by simp)]
      exact isTest_foldl_merge (marker :: markers) TestInfo.unknown

theorem onTestSide_append {ids more : List EntityId}
    (same : onTestSide group ids = onTestSide group more) :
    onTestSide group (ids ++ more) = onTestSide group ids := by
  rw [onTestSide_eq, onTestSide_eq] at same
  rw [onTestSide_eq, onTestSide_eq, filterMap_append]
  generalize ids.filterMap (ChunkBuilder.entityTestInfo group) = markers at same ⊢
  generalize more.filterMap (ChunkBuilder.entityTestInfo group) = others at same ⊢
  by_cases none : markers = []
  · rw [if_pos none] at same ⊢
    rw [none, nil_append]
    exact same.symm
  · rw [if_neg none] at same ⊢
    rw [if_neg (by simp [none]), any_append]
    by_cases noneMore : others = []
    · rw [noneMore, any_nil, Bool.or_false]
    · rw [if_neg noneMore] at same
      rw [← same, Bool.or_self]

end Sides

section Packing

variable [CostModel] (group : CodeGroup) (budget : ChunkBudget) (path : ChunkPath)
  (last segment : ChunkSegment)

/-- The ceiling under which two neighbours may be merged. -/
def applicableCeiling : Nat :=
  if last.boundary.entityIds ≠ [] ∧ last.boundary.entityIds = segment.boundary.entityIds then
    max budget.preInjectionLimit budget.mergeLimit
  else budget.mergeLimit

/-- A block of neighbours of one side and the segment it became: a single one as it was, or one that
is within the ceiling of its last merge. A ceiling of zero does not bound it. -/
structure MergedBlock (block : List ChunkSegment) (segment : ChunkSegment) : Prop where
  text : segment.text = block.flatMap ChunkSegment.text
  entityIds : segment.boundary.entityIds = block.flatMap fun s => s.boundary.entityIds
  span : ∃ first last, block.head? = some first ∧ block.getLast? = some last ∧
    segment.boundary.startByte = first.boundary.startByte ∧
      segment.boundary.endByte = last.boundary.endByte
  side : ∀ s ∈ block,
    onTestSide group s.boundary.entityIds = onTestSide group segment.boundary.entityIds
  ceiling : block = [segment] ∨ ∃ last next, segment = joinSegments path last next ∧
    (applicableCeiling budget last next = 0 ∨
      ChunkingConfig.cost segment.text path ≤ applicableCeiling budget last next)

def OwnedBy (id : EntityId) (segment : ChunkSegment) : Prop :=
  segment.boundary.entityIds ≠ [] ∧ ∀ other ∈ segment.boundary.entityIds, other = id

def FragmentsFit : Prop :=
  (∃ id, OwnedBy id last ∧ OwnedBy id segment) ∧
    onTestSide group last.boundary.entityIds = onTestSide group segment.boundary.entityIds ∧
      ChunkingConfig.cost (last.text ++ segment.text) path ≤ budget.preInjectionLimit

/-- The states that the loop reaches from a state: the segment that may grow, and those to come. -/
inductive Reaches : ChunkSegment → List ChunkSegment → ChunkSegment → List ChunkSegment → Prop
  | refl (last : ChunkSegment) (rest : List ChunkSegment) : Reaches last rest last rest
  | takes {last segment last' : ChunkSegment} {rest rest' : List ChunkSegment}
      (merges : mergesSegments group budget path last segment = true)
      (later : Reaches (joinSegments path last segment) rest last' rest') :
      Reaches last (segment :: rest) last' rest'
  | parts {last segment last' : ChunkSegment} {rest rest' : List ChunkSegment}
      (refuses : mergesSegments group budget path last segment = false)
      (later : Reaches segment rest last' rest') : Reaches last (segment :: rest) last' rest'

/-- Each of the segments is taken by what is in front of it. -/
def Grows (first : ChunkSegment) : List ChunkSegment → Prop
  | [] => True
  | segment :: more => mergesSegments group budget path first segment = true ∧
    Grows (joinSegments path first segment) more

def joinAll (first : ChunkSegment) (more : List ChunkSegment) : ChunkSegment :=
  more.foldl (joinSegments path) first

def Refuses (last : ChunkSegment) (behind : List ChunkSegment) : Prop :=
  ∀ segment ∈ behind.head?, mergesSegments group budget path last segment = false

/-- The loop parts a segment from the next one, whose entity list is another one, although the
stretch that grows from the next one is of the same entity and fits. -/
def Misparts (rest : List ChunkSegment) : Prop :=
  mergesSegments group budget path last segment = false ∧
    (last.boundary.entityIds ≠ segment.boundary.entityIds ∨
      max budget.preInjectionLimit budget.mergeLimit = 0) ∧
        ∃ more behind, rest = more ++ behind ∧ Grows group budget path segment more ∧
          Refuses group budget path (joinAll path segment more) behind ∧
            FragmentsFit group budget path last (joinAll path segment more)

/-- In no state of the loop is a fragment parted that way. -/
def NeverMisparts (segments : List ChunkSegment) : Prop :=
  ∀ first others, segments = first :: others → ∀ last segment rest,
    Reaches group budget path first others last (segment :: rest) →
      ¬Misparts group budget path last segment rest

variable {group budget path} {last segment : ChunkSegment}

theorem mergesSegments_spec (merges : mergesSegments group budget path last segment = true) :
    onTestSide group last.boundary.entityIds = onTestSide group segment.boundary.entityIds ∧
      (applicableCeiling budget last segment = 0 ∨
        ChunkingConfig.cost (last.text ++ segment.text) path ≤
          applicableCeiling budget last segment) := by
  unfold mergesSegments at merges
  simp only [Bool.and_eq_true] at merges
  obtain ⟨side, can⟩ := merges
  have ceiling : (if (!last.boundary.entityIds.isEmpty) = true ∧
      decide (last.boundary.entityIds = segment.boundary.entityIds) = true then
        max budget.preInjectionLimit budget.mergeLimit else budget.mergeLimit) =
          applicableCeiling budget last segment := by
    unfold applicableCeiling
    simp
  rw [ceiling] at can
  refine ⟨of_decide_eq_true side, ?_⟩
  unfold canMergeWithCeiling at can
  simp only at can
  split_ifs at can with unbounded above
  · exact Or.inl unbounded
  · exact Or.inr (Nat.le_of_not_lt above)

variable (group budget path) in
theorem mergedBlock_single (segment : ChunkSegment) :
    MergedBlock group budget path [segment] segment where
  text := by simp
  entityIds := by simp
  span := ⟨segment, segment, rfl, rfl, rfl, rfl⟩
  side s mem := by rw [mem_singleton.1 mem]
  ceiling := Or.inl rfl

theorem MergedBlock.join {block : List ChunkSegment}
    (merged : MergedBlock group budget path block last)
    (merges : mergesSegments group budget path last segment = true) :
    MergedBlock group budget path (block ++ [segment]) (joinSegments path last segment) := by
  obtain ⟨side, ceiling⟩ := mergesSegments_spec merges
  have together := onTestSide_append group side
  obtain ⟨first, before, head, -, start, -⟩ := merged.span
  exact {
    text := by
      rw [flatMap_append, ← merged.text]
      simp [joinSegments]
    entityIds := by
      rw [flatMap_append, ← merged.entityIds]
      simp [joinSegments]
    span := ⟨first, segment, by rw [head?_append, head]; rfl, by simp, start, rfl⟩
    side := fun s mem => by
      refine Eq.trans ?_ together.symm
      rcases mem_append.1 mem with old | new
      · exact merged.side s old
      · rw [mem_singleton.1 new]
        exact side.symm
    ceiling := Or.inr ⟨last, segment, rfl, ceiling⟩ }

theorem exists_blocks_mergeInto {block : List ChunkSegment} (rest : List ChunkSegment)
    (merged : MergedBlock group budget path block last) :
    ∃ blocks, blocks.flatten = block ++ rest ∧ List.Forall₂ (MergedBlock group budget path) blocks
        (mergeInto group budget path last rest) := by
  induction rest generalizing block last with
  | nil => exact ⟨[block], by simp, .cons merged .nil⟩
  | cons segment rest ih =>
    rw [mergeInto]
    split_ifs with merges
    · obtain ⟨blocks, same, related⟩ := ih (merged.join merges)
      exact ⟨blocks, by rw [same]; simp, related⟩
    · obtain ⟨blocks, same, related⟩ := ih (mergedBlock_single group budget path segment)
      exact ⟨block :: blocks, by rw [flatten_cons, same]; rfl, .cons merged related⟩

theorem mergesSegments_of_sameUnit
    (side : onTestSide group last.boundary.entityIds = onTestSide group segment.boundary.entityIds)
    (owned : last.boundary.entityIds ≠ [])
    (same : last.boundary.entityIds = segment.boundary.entityIds)
    (bounded : max budget.preInjectionLimit budget.mergeLimit ≠ 0)
    (fits : ChunkingConfig.cost (last.text ++ segment.text) path ≤ budget.preInjectionLimit) :
    mergesSegments group budget path last segment = true := by
  have unit : (!last.boundary.entityIds.isEmpty &&
      last.boundary.entityIds = segment.boundary.entityIds) = true := by simp [← same, owned]
  have within : ¬max budget.preInjectionLimit budget.mergeLimit <
      ChunkingConfig.cost (last.text ++ segment.text) path :=
    Nat.not_lt_of_le (Nat.le_trans fits (Nat.le_max_left _ _))
  unfold mergesSegments
  simp only [unit, if_true, canMergeWithCeiling, if_neg bounded, if_neg within, Bool.true_or,
    Bool.and_true]
  exact decide_eq_true side

section Stretches

variable {more behind rest : List ChunkSegment}

variable (group budget path) in
theorem exists_stretch (last : ChunkSegment) (rest : List ChunkSegment) :
    ∃ more behind, rest = more ++ behind ∧ Grows group budget path last more ∧
      Refuses group budget path (joinAll path last more) behind := by
  induction rest generalizing last with
  | nil => exact ⟨[], [], rfl, trivial, fun _ none => nomatch none⟩
  | cons segment rest ih =>
    cases merges : mergesSegments group budget path last segment with
    | true =>
      obtain ⟨more, behind, rfl, grows, refuses⟩ := ih (joinSegments path last segment)
      exact ⟨segment :: more, behind, rfl, ⟨merges, grows⟩, refuses⟩
    | false =>
      exact ⟨[], segment :: rest, rfl, trivial, fun _ first => Option.some.inj first ▸ merges⟩

theorem head?_mergeInto (grows : Grows group budget path last more)
    (refuses : Refuses group budget path (joinAll path last more) behind) :
    (mergeInto group budget path last (more ++ behind)).head? = some (joinAll path last more) := by
  induction more generalizing last with
  | nil =>
    cases behind with
    | nil => rfl
    | cons segment behind =>
      have stops : mergesSegments group budget path last segment = false := refuses segment rfl
      rw [nil_append, mergeInto, if_neg (stops ▸ Bool.false_ne_true)]
      rfl
  | cons segment more ih =>
    rw [cons_append, mergeInto, if_pos grows.1]
    exact ih grows.2 refuses

theorem Grows.joinAll (grows : Grows group budget path segment more) :
    onTestSide group (joinAll path segment more).boundary.entityIds =
      onTestSide group segment.boundary.entityIds ∧
        ∃ others, (ContextEngine.joinAll path segment more).text = segment.text ++ others := by
  induction more generalizing segment with
  | nil => exact ⟨rfl, [], (append_nil _).symm⟩
  | cons next more ih =>
    obtain ⟨side, others, text⟩ := ih grows.2
    refine ⟨side.trans (onTestSide_append group (mergesSegments_spec grows.1).1),
      next.text ++ others, ?_⟩
    exact text.trans (append_assoc _ _ _)

/-- Fragments that fit together are parted only where their entity lists differ, or where nothing
is bounded. -/
theorem differ_of_parted (prefixes : ∀ front rest : Text,
      ChunkingConfig.cost front path ≤ ChunkingConfig.cost (front ++ rest) path)
    (refuses : mergesSegments group budget path last segment = false)
    (grows : Grows group budget path segment more)
    (fit : FragmentsFit group budget path last (joinAll path segment more)) :
    last.boundary.entityIds ≠ segment.boundary.entityIds ∨
      max budget.preInjectionLimit budget.mergeLimit = 0 := by
  obtain ⟨⟨id, owned, -⟩, sides, fits⟩ := fit
  obtain ⟨side, others, text⟩ := grows.joinAll
  by_contra alike
  rw [not_or, not_not] at alike
  have shorter := prefixes (last.text ++ segment.text) others
  rw [append_assoc, ← text] at shorter
  have merges := mergesSegments_of_sameUnit (sides.trans side) owned.1 alike.1 alike.2
    (Nat.le_trans shorter fits)
  rw [refuses] at merges
  cases merges

/-- At a refusal, the next segment put out fits behind the one before it exactly where the loop
parts them wrongly. -/
theorem misparts_iff (prefixes : ∀ front rest : Text,
      ChunkingConfig.cost front path ≤ ChunkingConfig.cost (front ++ rest) path)
    (refuses : mergesSegments group budget path last segment = false) :
    Misparts group budget path last segment rest ↔
      ∃ next ∈ (mergeInto group budget path segment rest).head?,
        FragmentsFit group budget path last next := by
  constructor
  · rintro ⟨-, -, more, behind, rfl, grows, stops, fit⟩
    exact ⟨_, head?_mergeInto grows stops, fit⟩
  · rintro ⟨next, first, fit⟩
    obtain ⟨more, behind, rfl, grows, stops⟩ := exists_stretch group budget path segment rest
    rw [head?_mergeInto grows stops] at first
    obtain rfl := Option.some.inj first
    exact ⟨refuses, differ_of_parted prefixes refuses grows fit, more, behind, rfl, grows, stops,
      fit⟩

theorem isChain_mergeInto_iff (prefixes : ∀ front rest : Text,
      ChunkingConfig.cost front path ≤ ChunkingConfig.cost (front ++ rest) path) :
    (mergeInto group budget path last rest).IsChain
        (fun a b => ¬FragmentsFit group budget path a b) ↔
      ∀ last' segment rest', Reaches group budget path last rest last' (segment :: rest') →
        ¬Misparts group budget path last' segment rest' := by
  induction rest generalizing last with
  | nil => exact iff_of_true (isChain_singleton last) fun _ _ _ reached => nomatch reached
  | cons segment rest ih =>
    rw [mergeInto]
    split_ifs with merges
    · rw [ih]
      refine ⟨fun never last' next rest' reached => ?_,
        fun never last' next rest' reached => never last' next rest' (.takes merges reached)⟩
      cases reached with
      | refl => exact fun misparts => Bool.false_ne_true (misparts.1.symm.trans merges)
      | takes _ later => exact never last' next rest' later
      | parts refuses _ => exact absurd merges (refuses ▸ Bool.false_ne_true)
    · have refuses := Bool.eq_false_of_not_eq_true merges
      have apart : (∀ next ∈ (mergeInto group budget path segment rest).head?,
          ¬FragmentsFit group budget path last next) ↔
            ¬Misparts group budget path last segment rest := by
        rw [misparts_iff prefixes refuses]
        simp only [not_exists, not_and]
      rw [isChain_cons, ih, apart]
      constructor
      · rintro ⟨here, never⟩ last' next rest' reached
        cases reached with
        | refl => exact here
        | takes taken _ => exact absurd taken merges
        | parts _ later => exact never last' next rest' later
      · exact fun never => ⟨never last segment rest (.refl _ _),
          fun last' next rest' reached => never last' next rest' (.parts refuses reached)⟩

end Stretches

section Sample

/-- One for each character. -/
@[reducible] def oneForEach : CostModel where
  cost _ text := text.length
  cost_nil _ := rfl

/-- Twelve in a chunk, two make a fragment large enough, and other neighbours stop at six. -/
def packingConfig : ChunkingConfig where
  maxTokens := 12
  maxBm25Terms := 12
  overlapBm25Terms := 0
  minChunkTokens := 2
  minChunkBm25Terms := 2
  crossGroupMergeThreshold := 6
  reserveShare _ := 0

def packingBudget : ChunkBudget := packingConfig.budgetWithReserve .embedding 0 0

def methodGroup : CodeGroup where
  groupId := "group"
  name := "method"
  nestedGroups := []
  kind := .method
  groupType := .standalone
  headerId := none
  memberIds := [1]
  header := none
  members := []
  entitySpans := ∅
  parentGroupId := none
  testInfo := .unknown

def fragmentOfFour (n : Nat) : ChunkSegment :=
  ⟨.of (4 * n) (4 * n + 4) .memberBoundary 4 [1] none, "abc ".toList⟩

/-- A segment without an entity between two of one, none of which is taken by the first. -/
def regrownFragments : List ChunkSegment :=
  [⟨.of 0 6 .memberBoundary 6 [1] none, "abcde ".toList⟩,
    ⟨.of 6 7 .memberBoundary 1 [] none, " ".toList⟩,
    ⟨.of 7 10 .memberBoundary 3 [1] none, "fg ".toList⟩,
    ⟨.of 10 18 .memberBoundary 8 [1] none, "hijklmn ".toList⟩]

end Sample

end Packing

end ContextEngine

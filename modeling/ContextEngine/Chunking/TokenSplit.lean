/- digest: What a piece of text costs, and cutting a range of text at a limit or a natural boundary.
   -/

import ContextEngine.Lib.Offsets
import ContextEngine.Lib.Tiling
import ContextEngine.Types.Source

set_option autoImplicit false

namespace ContextEngine

open List Offsets

/-- The characters of a text; positions in it are byte offsets. -/
abbrev Text := List Char

def isWhitespace (c : Char) : Bool :=
  (9 ≤ c.toNat && c.toNat ≤ 13) || c.toNat = 0x20 || c.toNat = 0x85 || c.toNat = 0xA0 ||
    c.toNat = 0x1680 || (0x2000 ≤ c.toNat && c.toNat ≤ 0x200A) || c.toNat = 0x2028 ||
    c.toNat = 0x2029 || c.toNat = 0x202F || c.toNat = 0x205F || c.toNat = 0x3000

def trimEnd (text : Text) : Text := text.rdropWhile isWhitespace

def trim (text : Text) : Text := trimEnd (text.dropWhile isWhitespace)

inductive ChunkPath where
  | bm25 | embedding
  deriving DecidableEq

inductive ChunkUnit where
  | tokens | terms
  deriving DecidableEq

/-- `ChunkUnit::cost`: the token estimate and the number of indexed positions. -/
class CostModel where
  cost : ChunkUnit → Text → Nat
  cost_nil : ∀ unit, cost unit [] = 0

@[reducible] def quarterTokens : CostModel where
  cost
    | .tokens, text => (text.length + 3) / 4
    | .terms, text => ((text.splitOnP isWhitespace).filter (· ≠ [])).length
  cost_nil := by
    intro unit
    cases unit <;> rfl

namespace ChunkUnit

variable [CostModel]

def cost (unit : ChunkUnit) (text : Text) : Nat := CostModel.cost unit text

@[simp] theorem cost_nil (unit : ChunkUnit) : unit.cost [] = 0 := CostModel.cost_nil unit

/-- A limit of zero disables the check. -/
def fits (unit : ChunkUnit) (text : Text) (limit : Nat) : Bool :=
  limit = 0 || unit.cost text ≤ limit

end ChunkUnit

section Truncate

variable (text : Text)

def byteAtChar (charIndex : Nat) : Nat :=
  (((indices 0 text)[charIndex]?).map Prod.fst).getD (extent text)

def searchFitting (fitsAt : Nat → Bool) (lo hi : Nat) : Nat :=
  if lo < hi then
    let mid := lo + (hi - lo + 1) / 2
    if fitsAt mid then searchFitting fitsAt mid hi else searchFitting fitsAt lo (mid - 1)
  else lo
termination_by hi - lo

theorem cut_byteAtChar (charIndex : Nat) : Cut text (byteAtChar text charIndex) := by
  rw [byteAtChar]
  cases found : (indices 0 text)[charIndex]? with
  | none => exact Cut.end text
  | some entry =>
    obtain ⟨before, after, split, reaches⟩ :=
      mem_indices.1 (mem_of_getElem? found : (entry.1, entry.2) ∈ indices 0 text)
    exact ⟨before, entry.2 :: after, split, by simp [reaches]⟩

theorem byteAtChar_zero : byteAtChar text 0 = 0 := by
  cases text <;> rfl

theorem searchFitting_fits {fitsAt : Nat → Bool} {lo : Nat} (low : fitsAt lo = true) (hi : Nat) :
    fitsAt (searchFitting fitsAt lo hi) = true := by
  fun_induction searchFitting fitsAt lo hi with
  | case1 lo hi lt mid fitsMid ih => exact ih fitsMid
  | case2 lo hi lt mid misses ih => exact ih low
  | case3 lo hi done => exact low

variable [CostModel]

def scanFitting (unit : ChunkUnit) (text : Text) (limit best : Nat) : Text → Nat
  | [] => best
  | c :: rest =>
    let next := best + c.utf8Size
    if limit < unit.cost (slice text 0 next) then best
    else scanFitting unit text limit next rest

def truncateToCost (unit : ChunkUnit) (text : Text) (limit : Nat) : Text :=
  if limit = 0 ∨ unit.cost text ≤ limit then text
  else
    let lo := searchFitting (fun mid => unit.cost (slice text 0 (byteAtChar text mid)) ≤ limit) 0
      text.length
    let best := byteAtChar text lo
    slice text 0 (scanFitting unit text limit best (dropTo text best))

def suffixStartFrom (unit : ChunkUnit) (text : Text) (limit best : Nat) : List Nat → Nat
  | [] => best
  | index :: rest =>
    if limit < unit.cost (slice text index (extent text)) then best
    else suffixStartFrom unit text limit index rest

def suffixStartForCost (unit : ChunkUnit) (text : Text) (limit : Nat) : Nat :=
  if limit = 0 then extent text
  else suffixStartFrom unit text limit (extent text) ((indices 0 text).reverse.map Prod.fst)

variable (unit : ChunkUnit)

private theorem scanFitting_spec (limit : Nat) (before rest : Text)
    (fitsBefore : unit.cost before ≤ limit) :
    ∃ front, front <+: before ++ rest ∧ unit.cost front ≤ limit ∧
      scanFitting unit (before ++ rest) limit (extent before) rest = extent front := by
  induction rest generalizing before with
  | nil => exact ⟨before, ⟨[], rfl⟩, fitsBefore, rfl⟩
  | cons c rest ih =>
    have same : before ++ c :: rest = (before ++ [c]) ++ rest := by simp
    have next : extent before + c.utf8Size = extent (before ++ [c]) := by
      rw [extent_append]
      rfl
    rw [scanFitting]
    by_cases exceeds :
      limit < unit.cost (slice (before ++ c :: rest) 0 (extent before + c.utf8Size))
    · rw [if_pos exceeds]
      exact ⟨before, ⟨c :: rest, rfl⟩, fitsBefore, rfl⟩
    · rw [if_neg exceeds]
      rw [same, next, slice_front (before ++ [c]) rest] at exceeds
      rw [same, next]
      exact ih (before ++ [c]) (Nat.le_of_not_lt exceeds)

variable (text : Text)

private theorem truncateToCost_spec (limit : Nat) :
    truncateToCost unit text limit <+: text ∧
      (limit ≠ 0 → unit.cost (truncateToCost unit text limit) ≤ limit) := by
  rw [truncateToCost]
  by_cases whole : limit = 0 ∨ unit.cost text ≤ limit
  · rw [if_pos whole]
    exact ⟨List.prefix_rfl, fun positive => whole.resolve_left positive⟩
  · rw [if_neg whole]
    have empty : decide (unit.cost (slice text 0 (byteAtChar text 0)) ≤ limit) = true := by
      rw [byteAtChar_zero, slice_self (Cut.zero text)]
      simp
    have lowFits := @searchFitting_fits
      (fun mid => decide (unit.cost (slice text 0 (byteAtChar text mid)) ≤ limit)) 0 empty
      text.length
    rw [decide_eq_true_eq] at lowFits
    generalize searchFitting _ 0 text.length = lo at lowFits ⊢
    obtain ⟨before, rest, rfl, reaches⟩ := cut_byteAtChar text lo
    rw [← reaches, slice_front before rest] at lowFits
    obtain ⟨front, isFront, fitsFront, scanned⟩ := scanFitting_spec unit limit before rest lowFits
    simp only [← reaches, dropTo_append, scanned]
    obtain ⟨back, parts⟩ := isFront
    rw [← parts, slice_front front back]
    exact ⟨⟨back, rfl⟩, fun _ => fitsFront⟩

theorem truncateToCost_isFront (limit : Nat) :
    truncateToCost unit text limit <+: text := (truncateToCost_spec unit text limit).1

theorem cost_truncateToCost {limit : Nat} (positive : limit ≠ 0) :
    unit.cost (truncateToCost unit text limit) ≤ limit :=
  (truncateToCost_spec unit text limit).2 positive

private theorem cut_suffixStartFrom {unit : ChunkUnit} {text : Text} {limit best : Nat}
    {positions : List Nat} (cut : Cut text best) (cuts : ∀ p ∈ positions, Cut text p) :
    Cut text (suffixStartFrom unit text limit best positions) := by
  induction positions generalizing best with
  | nil => exact cut
  | cons index rest ih =>
    rw [suffixStartFrom]
    split
    · exact cut
    · exact ih (cuts index mem_cons_self) fun p isMem => cuts p (mem_cons_of_mem _ isMem)

theorem cut_suffixStartForCost (limit : Nat) :
    Cut text (suffixStartForCost unit text limit) := by
  rw [suffixStartForCost]
  split
  · exact Cut.end text
  · apply cut_suffixStartFrom (Cut.end text)
    intro p isMem
    obtain ⟨⟨offset, c⟩, inIndices, rfl⟩ := mem_map.1 isMem
    obtain ⟨before, after, split, reaches⟩ := mem_indices.1 (mem_reverse.1 inIndices)
    exact ⟨before, c :: after, split, by simp [reaches]⟩

end Truncate

/-- The limits the chunkers read. `reserveShare` is the share of a limit kept for terminology, as a
function of the limit. -/
structure ChunkingConfig where
  maxTokens : Nat
  maxBm25Terms : Nat
  overlapBm25Terms : Nat
  minChunkTokens : Nat
  minChunkBm25Terms : Nat
  crossGroupMergeThreshold : Nat
  reserveShare : Nat → Nat

structure ChunkBudget where
  unit : ChunkUnit
  hardLimit : Nat
  reserve : Nat
  decorationCost : Nat
  preInjectionLimit : Nat
  bodyLimit : Nat
  minLimit : Nat
  mergeLimit : Nat

namespace ChunkingConfig

variable (config : ChunkingConfig)

def unit : ChunkPath → ChunkUnit
  | .bm25 => .terms
  | .embedding => .tokens

def limit : ChunkPath → Nat
  | .bm25 => config.maxBm25Terms
  | .embedding => config.maxTokens

def cost [CostModel] (text : Text) (path : ChunkPath) : Nat := (unit path).cost text

variable (path : ChunkPath)

def glossaryReserve : Nat :=
  if config.limit path = 0 then 0
  else min (config.reserveShare (config.limit path)) (config.limit path - 1)

def budgetWithReserve (reserve decorationCost : Nat) : ChunkBudget :=
  let limit := config.limit path
  if limit = 0 then
    { unit := unit path, hardLimit := 0, reserve := 0, decorationCost := 0
      preInjectionLimit := usizeMax, bodyLimit := usizeMax, minLimit := 0, mergeLimit := usizeMax }
  else
    let capped := min reserve (limit - 1)
    let bodyLimit := max (limit - capped - decorationCost) 1
    { unit := unit path, hardLimit := limit, reserve := capped, decorationCost
      preInjectionLimit := limit - capped
      bodyLimit
      minLimit := match path with
        | .bm25 => config.minChunkBm25Terms
        | .embedding => config.minChunkTokens
      mergeLimit := match path with
        | .bm25 => bodyLimit
        | .embedding =>
          if config.crossGroupMergeThreshold = 0 then bodyLimit
          else min config.crossGroupMergeThreshold bodyLimit }

def budget (hasVocabulary : Bool) (decorationCost : Nat) : ChunkBudget :=
  config.budgetWithReserve path (if hasVocabulary then config.glossaryReserve path else 0)
    decorationCost

end ChunkingConfig

section Ranges

variable [CostModel]

/-- Where the range of `split_to_fit` that starts at `start` ends. -/
def fittingEnd (unit : ChunkUnit) (limit : Nat) (text : Text) (start : Nat) : Nat :=
  let remaining := slice text start (extent text)
  let stop := start + extent (truncateToCost unit remaining limit)
  if stop ≤ start then
    match remaining.head? with
    | some c => start + c.utf8Size
    | none => extent text
  else stop

theorem lt_fittingEnd (unit : ChunkUnit) (limit : Nat) (text : Text) {start : Nat}
    (lt : start < extent text) : start < fittingEnd unit limit text start := by
  rw [fittingEnd]
  generalize start + extent (truncateToCost unit (slice text start (extent text)) limit) = stop
  split
  · cases slice text start (extent text) with
    | nil => exact lt
    | cons c rest =>
      have wide := c.utf8Size_pos
      simp only [head?_cons]
      omega
  · omega

/-- The loop of `split_to_fit`. -/
def fittingRangesFrom (unit : ChunkUnit) (limit : Nat) (text : Text) (start : Nat) :
    List (Nat × Nat) :=
  if start < extent text then
    let stop := fittingEnd unit limit text start
    (start, stop) ::
      if extent text ≤ stop then [] else fittingRangesFrom unit limit text stop
  else []
termination_by extent text - start
decreasing_by
  have later := lt_fittingEnd unit limit text ‹_›
  omega

def splitToFit (unit : ChunkUnit) (limit : Nat) (text : Text) : List (Nat × Nat) :=
  if text.isEmpty then []
  else if limit = 0 then [(0, extent text)]
  else fittingRangesFrom unit limit text 0

/-- Adding characters to a front part of the text does not make it cheaper. -/
def GrowsWithin (unit : ChunkUnit) (text : Text) : Prop :=
  ∀ front back, front <+: back → back <+: text → unit.cost front ≤ unit.cost back

/-- A fitting front part that one more character makes too dear, and the longest fitting one where
the cost never falls. -/
structure CutToLimit (unit : ChunkUnit) (limit : Nat) (text front : Text) : Prop where
  isFront : front <+: text
  fits : unit.cost front ≤ limit
  full : ∀ c rest, text = front ++ c :: rest → limit < unit.cost (front ++ [c])
  longest : GrowsWithin unit text → ∀ other, other <+: text → unit.cost other ≤ limit →
    other <+: front

/-- Proper ranges of characters, one after the other over the whole text, each within the limit or
of one character. -/
structure FittingRanges (unit : ChunkUnit) (limit : Nat) (text : Text) (ranges : List (Nat × Nat)) :
    Prop where
  tiles : Tiles Prod.fst Prod.snd 0 (extent text) ranges
  aligned : ∀ range ∈ ranges, Cut text range.1 ∧ Cut text range.2
  within : ∀ range ∈ ranges, unit.cost (slice text range.1 range.2) ≤ limit ∨
    ∃ c, slice text range.1 range.2 = [c]

variable {unit : ChunkUnit} {limit : Nat} {text : Text}

theorem scanFitting_full (unit : ChunkUnit) (limit : Nat) (before rest : Text) :
    ∃ front back, front ++ back = before ++ rest ∧
      scanFitting unit (before ++ rest) limit (extent before) rest = extent front ∧
      ∀ c, back.head? = some c → limit < unit.cost (front ++ [c]) := by
  induction rest generalizing before with
  | nil => exact ⟨before, [], rfl, rfl, fun c none => by cases none⟩
  | cons c rest ih =>
    have same : before ++ c :: rest = (before ++ [c]) ++ rest := by simp
    have next : extent before + c.utf8Size = extent (before ++ [c]) := by
      rw [extent_append]
      rfl
    rw [scanFitting]
    by_cases exceeds :
        limit < unit.cost (slice (before ++ c :: rest) 0 (extent before + c.utf8Size))
    · rw [if_pos exceeds]
      refine ⟨before, c :: rest, rfl, rfl, fun d first => ?_⟩
      obtain rfl := Option.some.inj first
      rwa [same, next, slice_front (before ++ [c]) rest] at exceeds
    · rw [if_neg exceeds, same, next]
      exact ih (before ++ [c])

theorem truncateToCost_full {front : Text} {c : Char} {rest : Text}
    (cut : truncateToCost unit text limit = front) (whole : text = front ++ c :: rest) :
    limit < unit.cost (front ++ [c]) := by
  rw [truncateToCost] at cut
  split at cut
  · rw [cut] at whole
    have lengths := congrArg length whole
    simp at lengths
  · generalize searchFitting _ 0 text.length = lo at cut
    simp only at cut
    obtain ⟨before, behind, parts, reaches⟩ := cut_byteAtChar text lo
    rw [← reaches] at cut
    subst parts
    obtain ⟨front', back, same, scanned, full⟩ := scanFitting_full unit limit before behind
    simp only [dropTo_append, scanned] at cut
    rw [← same, slice_front front' back] at cut
    subst cut
    rw [← same] at whole
    exact full c (by rw [append_cancel_left whole]; rfl)

theorem cutToLimit_truncateToCost (positive : limit ≠ 0) :
    CutToLimit unit limit text (truncateToCost unit text limit) where
  isFront := truncateToCost_isFront unit text limit
  fits := cost_truncateToCost unit text positive
  full c rest whole := truncateToCost_full rfl whole
  longest grows other isFront fits := by
    obtain ⟨back, whole⟩ := truncateToCost_isFront unit text limit
    rcases List.prefix_or_prefix_of_prefix isFront ⟨back, whole⟩ with shorter | ⟨more, longer⟩
    · exact shorter
    · cases more with
      | nil => exact ⟨[], by simpa using longer.symm⟩
      | cons c more =>
        obtain ⟨behind, rest⟩ := isFront
        have whole' : text = truncateToCost unit text limit ++ c :: (more ++ behind) := by
          conv_lhs => rw [← rest, ← longer]
          rw [append_assoc, cons_append]
        have dear : limit < unit.cost (truncateToCost unit text limit ++ [c]) :=
          truncateToCost_full rfl whole'
        have cheaper := grows (truncateToCost unit text limit ++ [c]) other
          ⟨more, by rw [← longer]; simp⟩ ⟨behind, rest⟩
        omega

theorem fittingEnd_spec {start : Nat} (positive : limit ≠ 0) (cut : Cut text start)
    (lt : start < extent text) :
    Cut text (fittingEnd unit limit text start) ∧
      (unit.cost (slice text start (fittingEnd unit limit text start)) ≤ limit ∨
        ∃ c, slice text start (fittingEnd unit limit text start) = [c]) := by
  have isFront := truncateToCost_isFront unit (slice text start (extent text)) limit
  have cheap := cost_truncateToCost unit (slice text start (extent text)) positive
  rw [fittingEnd]
  generalize truncateToCost unit (slice text start (extent text)) limit = front at isFront cheap ⊢
  split
  · cases remaining : slice text start (extent text) with
    | nil => exact absurd remaining (slice_ne_nil cut (Cut.end text) lt)
    | cons c rest =>
      have first : [c] <+: slice text start (extent text) := ⟨rest, by rw [remaining]; rfl⟩
      obtain ⟨cutNext, -, same⟩ := slice_of_front cut (Cut.end text) cut.le first
      exact ⟨cutNext, Or.inr ⟨c, same⟩⟩
  · obtain ⟨cutNext, -, same⟩ := slice_of_front cut (Cut.end text) cut.le isFront
    exact ⟨cutNext, Or.inl (by rw [same]; exact cheap)⟩

theorem fittingRangesFrom_spec (unit : ChunkUnit) (text : Text) (positive : limit ≠ 0) (start : Nat)
    (cut : Cut text start) :
    Tiles Prod.fst Prod.snd start (extent text) (fittingRangesFrom unit limit text start) ∧
      ∀ range ∈ fittingRangesFrom unit limit text start, (Cut text range.1 ∧ Cut text range.2) ∧
          (unit.cost (slice text range.1 range.2) ≤ limit ∨
            ∃ c, slice text range.1 range.2 = [c]) := by
  fun_induction fittingRangesFrom unit limit text start with
  | case1 start lt stop ih =>
    have proper : start < stop := lt_fittingEnd unit limit text lt
    obtain ⟨cutStop, within⟩ : Cut text stop ∧ _ := fittingEnd_spec positive cut lt
    by_cases ends : extent text ≤ stop
    · rw [if_pos ends]
      refine ⟨Tiles.single rfl (Nat.le_antisymm cutStop.le ends) lt, fun range mem => ?_⟩
      rw [mem_singleton.1 mem]
      exact ⟨⟨cut, cutStop⟩, within⟩
    · rw [if_neg ends]
      obtain ⟨tiles, all⟩ := ih ends cutStop
      refine ⟨Tiles.cons rfl proper tiles, fun range mem => ?_⟩
      rcases mem_cons.1 mem with rfl | later
      · exact ⟨⟨cut, cutStop⟩, within⟩
      · exact all range later
  | case2 start done =>
    have same : start = extent text := Nat.le_antisymm cut.le (Nat.le_of_not_lt done)
    rw [same]
    exact ⟨Tiles.nil _, fun range mem => absurd mem not_mem_nil⟩

/-- Cutting to a positive limit, once and into ranges, whatever the cost function. -/
theorem truncation_correct (unit : ChunkUnit) (text : Text) (limit : Nat) (positive : 0 < limit) :
    CutToLimit unit limit text (truncateToCost unit text limit) ∧
      FittingRanges unit limit text (splitToFit unit limit text) := by
  have nonzero : limit ≠ 0 := Nat.ne_of_gt positive
  refine ⟨cutToLimit_truncateToCost nonzero, ?_⟩
  unfold splitToFit
  cases text with
  | nil =>
    exact ⟨Tiles.nil 0, fun range mem => absurd mem not_mem_nil,
      fun range mem => absurd mem not_mem_nil⟩
  | cons c rest =>
    rw [if_neg (by simp), if_neg nonzero]
    obtain ⟨tiles, all⟩ := fittingRangesFrom_spec unit (c :: rest) nonzero 0 (Cut.zero _)
    exact ⟨tiles, fun range mem => (all range mem).1, fun range mem => (all range mem).2⟩

end Ranges

/-- Four characters to a token: eight characters cut to one token. -/
theorem truncation_correct_word :
    @CutToLimit quarterTokens .tokens 1 "abcdefgh".toList "abcd".toList ∧
      @FittingRanges quarterTokens .tokens 1 "abcdefgh".toList [(0, 4), (4, 8)] := by
  have cut : @truncateToCost quarterTokens .tokens "abcdefgh".toList 1 = "abcd".toList := by
    decide +kernel
  have ranges : @splitToFit quarterTokens .tokens 1 "abcdefgh".toList = [(0, 4), (4, 8)] := by
    decide +kernel
  have correct := @truncation_correct quarterTokens .tokens "abcdefgh".toList 1 (by decide)
  rw [cut, ranges] at correct
  exact correct

def clamp (value low high : Nat) : Nat := min (max value low) high

def floorCharBoundary (text : Text) (position : Nat) : Nat :=
  floorCut text (min position (extent text))

def newline : Text := ['\n']

def blankLine : Text := ['\n', '\n']

def rfindText (pattern text : Text) : Option Nat := rfind (fun rest => pattern.isPrefixOf rest) text

def isSentenceEnd (c : Char) : Bool := c ∈ ['.', '!', '?', '。', '！', '？']

/-- A text may be cut after white space and after the end of a sentence. -/
def isBreak (c : Char) : Bool := isWhitespace c || isSentenceEnd c

namespace TokenSplit

def findPrecedingLineStart (text : Text) (start stop : Nat) (marker : Text) : Option Nat :=
  (rfindText marker (slice text start stop)).map fun rel =>
    let lineStart := match rfindText newline (slice text start (start + rel)) with
      | some relNl => start + relNl + 1
      | none => start
    floorCharBoundary text lineStart

/-- Whether the text breaks off in the middle of an expression. -/
def isIncomplete (front : Text) : Bool :=
  match (trimEnd front).getLast? with
  | some c =>
    if c ∈ ['=', '\x7b', '(', '[', ',', '.', ':'] then true
    else if c = '-' ∨ c = '>' then
      "->".toList.isSuffixOf (trimEnd front) || "=>".toList.isSuffixOf (trimEnd front)
    else false
  | none => false

/-- `avoid_incomplete_expression`: back to a blank line, or else to a line end. -/
def avoidIncompleteExpression (text : Text) (chunkStart split : Nat) : Nat :=
  if split ≤ chunkStart ∨ extent text ≤ split then split
  else
    let front := slice text chunkStart split
    if isIncomplete front then
      let afterBlank := (rfindText blankLine front).map fun rel => chunkStart + rel + 2
      let afterLine := (rfindText newline front).map fun rel => chunkStart + rel + 1
      ((afterBlank.filter (chunkStart < ·)).or (afterLine.filter (chunkStart < ·))).getD split
    else split

def lastEnd (test : Nat → Char → Bool) (entries : List (Nat × Char)) : Option Nat :=
  entries.foldl (fun found entry =>
    let stop := entry.1 + entry.2.utf8Size
    if test stop entry.2 then some stop else found) none

def findGoodSplitPoint (text : Text) (start target : Nat) : Nat :=
  let target := floorCharBoundary text (clamp target start (extent text))
  if extent text ≤ target then extent text
  else
    let searchWindow := max (target - start) 50
    let windowStart := floorCharBoundary text (max (target - searchWindow) start)
    match findPrecedingLineStart text windowStart target "```".toList with
    | some fencePos => clamp fencePos start target
    | none =>
      let entries := indices start (slice text start target)
      let whitespaceBoundary := lastEnd (fun _ c => isWhitespace c) entries
      let newlineBoundary := lastEnd (fun stop c => c = '\n' && windowStart ≤ stop) entries
      let sentenceBoundary := lastEnd (fun stop c => windowStart ≤ stop && isSentenceEnd c) entries
      let candidate := (sentenceBoundary.or (newlineBoundary.or whitespaceBoundary)).getD target
      avoidIncompleteExpression text start candidate

section Loop

variable [CostModel]

/-- The end of the longest part from `current` on that fits, and at least one character on. -/
def safeEnd (unit : ChunkUnit) (limit : Nat) (text : Text) (high current : Nat) : Nat :=
  let remaining := slice text current high
  let fitting := current + extent (truncateToCost unit remaining limit)
  if fitting ≤ current then
    match remaining.head? with
    | some c => current + c.utf8Size
    | none => high
  else fitting

def pieceEnd (goodSplit : Text → Nat → Nat → Nat) (unit : ChunkUnit) (limit : Nat) (text : Text)
    (high current : Nat) : Nat :=
  let safe := safeEnd unit limit text high current
  let target := clamp (goodSplit text current safe) current safe
  if current < target ∧ target ≤ safe then target else safe

theorem lt_safeEnd (unit : ChunkUnit) (limit : Nat) (text : Text) {high current : Nat}
    (lt : current < high) : current < safeEnd unit limit text high current := by
  rw [safeEnd]
  split
  · cases slice text current high with
    | nil => exact lt
    | cons c rest =>
      have wide := c.utf8Size_pos
      simp only [head?_cons]
      omega
  · omega

theorem lt_pieceEnd (goodSplit : Text → Nat → Nat → Nat) (unit : ChunkUnit) (limit : Nat)
    (text : Text) {high current : Nat} (lt : current < high) :
    current < pieceEnd goodSplit unit limit text high current := by
  have safe := lt_safeEnd unit limit text lt
  rw [pieceEnd]
  split
  · rename_i moved
    exact moved.1
  · exact safe

/-- The loop of `split_by_tokens_in_range`. -/
def splitFrom (goodSplit : Text → Nat → Nat → Nat) (unit : ChunkUnit) (limit : Nat) (text : Text)
    (high current : Nat) : List (Nat × Nat) :=
  if current < high then
    (current, pieceEnd goodSplit unit limit text high current) ::
      splitFrom goodSplit unit limit text high (pieceEnd goodSplit unit limit text high current)
  else []
termination_by high - current
decreasing_by
  have later := lt_pieceEnd goodSplit unit limit text ‹_›
  omega

def splitByTokensInRange (goodSplit : Text → Nat → Nat → Nat) (unit : ChunkUnit) (limit : Nat)
    (text : Text) (low high : Nat) : List (Nat × Nat) :=
  if limit = 0 then if low < high then [(low, high)] else []
  else splitFrom goodSplit unit limit text high low

end Loop

section SplitPoint

/-- A place to end a piece that starts at `start` and may reach to `target`: between characters,
and behind a break unless it is one of the two ends. -/
structure SplitPoint (text : Text) (start target split : Nat) : Prop where
  cut : Cut text split
  lower : start ≤ split
  upper : split ≤ target
  behind : split = start ∨ split = target ∨
    ∃ front c, slice text start split = front ++ [c] ∧ isBreak c = true

variable {text : Text} {start target stop split : Nat} {rel : Nat}

private theorem rfindText_slice {pattern : Text} (cutStart : Cut text start)
    (cutStop : Cut text stop) (le : start ≤ stop)
    (found : rfindText pattern (slice text start stop) = some rel) :
    Cut text (start + rel) ∧ Cut text (start + rel + extent pattern) ∧
      start + rel + extent pattern ≤ stop ∧
      ∃ front, slice text start (start + rel + extent pattern) = front ++ pattern := by
  obtain ⟨before, after, whole, rfl, passes⟩ := rfind_eq_some found
  obtain ⟨rest, rfl⟩ := List.isPrefixOf_iff_prefix.1 passes
  have first : before <+: slice text start stop := ⟨pattern ++ rest, whole.symm⟩
  have through : before ++ pattern <+: slice text start stop := ⟨rest, by simp [whole]⟩
  obtain ⟨cutFirst, _, _⟩ := slice_of_front cutStart cutStop le first
  obtain ⟨cutThrough, inside, same⟩ := slice_of_front cutStart cutStop le through
  rw [extent_append, ← Nat.add_assoc] at cutThrough inside same
  exact ⟨cutFirst, cutThrough, inside, before, same⟩

private theorem floorCharBoundary_eq_self (cut : Cut text stop) :
    floorCharBoundary text stop = stop := by
  rw [floorCharBoundary, Nat.min_eq_left cut.le, floorCut_eq_self cut]

private theorem splitPoint_line (cutStart : Cut text start) (cutStop : Cut text stop)
    (le : start ≤ stop) (le' : stop ≤ target)
    (found : rfindText newline (slice text start stop) = some rel) :
    SplitPoint text start target (start + rel + 1) := by
  obtain ⟨_, cut, inside, front, same⟩ := rfindText_slice cutStart cutStop le found
  have wide : extent newline = 1 := rfl
  rw [wide] at cut inside same
  exact ⟨cut, by omega, by omega, Or.inr (Or.inr ⟨front, '\n', same, by decide⟩)⟩

private theorem splitPoint_blankLine (cutStart : Cut text start) (cutStop : Cut text stop)
    (le : start ≤ stop) (le' : stop ≤ target)
    (found : rfindText blankLine (slice text start stop) = some rel) :
    SplitPoint text start target (start + rel + 2) := by
  obtain ⟨_, cut, inside, front, same⟩ := rfindText_slice cutStart cutStop le found
  have wide : extent blankLine = 2 := rfl
  rw [wide] at cut inside same
  refine ⟨cut, by omega, by omega, Or.inr (Or.inr ⟨front ++ ['\n'], '\n', ?_, by decide⟩)⟩
  rw [same, append_assoc]
  rfl

private theorem splitPoint_precedingLineStart {marker : Text} {fencePos : Nat}
    (cutStart : Cut text start) (cutTarget : Cut text target) (le : start ≤ target)
    (found : findPrecedingLineStart text start target marker = some fencePos) :
    SplitPoint text start target fencePos := by
  obtain ⟨rel, foundMarker, rfl⟩ := Option.map_eq_some_iff.1 found
  obtain ⟨cutMarker, _, inside, _⟩ := rfindText_slice cutStart cutTarget le foundMarker
  cases foundLine : rfindText newline (slice text start (start + rel)) with
  | none =>
    simp only [floorCharBoundary_eq_self cutStart]
    exact ⟨cutStart, Nat.le_refl _, le, Or.inl rfl⟩
  | some relNl =>
    have point : SplitPoint text start target (start + relNl + 1) :=
      splitPoint_line cutStart cutMarker (by omega) (by omega) foundLine
    simp only [floorCharBoundary_eq_self point.cut]
    exact point

private theorem splitPoint_avoidIncompleteExpression (cutStart : Cut text start)
    (point : SplitPoint text start target split) :
    SplitPoint text start target (avoidIncompleteExpression text start split) := by
  rw [avoidIncompleteExpression]
  split
  · exact point
  · simp only
    split
    · cases blank : ((rfindText blankLine (slice text start split)).map
          fun rel => start + rel + 2).filter (start < ·) with
      | some stop =>
        obtain ⟨mapped, _⟩ := Option.filter_eq_some_iff.1 blank
        obtain ⟨rel, found, rfl⟩ := Option.map_eq_some_iff.1 mapped
        exact splitPoint_blankLine cutStart point.cut point.lower point.upper found
      | none =>
        cases line : ((rfindText newline (slice text start split)).map
            fun rel => start + rel + 1).filter (start < ·) with
        | some stop =>
          obtain ⟨mapped, _⟩ := Option.filter_eq_some_iff.1 line
          obtain ⟨rel, found, rfl⟩ := Option.map_eq_some_iff.1 mapped
          exact splitPoint_line cutStart point.cut point.lower point.upper found
        | none => exact point
    · exact point

private theorem lastEnd_eq_some {test : Nat → Char → Bool} {entries : List (Nat × Char)}
    (found : lastEnd test entries = some stop) :
    ∃ entry ∈ entries, stop = entry.1 + entry.2.utf8Size ∧ test stop entry.2 = true := by
  rw [lastEnd] at found
  induction entries using reverseRecOn with
  | nil => cases found
  | append_singleton front entry ih =>
    rw [foldl_append, foldl_cons, foldl_nil] at found
    by_cases passes : test (entry.1 + entry.2.utf8Size) entry.2 = true
    · simp only [passes, if_true, Option.some.injEq] at found
      subst found
      exact ⟨entry, by simp, rfl, passes⟩
    · simp only [passes] at found
      obtain ⟨earlier, isMem, reaches, passed⟩ := ih found
      exact ⟨earlier, mem_append_left _ isMem, reaches, passed⟩

private theorem splitPoint_lastEnd {test : Nat → Char → Bool} (cutStart : Cut text start)
    (cutTarget : Cut text target) (le : start ≤ target)
    (breaks : ∀ stop c, test stop c = true → isBreak c = true)
    (found : lastEnd test (indices start (slice text start target)) = some stop) :
    SplitPoint text start target stop := by
  obtain ⟨⟨offset, c⟩, isMem, rfl, passes⟩ := lastEnd_eq_some found
  obtain ⟨before, after, whole, rfl⟩ := mem_indices.1 isMem
  have isFront : before ++ [c] <+: slice text start target := ⟨after, by simp [whole]⟩
  obtain ⟨cut, inside, same⟩ := slice_of_front cutStart cutTarget le isFront
  have reaches : start + extent before + c.utf8Size = start + extent (before ++ [c]) := by
    rw [extent_append, Nat.add_assoc]
    rfl
  simp only [reaches]
  exact ⟨cut, by omega, inside, Or.inr (Or.inr ⟨before, c, same, breaks _ _ passes⟩)⟩

theorem splitPoint_findGoodSplitPoint (cutStart : Cut text start) (cutTarget : Cut text target)
    (le : start ≤ target) :
    SplitPoint text start target (findGoodSplitPoint text start target) := by
  have within : floorCharBoundary text (clamp target start (extent text)) = target := by
    rw [clamp, Nat.max_eq_left le, Nat.min_eq_left cutTarget.le,
      floorCharBoundary_eq_self cutTarget]
  have window : floorCharBoundary text (max (target - max (target - start) 50) start) = start := by
    rw [Nat.max_eq_right (by omega), floorCharBoundary_eq_self cutStart]
  have atTarget : SplitPoint text start target target :=
    ⟨cutTarget, le, Nat.le_refl _, Or.inr (Or.inl rfl)⟩
  simp only [findGoodSplitPoint, within, window]
  split
  · rename_i past
    have same : extent text = target := Nat.le_antisymm past cutTarget.le
    rw [same]
    exact atTarget
  · cases fence : findPrecedingLineStart text start target "```".toList with
    | some fencePos =>
      have point := splitPoint_precedingLineStart cutStart cutTarget le fence
      have inside : clamp fencePos start target = fencePos := by
        rw [clamp, Nat.max_eq_left point.lower, Nat.min_eq_left point.upper]
      simp only [inside]
      exact point
    | none =>
      simp only
      apply splitPoint_avoidIncompleteExpression cutStart
      cases sentence : lastEnd (fun stop c => decide (start ≤ stop) && isSentenceEnd c)
          (indices start (slice text start target)) with
      | some stop =>
        apply splitPoint_lastEnd cutStart cutTarget le _ sentence
        intro stop c passes
        simp [isBreak, (Bool.and_eq_true_iff.1 passes).2]
      | none =>
        cases line : lastEnd (fun stop c => decide (c = '\n') && decide (start ≤ stop))
            (indices start (slice text start target)) with
        | some stop =>
          apply splitPoint_lastEnd cutStart cutTarget le _ line
          intro stop c passes
          have isNewline : c = '\n' := of_decide_eq_true (Bool.and_eq_true_iff.1 passes).1
          rw [isNewline]
          decide
        | none =>
          cases word : lastEnd (fun _ c => isWhitespace c)
              (indices start (slice text start target)) with
          | some stop =>
            apply splitPoint_lastEnd cutStart cutTarget le _ word
            intro stop c passes
            simp [isBreak, passes]
          | none => exact atTarget

end SplitPoint

section Pieces

variable [CostModel]

/-- Cutting a text at a break does not make it dearer. -/
def CutMonotone (unit : ChunkUnit) : Prop :=
  ∀ (front : Text) (c : Char) (rest : Text), isBreak c = true →
    unit.cost (front ++ [c]) ≤ unit.cost (front ++ c :: rest)

def WithinLimit (unit : ChunkUnit) (limit : Nat) (piece : Text) : Prop :=
  unit.cost piece ≤ limit ∨ ∃ c, piece = [c]

variable {unit : ChunkUnit} {limit : Nat} {text : Text} {low high current : Nat}
  {goodSplit : Text → Nat → Nat → Nat}

private theorem safeEnd_spec (unit : ChunkUnit) (positive : limit ≠ 0) (cut : Cut text current)
    (cutHigh : Cut text high) (lt : current < high) :
    Cut text (safeEnd unit limit text high current) ∧ safeEnd unit limit text high current ≤ high ∧
      WithinLimit unit limit (slice text current (safeEnd unit limit text high current)) := by
  have le := Nat.le_of_lt lt
  have isFront := truncateToCost_isFront unit (slice text current high) limit
  have cheap := cost_truncateToCost unit (slice text current high) positive
  rw [safeEnd]
  generalize truncateToCost unit (slice text current high) limit = front at isFront cheap ⊢
  split
  · cases remaining : slice text current high with
    | nil => exact absurd remaining (slice_ne_nil cut cutHigh lt)
    | cons c rest =>
      have first : [c] <+: slice text current high := ⟨rest, by rw [remaining]; rfl⟩
      obtain ⟨cutNext, inside, same⟩ := slice_of_front cut cutHigh le first
      exact ⟨cutNext, inside, Or.inr ⟨c, same⟩⟩
  · obtain ⟨cutNext, inside, same⟩ := slice_of_front cut cutHigh le isFront
    exact ⟨cutNext, inside, Or.inl (by rw [same]; exact cheap)⟩

private theorem pieceEnd_spec (points : ∀ target, Cut text target → current ≤ target →
      SplitPoint text current target (goodSplit text current target))
    (positive : limit ≠ 0) (cut : Cut text current) (cutHigh : Cut text high)
    (lt : current < high) :
    Cut text (pieceEnd goodSplit unit limit text high current) ∧
      pieceEnd goodSplit unit limit text high current ≤ high ∧
      (CutMonotone unit → WithinLimit unit limit
        (slice text current (pieceEnd goodSplit unit limit text high current))) := by
  obtain ⟨cutSafe, inside, within⟩ := safeEnd_spec unit positive cut cutHigh lt
  have safe := lt_safeEnd unit limit text lt
  rw [pieceEnd]
  generalize safeEnd unit limit text high current = stop at cutSafe inside within safe ⊢
  have point := points stop cutSafe (Nat.le_of_lt safe)
  have kept : clamp (goodSplit text current stop) current stop = goodSplit text current stop := by
    rw [clamp, Nat.max_eq_left point.lower, Nat.min_eq_left point.upper]
  simp only [kept]
  generalize goodSplit text current stop = split at point ⊢
  by_cases moves : current < split ∧ split ≤ stop
  · rw [if_pos moves]
    refine ⟨point.cut, Nat.le_trans point.upper inside, fun monotone => ?_⟩
    rcases point.behind with same | same | ⟨front, c, same, breaks⟩
    · omega
    · rw [same]
      exact within
    · obtain ⟨rest, whole⟩ := slice_isFront cut point.cut cutSafe point.lower point.upper
      rcases within with cheap | ⟨only, same'⟩
      · left
        rw [← whole, same, append_assoc] at cheap
        rw [same]
        exact Nat.le_trans (monotone front c rest breaks) cheap
      · right
        rw [same', same] at whole
        cases front with
        | nil => exact ⟨c, same⟩
        | cons d front => simp at whole
  · rw [if_neg moves]
    exact ⟨cutSafe, inside, fun _ => within⟩

/-- What the hard cut makes of a range: pieces of whole characters that follow each other. -/
structure Pieces (text : Text) (low high : Nat) (pieces : List (Nat × Nat)) : Prop where
  tiles : Tiles Prod.fst Prod.snd low high pieces
  cuts : ∀ piece ∈ pieces, Cut text piece.1 ∧ Cut text piece.2

private theorem splitFrom_spec
    (points : ∀ start target, Cut text start → Cut text target → start ≤ target →
      SplitPoint text start target (goodSplit text start target))
    (positive : limit ≠ 0) (cutHigh : Cut text high) :
    ∀ current, Cut text current → current ≤ high →
      Pieces text current high (splitFrom goodSplit unit limit text high current) ∧
      (CutMonotone unit → ∀ piece ∈ splitFrom goodSplit unit limit text high current,
        WithinLimit unit limit (slice text piece.1 piece.2)) := by
  intro current
  fun_induction splitFrom goodSplit unit limit text high current with
  | case1 current lt ih =>
    intro cut le
    obtain ⟨cutNext, inside, within⟩ :=
      pieceEnd_spec (fun target => points current target cut) positive cut cutHigh lt
    have later := lt_pieceEnd goodSplit unit limit text lt
    obtain ⟨rest, restWithin⟩ := ih cutNext inside
    refine ⟨⟨Tiles.cons rfl later rest.tiles, ?_⟩, ?_⟩
    · intro piece isMem
      rcases mem_cons.1 isMem with rfl | isLater
      · exact ⟨cut, cutNext⟩
      · exact rest.cuts piece isLater
    · intro monotone piece isMem
      rcases mem_cons.1 isMem with rfl | isLater
      · exact within monotone
      · exact restWithin monotone piece isLater
  | case2 current done =>
    intro cut le
    have same : current = high := by omega
    subst same
    exact ⟨⟨Tiles.nil _, by simp⟩, by simp⟩

variable (points : ∀ start target, Cut text start → Cut text target → start ≤ target →
    SplitPoint text start target (goodSplit text start target))
  (cutLow : Cut text low) (cutHigh : Cut text high) (le : low ≤ high)

include points cutLow cutHigh le

theorem pieces_splitByTokensInRange :
    Pieces text low high (splitByTokensInRange goodSplit unit limit text low high) := by
  rw [splitByTokensInRange]
  by_cases unlimited : limit = 0
  · rw [if_pos unlimited]
    by_cases lt : low < high
    · rw [if_pos lt]
      refine ⟨Tiles.single rfl rfl lt, fun piece isMem => ?_⟩
      rw [mem_singleton.1 isMem]
      exact ⟨cutLow, cutHigh⟩
    · rw [if_neg lt, show high = low by omega]
      exact ⟨Tiles.nil _, by simp⟩
  · rw [if_neg unlimited]
    exact (splitFrom_spec points unlimited cutHigh low cutLow le).1

theorem withinLimit_splitByTokensInRange (monotone : CutMonotone unit) (positive : limit ≠ 0) :
    ∀ piece ∈ splitByTokensInRange goodSplit unit limit text low high,
      WithinLimit unit limit (slice text piece.1 piece.2) := by
  rw [splitByTokensInRange, if_neg positive]
  exact (splitFrom_spec points positive cutHigh low cutLow le).2 monotone

end Pieces

end TokenSplit

end ContextEngine

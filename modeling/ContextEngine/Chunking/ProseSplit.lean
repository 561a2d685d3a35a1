/- digest: Cutting a range at the ends of its sentences and at its blank lines. -/

import ContextEngine.Chunking.ChunkedResult
import ContextEngine.Chunking.NameSearch
import ContextEngine.Chunking.TokenSplit

set_option autoImplicit false

namespace ContextEngine

open Offsets

section SentenceEnds

/-- How many brackets of each kind are open on the line. -/
structure BracketDepth where
  paren : Int
  brack : Int
  brace : Int

namespace BracketDepth

def zero : BracketDepth := ⟨0, 0, 0⟩

/-- The depth behind a character. No bracket stays open at the end of a line. -/
def step (depth : BracketDepth) (c : Char) : BracketDepth :=
  if c = '\n' then zero
  else if c = '(' then { depth with paren := depth.paren + 1 }
  else if c = ')' then { depth with paren := depth.paren - 1 }
  else if c = '[' then { depth with brack := depth.brack + 1 }
  else if c = ']' then { depth with brack := depth.brack - 1 }
  else if c = '\x7b' then { depth with brace := depth.brace + 1 }
  else if c = '\x7d' then { depth with brace := depth.brace - 1 }
  else depth

def isOpen (depth : BracketDepth) : Bool := 0 < depth.paren || 0 < depth.brack || 0 < depth.brace

end BracketDepth

variable [UnicodeTables]

def isIdentifierChar (c : Char) : Bool := UnicodeTables.isAlphanumeric c || c = '_' || c = '$'

/-- White space or closing punctuation. -/
def followsSentence (c : Char) : Bool :=
  isWhitespace c || c ∈ [')', ']', '\x7d', '\x22', '\x27', '\x60']

def endsSentence (prev next : Option Char) (depth : BracketDepth) (c : Char) : Bool :=
  if !isSentenceEnd c then false
  else if c ∈ ['。', '！', '？'] then true
  else if prev.any isIdentifierChar && next.any isIdentifierChar then false
  else next.any followsSentence && !depth.isOpen

def sentenceEndsFrom (stop position : Nat) (prev : Option Char) (depth : BracketDepth) :
    Text → List Nat
  | [] => []
  | c :: rest =>
    let nextPos := position + c.utf8Size
    let depth := depth.step c
    if (c = '\n' || endsSentence prev rest.head? depth c) && nextPos < stop then
      nextPos :: sentenceEndsFrom stop nextPos (some c) depth rest
    else sentenceEndsFrom stop nextPos (some c) depth rest

def findSentenceBoundaries (text : Text) : List Nat :=
  let found := sentenceEndsFrom (extent text) 0 none BracketDepth.zero text
  if found.getLast? = some (extent text) then found else found ++ [extent text]

end SentenceEnds

def blankLineEnds (position : Nat) : Text → List Nat
  | [] => []
  | '\n' :: '\n' :: rest => (position + 2) :: blankLineEnds (position + 2) rest
  | c :: rest => blankLineEnds (position + c.utf8Size) rest

section Stops

/-- Cuts that ascend from `prev` on and do not pass `stop`. -/
def Stops (text : Text) (stop : Nat) : Nat → List Nat → Prop
  | _, [] => True
  | prev, position :: rest =>
    prev ≤ position ∧ position ≤ stop ∧ Cut text position ∧ Stops text stop position rest

variable {text : Text} {low high stop prev : Nat} {positions : List Nat}

theorem Stops.weaken {earlier : Nat} (le : earlier ≤ prev)
    (stops : Stops text stop prev positions) :
    Stops text stop earlier positions := by
  cases positions with
  | nil => trivial
  | cons position rest => exact ⟨Nat.le_trans le stops.1, stops.2⟩

theorem Stops.concat (stops : Stops text stop prev positions) (le : prev ≤ stop)
    (cut : Cut text stop) : Stops text stop prev (positions ++ [stop]) := by
  induction positions generalizing prev with
  | nil => exact ⟨le, Nat.le_refl _, cut, trivial⟩
  | cons position rest ih =>
    obtain ⟨later, inside, cutHere, more⟩ := stops
    exact ⟨later, inside, cutHere, ih more inside⟩

theorem Stops.of_slice (cutLow : Cut text low) (cutHigh : Cut text high) (le : low ≤ high)
    (stops : Stops (slice text low high) (extent (slice text low high)) prev positions) :
    Stops text high (low + prev) (positions.map (low + ·)) := by
  induction positions generalizing prev with
  | nil => trivial
  | cons position rest ih =>
    obtain ⟨later, -, cutHere, more⟩ := stops
    obtain ⟨cut, inside⟩ := Cut.of_slice cutLow cutHigh le cutHere
    exact ⟨Nat.add_le_add_left later _, inside, cut, ih more⟩

private theorem stops_sentenceEndsFrom [UnicodeTables] (stop : Nat) (before rest : Text)
    (prev : Option Char) (depth : BracketDepth) :
    Stops (before ++ rest) (extent (before ++ rest)) (extent before)
      (sentenceEndsFrom stop (extent before) prev depth rest) := by
  induction rest generalizing before prev depth with
  | nil => trivial
  | cons c rest ih =>
    have next : extent before + c.utf8Size = extent (before ++ [c]) := by
      rw [extent_append]
      rfl
    have later := ih (before ++ [c]) (some c)
      (depth.step c)
    have same : before ++ [c] ++ rest = before ++ c :: rest := by simp
    rw [same] at later
    simp only [sentenceEndsFrom, next]
    have cut : Cut (before ++ c :: rest) (extent (before ++ [c])) := by
      rw [← same]
      exact Cut.front _ _
    have ascends : extent before ≤ extent (before ++ [c]) := by omega
    split
    · exact ⟨ascends, cut.le, cut, later⟩
    · exact later.weaken ascends

theorem stops_findSentenceBoundaries [UnicodeTables] (text : Text) :
    Stops text (extent text) 0 (findSentenceBoundaries text) := by
  have found := stops_sentenceEndsFrom (extent text) [] text none BracketDepth.zero
  simp only [findSentenceBoundaries]
  split
  · exact found
  · exact Stops.concat found (Nat.zero_le _) (Cut.end text)

private theorem stops_blankLineEnds (before rest : Text) :
    Stops (before ++ rest) (extent (before ++ rest)) (extent before)
      (blankLineEnds (extent before) rest) := by
  generalize reaches : extent before = position
  fun_induction blankLineEnds position rest generalizing before with
  | case1 position => trivial
  | case2 position rest ih =>
    have next : position + 2 = extent (before ++ ['\n', '\n']) := by
      rw [extent_append, reaches]
      rfl
    have same : before ++ ['\n', '\n'] ++ rest = before ++ '\n' :: '\n' :: rest := by simp
    have later := ih (before ++ ['\n', '\n']) next.symm
    rw [same] at later
    have cut : Cut (before ++ '\n' :: '\n' :: rest) (position + 2) := by
      rw [next, ← same]
      exact Cut.front _ _
    exact ⟨Nat.le_add_right _ _, cut.le, cut, later⟩
  | case3 position c rest _ ih =>
    have next : position + c.utf8Size = extent (before ++ [c]) := by
      rw [extent_append, reaches]
      rfl
    have same : before ++ [c] ++ rest = before ++ c :: rest := by simp
    have later := ih (before ++ [c]) next.symm
    rw [same] at later
    exact later.weaken (Nat.le_add_right _ _)

theorem stops_blankLines (cutLow : Cut text low) (cutHigh : Cut text high) (le : low ≤ high) :
    Stops text high low ((blankLineEnds 0 (slice text low high)).map (low + ·)) :=
  Stops.of_slice cutLow cutHigh le (stops_blankLineEnds [] _)

theorem stops_sentences [UnicodeTables] (cutLow : Cut text low) (cutHigh : Cut text high)
    (le : low ≤ high) :
    Stops text high low ((findSentenceBoundaries (slice text low high)).map (low + ·)) :=
  Stops.of_slice cutLow cutHigh le (stops_findSentenceBoundaries _)

end Stops

section Split

variable [CostModel] (text : Text) (config : ChunkingConfig) (path : ChunkPath) (low high : Nat)

/-- The accumulators of the two splitters: what was emitted, the open chunk with its cost, and
where the part before ended. -/
structure ProseState where
  boundaries : List ChunkBoundary
  chunkStart : Nat
  chunkTokens : Nat
  prevEnd : Nat

variable (st : ProseState)

def ProseState.flush (reason : SplitReason) : List ChunkBoundary :=
  st.boundaries ++ [ChunkBoundary.of st.chunkStart st.prevEnd reason st.chunkTokens [] none]

def ProseState.sentence (sentenceEnd : Nat) : ProseState :=
  let sentenceTokens := ChunkingConfig.cost (slice text st.prevEnd sentenceEnd) path
  if config.limit path < st.chunkTokens + sentenceTokens ∧ 0 < st.chunkTokens then
    ⟨st.flush .sentenceBoundary, st.prevEnd, sentenceTokens, sentenceEnd⟩
  else ⟨st.boundaries, st.chunkStart, st.chunkTokens + sentenceTokens, sentenceEnd⟩

def ProseState.paragraph (position : Nat) : ProseState :=
  let paraTokens := ChunkingConfig.cost (slice text st.prevEnd position) path
  if config.limit path < paraTokens then
    let flushed := st.chunkStart < st.prevEnd && 0 < st.chunkTokens
    let boundaries := if flushed then st.flush .paragraphBoundary else st.boundaries
    -- blank lines in front of the paragraph cost nothing and were never flushed
    let paraStart := if flushed then st.prevEnd else st.chunkStart
    ⟨boundaries ++ [ChunkBoundary.of paraStart position .paragraphBoundary
      (ChunkingConfig.cost (slice text paraStart position) path) [] none], position, 0, position⟩
  else if config.limit path < st.chunkTokens + paraTokens ∧ 0 < st.chunkTokens then
    ⟨st.flush .paragraphBoundary, st.prevEnd, paraTokens, position⟩
  else ⟨st.boundaries, st.chunkStart, st.chunkTokens + paraTokens, position⟩

def splitTextBySentences [UnicodeTables] : List ChunkBoundary :=
  let positions := (findSentenceBoundaries (slice text low high)).map (low + ·)
  let st := positions.foldl (ProseState.sentence text config path) ⟨[], low, 0, low⟩
  extendOrPushTrailing st.boundaries text st.chunkStart high path .sentenceBoundary

def splitTextByParagraphs : List ChunkBoundary :=
  let positions := (blankLineEnds 0 (slice text low high)).map (low + ·)
  let st := positions.foldl (ProseState.paragraph text config path) ⟨[], low, 0, low⟩
  extendOrPushTrailing st.boundaries text st.chunkStart high path .paragraphBoundary

variable {text low high}

/-- What was emitted reaches to the open chunk, which is not empty once it costs something. -/
structure ProseState.Sound (text : Text) (low high : Nat) (st : ProseState) : Prop where
  front : SplitPartition text low st.chunkStart st.boundaries
  cut : Cut text st.chunkStart
  cutPrev : Cut text st.prevEnd
  le : st.chunkStart ≤ st.prevEnd
  upper : st.prevEnd ≤ high
  held : 0 < st.chunkTokens → st.chunkStart < st.prevEnd

omit [CostModel] in
theorem ProseState.Sound.start (cutLow : Cut text low) (le : low ≤ high) :
    ProseState.Sound text low high ⟨[], low, 0, low⟩ :=
  ⟨SplitPartition.nil _ _, cutLow, cutLow, Nat.le_refl _, le, by simp⟩

theorem lt_of_cost_pos {prev position : Nat} (cut : Cut text prev) (le : prev ≤ position)
    (costs : 0 < ChunkingConfig.cost (slice text prev position) path) : prev < position := by
  rcases Nat.lt_or_eq_of_le le with lt | rfl
  · exact lt
  · rw [slice_self cut, ChunkingConfig.cost, ChunkUnit.cost_nil] at costs
    omega

variable {config path} {st : ProseState} {position : Nat}

omit [CostModel] in
theorem ProseState.Sound.flush (sound : st.Sound text low high) (costs : 0 < st.chunkTokens)
    (reason : SplitReason) : SplitPartition text low st.prevEnd (st.flush reason) :=
  sound.front.push rfl rfl (sound.held costs) sound.cut sound.cutPrev

theorem ProseState.Sound.reopen (sound : st.Sound text low high) (costs : 0 < st.chunkTokens)
    (reason : SplitReason) (later : st.prevEnd ≤ position) (inside : position ≤ high)
    (cut : Cut text position) :
    ProseState.Sound text low high ⟨st.flush reason, st.prevEnd,
      ChunkingConfig.cost (slice text st.prevEnd position) path, position⟩ :=
  ⟨sound.flush costs reason, sound.cutPrev, cut, later, inside,
    fun costsNow => lt_of_cost_pos path sound.cutPrev later costsNow⟩

section

variable (sound : st.Sound text low high) (later : st.prevEnd ≤ position) (inside : position ≤ high)

include sound later inside

theorem ProseState.Sound.gather (cut : Cut text position) :
    ProseState.Sound text low high ⟨st.boundaries, st.chunkStart,
      st.chunkTokens + ChunkingConfig.cost (slice text st.prevEnd position) path, position⟩ := by
  refine ⟨sound.front, sound.cut, cut, Nat.le_trans sound.le later, inside, fun costs => ?_⟩
  have le := sound.le
  rcases Nat.eq_zero_or_pos st.chunkTokens with none | some
  · rw [none, Nat.zero_add] at costs
    exact Nat.lt_of_le_of_lt le (lt_of_cost_pos path sound.cutPrev later costs)
  · exact Nat.lt_of_lt_of_le (sound.held some) later

theorem ProseState.Sound.sentence (cut : Cut text position) :
    (st.sentence text config path position).Sound text low high := by
  simp only [ProseState.sentence]
  split
  · rename_i overflows
    exact sound.reopen overflows.2 _ later inside cut
  · exact sound.gather later inside cut

theorem ProseState.Sound.paragraph (cut : Cut text position) :
    (st.paragraph text config path position).Sound text low high := by
  simp only [ProseState.paragraph]
  split
  · rename_i oversized
    have proper : st.prevEnd < position :=
      lt_of_cost_pos path sound.cutPrev later (Nat.lt_of_le_of_lt (Nat.zero_le _) oversized)
    by_cases flushed : (st.chunkStart < st.prevEnd && 0 < st.chunkTokens) = true
    · simp only [if_pos flushed]
      have costs : 0 < st.chunkTokens := by simpa using (Bool.and_eq_true_iff.1 flushed).2
      exact ⟨(sound.flush costs _).push rfl rfl proper sound.cutPrev cut, cut, cut, Nat.le_refl _,
        inside, by simp⟩
    · simp only [if_neg flushed]
      have opens : st.chunkStart < position := Nat.lt_of_le_of_lt sound.le proper
      exact ⟨sound.front.push rfl rfl opens sound.cut cut, cut, cut, Nat.le_refl _, inside, by simp⟩
  · split
    · rename_i overflows
      exact sound.reopen overflows.2 _ later inside cut
    · exact sound.gather later inside cut

end

omit [CostModel] in
theorem ProseState.Sound.foldl (step : ProseState → Nat → ProseState)
    (kept : ∀ (st : ProseState) (position : Nat), st.Sound text low high → st.prevEnd ≤ position →
      position ≤ high → Cut text position →
      (step st position).Sound text low high ∧ (step st position).prevEnd = position)
    {positions : List Nat} (sound : st.Sound text low high)
    (stops : Stops text high st.prevEnd positions) :
    (positions.foldl step st).Sound text low high := by
  induction positions generalizing st with
  | nil => exact sound
  | cons position rest ih =>
    obtain ⟨later, inside, cut, more⟩ := stops
    obtain ⟨next, reached⟩ := kept st position sound later inside cut
    rw [List.foldl_cons]
    exact ih next (by rw [reached]; exact more)

theorem ProseState.prevEnd_sentence (st : ProseState) (position : Nat) :
    (st.sentence text config path position).prevEnd = position := by
  simp only [ProseState.sentence]
  split <;> rfl

theorem ProseState.prevEnd_paragraph (st : ProseState) (position : Nat) :
    (st.paragraph text config path position).prevEnd = position := by
  simp only [ProseState.paragraph]
  split
  · rfl
  · split <;> rfl

private theorem ProseState.Sound.trailing {st : ProseState} (sound : st.Sound text low high)
    (cutHigh : Cut text high) (path : ChunkPath) (reason : SplitReason) :
    SplitPartition text low high
      (extendOrPushTrailing st.boundaries text st.chunkStart high path reason) :=
  sound.front.extendOrPushTrailing (Nat.le_trans sound.le sound.upper) sound.cut cutHigh path reason

variable (cutLow : Cut text low) (cutHigh : Cut text high) (le : low ≤ high)

include cutLow cutHigh le

theorem splitTextBySentences_partition [UnicodeTables] :
    SplitPartition text low high (splitTextBySentences text config path low high) := by
  have sound := ProseState.Sound.foldl (ProseState.sentence text config path)
    (fun st position sound later inside cut =>
      ⟨sound.sentence later inside cut, st.prevEnd_sentence position⟩)
    (ProseState.Sound.start cutLow le) (stops_sentences cutLow cutHigh le)
  exact sound.trailing cutHigh path _

theorem splitTextByParagraphs_partition :
    SplitPartition text low high (splitTextByParagraphs text config path low high) := by
  have sound := ProseState.Sound.foldl (ProseState.paragraph text config path)
    (fun st position sound later inside cut =>
      ⟨sound.paragraph later inside cut, st.prevEnd_paragraph position⟩)
    (ProseState.Sound.start cutLow le) (stops_blankLines cutLow cutHigh le)
  exact sound.trailing cutHigh path _

end Split

end ContextEngine

/- digest: Finding a name in prose without regard to case, and the lowercase words of an identifier.
   -/

import ContextEngine.Chunking.TokenSplit

set_option autoImplicit false

namespace ContextEngine

open List Offsets

/-- The Unicode tables behind the methods of `char`. -/
class UnicodeTables where
  toLowercase : Char → List Char
  isUppercase : Char → Bool
  isLowercase : Char → Bool
  isAlphanumeric : Char → Bool

section Search

variable [UnicodeTables]

def matchedExtent (needleLower : List Char) : Text → Option Nat
  | [] => none
  | c :: rest =>
    let lowered := UnicodeTables.toLowercase c
    if lowered.isPrefixOf needleLower then
      if needleLower.drop lowered.length = [] then some c.utf8Size
      else (matchedExtent (needleLower.drop lowered.length) rest).map (c.utf8Size + ·)
    else none

def findFrom (needleLower : List Char) (start : Nat) : Text → Option (Nat × Nat)
  | [] => none
  | c :: rest =>
    match matchedExtent needleLower (c :: rest) with
    | some length => some (start, length)
    | none => findFrom needleLower (start + c.utf8Size) rest

def findCaseInsensitive (haystack needle : Text) : Option (Nat × Nat) :=
  if needle = [] then some (0, 0)
  else findFrom (needle.flatMap UnicodeTables.toLowercase) 0 haystack

private theorem cut_matchedExtent {needleLower text : Text} {length : Nat}
    (found : matchedExtent needleLower text = some length) : Cut text length := by
  induction text generalizing needleLower length with
  | nil => cases found
  | cons c rest ih =>
    simp only [matchedExtent] at found
    split at found
    · split at found
      · cases found
        exact ⟨[c], rest, rfl, rfl⟩
      · obtain ⟨later, foundLater, rfl⟩ := Option.map_eq_some_iff.1 found
        obtain ⟨before, after, rfl, rfl⟩ := ih foundLater
        exact ⟨c :: before, after, rfl, rfl⟩
    · cases found

private theorem cut_findFrom {needleLower text : Text} {start position length : Nat}
    (found : findFrom needleLower start text = some (position, length)) :
    ∃ offset, position = start + offset ∧ Cut text offset ∧ Cut text (offset + length) := by
  induction text generalizing start with
  | nil => cases found
  | cons c rest ih =>
    rw [findFrom] at found
    split at found
    · rename_i matched
      cases found
      exact ⟨0, rfl, Cut.zero _, by simpa using cut_matchedExtent matched⟩
    · obtain ⟨offset, rfl, ⟨before, after, split, reaches⟩, before', after', split', reaches'⟩ :=
        ih found
      refine ⟨c.utf8Size + offset, by omega, ⟨c :: before, after, by rw [split]; rfl, ?_⟩,
        c :: before', after', by rw [split']; rfl, ?_⟩
      · rw [extent_cons, reaches]
        rfl
      · rw [extent_cons, reaches', Nat.add_assoc]
        rfl

theorem cut_findCaseInsensitive {haystack needle : Text} {position length : Nat}
    (found : findCaseInsensitive haystack needle = some (position, length)) :
    Cut haystack position ∧ Cut haystack (position + length) := by
  rw [findCaseInsensitive] at found
  split at found
  · cases found
    exact ⟨Cut.zero _, Cut.zero _⟩
  · obtain ⟨offset, rfl, cutStart, cutStop⟩ := cut_findFrom found
    rw [Nat.zero_add]
    exact ⟨cutStart, cutStop⟩

/-- The rest of a name behind `prev`, with a space where a word begins. -/
def splitCamelCaseFrom (prev : Char) : Text → Text
  | [] => []
  | c :: rest =>
    let nextIsLower := (rest.head?.map UnicodeTables.isLowercase).getD false
    if UnicodeTables.isUppercase c && (UnicodeTables.isLowercase prev || nextIsLower) then
      ' ' :: c :: splitCamelCaseFrom c rest
    else c :: splitCamelCaseFrom c rest

def splitCamelCase : Text → Text
  | [] => []
  | c :: rest => c :: splitCamelCaseFrom c rest

end Search

/-- `rsplit("::").next()`: what stands behind the last path separator. -/
def lastPathSegment (name : Text) : Text :=
  match rfind (fun rest => [':', ':'].isPrefixOf rest) name with
  | some position => dropTo name (position + 2)
  | none => name

/-- The tables that only whole strings and identifiers are read with. -/
class CaseTables extends UnicodeTables where
  isAlphabetic : Char → Bool
  isCased : Char → Bool
  isCaseIgnorable : Char → Bool

def isAsciiDigit (c : Char) : Bool := '0' ≤ c && c ≤ '9'

section Lowercase

variable [CaseTables]

def caseIgnorableThenCased (text : Text) : Bool :=
  (text.dropWhile CaseTables.isCaseIgnorable).head?.any CaseTables.isCased

/-- The lowercase of a text behind the characters `before`, the last one first. A sigma at the end
of a word has a form of its own. -/
def lowercaseFrom (before : Text) : Text → Text
  | [] => []
  | c :: rest =>
    (if c = 'Σ' then
        [if caseIgnorableThenCased before && !caseIgnorableThenCased rest then 'ς' else 'σ']
      else UnicodeTables.toLowercase c) ++ lowercaseFrom (c :: before) rest

def lowercase (text : Text) : Text := lowercaseFrom [] text

end Lowercase

section Split

variable [CaseTables]

/-- Whether a new word begins with `c`, behind `prev` and the characters of the current word. -/
def startsWord (prev : Option Char) (current : Text) (c : Char) (rest : Text) : Bool :=
  if UnicodeTables.isUppercase c && !current.isEmpty then
    prev.any UnicodeTables.isLowercase || rest.head?.any UnicodeTables.isLowercase
  else
    current.getLast?.any fun last =>
      (isAsciiDigit c && !isAsciiDigit last) || (CaseTables.isAlphabetic c && isAsciiDigit last)

/-- The loop over the characters of one segment. -/
def camelWords (prev : Option Char) (current : Text) : Text → List Text
  | [] => if current.isEmpty then [] else [lowercase current]
  | c :: rest =>
    if startsWord prev current c rest then lowercase current :: camelWords (some c) [c] rest
    else camelWords (some c) (current ++ [c]) rest

/-- The parts that are not empty, as `split` gives them and the loops skip the others. -/
def nonempty (parts : List Text) : List Text := parts.filter fun part => !part.isEmpty

def splitCamelCaseWords (word : Text) : List Text :=
  (nonempty (word.splitOnP fun c => c ∈ ['_', '-'])).flatMap (camelWords none [])

/-- `split("::")`. -/
def splitPaths : Text → List Text
  | [] => [[]]
  | [c] => [[c]]
  | c :: d :: rest =>
    if c = ':' ∧ d = ':' then [] :: splitPaths rest
    else (splitPaths (d :: rest)).modifyHead (c :: ·)

def splitIdentifier (ident : Text) : List Text :=
  let segments := nonempty (ident.splitOnP fun c => c ∈ ['_', '-', '.', '/'])
  let subs := nonempty (segments.flatMap splitPaths)
  let parts := nonempty (subs.flatMap fun sub => sub.splitOnP fun c => c = ':')
  (parts.flatMap splitCamelCaseWords).filter fun word => 2 ≤ extent word && !word.all isAsciiDigit

end Split

section Parts

structure PartsOf (text : Text) (parts : List Text) : Prop where
  front : ∀ part ∈ parts.head?, part <+: text
  inside : ∀ part ∈ parts, part <:+: text

variable {parts : List Text}

theorem PartsOf.extend {text : Text} (c : Char) (found : PartsOf text parts) :
    PartsOf (c :: text) (parts.modifyHead (c :: ·)) := by
  cases parts with
  | nil => exact ⟨by simp, by simp⟩
  | cons part parts =>
    have head : part <+: text := found.front part rfl
    refine ⟨by simpa using head, fun other mem => ?_⟩
    rcases mem_cons.1 mem with rfl | later
    · exact ((prefix_cons_inj c).2 head).isInfix
    · exact (found.inside other (mem_cons_of_mem _ later)).trans (suffix_cons c text).isInfix

theorem PartsOf.skip {text : Text} (skipped : Text)
    (found : PartsOf text parts) :
    PartsOf (skipped ++ text) ([] :: parts) := by
  refine ⟨by simp, fun other mem => ?_⟩
  rcases mem_cons.1 mem with rfl | later
  · exact nil_infix
  · exact (found.inside other later).trans (suffix_append skipped text).isInfix

theorem partsOf_splitOnP (separates : Char → Bool) (text : Text) :
    PartsOf text (text.splitOnP separates) := by
  induction text with
  | nil => exact ⟨by simp [splitOnP_nil], by simp [splitOnP_nil]⟩
  | cons c text ih =>
    rw [splitOnP_cons_eq_if_modifyHead]
    split_ifs
    · exact ih.skip [c]
    · exact ih.extend c

theorem partsOf_splitPaths (text : Text) : PartsOf text (splitPaths text) := by
  fun_induction splitPaths text with
  | case1 => exact ⟨by simp, by simp⟩
  | case2 c => exact ⟨by simp, by simp⟩
  | case3 c d rest path ih => exact ih.skip [c, d]
  | case4 c d rest path ih => exact ih.extend c

theorem mem_nonempty {part : Text} (mem : part ∈ nonempty parts) :
    part ∈ parts ∧ part ≠ [] := by
  rw [nonempty, mem_filter] at mem
  exact ⟨mem.1, by simpa using mem.2⟩

variable [CaseTables]

theorem mem_camelWords {word : Text} {prev : Option Char} {current rest : Text}
    (mem : word ∈ camelWords prev current rest) :
    ∃ part, part <:+: current ++ rest ∧ word = lowercase part := by
  fun_induction camelWords prev current rest with
  | case1 prev current bare => cases mem
  | case2 prev current some_ =>
    rw [append_nil]
    exact ⟨current, infix_rfl, mem_singleton.1 mem⟩
  | case3 prev current c rest starts ih =>
    rcases mem_cons.1 mem with first | later
    · exact ⟨current, (prefix_append _ _).isInfix, first⟩
    · obtain ⟨part, inside, same⟩ := ih later
      exact ⟨part, inside.trans (suffix_append current _).isInfix, same⟩
  | case4 prev current c rest starts ih =>
    obtain ⟨part, inside, same⟩ := ih mem
    exact ⟨part, by simpa using inside, same⟩

theorem mem_splitIdentifier {word ident : Text} (mem : word ∈ splitIdentifier ident) :
    ∃ part, part <:+: ident ∧ word = lowercase part := by
  simp only [splitIdentifier, mem_filter, mem_flatMap, splitCamelCaseWords] at mem
  obtain ⟨⟨part, partMem, segment, segmentMem, wordMem⟩, -⟩ := mem
  obtain ⟨sub, subMem, partIn⟩ := mem_flatMap.1 (mem_nonempty partMem).1
  obtain ⟨piece, pieceMem, subIn⟩ := mem_flatMap.1 (mem_nonempty subMem).1
  obtain ⟨found, inside, same⟩ := mem_camelWords wordMem
  have inPart : segment <:+: part :=
    (partsOf_splitOnP _ part).inside segment (mem_nonempty segmentMem).1
  have inSub : part <:+: sub := (partsOf_splitOnP _ sub).inside part partIn
  have inPiece : sub <:+: piece := (partsOf_splitPaths piece).inside sub subIn
  have inIdent : piece <:+: ident :=
    (partsOf_splitOnP _ ident).inside piece (mem_nonempty pieceMem).1
  exact ⟨found, inside.trans (inPart.trans (inSub.trans (inPiece.trans inIdent))), same⟩

end Parts

end ContextEngine

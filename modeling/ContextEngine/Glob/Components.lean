/- digest: Glob patterns and paths as lists of components, and what the tokens of a component do. -/

import ContextEngine.Lib.Wildcard
import ContextEngine.Glob.Tokens

set_option autoImplicit false

namespace ContextEngine

open List Wildcard

def Wildcard.Piece.char : Piece Char → Char
  | .letter c => c
  | .single => '?'
  | .star => '*'

def Wildcard.Piece.token : Piece Char → Token
  | .letter c => .literal [c]
  | .single => .singleChar
  | .star => .wildcard

def Wildcard.PatternPart.text : PatternPart Char → List Char
  | .word pieces => pieces.map Piece.char
  | .deep => ['*', '*']

/-- A piece that is written as itself and read back: its letter is neither a separator nor a
    wildcard. -/
def Wildcard.Piece.Plain (piece : Piece Char) : Prop :=
  ∀ c, piece = .letter c → c ≠ '/' ∧ c ≠ '\\' ∧ c ≠ '*' ∧ c ≠ '?'

/-- A part that can stand between slashes: a word is not empty, is not `.`, and has no two stars
    in a row. -/
def Wildcard.PatternPart.WellFormed : PatternPart Char → Prop
  | .word pieces =>
    pieces ≠ [] ∧ pieces ≠ [.letter '.'] ∧ (∀ piece ∈ pieces, piece.Plain) ∧
      pieces.IsChain fun piece next => ¬(piece = .star ∧ next = .star)
  | .deep => True

/-- A pattern of components, with a slash in front of it when it is anchored. -/
structure GlobPattern where
  anchored : Bool
  parts : List (PatternPart Char)
  nonempty : parts ≠ []
  wellFormed : ∀ part ∈ parts, part.WellFormed

/-- A path of components without separators, the last of which is a name. -/
structure SlashPath where
  components : List (List Char)
  nonempty : components ≠ []
  plain : ∀ component ∈ components, '/' ∉ component ∧ '\\' ∉ component
  named : ∀ name ∈ components.getLast?, name ≠ [] ∧ name ≠ ['.']

def joinSlash (components : List (List Char)) : List Char := ['/'].intercalate components

variable (pattern : GlobPattern)

def GlobPattern.text : String :=
  String.ofList ((if pattern.anchored then ['/'] else []) ++
    joinSlash (pattern.parts.map PatternPart.text))

variable (path : SlashPath)

def SlashPath.text : String := String.ofList (joinSlash path.components)

/-- The last component, unless it is `..`. -/
def SlashPath.fileName : Option (List Char) :=
  path.components.getLast?.filter fun name => name ≠ ['.', '.']

def GlobPattern.accepts (path : SlashPath) : Bool :=
  matchesPath pattern.parts path.components ||
    (!pattern.anchored && decide (pattern.parts.length = 1) &&
      path.fileName.any fun name => matchesPath pattern.parts [name])

/-- The parts are all `**`; or the last one is a word and every word right after a `**` takes
    whatever is put in front of what it matches. -/
def GlobPattern.Harmless : Prop :=
  (∀ part ∈ pattern.parts, part = .deep) ∨
    (pattern.parts.getLast? ≠ some .deep ∧
      pattern.parts.IsChain fun part next => part = .deep → next.absorbs = true)

/-- The tokens of the parts, a token for every character of a literal: a slash after every word
    but the last part, and none after `**`. -/
def partsTokens : List (PatternPart Char) → List Token
  | [] => []
  | .deep :: parts => .recursive :: partsTokens parts
  | [.word pieces] => pieces.map Piece.token
  | .word pieces :: part :: parts =>
    pieces.map Piece.token ++ .literal ['/'] :: partsTokens (part :: parts)

@[simp] theorem joinSlash_singleton (component : List Char) : joinSlash [component] = component :=
  intercalate_singleton

@[simp] theorem joinSlash_cons_cons (component next : List Char) (rest : List (List Char)) :
    joinSlash (component :: next :: rest) = component ++ '/' :: joinSlash (next :: rest) := by
  rw [joinSlash, intercalate_cons_cons]
  simp only [append_assoc, singleton_append, joinSlash]

variable {pieces : List (Piece Char)}

private theorem readAs_word {rest : List Char} {tokens : List Token}
    (plain : ∀ piece ∈ pieces, piece.Plain)
    (apart : pieces.IsChain fun piece next => ¬(piece = .star ∧ next = .star))
    (read : ReadAs rest tokens) (ended : rest.head? ≠ some '*') :
    ReadAs (pieces.map Piece.char ++ rest) (pieces.map Piece.token ++ tokens) := by
  induction pieces with
  | nil => exact read
  | cons piece pieces ih =>
    have later := ih (fun other mem => plain other (mem_cons_of_mem piece mem)) apart.tail
    have letters := plain piece mem_cons_self
    cases piece with
    | letter c => exact later.letter (letters c rfl).2.2.1 (letters c rfl).2.2.2
    | single => exact later.question
    | star =>
      apply later.star
      cases pieces with
      | nil => exact ended
      | cons next pieces =>
        intro head
        have written : next.char = '*' := Option.some.inj head
        have next_plain := plain next (mem_cons_of_mem _ mem_cons_self)
        have not_star : next ≠ .star := fun same =>
          (isChain_cons_cons.1 apart).1 ⟨rfl, same⟩
        cases next with
        | letter c => exact (next_plain c rfl).2.2.1 written
        | single => exact absurd written (by decide)
        | star => exact not_star rfl

private theorem readAs_parts {parts : List (PatternPart Char)} (nonempty : parts ≠ [])
    (wellFormed : ∀ part ∈ parts, part.WellFormed) :
    ReadAs (joinSlash (parts.map PatternPart.text)) (partsTokens parts) := by
  induction parts with
  | nil => exact absurd rfl nonempty
  | cons part parts ih =>
    have this := wellFormed part mem_cons_self
    have later := fun ne => ih ne fun other mem =>
      wellFormed other (mem_cons_of_mem part mem)
    cases parts with
    | nil =>
      rw [map_singleton, joinSlash_singleton]
      cases part with
      | deep => exact readAs_deep
      | word pieces =>
        have whole := readAs_word this.2.2.1 this.2.2.2 readAs_nil (by decide)
        rwa [append_nil, append_nil] at whole
    | cons next parts =>
      rw [map_cons, map_cons, joinSlash_cons_cons]
      have rest := later (cons_ne_nil next parts)
      cases part with
      | deep => exact rest.deep
      | word pieces =>
        have slash_first : '/' ≠ '*' := by decide
        have slash := rest.letter slash_first (by decide)
        exact readAs_word this.2.2.1 this.2.2.2 slash fun head =>
          slash_first (Option.some.inj head)

private theorem head?_parts_text {parts : List (PatternPart Char)}
    (wellFormed : ∀ part ∈ parts, part.WellFormed) :
    (joinSlash (parts.map PatternPart.text)).head? ≠ some '/' := by
  have first : ∀ part : PatternPart Char, part.WellFormed → ∀ rest,
      part.text ≠ [] ∧ (part.text ++ rest).head? ≠ some '/' := by
    intro part formed rest
    cases part with
    | deep => exact ⟨by decide, fun head => absurd (Option.some.inj head) (by decide)⟩
    | word pieces =>
      obtain ⟨some_piece, -, plain, -⟩ := formed
      cases pieces with
      | nil => exact absurd rfl some_piece
      | cons piece pieces =>
        refine ⟨cons_ne_nil _ _, fun head => ?_⟩
        have written : piece.char = '/' := Option.some.inj head
        cases piece with
        | letter c => exact (plain _ mem_cons_self c rfl).1 written
        | single => exact absurd written (by decide)
        | star => exact absurd written (by decide)
  cases parts with
  | nil => exact Option.some_ne_none _ |>.symm
  | cons part parts =>
    have here := first part (wellFormed part mem_cons_self)
    cases parts with
    | nil =>
      rw [map_singleton, joinSlash_singleton, ← append_nil part.text]
      exact (here []).2
    | cons next parts =>
      rw [map_cons, map_cons, joinSlash_cons_cons]
      exact (here _).2

theorem GlobPattern.new_text :
    ∃ tokens, Glob.new pattern.text = .ok ⟨tokens, tokens.any (· = .recursive), pattern.anchored⟩ ∧
      spelled tokens = partsTokens pattern.parts := by
  obtain ⟨tokens, ok, spells⟩ := readAs_parts pattern.nonempty pattern.wellFormed []
  refine ⟨tokens, ?_, spells⟩
  rw [Glob.new, GlobPattern.text, String.toList_ofList]
  cases pattern.anchored with
  | true =>
    simp only [if_true, singleton_append, head?_cons, tail_cons, decide_true]
    rw [tokenize, ok]
    rfl
  | false =>
    have head := head?_parts_text pattern.wellFormed
    simp only [Bool.false_eq_true, if_false, nil_append, decide_eq_false head, if_neg head]
    rw [tokenize, ok]
    rfl

theorem SlashPath.toList_text : path.text.toList = joinSlash path.components :=
  String.toList_ofList

theorem mem_joinSlash {components : List (List Char)} {c : Char}
    (mem : c ∈ joinSlash components) : c = '/' ∨ ∃ component ∈ components, c ∈ component := by
  induction components with
  | nil => exact absurd mem not_mem_nil
  | cons component rest ih =>
    cases rest with
    | nil =>
      rw [joinSlash_singleton] at mem
      exact Or.inr ⟨component, mem_cons_self, mem⟩
    | cons next rest =>
      rw [joinSlash_cons_cons, mem_append, mem_cons] at mem
      rcases mem with here | slash | later
      · exact Or.inr ⟨component, mem_cons_self, here⟩
      · exact Or.inl slash
      · rcases ih later with slash | ⟨other, other_mem, inside⟩
        · exact Or.inl slash
        · exact Or.inr ⟨other, mem_cons_of_mem component other_mem, inside⟩

theorem SlashPath.no_backslash : '\\' ∉ path.text.toList := by
  rw [path.toList_text]
  intro mem
  rcases mem_joinSlash mem with slash | ⟨component, component_mem, inside⟩
  · exact absurd slash (by decide)
  · exact (path.plain component component_mem).2 inside

theorem SlashPath.pathFileName_text :
    pathFileName path.text.toList = path.fileName := by
  have split : (joinSlash path.components).splitOn '/' = path.components :=
    splitOn_intercalate '/' (fun component mem => (path.plain component mem).1) path.nonempty
  obtain ⟨front, name, whole⟩ := eq_nil_or_concat path.components |>.resolve_left path.nonempty
  rw [concat_eq_append] at whole
  have named := path.named name (by rw [whole]; exact getLast?_concat)
  have kept : [name].filter (fun component => component ≠ [] ∧ component ≠ ['.']) = [name] :=
    filter_eq_self.2 fun other mem => by
      rw [mem_singleton.1 mem, decide_eq_true named]
  rw [pathFileName, path.toList_text, split, SlashPath.fileName, whole, filter_append, kept,
    getLast?_concat, getLast?_concat]

variable {component : List Char}

theorem joinSlash_suffix {rest components : List (List Char)}
    (tail : component :: rest <:+ components) :
    joinSlash (component :: rest) <:+ joinSlash components := by
  induction components with
  | nil => exact absurd (suffix_nil.1 tail) (cons_ne_nil component rest)
  | cons first components ih =>
    rcases suffix_cons_iff.1 tail with whole | later
    · rw [whole]
    · cases components with
      | nil => exact absurd (suffix_nil.1 later) (cons_ne_nil component rest)
      | cons next components =>
        rw [joinSlash_cons_cons]
        exact (ih later).trans ((suffix_cons '/' _).trans (suffix_append first _))

theorem exists_of_suffix_joinSlash {text : List Char} {components : List (List Char)}
    (nonempty : components ≠ []) (tail : text <:+ joinSlash components) :
    ∃ front component rest, (front ++ component) :: rest <:+ components ∧
      text = joinSlash (component :: rest) := by
  induction components with
  | nil => exact absurd rfl nonempty
  | cons first components ih =>
    cases components with
    | nil =>
      rw [joinSlash_singleton] at tail
      obtain ⟨front, rfl⟩ := tail
      exact ⟨front, text, [], suffix_rfl, (joinSlash_singleton text).symm⟩
    | cons next components =>
      rw [joinSlash_cons_cons] at tail
      obtain ⟨front, same⟩ := tail
      have inner : ∀ component, first = front ++ component →
          text = component ++ '/' :: joinSlash (next :: components) →
          ∃ front component rest, (front ++ component) :: rest <:+ first :: next :: components ∧
            text = joinSlash (component :: rest) := by
        intro component first_eq text_eq
        refine ⟨front, component, next :: components, ?_, ?_⟩
        · rw [first_eq]
        · rw [text_eq, joinSlash_cons_cons]
      rcases append_eq_append_iff.1 same with ⟨component, first_eq, text_eq⟩ |
        ⟨used, front_eq, slash_eq⟩
      · exact inner component first_eq text_eq
      · cases used with
        | nil =>
          apply inner [] _ slash_eq.symm
          rw [front_eq, append_nil, append_nil]
        | cons slash used =>
          obtain ⟨-, later⟩ := cons.inj slash_eq
          obtain ⟨front, component, rest, suffix, text_eq⟩ :=
            ih (cons_ne_nil next components) ⟨used, later.symm⟩
          exact ⟨front, component, rest, suffix.trans (suffix_cons first _), text_eq⟩

theorem count_joinSlash {components : List (List Char)} (nonempty : components ≠ [])
    (plain : ∀ component ∈ components, '/' ∉ component) :
    (joinSlash components).count '/' + 1 = components.length := by
  induction components with
  | nil => exact absurd rfl nonempty
  | cons component rest ih =>
    have here : component.count '/' = 0 :=
      count_eq_zero.2 (plain component mem_cons_self)
    cases rest with
    | nil =>
      rw [joinSlash_singleton, here]
      rfl
    | cons next rest =>
      have later := ih (cons_ne_nil next rest) fun other mem =>
        plain other (mem_cons_of_mem component mem)
      rw [joinSlash_cons_cons, count_append, here, count_cons_self, length_cons]
      omega

theorem matchTokens_word {component rest : List Char}
    {tokens : List Token} (plain : ∀ piece ∈ pieces, piece.Plain) (inside : '/' ∉ component)
    (ended : ∀ c ∈ rest.head?, c = '/')
    (outside : ∀ c front, c ≠ '/' → matchTokens tokens (c :: front) = false) :
    matchTokens (pieces.map Piece.token ++ tokens) (component ++ rest) =
      (matchesWord pieces component && matchTokens tokens rest) := by
  induction pieces generalizing component with
  | nil =>
    cases component with
    | nil => rfl
    | cons c component =>
      apply outside
      intro slash
      exact inside (slash ▸ mem_cons_self)
  | cons piece pieces ih =>
    have later : ∀ {other : List Char}, '/' ∉ other →
        matchTokens (pieces.map Piece.token ++ tokens) (other ++ rest) =
          (matchesWord pieces other && matchTokens tokens rest) :=
      ih fun other mem => plain other (mem_cons_of_mem piece mem)
    rw [map_cons, cons_append]
    cases piece with
    | star =>
      show matchTokens (.wildcard :: _) _ = _
      rw [matchTokens_wildcard, wildcardStops_append inside ended, any_map,
        matchesWord_star, Bool.eq_iff_iff, Bool.and_eq_true, any_eq_true,
        any_eq_true]
      have tail_inside : ∀ {tail}, tail ∈ component.tails → '/' ∉ tail := fun mem slash =>
        inside (((mem_tails _ _).1 mem).subset slash)
      constructor
      · intro ⟨tail, mem, matched⟩
        rw [Function.comp_apply, later (tail_inside mem), Bool.and_eq_true] at matched
        exact ⟨⟨tail, mem, matched.1⟩, matched.2⟩
      · intro ⟨⟨tail, mem, matched⟩, rest_matched⟩
        refine ⟨tail, mem, ?_⟩
        rw [Function.comp_apply, later (tail_inside mem), matched, rest_matched]
        rfl
    | letter c =>
      show matchTokens (.literal [c] :: _) _ = _
      have not_slash := (plain _ mem_cons_self c rfl).1
      cases component with
      | nil =>
        cases rest with
        | nil => rw [append_nil, matchTokens_letter_nil]; rfl
        | cons d rest =>
          rw [nil_append, matchTokens_letter_cons, ended d rfl, decide_eq_false not_slash.symm]
          rfl
      | cons d component =>
        rw [cons_append, matchTokens_letter_cons, matchesWord_letter_cons,
          later fun mem => inside (mem_cons_of_mem d mem), Bool.and_assoc]
    | single =>
      show matchTokens (.singleChar :: _) _ = _
      cases component with
      | nil =>
        cases rest with
        | nil => rfl
        | cons d rest =>
          rw [nil_append, matchTokens_singleChar_cons, ended d rfl]
          rfl
      | cons d component =>
        have not_slash : d ≠ '/' := fun same => inside (same ▸ mem_cons_self)
        rw [cons_append, matchTokens_singleChar_cons, matchesWord_single_cons,
          decide_eq_true not_slash, Bool.true_and]
        exact later fun mem => inside (mem_cons_of_mem d mem)

private theorem ended_nil (c : Char) (head : c ∈ ([] : List Char).head?) : c = '/' :=
  absurd head.symm (Option.some_ne_none c)

private theorem ended_slash (rest : List Char) (c : Char) (head : c ∈ ('/' :: rest).head?) :
    c = '/' :=
  (Option.some.inj head).symm

private theorem nil_outside (c : Char) (front : List Char) (_ : c ≠ '/') :
    matchTokens [] (c :: front) = false := rfl

private theorem slash_outside (tokens : List Token) (c : Char) (front : List Char)
    (other : c ≠ '/') : matchTokens (.literal ['/'] :: tokens) (c :: front) = false := by
  rw [matchTokens_letter_cons, decide_eq_false other, Bool.false_and]

theorem matchTokens_lastWord
    {rest : List (List Char)} (plain : ∀ piece ∈ pieces, piece.Plain) (inside : '/' ∉ component) :
    matchTokens (partsTokens [.word pieces]) (joinSlash (component :: rest)) =
      (matchesWord pieces component && rest.isEmpty) := by
  show matchTokens (pieces.map Piece.token) _ = _
  rw [← append_nil (pieces.map Piece.token)]
  cases rest with
  | nil =>
    rw [joinSlash_singleton, ← append_nil component]
    rw [matchTokens_word plain inside ended_nil nil_outside]
    rw [append_nil]
    rfl
  | cons next rest =>
    rw [joinSlash_cons_cons]
    rw [matchTokens_word plain inside (ended_slash _) nil_outside]
    rfl

theorem matchTokens_innerWord {part : PatternPart Char}
    {parts : List (PatternPart Char)} {rest : List (List Char)}
    (plain : ∀ piece ∈ pieces, piece.Plain) (inside : '/' ∉ component) :
    matchTokens (partsTokens (.word pieces :: part :: parts)) (joinSlash (component :: rest)) =
      (matchesWord pieces component && !rest.isEmpty &&
        matchTokens (partsTokens (part :: parts)) (joinSlash rest)) := by
  show matchTokens (pieces.map Piece.token ++ .literal ['/'] :: _) _ = _
  cases rest with
  | nil =>
    rw [joinSlash_singleton, ← append_nil component]
    rw [matchTokens_word plain inside ended_nil (slash_outside _)]
    rw [matchTokens_letter_nil, isEmpty_nil, Bool.not_true, Bool.and_false, Bool.and_false]
    rfl
  | cons next rest =>
    rw [joinSlash_cons_cons]
    rw [matchTokens_word plain inside (ended_slash _) (slash_outside _)]
    rw [matchTokens_letter_cons, decide_eq_true rfl, Bool.true_and, isEmpty_cons,
      Bool.not_false, Bool.and_true]

theorem matchTokens_deep (parts : List (PatternPart Char)) (rest : List Char) :
    matchTokens (partsTokens (.deep :: parts)) rest =
      rest.tails.any (matchTokens (partsTokens parts)) :=
  matchTokens_recursive (partsTokens parts) rest

end ContextEngine

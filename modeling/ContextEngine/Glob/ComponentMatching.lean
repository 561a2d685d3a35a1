/- digest: The patterns for which walking the characters of a path is matching its components. -/

import ContextEngine.Glob.Components

set_option autoImplicit false

namespace ContextEngine

open List Wildcard

variable {parts : List (PatternPart Char)}

private theorem exists_word_mem (nonempty : parts ≠ [])
    (last : parts.getLast? ≠ some .deep) : ∃ pieces, .word pieces ∈ parts := by
  cases whole : parts.getLast? with
  | none => exact absurd (getLast?_eq_none_iff.1 whole) nonempty
  | some part =>
    cases part with
    | word pieces => exact ⟨pieces, mem_of_getLast? whole⟩
    | deep => exact absurd whole last

private theorem plain_of_wellFormed {pieces : List (Piece Char)} {parts : List (PatternPart Char)}
    (wellFormed : ∀ part ∈ parts, part.WellFormed) (mem : .word pieces ∈ parts) :
    ∀ piece ∈ pieces, piece.Plain :=
  (wellFormed _ mem).2.2.1

/-- If the last part is a word and every word after `**` absorbs, walking the characters is
    matching the components. -/
theorem matchTokens_eq_matchesPath {components : List (List Char)}
    (nonempty : parts ≠ []) (wellFormed : ∀ part ∈ parts, part.WellFormed)
    (last : parts.getLast? ≠ some .deep)
    (chain : parts.IsChain fun part next => part = .deep → next.absorbs = true)
    (some_component : components ≠ []) (inside : ∀ component ∈ components, '/' ∉ component) :
    matchTokens (partsTokens parts) (joinSlash components) = matchesPath parts components := by
  induction parts generalizing components with
  | nil => exact absurd rfl nonempty
  | cons part parts ih =>
    have formed : ∀ other ∈ parts, other.WellFormed := fun other mem =>
      wellFormed other (mem_cons_of_mem part mem)
    obtain ⟨component, rest, rfl⟩ := exists_cons_of_ne_nil some_component
    have here : '/' ∉ component := inside component mem_cons_self
    have later : ∀ other ∈ rest, '/' ∉ other := fun other mem =>
      inside other (mem_cons_of_mem component mem)
    cases parts with
    | nil =>
      cases part with
      | deep => exact absurd rfl last
      | word pieces =>
        exact matchTokens_lastWord (plain_of_wellFormed wellFormed mem_cons_self) here
    | cons next parts =>
      have more : next :: parts ≠ [] := cons_ne_nil next parts
      have last_rest : (next :: parts).getLast? ≠ some .deep := by
        rwa [getLast?_cons_cons] at last
      obtain ⟨pieces, word_mem⟩ := exists_word_mem more last_rest
      have no_empty : matchesPath (next :: parts) [] = false :=
        matchesPath_empty_of_word word_mem
      cases part with
      | word pieces =>
        rw [matchTokens_innerWord (plain_of_wellFormed wellFormed mem_cons_self) here,
          matchesPath_word_cons, Bool.and_assoc]
        congr 1
        cases rest with
        | nil => rw [no_empty]; rfl
        | cons component rest =>
          rw [ih more formed last_rest chain.tail (cons_ne_nil _ _) later]
          rfl
      | deep =>
        have opens := chain.rel_head? rfl rfl
        rw [matchTokens_deep, matchesPath_deep, Bool.eq_iff_iff, any_eq_true, any_eq_true]
        constructor
        · -- a match from inside a component is one from its start
          intro ⟨text, tail, matched⟩
          obtain ⟨front, inner, after, suffix, rfl⟩ :=
            exists_of_suffix_joinSlash some_component ((mem_tails _ _).1 tail)
          have whole : ∀ other ∈ inner :: after, '/' ∉ other := by
            intro other mem
            rcases mem_cons.1 mem with rfl | mem
            · exact fun slash =>
                inside _ (suffix.subset mem_cons_self) (mem_append_right _ slash)
            · exact inside other (suffix.subset (mem_cons_of_mem _ mem))
          rw [ih more formed last_rest chain.tail (cons_ne_nil _ _) whole] at matched
          refine ⟨_, (mem_tails _ _).2 suffix, ?_⟩
          apply matchesPath_append_of_absorbs front chain.tail _ matched
          intro first first_mem
          rwa [← Option.some.inj first_mem]
        · intro ⟨after, tail, matched⟩
          cases after with
          | nil => exact absurd (no_empty.symm.trans matched) Bool.false_ne_true
          | cons inner after =>
            have suffix := (mem_tails _ _).1 tail
            refine ⟨_, (mem_tails _ _).2 (joinSlash_suffix suffix), ?_⟩
            rw [ih more formed last_rest chain.tail (cons_ne_nil _ _)
              fun other mem => inside other (suffix.subset mem)]
            exact matched

theorem matchTokens_of_all_deep
    (deep : ∀ part ∈ parts, part = .deep) (nonempty : parts ≠ []) (rest : List Char) :
    matchTokens (partsTokens parts) rest = true := by
  have empty : ∀ others : List (PatternPart Char), (∀ part ∈ others, part = .deep) →
      matchTokens (partsTokens others) [] = true := by
    intro others all
    induction others with
    | nil => rfl
    | cons part others ih =>
      rw [all part mem_cons_self, matchTokens_deep, any_eq_true]
      exact ⟨[], (mem_tails _ _).2 suffix_rfl,
        ih fun other mem => all other (mem_cons_of_mem part mem)⟩
  obtain ⟨part, others, rfl⟩ := exists_cons_of_ne_nil nonempty
  rw [deep part mem_cons_self, matchTokens_deep, any_eq_true]
  exact ⟨[], (mem_tails _ _).2 nil_suffix,
    empty others fun other mem => deep other (mem_cons_of_mem part mem)⟩

private theorem no_slash_pieces {pieces : List (Piece Char)}
    (plain : ∀ piece ∈ pieces, piece.Plain) :
    (pieces.map Piece.token).any Token.isLiteralWithSlash = false := by
  rw [any_eq_false]
  intro token mem slash
  obtain ⟨piece, piece_mem, rfl⟩ := mem_map.1 mem
  cases piece with
  | letter c =>
    have same : '/' = c := mem_singleton.1 (contains_iff_mem.1 slash)
    exact (plain _ piece_mem c rfl).1 same.symm
  | single => exact absurd slash Bool.false_ne_true
  | star => exact absurd slash Bool.false_ne_true

private theorem exists_deep_cons (several : parts.length ≠ 1)
    (nonempty : parts ≠ []) (flat : (partsTokens parts).any Token.isLiteralWithSlash = false) :
    ∃ others, parts = .deep :: others := by
  cases parts with
  | nil => exact absurd rfl nonempty
  | cons part others =>
    cases part with
    | deep => exact ⟨others, rfl⟩
    | word pieces =>
      cases others with
      | nil => exact absurd rfl several
      | cons next others =>
        have slash : Token.literal ['/'] ∈ partsTokens (.word pieces :: next :: others) :=
          mem_append_right _ mem_cons_self
        exact absurd rfl (any_eq_false.1 flat _ slash)

theorem GlobPattern.isMatch_text (pattern : GlobPattern) (path : SlashPath) :
    (Glob.new pattern.text).map (·.isMatch path.text) =
      .ok (matchTokens (partsTokens pattern.parts) (joinSlash path.components) ||
        (!pattern.anchored && !(partsTokens pattern.parts).any Token.isLiteralWithSlash &&
          path.fileName.any (matchTokens (partsTokens pattern.parts)))) := by
  obtain ⟨tokens, ok, spells⟩ := pattern.new_text
  have same : matchTokens tokens = matchTokens (partsTokens pattern.parts) := by
    funext rest
    rw [← spells, matchTokens_spelled]
  rw [ok, Except.map, Glob.isMatch_eq _ _ path.no_backslash, path.pathFileName_text,
    path.toList_text, ← any_literalWithSlash_spelled, spells, same]

variable {pattern : GlobPattern}

private theorem fileName_agrees {path : SlashPath} (last : pattern.parts.getLast? ≠ some .deep)
    (chain : pattern.parts.IsChain fun part next => part = .deep → next.absorbs = true)
    (unmatched : matchTokens (partsTokens pattern.parts) (joinSlash path.components) = false) :
    (!(partsTokens pattern.parts).any Token.isLiteralWithSlash &&
        path.fileName.any (matchTokens (partsTokens pattern.parts))) =
      (decide (pattern.parts.length = 1) &&
        path.fileName.any fun name => matchesPath pattern.parts [name]) := by
  have agrees : ∀ name, path.fileName = some name →
      matchTokens (partsTokens pattern.parts) name = matchesPath pattern.parts [name] := by
    intro name named
    have mem := mem_of_getLast? (Option.filter_eq_some_iff.1 named).1
    have inside : ∀ component ∈ [name], '/' ∉ component := fun component single =>
      mem_singleton.1 single ▸ (path.plain name mem).1
    rw [← matchTokens_eq_matchesPath pattern.nonempty pattern.wellFormed last chain
      (cons_ne_nil name []) inside, joinSlash_singleton]
  cases named : path.fileName with
  | none => rw [Option.any_none, Option.any_none, Bool.and_false, Bool.and_false]
  | some name =>
    rw [Option.any_some, Option.any_some, agrees name named]
    by_cases alone : pattern.parts.length = 1
    · obtain ⟨part, parts_eq⟩ := length_eq_one_iff.1 alone
      congr 1
      rw [decide_eq_true alone, Bool.not_eq_true', parts_eq]
      cases part with
      | deep => rfl
      | word pieces =>
        apply no_slash_pieces
        apply plain_of_wellFormed pattern.wellFormed
        rw [parts_eq]
        exact mem_singleton_self _
    · rw [decide_eq_false alone, Bool.false_and, Bool.and_eq_false_iff]
      cases flat : (partsTokens pattern.parts).any Token.isLiteralWithSlash with
      | true => exact Or.inl rfl
      | false =>
        right
        obtain ⟨others, parts_eq⟩ := exists_deep_cons alone pattern.nonempty flat
        rw [← agrees name named, Bool.eq_false_iff]
        intro matched
        -- `**` reaches the file name from the start of the path too
        rw [parts_eq, matchTokens_deep, any_eq_true] at matched
        obtain ⟨rest, tail, rest_matched⟩ := matched
        rw [parts_eq, matchTokens_deep, any_eq_false] at unmatched
        apply unmatched rest _ rest_matched
        have last_name := (Option.filter_eq_some_iff.1 named).1
        obtain ⟨front, whole⟩ := getLast?_eq_some_iff.1 last_name
        rw [mem_tails]
        apply ((mem_tails _ _).1 tail).trans
        rw [← joinSlash_singleton name]
        apply joinSlash_suffix
        rw [whole]
        exact suffix_append front [name]

private theorem agrees_of_harmless (harmless : pattern.Harmless) (path : SlashPath) :
    (Glob.new pattern.text).map (·.isMatch path.text) = .ok (pattern.accepts path) := by
  rw [pattern.isMatch_text]
  congr 1
  rw [GlobPattern.accepts]
  rcases harmless with deep | ⟨last, chain⟩
  · rw [matchTokens_of_all_deep deep pattern.nonempty,
      matchesPath_of_all_deep deep pattern.nonempty, Bool.true_or, Bool.true_or]
  · have whole := matchTokens_eq_matchesPath pattern.nonempty pattern.wellFormed last chain
      path.nonempty fun component mem => (path.plain component mem).1
    cases unmatched : matchTokens (partsTokens pattern.parts) (joinSlash path.components) with
    | true => rw [← whole, unmatched, Bool.true_or, Bool.true_or]
    | false =>
      rw [← whole, unmatched, Bool.false_or, Bool.false_or, Bool.and_assoc, Bool.and_assoc,
        fileName_agrees last chain unmatched]

/-- A component that can stand at the end of a path. -/
private def IsName (component : List Char) : Prop :=
  component ≠ [] ∧ component ≠ ['.'] ∧ '/' ∉ component ∧ '\\' ∉ component

private theorem exists_path {components : List (List Char)} (nonempty : components ≠ [])
    (names : ∀ component ∈ components, IsName component) :
    ∃ path : SlashPath, path.components = components :=
  ⟨⟨components, nonempty, fun component mem => (names component mem).2.2,
    fun name last => ⟨(names name (mem_of_getLast? last)).1,
      (names name (mem_of_getLast? last)).2.1⟩⟩, rfl⟩

private def IsFill (fill : Char) : Prop := fill = 'x' ∨ fill = 'y'

private theorem IsFill.ne {fill c : Char} (is_fill : IsFill fill) (not_x : 'x' ≠ c)
    (not_y : 'y' ≠ c) : fill ≠ c := by
  rcases is_fill with rfl | rfl
  · exact not_x
  · exact not_y

variable {fill : Char}

private theorem isName_sample {pieces : List (Piece Char)} (is_fill : IsFill fill)
    (formed : (PatternPart.word pieces).WellFormed) : IsName (sample fill pieces) := by
  obtain ⟨some_piece, not_dot, plain, -⟩ := formed
  have among : ∀ c ∈ sample fill pieces, c = fill ∨ .letter c ∈ pieces := by
    intro c mem
    obtain ⟨piece, piece_mem, rfl⟩ := mem_map.1 mem
    cases piece with
    | letter c => exact Or.inr piece_mem
    | single => exact Or.inl rfl
    | star => exact Or.inl rfl
  refine ⟨fun empty => some_piece (map_eq_nil_iff.1 empty), fun dot => ?_, fun mem => ?_,
    fun mem => ?_⟩
  · obtain ⟨piece, rest, rfl⟩ := exists_cons_of_ne_nil some_piece
    obtain rfl : rest = [] := map_eq_nil_iff.1 (cons.inj dot).2
    cases piece with
    | letter c =>
      obtain rfl : c = '.' := (cons.inj dot).1
      exact not_dot rfl
    | single => exact is_fill.ne (by decide) (by decide) (cons.inj dot).1
    | star => exact is_fill.ne (by decide) (by decide) (cons.inj dot).1
  · rcases among _ mem with same | letter
    · exact is_fill.ne (by decide) (by decide) same.symm
    · exact (plain _ letter '/' rfl).1 rfl
  · rcases among _ mem with same | letter
    · exact is_fill.ne (by decide) (by decide) same.symm
    · exact (plain _ letter '\\' rfl).2.1 rfl

private theorem IsName.cons {component : List Char} (is_fill : IsFill fill)
    (name : IsName component) : IsName (fill :: component) := by
  refine ⟨cons_ne_nil fill component, fun dot => ?_, fun mem => ?_, fun mem => ?_⟩
  · exact is_fill.ne (by decide) (by decide) (cons.inj dot).1
  · rcases mem_cons.1 mem with same | later
    · exact is_fill.ne (by decide) (by decide) same.symm
    · exact name.2.2.1 later
  · rcases mem_cons.1 mem with same | later
    · exact is_fill.ne (by decide) (by decide) same.symm
    · exact name.2.2.2 later

private theorem isName_samples (is_fill : IsFill fill)
    (wellFormed : ∀ part ∈ parts, part.WellFormed) :
    ∀ component ∈ (words parts).map (sample fill), IsName component := by
  intro component mem
  obtain ⟨pieces, word_mem, rfl⟩ := mem_map.1 mem
  exact isName_sample is_fill (wellFormed _ (mem_words.1 word_mem))

private theorem countP_slash_of_last_deep (last : parts.getLast? = some .deep) :
    (words parts).length ≤ (partsTokens parts).countP Token.isLiteralWithSlash := by
  induction parts with
  | nil => exact absurd last.symm (Option.some_ne_none _)
  | cons part parts ih =>
    cases parts with
    | nil =>
      obtain rfl : part = .deep := Option.some.inj last
      exact Nat.zero_le _
    | cons next parts =>
      have rest := ih (by rwa [getLast?_cons_cons] at last)
      cases part with
      | deep => exact rest.trans (List.Sublist.countP_le (sublist_cons_self _ _))
      | word pieces =>
        show _ ≤ (pieces.map Piece.token ++ Token.literal ['/'] :: _).countP _
        rw [words_word, length_cons, countP_append, countP_cons_of_pos rfl]
        omega

private theorem matchTokens_samples_append {front parts : List (PatternPart Char)}
    {components : List (List Char)} (is_fill : IsFill fill)
    (wellFormed : ∀ part ∈ front, part.WellFormed) (nonempty : parts ≠ [])
    (some_component : components ≠ [])
    (matched : matchTokens (partsTokens parts) (joinSlash components) = true) :
    matchTokens (partsTokens (front ++ parts))
      (joinSlash ((words front).map (sample fill) ++ components)) = true := by
  induction front with
  | nil => exact matched
  | cons part front ih =>
    have rest := ih fun other mem => wellFormed other (mem_cons_of_mem part mem)
    cases part with
    | deep =>
      rw [cons_append, matchTokens_deep, any_eq_true]
      exact ⟨_, (mem_tails _ _).2 suffix_rfl, rest⟩
    | word pieces =>
      have formed := wellFormed _ mem_cons_self
      obtain ⟨next, others, others_eq⟩ : ∃ next others, front ++ parts = next :: others :=
        exists_cons_of_ne_nil (append_ne_nil_of_right_ne_nil front nonempty)
      rw [others_eq] at rest
      have more : (words front).map (sample fill) ++ components ≠ [] :=
        append_ne_nil_of_right_ne_nil _ some_component
      rw [words_word, map_cons, cons_append, cons_append, others_eq,
        matchTokens_innerWord formed.2.2.1 (isName_sample is_fill formed).2.2.1,
        matchesWord_sample, rest,
        Bool.eq_false_iff.2 fun empty => more (isEmpty_iff.1 empty)]
      rfl

private theorem matchTokens_samples
    (is_fill : IsFill fill) (wellFormed : ∀ part ∈ parts, part.WellFormed) (nonempty : parts ≠ [])
    (last : parts.getLast? ≠ some .deep) :
    matchTokens (partsTokens parts) (joinSlash ((words parts).map (sample fill))) = true := by
  obtain ⟨front, part, rfl⟩ := (eq_nil_or_concat' parts).resolve_left nonempty
  have formed := wellFormed part (mem_append_right front (mem_singleton_self part))
  cases part with
  | deep => exact absurd getLast?_concat last
  | word pieces =>
    have alone : matchTokens (partsTokens [.word pieces]) (joinSlash [sample fill pieces]) =
        true := by
      rw [matchTokens_lastWord formed.2.2.1 (isName_sample is_fill formed).2.2.1,
        matchesWord_sample]
      rfl
    rw [words_append, map_append]
    exact matchTokens_samples_append is_fill
      (fun other mem => wellFormed other (mem_append_left _ mem)) (cons_ne_nil _ _)
      (cons_ne_nil _ _) alone

private theorem joinSlash_cons_letter (c : Char) (component : List Char) (rest : List (List Char)) :
    joinSlash ((c :: component) :: rest) = c :: joinSlash (component :: rest) := by
  cases rest with
  | nil => rw [joinSlash_singleton, joinSlash_singleton]
  | cons next rest => rw [joinSlash_cons_cons, joinSlash_cons_cons, cons_append]

/-- A pattern that ends in `**` after a word wants a slash that the samples of its words lack. -/
private theorem disagrees_of_last_deep
    (last : pattern.parts.getLast? = some .deep) {pieces : List (Piece Char)}
    (word_mem : .word pieces ∈ pattern.parts) :
    ∃ path : SlashPath,
      (Glob.new pattern.text).map (·.isMatch path.text) ≠ .ok (pattern.accepts path) := by
  have is_fill : IsFill 'x' := Or.inl rfl
  have some_word : words pattern.parts ≠ [] := ne_nil_of_mem (mem_words.2 word_mem)
  have some_sample : (words pattern.parts).map (sample 'x') ≠ [] := fun empty =>
    some_word (map_eq_nil_iff.1 empty)
  have names := isName_samples is_fill pattern.wellFormed
  obtain ⟨path, components⟩ := exists_path some_sample names
  have slashes := countP_slash_of_last_deep last
  have accepted : pattern.accepts path = true := by
    rw [GlobPattern.accepts, components, matchesPath_samples, Bool.true_or]
  have some_slash : (partsTokens pattern.parts).any Token.isLiteralWithSlash = true := by
    rw [any_eq_true]
    obtain ⟨token, mem, slash⟩ := countP_pos_iff.1
      ((length_pos_iff.2 some_word).trans_le slashes)
    exact ⟨token, mem, slash⟩
  refine ⟨path, fun agreed => ?_⟩
  rw [pattern.isMatch_text, accepted, some_slash, Bool.not_true, Bool.and_false, Bool.false_and,
    Bool.or_false] at agreed
  have matched := Except.ok.inj agreed
  have enough := countP_literalWithSlash_le matched
  have count := count_joinSlash path.nonempty fun component mem => (path.plain component mem).1
  have length := congrArg length components
  rw [length_map] at length
  omega

private theorem disagrees_of_closed_word
    {before after : List (PatternPart Char)} {pieces : List (Piece Char)}
    (whole : pattern.parts = before ++ .deep :: .word pieces :: after)
    (last : pattern.parts.getLast? ≠ some .deep) (closed : absorbs pieces = false) :
    ∃ path : SlashPath,
      (Glob.new pattern.text).map (·.isMatch path.text) ≠ .ok (pattern.accepts path) := by
  have distinct : 'x' ≠ 'y' := by decide
  obtain ⟨fill, is_fill, rejected⟩ := exists_rejected_sample distinct closed
  have formed := pattern.wellFormed
  rw [whole] at formed last
  have formed_before : ∀ part ∈ before, part.WellFormed := fun part mem =>
    formed part (mem_append_left _ mem)
  have formed_rest : ∀ part ∈ .word pieces :: after, part.WellFormed := fun part mem =>
    formed part (mem_append_right before (mem_cons_of_mem _ mem))
  have names_before := isName_samples is_fill formed_before
  have names_rest := isName_samples is_fill formed_rest
  rw [words_word, map_cons] at names_rest
  -- the samples of the words, with a letter in front of the one that does not absorb it
  obtain ⟨path, components⟩ : ∃ path : SlashPath, path.components =
      (words before).map (sample fill) ++
        (fill :: sample fill pieces) :: (words after).map (sample fill) := by
    apply exists_path (append_ne_nil_of_right_ne_nil _ (cons_ne_nil _ _))
    intro component mem
    rcases mem_append.1 mem with mem | mem
    · exact names_before component mem
    · rcases mem_cons.1 mem with rfl | mem
      · exact (names_rest _ mem_cons_self).cons is_fill
      · exact names_rest component (mem_cons_of_mem _ mem)
  have last_rest : (PatternPart.word pieces :: after).getLast? ≠ some .deep := by
    rwa [getLast?_append_cons, getLast?_cons_cons] at last
  have walked : matchTokens (partsTokens pattern.parts) (joinSlash path.components) = true := by
    rw [whole, components]
    apply matchTokens_samples_append is_fill formed_before (cons_ne_nil _ _) (cons_ne_nil _ _)
    rw [matchTokens_deep, any_eq_true]
    refine ⟨joinSlash (sample fill pieces :: (words after).map (sample fill)), ?_, ?_⟩
    · rw [joinSlash_cons_letter, mem_tails]
      exact suffix_cons fill _
    · exact matchTokens_samples is_fill formed_rest (cons_ne_nil _ _) last_rest
  have words_eq : words pattern.parts = words before ++ pieces :: words after := by
    rw [whole, words_append]
    rfl
  have unmatched : matchesPath pattern.parts path.components = false := by
    rw [Bool.eq_false_iff]
    intro matched
    have short : path.components.length ≤ (words pattern.parts).length := by
      rw [components, words_eq]
      simp only [length_append, length_map, length_cons, le_refl]
    obtain ⟨-, pairs⟩ := forall₂_iff_zip.1 (forall₂_of_matchesPath matched short)
    have taken : matchesWord pieces (fill :: sample fill pieces) = true := by
      apply pairs
      rw [components, words_eq, zip_append (length_map _).symm]
      exact mem_append_right _ mem_cons_self
    exact absurd (rejected.symm.trans taken) Bool.false_ne_true
  have several : pattern.parts.length ≠ 1 := by
    rw [whole, length_append, length_cons, length_cons]
    omega
  refine ⟨path, fun agreed => ?_⟩
  rw [pattern.isMatch_text, walked, Bool.true_or, GlobPattern.accepts, unmatched,
    decide_eq_false several, Bool.and_false, Bool.false_and, Bool.false_or] at agreed
  exact absurd (Except.ok.inj agreed) (Bool.false_ne_true ∘ Eq.symm)

/-- A pattern matches every path as its components do if and only if it is harmless. -/
theorem GlobPattern.isMatch_eq_accepts_iff (pattern : GlobPattern) :
    (∀ path : SlashPath,
        (Glob.new pattern.text).map (·.isMatch path.text) = .ok (pattern.accepts path)) ↔
      pattern.Harmless := by
  constructor
  · intro agrees
    by_contra harmful
    obtain ⟨some_word, rest⟩ := not_or.1 harmful
    have disagrees : ∃ path : SlashPath,
        (Glob.new pattern.text).map (·.isMatch path.text) ≠ .ok (pattern.accepts path) := by
      by_cases last : pattern.parts.getLast? = some .deep
      · rw [not_forall] at some_word
        obtain ⟨part, some_word⟩ := some_word
        obtain ⟨mem, word⟩ := Classical.not_imp.1 some_word
        cases part with
        | word pieces => exact disagrees_of_last_deep last mem
        | deep => exact absurd rfl word
      · obtain ⟨before, part, next, after, whole, broken⟩ :=
          exists_of_not_isChain fun chain => rest ⟨last, chain⟩
        obtain ⟨rfl, closed⟩ := Classical.not_imp.1 broken
        cases next with
        | word pieces => exact disagrees_of_closed_word whole last (Bool.not_eq_true _ ▸ closed)
        | deep => exact absurd rfl closed
    obtain ⟨path, differs⟩ := disagrees
    exact differs (agrees path)
  · intro harmless path
    exact agrees_of_harmless harmless path

def deepFoo : GlobPattern where
  anchored := false
  parts := [.deep, .word [.letter 'f', .letter 'o', .letter 'o']]
  nonempty := List.cons_ne_nil _ _
  wellFormed := by
    intro part mem
    rcases List.mem_cons.1 mem with rfl | mem
    · trivial
    · rw [List.mem_singleton.1 mem]
      refine ⟨by decide, by decide, ?_, by decide⟩
      intro piece piece_mem c letter
      rw [letter] at piece_mem
      simp only [List.mem_cons, Piece.letter.injEq, List.not_mem_nil, or_false] at piece_mem
      rcases piece_mem with rfl | rfl | rfl <;> decide

def barfoo : SlashPath where
  components := [['b', 'a', 'r', 'f', 'o', 'o']]
  nonempty := List.cons_ne_nil _ _
  plain := by decide
  named := by decide

/-- `**/foo` matches `barfoo`, which is no component `foo`. -/
theorem deepFoo_matches_barfoo :
    deepFoo.text = "**/foo" ∧ barfoo.text = "barfoo" ∧
      (Glob.new deepFoo.text).map (·.isMatch barfoo.text) = .ok true ∧
      deepFoo.accepts barfoo = false := by
  decide +kernel

end ContextEngine

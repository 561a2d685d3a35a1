/- digest: Glob patterns as the tokens they are compiled to, and the matcher that walks them. -/

import Mathlib.Data.List.Infix

set_option autoImplicit false

namespace ContextEngine

open List

inductive Token
  | literal (lit : List Char)
  /-- `*` -/
  | wildcard
  /-- `**` -/
  | recursive
  /-- `?` -/
  | singleChar
  deriving DecidableEq, Repr

/-- A compiled glob pattern. -/
structure Glob where
  tokens : List Token
  isRecursive : Bool
  isAnchored : Bool
  deriving DecidableEq, Repr

def flushLiteral (currentLiteral : List Char) (tokens : List Token) : List Token :=
  if currentLiteral.isEmpty then tokens else .literal currentLiteral :: tokens

def tokenizeFrom : List Char → List Char → Except String (List Token)
  | [], currentLiteral => .ok (flushLiteral currentLiteral [])
  | c :: chars, currentLiteral =>
    if c = '*' then
      match chars with
      | d :: after =>
        if d = '*' then
          match after with
          | [] => .ok (flushLiteral currentLiteral [.recursive])
          | e :: rest =>
            -- the slash after `**` is consumed with it
            if e = '/' then
              (tokenizeFrom rest []).map fun tokens =>
                flushLiteral currentLiteral (.recursive :: tokens)
            else .error "Invalid use of **"
        else
          (tokenizeFrom (d :: after) []).map fun tokens =>
            flushLiteral currentLiteral (.wildcard :: tokens)
      | [] => .ok (flushLiteral currentLiteral [.wildcard])
    else if c = '?' then
      (tokenizeFrom chars []).map fun tokens =>
        flushLiteral currentLiteral (.singleChar :: tokens)
    else tokenizeFrom chars (currentLiteral ++ [c])

def tokenize (pattern : List Char) : Except String (List Token) := tokenizeFrom pattern []

/-- Where a `*` can stop in the rest of a path: before every character up to the next slash. -/
def wildcardStops : List Char → List (List Char)
  | [] => [[]]
  | c :: rest => (c :: rest) :: if c = '/' then [] else wildcardStops rest

/-- Whether the tokens match the rest of the path: the source's two indexes are the tokens and the
    characters that are left. -/
def matchTokens : List Token → List Char → Bool
  | [], rest => rest.isEmpty
  | .literal lit :: tokens, rest =>
    lit.isPrefixOf rest && matchTokens tokens (rest.drop lit.length)
  | .wildcard :: tokens, rest => (wildcardStops rest).any (matchTokens tokens)
  | .recursive :: tokens, rest => rest.tails.any (matchTokens tokens)
  | .singleChar :: tokens, c :: rest => decide (c ≠ '/') && matchTokens tokens rest
  | .singleChar :: _, [] => false

/-- `Path::file_name`: the last component that is not empty and not `.`, unless it is `..`. -/
def pathFileName (path : List Char) : Option (List Char) :=
  ((path.splitOn '/').filter fun component => component ≠ [] ∧ component ≠ ['.']).getLast?.filter
    fun name => name ≠ ['.', '.']

def Token.isLiteralWithSlash : Token → Bool
  | .literal lit => lit.contains '/'
  | _ => false

def Glob.new (pattern : String) : Except String Glob :=
  let isAnchored := pattern.toList.head? = some '/'
  let cleanPattern := if isAnchored then pattern.toList.tail else pattern.toList
  (tokenize cleanPattern).map fun tokens =>
    { tokens := tokens
      isRecursive := tokens.any (· = .recursive)
      isAnchored := isAnchored }

def Glob.isMatch (glob : Glob) (path : String) : Bool :=
  let pathStr := path.toList.map fun c => if c = '\\' then '/' else c
  if glob.isAnchored then matchTokens glob.tokens pathStr
  else if matchTokens glob.tokens pathStr then true
  else if !glob.isRecursive && !pathStr.contains '/' then matchTokens glob.tokens pathStr
  else if !glob.tokens.any Token.isLiteralWithSlash then
    (pathFileName path.toList).any (matchTokens glob.tokens)
  else false

@[simp] theorem matchTokens_nil (rest : List Char) : matchTokens [] rest = rest.isEmpty := rfl

theorem matchTokens_literal (lit : List Char) (tokens : List Token) (rest : List Char) :
    matchTokens (.literal lit :: tokens) rest =
      (lit.isPrefixOf rest && matchTokens tokens (rest.drop lit.length)) := by
  cases rest <;> rfl

variable (tokens : List Token)

theorem matchTokens_wildcard (rest : List Char) :
    matchTokens (.wildcard :: tokens) rest = (wildcardStops rest).any (matchTokens tokens) := by
  cases rest <;> rfl

theorem matchTokens_recursive (rest : List Char) :
    matchTokens (.recursive :: tokens) rest = rest.tails.any (matchTokens tokens) := by
  cases rest <;> rfl

@[simp] theorem matchTokens_singleChar_cons (c : Char) (rest : List Char) :
    matchTokens (.singleChar :: tokens) (c :: rest) =
      (decide (c ≠ '/') && matchTokens tokens rest) := rfl

@[simp] theorem matchTokens_singleChar_nil :
    matchTokens (.singleChar :: tokens) [] = false := rfl

@[simp] theorem matchTokens_letter_cons (c d : Char) (tokens : List Token) (rest : List Char) :
    matchTokens (.literal [c] :: tokens) (d :: rest) =
      (decide (d = c) && matchTokens tokens rest) := by
  rw [matchTokens_literal]
  congr 1
  show (c == d && [].isPrefixOf rest) = decide (d = c)
  rw [isPrefixOf_nil_left, Bool.and_true, Bool.eq_iff_iff, beq_iff_eq, decide_eq_true_eq]
  exact eq_comm

@[simp] theorem matchTokens_letter_nil (c : Char) (tokens : List Token) :
    matchTokens (.literal [c] :: tokens) [] = false := by
  rw [matchTokens_literal]
  rfl

theorem suffix_of_mem_wildcardStops {stop rest : List Char} (mem : stop ∈ wildcardStops rest) :
    stop <:+ rest := by
  induction rest with
  | nil =>
    rw [mem_singleton.1 mem]
  | cons c rest ih =>
    rcases mem_cons.1 mem with here | later
    · rw [here]
    · split_ifs at later
      · exact absurd later not_mem_nil
      · exact (ih later).trans (suffix_cons c rest)

theorem wildcardStops_append {component rest : List Char} (inside : '/' ∉ component)
    (ended : ∀ c ∈ rest.head?, c = '/') :
    wildcardStops (component ++ rest) = component.tails.map (· ++ rest) := by
  induction component with
  | nil =>
    cases rest with
    | nil => rfl
    | cons c rest =>
      rw [nil_append, wildcardStops, if_pos (ended c rfl)]
      rfl
  | cons c component ih =>
    have other : c ≠ '/' := fun same => inside (same ▸ mem_cons_self)
    have inside_tail : '/' ∉ component := fun mem => inside (mem_cons_of_mem c mem)
    rw [cons_append, wildcardStops, if_neg other, ih inside_tail, tails_cons, map_cons, cons_append]

variable {tokens : List Token}

theorem countP_literalWithSlash_le {rest : List Char}
    (matched : matchTokens tokens rest = true) :
    tokens.countP Token.isLiteralWithSlash ≤ rest.count '/' := by
  induction tokens generalizing rest with
  | nil => exact Nat.zero_le _
  | cons token tokens ih =>
    -- a token that holds no literal leaves a suffix to the others
    have skip : ∀ later : List Char, token.isLiteralWithSlash = false → later <:+ rest →
        matchTokens tokens later = true →
        (token :: tokens).countP Token.isLiteralWithSlash ≤ rest.count '/' := by
      intro later free tail later_matched
      rw [countP_cons_of_neg (by rw [free]; exact Bool.false_ne_true)]
      exact (ih later_matched).trans (tail.sublist.count_le '/')
    cases token with
    | literal lit =>
      rw [matchTokens_literal, Bool.and_eq_true, isPrefixOf_iff_prefix] at matched
      obtain ⟨⟨later, rfl⟩, rest_matched⟩ := matched
      rw [drop_left] at rest_matched
      have slash : (if (Token.literal lit).isLiteralWithSlash = true then 1 else 0) ≤
          lit.count '/' := by
        split_ifs with contains
        · exact count_pos_iff.2 (contains_iff_mem.1 contains)
        · exact Nat.zero_le _
      rw [countP_cons, count_append, Nat.add_comm]
      exact Nat.add_le_add slash (ih rest_matched)
    | wildcard =>
      rw [matchTokens_wildcard, any_eq_true] at matched
      obtain ⟨later, stop, later_matched⟩ := matched
      exact skip later rfl (suffix_of_mem_wildcardStops stop) later_matched
    | recursive =>
      rw [matchTokens_recursive, any_eq_true] at matched
      obtain ⟨later, stop, later_matched⟩ := matched
      exact skip later rfl ((mem_tails _ _).1 stop) later_matched
    | singleChar =>
      cases rest with
      | nil => exact absurd matched Bool.false_ne_true
      | cons c rest =>
        rw [matchTokens_singleChar_cons, Bool.and_eq_true] at matched
        exact skip rest rfl (suffix_cons c rest) matched.2

def Token.spelled : Token → List Token
  | .literal lit => lit.map fun c => .literal [c]
  | .wildcard => [.wildcard]
  | .recursive => [.recursive]
  | .singleChar => [.singleChar]

def spelled (tokens : List Token) : List Token := tokens.flatMap Token.spelled

theorem spelled_cons (token : Token) (tokens : List Token) :
    spelled (token :: tokens) = token.spelled ++ spelled tokens :=
  flatMap_cons

theorem spelled_flushLiteral (currentLiteral : List Char) (tokens : List Token) :
    spelled (flushLiteral currentLiteral tokens) =
      (currentLiteral.map fun c => .literal [c]) ++ spelled tokens := by
  rw [flushLiteral]
  split_ifs with empty
  · rw [isEmpty_iff.1 empty]
    rfl
  · exact spelled_cons _ _

private theorem matchTokens_letters (lit : List Char) (tokens : List Token) (rest : List Char) :
    matchTokens ((lit.map fun c => .literal [c]) ++ tokens) rest =
      (lit.isPrefixOf rest && matchTokens tokens (rest.drop lit.length)) := by
  induction lit generalizing rest with
  | nil => rw [isPrefixOf_nil_left]; rfl
  | cons c lit ih =>
    rw [map_cons, cons_append]
    cases rest with
    | nil => rw [matchTokens_letter_nil]; rfl
    | cons d rest =>
      rw [matchTokens_letter_cons, ih, isPrefixOf_cons_cons, length_cons,
        drop_succ_cons, Bool.and_assoc]
      congr 1
      rw [Bool.eq_iff_iff, beq_iff_eq, decide_eq_true_eq]
      exact eq_comm

theorem matchTokens_spelled (rest : List Char) :
    matchTokens (spelled tokens) rest = matchTokens tokens rest := by
  induction tokens generalizing rest with
  | nil => rfl
  | cons token tokens ih =>
    have same : matchTokens (spelled tokens) = matchTokens tokens := funext ih
    rw [spelled_cons]
    cases token with
    | literal lit => rw [Token.spelled, matchTokens_letters, matchTokens_literal, same]
    | wildcard =>
      show matchTokens (.wildcard :: spelled tokens) rest = _
      rw [matchTokens_wildcard, matchTokens_wildcard, same]
    | recursive =>
      show matchTokens (.recursive :: spelled tokens) rest = _
      rw [matchTokens_recursive, matchTokens_recursive, same]
    | singleChar =>
      show matchTokens (.singleChar :: spelled tokens) rest = _
      cases rest with
      | nil => rfl
      | cons c rest => rw [matchTokens_singleChar_cons, matchTokens_singleChar_cons, ih]

private theorem any_literalWithSlash_letters (lit : List Char) :
    (lit.map fun c => Token.literal [c]).any Token.isLiteralWithSlash = lit.contains '/' := by
  rw [any_map, Bool.eq_iff_iff, any_eq_true, contains_iff_mem]
  constructor
  · intro ⟨c, mem, slash⟩
    rwa [mem_singleton.1 (contains_iff_mem.1 slash)]
  · intro mem
    exact ⟨'/', mem, rfl⟩

theorem any_literalWithSlash_spelled :
    (spelled tokens).any Token.isLiteralWithSlash = tokens.any Token.isLiteralWithSlash := by
  induction tokens with
  | nil => rfl
  | cons token tokens ih =>
    rw [spelled_cons, any_append, any_cons, ih]
    congr 1
    cases token with
    | literal lit => exact any_literalWithSlash_letters lit
    | wildcard => rfl
    | recursive => rfl
    | singleChar => rfl

def ReadAs (chars : List Char) (tokens : List Token) : Prop :=
  ∀ currentLiteral, ∃ read, tokenizeFrom chars currentLiteral = .ok read ∧
    spelled read = (currentLiteral.map fun c => .literal [c]) ++ tokens

variable {chars : List Char}

private theorem readAs_flush (token : Token)
    (single : token.spelled = [token])
    (step : ∀ currentLiteral, ∃ read, spelled read = tokens ∧
      tokenizeFrom chars currentLiteral = .ok (flushLiteral currentLiteral (token :: read))) :
    ReadAs chars (token :: tokens) := by
  intro currentLiteral
  obtain ⟨read, spells, ok⟩ := step currentLiteral
  refine ⟨_, ok, ?_⟩
  rw [spelled_flushLiteral, spelled_cons, single, spells]
  rfl

theorem readAs_nil : ReadAs [] [] := by
  intro currentLiteral
  exact ⟨_, rfl, spelled_flushLiteral currentLiteral []⟩

theorem ReadAs.letter (read : ReadAs chars tokens)
    {c : Char} (no_star : c ≠ '*') (no_question : c ≠ '?') :
    ReadAs (c :: chars) (.literal [c] :: tokens) := by
  intro currentLiteral
  obtain ⟨found, ok, spells⟩ := read (currentLiteral ++ [c])
  refine ⟨found, ?_, ?_⟩
  · rw [tokenizeFrom.eq_def]
    simp only [if_neg no_star, if_neg no_question]
    exact ok
  · rw [spells, map_append, append_assoc]
    rfl

theorem ReadAs.question (read : ReadAs chars tokens) :
    ReadAs ('?' :: chars) (.singleChar :: tokens) := by
  apply readAs_flush .singleChar rfl
  intro currentLiteral
  obtain ⟨found, ok, spells⟩ := read []
  have no_star : '?' ≠ '*' := by decide
  refine ⟨found, spells, ?_⟩
  rw [tokenizeFrom.eq_def]
  simp only [if_neg no_star, if_pos]
  rw [ok]
  rfl

theorem ReadAs.star (read : ReadAs chars tokens)
    (alone : chars.head? ≠ some '*') : ReadAs ('*' :: chars) (.wildcard :: tokens) := by
  apply readAs_flush .wildcard rfl
  intro currentLiteral
  obtain ⟨found, ok, spells⟩ := read []
  refine ⟨found, spells, ?_⟩
  cases chars with
  | nil =>
    obtain rfl : found = [] := (Except.ok.inj ok).symm
    rfl
  | cons d after =>
    have other : d ≠ '*' := fun same => alone (congrArg some same)
    rw [tokenizeFrom.eq_def]
    simp only [if_pos, if_neg other]
    rw [ok]
    rfl

theorem readAs_deep : ReadAs ['*', '*'] [.recursive] := by
  apply readAs_flush .recursive rfl
  intro currentLiteral
  exact ⟨[], rfl, rfl⟩

theorem ReadAs.deep (read : ReadAs chars tokens) :
    ReadAs ('*' :: '*' :: '/' :: chars) (.recursive :: tokens) := by
  apply readAs_flush .recursive rfl
  intro currentLiteral
  obtain ⟨found, ok, spells⟩ := read []
  refine ⟨found, spells, ?_⟩
  show (tokenizeFrom chars []).map _ = _
  rw [ok]
  rfl

private theorem pathFileName_of_no_slash {path name : List Char} (flat : '/' ∉ path)
    (named : pathFileName path = some name) : name = path := by
  rw [pathFileName, splitOn_eq_singleton flat, Option.filter_eq_some_iff] at named
  have last := mem_of_getLast? named.1
  exact mem_singleton.1 (mem_of_mem_filter last)

/-- Of the branches of `is_match` that come after the first attempt only the one on the file name
    can match. -/
theorem Glob.isMatch_eq (glob : Glob) (path : String) (plain : '\\' ∉ path.toList) :
    glob.isMatch path = (matchTokens glob.tokens path.toList ||
        (!glob.isAnchored && !glob.tokens.any Token.isLiteralWithSlash &&
          (pathFileName path.toList).any (matchTokens glob.tokens))) := by
  have same : (path.toList.map fun c => if c = '\\' then '/' else c) = path.toList := by
    have fixed : ∀ c ∈ path.toList, (if c = '\\' then '/' else c) = c := by
      intro c mem
      apply if_neg
      intro backslash
      exact plain (backslash ▸ mem)
    rw [map_congr_left fixed]
    exact map_id path.toList
  rw [Glob.isMatch]
  simp only [same]
  cases glob.isAnchored with
  | true => simp only [if_true, Bool.not_true, Bool.false_and, Bool.or_false]
  | false =>
    cases matched : matchTokens glob.tokens path.toList with
    | true => simp only [if_true, ite_self, Bool.true_or]
    | false =>
      simp only [Bool.false_eq_true, if_false, Bool.not_false, Bool.true_and, Bool.false_or]
      split_ifs with flat literal
      · -- without a slash the file name is the whole path, which did not match
        rw [Bool.and_eq_true, Bool.not_eq_true', Bool.not_eq_true'] at flat
        have no_slash : '/' ∉ path.toList := fun mem =>
          absurd (contains_iff_mem.2 mem) (by rw [flat.2]; exact Bool.false_ne_true)
        cases named : pathFileName path.toList with
        | none => rw [Option.any_none, Bool.and_false]
        | some name =>
          rw [Option.any_some, pathFileName_of_no_slash no_slash named, matched, Bool.and_false]
      · rw [literal, Bool.true_and]
      · rw [Bool.not_eq_true] at literal
        rw [literal, Bool.false_and]

end ContextEngine

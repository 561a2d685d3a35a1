/- digest: Patterns over sequences of words, with wildcards for letters, for runs of letters and for
   runs of whole words. -/

import Mathlib.Data.List.Chain
import Mathlib.Data.List.Infix

/-!
A path is a list of words. A pattern is a list of parts, each of which is a word with wildcards
or stands for any number of whole words. The two levels never mix: a wildcard inside a word takes
letters of that word only.
-/

namespace ContextEngine.Wildcard

open List

variable {α : Type}

/-- One piece of a word: a letter, any one letter, or any run of letters. -/
inductive Piece (α : Type)
  | letter (c : α)
  | single
  | star
  deriving DecidableEq

/-- One part of a pattern: a word with wildcards, or any number of whole words. -/
inductive PatternPart (α : Type)
  | word (pieces : List (Piece α))
  | deep
  deriving DecidableEq

section Matching

variable [DecidableEq α]

def matchesWord : List (Piece α) → List α → Bool
  | [], word => word.isEmpty
  | .letter c :: pieces, d :: word => decide (d = c) && matchesWord pieces word
  | .letter _ :: _, [] => false
  | .single :: pieces, _ :: word => matchesWord pieces word
  | .single :: _, [] => false
  | .star :: pieces, word => word.tails.any (matchesWord pieces)

def matchesPath : List (PatternPart α) → List (List α) → Bool
  | [], path => path.isEmpty
  | .word pieces :: parts, word :: path => matchesWord pieces word && matchesPath parts path
  | .word _ :: _, [] => false
  | .deep :: parts, path => path.tails.any (matchesPath parts)

end Matching

/-- Whether whatever is put in front of a matched word is taken too: a run wildcard stands before
    every letter. -/
def absorbs : List (Piece α) → Bool
  | [] => false
  | .letter _ :: _ => false
  | .single :: pieces => absorbs pieces
  | .star :: _ => true

/-- Whether whatever is put in front of the first word of a matched path is taken too. -/
def PatternPart.absorbs : PatternPart α → Bool
  | .word pieces => Wildcard.absorbs pieces
  | .deep => true

variable (fill : α)

/-- The word that has the given letter in the place of every wildcard. -/
def sample : List (Piece α) → List α :=
  List.map fun
    | .letter c => c
    | .single => fill
    | .star => fill

def words : List (PatternPart α) → List (List (Piece α)) :=
  List.filterMap fun
    | .word pieces => some pieces
    | .deep => none

@[simp] theorem sample_nil : sample fill ([] : List (Piece α)) = [] := rfl

@[simp] theorem sample_letter (fill c : α) (pieces : List (Piece α)) :
    sample fill (.letter c :: pieces) = c :: sample fill pieces := rfl

variable (pieces : List (Piece α))

@[simp] theorem sample_single :
    sample fill (.single :: pieces) = fill :: sample fill pieces := rfl

@[simp] theorem sample_star :
    sample fill (.star :: pieces) = fill :: sample fill pieces := rfl

@[simp] theorem words_nil : words ([] : List (PatternPart α)) = [] := rfl

variable (parts : List (PatternPart α))

@[simp] theorem words_word :
    words (.word pieces :: parts) = pieces :: words parts := rfl

@[simp] theorem words_deep :
    words (.deep :: parts) = words parts := rfl

theorem words_append (before after : List (PatternPart α)) :
    words (before ++ after) = words before ++ words after :=
  filterMap_append

theorem mem_words {pieces : List (Piece α)} {parts : List (PatternPart α)} :
    pieces ∈ words parts ↔ .word pieces ∈ parts := by
  rw [words, mem_filterMap]
  constructor
  · intro ⟨part, mem, written⟩
    cases part with
    | word other => rwa [← Option.some.inj written]
    | deep => exact absurd written.symm (Option.some_ne_none pieces)
  · intro mem
    exact ⟨_, mem, rfl⟩

theorem exists_of_not_isChain {R : α → α → Prop} {l : List α}
    (broken : ¬l.IsChain R) : ∃ before a b after, l = before ++ a :: b :: after ∧ ¬R a b := by
  induction l with
  | nil => exact absurd isChain_nil broken
  | cons a l ih =>
    cases l with
    | nil => exact absurd (isChain_singleton a) broken
    | cons b l =>
      by_cases related : R a b
      · have later : ¬(b :: l).IsChain R := fun chain =>
          broken (isChain_cons_cons.2 ⟨related, chain⟩)
        obtain ⟨before, c, d, after, whole, unrelated⟩ := ih later
        exact ⟨a :: before, c, d, after, congrArg (a :: ·) whole, unrelated⟩
      · exact ⟨[], a, b, l, rfl, related⟩

variable [DecidableEq α] (word : List α)

@[simp] theorem matchesWord_nil : matchesWord [] word = word.isEmpty := rfl

@[simp] theorem matchesWord_letter_cons (c d : α) (pieces : List (Piece α)) (word : List α) :
    matchesWord (.letter c :: pieces) (d :: word) =
      (decide (d = c) && matchesWord pieces word) := rfl

@[simp] theorem matchesWord_letter_nil (c : α) (pieces : List (Piece α)) :
    matchesWord (.letter c :: pieces) [] = false := rfl

@[simp] theorem matchesWord_single_cons (d : α) (pieces : List (Piece α)) (word : List α) :
    matchesWord (.single :: pieces) (d :: word) = matchesWord pieces word := rfl

variable (pieces : List (Piece α))

@[simp] theorem matchesWord_single_nil :
    matchesWord (.single :: pieces) [] = false := rfl

theorem matchesWord_star :
    matchesWord (.star :: pieces) word = word.tails.any (matchesWord pieces) := by
  cases word <;> rfl

variable (path : List (List α))

@[simp] theorem matchesPath_nil : matchesPath [] path = path.isEmpty := rfl

variable (parts : List (PatternPart α))

@[simp] theorem matchesPath_word_cons :
    matchesPath (.word pieces :: parts) (word :: path) =
      (matchesWord pieces word && matchesPath parts path) := rfl

@[simp] theorem matchesPath_word_nil :
    matchesPath (.word pieces :: parts) [] = false := rfl

theorem matchesPath_deep :
    matchesPath (.deep :: parts) path = path.tails.any (matchesPath parts) := by
  cases path <;> rfl

theorem matchesPath_deep_nil :
    matchesPath (.deep :: parts) [] = matchesPath parts [] := by
  rw [matchesPath_deep]
  exact Bool.or_false _

theorem matchesPath_deep_cons :
    matchesPath (.deep :: parts) (word :: path) =
      (matchesPath parts (word :: path) || matchesPath (.deep :: parts) path) := by
  rw [matchesPath_deep, matchesPath_deep, tails_cons, any_cons]

theorem matchesPath_empty_of_word {pieces : List (Piece α)} {parts : List (PatternPart α)}
    (mem : .word pieces ∈ parts) : matchesPath parts [] = false := by
  induction parts with
  | nil => exact absurd mem not_mem_nil
  | cons part parts ih =>
    cases part with
    | word other => rfl
    | deep =>
      rw [matchesPath_deep_nil]
      apply ih
      rcases mem_cons.1 mem with same | later
      · exact absurd same (by simp only [reduceCtorEq, not_false_eq_true])
      · exact later

theorem matchesPath_of_all_deep {parts : List (PatternPart α)} (deep : ∀ part ∈ parts, part = .deep)
    (ne : parts ≠ []) (path : List (List α)) : matchesPath parts path = true := by
  have empty : ∀ rest : List (PatternPart α), (∀ part ∈ rest, part = .deep) →
      matchesPath rest [] = true := by
    intro rest all
    induction rest with
    | nil => rfl
    | cons part rest ih =>
      rw [all part mem_cons_self, matchesPath_deep_nil]
      exact ih fun other mem => all other (mem_cons_of_mem part mem)
  cases parts with
  | nil => exact absurd rfl ne
  | cons part rest =>
    rw [deep part mem_cons_self, matchesPath_deep, any_eq_true]
    refine ⟨[], (mem_tails _ _).2 (nil_suffix), ?_⟩
    exact empty rest fun other mem => deep other (mem_cons_of_mem part mem)

/-! ### Putting letters in front -/

variable {word : List α}

theorem matchesWord_cons_of_absorbs {pieces : List (Piece α)} (c : α)
    (open_ : absorbs pieces = true) (matched : matchesWord pieces word = true) :
    matchesWord pieces (c :: word) = true := by
  induction pieces generalizing word c with
  | nil => exact absurd open_ Bool.false_ne_true
  | cons piece pieces ih =>
    cases piece with
    | letter d => exact absurd open_ Bool.false_ne_true
    | star =>
      rw [matchesWord_star, tails_cons, any_cons, Bool.or_eq_true]
      right
      rwa [matchesWord_star] at matched
    | single =>
      cases word with
      | nil => exact absurd matched Bool.false_ne_true
      | cons d word =>
        rw [matchesWord_single_cons] at matched ⊢
        exact ih d open_ matched

theorem matchesWord_append_of_absorbs {pieces : List (Piece α)} (front : List α)
    (open_ : absorbs pieces = true) (matched : matchesWord pieces word = true) :
    matchesWord pieces (front ++ word) = true := by
  induction front with
  | nil => exact matched
  | cons c front ih => exact matchesWord_cons_of_absorbs c open_ ih

theorem matchesPath_append_of_absorbs {parts : List (PatternPart α)}
    {path : List (List α)} (front : List α)
    (chain : parts.IsChain fun part next => part = .deep → next.absorbs = true)
    (head : ∀ part ∈ parts.head?, part.absorbs = true)
    (matched : matchesPath parts (word :: path) = true) :
    matchesPath parts ((front ++ word) :: path) = true := by
  induction parts with
  | nil => exact absurd matched Bool.false_ne_true
  | cons part parts ih =>
    cases part with
    | word pieces =>
      rw [matchesPath_word_cons, Bool.and_eq_true] at matched ⊢
      exact ⟨matchesWord_append_of_absorbs front (head _ rfl) matched.1, matched.2⟩
    | deep =>
      rw [matchesPath_deep_cons, Bool.or_eq_true] at matched ⊢
      rcases matched with here | later
      · left
        apply ih chain.tail _ here
        intro next first
        exact chain.rel_head? first rfl
      · exact Or.inr later

/-! ### Samples -/

theorem matchesWord_sample :
    matchesWord pieces (sample fill pieces) = true := by
  induction pieces with
  | nil => rfl
  | cons piece pieces ih =>
    cases piece with
    | letter c => rw [sample_letter, matchesWord_letter_cons, decide_eq_true rfl, ih]; rfl
    | single => rw [sample_single, matchesWord_single_cons, ih]
    | star =>
      rw [sample_star, matchesWord_star, tails_cons, any_cons, Bool.or_eq_true]
      right
      rw [any_eq_true]
      exact ⟨_, (mem_tails _ _).2 suffix_rfl, ih⟩

theorem exists_rejected_sample {a b : α} (distinct : a ≠ b) {pieces : List (Piece α)}
    (closed : absorbs pieces = false) :
    ∃ fill, (fill = a ∨ fill = b) ∧ matchesWord pieces (fill :: sample fill pieces) = false := by
  induction pieces with
  | nil => exact ⟨a, Or.inl rfl, rfl⟩
  | cons piece pieces ih =>
    cases piece with
    | star => exact absurd closed.symm Bool.false_ne_true
    | single =>
      obtain ⟨fill, among, rejected⟩ := ih closed
      exact ⟨fill, among, rejected⟩
    | letter c =>
      by_cases same : a = c
      · refine ⟨b, Or.inr rfl, ?_⟩
        rw [matchesWord_letter_cons, decide_eq_false, Bool.false_and]
        exact fun other => distinct (same.trans other.symm)
      · exact ⟨a, Or.inl rfl, by rw [matchesWord_letter_cons, decide_eq_false same,
          Bool.false_and]⟩

/-! ### Paths with one word for each word of the pattern -/

theorem length_words_le {parts : List (PatternPart α)} {path : List (List α)}
    (matched : matchesPath parts path = true) : (words parts).length ≤ path.length := by
  induction parts generalizing path with
  | nil => exact Nat.zero_le _
  | cons part parts ih =>
    cases part with
    | deep =>
      rw [matchesPath_deep, any_eq_true] at matched
      obtain ⟨rest, tail, rest_matched⟩ := matched
      exact (ih rest_matched).trans ((mem_tails _ _).1 tail).length_le
    | word pieces =>
      cases path with
      | nil => exact absurd matched Bool.false_ne_true
      | cons word path =>
        rw [matchesPath_word_cons, Bool.and_eq_true] at matched
        exact Nat.succ_le_succ (ih matched.2)

theorem forall₂_of_matchesPath {parts : List (PatternPart α)} {path : List (List α)}
    (matched : matchesPath parts path = true) (short : path.length ≤ (words parts).length) :
    List.Forall₂ (fun pieces word => matchesWord pieces word = true) (words parts) path := by
  induction parts generalizing path with
  | nil =>
    rw [eq_nil_of_length_eq_zero (Nat.le_zero.1 short)]
    exact List.Forall₂.nil
  | cons part parts ih =>
    cases part with
    | deep =>
      rw [matchesPath_deep, any_eq_true] at matched
      obtain ⟨rest, tail, rest_matched⟩ := matched
      -- nothing is left for the deep part, so the matched tail is the whole path
      have few : (words parts).length ≤ rest.length := length_words_le rest_matched
      have whole : rest = path :=
        ((mem_tails _ _).1 tail).eq_of_length_le (le_trans short few)
      exact ih (whole ▸ rest_matched) short
    | word pieces =>
      cases path with
      | nil => exact absurd matched Bool.false_ne_true
      | cons word path =>
        rw [matchesPath_word_cons, Bool.and_eq_true] at matched
        exact List.Forall₂.cons matched.1 (ih matched.2 (Nat.le_of_succ_le_succ short))

theorem matchesPath_samples :
    matchesPath parts ((words parts).map (sample fill)) = true := by
  induction parts with
  | nil => rfl
  | cons part parts ih =>
    cases part with
    | word pieces =>
      rw [words_word, map_cons, matchesPath_word_cons, matchesWord_sample, ih]
      rfl
    | deep =>
      rw [words_deep, matchesPath_deep, any_eq_true]
      exact ⟨_, (mem_tails _ _).2 suffix_rfl, ih⟩

end ContextEngine.Wildcard

/- digest: The terms the index tokenizer counts in a text, and why white space parts them. -/

import ContextEngine.Chunking.NameSearch

set_option autoImplicit false

namespace ContextEngine

open List

/-- The segmenter of the dictionary and the token estimate of the embedding provider. -/
class Tokenizer where
  /-- How many words the dictionary segmenter finds in a window. -/
  jieba : Text → Nat
  estimateTokens : Text → Nat
  estimateTokens_nil : estimateTokens [] = 0

def maxTokenizeChars : Nat := 32768

def maxCjkRunChars : Nat := 4096

def capText (text : Text) : Text := text.take maxTokenizeChars

/-- The blocks of ideographs, kana and Hangul. -/
def cjkBlocks : List (Nat × Nat) :=
  [(0x4E00, 0x9FFF), (0x3400, 0x4DBF), (0x20000, 0x2A6DF), (0x2A700, 0x2B73F), (0x2B740, 0x2B81F),
    (0x2B820, 0x2CEAF), (0xF900, 0xFAFF), (0x2F800, 0x2FA1F), (0x3040, 0x309F), (0x30A0, 0x30FF),
    (0x31F0, 0x31FF), (0xFF66, 0xFF9D), (0xAC00, 0xD7AF), (0x1100, 0x11FF), (0x3130, 0x318F)]

def isCjk (c : Char) : Bool :=
  cjkBlocks.any fun block => block.1 ≤ c.toNat && c.toNat ≤ block.2

/-- Neither an ideograph nor white space. -/
def isWordChar (c : Char) : Bool := !isCjk c && !isWhitespace c

variable [UnicodeTables] [Tokenizer]

/-- The words of a run of ideographs, which is segmented in windows. -/
def cjkPositions : Text → Nat
  | [] => 0
  | c :: rest =>
    Tokenizer.jieba ((c :: rest).take maxCjkRunChars) +
      cjkPositions (rest.drop (maxCjkRunChars - 1))
termination_by run => run.length

/-- A word is one position if anything is left of it without its punctuation. -/
def wordPositions (word : Text) : Nat := if word.any UnicodeTables.isAlphanumeric then 1 else 0

def positions : Text → Nat
  | [] => 0
  | c :: rest =>
    if isCjk c then cjkPositions (c :: rest.takeWhile isCjk) + positions (rest.dropWhile isCjk)
    else if isWhitespace c then positions rest
    else wordPositions (c :: rest.takeWhile isWordChar) + positions (rest.dropWhile isWordChar)
termination_by text => text.length
decreasing_by
  all_goals
    have shorter := (List.dropWhile_sublist (l := rest) isCjk).length_le
    have shorter' := (List.dropWhile_sublist (l := rest) isWordChar).length_le
    simp only [List.length_cons]
    omega

def positionCount (text : Text) : Nat := positions (capText text)

@[reducible] def tokenizedCosts : CostModel where
  cost
    | .tokens, text => Tokenizer.estimateTokens text
    | .terms, text => positionCount text
  cost_nil := by
    intro unit
    cases unit with
    | tokens => exact Tokenizer.estimateTokens_nil
    | terms =>
      show positions (capText []) = 0
      rw [capText, List.take_nil, positions]

omit [UnicodeTables] [Tokenizer] in
theorem isCjk_of_isWhitespace {c : Char} (space : isWhitespace c = true) : isCjk c = false := by
  simp only [isWhitespace, Bool.or_eq_true, Bool.and_eq_true, decide_eq_true_eq] at space
  rw [isCjk, any_eq_false]
  intro block mem
  have outside : c.toNat < block.1 ∨ block.2 < c.toNat := by
    simp only [cjkBlocks, mem_cons, not_mem_nil, or_false] at mem
    rcases mem with rfl | rfl | rfl | rfl | rfl | rfl | rfl | rfl | rfl | rfl | rfl | rfl | rfl |
      rfl | rfl <;> simp only <;> omega
  rw [Bool.and_eq_true, decide_eq_true_eq, decide_eq_true_eq]
  omega

theorem positions_append_space (front rest : Text) {c : Char} (space : isWhitespace c = true) :
    positions (front ++ c :: rest) = positions front + positions rest := by
  have notCjk := isCjk_of_isWhitespace space
  have notWord : isWordChar c = false := by rw [isWordChar, space, Bool.not_true, Bool.and_false]
  have stops : ∀ (p : Char → Bool) (l : Text), p c = false →
      (l ++ c :: rest).takeWhile p = l.takeWhile p ∧
        (l ++ c :: rest).dropWhile p = l.dropWhile p ++ c :: rest := by
    intro p l stop
    induction l with
    | nil =>
      exact ⟨takeWhile_cons_of_neg (by simp [stop]),
        dropWhile_cons_of_neg (by simp [stop])⟩
    | cons d l ih =>
      cases passes : p d with
      | true => simp [passes, ih]
      | false => simp [passes]
  fun_induction positions front with
  | case1 =>
    rw [nil_append, positions, if_neg (by simp [notCjk]), if_pos space, Nat.zero_add]
  | case2 d front cjk ih =>
    obtain ⟨taken, dropped⟩ := stops isCjk front notCjk
    rw [cons_append, positions, if_pos cjk, taken, dropped, ih, Nat.add_assoc]
  | case3 d front cjk space' ih =>
    rw [cons_append, positions, if_neg cjk, if_pos space', ih]
  | case4 d front cjk space' ih =>
    obtain ⟨taken, dropped⟩ := stops isWordChar front notWord
    rw [cons_append, positions, if_neg cjk, if_neg space', taken, dropped, ih, Nat.add_assoc]

theorem positionCount_cut_le (front rest : Text) {c : Char} (space : isWhitespace c = true) :
    positionCount (front ++ [c]) ≤ positionCount (front ++ c :: rest) := by
  unfold positionCount capText
  by_cases fits : front.length < maxTokenizeChars
  · obtain ⟨n, whole⟩ := Nat.exists_eq_add_of_lt fits
    have cut : ∀ tail : Text, (front ++ c :: tail).take maxTokenizeChars =
        front ++ c :: tail.take n := by
      intro tail
      rw [whole, Nat.add_assoc, take_length_add_append, take_succ_cons]
    rw [cut, cut, positions_append_space front _ space, positions_append_space front _ space,
      take_nil, positions]
    omega
  · rw [take_append_of_le_length (by omega), take_append_of_le_length (by omega)]

end ContextEngine

/- digest: Texts in which some characters are rendered as runs of one mark. -/

import Mathlib.Data.List.Basic

/-!
Every character has a weight. A letter, of weight zero, is written as it is; any other character
is written as that many copies of a mark. What such a text determines is its letters and, before,
between and after them, the sum of the weights in each gap.
-/

namespace ContextEngine.WeightedText

open List

variable {α : Type} (weight : α → Nat) (mark : α) (text : List α)

def render : List α :=
  text.flatMap fun c => if weight c = 0 then [c] else List.replicate (weight c) mark

/-- The characters of weight zero, in order. -/
def letters : List α := text.filter fun c => weight c = 0

/-- The sums of the weights before, between and after the letters. -/
def gaps : List α → List Nat
  | [] => [0]
  | c :: text => if weight c = 0 then 0 :: gaps text else (gaps text).modifyHead (weight c + ·)

/-- Letters separated by runs of marks of the given lengths. -/
def spread : List Nat → List α → List α
  | [], _ => []
  | gap :: _, [] => List.replicate gap mark
  | gap :: rest, c :: text => List.replicate gap mark ++ c :: spread rest text

variable {weight} {mark}

theorem render_cons (c : α) (text : List α) :
    render weight mark (c :: text) =
      (if weight c = 0 then [c] else List.replicate (weight c) mark) ++ render weight mark text :=
  rfl

theorem letters_cons (c : α) (text : List α) :
    letters weight (c :: text) =
      if weight c = 0 then c :: letters weight text else letters weight text := by
  simp only [letters, filter_cons, decide_eq_true_eq]

theorem spread_modifyHead (n : Nat) (lengths : List Nat) (text : List α) (ne : lengths ≠ []) :
    spread mark (lengths.modifyHead (n + ·)) text =
      List.replicate n mark ++ spread mark lengths text := by
  cases lengths with
  | nil => exact absurd rfl ne
  | cons gap rest =>
    cases text with
    | nil =>
      simp only [modifyHead_cons, spread]
      exact replicate_add n gap mark
    | cons c text =>
      simp only [modifyHead_cons, spread]
      rw [replicate_add, append_assoc]

theorem gaps_ne_nil : gaps weight text ≠ [] := by
  induction text with
  | nil => exact cons_ne_nil 0 []
  | cons c text ih =>
    rw [gaps]
    split_ifs
    · exact cons_ne_nil 0 _
    · intro empty
      exact ih (modifyHead_eq_nil_iff.1 empty)

theorem render_eq_spread :
    render weight mark text = spread mark (gaps weight text) (letters weight text) := by
  induction text with
  | nil => rfl
  | cons c text ih =>
    rw [render_cons, letters_cons, gaps, ih]
    split_ifs
    · rfl
    · exact (spread_modifyHead _ _ _ (gaps_ne_nil text)).symm

section Reading

variable [DecidableEq α]

def markWeight (mark c : α) : Nat := if c = mark then 1 else 0

private theorem letters_replicate (n : Nat) (text : List α) :
    letters (markWeight mark) (List.replicate n mark ++ text) = letters (markWeight mark) text := by
  have marked : decide (markWeight mark mark = 0) = false := by
    simp only [markWeight, if_true, Nat.one_ne_zero, decide_false]
  rw [letters, filter_append, filter_replicate, marked]
  rfl

private theorem gaps_replicate (n : Nat) (text : List α) :
    gaps (markWeight mark) (List.replicate n mark ++ text) =
      (gaps (markWeight mark) text).modifyHead (n + ·) := by
  induction n with
  | zero =>
    simp only [replicate_zero, nil_append, Nat.zero_add]
    exact congrFun modifyHead_id.symm _
  | succ n ih =>
    rw [replicate_succ, cons_append, gaps, if_neg, ih, modifyHead_modifyHead]
    · congr 1
      funext gap
      simp only [Function.comp_apply, markWeight, if_true]
      omega
    · simp only [markWeight, if_true]
      exact Nat.one_ne_zero

theorem read_render (weighted : weight mark ≠ 0) (text : List α) :
    letters (markWeight mark) (render weight mark text) = letters weight text ∧
      gaps (markWeight mark) (render weight mark text) = gaps weight text := by
  induction text with
  | nil => exact ⟨rfl, rfl⟩
  | cons c text ih =>
    obtain ⟨sameLetters, sameGaps⟩ := ih
    rw [render_cons, letters_cons, gaps]
    split_ifs with letter
    · have other : markWeight mark c = 0 := by
        have ne : c ≠ mark := fun same => weighted (same ▸ letter)
        rw [markWeight, if_neg ne]
      rw [singleton_append, letters_cons, gaps, if_pos other, if_pos other, sameGaps]
      exact ⟨congrArg (c :: ·) sameLetters, rfl⟩
    · rw [gaps_replicate, sameGaps]
      exact ⟨(letters_replicate _ _).trans sameLetters, rfl⟩

/-- Two texts render alike exactly when they have the same letters and the same gaps. -/
theorem render_eq_iff (weighted : weight mark ≠ 0) (left right : List α) :
    render weight mark left = render weight mark right ↔
      letters weight left = letters weight right ∧ gaps weight left = gaps weight right := by
  constructor
  · intro same
    obtain ⟨leftLetters, leftGaps⟩ := read_render weighted left
    obtain ⟨rightLetters, rightGaps⟩ := read_render weighted right
    rw [← leftLetters, ← leftGaps, same]
    exact ⟨rightLetters, rightGaps⟩
  · rintro ⟨sameLetters, sameGaps⟩
    rw [render_eq_spread, render_eq_spread, sameLetters, sameGaps]

end Reading

end ContextEngine.WeightedText

/- digest: Lists of elements with widths: cuts between elements, slices between cuts, searches. -/

import Mathlib.Data.List.Basic
import Mathlib.Data.List.DropRight

/-!
An offset counts width and not elements, as a byte offset into encoded text does. It is a cut
when it falls between two elements. A slice between two cuts is a part of the list, and the cuts
of the slice are the cuts of the list between them.
-/

namespace ContextEngine

open List

/-- Elements that take up room, none of them no room at all. -/
class Wide (α : Type) where
  width : α → Nat
  width_pos : ∀ a, 0 < width a

instance : Wide Char := ⟨Char.utf8Size, Char.utf8Size_pos⟩

namespace Offsets

variable {α : Type} [Wide α]

open Wide (width width_pos)

/-- The offset of the end. -/
def extent : List α → Nat
  | [] => 0
  | a :: text => width a + extent text

def dropTo : List α → Nat → List α
  | [], _ => []
  | a :: text, 0 => a :: text
  | a :: text, offset + 1 => dropTo text (offset + 1 - width a)

/-- The elements up to an offset. -/
def takeTo : List α → Nat → List α
  | [], _ => []
  | _ :: _, 0 => []
  | a :: text, offset + 1 => a :: takeTo text (offset + 1 - width a)

/-- The elements between two offsets. -/
def slice (text : List α) (low high : Nat) : List α := takeTo (dropTo text low) (high - low)

/-- Whether no element straddles the offset. -/
def isCut : List α → Nat → Bool
  | _, 0 => true
  | [], _ + 1 => false
  | a :: text, offset + 1 => width a ≤ offset + 1 && isCut text (offset + 1 - width a)

def Cut (text : List α) (offset : Nat) : Prop :=
  ∃ before after, text = before ++ after ∧ extent before = offset

def floorCut (text : List α) : Nat → Nat
  | 0 => 0
  | offset + 1 => if isCut text (offset + 1) then offset + 1 else floorCut text offset

/-- The elements with the offsets they start at, when the first starts at `base`. -/
def indices (base : Nat) : List α → List (Nat × α)
  | [] => []
  | a :: text => (base, a) :: indices (base + width a) text

def rfind (test : List α → Bool) : List α → Option Nat
  | [] => if test [] then some 0 else none
  | a :: text =>
    match rfind test text with
    | some offset => some (width a + offset)
    | none => if test (a :: text) then some 0 else none

section Extent

@[simp] theorem extent_nil : extent ([] : List α) = 0 := rfl

@[simp] theorem extent_cons (a : α) (text : List α) :
    extent (a :: text) = width a + extent text := rfl

variable (before after : List α)

@[simp] theorem extent_append :
    extent (before ++ after) = extent before + extent after := by
  induction before with
  | nil => simp only [nil_append, extent_nil, Nat.zero_add]
  | cons a before ih => simp only [cons_append, extent_cons, ih, Nat.add_assoc]

theorem extent_pos {text : List α} (ne : text ≠ []) : 0 < extent text := by
  cases text with
  | nil => exact absurd rfl ne
  | cons a text =>
    have wide := width_pos a
    rw [extent_cons]
    omega

theorem extent_eq_zero {text : List α} : extent text = 0 ↔ text = [] := by
  constructor
  · intro none
    by_contra ne
    have some := extent_pos ne
    omega
  · rintro rfl
    rfl

private theorem extent_cons_succ (a : α) (before : List α) :
    ∃ n, extent (a :: before) = n + 1 ∧ n + 1 - width a = extent before := by
  have wide := width_pos a
  refine ⟨extent (a :: before) - 1, ?_, ?_⟩
  · rw [extent_cons]
    omega
  · rw [extent_cons]
    omega

theorem dropTo_append :
    dropTo (before ++ after) (extent before) = after := by
  induction before with
  | nil => cases after <;> rfl
  | cons a before ih =>
    obtain ⟨n, positive, rest⟩ := extent_cons_succ a before
    rw [positive, cons_append, dropTo, rest, ih]

private theorem takeTo_append :
    takeTo (before ++ after) (extent before) = before := by
  induction before with
  | nil => cases after <;> rfl
  | cons a before ih =>
    obtain ⟨n, positive, rest⟩ := extent_cons_succ a before
    rw [positive, cons_append, takeTo, rest, ih]

private theorem append_inj_of_extent {before after front back : List α}
    (same : before ++ after = front ++ back) (extents : extent before = extent front) :
    before = front ∧ after = back := by
  have taken := congrArg (fun text => takeTo text (extent before)) same
  have dropped := congrArg (fun text => dropTo text (extent before)) same
  simp only [takeTo_append, dropTo_append] at taken dropped
  rw [extents, takeTo_append] at taken
  rw [extents, dropTo_append] at dropped
  exact ⟨taken, dropped⟩

theorem slice_of_append (before middle after : List α) :
    slice (before ++ (middle ++ after)) (extent before) (extent before + extent middle) =
      middle := by
  rw [slice, dropTo_append, Nat.add_sub_cancel_left, takeTo_append]

theorem slice_front :
    slice (before ++ after) 0 (extent before) = before := by
  have whole := slice_of_append [] before after
  rwa [nil_append, extent_nil, Nat.zero_add] at whole

end Extent

section Cut

variable {text : List α} {low mid high offset : Nat}

theorem Cut.zero (text : List α) : Cut text 0 := ⟨[], text, rfl, rfl⟩

theorem Cut.end (text : List α) : Cut text (extent text) := ⟨text, [], by simp, rfl⟩

theorem Cut.front (before after : List α) : Cut (before ++ after) (extent before) :=
  ⟨before, after, rfl, rfl⟩

theorem Cut.le (cut : Cut text offset) : offset ≤ extent text := by
  obtain ⟨before, after, rfl, rfl⟩ := cut
  rw [extent_append]
  omega

theorem isCut_iff (text : List α) (offset : Nat) : isCut text offset = true ↔ Cut text offset := by
  induction text generalizing offset with
  | nil =>
    cases offset with
    | zero => exact ⟨fun _ => Cut.zero _, fun _ => rfl⟩
    | succ n =>
      constructor
      · intro cut
        cases cut
      · intro cut
        have bound := cut.le
        rw [extent_nil] at bound
        omega
  | cons a text ih =>
    cases offset with
    | zero => exact ⟨fun _ => Cut.zero _, fun _ => by rw [isCut]⟩
    | succ n =>
      rw [isCut, Bool.and_eq_true, decide_eq_true_eq, ih]
      constructor
      · rintro ⟨fits, before, after, rfl, reaches⟩
        exact ⟨a :: before, after, rfl, by rw [extent_cons]; omega⟩
      · rintro ⟨before, after, split, reaches⟩
        cases before with
        | nil => simp at reaches
        | cons b before =>
          rw [cons_append] at split
          obtain ⟨rfl, rest⟩ := cons.inj split
          rw [extent_cons] at reaches
          exact ⟨by omega, before, after, rest, by omega⟩

instance (text : List α) (offset : Nat) : Decidable (Cut text offset) :=
  decidable_of_iff _ (isCut_iff text offset)

theorem floorCut_eq_self (cut : Cut text offset) : floorCut text offset = offset := by
  cases offset with
  | zero => rfl
  | succ n => rw [floorCut, if_pos ((isCut_iff _ _).2 cut)]

theorem exists_parts (cutLow : Cut text low) (cutHigh : Cut text high) (le : low ≤ high) :
    ∃ before middle after, text = before ++ (middle ++ after) ∧ extent before = low ∧
      extent before + extent middle = high := by
  obtain ⟨before, rest, split, rfl⟩ := cutLow
  obtain ⟨front, after, split', rfl⟩ := cutHigh
  rcases append_eq_append_iff.1 (split.symm.trans split') with
    ⟨middle, rfl, rfl⟩ | ⟨middle, rfl, rfl⟩
  · exact ⟨before, middle, after, split, rfl, (extent_append _ _).symm⟩
  · rw [extent_append] at le
    have none : middle = [] := extent_eq_zero.1 (by omega)
    subst none
    exact ⟨front, [], rest, by simpa using split, by simp, by simp⟩

theorem extent_slice (cutLow : Cut text low) (cutHigh : Cut text high) (le : low ≤ high) :
    extent (slice text low high) = high - low := by
  obtain ⟨before, middle, after, rfl, rfl, rfl⟩ := exists_parts cutLow cutHigh le
  rw [slice_of_append]
  omega

theorem slice_append (cutLow : Cut text low) (cutMid : Cut text mid) (cutHigh : Cut text high)
    (le : low ≤ mid) (le' : mid ≤ high) :
    slice text low mid ++ slice text mid high = slice text low high := by
  obtain ⟨before, middle, rest, split, rfl, reaches⟩ := exists_parts cutLow cutMid le
  obtain ⟨front, tail, after, rfl, rfl, rfl⟩ := exists_parts cutMid cutHigh le'
  have parts : before ++ middle = front ∧ rest = tail ++ after :=
    append_inj_of_extent (by rw [append_assoc, ← split]) (by rw [extent_append, reaches])
  obtain ⟨rfl, rfl⟩ := parts
  have first := slice_of_append before middle (tail ++ after)
  have second := slice_of_append (before ++ middle) tail after
  have whole := slice_of_append before (middle ++ tail) after
  simp only [extent_append, append_assoc, Nat.add_assoc] at first second whole ⊢
  rw [first, second, whole]

@[simp] theorem slice_whole (text : List α) : slice text 0 (extent text) = text := by
  have whole := slice_front text []
  rwa [append_nil] at whole

theorem slice_self (cut : Cut text offset) : slice text offset offset = [] := by
  have none := extent_slice cut cut (Nat.le_refl _)
  exact extent_eq_zero.1 (by omega)

theorem slice_ne_nil (cutLow : Cut text low) (cutHigh : Cut text high) (lt : low < high) :
    slice text low high ≠ [] := by
  intro none
  have room := extent_slice cutLow cutHigh (Nat.le_of_lt lt)
  rw [none, extent_nil] at room
  omega

theorem Cut.of_slice (cutLow : Cut text low) (cutHigh : Cut text high) (le : low ≤ high)
    (cut : Cut (slice text low high) offset) : Cut text (low + offset) ∧ low + offset ≤ high := by
  have bound := cut.le
  rw [extent_slice cutLow cutHigh le] at bound
  obtain ⟨before, middle, after, rfl, rfl, rfl⟩ := exists_parts cutLow cutHigh le
  rw [slice_of_append] at cut
  obtain ⟨front, rest, rfl, rfl⟩ := cut
  exact ⟨⟨before ++ front, rest ++ after, by simp, extent_append _ _⟩, by omega⟩

theorem slice_isFront (cutLow : Cut text low) (cutMid : Cut text mid) (cutHigh : Cut text high)
    (le : low ≤ mid) (le' : mid ≤ high) : slice text low mid <+: slice text low high :=
  ⟨slice text mid high, slice_append cutLow cutMid cutHigh le le'⟩

theorem slice_of_front {front : List α} (cutLow : Cut text low) (cutHigh : Cut text high)
    (le : low ≤ high) (isFront : front <+: slice text low high) :
    Cut text (low + extent front) ∧ low + extent front ≤ high ∧
      slice text low (low + extent front) = front := by
  obtain ⟨rest, whole⟩ := isFront
  have cut : Cut (slice text low high) (extent front) := ⟨front, rest, whole.symm, rfl⟩
  obtain ⟨cutMid, le'⟩ := Cut.of_slice cutLow cutHigh le cut
  refine ⟨cutMid, le', ?_⟩
  obtain ⟨before, middle, after, rfl, rfl, rfl⟩ := exists_parts cutLow cutHigh le
  rw [slice_of_append] at whole
  subst whole
  rw [append_assoc, slice_of_append]

end Cut

section Search

theorem mem_indices {base offset : Nat} {a : α} {text : List α} :
    (offset, a) ∈ indices base text ↔
      ∃ before after, text = before ++ a :: after ∧ offset = base + extent before := by
  induction text generalizing base with
  | nil => simp [indices]
  | cons b text ih =>
    rw [indices, mem_cons, ih]
    constructor
    · rintro (same | ⟨before, after, rfl, rfl⟩)
      · obtain ⟨rfl, rfl⟩ := Prod.mk.inj same
        exact ⟨[], text, rfl, rfl⟩
      · exact ⟨b :: before, after, rfl, by rw [extent_cons, Nat.add_assoc]⟩
    · rintro ⟨before, after, split, rfl⟩
      cases before with
      | nil =>
        obtain ⟨rfl, rfl⟩ := cons.inj split
        exact Or.inl rfl
      | cons c before =>
        rw [cons_append] at split
        obtain ⟨rfl, rfl⟩ := cons.inj split
        exact Or.inr ⟨before, after, rfl, by rw [extent_cons, Nat.add_assoc]⟩

variable (base : Nat)

theorem indices_append (before after : List α) :
    indices base (before ++ after) = indices base before ++
      indices (base + extent before) after := by
  induction before generalizing base with
  | nil => simp [indices]
  | cons a before ih => simp [indices, ih, Nat.add_assoc]

theorem getElem?_ends (text : List α) {index : Nat} (inside : index ≤ text.length) :
    ((indices base text).map Prod.fst ++ [base + extent text])[index]? =
      some (base + extent (text.take index)) := by
  induction text generalizing base index with
  | nil =>
    obtain rfl : index = 0 := Nat.le_zero.1 inside
    rfl
  | cons a text ih =>
    cases index with
    | zero => rfl
    | succ index =>
      have rest := ih (base + width a) (Nat.le_of_succ_le_succ inside)
      simpa [indices, Nat.add_assoc] using rest

variable {p : α → Bool} {a : α} {before after : List α}

theorem find?_indices (fails : ∀ b ∈ before, p b = false) (passes : p a = true)
    (after : List α) :
    (indices base (before ++ a :: after)).find? (fun entry => p entry.2) =
      some (base + extent before, a) := by
  have skipped : (indices base before).find? (fun entry => p entry.2) = none := by
    rw [find?_eq_none]
    rintro ⟨offset, b⟩ mem
    obtain ⟨front, back, rfl, -⟩ := mem_indices.1 mem
    simp [fails b (by simp)]
  rw [indices_append, find?_append, skipped, Option.none_or, indices, find?_cons_of_pos]
  exact passes

theorem find?_reverse_indices (fails : ∀ b ∈ after, p b = false) (passes : p a = true)
    (before : List α) :
    (indices base (before ++ a :: after)).reverse.find? (fun entry => p entry.2) =
      some (base + extent before, a) := by
  have skipped : (indices (base + extent before + width a) after).reverse.find?
      (fun entry => p entry.2) = none := by
    rw [find?_eq_none]
    rintro ⟨offset, b⟩ mem
    obtain ⟨front, back, rfl, -⟩ := mem_indices.1 (mem_reverse.1 mem)
    simp [fails b (by simp)]
  rw [indices_append, indices, reverse_append, reverse_cons, append_assoc,
    find?_append, skipped, Option.none_or, singleton_append, find?_cons_of_pos]
  exact passes

theorem rfind_eq_some {test : List α → Bool} {text : List α} {offset : Nat}
    (found : rfind test text = some offset) :
    ∃ before after, text = before ++ after ∧ extent before = offset ∧ test after = true := by
  induction text generalizing offset with
  | nil =>
    by_cases passes : test [] = true
    · rw [rfind, if_pos passes] at found
      cases found
      exact ⟨[], [], rfl, rfl, passes⟩
    · rw [rfind, if_neg passes] at found
      cases found
  | cons a text ih =>
    cases later : rfind test text with
    | some last =>
      simp only [rfind, later] at found
      cases found
      obtain ⟨before, after, rfl, rfl, passes⟩ := ih later
      exact ⟨a :: before, after, rfl, rfl, passes⟩
    | none =>
      simp only [rfind, later] at found
      by_cases passes : test (a :: text) = true
      · rw [if_pos passes] at found
        cases found
        exact ⟨[], a :: text, rfl, rfl, passes⟩
      · rw [if_neg passes] at found
        cases found

end Search

end Offsets

end ContextEngine

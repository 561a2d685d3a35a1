/- digest: Concatenated fields read back: separators, fixed widths and counts. -/

import Mathlib.Data.List.Basic

/-!
A record is written by appending its fields. The fields can be told apart when each is ended
by a separator it does not contain, has a fixed width, or is preceded by its own length.
-/

namespace ContextEngine

open List

namespace FieldEncoding

variable {α : Type*}

theorem separated_inj {sep : α} {a b rest tail : List α} (freeA : sep ∉ a) (freeB : sep ∉ b) :
    a ++ sep :: rest = b ++ sep :: tail ↔ a = b ∧ rest = tail := by
  induction a generalizing b with
  | nil =>
    cases b with
    | nil => simp only [nil_append, cons.injEq, true_and]
    | cons y b =>
      have other : sep ≠ y := fun same => freeB (same ▸ mem_cons_self)
      simp only [nil_append, cons_append, cons.injEq, other, false_and, nil_eq, reduceCtorEq]
  | cons x a ih =>
    cases b with
    | nil =>
      have other : x ≠ sep := fun same => freeA (same ▸ mem_cons_self)
      simp only [nil_append, cons_append, cons.injEq, other, false_and, reduceCtorEq]
    | cons y b =>
      have later := ih (fun mem => freeA (mem_cons_of_mem _ mem))
        (fun mem => freeB (mem_cons_of_mem _ mem))
      simp only [cons_append, cons.injEq, later, and_assoc]

theorem separated_last_inj {sep : α} {rest tail a b : List α} (freeA : sep ∉ a) (freeB : sep ∉ b) :
    rest ++ sep :: a = tail ++ sep :: b ↔ rest = tail ∧ a = b := by
  have reversed : a.reverse ++ sep :: rest.reverse = b.reverse ++ sep :: tail.reverse ↔ _ :=
    separated_inj (mt mem_reverse.1 freeA) (mt mem_reverse.1 freeB)
  have turned : ∀ rest a : List α, a.reverse ++ sep :: rest.reverse = (rest ++ sep :: a).reverse :=
    fun rest a => by simp
  rw [turned, turned, reverse_inj, reverse_inj, reverse_inj] at reversed
  rw [reversed, and_comm]

variable {count : Nat → List α} {width bound : Nat}

/-- A field after its count, for counts of one width that tell the lengths below `bound`
apart. -/
theorem counted_inj (fixed : ∀ n, (count n).length = width)
    (separates : ∀ m < bound, ∀ n < bound, count m = count n → m = n)
    {a b rest tail : List α} (shortA : a.length < bound) (shortB : b.length < bound) :
    count a.length ++ a ++ rest = count b.length ++ b ++ tail ↔ a = b ∧ rest = tail := by
  constructor
  · intro same
    rw [append_assoc, append_assoc] at same
    have counts := append_inj same ((fixed _).trans (fixed _).symm)
    exact append_inj counts.2 (separates _ shortA _ shortB counts.1)
  · rintro ⟨rfl, rfl⟩
    rfl

theorem counted_last_inj (fixed : ∀ n, (count n).length = width) {a b : List α} :
    count a.length ++ a = count b.length ++ b ↔ a = b := by
  constructor
  · intro same
    exact (append_inj same ((fixed _).trans (fixed _).symm)).2
  · rintro rfl
    rfl

end FieldEncoding

end ContextEngine

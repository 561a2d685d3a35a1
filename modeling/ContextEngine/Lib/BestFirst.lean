/- digest: Lists that hold the best elements of another by a score, and what a filter leaves of
   them. -/

import ContextEngine.Lib.Sorting
import Mathlib.Data.Prod.Lex
import Mathlib.Order.BooleanAlgebra.Basic

/-!
A search that returns the best `n` elements may break ties as it likes. What is left of its answer
after a filter depends on how many of the elements that are filtered out stand before the others.
-/

namespace ContextEngine

open List

variable {α κ : Type} [LinearOrder κ]

/-- The best `n` elements of a list by score, in any order and with ties broken in any way. -/
def Best (score : α → κ) (l : List α) (n : Nat) (best : List α) : Prop :=
  ∃ rest, (best ++ rest).Perm l ∧ best.length = min n l.length ∧
    ∀ a ∈ best, ∀ b ∈ rest, score b ≤ score a

def sortDescending (score : α → κ) (l : List α) : List α :=
  sortByKey (fun a => OrderDual.toDual (score a)) l

variable (score : α → κ) (l : List α)

theorem perm_sortDescending :
    (sortDescending score l).Perm l := perm_sortByKey _ l

theorem pairwise_sortDescending :
    (sortDescending score l).Pairwise fun a b => score b ≤ score a :=
  pairwise_sortByKey (fun a => OrderDual.toDual (score a)) l

theorem best_take {score : α → κ} {l : List α}
    (descends : l.Pairwise fun a b => score b ≤ score a) (n : Nat) :
    Best score l n (l.take n) := by
  refine ⟨l.drop n, ?_, length_take, ?_⟩
  · rw [take_append_drop]
  · rw [← take_append_drop n l, pairwise_append] at descends
    exact descends.2.2

theorem Best.of_perm {score : α → κ} {l l' best : List α} {n : Nat} (h : Best score l n best)
    (same : l.Perm l') : Best score l' n best := by
  obtain ⟨rest, split, length, order⟩ := h
  exact ⟨rest, split.trans same, same.length_eq ▸ length, order⟩

theorem best_take_sortDescending (n : Nat) :
    Best score l n ((sortDescending score l).take n) :=
  (best_take (pairwise_sortDescending score l) n).of_perm (perm_sortDescending score l)

theorem length_eq_visible_add_hidden (visible : α → Bool) :
    l.length = l.countP visible + l.countP fun a => !visible a := by
  have same : l.countP (fun a => decide ¬visible a = true) = l.countP fun a => !visible a := by
    refine countP_congr fun a _ => ?_
    simp
  rw [length_eq_countP_add_countP visible, same]

theorem exists_best_preferring (prefers : α → Bool) (l : List α) (n : Nat) :
    ∃ best rest : List α, (best ++ rest).Perm l ∧ best.length = min n l.length ∧
      ∀ a ∈ best, ∀ b ∈ rest, score b < score a ∨
        score b = score a ∧ (prefers b = true → prefers a = true) := by
  let key : α → Lex (OrderDual κ × Bool) := fun a =>
    toLex (OrderDual.toDual (score a), !prefers a)
  refine ⟨(sortByKey key l).take n, (sortByKey key l).drop n, ?_, ?_, ?_⟩
  · rw [take_append_drop]
    exact perm_sortByKey key l
  · rw [length_take, length_sortByKey]
  · have ascends := pairwise_sortByKey key l
    rw [← take_append_drop n (sortByKey key l), pairwise_append] at ascends
    intro a aMem b bMem
    rcases Prod.Lex.toLex_le_toLex.1 (ascends.2.2 a aMem b bMem) with better | ⟨equal, order⟩
    · exact Or.inl better
    · refine Or.inr ⟨(OrderDual.toDual_inj.1 equal).symm, fun preferred => ?_⟩
      cases held : prefers a with
      | true => rfl
      | false =>
        have order : (!prefers a) ≤ (!prefers b) := order
        rw [held, preferred] at order
        exact absurd order (by decide)

theorem Best.of_preferring {score : α → κ} {prefers : α → Bool} {l best rest : List α} {n : Nat}
    (split : (best ++ rest).Perm l) (length : best.length = min n l.length)
    (order : ∀ a ∈ best, ∀ b ∈ rest, score b < score a ∨
      score b = score a ∧ (prefers b = true → prefers a = true)) : Best score l n best :=
  ⟨rest, split, length, fun a aMem b bMem =>
    (order a aMem b bMem).elim le_of_lt fun equal => le_of_eq equal.1⟩

section Filtered

variable {score : α → κ} {visible : α → Bool} {l best : List α} {n k : Nat}

/-- How many hidden elements may come before an element. -/
def hiddenAhead (score : α → κ) (visible : α → Bool) (l : List α) (a : α) : Nat :=
  l.countP fun b => !visible b && decide (score a ≤ score b)

/-- The visible elements that fit into a window of `n` beside the hidden ones before them and
    the `k` wanted ones. -/
def fits (score : α → κ) (visible : α → Bool) (l : List α) (n k : Nat) (a : α) : Bool :=
  visible a && decide (hiddenAhead score visible l a + k ≤ n)

theorem Best.le_countP_visible (h : Best score l n best)
    (enough : k ≤ l.countP (fits score visible l n k)) : k ≤ best.countP visible := by
  obtain ⟨rest, split, length, order⟩ := h
  by_contra short
  have fewer : best.countP (fits score visible l n k) ≤ best.countP visible :=
    countP_mono_left fun a _ held => (Bool.and_eq_true_iff.1 held).1
  have total : best.countP (fits score visible l n k) + rest.countP (fits score visible l n k) =
      l.countP (fits score visible l n k) := by
    rw [← countP_append, split.countP_eq]
  have left : 0 < rest.countP (fits score visible l n k) := by omega
  obtain ⟨a, aMem, held⟩ := countP_pos_iff.1 left
  have room : hiddenAhead score visible l a + k ≤ n :=
    of_decide_eq_true (Bool.and_eq_true_iff.1 held).2
  -- a left-out element means that the window is full
  have full : best.length = n := by
    have lengths := split.length_eq
    rw [length_append] at lengths
    have pos : 0 < rest.length := length_pos_of_mem aMem
    omega
  have hidden : best.countP (fun b => !visible b) ≤ hiddenAhead score visible l a := by
    rw [hiddenAhead, ← split.countP_eq, countP_append]
    refine le_trans (countP_mono_left fun b bMem dark => ?_) (Nat.le_add_right _ _)
    rw [dark, Bool.true_and]
    exact decide_eq_true (order b bMem a aMem)
  have parts := length_eq_visible_add_hidden best visible
  omega

/-- Where too few visible elements fit, some choice of the best leaves too few of them. -/
theorem exists_best_countP_lt (short : l.countP (fits score visible l n k) < k) :
    ∃ best, Best score l n best ∧ best.countP visible < k := by
  obtain ⟨best, rest, split, length, order⟩ :=
    exists_best_preferring score (fun a => !visible a) l n
  refine ⟨best, Best.of_preferring split length order, ?_⟩
  by_contra many
  have fitting : best.countP (fits score visible l n k) ≤ l.countP (fits score visible l n k) := by
    rw [← split.countP_eq, countP_append]
    exact Nat.le_add_right _ _
  -- some chosen visible element has too many hidden ones before it
  have misfit : ∃ a ∈ best, visible a = true ∧ fits score visible l n k a = false := by
    by_contra none_misfit
    have all : best.countP visible ≤ best.countP (fits score visible l n k) := by
      refine countP_mono_left fun a mem seen => ?_
      by_contra out
      exact none_misfit ⟨a, mem, seen, Bool.eq_false_of_not_eq_true out⟩
    omega
  obtain ⟨a, aMem, seen, out⟩ := misfit
  have crowded : n < hiddenAhead score visible l a + k := by
    rw [fits, seen, Bool.true_and, decide_eq_false_iff_not] at out
    omega
  have inside : hiddenAhead score visible l a ≤ best.countP fun b => !visible b := by
    have outside : rest.countP (fun b => !visible b && decide (score a ≤ score b)) = 0 := by
      rw [countP_eq_zero]
      intro b bMem held
      rw [Bool.and_eq_true, decide_eq_true_eq] at held
      rcases order a aMem b bMem with worse | ⟨equal, preferred⟩
      · exact absurd held.2 (not_le_of_gt worse)
      · have dark : (!visible a) = true := preferred held.1
        rw [seen] at dark
        cases dark
    rw [hiddenAhead, ← split.countP_eq, countP_append, outside, Nat.add_zero]
    exact countP_mono_left fun b _ held => (Bool.and_eq_true_iff.1 held).1
  have parts := length_eq_visible_add_hidden best visible
  omega

/-- Where every visible element has a window of better ones, no choice of the best shows any. -/
theorem Best.visible_eq_false (h : Best score l n best)
    (crowded : ∀ a ∈ l, visible a = true → n ≤ l.countP fun b => decide (score a < score b)) :
    ∀ a ∈ best, visible a = false := by
  obtain ⟨rest, split, length, order⟩ := h
  intro a aMem
  by_contra seen
  have inside : a ∈ l := split.mem_iff.1 (mem_append_left _ aMem)
  have better := crowded a inside (Bool.eq_true_of_not_eq_false seen)
  have outside : rest.countP (fun b => decide (score a < score b)) = 0 := by
    rw [countP_eq_zero]
    intro b bMem held
    exact absurd (of_decide_eq_true held) (not_lt_of_ge (order a aMem b bMem))
  rw [← split.countP_eq, countP_append, outside, Nat.add_zero] at better
  have proper : best.countP (fun b => decide (score a < score b)) < best.length := by
    refine lt_of_le_of_ne countP_le_length fun all => ?_
    exact lt_irrefl _ (of_decide_eq_true (countP_eq_length.1 all a aMem))
  omega

theorem exists_best_visible {a : α} (mem : a ∈ l) (seen : visible a = true)
    (room : (l.countP fun b => decide (score a < score b)) < n) :
    ∃ best, Best score l n best ∧ ∃ b ∈ best, visible b = true := by
  obtain ⟨best, rest, split, length, order⟩ := exists_best_preferring score visible l n
  refine ⟨best, Best.of_preferring split length order, ?_⟩
  by_contra dark
  have outside : a ∈ rest := by
    rcases mem_append.1 (split.mem_iff.2 mem) with chosen | left
    · exact absurd ⟨a, chosen, seen⟩ dark
    · exact left
  have full : best.length = n := by
    have lengths := split.length_eq
    rw [length_append] at lengths
    have pos : 0 < rest.length := length_pos_of_mem outside
    omega
  have better : best.countP (fun b => decide (score a < score b)) = best.length := by
    rw [countP_eq_length]
    intro b bMem
    rcases order b bMem a outside with worse | ⟨equal, preferred⟩
    · exact decide_eq_true worse
    · exact absurd ⟨b, bMem, preferred seen⟩ dark
  rw [← split.countP_eq, countP_append] at room
  omega

/-- Elements no worse than some bound that a choice of the best keeps whole. -/
theorem Best.countP_le (h : Best score l n best) {a : α} (mem : a ∈ best) {bound : κ}
    (worse : score a < bound) (p : α → Bool) :
    l.countP (fun b => p b && decide (bound ≤ score b)) =
      best.countP fun b => p b && decide (bound ≤ score b) := by
  obtain ⟨rest, split, length, order⟩ := h
  have outside : rest.countP (fun b => p b && decide (bound ≤ score b)) = 0 := by
    rw [countP_eq_zero]
    intro b bMem held
    rw [Bool.and_eq_true, decide_eq_true_eq] at held
    exact absurd (held.2.trans (order a mem b bMem)) (not_le_of_gt worse)
  rw [← split.countP_eq, countP_append, outside, Nat.add_zero]

end Filtered

end ContextEngine

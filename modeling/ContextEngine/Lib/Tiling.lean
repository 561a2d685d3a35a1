/- digest: Runs of intervals that follow each other without a gap, with or without overlap. -/

import Mathlib.Data.List.Basic
import Mathlib.Data.List.Chain

/-!
A tiling leaves no gap and repeats nothing. A cover leaves no gap, and an interval may begin
before the one in front of it ends.
-/

namespace ContextEngine

open List

variable {β : Type} {start stop : β → Nat}

/-- Proper intervals, each beginning where the one before ends. -/
inductive Tiles (start stop : β → Nat) : Nat → Nat → List β → Prop
  | nil (low : Nat) : Tiles start stop low low []
  | cons {low high : Nat} {b : β} {bs : List β} (begins : start b = low) (proper : low < stop b)
      (rest : Tiles start stop (stop b) high bs) : Tiles start stop low high (b :: bs)

/-- At least one interval, each beginning after the one before and no later than its end; exactly
at its end where overlap is not allowed. -/
inductive Covers (start stop : β → Nat) (overlap : Prop) : Nat → Nat → List β → Prop
  | last {low high : Nat} {b : β} (begins : start b = low) (ends : stop b = high)
      (le : low ≤ high) : Covers start stop overlap low high [b]
  | cons {low next high : Nat} {b : β} {bs : List β} (begins : start b = low) (later : low < next)
      (inside : next ≤ stop b) (meets : ¬overlap → next = stop b)
      (rest : Covers start stop overlap next high bs) : Covers start stop overlap low high (b :: bs)

namespace Tiles

variable {low mid high : Nat} {b b' : β} {bs cs : List β}

theorem le (tiles : Tiles start stop low high bs) : low ≤ high := by
  induction tiles with
  | nil low => exact Nat.le_refl low
  | cons begins proper _ ih => omega

theorem append (front : Tiles start stop low mid bs) (back : Tiles start stop mid high cs) :
    Tiles start stop low high (bs ++ cs) := by
  induction front with
  | nil low => exact back
  | cons begins proper _ ih => exact cons begins proper (ih back)

theorem single (begins : start b = low) (ends : stop b = high) (lt : low < high) :
    Tiles start stop low high [b] := by
  subst ends
  exact cons begins lt (nil _)

theorem push (front : Tiles start stop low mid bs) (begins : start b = mid) (ends : stop b = high)
    (lt : mid < high) : Tiles start stop low high (bs ++ [b]) :=
  front.append (single begins ends lt)

theorem of_single (tiles : Tiles start stop low high [b]) :
    start b = low ∧ stop b = high ∧ low < high := by
  cases tiles with
  | cons begins proper rest =>
    cases rest
    exact ⟨begins, rfl, proper⟩

theorem eq_nil_iff (tiles : Tiles start stop low high bs) : bs = [] ↔ low = high := by
  cases tiles with
  | nil => simp
  | cons begins proper rest =>
    have bound := rest.le
    constructor
    · intro none
      cases none
    · intro none
      omega

theorem mem (tiles : Tiles start stop low high bs) (isMem : b ∈ bs) :
    low ≤ start b ∧ start b < stop b ∧ stop b ≤ high := by
  induction tiles with
  | nil => cases isMem
  | cons begins proper rest ih =>
    rcases mem_cons.1 isMem with rfl | later
    · exact ⟨by omega, by omega, rest.le⟩
    · obtain ⟨lower, inner, upper⟩ := ih later
      exact ⟨by omega, inner, upper⟩

theorem exists_last (tiles : Tiles start stop low high bs) (ne : bs ≠ []) :
    ∃ front b, bs = front ++ [b] ∧ Tiles start stop low (start b) front ∧ stop b = high ∧
      start b < high := by
  induction tiles with
  | nil => exact absurd rfl ne
  | @cons low high c bs begins proper rest ih =>
    by_cases none : bs = []
    · subst none
      cases rest
      exact ⟨[], c, rfl, begins ▸ nil _, rfl, by omega⟩
    · obtain ⟨front, b, rfl, before, ends, lt⟩ := ih none
      exact ⟨c :: front, b, rfl, cons begins proper before, ends, lt⟩

theorem extend_last (tiles : Tiles start stop low mid (bs ++ [b])) (begins : start b' = start b)
    (ends : stop b' = high) (le : mid ≤ high) : Tiles start stop low high (bs ++ [b']) := by
  obtain ⟨front, c, same, before, reaches, lt⟩ := tiles.exists_last (by simp)
  obtain ⟨rfl, last⟩ := append_inj' same rfl
  obtain ⟨rfl, -⟩ := cons.inj last
  exact before.push begins ends (by omega)

theorem map {γ : Type} {start' stop' : γ → Nat} {f : β → γ}
    (tiles : Tiles start stop low high bs) (starts : ∀ b, start' (f b) = start b)
    (stops : ∀ b, stop' (f b) = stop b) : Tiles start' stop' low high (bs.map f) := by
  induction tiles with
  | nil low => exact nil low
  | cons begins proper _ ih =>
    rw [map_cons]
    apply cons
    · rw [starts, begins]
    · rw [stops]
      exact proper
    · rw [stops]
      exact ih

theorem covers (tiles : Tiles start stop low high bs) (ne : bs ≠ []) (overlap : Prop) :
    Covers start stop overlap low high bs := by
  induction tiles with
  | nil => exact absurd rfl ne
  | @cons low high c bs begins proper rest ih =>
    by_cases none : bs = []
    · subst none
      cases rest
      exact Covers.last begins rfl (Nat.le_of_lt proper)
    · exact Covers.cons begins proper (Nat.le_refl _) (fun _ => rfl) (ih none)

end Tiles

section Disjoint

/-- Intervals of which one that begins before the last kept one ends is left out. -/
def dropOverlaps (start stop : β → Nat) (spans : List β) : List β :=
  spans.foldl (fun kept span =>
    if kept.getLast?.all (fun last => stop last ≤ start span) then kept ++ [span] else kept) []

theorem mem_of_mem_dropOverlaps {b : β} {spans : List β}
    (isMem : b ∈ dropOverlaps start stop spans) : b ∈ spans := by
  induction spans using reverseRecOn with
  | nil => cases isMem
  | append_singleton front span ih =>
    rw [dropOverlaps, foldl_append, foldl_cons, foldl_nil] at isMem
    split at isMem
    · rcases mem_append.1 isMem with earlier | isLast
      · exact mem_append_left _ (ih earlier)
      · exact mem_append_right _ isLast
    · exact mem_append_left _ (ih isMem)

theorem isChain_dropOverlaps (spans : List β) :
    (dropOverlaps start stop spans).IsChain fun a b => stop a ≤ start b := by
  induction spans using reverseRecOn with
  | nil => exact isChain_nil
  | append_singleton front span ih =>
    rw [dropOverlaps, foldl_append, foldl_cons, foldl_nil]
    split
    · rename_i apart
      refine isChain_append.2 ⟨ih, isChain_singleton _, fun last isLast b isFirst => ?_⟩
      rw [Option.mem_def, head?_cons, Option.some.injEq] at isFirst
      rw [← isFirst]
      exact of_decide_eq_true (Option.all_eq_true _ _ |>.1 apart last isLast)
    · exact ih

end Disjoint

namespace Covers

variable {overlap : Prop} {low high : Nat} {bs : List β}

theorem ne_nil (covers : Covers start stop overlap low high bs) : bs ≠ [] := by
  cases covers <;> simp

theorem mono {overlap' : Prop} (covers : Covers start stop overlap low high bs)
    (allowed : overlap → overlap') : Covers start stop overlap' low high bs := by
  induction covers with
  | last begins ends le => exact last begins ends le
  | cons begins later inside meets _ ih =>
    exact cons begins later inside (fun none => meets fun some => none (allowed some)) ih

end Covers

end ContextEngine

/- digest: Joining neighbours of a list on a stack until no two neighbours may be joined. -/

import Mathlib.Data.List.Basic
import Mathlib.Data.List.Forall2
import Mathlib.Data.List.Chain

/-!
Elements are pushed one after the other. After each push the two elements on top are joined as long
as they may be, so what lies deeper is settled already and only the new top has to be looked at.
-/

namespace ContextEngine.StackMerge

open List

variable {α : Type} (mayJoin : α → α → Bool) (join : α → α → α)

/-- Push an element and join down the stack, whose top comes first. -/
def settle (top : α) : List α → List α
  | [] => [top]
  | prev :: stack => if mayJoin prev top then settle (join prev top) stack else top :: prev :: stack

/-- What is on the stack after all elements were pushed, bottom first. -/
def mergeAll (l : List α) : List α :=
  (l.foldl (fun stack a => settle mayJoin join a stack) []).reverse

variable {mayJoin} {join}

private theorem isChain_settle {top : α} {stack : List α}
    (settled : stack.IsChain fun a b => mayJoin b a = false) :
    (settle mayJoin join top stack).IsChain fun a b => mayJoin b a = false := by
  induction stack generalizing top with
  | nil => exact isChain_singleton top
  | cons prev stack ih =>
    rw [settle]
    split
    · exact ih settled.tail
    · rename_i apart
      exact settled.cons_cons (by simpa using apart)

theorem isChain_mergeAll (l : List α) :
    (mergeAll mayJoin join l).IsChain fun a b => mayJoin a b = false := by
  rw [mergeAll, isChain_reverse]
  suffices chain : ∀ stack : List α, stack.IsChain (fun a b => mayJoin b a = false) →
      (l.foldl (fun stack a => settle mayJoin join a stack) stack).IsChain
        fun a b => mayJoin b a = false by
    exact chain [] isChain_nil
  induction l with
  | nil => exact fun _ settled => settled
  | cons a l ih => exact fun stack settled => ih _ (isChain_settle settled)

theorem mergeAll_of_isChain {l : List α} (apart : l.IsChain fun a b => mayJoin a b = false) :
    mergeAll mayJoin join l = l := by
  rw [mergeAll]
  suffices pushed : l.foldl (fun stack a => settle mayJoin join a stack) [] = l.reverse by
    rw [pushed, reverse_reverse]
  induction l using reverseRecOn with
  | nil => rfl
  | append_singleton front a ih =>
    rw [foldl_append, foldl_cons, foldl_nil, ih (isChain_append.1 apart).1,
      reverse_append, reverse_singleton, singleton_append]
    have last := (isChain_append.1 apart).2.2
    cases rest : front.reverse with
    | nil => rfl
    | cons prev stack =>
      have isLast : front.getLast? = some prev := by
        rw [← head?_reverse, rest, head?_cons]
      have separate := last prev isLast a (by simp)
      rw [settle, separate, if_neg (by simp)]

section Blocks

variable {R : List α → α → Prop}

private theorem forall₂_settle
    (joined : ∀ xs ys a b, R xs a → R ys b → mayJoin a b = true → R (xs ++ ys) (join a b))
    {block : List α} {top : α} (rTop : R block top) {blocks : List (List α)} {stack : List α}
    (rStack : List.Forall₂ R blocks stack) :
    ∃ blocks', blocks'.reverse.flatten = blocks.reverse.flatten ++ block ∧
      List.Forall₂ R blocks' (settle mayJoin join top stack) := by
  induction rStack generalizing block top with
  | nil => exact ⟨[block], by simp, List.Forall₂.cons rTop List.Forall₂.nil⟩
  | @cons prevBlock prev blocks stack rPrev rRest ih =>
    rw [settle]
    by_cases may : mayJoin prev top = true
    · rw [if_pos may]
      obtain ⟨blocks', same, related⟩ := ih (joined _ _ _ _ rPrev rTop may)
      exact ⟨blocks', by rw [same]; simp, related⟩
    · rw [if_neg may]
      exact ⟨block :: prevBlock :: blocks, by simp,
        List.Forall₂.cons rTop (List.Forall₂.cons rPrev rRest)⟩

/-- The list falls into consecutive blocks, and each element of the result comes of one of them. -/
theorem exists_blocks (l : List α) (single : ∀ a ∈ l, R [a] a)
    (joined : ∀ xs ys a b, R xs a → R ys b → mayJoin a b = true → R (xs ++ ys) (join a b)) :
    ∃ blocks, blocks.flatten = l ∧ List.Forall₂ R blocks (mergeAll mayJoin join l) := by
  suffices pushed : ∃ blocks : List (List α), blocks.reverse.flatten = l ∧
      List.Forall₂ R blocks (l.foldl (fun stack a => settle mayJoin join a stack) []) by
    obtain ⟨blocks, same, related⟩ := pushed
    exact ⟨blocks.reverse, same, forall₂_reverse_iff.2 related⟩
  induction l using reverseRecOn with
  | nil => exact ⟨[], rfl, List.Forall₂.nil⟩
  | append_singleton front a ih =>
    obtain ⟨blocks, same, related⟩ := ih fun b isMem => single b (mem_append_left _ isMem)
    obtain ⟨blocks', same', related'⟩ := forall₂_settle joined (single a (by simp)) related
    refine ⟨blocks', by rw [same', same], ?_⟩
    rw [foldl_append, foldl_cons, foldl_nil]
    exact related'

/-- What every element has and a join keeps, every element of the result has. -/
theorem forall_mem_mergeAll {P : α → Prop} {l : List α} (single : ∀ a ∈ l, P a)
    (joined : ∀ a b, P a → P b → mayJoin a b = true → P (join a b)) :
    ∀ a ∈ mergeAll mayJoin join l, P a := by
  obtain ⟨blocks, -, related⟩ := exists_blocks (R := fun _ a => P a) l single
    fun _ _ a b pA pB may => joined a b pA pB may
  generalize mergeAll mayJoin join l = result at related
  intro a isMem
  induction related with
  | nil => cases isMem
  | cons head _ ih =>
    rcases mem_cons.1 isMem with rfl | later
    · exact head
    · exact ih later

end Blocks

theorem map_mergeAll_sublist {β : Type} {f : α → β} (left : ∀ a b, f (join a b) = f a)
    (l : List α) : ((mergeAll mayJoin join l).map f).Sublist (l.map f) := by
  have settled : ∀ (top : α) (stack : List α),
      ((settle mayJoin join top stack).map f).Sublist (f top :: stack.map f) := by
    intro top stack
    induction stack generalizing top with
    | nil => exact List.Sublist.refl _
    | cons prev stack ih =>
      rw [settle]
      split
      · have next := ih (join prev top)
        rw [left] at next
        exact next.trans (sublist_cons_self _ _)
      · exact List.Sublist.refl _
  suffices pushed : ((l.foldl (fun stack a => settle mayJoin join a stack) []).map f).Sublist
      (l.reverse.map f) by
    rw [mergeAll, map_reverse]
    rw [map_reverse] at pushed
    have reversed := pushed.reverse
    rwa [reverse_reverse] at reversed
  induction l using reverseRecOn with
  | nil => exact List.Sublist.refl _
  | append_singleton front a ih =>
    rw [foldl_append, foldl_cons, foldl_nil, reverse_append,
      reverse_singleton, singleton_append, map_cons]
    exact (settled _ _).trans (ih.cons_cons _)

end ContextEngine.StackMerge

/- digest: Walks as lists of nodes: splitting, splicing, and shortest ones. -/

import ContextEngine.Lib.Search
import Mathlib.Data.List.Chain

namespace ContextEngine.NodeWalks

open List Search

variable {α : Type} {next : α → List α} {a b c : α} {path front rest : List α}

/-- A list of nodes from one node to another, each a successor of the one before. -/
structure NodeWalk (next : α → List α) (a c : α) (path : List α) : Prop where
  head : path.head? = some a
  last : path.getLast? = some c
  chain : path.IsChain fun first second => second ∈ next first

structure Loopless (next : α → List α) (a c : α) (path : List α) : Prop where
  walk : NodeWalk next a c path
  nodup : path.Nodup

namespace NodeWalk

theorem ne_nil (walk : NodeWalk next a c path) : path ≠ [] := by
  rintro rfl
  cases walk.head

theorem right (walk : NodeWalk next a c (front ++ b :: rest)) :
    NodeWalk next b c (b :: rest) where
  head := rfl
  last := by
    have last := walk.last
    rwa [getLast?_append_of_ne_nil _ (cons_ne_nil b rest)] at last
  chain := (isChain_split.1 walk.chain).2

theorem left (walk : NodeWalk next a c (front ++ b :: rest)) :
    NodeWalk next a b (front ++ [b]) where
  head := by
    have head := walk.head
    cases front with
    | nil => exact head
    | cons first front => exact head
  last := getLast?_concat
  chain := (isChain_split.1 walk.chain).1

theorem splice (first : NodeWalk next a b (front ++ [b])) (second : NodeWalk next b c (b :: rest)) :
    NodeWalk next a c (front ++ b :: rest) where
  head := by
    have head := first.head
    cases front with
    | nil => exact head
    | cons node front => exact head
  last := by
    rw [getLast?_append_of_ne_nil _ (cons_ne_nil b rest)]
    exact second.last
  chain := isChain_split.2 ⟨first.chain, second.chain⟩

theorem steps (walk : NodeWalk next a c path) :
    ∃ n, path.length = n + 1 ∧ Steps next n a c := by
  induction path using reverseRecOn generalizing c with
  | nil => exact absurd rfl walk.ne_nil
  | append_singleton front last ih =>
    have ends := walk.last
    rw [getLast?_concat, Option.some.injEq] at ends
    subst ends
    rcases eq_nil_or_concat' front with rfl | ⟨before, b, rfl⟩
    · have starts := walk.head
      rw [nil_append, head?_singleton, Option.some.injEq] at starts
      exact ⟨0, rfl, starts.symm⟩
    · have split : NodeWalk next a last (before ++ b :: [last]) := by
        have listed := walk
        rwa [append_assoc, singleton_append] at listed
      obtain ⟨n, length, reached⟩ := ih split.left
      have edge : last ∈ next b := (isChain_cons_cons.1 split.right.chain).1
      exact ⟨n + 1, by rw [length_append, length, length_singleton], b, reached, edge⟩

end NodeWalk

theorem exists_repeat {l : List α} (repeats : ¬l.Nodup) :
    ∃ front b middle rest, l = front ++ b :: (middle ++ b :: rest) := by
  induction l with
  | nil => exact absurd nodup_nil repeats
  | cons first l ih =>
    by_cases again : first ∈ l
    · obtain ⟨middle, rest, rfl⟩ := append_of_mem again
      exact ⟨[], first, middle, rest, rfl⟩
    · obtain ⟨front, b, middle, rest, rfl⟩ := ih fun once => repeats
        (nodup_cons.2 ⟨again, once⟩)
      exact ⟨first :: front, b, middle, rest, rfl⟩

theorem NodeWalk.nodup_of_shortest (walk : NodeWalk next a c path)
    (shortest : ∀ other, NodeWalk next a c other → path.length ≤ other.length) : path.Nodup := by
  by_contra repeats
  obtain ⟨front, b, middle, rest, rfl⟩ := exists_repeat repeats
  have around : NodeWalk next a c ((front ++ b :: middle) ++ b :: rest) := by
    have listed := walk
    rwa [← cons_append, ← append_assoc] at listed
  have shorter := shortest _ (walk.left.splice around.right)
  simp only [length_append, length_cons] at shorter
  omega

end ContextEngine.NodeWalks

/- digest: Lists in which an element that goes up cancels the proper one in front of it. -/

import Mathlib.Data.List.Induction
import Mathlib.Logic.Relation

/-!
Some elements of a list say nothing, and an element that goes up takes away the proper element in
front of it. A walk with a stack carries this out from left to right, and its result is the normal
form of the list under the two rules, in whatever order they are applied.
-/

namespace ContextEngine.Cancellation

open List

inductive Role where
  | skipped | up | proper
  deriving DecidableEq

variable {α : Type} (role : α → Role)

def push (stack : List α) (a : α) : List α :=
  match role a with
  | .skipped => stack
  | .proper => stack ++ [a]
  | .up =>
    match stack.getLast? with
    | some top => if role top = .up then stack ++ [a] else stack.dropLast
    | none => stack ++ [a]

variable (l : List α)

def walk : List α := l.foldl (push role) []

/-- The two rules, applied anywhere in a list. -/
inductive Step : List α → List α → Prop
  | skip (before : List α) (a : α) (after : List α) (skipped : role a = .skipped) :
      Step (before ++ a :: after) (before ++ after)
  | cancel (before : List α) (a b : α) (after : List α) (proper : role a = .proper)
      (up : role b = .up) : Step (before ++ a :: b :: after) (before ++ after)

/-- First what goes up, then what is proper. -/
def Reduced : Prop :=
  ∃ ups propers, l = ups ++ propers ∧ (∀ a ∈ ups, role a = .up) ∧ ∀ a ∈ propers, role a = .proper

variable {role}

@[simp] theorem walk_nil : walk role [] = [] := rfl

theorem walk_concat (a : α) : walk role (l ++ [a]) = push role (walk role l) a := by
  simp only [walk, foldl_append, foldl_cons, foldl_nil]

variable {stack : List α}

theorem push_of_skipped {a : α} (skipped : role a = .skipped) :
    push role stack a = stack := by
  simp only [push, skipped]

theorem push_of_proper {a : α} (proper : role a = .proper) :
    push role stack a = stack ++ [a] := by
  simp only [push, proper]

theorem push_concat_of_proper {a b : α} (proper : role a = .proper)
    (up : role b = .up) : push role (stack ++ [a]) b = stack := by
  simp [push, up, proper]

theorem push_of_up {a : α} (ups : ∀ b ∈ stack, role b = .up)
    (up : role a = .up) : push role stack a = stack ++ [a] := by
  rcases eq_nil_or_concat stack with rfl | ⟨before, top, rfl⟩
  · simp [push, up]
  · have top_up : role top = .up := ups top (by simp)
    simp [push, up, top_up]

section Reduced

theorem Reduced.push {stack : List α} (reduced : Reduced role stack) (a : α) :
    Reduced role (push role stack a) := by
  obtain ⟨ups, propers, rfl, allUp, allProper⟩ := reduced
  cases kind : role a with
  | skipped =>
    rw [push_of_skipped kind]
    exact ⟨ups, propers, rfl, allUp, allProper⟩
  | proper =>
    rw [push_of_proper kind]
    refine ⟨ups, propers ++ [a], by simp, allUp, fun b mem => ?_⟩
    rcases mem_append.1 mem with old | new
    · exact allProper b old
    · rw [mem_singleton.1 new, kind]
  | up =>
    rcases eq_nil_or_concat propers with rfl | ⟨before, top, rfl⟩
    · rw [append_nil, push_of_up allUp kind]
      refine ⟨ups ++ [a], [], by simp, fun b mem => ?_, by simp⟩
      rcases mem_append.1 mem with old | new
      · exact allUp b old
      · rw [mem_singleton.1 new, kind]
    · have top_proper : role top = .proper := allProper top (by simp)
      rw [concat_eq_append, ← append_assoc, push_concat_of_proper top_proper kind]
      exact ⟨ups, before, rfl, allUp, fun b mem => allProper b (by simp [mem])⟩

theorem reduced_walk (l : List α) : Reduced role (walk role l) := by
  induction l using reverseRecOn with
  | nil => exact ⟨[], [], rfl, by simp, by simp⟩
  | append_singleton l a ih =>
    rw [walk_concat]
    exact ih.push a

theorem Reduced.walk_eq {l : List α} (reduced : Reduced role l) : walk role l = l := by
  obtain ⟨ups, propers, rfl, allUp, allProper⟩ := reduced
  induction propers using reverseRecOn with
  | nil =>
    rw [append_nil]
    induction ups using reverseRecOn with
    | nil => rfl
    | append_singleton ups a ih =>
      have before := ih fun b mem => allUp b (by simp [mem])
      rw [walk_concat, before]
      exact push_of_up (fun b mem => allUp b (by simp [mem])) (allUp a (by simp))
  | append_singleton propers a ih =>
    have before := ih fun b mem => allProper b (by simp [mem])
    rw [← append_assoc, walk_concat, before]
    exact push_of_proper (allProper a (by simp))

end Reduced

theorem mem_of_mem_walk {l : List α} {a : α} (mem : a ∈ walk role l) : a ∈ l := by
  induction l using reverseRecOn with
  | nil => cases mem
  | append_singleton l b ih =>
    rw [walk_concat, push] at mem
    have kept : a ∈ walk role l → a ∈ l ++ [b] := fun before => by simp [ih before]
    have pushed : a ∈ walk role l ++ [b] → a ∈ l ++ [b] := fun either => by
      rcases mem_append.1 either with before | last
      · exact kept before
      · exact mem_append_right l last
    split at mem
    · exact kept mem
    · exact pushed mem
    · split at mem
      · split_ifs at mem
        · exact pushed mem
        · exact kept (dropLast_subset _ mem)
      · exact pushed mem

theorem walk_append (l rest : List α) :
    walk role (l ++ rest) = rest.foldl (push role) (walk role l) := by
  simp only [walk, foldl_append]

section Rules

theorem Step.append {l l' : List α} (step : Step role l l') (rest : List α) :
    Step role (l ++ rest) (l' ++ rest) := by
  cases step with
  | skip before a after skipped =>
    simpa using Step.skip before a (after ++ rest) skipped
  | cancel before a b after proper up =>
    simpa using Step.cancel before a b (after ++ rest) proper up

theorem Step.walk_eq {l l' : List α} (step : Step role l l') : walk role l = walk role l' := by
  cases step with
  | skip before a after skipped =>
    rw [walk_append, walk_append, foldl_cons, push_of_skipped skipped]
  | cancel before a b after proper up =>
    rw [walk_append, walk_append, foldl_cons, foldl_cons, push_of_proper proper,
      push_concat_of_proper proper up]

theorem Reduced.steps_push {stack : List α} (reduced : Reduced role stack) (a : α) :
    Relation.ReflTransGen (Step role) (stack ++ [a]) (Cancellation.push role stack a) := by
  obtain ⟨ups, propers, rfl, allUp, allProper⟩ := reduced
  cases kind : role a with
  | skipped =>
    rw [push_of_skipped kind]
    have step := Step.skip (ups ++ propers) a [] kind
    rw [append_nil] at step
    exact Relation.ReflTransGen.single step
  | proper =>
    rw [push_of_proper kind]
  | up =>
    rcases eq_nil_or_concat propers with rfl | ⟨before, top, rfl⟩
    · rw [append_nil, push_of_up allUp kind]
    · have top_proper : role top = .proper := allProper top (by simp)
      rw [concat_eq_append, ← append_assoc, push_concat_of_proper top_proper kind]
      have step := Step.cancel (ups ++ before) top a [] top_proper kind
      rw [append_nil] at step
      simpa using Relation.ReflTransGen.single step

theorem steps_walk (l : List α) : Relation.ReflTransGen (Step role) l (walk role l) := by
  induction l using reverseRecOn with
  | nil => exact Relation.ReflTransGen.refl
  | append_singleton l a ih =>
    rw [walk_concat]
    have before : Relation.ReflTransGen (Step role) (l ++ [a]) (walk role l ++ [a]) :=
      ih.lift (· ++ [a]) fun _ _ step => step.append [a]
    exact before.trans ((reduced_walk l).steps_push a)

/-- Two lists have the same walk if and only if the rules lead from one to the other, forwards and
backwards. -/
theorem walk_eq_iff (l l' : List α) :
    walk role l = walk role l' ↔ Relation.EqvGen (Step role) l l' := by
  constructor
  · intro same
    have related : ∀ {a b : List α}, Relation.ReflTransGen (Step role) a b →
        Relation.EqvGen (Step role) a b := by
      intro a b steps
      induction steps with
      | refl => exact .refl a
      | tail _ step ih => exact ih.trans _ _ _ (.rel _ _ step)
    have left : Relation.EqvGen (Step role) l (walk role l) := related (steps_walk l)
    have right : Relation.EqvGen (Step role) l' (walk role l') := related (steps_walk l')
    rw [same] at left
    exact left.trans _ _ _ (right.symm _ _)
  · intro related
    induction related with
    | rel _ _ step => exact step.walk_eq
    | refl _ => rfl
    | symm _ _ _ ih => exact ih.symm
    | trans _ _ _ _ _ ih ih' => exact ih.trans ih'

end Rules

end ContextEngine.Cancellation

/- digest: Links to parents and children, and what becomes of them when nodes are merged. -/

import Mathlib.Data.Set.Operations
import Mathlib.Data.Option.Basic

/-!
A node may name a parent and lists children. Merging nodes leaves one parent and all children of
each class. Links that agreed with each other do so afterwards exactly when no class names parents
of two classes.
-/

namespace ContextEngine.MergedLinks

variable {A B : Type}

structure Links (A : Type) where
  parent : A → Option A
  children : A → List A

/-- Every parent lists its child, and every listed child names its parent. -/
structure Mutual (nodes : Set A) (links : Links A) : Prop where
  listed : ∀ a ∈ nodes, ∀ p, links.parent a = some p → p ∈ nodes ∧ a ∈ links.children p
  named : ∀ p ∈ nodes, ∀ a ∈ links.children p, a ∈ nodes ∧ links.parent a = some p

/-- The links of merged nodes: a parent that one of the class names if any does, and the children of
the whole class. -/
structure Merges (nodes : Set A) (links : Links A) (merge : A → B) (merged : Links B) : Prop where
  chosen : ∀ a ∈ nodes, ∀ q, merged.parent (merge a) = some q →
    ∃ b ∈ nodes, merge b = merge a ∧ ∃ p ∈ nodes, links.parent b = some p ∧ merge p = q
  some_chosen : ∀ a ∈ nodes, ∀ p, links.parent a = some p →
    ∃ q, merged.parent (merge a) = some q
  children : ∀ p ∈ nodes, ∀ b, b ∈ merged.children (merge p) ↔
    ∃ p' ∈ nodes, merge p' = merge p ∧ ∃ a ∈ nodes, a ∈ links.children p' ∧ merge a = b

def ParentsAgree (nodes : Set A) (links : Links A) (merge : A → B) : Prop :=
  ∀ a ∈ nodes, ∀ b ∈ nodes, merge a = merge b →
    ∀ p, links.parent a = some p → ∀ q, links.parent b = some q → merge p = merge q

variable {nodes : Set A} {links : Links A} {merge : A → B} {merged : Links B}

theorem mutual_image_iff (mutual_ : Mutual nodes links) (merges : Merges nodes links merge merged) :
    Mutual (Set.image merge nodes) merged ↔ ParentsAgree nodes links merge := by
  constructor
  · intro image a aMem b bMem same p parentA q parentB
    -- the merged node is a child of both parents
    have lists : ∀ c ∈ nodes, merge c = merge a → ∀ r, links.parent c = some r →
        merged.parent (merge a) = some (merge r) := by
      intro c cMem sameClass r parent
      obtain ⟨rMem, listed⟩ := mutual_.listed c cMem r parent
      have child : merge a ∈ merged.children (merge r) :=
        (merges.children r rMem _).2 ⟨r, rMem, rfl, c, cMem, listed, sameClass⟩
      exact (image.named _ (Set.mem_image_of_mem merge rMem) _ child).2
    have first := lists a aMem rfl p parentA
    have second := lists b bMem same.symm q parentB
    rw [first] at second
    exact Option.some.inj second
  · intro agree
    constructor
    · rintro _ ⟨a, aMem, rfl⟩ q parent
      obtain ⟨b, bMem, same, p, pMem, named, rfl⟩ := merges.chosen a aMem q parent
      refine ⟨Set.mem_image_of_mem merge pMem, ?_⟩
      obtain ⟨_, listed⟩ := mutual_.listed b bMem p named
      exact (merges.children p pMem _).2 ⟨p, pMem, rfl, b, bMem, listed, same⟩
    · rintro _ ⟨p, pMem, rfl⟩ _ child
      obtain ⟨p', p'Mem, sameParent, a, aMem, listed, rfl⟩ := (merges.children p pMem _).1 child
      refine ⟨Set.mem_image_of_mem merge aMem, ?_⟩
      obtain ⟨_, named⟩ := mutual_.named p' p'Mem a listed
      obtain ⟨q, chosen⟩ := merges.some_chosen a aMem p' named
      obtain ⟨b, bMem, same, r, rMem, other, rfl⟩ := merges.chosen a aMem q chosen
      have merged_ := agree b bMem a aMem same r other p' named
      rw [chosen, merged_, sameParent]

end ContextEngine.MergedLinks

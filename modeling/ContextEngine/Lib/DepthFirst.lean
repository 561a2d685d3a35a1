/- digest: What is reached without touching a path, and the path a depth-first search comes by. -/

import Mathlib.Data.List.Basic
import Mathlib.Data.List.Chain
import Mathlib.Logic.Relation

/-!
A depth-first search comes to a node from the first candidate that reaches it without touching the
path so far, and goes on in the same way from there.
-/

namespace ContextEngine.DepthFirst

variable {α : Type} {next : α → List α} {path candidates p : List α} {a b d u : α}

/-- Reached in any number of steps without touching the path. -/
def ReachAvoiding (next : α → List α) (path : List α) (a b : α) : Prop :=
  a ∉ path ∧ Relation.ReflTransGen (fun x y => y ∈ next x ∧ y ∉ path) a b

theorem ReachAvoiding.tail (reach : ReachAvoiding next path a b) (step : d ∈ next b)
    (avoids : d ∉ path) : ReachAvoiding next path a d :=
  ⟨reach.1, reach.2.tail ⟨step, avoids⟩⟩

theorem reachAvoiding_iff_of_notMem (avoids : d ∉ path) :
    ReachAvoiding next path d b ↔ b = d ∨ ∃ e ∈ next d, ReachAvoiding next (path ++ [d]) e b := by
  have both : ∀ {y}, y ∉ path ++ [d] ↔ y ∉ path ∧ y ≠ d := by simp
  constructor
  · rintro ⟨-, steps⟩
    induction steps with
    | refl => exact Or.inl rfl
    | @tail y z _ last ih =>
      by_cases back : z = d
      · exact Or.inl back
      · right
        rcases ih with rfl | ⟨e, mem, reach⟩
        · exact ⟨z, last.1, both.2 ⟨last.2, back⟩, .refl⟩
        · exact ⟨e, mem, reach.tail last.1 (both.2 ⟨last.2, back⟩)⟩
  · rintro (rfl | ⟨e, mem, start, steps⟩)
    · exact ⟨avoids, .refl⟩
    · exact ⟨avoids, .head ⟨mem, (both.1 start).1⟩
        (Relation.ReflTransGen.mono (fun x y step => ⟨step.1, (both.1 step.2).1⟩) _ _ steps)⟩

/-- The path by which `u` is come to: the first candidate that reaches it without touching the path,
then in the same way from its neighbours. -/
inductive DirectPath (next : α → List α) (u : α) : List α → List α → List α → Prop
  | here {path rest : List α} (avoids : u ∉ path) : DirectPath next u path (u :: rest) [u]
  | child {path rest p : List α} {d : α} (avoids : d ∉ path)
      (below : DirectPath next u (path ++ [d]) (next d) p) : DirectPath next u path (d :: rest)
        (d :: p)
  | later {path rest p : List α} {d : α} (unreached : ¬ReachAvoiding next path d u)
      (direct : DirectPath next u path rest p) : DirectPath next u path (d :: rest) p

theorem DirectPath.reaches (direct : DirectPath next u path candidates p) :
    ∃ d ∈ candidates, ReachAvoiding next path d u := by
  induction direct with
  | here avoids => exact ⟨u, List.mem_cons_self, avoids, .refl⟩
  | child avoids below ih =>
    exact ⟨_, List.mem_cons_self, (reachAvoiding_iff_of_notMem avoids).2 (Or.inr ih)⟩
  | later unreached direct ih =>
    obtain ⟨d, mem, reach⟩ := ih
    exact ⟨d, List.mem_cons_of_mem _ mem, reach⟩

theorem DirectPath.isChain (direct : DirectPath next u path candidates p) :
    p.IsChain (fun x y => y ∈ next x) ∧ (∃ first rest, p = first :: rest ∧ first ∈ candidates) ∧
      p.getLast? = some u := by
  induction direct with
  | here avoids => exact ⟨List.isChain_singleton _, ⟨u, [], rfl, List.mem_cons_self⟩, rfl⟩
  | @child path rest p d avoids below ih =>
    obtain ⟨chain, ⟨first, more, rfl, mem⟩, last⟩ := ih
    exact ⟨List.isChain_cons_cons.2 ⟨mem, chain⟩, ⟨d, first :: more, rfl, List.mem_cons_self⟩,
      by rwa [List.getLast?_cons_cons]⟩
  | later unreached direct ih =>
    obtain ⟨chain, ⟨first, more, same, mem⟩, last⟩ := ih
    exact ⟨chain, ⟨first, more, same, List.mem_cons_of_mem _ mem⟩, last⟩

def ClosedUpTo (next : α → List α) (path : List α) (visited : α → Prop) : Prop :=
  ∀ x, visited x → ∀ y ∈ next x, visited y ∨ y ∈ path

theorem ClosedUpTo.reaches {visited : α → Prop} (closed : ClosedUpTo next path visited)
    (start : visited a) (reach : ReachAvoiding next path a b) : visited b := by
  obtain ⟨-, steps⟩ := reach
  induction steps with
  | refl => exact start
  | tail _ last ih => exact (closed _ ih _ last.1).resolve_right last.2

theorem ClosedUpTo.add {visited : α → Prop} (closed : ClosedUpTo next path visited) :
    ClosedUpTo next path fun x => visited x ∨ ReachAvoiding next path a x := by
  rintro x (known | reach) y step
  · exact (closed x known y step).imp_left Or.inl
  · by_cases on : y ∈ path
    · exact Or.inr on
    · exact Or.inl (Or.inr (reach.tail step on))

end ContextEngine.DepthFirst

/- digest: Slots that keep one of the values with the highest rank among those offered. -/

import ContextEngine.Lib.Collections

/-!
Which of several values of the highest rank a slot holds depends on the order of the offers. That
it holds one of them does not, and where they are all equal neither does the slot.
-/

namespace ContextEngine.RankedSlots

variable {K V A : Type} [DecidableEq K] (supersedes : V → V → Bool)

def offer (slots : HashMap K V) (k : K) (v : V) : HashMap K V :=
  slots.alter k fun held =>
    match held with
    | none => some v
    | some w => some (if supersedes v w then v else w)

def RankedBy (rank : V → Nat) : Prop := ∀ v w, supersedes v w = true ↔ rank w ≤ rank v

variable {R : Type} [LinearOrder R] (rank : V → R)

/-- A slot is empty if nothing was offered for it, and else holds one of the best offers. -/
structure HoldsBest (slots : HashMap K V) (offered : K → V → Prop) : Prop where
  empty : ∀ k, slots.lookup k = none → ∀ v, ¬ offered k v
  held : ∀ k v, slots.lookup k = some v → offered k v ∧ ∀ w, offered k w → rank w ≤ rank v

variable {supersedes : V → V → Bool} {rank : V → R}

theorem RankedBy.ordered {rank : V → Nat} (ranked : RankedBy supersedes rank) (v w : V) :
    (supersedes v w = true → rank w ≤ rank v) ∧ (¬supersedes v w = true → rank v ≤ rank w) :=
  ⟨(ranked v w).1, fun stays => Nat.le_of_not_le fun below => stays ((ranked v w).2 below)⟩

theorem holdsBest_empty {offered : K → V → Prop} (nothing : ∀ k v, ¬ offered k v) :
    HoldsBest rank (∅ : HashMap K V) offered where
  empty k _ v := nothing k v
  held k v held := by
    rw [AList.lookup_empty] at held
    cases held

theorem lookup_offer (slots : HashMap K V) (k k' : K) (v : V) :
    (offer supersedes slots k v).lookup k' =
      if k' = k then some (((slots.lookup k).map fun w => if supersedes v w then v else w).getD v)
      else slots.lookup k' := by
  rw [offer, HashMap.lookup_alter]
  cases slots.lookup k <;> rfl

variable {offered offered' : K → V → Prop} {slots : HashMap K V}

theorem HoldsBest.offer
    (best : HoldsBest rank slots offered) (k : K) (v : V)
    (ranked : ∀ v w, (supersedes v w = true → rank w ≤ rank v) ∧
      (¬supersedes v w = true → rank v ≤ rank w))
    (more : ∀ k' w, offered' k' w ↔ offered k' w ∨ (k' = k ∧ w = v)) :
    HoldsBest rank (offer supersedes slots k v) offered' where
  empty k' absent w mem := by
    rw [lookup_offer] at absent
    split_ifs at absent with here
    rcases (more k' w).1 mem with before | ⟨same, -⟩
    · exact best.empty k' absent w before
    · exact here same
  held k' w held := by
    rw [lookup_offer] at held
    by_cases here : k' = k
    · subst here
      rw [if_pos rfl] at held
      cases old : slots.lookup k' with
      | none =>
        rw [old] at held
        cases held
        refine ⟨(more k' v).2 (Or.inr ⟨rfl, rfl⟩), fun u mem => ?_⟩
        rcases (more k' u).1 mem with before | ⟨-, rfl⟩
        · exact absurd before (best.empty k' old u)
        · exact le_refl _
      | some u =>
        rw [old] at held
        obtain ⟨offeredU, highest⟩ := best.held k' u old
        by_cases replaces : supersedes v u = true
        · rw [Option.map_some, if_pos replaces] at held
          cases held
          refine ⟨(more k' v).2 (Or.inr ⟨rfl, rfl⟩), fun x mem => ?_⟩
          rcases (more k' x).1 mem with before | ⟨-, rfl⟩
          · exact (highest x before).trans ((ranked v u).1 replaces)
          · exact le_refl _
        · have highest_v : rank v ≤ rank u := (ranked v u).2 replaces
          rw [Option.map_some, if_neg replaces] at held
          cases held
          refine ⟨(more k' u).2 (Or.inl offeredU), fun x mem => ?_⟩
          rcases (more k' x).1 mem with before | ⟨-, rfl⟩
          · exact highest x before
          · exact highest_v
    · rw [if_neg here] at held
      obtain ⟨offeredW, highest⟩ := best.held k' w held
      refine ⟨(more k' w).2 (Or.inl offeredW), fun x mem => ?_⟩
      rcases (more k' x).1 mem with before | ⟨same, -⟩
      · exact highest x before
      · exact absurd same here

theorem HoldsBest.congr
    (best : HoldsBest rank slots offered) (same : ∀ k v, offered' k v ↔ offered k v) :
    HoldsBest rank slots offered' where
  empty k absent v mem := best.empty k absent v ((same k v).1 mem)
  held k v held := by
    obtain ⟨mem, highest⟩ := best.held k v held
    exact ⟨(same k v).2 mem, fun w mem' => highest w ((same k w).1 mem')⟩

theorem HoldsBest.foldl (step : HashMap K V → A → HashMap K V) (made : A → K → V → Prop)
    (keeps : ∀ slots offered offered' a, HoldsBest rank slots offered →
      (∀ k v, offered' k v ↔ offered k v ∨ made a k v) →
        HoldsBest rank (step slots a) offered') (best : HoldsBest rank slots offered)
    (l : List A) (more : ∀ k v, offered' k v ↔ offered k v ∨ ∃ a ∈ l, made a k v) :
    HoldsBest rank (l.foldl step slots) offered' := by
  induction l generalizing slots offered with
  | nil => exact best.congr fun k v => by simpa using more k v
  | cons a l ih =>
    refine ih (keeps slots offered (fun k v => offered k v ∨ made a k v) a best
      fun _ _ => Iff.rfl) fun k v => ?_
    rw [more, or_assoc]
    simp only [List.mem_cons, exists_eq_or_imp]

theorem HoldsBest.lookup_eq {slots slots' : HashMap K V} {offered : K → V → Prop}
    (best : HoldsBest rank slots offered) (best' : HoldsBest rank slots' offered) (k : K)
    (clear : ∀ v w, offered k v → offered k w → (∀ u, offered k u → rank u ≤ rank v) →
      (∀ u, offered k u → rank u ≤ rank w) → v = w) : slots.lookup k = slots'.lookup k := by
  cases first : slots.lookup k with
  | none =>
    cases second : slots'.lookup k with
    | none => rfl
    | some w => exact absurd (best'.held k w second).1 (best.empty k first w)
  | some v =>
    obtain ⟨mem, highest⟩ := best.held k v first
    cases second : slots'.lookup k with
    | none => exact absurd mem (best'.empty k second v)
    | some w =>
      obtain ⟨mem', highest'⟩ := best'.held k w second
      rw [clear v w mem mem' highest highest']

end ContextEngine.RankedSlots

/- digest: The chain of lower levels above an entry of a list. -/

import Mathlib.Data.List.Basic
import Mathlib.Data.List.TakeWhile

/-!
Entries with levels stand in an order that makes a forest: the parent of an entry is the nearest one
before it of a lower level. The lists of this module have the nearest entry first.
-/

namespace ContextEngine.LevelChain

open List

variable {α : Type} (level : α → Option Nat)

/-- The entries above the bound, each of a lower level than the one before it in the chain. -/
def ancestors : Option Nat → List α → List α
  | _, [] => []
  | bound, a :: rest =>
    match level a with
    | none => ancestors bound rest
    | some l =>
      if ∀ b ∈ bound, l < b then a :: ancestors (some l) rest else ancestors bound rest

def upTo (stop : α → Bool) : List α → List α
  | [] => []
  | a :: rest => if stop a then [a] else a :: upTo stop rest

variable {level}

section Equations

variable {bound : Option Nat} {a : α} {rest : List α}

theorem ancestors_none (plain : level a = none) :
    ancestors level bound (a :: rest) = ancestors level bound rest := by
  rw [ancestors, plain]

theorem ancestors_below {l : Nat} (levelled : level a = some l) (below : ∀ b ∈ bound, l < b) :
    ancestors level bound (a :: rest) = a :: ancestors level (some l) rest := by
  rw [ancestors, levelled]
  exact if_pos below

theorem ancestors_above {l : Nat} (levelled : level a = some l) (above : ¬∀ b ∈ bound, l < b) :
    ancestors level bound (a :: rest) = ancestors level bound rest := by
  rw [ancestors, levelled]
  exact if_neg above

end Equations

variable (before : List α)

theorem ancestors_sublist :
    ∀ bound : Option Nat, (ancestors level bound before).Sublist before := by
  induction before with
  | nil => exact fun _ => List.Sublist.refl []
  | cons a rest ih =>
    intro bound
    cases levelled : level a with
    | none =>
      rw [ancestors_none levelled]
      exact (ih bound).cons a
    | some l =>
      by_cases below : ∀ b ∈ bound, l < b
      · rw [ancestors_below levelled below]
        exact (ih _).cons_cons a
      · rw [ancestors_above levelled below]
        exact (ih bound).cons a

theorem upTo_sublist {stop : α → Bool} : (upTo stop before).Sublist before := by
  induction before with
  | nil => exact List.Sublist.refl []
  | cons a rest ih =>
    rw [upTo]
    split_ifs
    · exact (nil_sublist rest).cons_cons a
    · exact ih.cons_cons a

theorem dropWhile_dropWhile {p q : α → Bool} (imp : ∀ a, q a = true → p a = true) :
    ∀ {l : List α}, (l.dropWhile q).dropWhile p = l.dropWhile p
  | [] => rfl
  | a :: rest => by
      cases first : q a with
      | true =>
        rw [dropWhile_cons_of_pos first, dropWhile_cons_of_pos (imp a first)]
        exact dropWhile_dropWhile imp
      | false => rw [dropWhile_cons_of_neg (by simp [first])]

theorem ancestors_eq_dropWhile (l : Nat) :
    ancestors level (some l) before =
      (ancestors level none before).dropWhile fun a => decide (l ≤ (level a).getD 0) := by
  induction before generalizing l with
  | nil => rfl
  | cons a rest ih =>
    cases levelled : level a with
    | none => rw [ancestors_none levelled, ancestors_none levelled, ih]
    | some k =>
      have opened : ancestors level none (a :: rest) = a :: ancestors level (some k) rest :=
        ancestors_below levelled (by simp)
      rw [opened, dropWhile_cons, levelled]
      by_cases below : k < l
      · rw [ancestors_below levelled (by simpa using below), if_neg (by simpa using below)]
      · rw [ancestors_above levelled (by simpa using below), if_pos (by simpa using below), ih,
          ih k]
        refine (dropWhile_dropWhile fun e higher => ?_).symm
        simp only [decide_eq_true_eq] at higher ⊢
        exact Nat.le_trans (Nat.le_of_not_lt below) higher

variable {before : List α}

theorem level_of_mem_ancestors {bound : Option Nat} {a : α}
    (mem : a ∈ ancestors level bound before) : (level a).isSome := by
  induction before generalizing bound with
  | nil => cases mem
  | cons e rest ih =>
    cases levelled : level e with
    | none =>
      rw [ancestors_none levelled] at mem
      exact ih mem
    | some l =>
      by_cases below : ∀ b ∈ bound, l < b
      · rw [ancestors_below levelled below] at mem
        rcases mem_cons.1 mem with rfl | later
        · rw [levelled]
          rfl
        · exact ih later
      · rw [ancestors_above levelled below] at mem
        exact ih mem

theorem ancestors_append_plain {plain : List α} (unlevelled : ∀ a ∈ plain, level a = none)
    (bound : Option Nat) (rest : List α) :
    ancestors level bound (plain ++ rest) = ancestors level bound rest := by
  induction plain with
  | nil => rfl
  | cons a plain ih =>
    rw [cons_append, ancestors_none (unlevelled a mem_cons_self)]
    exact ih fun e mem => unlevelled e (mem_cons_of_mem _ mem)

theorem ancestors_filterMap {β : Type} (f : β → Option α) (bound : Option Nat) (before : List β) :
    ancestors level bound (before.filterMap f) =
      (ancestors (fun b => (f b).bind level) bound before).filterMap f := by
  induction before generalizing bound with
  | nil => rfl
  | cons b rest ih =>
    cases stands : f b with
    | none => rw [filterMap_cons_none stands, ancestors_none (by rw [stands]; rfl), ih]
    | some a =>
      rw [filterMap_cons_some stands]
      cases levelled : level a with
      | none =>
        rw [ancestors_none levelled, ancestors_none (by rw [stands]; exact levelled), ih]
      | some l =>
        have stands' : (f b).bind level = some l := by
          rw [stands]
          exact levelled
        by_cases below : ∀ k ∈ bound, l < k
        · have listed : ancestors (fun b => (f b).bind level) bound (b :: rest) =
              b :: ancestors (fun b => (f b).bind level) (some l) rest :=
            ancestors_below stands' below
          rw [ancestors_below levelled below, listed, filterMap_cons_some stands, ih]
        · have skipped : ancestors (fun b => (f b).bind level) bound (b :: rest) =
              ancestors (fun b => (f b).bind level) bound rest :=
            ancestors_above stands' below
          rw [ancestors_above levelled below, skipped, ih]

theorem ancestors_of_lowest {bound : Nat}
    (lowest : ∀ a ∈ before, ∀ l, level a = some l → bound ≤ l) :
    ancestors level (some bound) before = [] := by
  induction before with
  | nil => rfl
  | cons a rest ih =>
    have behind := ih fun a mem => lowest a (mem_cons_of_mem _ mem)
    cases levelled : level a with
    | none => rw [ancestors_none levelled, behind]
    | some l =>
      have le := lowest a mem_cons_self l levelled
      rw [ancestors_above levelled (by simpa using le), behind]

theorem ancestors_upTo {stop : α → Bool} {lowest : Nat}
    (least : ∀ a ∈ before, ∀ l, level a = some l → lowest ≤ l)
    (stops : ∀ a ∈ before, stop a = true → level a = some lowest) (bound : Option Nat) :
    ancestors level bound before = ancestors level bound (upTo stop before) := by
  induction before generalizing bound with
  | nil => rfl
  | cons a rest ih =>
    have least' : ∀ a ∈ rest, ∀ l, level a = some l → lowest ≤ l :=
      fun a mem => least a (mem_cons_of_mem _ mem)
    have ih := ih least' fun a mem => stops a (mem_cons_of_mem _ mem)
    rw [upTo]
    split_ifs with stopped
    · have levelled := stops a mem_cons_self stopped
      by_cases below : ∀ b ∈ bound, lowest < b
      · rw [ancestors_below levelled below, ancestors_below levelled below,
          ancestors_of_lowest least', ancestors]
      · obtain ⟨b, rfl, le⟩ : ∃ b, bound = some b ∧ b ≤ lowest := by simpa using below
        rw [ancestors_above levelled below, ancestors_above levelled below, ancestors,
          ancestors_of_lowest fun a mem l levelled => Nat.le_trans le (least' a mem l levelled)]
    · cases levelled : level a with
      | none => rw [ancestors_none levelled, ancestors_none levelled, ih]
      | some l =>
        by_cases below : ∀ b ∈ bound, l < b
        · rw [ancestors_below levelled below, ancestors_below levelled below, ih]
        · rw [ancestors_above levelled below, ancestors_above levelled below, ih]

variable (level) in
def Under (listed : α → Bool) (earlier later : α) : Prop :=
  listed earlier = true → ∀ k, level earlier = some k → ∀ l, level later = some l → k < l

/-- The chain has every listed entry exactly when their levels rise up to the bound. -/
theorem filter_ancestors_iff {listed : α → Bool}
    (levelled : ∀ a ∈ before, listed a = true → (level a).isSome) (bound : Option Nat) :
    (ancestors level bound before).filter listed = before.filter listed ↔
      (∀ a ∈ before, listed a = true → ∀ k, level a = some k → ∀ b ∈ bound, k < b) ∧
        before.Pairwise fun later earlier => Under level listed earlier later := by
  induction before generalizing bound with
  | nil => simp [ancestors]
  | cons a rest ih =>
    have ih := ih fun a mem => levelled a (mem_cons_of_mem _ mem)
    rw [forall_mem_cons, pairwise_cons]
    cases own : level a with
    | none =>
      have unlisted : ¬listed a = true := fun listed => by
        simpa [own] using levelled a mem_cons_self listed
      rw [ancestors_none own, filter_cons_of_neg unlisted, ih]
      simp [unlisted, Under, own]
    | some l =>
      by_cases below : ∀ b ∈ bound, l < b
      · have cons : (ancestors level bound (a :: rest)).filter listed = (a :: rest).filter listed ↔
              (ancestors level (some l) rest).filter listed = rest.filter listed := by
          rw [ancestors_below own below]
          cases isListed : listed a <;> simp [isListed]
        rw [cons, ih]
        constructor
        · rintro ⟨under, rising⟩
          refine ⟨⟨fun _ k found => ?_, fun e mem isListed k found b inBound => ?_⟩,
            fun e mem isListed k found m here => ?_, rising⟩
          · cases found
            exact below
          · exact Nat.lt_trans (under e mem isListed k found l rfl) (below b inBound)
          · rw [own] at here
            cases here
            exact under e mem isListed k found l rfl
        · rintro ⟨-, here, rising⟩
          refine ⟨fun e mem isListed k found b inBound => ?_, rising⟩
          cases inBound
          exact here e mem isListed k found l own
      · rw [ancestors_above own below]
        obtain ⟨b, rfl, le⟩ : ∃ b, bound = some b ∧ b ≤ l := by simpa using below
        cases isListed : listed a with
        | true =>
          refine iff_of_false (fun same => ?_) (fun both => ?_)
          · have short : ((ancestors level (some b) rest).filter listed).length ≤
                (rest.filter listed).length :=
              ((ancestors_sublist rest (some b)).filter listed).length_le
            rw [same, filter_cons_of_pos isListed, length_cons] at short
            omega
          · exact below (both.1.1 rfl l rfl)
        | false =>
          rw [filter_cons_of_neg (by simp [isListed]), ih]
          constructor
          · rintro ⟨under, rising⟩
            refine ⟨⟨fun none => (nomatch none), under⟩,
              fun e mem isListed k found m here => ?_, rising⟩
            rw [own] at here
            cases here
            exact Nat.lt_of_lt_of_le (under e mem isListed k found b rfl) le
          · exact fun both => ⟨both.1.2, both.2.2⟩

end ContextEngine.LevelChain

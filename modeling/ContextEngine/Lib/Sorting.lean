/- digest: Stable sorting by a key, and what equal sorted images of one list say elementwise. -/

import Mathlib.Data.List.Basic
import Mathlib.Order.Defs.LinearOrder
import Mathlib.Algebra.BigOperators.Group.List.Basic
import Mathlib.Algebra.Order.BigOperators.Group.List
import Mathlib.Algebra.Order.Group.Nat

namespace ContextEngine

open List

theorem filter_flatMap_of_blocks {α β : Type} {block : α → List β} {p : β → Bool} {q : α → Bool}
    {l : List α} (constant : ∀ a ∈ l, ∀ b ∈ block a, p b = q a) :
    (l.flatMap block).filter p = (l.filter q).flatMap block := by
  induction l with
  | nil => rfl
  | cons a l ih =>
    have tail := ih fun b mem => constant b (mem_cons_of_mem _ mem)
    have head := constant a mem_cons_self
    rw [flatMap_cons, filter_append, tail]
    cases keep : q a with
    | true =>
      rw [filter_cons_of_pos keep, flatMap_cons,
        filter_eq_self.2 fun b mem => (head b mem).trans keep]
    | false =>
      have dropped : (block a).filter p = [] :=
        filter_eq_nil_iff.2 fun b mem => by simp [head b mem, keep]
      rw [filter_cons_of_neg (by simp [keep]), dropped, nil_append]

section SortByKey

variable {α β κ : Type} [LinearOrder κ]

/-- `sort_by_key`: a stable sort, so elements with one key keep their order. -/
def sortByKey (key : α → κ) (l : List α) : List α := l.mergeSort fun a b => decide (key a ≤ key b)

variable (key : α → κ)

theorem perm_sortByKey (l : List α) : (sortByKey key l).Perm l :=
  mergeSort_perm l _

variable {l : List α}

@[simp] theorem mem_sortByKey {key : α → κ} {a : α} :
    a ∈ sortByKey key l ↔ a ∈ l := mem_mergeSort

@[simp] theorem length_sortByKey (l : List α) :
    (sortByKey key l).length = l.length := length_mergeSort l

theorem pairwise_sortByKey (l : List α) :
    (sortByKey key l).Pairwise fun a b => key a ≤ key b := by
  have sorted : (sortByKey key l).Pairwise fun a b => decide (key a ≤ key b) = true := by
    refine pairwise_mergeSort
      (fun a b c ab bc => decide_eq_true ((of_decide_eq_true ab).trans (of_decide_eq_true bc)))
      (fun a b => ?_) l
    rcases le_total (key a) (key b) with le | ge
    · simp [le]
    · simp [ge]
  exact sorted.imp fun le => of_decide_eq_true le

theorem sortByKey_of_pairwise {key : α → κ}
    (sorted : l.Pairwise fun a b => key a ≤ key b) : sortByKey key l = l :=
  mergeSort_of_pairwise (sorted.imp fun le => decide_eq_true le)

@[simp] theorem sortByKey_sortByKey (l : List α) :
    sortByKey key (sortByKey key l) = sortByKey key l :=
  sortByKey_of_pairwise (pairwise_sortByKey key l)

variable {key' : β → κ}

theorem map_sortByKey {key : α → κ} {f : α → β}
    (kept : ∀ a ∈ l, key' (f a) = key a) :
    (sortByKey key l).map f = sortByKey key' (l.map f) :=
  map_mergeSort fun a aMem b bMem => by rw [kept a aMem, kept b bMem]

theorem sortByKey_map_eq_iff {f g : α → β}
    (keptLeft : ∀ a ∈ l, key' (f a) = key a) (keptRight : ∀ a ∈ l, key' (g a) = key a) :
    sortByKey key' (l.map f) = sortByKey key' (l.map g) ↔ ∀ a ∈ l, f a = g a := by
  rw [← map_sortByKey keptLeft, ← map_sortByKey keptRight, map_inj_left]
  exact forall_congr' fun a => by rw [mem_sortByKey]

theorem filter_sortByKey (k : κ) (l : List α) :
    (sortByKey key l).filter (fun a => key a = k) = l.filter fun a => key a = k := by
  have sameKey : ∀ a ∈ l.filter (fun a => key a = k), key a = k := fun a mem =>
    of_decide_eq_true (mem_filter.1 mem).2
  have ascends : (l.filter fun a => key a = k).Pairwise
      fun a b => decide (key a ≤ key b) = true := by
    refine pairwise_of_forall_mem_list fun a aMem b bMem => decide_eq_true ?_
    rw [sameKey a aMem, sameKey b bMem]
  have within : (l.filter fun a => key a = k).Sublist (sortByKey key l) := by
    refine sublist_mergeSort (fun a b c ab bc => ?_) (fun a b => ?_) ascends
      filter_sublist
    · exact decide_eq_true ((of_decide_eq_true ab).trans (of_decide_eq_true bc))
    · rcases le_total (key a) (key b) with le | ge
      · simp [le]
      · simp [ge]
  have filtered := within.filter fun a => decide (key a = k)
  rw [filter_filter] at filtered
  simp only [Bool.and_self] at filtered
  refine (filtered.eq_of_length ?_).symm
  exact ((perm_sortByKey key l).filter _).length_eq.symm

omit [LinearOrder κ] in
private theorem map_eq_of_map_key_eq {key : α → κ} {f : α → β} {l m : List α}
    (keys : l.map key = m.map key) (ties : ∀ a ∈ l, ∀ b ∈ m, key a = key b → f a = f b) :
    l.map f = m.map f := by
  induction l generalizing m with
  | nil =>
    rw [map_nil, eq_comm, map_eq_nil_iff] at keys
    rw [keys]
  | cons a l ih =>
    cases m with
    | nil => cases keys
    | cons b m =>
      obtain ⟨head, tail⟩ := cons.inj keys
      rw [map_cons, map_cons, ties a mem_cons_self b mem_cons_self head,
        ih tail fun c cMem d dMem =>
          ties c (mem_cons_of_mem _ cMem) d (mem_cons_of_mem _ dMem)]

private theorem map_key_sortByKey_eq {key : α → κ} {l m : List α} (perm : l.Perm m) :
    (sortByKey key l).map key = (sortByKey key m).map key := by
  have ascends : ∀ l : List α, ((sortByKey key l).map key).Pairwise (· ≤ ·) := fun l =>
    pairwise_map.2 (pairwise_sortByKey key l)
  refine List.Perm.eq_of_pairwise (fun a b _ _ le ge => le_antisymm le ge) (ascends l)
    (ascends m) ?_
  exact ((perm_sortByKey key l).trans (perm.trans (perm_sortByKey key m).symm)).map key

/-- What is read off a sorted list is independent of the order before sorting exactly when
elements that tie read the same. -/
theorem map_sortByKey_perm_iff (f : α → β) :
    (∀ m, l.Perm m → (sortByKey key m).map f = (sortByKey key l).map f) ↔
      ∀ a ∈ l, ∀ b ∈ l, key a = key b → f a = f b := by
  classical
  constructor
  · intro independent a aMem b bMem tie
    by_cases same : a = b
    · rw [same]
    have bLater : b ∈ l.erase a := (mem_erase_of_ne (Ne.symm same)).2 bMem
    let rest := (l.erase a).erase b
    have forward : l.Perm (a :: b :: rest) :=
      (perm_cons_erase aMem).trans ((perm_cons_erase bLater).cons a)
    have backward : l.Perm (b :: a :: rest) := forward.trans (List.Perm.swap b a rest)
    have images : (sortByKey key (a :: b :: rest)).map f = (sortByKey key (b :: a :: rest)).map f :=
      (independent _ forward).trans (independent _ backward).symm
    have keys : (sortByKey key (a :: b :: rest)).map key =
        (sortByKey key (b :: a :: rest)).map key :=
      map_key_sortByKey_eq (forward.symm.trans backward)
    have pairs : (sortByKey key (a :: b :: rest)).map (fun x => (key x, f x)) =
        (sortByKey key (b :: a :: rest)).map fun x => (key x, f x) := by
      rw [← zip_map', ← zip_map', keys, images]
    have shares := congrArg (filter fun pair : κ × β => pair.1 = key a) pairs
    rw [filter_map, filter_map] at shares
    change ((sortByKey key (a :: b :: rest)).filter fun x => key x = key a).map _ =
      ((sortByKey key (b :: a :: rest)).filter fun x => key x = key a).map _ at shares
    have first : ∀ (x : α) (l : List α), key x = key a →
        (x :: l).filter (fun x => key x = key a) = x :: l.filter fun x => key x = key a :=
      fun x l own => filter_cons_of_pos (decide_eq_true own)
    rw [filter_sortByKey, filter_sortByKey, first a (b :: rest) rfl,
      first b (a :: rest) tie.symm, map_cons, map_cons] at shares
    exact (Prod.mk.inj (cons.inj shares).1).2
  · intro ties m perm
    refine map_eq_of_map_key_eq (map_key_sortByKey_eq perm.symm) fun a aMem b bMem tie => ?_
    exact ties a (perm.symm.subset (mem_sortByKey.1 aMem)) b (mem_sortByKey.1 bMem) tie

/-- If the second image weighs at least as much everywhere and both sort to the same list, it
weighs the same everywhere. -/
theorem weight_eq_of_sortByKey_map_eq {f g : α → β} (weight : β → Nat)
    (same : sortByKey key' (l.map f) = sortByKey key' (l.map g))
    (le : ∀ a ∈ l, weight (f a) ≤ weight (g a)) :
    ∀ a ∈ l, weight (f a) = weight (g a) := by
  have perm : (l.map f).Perm (l.map g) :=
    (perm_sortByKey key' _).symm.trans (same ▸ perm_sortByKey key' _)
  have sums : (l.map fun a => weight (f a)).sum = (l.map fun a => weight (g a)).sum := by
    have total := (perm.map weight).sum_eq
    rw [map_map, map_map] at total
    exact total
  clear same perm
  induction l with
  | nil => exact fun a mem => absurd mem not_mem_nil
  | cons b l ih =>
    have tailLe : (l.map fun a => weight (f a)).sum ≤ (l.map fun a => weight (g a)).sum :=
      sum_le_sum fun a mem => le a (mem_cons_of_mem _ mem)
    have headLe := le b mem_cons_self
    rw [map_cons, map_cons, sum_cons, sum_cons] at sums
    have head : weight (f b) = weight (g b) := by omega
    have tail : (l.map fun a => weight (f a)).sum = (l.map fun a => weight (g a)).sum := by omega
    intro a mem
    rcases mem_cons.1 mem with rfl | later
    · exact head
    · exact ih (fun a mem => le a (mem_cons_of_mem _ mem)) tail a later

end SortByKey

end ContextEngine

/- digest: Pairs of maps that are inverse to each other, and buckets that list what is present. -/

import ContextEngine.Lib.Collections

/-!
A table of owners and a table of keys are kept in step by inserting, erasing and moving pairs.
Beside them, every key present is listed once in the bucket of its home.
-/

namespace ContextEngine.HashMap

variable {K I P : Type} [DecidableEq K] [DecidableEq I] [DecidableEq P]

section Inverse

def MutuallyInverse (owner : HashMap K I) (keyOf : HashMap I K) : Prop :=
  ∀ k i, owner.lookup k = some i ↔ keyOf.lookup i = some k

namespace MutuallyInverse

variable {owner : HashMap K I} {keyOf : HashMap I K} {k k' : K} {i i' : I}

theorem empty : MutuallyInverse (∅ : HashMap K I) (∅ : HashMap I K) := fun _ _ =>
  iff_of_false (fun found => nomatch found) fun found => nomatch found

section

variable (inverse : MutuallyInverse owner keyOf)

include inverse

theorem insert (free : owner.lookup k = none)
    (unkeyed : keyOf.lookup i = none) : MutuallyInverse (owner.insert k i) (keyOf.insert i k) := by
  intro k' i'
  rw [lookup_insert_eq, lookup_insert_eq]
  by_cases sameKey : k' = k
  · rw [if_pos sameKey, sameKey]
    by_cases sameOwner : i' = i
    · rw [if_pos sameOwner, sameOwner]
      exact iff_of_true rfl rfl
    · rw [if_neg sameOwner, ← inverse, free]
      exact iff_of_false (fun found => sameOwner (Option.some.inj found).symm)
        fun found => nomatch found
  · rw [if_neg sameKey]
    by_cases sameOwner : i' = i
    · rw [if_pos sameOwner, sameOwner, inverse, unkeyed]
      exact iff_of_false (fun found => nomatch found)
        fun found => sameKey (Option.some.inj found).symm
    · rw [if_neg sameOwner]
      exact inverse k' i'

theorem insert_present (owned : owner.lookup k = some i) :
    MutuallyInverse (owner.insert k i) (keyOf.insert i k) := by
  intro k' i'
  have keyed := (inverse k i).1 owned
  rw [lookup_insert_eq, lookup_insert_eq]
  split_ifs with sameKey sameOwner sameOwner
  · rw [sameKey, sameOwner]
    exact iff_of_true rfl rfl
  · rw [sameKey, ← inverse, owned]
  · rw [sameOwner, inverse, keyed]
  · exact inverse k' i'

theorem erase (keyed : keyOf.lookup i = some k) :
    MutuallyInverse (owner.erase k) (keyOf.erase i) := by
  intro k' i'
  have owned := (inverse k i).2 keyed
  rw [lookup_erase_eq, lookup_erase_eq]
  split_ifs with sameKey sameOwner sameOwner
  · exact iff_of_false (fun found => nomatch found) fun found => nomatch found
  · rw [sameKey, ← inverse, owned]
    exact iff_of_false (fun found => nomatch found)
      fun found => sameOwner (Option.some.inj found).symm
  · rw [sameOwner, inverse, keyed]
    exact iff_of_false (fun found => sameKey (Option.some.inj found).symm)
      fun found => nomatch found
  · exact inverse k' i'

theorem move (keyed : keyOf.lookup i = some k)
    (fits : (k' = k ∨ owner.lookup k' = none) ∧ (i' = i ∨ keyOf.lookup i' = none) ∨
      owner.lookup k' = some i') :
    MutuallyInverse ((owner.erase k).insert k' i') ((keyOf.erase i).insert i' k') := by
  have erased := inverse.erase keyed
  have gone : ∀ {k'}, k' = k ∨ owner.lookup k' = none → AList.lookup k' (owner.erase k) = none := by
    intro k' free
    rw [lookup_erase_eq]
    split_ifs with same
    · rfl
    · exact free.resolve_left same
  by_cases sameKey : k' = k
  · rcases fits with ⟨-, unkeyed⟩ | paired
    · refine erased.insert (gone (Or.inl sameKey)) ?_
      rw [lookup_erase_eq]
      split_ifs with same
      · rfl
      · exact unkeyed.resolve_left same
    · have sameOwner : i' = i := by
        rw [sameKey, inverse _ _ |>.2 keyed] at paired
        exact (Option.some.inj paired).symm
      refine erased.insert (gone (Or.inl sameKey)) ?_
      rw [lookup_erase_eq, if_pos sameOwner]
  · rcases fits with ⟨free, unkeyed⟩ | paired
    · refine erased.insert (gone free) ?_
      rw [lookup_erase_eq]
      split_ifs with same
      · rfl
      · exact unkeyed.resolve_left same
    · refine erased.insert_present ?_
      rw [lookup_erase_eq, if_neg sameKey]
      exact paired

end

end MutuallyInverse

end Inverse

section Lists

/-- Every bucket lists exactly the present keys at home there, each once. -/
structure ListsExactly (lists : HashMap P (List K)) (home : K → P) (present : K → Prop) :
    Prop where
  once : ∀ p, (lists.bucket p).Nodup
  mem_iff : ∀ p k, k ∈ lists.bucket p ↔ home k = p ∧ present k

namespace ListsExactly

variable {lists : HashMap P (List K)} {home : K → P} {present present' : K → Prop}

omit [DecidableEq K] in
theorem congr (exact : ListsExactly lists home present) (same : ∀ k, present k ↔ present' k) :
    ListsExactly lists home present' :=
  ⟨exact.once, fun p k => (exact.mem_iff p k).trans (and_congr_right fun _ => same k)⟩

omit [DecidableEq K] in
theorem empty (none : ∀ k, ¬present k) : ListsExactly (∅ : HashMap P (List K)) home present where
  once _ := List.nodup_nil
  mem_iff _ k := iff_of_false List.not_mem_nil fun both => none k both.2

omit [DecidableEq K] in
theorem push (exact : ListsExactly lists home present) {k : K} (absent : ¬present k) :
    ListsExactly (lists.bucketPush (home k) k) home fun k' => k' = k ∨ present k' where
  once p := by
    rw [bucket_bucketPush]
    split_ifs with here
    · rw [List.nodup_append]
      refine ⟨exact.once _, List.nodup_singleton k, fun a mem b single => ?_⟩
      rw [List.mem_singleton.1 single]
      exact fun same => absent ((exact.mem_iff _ _).1 (same ▸ mem)).2
    · exact exact.once p
  mem_iff p k' := by
    rw [bucket_bucketPush]
    split_ifs with here
    · rw [List.mem_append, List.mem_singleton, exact.mem_iff, here]
      constructor
      · rintro (⟨home, present⟩ | rfl)
        · exact ⟨home, Or.inr present⟩
        · exact ⟨rfl, Or.inl rfl⟩
      · rintro ⟨home, rfl | present⟩
        · exact Or.inr rfl
        · exact Or.inl ⟨home, present⟩
    · rw [exact.mem_iff]
      refine and_congr_right fun home => (or_iff_right ?_).symm
      rintro rfl
      exact here home.symm

theorem erase (exact : ListsExactly lists home present) (k : K) :
    ListsExactly (lists.bucketErase (home k) k) home fun k' => k' ≠ k ∧ present k' where
  once p := by
    rw [bucket_bucketErase]
    split_ifs
    · exact (exact.once _).filter _
    · exact exact.once p
  mem_iff p k' := by
    rw [bucket_bucketErase]
    split_ifs with here
    · rw [List.mem_filter, decide_eq_true_eq, exact.mem_iff, here, and_assoc,
        and_comm (a := present k')]
    · rw [exact.mem_iff]
      refine and_congr_right fun home => (and_iff_right ?_).symm
      rintro rfl
      exact here home.symm

end ListsExactly

end Lists

end ContextEngine.HashMap

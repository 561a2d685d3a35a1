/- digest: Buckets that list the keys of several sources, each source in its own order. -/

import Mathlib.Data.List.Count
import Mathlib.Data.List.Find
import ContextEngine.Lib.Collections

/-!
Keys come from sources that are added and dropped as a whole. A bucket interleaves the sources in
the order they were added; within a bucket every source keeps its own order. What a reader can
learn from a bucket whatever the interleaving follows from that.
-/

namespace ContextEngine.HashMap

open List

variable {N S K : Type} [DecidableEq N] [DecidableEq S] [DecidableEq K]

/-- Every bucket holds, for every source, the keys of the source that belong there, in the order
of the source. -/
def ListsBySource (lists : HashMap N (List K)) (place : K → N) (source : K → S)
    (keysOf : S → List K) : Prop :=
  ∀ name s, (lists.bucket name).filter (source · = s) = (keysOf s).filter (place · = name)

namespace ListsBySource

variable {lists other : HashMap N (List K)} {place : K → N} {source : K → S}
  {keysOf keysOf' : S → List K} {name : N} {s : S} {l : List K}

omit [DecidableEq K] in
theorem empty : ListsBySource (∅ : HashMap N (List K)) place source fun _ => [] := fun _ _ => rfl

omit [DecidableEq K] in
theorem congr (listed : ListsBySource lists place source keysOf)
    (same : ∀ s, keysOf' s = keysOf s) : ListsBySource lists place source keysOf' := by
  intro name s
  rw [same]
  exact listed name s

section Updates

omit [DecidableEq S] in
theorem bucket_foldl_bucketErase (lists : HashMap N (List K)) (place : K → N) (l : List K)
    (name : N) :
    (l.foldl (fun lists key => lists.bucketErase (place key) key) lists).bucket name =
      (lists.bucket name).filter fun key => ¬(key ∈ l ∧ place key = name) := by
  induction l generalizing lists with
  | nil => simp
  | cons key l ih =>
    rw [foldl_cons, ih, bucket_bucketErase]
    split_ifs with here
    · rw [← here, filter_filter]
      refine filter_congr fun other _ => ?_
      by_cases same : other = key
      · simp [same, here]
      · simp [same, here]
    · refine filter_congr fun other _ => ?_
      by_cases same : other = key
      · simp [same, Ne.symm here]
      · simp [same]

omit [DecidableEq K] in
theorem add (listed : ListsBySource lists place source keysOf) (fresh : keysOf s = [])
    (own : ∀ key ∈ l, source key = s) :
    ListsBySource (l.foldl (fun lists key => lists.bucketPush (place key) key) lists) place source
      fun s' => if s' = s then l else keysOf s' := by
  intro name s'
  have pushed := bucket_foldl_bucketPush lists place id l name
  simp only [id_eq, map_id] at pushed
  rw [pushed, filter_append, listed]
  dsimp only
  split_ifs with same
  · rw [same, fresh, filter_filter]
    refine filter_congr fun key mem => ?_
    simp [own key mem]
  · have none : (l.filter (place · = name)).filter (source · = s') = [] := by
      refine filter_eq_nil_iff.2 fun key mem => ?_
      have mine := own key (mem_filter.1 mem).1
      simpa [mine] using Ne.symm same
    rw [none, append_nil]

theorem drop (listed : ListsBySource lists place source keysOf) (own : ∀ key ∈ l, source key = s)
    (covers : ∀ key ∈ keysOf s, key ∈ l) :
    ListsBySource (l.foldl (fun lists key => lists.bucketErase (place key) key) lists) place source
      fun s' => if s' = s then [] else keysOf s' := by
  intro name s'
  have before := listed name s'
  rw [bucket_foldl_bucketErase, filter_filter]
  dsimp only
  split_ifs with same
  · rw [filter_nil, filter_eq_nil_iff]
    intro key mem both
    simp only [Bool.and_eq_true, decide_eq_true_eq] at both
    have here : key ∈ (keysOf s').filter (place · = name) :=
      before ▸ mem_filter.2 ⟨mem, decide_eq_true both.1⟩
    obtain ⟨stored, placed⟩ := mem_filter.1 here
    exact both.2 ⟨covers key (same ▸ stored), of_decide_eq_true placed⟩
  · rw [← before]
    refine filter_congr fun key _ => ?_
    by_cases mine : source key = s'
    · have notIn : key ∉ l := fun mem => same (mine.symm.trans (own key mem))
      simp [mine, notIn]
    · simp [mine]

end Updates

section Readers

section

variable (listed : ListsBySource lists place source keysOf)

include listed

omit [DecidableEq K] in
theorem mem_iff {key : K} :
    key ∈ lists.bucket name ↔ key ∈ keysOf (source key) ∧ place key = name := by
  have here := congrArg (key ∈ ·) (listed name (source key))
  simpa using here

theorem count_eq (key : K) :
    (lists.bucket name).count key = ((keysOf (source key)).filter (place · = name)).count key := by
  rw [← listed name (source key)]
  have passes : (fun other => decide (source other = source key)) key = true := decide_eq_true rfl
  exact (count_filter (p := fun other => decide (source other = source key)) passes).symm

theorem nodup (once : ∀ s, (keysOf s).Nodup) :
    (lists.bucket name).Nodup := by
  rw [nodup_iff_count_le_one]
  intro key
  rw [listed.count_eq]
  exact nodup_iff_count_le_one.1 ((once _).filter _) key

section

variable (listed' : ListsBySource other place source keysOf)

include listed'

theorem perm :
    (lists.bucket name).Perm (other.bucket name) := by
  rw [perm_iff_count]
  intro key
  rw [listed.count_eq, listed'.count_eq]

omit [DecidableEq K] in
theorem eq_of_one_source (one : ∀ key ∈ lists.bucket name, source key = s)
    (one' : ∀ key ∈ other.bucket name, source key = s) : lists.bucket name = other.bucket name := by
  have whole : ∀ {l : List K}, (∀ key ∈ l, source key = s) → l.filter (source · = s) = l :=
    fun all => filter_eq_self.2 fun key mem => decide_eq_true (all key mem)
  rw [← whole one, ← whole one', listed, listed']

omit [DecidableEq K] in
/-- The first key that passes a test is the same in every interleaving when only keys of one source
pass it. -/
theorem find?_eq_of_one_source {p : K → Bool}
    (one : ∀ key ∈ lists.bucket name, p key = true → source key = s)
    (one' : ∀ key ∈ other.bucket name, p key = true → source key = s) :
    (lists.bucket name).find? p = (other.bucket name).find? p := by
  have narrow : ∀ {l : List K}, (∀ key ∈ l, p key = true → source key = s) →
      l.find? p = (l.filter (source · = s)).find? p := by
    intro l all
    rw [find?_filter]
    refine find?_congr fun key mem => ?_
    by_cases passes : p key = true
    · simp [passes, all key mem passes]
    · simp [passes]
  rw [narrow one, narrow one', listed, listed']

end

end

end Readers

end ListsBySource

end ContextEngine.HashMap

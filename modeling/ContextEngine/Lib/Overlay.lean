/- digest: First occurrences by key, and tallies counted up and down. -/

import ContextEngine.Lib.Collections

/-!
Two ways to lay changes over a stored answer: append what is the first of its key, or adjust a
count. What is appended in front of earlier changes displaces those with the same key.
-/

namespace ContextEngine.Overlay

open List

section FirstOccurrence

variable {A K : Type} [DecidableEq K] (key : A → K)

def appendNew (state : HashSet K × List A) (a : A) : HashSet K × List A :=
  if key a ∈ state.1 then state else (state.1.insert (key a), state.2 ++ [a])

variable {key} {seen : HashSet K} {result : List A}

theorem mem_foldl_appendNew {l : List A} {a : A} :
    a ∈ (l.foldl (appendNew key) (seen, result)).2 ↔
      a ∈ result ∨ key a ∉ seen ∧ l.find? (fun other => key other = key a) = some a := by
  induction l generalizing seen result with
  | nil => simp
  | cons b l ih =>
    rw [foldl_cons, find?_cons]
    by_cases present : key b ∈ seen
    · have kept : appendNew key (seen, result) b = (seen, result) := if_pos present
      rw [kept, ih]
      refine or_congr_right (and_congr_right fun fresh => ?_)
      have other : key b ≠ key a := fun same => fresh (same ▸ present)
      simp [other]
    · have taken : appendNew key (seen, result) b = (seen.insert (key b), result ++ [b]) :=
        if_neg present
      rw [taken, ih]
      simp only [mem_append, mem_singleton, HashSet.mem_insert]
      by_cases same : key b = key a
      · simp only [same, decide_true, Option.some.injEq, true_or, not_true_eq_false, false_and,
          or_false]
        rw [same] at present
        simp only [present, not_false_eq_true, true_and]
        exact or_congr_right eq_comm
      · have other : a ≠ b := fun equal => same (equal ▸ rfl)
        simp [same, other, Ne.symm same]

theorem nodup_foldl_appendNew {l : List A}
    (covered : ∀ a ∈ result, key a ∈ seen) (nodup : result.Nodup) :
    (l.foldl (appendNew key) (seen, result)).2.Nodup := by
  induction l generalizing seen result with
  | nil => exact nodup
  | cons b l ih =>
    rw [foldl_cons]
    by_cases present : key b ∈ seen
    · rw [appendNew, if_pos present]
      exact ih covered nodup
    · rw [appendNew, if_neg present]
      apply ih
      · intro a mem
        rcases mem_append.1 mem with before | last
        · exact HashSet.mem_insert.2 (Or.inr (covered a before))
        · exact HashSet.mem_insert.2 (Or.inl (congrArg key (mem_singleton.1 last)))
      · refine nodup_append.2 ⟨nodup, nodup_singleton b, ?_⟩
        intro a mem b' last equal
        rw [mem_singleton.1 last] at equal
        exact present (equal ▸ covered a mem)

theorem mem_foldl_appendNew_append {front l : List A} {a : A}
    (covered : ∀ b ∈ result, key b ∈ seen) (distinct : (front.map key).Nodup)
    (fresh : ∀ b ∈ front, key b ∉ seen) :
    a ∈ ((front ++ l).foldl (appendNew key) (seen, result)).2 ↔
      a ∈ front ∨ a ∈ (l.foldl (appendNew key) (seen, result)).2 ∧ key a ∉ front.map key := by
  rw [mem_foldl_appendNew, mem_foldl_appendNew, find?_append]
  by_cases inFront : key a ∈ front.map key
  · obtain ⟨b, mem, same⟩ := mem_map.1 inFront
    have found : front.find? (fun other => key other = key a) = some b := by
      cases first : front.find? (fun other => key other = key a) with
      | none => exact absurd (by simpa using same) (find?_eq_none.1 first b mem)
      | some c =>
        have keyed : key c = key a := by simpa using find?_some first
        have equal : c = b := inj_on_of_nodup_map distinct (mem_of_find?_eq_some first)
          mem (keyed.trans same.symm)
        rw [equal]
    have unseen : key a ∉ seen := same ▸ fresh b mem
    have notStored : a ∉ result := fun stored => unseen (covered a stored)
    simp only [found, Option.some_or, Option.some.injEq, unseen, notStored, inFront,
      not_false_eq_true, not_true_eq_false, true_and, false_or, and_false, or_false]
    constructor
    · exact fun equal => equal ▸ mem
    · exact fun listed => inj_on_of_nodup_map distinct mem listed same
  · have absent : front.find? (fun other => key other = key a) = none := by
      refine find?_eq_none.2 fun b mem equal => inFront ?_
      exact mem_map.2 ⟨b, mem, by simpa using equal⟩
    have outside : a ∉ front := fun listed => inFront (mem_map_of_mem listed)
    simp only [absent, Option.none_or, outside, inFront, not_false_eq_true, and_true, false_or]

end FirstOccurrence

section Tally

variable {A K : Type} [DecidableEq K] (key : A → Option K) (counts : HashMap K Nat)

def tally (a : A) : HashMap K Nat :=
  match key a with
  | some k => counts.alter k fun count => some (count.getD 0 + 1)
  | none => counts

/-- Take an element off the count of its key, if there is such a count. -/
def untally (a : A) : HashMap K Nat :=
  match key a with
  | some k => counts.alter k (Option.map (· - 1))
  | none => counts

variable (l : List A)

/-- How many elements have a key. -/
def occurrences (k : K) : Nat := (l.filter fun a => key a = some k).length

variable {key}

theorem occurrences_append (l l' : List A) (k : K) :
    occurrences key (l ++ l') k = occurrences key l k + occurrences key l' k := by
  unfold occurrences
  rw [filter_append, length_append]

theorem lookup_foldl_tally (k : K) :
    (l.foldl (tally key) counts).lookup k = if occurrences key l k = 0 then counts.lookup k
      else some ((counts.lookup k).getD 0 + occurrences key l k) := by
  induction l generalizing counts with
  | nil => simp [occurrences]
  | cons a l ih =>
    rw [foldl_cons, ih]
    by_cases keyed : key a = some k
    · have counted : occurrences key (a :: l) k = occurrences key l k + 1 := by
        simp [occurrences, keyed]
      have first : (tally key counts a).lookup k = some ((counts.lookup k).getD 0 + 1) := by
        rw [tally, keyed]
        simp only [HashMap.lookup_alter, if_true]
      rw [counted, first]
      simp only [Nat.add_eq_zero_iff, Nat.one_ne_zero, and_false, if_false, Option.getD_some]
      split_ifs with none
      · rw [none]
      · congr 1
        omega
    · have counted : occurrences key (a :: l) k = occurrences key l k := by
        simp [occurrences, keyed]
      have other : (tally key counts a).lookup k = counts.lookup k := by
        rw [tally]
        cases mine : key a with
        | none => rfl
        | some k' =>
          have different : k ≠ k' := fun same => keyed (mine.trans (congrArg some same.symm))
          simp only [HashMap.lookup_alter, different, if_false]
      rw [counted, other]

theorem lookup_foldl_untally (k : K) :
    (l.foldl (untally key) counts).lookup k = (counts.lookup k).map (· - occurrences key l k) := by
  induction l generalizing counts with
  | nil => simp [occurrences]
  | cons a l ih =>
    rw [foldl_cons, ih]
    by_cases keyed : key a = some k
    · have counted : occurrences key (a :: l) k = occurrences key l k + 1 := by
        simp [occurrences, keyed]
      have first : (untally key counts a).lookup k = (counts.lookup k).map (· - 1) := by
        rw [untally, keyed]
        simp only [HashMap.lookup_alter, if_true]
      rw [counted, first, Option.map_map]
      congr 1
      funext n
      show n - 1 - occurrences key l k = n - (occurrences key l k + 1)
      omega
    · have counted : occurrences key (a :: l) k = occurrences key l k := by
        simp [occurrences, keyed]
      have other : (untally key counts a).lookup k = counts.lookup k := by
        rw [untally]
        cases mine : key a with
        | none => rfl
        | some k' =>
          have different : k ≠ k' := fun same => keyed (mine.trans (congrArg some same.symm))
          simp only [HashMap.lookup_alter, different, if_false]
      rw [counted, other]

end Tally

end ContextEngine.Overlay

/- digest: When a list comes back from the elements that two versions of it lack. -/

import Mathlib.Data.List.Nodup
import Mathlib.Data.List.Perm.Subperm

/-!
A diff names the elements of one list that the other lacks. Replaying it keeps the rest of the old
list in its order and appends what is new. So the new list comes back exactly when it already is
kept elements followed by new ones.
-/

namespace ContextEngine.ListDiff

open List

variable {A N : Type}

section Elements

variable [DecidableEq A]

/-- Append every element that is not there yet. -/
def pushAll (l : List A) (added : List A) : List A :=
  added.foldl (fun l a => if a ∈ l then l else l ++ [a]) l

theorem exists_pushAll (l added : List A) :
    ∃ fresh, pushAll l added = l ++ fresh ∧ fresh.Nodup ∧ (∀ a ∈ fresh, a ∉ l) ∧
      ∀ a ∈ fresh, a ∈ added := by
  induction added generalizing l with
  | nil => exact ⟨[], (append_nil l).symm, nodup_nil, by simp, by simp⟩
  | cons a added ih =>
    by_cases listed : a ∈ l
    · obtain ⟨fresh, pushed, once, absent, given⟩ := ih l
      refine ⟨fresh, ?_, once, absent, fun b mem => mem_cons_of_mem a (given b mem)⟩
      rw [← pushed, pushAll, foldl_cons, if_pos listed]
      rfl
    · obtain ⟨fresh, pushed, once, absent, given⟩ := ih (l ++ [a])
      refine ⟨a :: fresh, ?_, ?_, ?_, ?_⟩
      · rw [append_assoc, singleton_append] at pushed
        rw [← pushed, pushAll, foldl_cons, if_neg listed]
        rfl
      · refine nodup_cons.2 ⟨fun mem => absent a mem ?_, once⟩
        exact mem_append_right l mem_cons_self
      · intro b mem
        rcases mem_cons.1 mem with rfl | later
        · exact listed
        · exact fun inside => absent b later (mem_append_left _ inside)
      · intro b mem
        rcases mem_cons.1 mem with rfl | later
        · exact mem_cons_self
        · exact mem_cons_of_mem a (given b later)

theorem pushAll_of_nodup {l fresh : List A} (once : fresh.Nodup) (absent : ∀ a ∈ fresh, a ∉ l) :
    pushAll l fresh = l ++ fresh := by
  induction fresh generalizing l with
  | nil => exact (append_nil l).symm
  | cons a fresh ih =>
    obtain ⟨first, once⟩ := nodup_cons.1 once
    have rest : ∀ b ∈ fresh, b ∉ l ++ [a] := by
      intro b mem listed
      rcases mem_append.1 listed with inside | same
      · exact absent b (mem_cons_of_mem a mem) inside
      · rw [mem_singleton.1 same] at mem
        exact first mem
    rw [pushAll, foldl_cons, if_neg (absent a mem_cons_self)]
    change pushAll (l ++ [a]) fresh = _
    rw [ih once rest, append_assoc, singleton_append]

/-- The new list is what it keeps of the old one, in the old order, followed by new elements, each
once. -/
def Extends (old new : List A) : Prop :=
  ∃ fresh, new = old.filter (fun a => decide (a ∈ new)) ++ fresh ∧ fresh.Nodup ∧
    ∀ a ∈ fresh, a ∉ old

theorem replay_eq_iff {old new : List A} :
    pushAll (old.filter fun a => decide (a ∉ old.filter fun a => decide (a ∉ new)))
      (new.filter fun a => decide (a ∉ old)) = new ↔ Extends old new := by
  have kept : (old.filter fun a => decide (a ∉ old.filter fun a => decide (a ∉ new))) =
      old.filter fun a => decide (a ∈ new) := by
    refine filter_congr fun a mem => ?_
    simp [mem_filter, mem]
  rw [kept]
  constructor
  · intro same
    obtain ⟨fresh, pushed, once, _, given⟩ := exists_pushAll
      (old.filter fun a => decide (a ∈ new)) (new.filter fun a => decide (a ∉ old))
    refine ⟨fresh, same.symm.trans pushed, once, fun a mem => ?_⟩
    exact of_decide_eq_true (mem_filter.1 (given a mem)).2
  · rintro ⟨fresh, split, once, absent⟩
    have added : (new.filter fun a => decide (a ∉ old)) = fresh := by
      have none : (old.filter fun a => decide (a ∈ new)).filter
          (fun a => decide (a ∉ old)) = [] := by
        refine filter_eq_nil_iff.2 fun a mem outside => ?_
        exact of_decide_eq_true outside (mem_filter.1 mem).1
      have all : fresh.filter (fun a => decide (a ∉ old)) = fresh :=
        filter_eq_self.2 fun a mem => decide_eq_true (absent a mem)
      refine (congrArg _ split).trans ?_
      rw [filter_append, none, all, nil_append]
    rw [added, pushAll_of_nodup once fun a mem inside => absent a mem (mem_filter.1 inside).1]
    exact split.symm

end Elements

section Named

variable [DecidableEq N] {name : A → N} {keeps : A → Bool} {render : A → Option A}

omit [DecidableEq N] in
theorem map_some_filterMap {l : List A} (each : ∀ a ∈ l, (render a).isSome) :
    (l.filterMap render).map some = l.map render := by
  induction l with
  | nil => rfl
  | cons a l ih =>
    obtain ⟨b, made⟩ := Option.isSome_iff_exists.1 (each a mem_cons_self)
    rw [filterMap_cons_some made, map_cons, map_cons, made,
      ih fun c mem => each c (mem_cons_of_mem a mem)]

/-- Elements are diffed by name, and the added ones pass a test and a rendering: the new list comes
back exactly when its elements behind the kept ones have new names, pass, and are rendered as
themselves. -/
theorem named_replay_eq_iff {old new kept : List A} (keptOld : ∀ a ∈ kept, a ∈ old) :
    kept ++ ((new.filter fun a => decide (name a ∉ old.map name)).filter keeps).filterMap render =
        new ↔
      ∃ fresh, new = kept ++ fresh ∧
        ∀ a ∈ fresh, name a ∉ old.map name ∧ keeps a = true ∧ render a = some a := by
  have unnamed : kept.filter (fun a => decide (name a ∉ old.map name)) = [] := by
    refine filter_eq_nil_iff.2 fun a mem outside => ?_
    exact of_decide_eq_true outside (mem_map_of_mem (keptOld a mem))
  constructor
  · intro same
    generalize freshDef :
      ((new.filter fun a => decide (name a ∉ old.map name)).filter keeps).filterMap render =
        fresh at same
    refine ⟨fresh, same.symm, ?_⟩
    have added : (new.filter fun a => decide (name a ∉ old.map name)) =
        fresh.filter fun a => decide (name a ∉ old.map name) := by
      rw [← same, filter_append, unnamed, nil_append]
    rw [added] at freshDef
    -- no step drops an element, for the last one gives as many as the first one got
    have first := length_filter_le (fun a => decide (name a ∉ old.map name)) fresh
    have second := length_filter_le keeps
      (fresh.filter fun a => decide (name a ∉ old.map name))
    have third := length_filterMap_le render
      ((fresh.filter fun a => decide (name a ∉ old.map name)).filter keeps)
    have total := congrArg length freshDef
    have named : fresh.filter (fun a => decide (name a ∉ old.map name)) = fresh :=
      filter_sublist.eq_of_length (by omega)
    rw [named] at second third total freshDef
    have passed : fresh.filter keeps = fresh := filter_sublist.eq_of_length (by omega)
    rw [passed] at freshDef
    have rendered : fresh.map render = fresh.map some := by
      have each := filterMap_length_eq_length.1 (congrArg length freshDef)
      rw [← map_some_filterMap each, freshDef]
    intro a mem
    refine ⟨?_, filter_eq_self.1 passed a mem, map_inj_left.1 rendered a mem⟩
    exact of_decide_eq_true (filter_eq_self.1 named a mem)
  · rintro ⟨fresh, rfl, good⟩
    have named : fresh.filter (fun a => decide (name a ∉ old.map name)) = fresh :=
      filter_eq_self.2 fun a mem => decide_eq_true (good a mem).1
    have passed : fresh.filter keeps = fresh :=
      filter_eq_self.2 fun a mem => (good a mem).2.1
    have rendered : fresh.filterMap render = fresh := by
      rw [filterMap_congr fun a mem => (good a mem).2.2, filterMap_some]
    rw [filter_append, unnamed, nil_append, named, passed, rendered]

end Named

end ContextEngine.ListDiff

/- digest: Rows that are counted up as they come, their ids, and loops that succeed. -/

import Mathlib.Data.List.Nodup
import ContextEngine.Lib.Collections
import ContextEngine.Lib.Runs

/-!
Rows get ids one after the other. A map from their keys to the ids answers every key with the id of
its row as long as the keys are distinct, and the ids ascend in the order of the rows.
-/

namespace ContextEngine.NumberedRows

open Runs List

variable {A K V E : Type}

section Loops

variable {B : Type}

theorem bind_of_ok {x : Except E A} {a : A} (done : x = .ok a) (f : A → Except E B) :
    x >>= f = f a := by
  rw [done]
  rfl

variable {f : A → Except E B} {l : List A}

theorem mapM_eq_ok {g : A → B}
    (done : ∀ a ∈ l, f a = .ok (g a)) : l.mapM f = .ok (l.map g) := by
  induction l with
  | nil => rfl
  | cons a l ih =>
    rw [mapM_cons, done a mem_cons_self, ih fun b mem =>
      done b (mem_cons_of_mem a mem)]
    rfl

variable {results : List B}

theorem exists_of_mapM
    (done : l.mapM f = .ok results) {a : A} (mem : a ∈ l) : ∃ b ∈ results, f a = .ok b := by
  induction l generalizing results with
  | nil => cases mem
  | cons x l ih =>
    rw [mapM_cons] at done
    obtain ⟨first, head, done⟩ := bind_eq_ok.1 done
    obtain ⟨rest, tail, done⟩ := bind_eq_ok.1 done
    cases done
    rcases mem_cons.1 mem with rfl | later
    · exact ⟨first, mem_cons_self, head⟩
    · obtain ⟨b, bMem, round⟩ := ih tail later
      exact ⟨b, mem_cons_of_mem _ bMem, round⟩

theorem mem_of_mapM
    (done : l.mapM f = .ok results) {b : B} (mem : b ∈ results) : ∃ a ∈ l, f a = .ok b := by
  induction l generalizing results with
  | nil =>
    cases done
    cases mem
  | cons x l ih =>
    rw [mapM_cons] at done
    obtain ⟨first, head, done⟩ := bind_eq_ok.1 done
    obtain ⟨rest, tail, done⟩ := bind_eq_ok.1 done
    cases done
    rcases mem_cons.1 mem with rfl | later
    · exact ⟨x, mem_cons_self, head⟩
    · obtain ⟨a, aMem, round⟩ := ih tail later
      exact ⟨a, mem_cons_of_mem _ aMem, round⟩

theorem length_of_mapM
    (done : l.mapM f = .ok results) : results.length = l.length := by
  induction l generalizing results with
  | nil =>
    cases done
    rfl
  | cons x l ih =>
    rw [mapM_cons] at done
    obtain ⟨first, _, done⟩ := bind_eq_ok.1 done
    obtain ⟨rest, tail, done⟩ := bind_eq_ok.1 done
    cases done
    rw [length_cons, length_cons, ih tail]

theorem zip_map_self (f : A → B) (l : List A) :
    l.zip (l.map f) = l.map fun a => (a, f a) := by
  induction l with
  | nil => rfl
  | cons a l ih => rw [map_cons, zip_cons_cons, ih, map_cons]

theorem forM_eq_ok_iff {f : A → Except E Unit} :
    l.forM f = .ok () ↔ ∀ a ∈ l, f a = .ok () := by
  induction l with
  | nil => exact ⟨fun _ _ mem => absurd mem not_mem_nil, fun _ => rfl⟩
  | cons a l ih =>
    have rounds : (a :: l).forM f = f a >>= fun _ => l.forM f := rfl
    rw [rounds, forall_mem_cons, ← ih]
    cases f a with
    | error e => exact ⟨fun failed => (by cases failed), fun all => (by cases all.1)⟩
    | ok done => exact ⟨fun rest => ⟨rfl, rest⟩, fun all => all.2⟩

end Loops

theorem filterMap_eq_map_filter {B : Type} {f : A → Option B} {g : A → B} {p : A → Bool}
    {l : List A} (kept : ∀ a ∈ l, p a = true → f a = some (g a))
    (dropped : ∀ a ∈ l, p a = false → f a = none) :
    l.filterMap f = (l.filter p).map g := by
  induction l with
  | nil => rfl
  | cons a l ih =>
    have rest := ih (fun b mem => kept b (mem_cons_of_mem a mem))
      fun b mem => dropped b (mem_cons_of_mem a mem)
    cases keeps : p a with
    | true =>
      rw [filterMap_cons_some (kept a mem_cons_self keeps),
        filter_cons_of_pos keeps, map_cons, rest]
    | false =>
      rw [filterMap_cons_none (dropped a mem_cons_self keeps),
        filter_cons_of_neg (by simp [keeps]), rest]

theorem filter_key [DecidableEq K] {key : A → K} {l : List A} (distinct : (l.map key).Nodup) {a : A}
    (mem : a ∈ l) : l.filter (fun b => key b = key a) = [a] := by
  induction l with
  | nil => cases mem
  | cons b l ih =>
    rw [map_cons, nodup_cons] at distinct
    rcases mem_cons.1 mem with rfl | later
    · have others : l.filter (fun b => key b = key a) = [] := by
        refine filter_eq_nil_iff.2 fun b bMem same => distinct.1 ?_
        exact mem_map.2 ⟨b, bMem, of_decide_eq_true same⟩
      rw [filter_cons_of_pos (by simp), others]
    · have apart : ¬ key b = key a := fun same =>
        distinct.1 (mem_map.2 ⟨a, later, same.symm⟩)
      rw [filter_cons_of_neg (by simpa using apart), ih distinct.2 later]

section Ids

variable [DecidableEq K] {key : A → K} {value : A → V} {l : List A}

theorem lookup_collect (distinct : (l.map key).Nodup) {a : A} (mem : a ∈ l) :
    (HashMap.extend ∅ (l.map fun a => (key a, value a))).lookup (key a) = some (value a) := by
  refine HashMap.lookup_extend_of_mem (mem_map.2 ⟨a, mem, rfl⟩) fun w listed => ?_
  obtain ⟨b, bMem, same⟩ := mem_map.1 listed
  obtain ⟨sameKey, rfl⟩ := Prod.mk.inj same
  rw [inj_on_of_nodup_map distinct bMem mem sameKey]

/-- The ids under the keys of rows that are counted up from a number. -/
def ids (first : Nat) (key : A → K) (l : List A) : HashMap K Nat :=
  HashMap.extend ∅ ((l.zipIdx first).map fun numbered => (key numbered.1, numbered.2))

def idOf (first : Nat) (key : A → K) (l : List A) (k : K) : Nat :=
  ((ids first key l).lookup k).getD 0

variable (first : Nat)

theorem lookup_ids_of_notMem {k : K} (absent : k ∉ l.map key) :
    (ids first key l).lookup k = none := by
  refine (HashMap.lookup_extend_of_notMem fun listed => absent ?_).trans rfl
  obtain ⟨pair, pairMem, rfl⟩ := mem_map.1 listed
  obtain ⟨numbered, mem, rfl⟩ := mem_map.1 pairMem
  exact mem_map_of_mem (fst_mem_of_mem_zipIdx mem)

omit [DecidableEq K] in
private theorem map_key_zipIdx :
    (l.zipIdx first).map (fun numbered => key numbered.1) = l.map key := by
  have same := congrArg (map key) (zipIdx_map_fst first l)
  rw [map_map] at same
  exact same

section

variable (distinct : (l.map key).Nodup)

include distinct

private theorem lookup_of_mem_zipIdx {numbered : A × Nat} (mem : numbered ∈ l.zipIdx first) :
    (ids first key l).lookup (key numbered.1) = some numbered.2 := by
  have collected : ((l.zipIdx first).map fun numbered => key numbered.1).Nodup := by
    rw [map_key_zipIdx]
    exact distinct
  exact lookup_collect collected mem

theorem zipIdx_eq :
    l.zipIdx first = l.map fun a => (a, idOf first key l (key a)) := by
  have numbers : ∀ numbered ∈ l.zipIdx first,
      numbered = (numbered.1, idOf first key l (key numbered.1)) := by
    intro numbered mem
    rw [idOf, lookup_of_mem_zipIdx first distinct mem]
    rfl
  calc l.zipIdx first
      = (l.zipIdx first).map fun numbered => (numbered.1, idOf first key l (key numbered.1)) := by
        rw [← map_congr_left numbers, map_id']
    _ = ((l.zipIdx first).map Prod.fst).map fun a => (a, idOf first key l (key a)) := by
        rw [map_map]
        rfl
    _ = l.map fun a => (a, idOf first key l (key a)) := by rw [zipIdx_map_fst]

theorem lookup_ids {k : K} (mem : k ∈ l.map key) :
    (ids first key l).lookup k = some (idOf first key l k) := by
  obtain ⟨a, aMem, rfl⟩ := mem_map.1 mem
  rw [← map_key_zipIdx first] at mem
  obtain ⟨numbered, numberedMem, same⟩ := mem_map.1 mem
  rw [idOf, ← same, lookup_of_mem_zipIdx first distinct numberedMem]
  rfl

theorem pairwise_idOf :
    (l.map fun a => idOf first key l (key a)).Pairwise (· < ·) := by
  have numbers := congrArg (map Prod.snd) (zipIdx_eq first distinct)
  rw [zipIdx_map_snd, map_map] at numbers
  rw [show (l.map fun a => idOf first key l (key a)) = _ from numbers.symm]
  exact pairwise_lt_range'

theorem idOf_inj {j k : K} (jMem : j ∈ l.map key)
    (kMem : k ∈ l.map key) (same : idOf first key l j = idOf first key l k) : j = k := by
  obtain ⟨a, aMem, rfl⟩ := mem_map.1 jMem
  obtain ⟨b, bMem, rfl⟩ := mem_map.1 kMem
  have ascending := pairwise_idOf first distinct
  have nodup : (l.map fun a => idOf first key l (key a)).Nodup := ascending.imp Nat.ne_of_lt
  rw [inj_on_of_nodup_map nodup aMem bMem same]

end

end Ids

end ContextEngine.NumberedRows

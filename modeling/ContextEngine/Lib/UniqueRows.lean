/- digest: Rows inserted one by one under a unique key, and the ids their copies are given. -/

import Mathlib.Data.List.Nodup
import Mathlib.Tactic.SplitIfs

/-!
A unique key is a relation between rows that may not stand side by side. A run of inserts stops at
the first row that clashes with one that is there. Ids are counted up and never given again, so the
copy of a row is found by the place of the original among those copied.
-/

namespace ContextEngine.UniqueRows

open List

section Insert

variable {Row : Type} (clash : Row → Row → Prop) [DecidableRel clash]

def insertAll (table : String) : List Row → List Row → Except String (List Row)
  | stored, [] => .ok stored
  | stored, row :: rows =>
    if ∃ old ∈ stored, clash old row then .error s!"UNIQUE constraint failed: {table}"
    else insertAll table (stored ++ [row]) rows

omit [DecidableRel clash] in
/-- New rows that clash neither with what is there nor among each other. -/
def Fits (stored rows : List Row) : Prop :=
  (∀ old ∈ stored, ∀ row ∈ rows, ¬ clash old row) ∧ rows.Pairwise fun a b => ¬ clash a b

variable {clash}

theorem insertAll_eq_ok_iff {table : String} {stored rows result : List Row} :
    insertAll clash table stored rows = .ok result ↔
      Fits clash stored rows ∧ result = stored ++ rows := by
  induction rows generalizing stored with
  | nil =>
    rw [insertAll, append_nil, Fits]
    constructor
    · intro done
      exact ⟨⟨fun _ _ row mem => absurd mem not_mem_nil, List.Pairwise.nil⟩,
        (Except.ok.inj done).symm⟩
    · rintro ⟨_, rfl⟩
      rfl
  | cons row rows ih =>
    rw [insertAll]
    split_ifs with clashes
    · constructor
      · exact fun failed => by cases failed
      · rintro ⟨⟨apart, _⟩, _⟩
        obtain ⟨old, mem, clash⟩ := clashes
        exact absurd clash (apart old mem row mem_cons_self)
    · rw [ih, append_assoc, singleton_append, Fits, Fits, pairwise_cons]
      refine and_congr_left fun _ => ⟨?_, ?_⟩
      · rintro ⟨apart, among⟩
        refine ⟨fun old mem new newMem => ?_, fun new newMem => ?_, among⟩
        · rcases mem_cons.1 newMem with rfl | later
          · exact fun clash => clashes ⟨old, mem, clash⟩
          · exact apart old (mem_append_left _ mem) new later
        · exact apart row (mem_append_right _ mem_cons_self) new newMem
      · rintro ⟨apart, among⟩
        refine ⟨fun old mem new newMem => ?_, among.2⟩
        rcases mem_append.1 mem with stored | added
        · exact apart old stored new (mem_cons_of_mem _ newMem)
        · rw [mem_singleton.1 added]
          exact among.1 new newMem

end Insert

section CopyId

def copyId (sequence : Nat) (ids : List Nat) (id : Nat) : Nat := sequence + 1 + ids.idxOf id

variable {sequence : Nat} {ids : List Nat} {a b : Nat}

theorem lt_copyId (sequence : Nat) (ids : List Nat) (id : Nat) :
    sequence < copyId sequence ids id := by
  rw [copyId]
  omega

theorem ne_copyId {stored sequence : Nat} (bound : stored ≤ sequence) {ids : List Nat} {id : Nat} :
    stored ≠ copyId sequence ids id :=
  Nat.ne_of_lt (Nat.lt_of_le_of_lt bound (lt_copyId sequence ids id))

theorem copyId_le (mem : a ∈ ids) : copyId sequence ids a ≤ sequence + ids.length := by
  have below := idxOf_lt_length_of_mem mem
  rw [copyId]
  omega

theorem copyId_inj (mem : a ∈ ids) (same : copyId sequence ids a = copyId sequence ids b) :
    a = b := by
  have place : ids.idxOf a = ids.idxOf b := by
    rw [copyId, copyId] at same
    omega
  exact (idxOf_inj mem).1 place

/-- Ids in use stay, and later ones move up. -/
def shift (sequence count id : Nat) : Nat := if id ≤ sequence then id else id + count

theorem shift_of_le {count id : Nat} (inUse : id ≤ sequence) : shift sequence count id = id :=
  if_pos inUse

theorem shift_injective (sequence count : Nat) : (shift sequence count).Injective := by
  intro x y same
  rw [shift, shift] at same
  split_ifs at same <;> omega

theorem shift_copyId (sequence count : Nat) (ids : List Nat) (id : Nat) :
    shift sequence count (copyId sequence ids id) = copyId (sequence + count) ids id := by
  rw [shift, if_neg (Nat.not_le_of_gt (lt_copyId sequence ids id)), copyId, copyId]
  omega

end CopyId

end ContextEngine.UniqueRows

/- digest: Numbers given to keys in the order in which they are first asked for. -/

import Mathlib.Data.Finmap
import Mathlib.Data.Set.Function

/-!
The number of a new key is how many keys have one. Two runs that ask for the same keys in different
orders give them numbers that differ by a renaming, which leaves what both runs started from alone.
-/

namespace ContextEngine

/-- A map that is compared by its entries alone. -/
abbrev FiniteMap (K V : Type) := Finmap fun _ : K => V

namespace FiniteMap

variable {K V : Type} [DecidableEq K]

theorem lookup_insert_eq (m : FiniteMap K V) (k k' : K) (v : V) :
    Finmap.lookup k' (m.insert k v) = if k' = k then some v else m.lookup k' := by
  split_ifs with same
  · rw [same]
    exact Finmap.lookup_insert m
  · exact Finmap.lookup_insert_of_ne m same

theorem mem_keys_iff {m : FiniteMap K V} {k : K} : k ∈ m.keys ↔ (m.lookup k).isSome := by
  rw [Finmap.mem_keys, Finmap.lookup_isSome]

section Related

variable {W : Type} {R : V → W → Prop} {m : FiniteMap K V} {n : FiniteMap K W}

def Related (R : V → W → Prop) (m : FiniteMap K V) (n : FiniteMap K W) : Prop :=
  ∀ k, Option.Rel R (m.lookup k) (n.lookup k)

theorem Related.mono {R' : V → W → Prop} (related : Related R m n)
    (weaker : ∀ v w, R v w → R' v w) : Related R' m n := by
  intro k
  have here := related k
  generalize m.lookup k = v, n.lookup k = w at here ⊢
  cases here with
  | some holds => exact .some (weaker _ _ holds)
  | none => exact .none

theorem Related.insert (related : Related R m n) (k : K) {v : V} {w : W} (holds : R v w) :
    Related R (Finmap.insert k v m) (Finmap.insert k w n) := by
  intro k'
  rw [lookup_insert_eq, lookup_insert_eq]
  split_ifs
  · exact .some holds
  · exact related k'

end Related

end FiniteMap

namespace KeyedNumbers

variable {K : Type} [DecidableEq K] (numbers : FiniteMap K Nat)

def allocate (key : K) : Nat × FiniteMap K Nat :=
  match numbers.lookup key with
  | some number => (number, numbers)
  | none => (numbers.keys.card, numbers.insert key numbers.keys.card)

def allocateAll (keys : List K) : FiniteMap K Nat :=
  keys.foldl (fun numbers key => (allocate numbers key).2) numbers

/-- Every number is below the count, and no two keys share one. -/
structure Numbered (numbers : FiniteMap K Nat) : Prop where
  bounded : ∀ key number, numbers.lookup key = some number → number < numbers.keys.card
  unique : ∀ key key' number, numbers.lookup key = some number →
    numbers.lookup key' = some number → key = key'

def Extends (base numbers : FiniteMap K Nat) : Prop :=
  ∀ key number, base.lookup key = some number → numbers.lookup key = some number

theorem Extends.refl : Extends numbers numbers := fun _ _ found => found

theorem Extends.trans {base numbers later : FiniteMap K Nat} (first : Extends base numbers)
    (second : Extends numbers later) : Extends base later :=
  fun key number found => second key number (first key number found)

theorem Numbered.empty : Numbered (∅ : FiniteMap K Nat) :=
  ⟨fun key _ found => absurd ((Finmap.lookup_empty key).symm.trans found) nofun,
    fun key _ _ found => absurd ((Finmap.lookup_empty key).symm.trans found) nofun⟩

section Allocation

variable {numbers : FiniteMap K Nat}

theorem allocate_of_some {key : K} {number : Nat} (found : numbers.lookup key = some number) :
    allocate numbers key = (number, numbers) := by
  unfold allocate
  rw [found]

theorem allocate_of_none {key : K} (fresh : numbers.lookup key = none) :
    allocate numbers key = (numbers.keys.card, numbers.insert key numbers.keys.card) := by
  unfold allocate
  rw [fresh]

theorem lookup_allocate_self (numbers : FiniteMap K Nat) (key : K) :
    (allocate numbers key).2.lookup key = some (allocate numbers key).1 := by
  cases found : numbers.lookup key with
  | some number => rw [allocate_of_some found]; exact found
  | none => rw [allocate_of_none found]; exact Finmap.lookup_insert numbers

theorem extends_allocate (numbers : FiniteMap K Nat) (key : K) :
    Extends numbers (allocate numbers key).2 := by
  intro key' number found
  cases new : numbers.lookup key with
  | some held => rw [allocate_of_some new]; exact found
  | none =>
    rw [allocate_of_none new, FiniteMap.lookup_insert_eq, if_neg]
    · exact found
    · rintro rfl
      rw [new] at found
      cases found

theorem isSome_lookup_allocate (numbers : FiniteMap K Nat) (key key' : K) :
    ((allocate numbers key).2.lookup key').isSome ↔ key' = key ∨ (numbers.lookup key').isSome := by
  cases found : numbers.lookup key with
  | some number =>
    rw [allocate_of_some found]
    refine ⟨Or.inr, fun or => or.elim (fun same => ?_) id⟩
    rw [same, found]
    rfl
  | none =>
    rw [allocate_of_none found, FiniteMap.lookup_insert_eq]
    split_ifs with same <;> simp [same]

theorem Numbered.allocate (numbered : Numbered numbers) (key : K) :
    Numbered (allocate numbers key).2 := by
  cases found : numbers.lookup key with
  | some number => rw [allocate_of_some found]; exact numbered
  | none =>
    have outside : key ∉ numbers.keys := by
      rw [FiniteMap.mem_keys_iff, found]
      exact Bool.false_ne_true
    have grown : (Finmap.insert key numbers.keys.card numbers).keys.card =
        numbers.keys.card + 1 := by
      rw [← Finset.card_insert_of_notMem outside]
      congr 1
      ext key'
      rw [Finset.mem_insert, Finmap.mem_keys, Finmap.mem_insert, Finmap.mem_keys]
    rw [allocate_of_none found]
    refine ⟨fun key' number stored => ?_, fun key₁ key₂ number stored₁ stored₂ => ?_⟩
    · rw [FiniteMap.lookup_insert_eq] at stored
      rw [grown]
      split_ifs at stored with same
      · cases stored
        exact Nat.lt_succ_self _
      · exact Nat.lt_succ_of_lt (numbered.bounded key' number stored)
    · rw [FiniteMap.lookup_insert_eq] at stored₁ stored₂
      split_ifs at stored₁ stored₂ with same₁ same₂ same₂
      · rw [same₁, same₂]
      · cases stored₁
        exact absurd (numbered.bounded key₂ _ stored₂) (lt_irrefl _)
      · cases stored₂
        exact absurd (numbered.bounded key₁ _ stored₁) (lt_irrefl _)
      · exact numbered.unique key₁ key₂ number stored₁ stored₂

end Allocation

section Runs

variable {numbers : FiniteMap K Nat}

theorem extends_allocateAll (numbers : FiniteMap K Nat) (keys : List K) :
    Extends numbers (allocateAll numbers keys) := by
  induction keys generalizing numbers with
  | nil => exact Extends.refl numbers
  | cons key keys ih => exact (extends_allocate numbers key).trans (ih _)

theorem Numbered.allocateAll (numbered : Numbered numbers) (keys : List K) :
    Numbered (allocateAll numbers keys) := by
  induction keys generalizing numbers with
  | nil => exact numbered
  | cons key keys ih => exact ih (numbered.allocate key)

theorem isSome_lookup_allocateAll (numbers : FiniteMap K Nat) (keys : List K) (key : K) :
    ((allocateAll numbers keys).lookup key).isSome ↔ key ∈ keys ∨ (numbers.lookup key).isSome := by
  induction keys generalizing numbers with
  | nil => simp [allocateAll]
  | cons first keys ih =>
    rw [List.mem_cons, or_assoc, or_left_comm, ← isSome_lookup_allocate]
    exact ih _

end Runs

section Renaming

variable {base numbers numbers' : FiniteMap K Nat}

def used (numbers : FiniteMap K Nat) : Set Nat := {number | ∃ key, numbers.lookup key = some number}

open Classical in
/-- The number under which the other run holds the key of a number. -/
noncomputable def counterpart (numbers numbers' : FiniteMap K Nat) (number : Nat) : Nat :=
  if found : ∃ key, numbers.lookup key = some number then
    (numbers'.lookup found.choose).getD number
  else number

theorem counterpart_eq (numbered : Numbered numbers) {key : K} {number number' : Nat}
    (held : numbers.lookup key = some number) (held' : numbers'.lookup key = some number') :
    counterpart numbers numbers' number = number' := by
  have found : ∃ key, numbers.lookup key = some number := ⟨key, held⟩
  have same : found.choose = key := numbered.unique _ _ number found.choose_spec held
  rw [counterpart, dif_pos found, same, held']
  rfl

theorem injOn_counterpart (numbered : Numbered numbers) (numbered' : Numbered numbers')
    (alike : ∀ key, (numbers.lookup key).isSome ↔ (numbers'.lookup key).isSome) :
    Set.InjOn (counterpart numbers numbers') (used numbers) := by
  rintro i ⟨key, held⟩ j ⟨other, heldOther⟩ same
  obtain ⟨i', held'⟩ := Option.isSome_iff_exists.1 ((alike key).1 (by rw [held]; rfl))
  obtain ⟨j', heldOther'⟩ := Option.isSome_iff_exists.1 ((alike other).1 (by rw [heldOther]; rfl))
  rw [counterpart_eq numbered held held', counterpart_eq numbered heldOther heldOther'] at same
  rw [same] at held'
  have keys : key = other := numbered'.unique key other j' held' heldOther'
  rw [keys, heldOther] at held
  exact (Option.some.inj held).symm

theorem counterpart_of_extends (numbered : Numbered numbers) (grown : Extends base numbers)
    (grown' : Extends base numbers') {number : Nat} (mem : number ∈ used base) :
    counterpart numbers numbers' number = number := by
  obtain ⟨key, held⟩ := mem
  exact counterpart_eq numbered (grown key number held) (grown' key number held)

end Renaming

end KeyedNumbers

end ContextEngine

/- digest: Hash maps, hash sets and sorted vectors with their lookup and membership laws. -/

import Mathlib.Algebra.Order.BigOperators.Group.List
import Mathlib.Data.List.AList
import Mathlib.Data.List.Sort
import Mathlib.Data.List.Dedup

/-!
Containers shared by every table of the development. A hash map is an association list
without duplicate keys; the order of its entries stands for the unspecified iteration
order, so a statement about every map is a statement about every iteration order. Sets and
sorted vectors carry their invariant in the type.
-/

namespace ContextEngine

open List

theorem foldl_frame {α β γ : Type} (field : β → γ) (step : β → α → β)
    (kept : ∀ b a, field (step b a) = field b) (l : List α) (b : β) :
    field (l.foldl step b) = field b := by
  induction l generalizing b with
  | nil => rfl
  | cons a l ih => rw [foldl_cons, ih, kept]

theorem foldl_iff_or {α β : Type} (P : β → Prop) {makes : α → Prop} {step : β → α → β}
    (one : ∀ b a, P (step b a) ↔ makes a ∨ P b) (l : List α) (b : β) :
    P (l.foldl step b) ↔ (∃ a ∈ l, makes a) ∨ P b := by
  induction l generalizing b with
  | nil => simp
  | cons a l ih => rw [foldl_cons, ih, one, exists_mem_cons_iff, or_left_comm, or_assoc]

theorem foldl_iff_and {α β : Type} (P : β → Prop) {undoes : α → Prop} {step : β → α → β}
    (one : ∀ b a, P (step b a) ↔ ¬undoes a ∧ P b) (l : List α) (b : β) :
    P (l.foldl step b) ↔ (¬∃ a ∈ l, undoes a) ∧ P b := by
  induction l generalizing b with
  | nil => simp
  | cons a l ih => rw [foldl_cons, ih, one, exists_mem_cons_iff, not_or, and_left_comm, and_assoc]

theorem foldl_or {α β : Type} (P : β → Prop) {makes : α → Prop} {step : β → α → β}
    (one : ∀ b a, P (step b a) → makes a ∨ P b) {l : List α} {b : β} (after : P (l.foldl step b)) :
    (∃ a ∈ l, makes a) ∨ P b := by
  induction l generalizing b with
  | nil => exact Or.inr after
  | cons a l ih =>
    rcases ih after with ⟨later, mem, made⟩ | before
    · exact Or.inl ⟨later, mem_cons_of_mem _ mem, made⟩
    · exact (one b a before).imp_left fun made => ⟨a, mem_cons_self, made⟩

/-- A finite map with an arbitrary iteration order. -/
abbrev HashMap (K V : Type) := AList (fun _ : K => V)

namespace HashMap

variable {K V : Type} [DecidableEq K]

instance [DecidableEq V] : DecidableEq (HashMap K V) := fun m n =>
  decidable_of_iff (m.entries = n.entries) AList.ext_iff.symm

/-- The entries in iteration order. -/
def toList (m : HashMap K V) : List (K × V) := m.entries.map fun e => (e.1, e.2)

/-- The values in iteration order. -/
def values (m : HashMap K V) : List V := m.toList.map Prod.snd

/-- Replace, drop or create the entry of one key. -/
def alter (m : HashMap K V) (k : K) (f : Option V → Option V) : HashMap K V :=
  match f (m.lookup k) with
  | none => m.erase k
  | some v => m.insert k v

/-- Insert every pair, a later pair overwriting an earlier one. -/
def extend (m : HashMap K V) (l : List (K × V)) : HashMap K V :=
  l.foldl (fun m p => m.insert p.1 p.2) m

def eraseAll (m : HashMap K V) (l : List K) : HashMap K V := l.foldl (fun m k => m.erase k) m

variable {m : HashMap K V} {k : K} {v : V}

theorem mem_toList :
    (k, v) ∈ m.toList ↔ m.lookup k = some v := by
  have entry := AList.mem_lookup_iff (a := k) (b := v) (s := m)
  simp only [toList, mem_map, Prod.mk.injEq]
  constructor
  · rintro ⟨⟨k', v'⟩, mem, rfl, rfl⟩
    exact entry.2 mem
  · intro found
    exact ⟨⟨k, v⟩, entry.1 found, rfl, rfl⟩

omit [DecidableEq K] in
theorem map_fst_toList (m : HashMap K V) : m.toList.map Prod.fst = m.keys := by
  simp only [toList, AList.keys, keys, map_map]
  rfl

theorem mem_values : v ∈ m.values ↔ ∃ k, m.lookup k = some v := by
  simp only [values, mem_map, Prod.exists, exists_eq_right, mem_toList]

theorem mem_keys_iff : k ∈ m.keys ↔ ∃ v, m.lookup k = some v := by
  rw [← AList.mem_keys, ← AList.lookup_isSome, Option.isSome_iff_exists]

theorem lookup_erase_eq (m : HashMap K V) (k k' : K) :
    (m.erase k).lookup k' = if k' = k then none else m.lookup k' := by
  split
  · next h => rw [h, AList.lookup_erase]
  · next h => rw [AList.lookup_erase_ne h]

theorem lookup_insert_eq (m : HashMap K V) (k k' : K) (v : V) :
    (m.insert k v).lookup k' = if k' = k then some v else m.lookup k' := by
  split
  · next h => rw [h, AList.lookup_insert]
  · next h => rw [AList.lookup_insert_ne h]

theorem of_lookup_insert_erase {old moved k : K} {v w : V}
    (found : ((m.erase old).insert moved w).lookup k = some v) :
    (k = moved ∧ v = w) ∨ m.lookup k = some v := by
  rw [lookup_insert_eq] at found
  split_ifs at found with same
  · exact Or.inl ⟨same, (Option.some.inj found).symm⟩
  · rw [lookup_erase_eq] at found
    split_ifs at found
    exact Or.inr found

theorem lookup_alter (m : HashMap K V) (k k' : K) (f : Option V → Option V) :
    (m.alter k f).lookup k' = if k' = k then f (m.lookup k) else m.lookup k' := by
  unfold alter
  split
  · next h => rw [lookup_erase_eq, h]
  · next v h => rw [lookup_insert_eq, h]

theorem lookup_eraseAll (m : HashMap K V) (l : List K) (k : K) :
    (m.eraseAll l).lookup k = if k ∈ l then none else m.lookup k := by
  induction l generalizing m with
  | nil => simp [eraseAll]
  | cons a l ih =>
    change (HashMap.eraseAll (m.erase a) l).lookup k = _
    rw [ih, lookup_erase_eq]
    by_cases ha : k = a
    · simp [ha]
    · simp [ha]

variable {l : List (K × V)}

theorem lookup_extend_of_notMem
    (fresh : k ∉ l.map Prod.fst) : (m.extend l).lookup k = m.lookup k := by
  induction l generalizing m with
  | nil => rfl
  | cons p l ih =>
    rw [map_cons, mem_cons, not_or] at fresh
    change (HashMap.extend (m.insert p.1 p.2) l).lookup k = _
    rw [ih fresh.2, AList.lookup_insert_ne fresh.1]

theorem lookup_extend_of_mem
    (mem : (k, v) ∈ l) (unique : ∀ w, (k, w) ∈ l → w = v) : (m.extend l).lookup k = some v := by
  induction l generalizing m with
  | nil => cases mem
  | cons p l ih =>
    change (HashMap.extend (m.insert p.1 p.2) l).lookup k = _
    by_cases later : k ∈ l.map Prod.fst
    · obtain ⟨⟨k', w⟩, memTail, rfl⟩ := mem_map.1 later
      have equal : w = v := unique w (mem_cons_of_mem _ memTail)
      subst equal
      exact ih memTail fun w' mem' => unique w' (mem_cons_of_mem _ mem')
    · rcases mem_cons.1 mem with rfl | memTail
      · rw [lookup_extend_of_notMem later, AList.lookup_insert]
      · exact absurd (mem_map_of_mem memTail) later

theorem isSome_lookup_extend :
    ((m.extend l).lookup k).isSome ↔ k ∈ l.map Prod.fst ∨ (m.lookup k).isSome := by
  induction l generalizing m with
  | nil => simp [extend]
  | cons p l ih =>
    change ((HashMap.extend (m.insert p.1 p.2) l).lookup k).isSome ↔ _
    rw [ih, lookup_insert_eq, map_cons, mem_cons]
    by_cases same : k = p.1
    · simp [same]
    · simp [same]

/-- Keep the entries that pass a test. -/
def retain (m : HashMap K V) (p : K → V → Bool) : HashMap K V where
  entries := m.entries.filter fun e => p e.1 e.2
  nodupKeys := m.nodupKeys.sublist List.filter_sublist

omit [DecidableEq K] in
theorem nodupKeys_mapValues (m : HashMap K V) (f : V → V) :
    (m.entries.map fun e => (⟨e.1, f e.2⟩ : Sigma fun _ : K => V)).NodupKeys := by
  have keys : (m.entries.map fun e => (⟨e.1, f e.2⟩ : Sigma fun _ : K => V)).keys =
      m.entries.keys := by
    simp only [keys, map_map]
    rfl
  rw [List.NodupKeys, keys]
  exact m.nodupKeys

/-- Replace every value by its image. -/
def mapValues (m : HashMap K V) (f : V → V) : HashMap K V where
  entries := m.entries.map fun e => ⟨e.1, f e.2⟩
  nodupKeys := nodupKeys_mapValues m f

theorem lookup_retain_eq_some {p : K → V → Bool} :
    (m.retain p).lookup k = some v ↔ m.lookup k = some v ∧ p k v = true := by
  have kept := AList.mem_lookup_iff (a := k) (b := v) (s := m.retain p)
  have entry := AList.mem_lookup_iff (a := k) (b := v) (s := m)
  rw [← Option.mem_def, ← Option.mem_def, kept, entry]
  exact mem_filter

theorem retain_eq_self {p : K → V → Bool}
    (all : ∀ k v, m.lookup k = some v → p k v = true) : m.retain p = m := by
  apply AList.ext
  exact filter_eq_self.2 fun e mem => all e.1 e.2 (AList.mem_lookup_iff.2 mem)

theorem lookup_mapValues_eq_some {f : V → V} :
    (m.mapValues f).lookup k = some v ↔ ∃ w, m.lookup k = some w ∧ f w = v := by
  have image := AList.mem_lookup_iff (a := k) (b := v) (s := m.mapValues f)
  rw [← Option.mem_def, image]
  change _ ∈ m.entries.map _ ↔ _
  rw [mem_map]
  constructor
  · rintro ⟨⟨k', w⟩, mem, same⟩
    obtain ⟨rfl, value⟩ := Sigma.mk.inj same
    exact ⟨w, AList.mem_lookup_iff.2 mem, eq_of_heq value⟩
  · rintro ⟨w, found, rfl⟩
    exact ⟨⟨k, w⟩, AList.mem_lookup_iff.1 found, rfl⟩

theorem mapValues_eq_self {f : V → V}
    (all : ∀ k v, m.lookup k = some v → f v = v) : m.mapValues f = m := by
  apply AList.ext
  refine (map_congr_left fun e mem => ?_).trans (map_id _)
  rw [all e.1 e.2 (AList.mem_lookup_iff.2 mem)]
  rfl

omit [DecidableEq K] in
theorem keys_mapEntries_entries (m : HashMap K V) (f : K → V → V) :
    (m.entries.map fun e => (⟨e.1, f e.1 e.2⟩ : Sigma fun _ : K => V)).keys = m.entries.keys := by
  simp only [keys, map_map]
  rfl

/-- Replace every value by an image that depends on its key. -/
def mapEntries (m : HashMap K V) (f : K → V → V) : HashMap K V where
  entries := m.entries.map fun e => ⟨e.1, f e.1 e.2⟩
  nodupKeys := by
    rw [List.NodupKeys, keys_mapEntries_entries]
    exact m.nodupKeys

omit [DecidableEq K] in
@[simp] theorem keys_mapEntries (m : HashMap K V) (f : K → V → V) :
    (m.mapEntries f).keys = m.keys :=
  keys_mapEntries_entries m f

omit [DecidableEq K] in
theorem toList_mapEntries (m : HashMap K V) (f : K → V → V) :
    (m.mapEntries f).toList = m.toList.map fun row => (row.1, f row.1 row.2) := by
  simp only [toList, mapEntries, map_map]
  rfl

theorem lookup_mapEntries (m : HashMap K V) (f : K → V → V) (k : K) :
    (m.mapEntries f).lookup k = (m.lookup k).map (f k) := by
  cases found : m.lookup k with
  | none =>
    rw [Option.map_none, AList.lookup_eq_none, AList.mem_keys, keys_mapEntries, ← AList.mem_keys]
    exact AList.lookup_eq_none.1 found
  | some v =>
    have entry : (⟨k, v⟩ : Sigma fun _ : K => V) ∈ m.entries := AList.mem_lookup_iff.1 found
    exact AList.mem_lookup_iff.2 (mem_map_of_mem entry)

/-- A map filled by inserting every entry of another. -/
def copy (m : HashMap K V) : HashMap K V := HashMap.extend ∅ m.toList

@[simp] theorem lookup_copy (m : HashMap K V) (k : K) : m.copy.lookup k = m.lookup k := by
  unfold copy
  cases found : m.lookup k with
  | none =>
    rw [lookup_extend_of_notMem]
    · rfl
    · rw [map_fst_toList, mem_keys_iff]
      rintro ⟨v, listed⟩
      rw [found] at listed
      cases listed
  | some v =>
    refine lookup_extend_of_mem (mem_toList.2 found) fun w mem => ?_
    have same := mem_toList.1 mem
    rw [found] at same
    exact (Option.some.inj same).symm

/-- How many entries a map has. -/
def size (m : HashMap K V) : Nat := m.keys.length

theorem size_insert (v : V) (fresh : m.lookup k = none) :
    size (m.insert k v) = m.size + 1 := by
  have absent : k ∉ m.keys := fun mem => AList.lookup_eq_none.1 fresh (AList.mem_keys.2 mem)
  unfold size
  rw [AList.keys_insert, length_cons, erase_of_not_mem absent]

theorem size_erase (stored : (m.lookup k).isSome) :
    size (m.erase k) + 1 = m.size := by
  have present : k ∈ m.keys := AList.mem_keys.1 (AList.lookup_isSome.1 stored)
  have nonempty := length_pos_of_mem present
  unfold size
  rw [AList.keys_erase, length_erase_of_mem present]
  omega

theorem size_eraseAll {l : List K} (once : l.Nodup)
    (stored : ∀ k ∈ l, (m.lookup k).isSome) : (m.eraseAll l).size + l.length = m.size := by
  induction l generalizing m with
  | nil => rfl
  | cons k l ih =>
    obtain ⟨absent, once⟩ := nodup_cons.1 once
    have rest : ∀ k' ∈ l, ((m.erase k).lookup k').isSome := by
      intro k' mem
      have other : k' ≠ k := fun same => absent (same ▸ mem)
      rw [lookup_erase_eq, if_neg other]
      exact stored k' (mem_cons_of_mem _ mem)
    have step : size (HashMap.eraseAll (m.erase k) l) + l.length = size (m.erase k) := ih once rest
    have first := size_erase (stored k mem_cons_self)
    show size (HashMap.eraseAll (m.erase k) l) + (l.length + 1) = m.size
    omega

theorem size_extend (once : (l.map Prod.fst).Nodup)
    (fresh : ∀ k ∈ l.map Prod.fst, m.lookup k = none) :
    (m.extend l).size = m.size + l.length := by
  induction l generalizing m with
  | nil => rfl
  | cons p l ih =>
    obtain ⟨absent, once⟩ := nodup_cons.1 once
    have rest : ∀ k ∈ l.map Prod.fst, (m.insert p.1 p.2).lookup k = none := by
      intro k mem
      have other : k ≠ p.1 := fun same => absent (same ▸ mem)
      rw [lookup_insert_eq, if_neg other]
      exact fresh k (mem_cons_of_mem _ mem)
    have step : size (HashMap.extend (m.insert p.1 p.2) l) = size (m.insert p.1 p.2) + l.length :=
      ih once rest
    have first := size_insert p.2 (fresh p.1 mem_cons_self)
    show size (HashMap.extend (m.insert p.1 p.2) l) = m.size + (l.length + 1)
    omega

theorem size_congr {m n : HashMap K V} (same : ∀ k, (m.lookup k).isSome = (n.lookup k).isSome) :
    m.size = n.size := by
  refine ((perm_ext_iff_of_nodup m.keys_nodup n.keys_nodup).2 fun k => ?_).length_eq
  have keyed : ∀ m : HashMap K V, k ∈ m.keys ↔ (m.lookup k).isSome = true := fun m =>
    AList.mem_keys.symm.trans AList.lookup_isSome.symm
  rw [keyed, keyed, same]

@[simp] theorem size_copy (m : HashMap K V) : m.copy.size = m.size := by
  have distinct : (m.toList.map Prod.fst).Nodup := by
    rw [map_fst_toList]
    exact AList.keys_nodup m
  have filled : m.copy.size = size (∅ : HashMap K V) + m.toList.length :=
    size_extend distinct fun k _ => AList.lookup_empty k
  have none : size (∅ : HashMap K V) = 0 := rfl
  rw [filled, none, Nat.zero_add, ← length_map (f := Prod.fst), map_fst_toList]
  rfl

omit [DecidableEq K] in
theorem mem_keys_foldl_iff {A : Type} {P : A → Prop} {step : HashMap K V → A → HashMap K V}
    (stepped : ∀ m a, k ∈ (step m a).keys ↔ P a ∨ k ∈ m.keys) (l : List A) (m : HashMap K V) :
    k ∈ (l.foldl step m).keys ↔ (∃ a ∈ l, P a) ∨ k ∈ m.keys := by
  induction l generalizing m with
  | nil => simp
  | cons a l ih => rw [foldl_cons, ih, stepped, exists_mem_cons_iff, or_left_comm, or_assoc]

end HashMap

/-- A set of distinct elements with an arbitrary iteration order. -/
structure HashSet (α : Type) where
  toList : List α
  nodup : toList.Nodup
  deriving DecidableEq

namespace HashSet

variable {α : Type} [DecidableEq α]

instance : Membership α (HashSet α) := ⟨fun s a => a ∈ s.toList⟩

instance : EmptyCollection (HashSet α) := ⟨⟨[], List.nodup_nil⟩⟩

instance : Inhabited (HashSet α) := ⟨∅⟩

instance (a : α) (s : HashSet α) : Decidable (a ∈ s) := inferInstanceAs (Decidable (a ∈ s.toList))

variable (s : HashSet α)

def insert (a : α) : HashSet α := ⟨s.toList.insert a, s.nodup.insert⟩

def erase (a : α) : HashSet α := ⟨s.toList.erase a, s.nodup.erase a⟩

def isEmpty : Bool := s.toList.isEmpty

def ofList (l : List α) : HashSet α := ⟨l.dedup, List.nodup_dedup l⟩

variable {s : HashSet α}

omit [DecidableEq α] in
theorem mem_toList {a : α} : a ∈ s.toList ↔ a ∈ s := Iff.rfl

omit [DecidableEq α] in
@[simp] theorem notMem_empty (a : α) : a ∉ (∅ : HashSet α) := not_mem_nil

@[simp] theorem mem_insert {a b : α} : b ∈ s.insert a ↔ b = a ∨ b ∈ s :=
  mem_insert_iff

@[simp] theorem mem_erase {a b : α} : b ∈ s.erase a ↔ b ≠ a ∧ b ∈ s :=
  s.nodup.mem_erase_iff

variable {l : List α}

@[simp] theorem mem_ofList {a : α} : a ∈ ofList l ↔ a ∈ l := mem_dedup

theorem mem_foldl_insert {a : α} :
    a ∈ l.foldl HashSet.insert s ↔ a ∈ l ∨ a ∈ s := by
  induction l generalizing s with
  | nil => simp only [not_mem_nil, false_or, foldl_nil]
  | cons b l ih =>
    rw [foldl_cons, ih, mem_insert, mem_cons]
    tauto

theorem mem_foldl_erase {a : α} :
    a ∈ l.foldl HashSet.erase s ↔ a ∉ l ∧ a ∈ s := by
  induction l generalizing s with
  | nil => exact ⟨fun mem => ⟨not_mem_nil, mem⟩, And.right⟩
  | cons b l ih =>
    rw [foldl_cons, ih, mem_erase, mem_cons, not_or]
    tauto

omit [DecidableEq α] in
theorem isEmpty_iff : s.isEmpty = true ↔ ∀ a, a ∉ s := by
  rw [isEmpty, List.isEmpty_iff, List.eq_nil_iff_forall_not_mem]
  rfl

end HashSet

/-!
A map of sets, as used for adjacency tables: an entry is created by the first insertion
and dropped with its last element.
-/

namespace HashMap

variable {K V : Type} [DecidableEq K] [DecidableEq V]

/-- The elements filed under a key. -/
def members (m : HashMap K (HashSet V)) (k : K) : List V :=
  match m.lookup k with
  | some s => s.toList
  | none => []

def insertAt (m : HashMap K (HashSet V)) (k : K) (v : V) : HashMap K (HashSet V) :=
  m.alter k fun entry => some ((entry.getD ∅).insert v)

def eraseAt (m : HashMap K (HashSet V)) (k : K) (v : V) : HashMap K (HashSet V) :=
  m.alter k fun entry =>
    match entry with
    | none => none
    | some s => if (s.erase v).isEmpty then none else some (s.erase v)

omit [DecidableEq V] in
@[simp] theorem members_empty (k : K) : (∅ : HashMap K (HashSet V)).members k = [] := rfl

omit [DecidableEq V] in
theorem mem_members {m : HashMap K (HashSet V)} {k : K} {v : V} :
    v ∈ m.members k ↔ ∃ s, m.lookup k = some s ∧ v ∈ s.toList := by
  unfold members
  cases m.lookup k <;> simp

omit [DecidableEq V] in
theorem members_erase (m : HashMap K (HashSet V)) (k k' : K) :
    HashMap.members (m.erase k) k' = if k' = k then [] else m.members k' := by
  unfold members
  rw [lookup_erase_eq]
  split_ifs <;> rfl

theorem mem_members_insertAt {m : HashMap K (HashSet V)} {k k' : K} {v v' : V} :
    v' ∈ (m.insertAt k v).members k' ↔ (k' = k ∧ v' = v) ∨ v' ∈ m.members k' := by
  unfold members insertAt
  rw [lookup_alter]
  by_cases same : k' = k
  · subst same
    simp only [if_true, true_and, HashSet.mem_toList, HashSet.mem_insert]
    cases m.lookup k' with
    | none => simp
    | some s => simp [HashSet.mem_toList]
  · simp [same]

theorem mem_members_eraseAt {m : HashMap K (HashSet V)} {k k' : K} {v v' : V} :
    v' ∈ (m.eraseAt k v).members k' ↔ ¬(k' = k ∧ v' = v) ∧ v' ∈ m.members k' := by
  unfold members eraseAt
  rw [lookup_alter]
  by_cases same : k' = k
  · subst same
    simp only [if_true, true_and]
    cases m.lookup k' with
    | none => simp
    | some s =>
      by_cases empty : (s.erase v).isEmpty = true
      · have gone := HashSet.isEmpty_iff.1 empty v'
        simp only [empty, if_true, not_mem_nil, false_iff, not_and]
        intro other mem
        exact gone (HashSet.mem_erase.2 ⟨other, mem⟩)
      · simp only [empty, Bool.false_eq_true, if_false, HashSet.mem_toList, HashSet.mem_erase]
  · simp [same]

def NoBareEntry (m : HashMap K (HashSet V)) : Prop :=
  ∀ k s, m.lookup k = some s → s.toList ≠ []

namespace NoBareEntry

omit [DecidableEq V]

theorem empty : NoBareEntry (∅ : HashMap K (HashSet V)) := fun _ _ found => nomatch found

theorem erase {m : HashMap K (HashSet V)} (full : m.NoBareEntry) (k : K) :
    HashMap.NoBareEntry (m.erase k) := by
  intro k' s found
  rw [lookup_erase_eq] at found
  split_ifs at found
  exact full k' s found

theorem lookup_eq_none {m : HashMap K (HashSet V)} (full : m.NoBareEntry) {k : K}
    (bare : m.members k = []) : m.lookup k = none := by
  cases found : m.lookup k with
  | none => rfl
  | some s =>
    unfold members at bare
    rw [found] at bare
    exact absurd bare (full k s found)

variable [DecidableEq V]

theorem insertAt {m : HashMap K (HashSet V)} (full : m.NoBareEntry) (k : K) (v : V) :
    (m.insertAt k v).NoBareEntry := by
  intro k' s found
  unfold HashMap.insertAt at found
  rw [lookup_alter] at found
  split_ifs at found
  · obtain rfl := Option.some.inj found
    exact ne_nil_of_mem (HashSet.mem_insert.2 (Or.inl rfl))
  · exact full k' s found

theorem eraseAt {m : HashMap K (HashSet V)} (full : m.NoBareEntry) (k : K) (v : V) :
    (m.eraseAt k v).NoBareEntry := by
  intro k' s found
  unfold HashMap.eraseAt at found
  rw [lookup_alter] at found
  split_ifs at found
  · cases entry : m.lookup k with
    | none =>
      rw [entry] at found
      cases found
    | some old =>
      rw [entry] at found
      simp only at found
      split_ifs at found with bare
      obtain rfl := Option.some.inj found
      exact fun nil => bare (isEmpty_iff.2 nil)
  · exact full k' s found

theorem foldl_eraseAt {m : HashMap K (HashSet V)} (full : m.NoBareEntry) (l : List K) (v : V) :
    (l.foldl (fun m key => m.eraseAt key v) m).NoBareEntry := by
  induction l generalizing m with
  | nil => exact full
  | cons k l ih => exact ih (full.eraseAt k v)

end NoBareEntry

theorem mem_members_foldl_eraseAt {m : HashMap K (HashSet V)} {l : List K} {k : K} {v v' : V} :
    v' ∈ (l.foldl (fun m key => m.eraseAt key v) m).members k ↔
      ¬(k ∈ l ∧ v' = v) ∧ v' ∈ m.members k := by
  refine Iff.trans (foldl_iff_and (v' ∈ members · k)
    (fun m key => @mem_members_eraseAt _ _ _ _ m key k v v')
    l m) ?_
  simp only [← and_assoc, exists_and_right, exists_eq_right']

end HashMap

/-!
A map of buckets in insertion order. A bucket is created by the first push and dropped with
its last element.
-/

namespace HashMap

variable {K V : Type} [DecidableEq K] [DecidableEq V]

def bucket (m : HashMap K (List V)) (k : K) : List V := (m.lookup k).getD []

def bucketPush (m : HashMap K (List V)) (k : K) (v : V) : HashMap K (List V) :=
  m.alter k fun entry => some (entry.getD [] ++ [v])

def bucketPushNew (m : HashMap K (List V)) (k : K) (v : V) : HashMap K (List V) :=
  m.alter k fun entry => some (if v ∈ entry.getD [] then entry.getD [] else entry.getD [] ++ [v])

/-- Drop every occurrence of an element from a bucket. -/
def bucketErase (m : HashMap K (List V)) (k : K) (v : V) : HashMap K (List V) :=
  m.alter k fun entry =>
    match entry with
    | none => none
    | some l => if (l.filter (· ≠ v)).isEmpty then none else some (l.filter (· ≠ v))

omit [DecidableEq V] in
theorem bucket_bucketPush (m : HashMap K (List V)) (k k' : K) (v : V) :
    (m.bucketPush k v).bucket k' = if k' = k then m.bucket k ++ [v] else m.bucket k' := by
  unfold bucket bucketPush
  rw [lookup_alter]
  split_ifs <;> rfl

omit [DecidableEq V] in
theorem mem_keys_bucketPush {m : HashMap K (List V)} {k k' : K} {v : V} :
    k' ∈ (m.bucketPush k v).keys ↔ k' = k ∨ k' ∈ m.keys := by
  rw [mem_keys_iff, mem_keys_iff, bucketPush, lookup_alter]
  split_ifs with same <;> simp [same]

omit [DecidableEq V] in
theorem bucket_foldl_bucketPush {A : Type} (m : HashMap K (List V)) (place : A → K) (item : A → V)
    (l : List A) (k : K) :
    (l.foldl (fun m a => m.bucketPush (place a) (item a)) m).bucket k =
      m.bucket k ++ (l.filter (place · = k)).map item := by
  induction l generalizing m with
  | nil => simp
  | cons a l ih =>
    rw [foldl_cons, ih, bucket_bucketPush]
    by_cases here : place a = k
    · simp [here]
    · simp [here, Ne.symm here]

theorem bucket_bucketPushNew (m : HashMap K (List V)) (k k' : K) (v : V) :
    (m.bucketPushNew k v).bucket k' =
      if k' = k then if v ∈ m.bucket k then m.bucket k else m.bucket k ++ [v]
      else m.bucket k' := by
  unfold bucket bucketPushNew
  rw [lookup_alter]
  split_ifs <;> rfl

theorem bucket_bucketErase (m : HashMap K (List V)) (k k' : K) (v : V) :
    (m.bucketErase k v).bucket k' =
      if k' = k then (m.bucket k).filter (· ≠ v) else m.bucket k' := by
  unfold bucket bucketErase
  rw [lookup_alter]
  by_cases same : k' = k
  · simp only [same, if_true]
    cases m.lookup k with
    | none => rfl
    | some l =>
      by_cases empty : (l.filter (· ≠ v)).isEmpty = true
      · simp only [empty, if_true, Option.getD_none, Option.getD_some]
        exact (isEmpty_iff.1 empty).symm
      · simp only [empty, Bool.false_eq_true, if_false, Option.getD_some]
  · simp [same]

end HashMap

/-- A vector kept strictly increasing by binary-search insertion and removal. -/
structure SortedVec (α : Type) [LinearOrder α] where
  toList : List α
  sorted : toList.Pairwise (· < ·)
  deriving DecidableEq

namespace SortedVec

variable {α : Type} [LinearOrder α]

instance : Membership α (SortedVec α) := ⟨fun v a => a ∈ v.toList⟩

instance : EmptyCollection (SortedVec α) := ⟨⟨[], List.Pairwise.nil⟩⟩

instance (a : α) (v : SortedVec α) : Decidable (a ∈ v) := inferInstanceAs (Decidable (a ∈ v.toList))

private def insertList (a : α) : List α → List α
  | [] => [a]
  | b :: l => if a < b then a :: b :: l else if a = b then b :: l else b :: insertList a l

variable {l : List α}

private theorem mem_insertList {a b : α} : b ∈ insertList a l ↔ b = a ∨ b ∈ l := by
  induction l with
  | nil => simp [insertList]
  | cons c l ih =>
    unfold insertList
    split_ifs with before same
    · simp
    · subst same
      simp
    · simp only [mem_cons, ih]
      tauto

variable {a : α}

private theorem pairwise_insertList (sorted : l.Pairwise (· < ·)) :
    (insertList a l).Pairwise (· < ·) := by
  induction l with
  | nil => simp [insertList]
  | cons c l ih =>
    obtain ⟨head, tail⟩ := pairwise_cons.1 sorted
    unfold insertList
    split_ifs with before same
    · refine pairwise_cons.2 ⟨?_, sorted⟩
      intro b mem
      rcases mem_cons.1 mem with rfl | mem
      · exact before
      · exact before.trans (head b mem)
    · exact sorted
    · refine pairwise_cons.2 ⟨?_, ih tail⟩
      intro b mem
      rcases mem_insertList.1 mem with rfl | mem
      · exact lt_of_le_of_ne (not_lt.1 before) (Ne.symm same)
      · exact head b mem

/-- Insert at the position binary search reports, unless already present. -/
def insert (v : SortedVec α) (a : α) : SortedVec α :=
  ⟨insertList a v.toList, pairwise_insertList v.sorted⟩

/-- Remove the element binary search finds. -/
def erase (v : SortedVec α) (a : α) : SortedVec α :=
  ⟨v.toList.erase a, v.sorted.sublist List.erase_sublist⟩

def isEmpty (v : SortedVec α) : Bool := v.toList.isEmpty

def ofList (l : List α) : SortedVec α := l.foldl insert ∅

theorem nodup (v : SortedVec α) : v.toList.Nodup := v.sorted.imp fun h => h.ne

variable {v : SortedVec α}

theorem mem_toList : a ∈ v.toList ↔ a ∈ v := Iff.rfl

@[simp] theorem notMem_empty (a : α) : a ∉ (∅ : SortedVec α) := not_mem_nil

@[simp] theorem mem_insert {a b : α} : b ∈ v.insert a ↔ b = a ∨ b ∈ v :=
  mem_insertList

@[simp] theorem mem_erase {a b : α} : b ∈ v.erase a ↔ b ≠ a ∧ b ∈ v :=
  v.nodup.mem_erase_iff

@[simp] theorem mem_ofList : a ∈ ofList l ↔ a ∈ l := by
  have inserting : ∀ (l : List α) (v : SortedVec α), a ∈ l.foldl insert v ↔ a ∈ l ∨ a ∈ v := by
    intro l
    induction l with
    | nil => simp
    | cons b l ih =>
      intro v
      rw [foldl_cons, ih, mem_insert, mem_cons, ← or_assoc, or_comm (a := a ∈ l)]
  exact (inserting l ∅).trans (or_iff_left (notMem_empty a))

theorem isEmpty_iff : v.isEmpty = true ↔ ∀ a, a ∉ v := by
  rw [isEmpty, List.isEmpty_iff, List.eq_nil_iff_forall_not_mem]
  rfl

variable {P : α → Bool}

theorem find?_erase (fails : P a = false) :
    (v.erase a).toList.find? P = v.toList.find? P := by
  change (v.toList.erase a).find? P = _
  induction v.toList with
  | nil => rfl
  | cons b l ih =>
    by_cases same : b = a
    · subst same
      rw [erase_cons_head, find?_cons, fails]
    · rw [erase_cons_tail (by simpa using same), find?_cons, find?_cons, ih]

theorem find?_eq_some_iff :
    v.toList.find? P = some a ↔ a ∈ v ∧ P a = true ∧ ∀ b ∈ v, P b = true → a ≤ b := by
  constructor
  · intro found
    obtain ⟨passes, before, after, split, earlier⟩ := find?_eq_some_iff_append.1 found
    have sorted := split ▸ v.sorted
    refine ⟨mem_of_find?_eq_some found, passes, fun b mem hit => ?_⟩
    rw [← mem_toList, split, mem_append, mem_cons] at mem
    rcases mem with early | rfl | late
    · have fails := earlier b early
      rw [hit] at fails
      cases fails
    · exact le_refl _
    · exact ((pairwise_cons.1 (pairwise_append.1 sorted).2.1).1 b late).le
  · rintro ⟨mem, passes, least⟩
    cases found : v.toList.find? P with
    | none =>
      have fails := find?_eq_none.1 found a mem
      exact absurd passes fails
    | some b =>
      obtain ⟨hit, before, after, split, earlier⟩ := find?_eq_some_iff_append.1 found
      have sorted := split ▸ v.sorted
      have le := least b (mem_of_find?_eq_some found) hit
      rw [← mem_toList, split, mem_append, mem_cons] at mem
      rcases mem with early | rfl | late
      · have fails := earlier a early
        rw [passes] at fails
        cases fails
      · rfl
      · have lt := (pairwise_cons.1 (pairwise_append.1 sorted).2.1).1 a late
        exact absurd le (not_le.2 lt)

theorem find?_congr {v w : SortedVec α}
    (same : ∀ a, P a = true → (a ∈ v ↔ a ∈ w)) : v.toList.find? P = w.toList.find? P := by
  refine Option.ext fun a => ?_
  rw [find?_eq_some_iff, find?_eq_some_iff]
  constructor
  · rintro ⟨mem, passes, least⟩
    exact ⟨(same a passes).1 mem, passes, fun b inW hit => least b ((same b hit).2 inW) hit⟩
  · rintro ⟨mem, passes, least⟩
    exact ⟨(same a passes).2 mem, passes, fun b inV hit => least b ((same b hit).1 inV) hit⟩

theorem toList_eq_of_mem_iff {v w : SortedVec α} (same : ∀ a, a ∈ v ↔ a ∈ w) :
    v.toList = w.toList :=
  v.sorted.eq_of_mem_iff w.sorted fun a => same a

end SortedVec

end ContextEngine

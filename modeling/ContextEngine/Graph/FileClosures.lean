/- digest: What the stored file closures hold, for every order the hash tables are read in. -/

import ContextEngine.Compact.RoundTrip

set_option autoImplicit false

namespace ContextEngine

open HashMap List Search

section Rounds

def absorb (state : HashMap String (HashSet String) × Bool) (key : String) :
    HashMap String (HashSet String) × Bool :=
  let current := (state.1.lookup key).getD ∅
  let absorbed := (current.toList.flatMap fun dep => state.1.members dep).foldl HashSet.insert
    current
  let newDeps := absorbed.erase key
  if current.toList.length < newDeps.toList.length then (state.1.insert key newDeps, true)
  else state

def roundIn (order : List String) (deps : HashMap String (HashSet String)) :
    HashMap String (HashSet String) × Bool :=
  order.foldl absorb (deps, false)

theorem roundIn_keys (deps : HashMap String (HashSet String)) :
    roundIn deps.keys deps = propagateRound deps := rfl

/-- `TransitiveFileDeps::propagate`: every round reads the keys in an order of its own. -/
inductive Propagated :
    Nat → HashMap String (HashSet String) → HashMap String (HashSet String) → Prop
  | done (deps : HashMap String (HashSet String)) : Propagated 0 deps deps
  | settled {maxDepth : Nat} {deps : HashMap String (HashSet String)} (order : List String)
      (keys : order.Perm deps.keys) (unchanged : (roundIn order deps).2 = false) :
      Propagated (maxDepth + 1) deps (roundIn order deps).1
  | round {maxDepth : Nat} {deps final : HashMap String (HashSet String)} (order : List String)
      (keys : order.Perm deps.keys) (changed : (roundIn order deps).2 = true)
      (rest : Propagated maxDepth (roundIn order deps).1 final) :
      Propagated (maxDepth + 1) deps final

theorem propagated_propagate (maxDepth : Nat) (deps : HashMap String (HashSet String)) :
    Propagated maxDepth deps (propagate maxDepth deps) := by
  induction maxDepth generalizing deps with
  | zero => exact .done deps
  | succ maxDepth ih =>
    rw [propagate, ← roundIn_keys]
    by_cases changed : (roundIn deps.keys deps).2 = true
    · simp only [changed, if_true]
      exact .round deps.keys (.refl _) changed (ih _)
    · rw [Bool.not_eq_true] at changed
      simp only [changed, Bool.false_eq_true, if_false]
      exact .settled deps.keys (.refl _) changed

variable {state : HashMap String (HashSet String) × Bool} {key f g : String}

theorem mem_members_absorb (free : SelfFree state.1) :
    g ∈ (absorb state key).1.members f ↔ g ∈ state.1.members f ∨
      (f = key ∧ g ≠ key ∧ ∃ h ∈ state.1.members key, g ∈ state.1.members h) := by
  have current : ((state.1.lookup key).getD ∅).toList = state.1.members key := by
    unfold members
    cases state.1.lookup key <;> rfl
  unfold absorb
  simp only
  generalize (state.1.lookup key).getD ∅ = set at current ⊢
  rw [current]
  generalize united : (foldl HashSet.insert set
    ((state.1.members key).flatMap fun dep => state.1.members dep)).erase key = newDeps
  have mem : ∀ x, x ∈ newDeps.toList ↔ x ≠ key ∧
      ((∃ h ∈ state.1.members key, x ∈ state.1.members h) ∨ x ∈ state.1.members key) := by
    intro x
    rw [← united, HashSet.mem_toList, HashSet.mem_erase, HashSet.mem_foldl_insert,
      mem_flatMap, ← HashSet.mem_toList, current]
  have self : key ∉ state.1.members key := free key
  split_ifs with more
  · unfold members at mem self ⊢
    rw [lookup_insert_eq]
    by_cases same : f = key
    · subst same
      rw [if_pos rfl]
      simp only [mem, true_and]
      constructor
      · rintro ⟨ne, further | known⟩
        · exact Or.inr ⟨ne, further⟩
        · exact Or.inl known
      · rintro (known | ⟨ne, further⟩)
        · refine ⟨?_, Or.inr known⟩
          rintro rfl
          exact self known
        · exact ⟨ne, Or.inl further⟩
    · rw [if_neg same]
      simp [same]
  · -- no more members than before means the same members
    refine ⟨Or.inl, ?_⟩
    rintro (known | ⟨rfl, ne, further⟩)
    · exact known
    · have nodup : (state.1.members f).Nodup := current ▸ set.nodup
      have subset : state.1.members f ⊆ newDeps.toList := by
        intro x known
        refine (mem x).2 ⟨?_, Or.inr known⟩
        rintro rfl
        exact self known
      have perm := (subperm_of_subset nodup subset).perm_of_length_le (Nat.le_of_not_lt more)
      exact perm.mem_iff.2 ((mem g).2 ⟨ne, Or.inl further⟩)

theorem absorb_of_unchanged (unchanged : (absorb state key).2 = false) :
    absorb state key = state := by
  unfold absorb at unchanged ⊢
  simp only at unchanged ⊢
  split_ifs at unchanged ⊢
  rfl

theorem selfFree_absorb (free : SelfFree state.1) : SelfFree (absorb state key).1 := by
  intro file mem
  rcases (mem_members_absorb free).1 mem with known | ⟨rfl, ne, -⟩
  · exact free file known
  · exact ne rfl

theorem foldl_absorb (state : HashMap String (HashSet String) × Bool) (order : List String)
    (free : SelfFree state.1) :
    SelfFree (order.foldl absorb state).1 ∧
      (∀ f g, g ∈ state.1.members f → g ∈ (order.foldl absorb state).1.members f) ∧
      (∀ f ∈ order, ∀ h g, h ∈ state.1.members f → g ∈ state.1.members h → g ≠ f →
        g ∈ (order.foldl absorb state).1.members f) ∧
      ∀ R : String → String → Prop, (∀ a b c, R a b → R b c → R a c) →
        (∀ f g, g ∈ state.1.members f → R f g) →
        ∀ f g, g ∈ (order.foldl absorb state).1.members f → R f g := by
  induction order generalizing state with
  | nil => exact ⟨free, fun f g known => known, fun f mem => absurd mem not_mem_nil,
      fun R _ within => within⟩
  | cons key order ih =>
    have freeNext : SelfFree (absorb state key).1 := selfFree_absorb free
    obtain ⟨freeRest, kept, gained, sound⟩ := ih _ freeNext
    have grows : ∀ f g, g ∈ state.1.members f → g ∈ (absorb state key).1.members f :=
      fun f g known => (mem_members_absorb free).2 (Or.inl known)
    refine ⟨freeRest, fun f g known => kept f g (grows f g known), ?_, ?_⟩
    · intro f mem h g first second ne
      rcases mem_cons.1 mem with rfl | later
      · exact kept f g ((mem_members_absorb free).2 (Or.inr ⟨rfl, ne, h, first, second⟩))
      · exact gained f later h g (grows f h first) (grows h g second) ne
    · intro R trans within
      refine sound R trans fun f g mem => ?_
      rcases (mem_members_absorb free).1 mem with known | ⟨rfl, -, h, first, second⟩
      · exact within f g known
      · exact trans f h g (within f h first) (within h g second)

theorem foldl_absorb_of_unchanged {order : List String}
    (unchanged : (order.foldl absorb state).2 = false) : order.foldl absorb state = state := by
  induction order generalizing state with
  | nil => rfl
  | cons key order ih =>
    have rest := ih unchanged
    rw [foldl_cons] at unchanged ⊢
    rw [rest] at unchanged ⊢
    exact absorb_of_unchanged unchanged

variable {next : String → List String} {maxDepth : Nat}
    {deps final : HashMap String (HashSet String)}

def KnowsWithin (next : String → List String) (length : Nat)
    (deps : HashMap String (HashSet String)) :
    Prop :=
  ∀ n ≤ length, ∀ f g, Steps next n f g → g ≠ f → g ∈ deps.members f

theorem steps_split {n m : Nat} {a c : String} (steps : Steps next (m + n) a c) :
    ∃ b, Steps next m a b ∧ Steps next n b c := by
  induction n generalizing c with
  | zero => exact ⟨c, steps, rfl⟩
  | succ n ih =>
    obtain ⟨d, before, last⟩ := steps
    obtain ⟨b, first, rest⟩ := ih before
    exact ⟨b, first, d, rest, last⟩

theorem mem_keys_of_members (mem : g ∈ deps.members f) : f ∈ deps.keys := by
  unfold members at mem
  cases found : deps.lookup f with
  | none =>
    rw [found] at mem
    cases mem
  | some set => exact mem_keys_iff.2 ⟨set, found⟩

theorem knowsWithin_roundIn {length : Nat} {order : List String} (keys : order.Perm deps.keys)
    (free : SelfFree deps) (known : KnowsWithin next length deps) :
    KnowsWithin next (length * 2) (roundIn order deps).1 := by
  obtain ⟨-, kept, gained, -⟩ := foldl_absorb (deps, false) order free
  intro n le f g steps ne
  by_cases short : n ≤ length
  · exact kept f g (known n short f g steps ne)
  · obtain ⟨h, first, second⟩ := steps_split (m := length) (n := n - length)
      (by rwa [Nat.add_sub_cancel' (by omega)])
    by_cases back : h = f
    · subst back
      exact kept h g (known _ (by omega) h g second ne)
    · have fromF := known length (Nat.le_refl _) f h first back
      by_cases there : g = h
      · subst there
        exact kept f g fromF
      · exact gained f (keys.mem_iff.2 (mem_keys_of_members fromF)) h g fromF
          (known _ (by omega) h g second there) ne

theorem Propagated.selfFree (propagated : Propagated maxDepth deps final) (free : SelfFree deps) :
    SelfFree final := by
  induction propagated with
  | done deps => exact free
  | settled order keys unchanged => exact (foldl_absorb (_, false) order free).1
  | round order keys changed rest ih => exact ih (foldl_absorb (_, false) order free).1

theorem Propagated.sound {R : String → String → Prop} (trans : ∀ a b c, R a b → R b c → R a c)
    (propagated : Propagated maxDepth deps final) (free : SelfFree deps)
    (within : ∀ f g, g ∈ deps.members f → R f g) : ∀ f g, g ∈ final.members f → R f g := by
  induction propagated with
  | done deps => exact within
  | settled order keys unchanged => exact (foldl_absorb (_, false) order free).2.2.2 R trans within
  | round order keys changed rest ih =>
    obtain ⟨freeRest, -, -, sound⟩ := foldl_absorb (_, false) order free
    exact ih freeRest (sound R trans within)

theorem Propagated.knowsWithin {length : Nat} (propagated : Propagated maxDepth deps final)
    (free : SelfFree deps) (positive : 0 < length) (known : KnowsWithin next length deps) :
    KnowsWithin next (length * 2 ^ maxDepth) final := by
  induction propagated generalizing length with
  | done deps => simpa using known
  | @settled maxDepth deps order keys unchanged =>
    -- a round without a change repeats as often as one likes
    have same : (roundIn order deps).1 = deps := by
      unfold roundIn at unchanged ⊢
      rw [foldl_absorb_of_unchanged unchanged]
    have all : ∀ rounds, KnowsWithin next (length * 2 ^ rounds) deps := by
      intro rounds
      induction rounds with
      | zero => simpa using known
      | succ rounds ih =>
        have twice := knowsWithin_roundIn keys free ih
        rwa [same, Nat.mul_assoc, ← Nat.pow_succ] at twice
    rw [same]
    exact all _
  | @round maxDepth deps final order keys changed rest ih =>
    have twice := ih (foldl_absorb (_, false) order free).1 (by omega)
      (knowsWithin_roundIn keys free known)
    rwa [Nat.mul_assoc, ← Nat.pow_succ'] at twice

end Rounds

section Tables

/-- The files behind a file among the pairs, itself left out. -/
def neighbours (edges : List (String × String)) (file : String) : List String :=
  edges.filterMap fun edge => if edge.1 = file ∧ edge.2 ≠ file then some edge.2 else none

variable {edges : List (String × String)} {f g : String}

theorem mem_neighbours :
    g ∈ neighbours edges f ↔ (f, g) ∈ edges ∧ g ≠ f := by
  unfold neighbours
  rw [mem_filterMap]
  constructor
  · rintro ⟨edge, mem, found⟩
    split_ifs at found with from_
    cases found
    obtain ⟨rfl, ne⟩ := from_
    exact ⟨mem, ne⟩
  · rintro ⟨mem, ne⟩
    exact ⟨(f, g), mem, if_pos ⟨rfl, ne⟩⟩

theorem mem_neighbours_swap :
    f ∈ neighbours (edges.map Prod.swap) g ↔ g ∈ neighbours edges f := by
  rw [mem_neighbours, mem_neighbours, mem_map]
  constructor
  · rintro ⟨⟨⟨x, y⟩, mem, same⟩, ne⟩
    cases same
    exact ⟨mem, ne.symm⟩
  · rintro ⟨mem, ne⟩
    exact ⟨⟨(f, g), mem, rfl⟩, ne.symm⟩

theorem steps_swap {n : Nat} :
    Steps (neighbours (edges.map Prod.swap)) n g f ↔ Steps (neighbours edges) n f g := by
  have front : ∀ (next : String → List String) (n : Nat) (a c : String),
      Steps next (n + 1) a c ↔ ∃ b ∈ next a, Steps next n b c := by
    intro next n
    induction n with
    | zero =>
      intro a c
      constructor
      · rintro ⟨b, rfl, mem⟩
        exact ⟨c, mem, rfl⟩
      · rintro ⟨b, mem, rfl⟩
        exact ⟨a, rfl, mem⟩
    | succ n ih =>
      intro a c
      constructor
      · rintro ⟨d, before, last⟩
        obtain ⟨b, first, rest⟩ := (ih a d).1 before
        exact ⟨b, first, d, rest, last⟩
      · rintro ⟨b, first, d, rest, last⟩
        exact ⟨d, (ih a d).2 ⟨b, first, rest⟩, last⟩
  induction n generalizing f with
  | zero => exact ⟨Eq.symm, Eq.symm⟩
  | succ n ih =>
    constructor
    · rintro ⟨b, before, mem⟩
      exact (front _ n f g).2 ⟨b, mem_neighbours_swap.1 mem, ih.1 before⟩
    · intro steps
      obtain ⟨b, mem, rest⟩ := (front _ n f g).1 steps
      exact ⟨b, ih.2 rest, mem_neighbours_swap.2 mem⟩

theorem reach_iff_steps {next : String → List String} :
    Reach next f g ↔ ∃ n, Steps next (n + 1) f g := by
  constructor
  · intro reach
    induction reach with
    | single mem => exact ⟨0, f, rfl, mem⟩
    | tail _ mem ih =>
      obtain ⟨n, steps⟩ := ih
      exact ⟨n + 1, _, steps, mem⟩
  · rintro ⟨n, steps⟩
    induction n generalizing g with
    | zero =>
      obtain ⟨b, rfl, mem⟩ := steps
      exact .single mem
    | succ n ih =>
      obtain ⟨b, before, mem⟩ := steps
      exact (ih before).tail mem

variable {files : List String}

theorem mem_withEntries {table : HashMap String (HashSet String)} :
    g ∈ (withEntries table files).members f ↔ g ∈ table.members f := by
  induction files generalizing table with
  | nil => exact Iff.rfl
  | cons file files ih =>
    refine ih.trans ?_
    unfold members
    rw [lookup_alter]
    by_cases same : f = file
    · subst same
      rw [if_pos rfl]
      cases table.lookup f <;> rfl
    · rw [if_neg same]

def compactTable (files : List String) (dependencies calls : List (String × String)) :
    HashMap String (HashSet String) :=
  calls.foldl (fun table edge => if edge.1 = edge.2 then table else table.insertAt edge.1 edge.2)
    (dependencies.foldl (fun table edge => table.insertAt edge.1 edge.2) (withEntries ∅ files))

private theorem mem_foldl_checked {table : HashMap String (HashSet String)} :
    g ∈ (edges.foldl (fun table edge => if edge.1 = edge.2 then table
        else table.insertAt edge.1 edge.2) table).members f ↔
      g ∈ neighbours edges f ∨ g ∈ table.members f := by
  rw [mem_neighbours]
  have one : ∀ (table : HashMap String (HashSet String)) (edge : String × String),
      g ∈ (if edge.1 = edge.2 then table else table.insertAt edge.1 edge.2).members f ↔
        ((f, g) = edge ∧ g ≠ f) ∨ g ∈ table.members f := by
    rintro table ⟨a, b⟩
    dsimp only
    split_ifs with same
    · refine (or_iff_right ?_).symm
      rintro ⟨pair, apart⟩
      obtain ⟨rfl, rfl⟩ := Prod.mk.inj pair
      exact apart same.symm
    · rw [mem_members_insertAt, Prod.mk.injEq]
      refine or_congr_left (and_iff_left_of_imp ?_).symm
      rintro ⟨rfl, rfl⟩ back
      exact same back.symm
  rw [foldl_iff_or (fun table => g ∈ members table f) one]
  simp

theorem mem_directTable {edges : List (String × String)} :
    g ∈ (TransitiveFileDeps.directTable files edges).members f ↔ g ∈ neighbours edges f := by
  unfold TransitiveFileDeps.directTable
  rw [mem_foldl_checked, mem_withEntries]
  simp

theorem mem_compactTable {deps calls : List (String × String)} :
    g ∈ (compactTable files deps calls).members f ↔
      (f, g) ∈ deps ∨ g ∈ neighbours calls f := by
  have unchecked : ∀ (edges : List (String × String)) (table : HashMap String (HashSet String)),
      g ∈ (edges.foldl (fun table edge => table.insertAt edge.1 edge.2) table).members f ↔
        (∃ edge ∈ edges, f = edge.1 ∧ g = edge.2) ∨ g ∈ table.members f :=
    foldl_iff_or (g ∈ members · f) fun table edge => mem_members_insertAt
  unfold compactTable
  rw [mem_foldl_checked, unchecked, mem_withEntries]
  simp [or_comm]

end Tables

section Closures

variable (compact : CompactRelationIndex)

def dependencyEdges : List (String × String) :=
  compact.dependencyForward.toList.flatMap fun entry => entry.2.toList.map fun dep => (entry.1, dep)

def callEdges : List (String × String) :=
  (compact.fileRelationIndex.toList.flatMap fun entry =>
    entry.2.edges.filterMap fun relation =>
      (relation.calleeId.bind compact.entityFileIndex.lookup).map fun calleeFile =>
        (entry.1, calleeFile)) ++
  compact.resolvedRelationIndex.toList.flatMap fun entry =>
    entry.2.edges.filterMap fun relation =>
      (compact.entityFileIndex.lookup entry.1).bind fun callerFile =>
        (relation.calleeId.bind compact.entityFileIndex.lookup).map fun calleeFile =>
          (callerFile, calleeFile)

/-- `TransitiveFileDeps::from_relation_index`, whichever order its tables are read in. -/
def BuiltFromIndex (index : RelationIndex) (maxDepth : Nat)
    (dependents dependencies : HashMap String (HashSet String)) : Prop :=
  ∃ files edges, files.Perm (TransitiveFileDeps.knownFiles index) ∧
    edges.Perm (TransitiveFileDeps.fileEdges index) ∧
    Propagated maxDepth (TransitiveFileDeps.directTable files (edges.map Prod.swap)) dependents ∧
    Propagated maxDepth (TransitiveFileDeps.directTable files edges) dependencies

/-- `TransitiveFileDeps::from_compact_index`, whichever order its tables are read in. -/
def BuiltFromCompact (maxDepth : Nat)
    (dependents dependencies : HashMap String (HashSet String)) : Prop :=
  ∃ files direct calls,
    files.Perm (compact.fileRecords.keys ++ compact.dependencyForward.keys ++
      compact.dependencyReverse.keys ++ compact.fileRelationIndex.keys) ∧
    direct.Perm (dependencyEdges compact) ∧ calls.Perm (callEdges compact) ∧
    Propagated maxDepth
      (compactTable files (direct.map Prod.swap) (calls.map Prod.swap)) dependents ∧
    Propagated maxDepth (compactTable files direct calls) dependencies

def Built (index : RelationIndex) (maxDepth : Nat)
    (dependents dependencies : HashMap String (HashSet String)) : Prop :=
  BuiltFromIndex index maxDepth dependents dependencies ∨
    BuiltFromCompact (.fromRelationIndex index) maxDepth dependents dependencies

def crossFileNext (index : RelationIndex) : String → List String :=
  neighbours (TransitiveFileDeps.fileEdges index)

/-- Nothing but reached files of another name is known, and all within `2 ^ maxDepth` steps. -/
structure ClosuresWithin (index : RelationIndex) (maxDepth : Nat)
    (dependents dependencies : HashMap String (HashSet String)) : Prop where
  dependencies_sound : ∀ f g, g ∈ dependencies.members f → g ≠ f ∧ Reach (crossFileNext index) f g
  dependencies_near : ∀ n ≤ 2 ^ maxDepth, ∀ f g, Steps (crossFileNext index) n f g → g ≠ f →
    g ∈ dependencies.members f
  dependents_sound : ∀ f g, f ∈ dependents.members g → f ≠ g ∧ Reach (crossFileNext index) f g
  dependents_near : ∀ n ≤ 2 ^ maxDepth, ∀ f g, Steps (crossFileNext index) n f g → f ≠ g →
    f ∈ dependents.members g

def DepthSuffices (index : RelationIndex) (maxDepth : Nat) : Prop :=
  ∀ f g, Reach (crossFileNext index) f g → g ≠ f →
    ∃ n ≤ 2 ^ maxDepth, Steps (crossFileNext index) n f g

variable {index : RelationIndex}

theorem mem_dependencyEdges {f g : String} :
    (f, g) ∈ dependencyEdges (.fromRelationIndex index) ↔
      g ∈ index.dependencyGraph.getDependencies f := by
  rw [← mem_dependencyForward]
  unfold dependencyEdges members
  rw [mem_flatMap]
  constructor
  · rintro ⟨⟨file, set⟩, found, mem⟩
    obtain ⟨dep, known, same⟩ := mem_map.1 mem
    cases same
    rw [mem_toList.1 found]
    exact known
  · intro mem
    cases found : (CompactRelationIndex.fromRelationIndex index).dependencyForward.lookup f with
    | none =>
      rw [found] at mem
      cases mem
    | some set =>
      rw [found] at mem
      exact ⟨(f, set), mem_toList.2 found, mem_map.2 ⟨g, mem, rfl⟩⟩

theorem mem_fileEdges {f g : String} :
    (f, g) ∈ TransitiveFileDeps.fileEdges index ↔ g ∈ index.dependencyGraph.getDependencies f ∨
        (f, g) ∈ callEdges (.fromRelationIndex index) := by
  have flat : ∀ {K V : Type} [DecidableEq K] (table : HashMap K V)
      (pairs : K × V → List (String × String)),
      (f, g) ∈ table.copy.toList.flatMap pairs ↔ (f, g) ∈ table.toList.flatMap pairs := by
    intro K V _ table pairs
    simp only [mem_flatMap, Prod.exists, mem_toList, lookup_copy]
  have direct : (f, g) ∈ (index.dependencyGraph.getAllFiles.flatMap fun file =>
      (index.dependencyGraph.getDependencies file).map fun dep => (file, dep)) ↔
        g ∈ index.dependencyGraph.getDependencies f := by
    rw [mem_flatMap]
    constructor
    · rintro ⟨file, -, mem⟩
      obtain ⟨dep, known, same⟩ := mem_map.1 mem
      cases same
      exact known
    · intro mem
      exact ⟨f, index.dependencyGraph.mem_getAllFiles_of_mem_getDependents
        (FileDependencyGraph.mem_getDependents.2 mem), mem_map.2 ⟨g, mem, rfl⟩⟩
  have files : ∀ id, (CompactRelationIndex.fromRelationIndex index).entityFileIndex.lookup id =
      index.entityFileIndex.lookup id := lookup_copy index.entityFileIndex
  unfold TransitiveFileDeps.fileEdges callEdges
  rw [append_assoc, mem_append, direct, mem_append, mem_append]
  simp only [files]
  exact or_congr_right (or_congr (flat index.fileRelationIndex _).symm
    (flat index.resolvedRelationIndex _).symm)

variable {maxDepth : Nat}

theorem Built.exists_direct
    {dependents deps : HashMap String (HashSet String)}
    (built : Built index maxDepth dependents deps) :
    ∃ before behind, (∀ g f, f ∈ before.members g ↔
        f ∈ neighbours ((TransitiveFileDeps.fileEdges index).map Prod.swap) g) ∧
      (∀ f g, g ∈ behind.members f ↔ g ∈ crossFileNext index f) ∧
      Propagated maxDepth before dependents ∧ Propagated maxDepth behind deps := by
  have turned : ∀ (edges : List (String × String)) (a b : String),
      (a, b) ∈ edges.map Prod.swap ↔ (b, a) ∈ edges := by
    intro edges a b
    simp
  rcases built with ⟨files, edges, -, perm, before, behind⟩ |
    ⟨files, direct, calls, -, permDirect, permCalls, before, behind⟩
  · refine ⟨_, _, fun g f => ?_, fun f g => ?_, before, behind⟩
    · rw [mem_directTable, mem_neighbours, mem_neighbours, turned, turned, perm.mem_iff]
    · rw [mem_directTable, crossFileNext, mem_neighbours, mem_neighbours, perm.mem_iff]
  · have both : ∀ f g, (f, g) ∈ direct ∨ ((f, g) ∈ calls ∧ g ≠ f) ↔
        (f, g) ∈ TransitiveFileDeps.fileEdges index ∧ g ≠ f := by
      intro f g
      rw [permDirect.mem_iff, permCalls.mem_iff, mem_dependencyEdges, mem_fileEdges, or_and_right]
      refine or_congr_left (and_iff_left_of_imp ?_).symm
      rintro mem rfl
      exact index.dependencyGraph.irrefl g mem
    refine ⟨_, _, fun g f => ?_, fun f g => ?_, before, behind⟩
    · rw [mem_compactTable, mem_neighbours, mem_neighbours, turned, turned, turned, ne_comm, both]
    · rw [mem_compactTable, crossFileNext, mem_neighbours, mem_neighbours, both]

theorem Propagated.members_sound {edges : List (String × String)}
    {direct final : HashMap String (HashSet String)}
    (holds : ∀ f g, g ∈ direct.members f ↔ g ∈ neighbours edges f)
    (propagated : Propagated maxDepth direct final) :
    (∀ f g, g ∈ final.members f → g ≠ f ∧ Reach (neighbours edges) f g) ∧
      KnowsWithin (neighbours edges) (2 ^ maxDepth) final := by
  have free : SelfFree direct := fun file mem => (mem_neighbours.1 ((holds file file).1 mem)).2 rfl
  constructor
  · intro f g mem
    refine ⟨?_, ?_⟩
    · rintro rfl
      exact propagated.selfFree free g mem
    · exact propagated.sound (fun a b c => Relation.TransGen.trans) free
        (fun f g mem => .single ((holds f g).1 mem)) f g mem
  · have known : KnowsWithin (neighbours edges) 1 direct := by
      intro n le f g steps ne
      rcases Nat.le_one_iff_eq_zero_or_eq_one.1 le with rfl | rfl
      · exact absurd steps.symm ne
      · obtain ⟨b, rfl, mem⟩ := steps
        exact (holds f g).2 mem
    have far := propagated.knowsWithin free Nat.one_pos known
    rwa [Nat.one_mul] at far

theorem Built.closuresWithin
    {dependents deps : HashMap String (HashSet String)}
    (built : Built index maxDepth dependents deps) :
    ClosuresWithin index maxDepth dependents deps := by
  obtain ⟨before, behind, holdsBefore, holdsBehind, fromBefore, fromBehind⟩ := built.exists_direct
  obtain ⟨sound, near⟩ := fromBehind.members_sound holdsBehind
  obtain ⟨soundBack, nearBack⟩ := fromBefore.members_sound holdsBefore
  exact {
    dependencies_sound := sound
    dependencies_near := near
    dependents_sound := fun f g mem => by
      obtain ⟨ne, reach⟩ := soundBack g f mem
      obtain ⟨n, steps⟩ := reach_iff_steps.1 reach
      exact ⟨ne, reach_iff_steps.2 ⟨n, steps_swap.1 steps⟩⟩
    dependents_near := fun n le f g steps ne => nearBack n le g f (steps_swap.2 steps) ne }

/-- Whatever order the tables are read in, the closures of an index or of its compact copy hold
reached files only, all of them within `2 ^ maxDepth` steps, and where that depth suffices they are
exact, converse to each other and the same for every two builds. -/
theorem closures_exact {index : RelationIndex} {maxDepth : Nat}
    {dependents dependencies : HashMap String (HashSet String)}
    (built : Built index maxDepth dependents dependencies) :
    ClosuresWithin index maxDepth dependents dependencies ∧
      (DepthSuffices index maxDepth →
        (∀ f g, g ∈ dependencies.members f ↔ g ≠ f ∧ Reach (crossFileNext index) f g) ∧
        (∀ f g, f ∈ dependents.members g ↔ g ∈ dependencies.members f) ∧
        ∀ dependents' dependencies', Built index maxDepth dependents' dependencies' →
          ∀ f g, (g ∈ dependencies'.members f ↔ g ∈ dependencies.members f) ∧
            (g ∈ dependents'.members f ↔ g ∈ dependents.members f)) := by
  refine ⟨built.closuresWithin, fun suffices_ => ?_⟩
  have exact_ : ∀ {dependents dependencies : HashMap String (HashSet String)},
      Built index maxDepth dependents dependencies →
        (∀ f g, g ∈ dependencies.members f ↔ g ≠ f ∧ Reach (crossFileNext index) f g) ∧
          ∀ f g, f ∈ dependents.members g ↔ g ≠ f ∧ Reach (crossFileNext index) f g := by
    intro dependents dependencies built
    have within := built.closuresWithin
    refine ⟨fun f g => ⟨within.dependencies_sound f g, ?_⟩, fun f g => ⟨fun mem => ?_, ?_⟩⟩
    · rintro ⟨ne, reach⟩
      obtain ⟨n, le, steps⟩ := suffices_ f g reach ne
      exact within.dependencies_near n le f g steps ne
    · obtain ⟨ne, reach⟩ := within.dependents_sound f g mem
      exact ⟨ne.symm, reach⟩
    · rintro ⟨ne, reach⟩
      obtain ⟨n, le, steps⟩ := suffices_ f g reach ne
      exact within.dependents_near n le f g steps ne.symm
  obtain ⟨behind, before⟩ := exact_ built
  refine ⟨behind, fun f g => (before f g).trans (behind f g).symm, ?_⟩
  intro dependents' dependencies' built' f g
  obtain ⟨behind', before'⟩ := exact_ built'
  exact ⟨(behind' f g).trans (behind f g).symm, (before' g f).trans (before g f).symm⟩

theorem built_fromRelationIndex (index : RelationIndex) (maxDepth : Nat) :
    Built index maxDepth (TransitiveFileDeps.fromRelationIndex index maxDepth).transitiveDependents
      (TransitiveFileDeps.fromRelationIndex index maxDepth).transitiveDependencies :=
  Or.inl ⟨_, _, .refl _, .refl _, propagated_propagate _ _, propagated_propagate _ _⟩

end Closures

section Sample

/-- Two files that need each other. -/
def mutualFiles : RelationIndex :=
  { RelationIndex.new with
    dependencyGraph :=
      (FileDependencyGraph.addDependency ∅ "a.rs" "b.rs").addDependency "b.rs" "a.rs" }

def chainedFiles : RelationIndex :=
  { RelationIndex.new with
    dependencyGraph := ((FileDependencyGraph.addDependency ∅ "a.rs" "b.rs").addDependency
      "b.rs" "c.rs").addDependency "c.rs" "d.rs" }

theorem depthSuffices_mutual : DepthSuffices mutualFiles 10 := by
  have back : ∀ p ∈ TransitiveFileDeps.fileEdges mutualFiles,
      ∀ q ∈ TransitiveFileDeps.fileEdges mutualFiles, p.2 = q.1 → q.2 = p.1 := by decide
  intro f g reach other
  have direct : g = f ∨ g ∈ crossFileNext mutualFiles f := by
    clear other
    induction reach with
    | single mem => exact Or.inr mem
    | tail _ mem ih =>
      rcases ih with rfl | before
      · exact Or.inr mem
      · exact Or.inl (back _ (mem_neighbours.1 before).1 _ (mem_neighbours.1 mem).1 rfl)
  exact ⟨1, by decide, f, rfl, direct.resolve_left other⟩

theorem closures_exact_mutual :
    let deps := TransitiveFileDeps.fromRelationIndex mutualFiles 10
    ClosuresWithin mutualFiles 10 deps.transitiveDependents deps.transitiveDependencies ∧
      ∀ f g, g ∈ deps.transitiveDependencies.members f ↔
        g ≠ f ∧ Reach (crossFileNext mutualFiles) f g :=
  have built := built_fromRelationIndex mutualFiles 10
  ⟨(closures_exact built).1, ((closures_exact built).2 depthSuffices_mutual).1⟩

def chainRound (order : List String) (edges : List (String × String)) :
    HashMap String (HashSet String) :=
  (roundIn order (TransitiveFileDeps.directTable (TransitiveFileDeps.knownFiles chainedFiles)
    edges)).1

/-- A file on a cycle is not in its own closure, and with one round the order of the keys decides
whether the end of the chain is found from its start. -/
theorem closures_not_exact :
    (∃ dependents dependencies, Built mutualFiles 10 dependents dependencies ∧
      Reach (crossFileNext mutualFiles) "a.rs" "a.rs" ∧ "a.rs" ∉ dependencies.members "a.rs") ∧
      ∃ dependents first second, Built chainedFiles 1 dependents first ∧
        Built chainedFiles 1 dependents second ∧
        "d.rs" ∈ first.members "a.rs" ∧ "d.rs" ∉ second.members "a.rs" := by
  constructor
  · refine ⟨_, _, built_fromRelationIndex mutualFiles 10, ?_, by decide⟩
    have there : "b.rs" ∈ crossFileNext mutualFiles "a.rs" := by decide
    have back : "a.rs" ∈ crossFileNext mutualFiles "b.rs" := by decide
    exact (Relation.TransGen.single there).tail back
  · refine ⟨propagate 1 (TransitiveFileDeps.directTable (TransitiveFileDeps.knownFiles chainedFiles)
        ((TransitiveFileDeps.fileEdges chainedFiles).map Prod.swap)),
      chainRound ["d.rs", "c.rs", "b.rs", "a.rs"] (TransitiveFileDeps.fileEdges chainedFiles),
      chainRound ["a.rs", "b.rs", "c.rs", "d.rs"] (TransitiveFileDeps.fileEdges chainedFiles),
      Or.inl ⟨_, _, .refl _, .refl _, propagated_propagate _ _,
        .round ["d.rs", "c.rs", "b.rs", "a.rs"] (by decide) (by decide) (.done _)⟩,
      Or.inl ⟨_, _, .refl _, .refl _, propagated_propagate _ _,
        .round ["a.rs", "b.rs", "c.rs", "d.rs"] (by decide) (by decide) (.done _)⟩,
      by decide, by decide⟩

end Sample

end ContextEngine

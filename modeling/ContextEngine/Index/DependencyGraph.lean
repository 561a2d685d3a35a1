/- digest: The file dependency graph, and when the processing order is found. -/

import ContextEngine.Lib.Kahn
import ContextEngine.Lib.Search

set_option autoImplicit false

namespace ContextEngine

open HashMap List

/-- Forward and reverse adjacency tables of one irreflexive relation on files. -/
structure FileDependencyGraph where
  forwardEdges : HashMap String (HashSet String)
  reverseEdges : HashMap String (HashSet String)
  transposed : ∀ source target,
    target ∈ forwardEdges.members source ↔ source ∈ reverseEdges.members target
  irrefl : ∀ file, file ∉ forwardEdges.members file

namespace FileDependencyGraph

instance : EmptyCollection FileDependencyGraph := ⟨⟨∅, ∅, by simp, by simp⟩⟩

def getDependencies (graph : FileDependencyGraph) (file : String) : List String :=
  graph.forwardEdges.members file

def getDependents (graph : FileDependencyGraph) (file : String) : List String :=
  graph.reverseEdges.members file

/-- Add an edge in both tables; a self-dependency is ignored. -/
def addDependency (graph : FileDependencyGraph) (source target : String) :
    FileDependencyGraph :=
  if loop : source = target then graph
  else if target ∈ graph.forwardEdges.members source then graph
  else
    { forwardEdges := graph.forwardEdges.insertAt source target
      reverseEdges := graph.reverseEdges.insertAt target source
      transposed := by
        intro a b
        rw [HashMap.mem_members_insertAt, HashMap.mem_members_insertAt, graph.transposed]
        tauto
      irrefl := by
        intro file
        rw [HashMap.mem_members_insertAt, not_or]
        refine ⟨?_, graph.irrefl file⟩
        rintro ⟨rfl, same⟩
        exact loop same }

/-- Remove an edge from both tables. -/
def removeDependency (graph : FileDependencyGraph) (source target : String) :
    FileDependencyGraph where
  forwardEdges := graph.forwardEdges.eraseAt source target
  reverseEdges := graph.reverseEdges.eraseAt target source
  transposed := by
    intro a b
    rw [HashMap.mem_members_eraseAt, HashMap.mem_members_eraseAt, graph.transposed]
    tauto
  irrefl := by
    intro file
    rw [HashMap.mem_members_eraseAt]
    exact fun h => graph.irrefl file h.2

def forwardWithout (graph : FileDependencyGraph) (file : String) :
    HashMap String (HashSet String) :=
  let reverse := (graph.forwardEdges.members file).foldl (fun table dep => table.eraseAt dep file)
    graph.reverseEdges
  (reverse.members file).foldl (fun table dependent => table.eraseAt dependent file)
    (graph.forwardEdges.erase file)

def reverseWithout (graph : FileDependencyGraph) (file : String) :
    HashMap String (HashSet String) :=
  ((graph.forwardEdges.members file).foldl (fun table dep => table.eraseAt dep file)
    graph.reverseEdges).erase file

variable {graph : FileDependencyGraph}

private theorem mem_forwardWithout {file source target : String} :
    target ∈ (graph.forwardWithout file).members source ↔
      source ≠ file ∧ target ≠ file ∧ target ∈ graph.forwardEdges.members source := by
  unfold forwardWithout
  simp only [mem_members_foldl_eraseAt, members_erase, ← graph.transposed]
  by_cases same : source = file
  · simp [same]
  · have noLoop := graph.irrefl file
    by_cases hit : target = file
    · subst hit
      simp only [same, if_false, noLoop, false_and, not_false_eq_true, true_and, and_true,
        ne_eq, not_true_eq_false, and_false, iff_false]
      tauto
    · simp [same, hit]

private theorem mem_reverseWithout {file source target : String} :
    source ∈ (graph.reverseWithout file).members target ↔
      source ≠ file ∧ target ≠ file ∧ target ∈ graph.forwardEdges.members source := by
  unfold reverseWithout
  simp only [members_erase]
  by_cases same : target = file
  · simp [same]
  · simp only [same, if_false, mem_members_foldl_eraseAt, ← graph.transposed, ne_eq,
      not_false_eq_true, true_and]
    by_cases hit : source = file
    · subst hit
      simp
    · simp [hit]

def removeFile (graph : FileDependencyGraph) (file : String) : FileDependencyGraph where
  forwardEdges := graph.forwardWithout file
  reverseEdges := graph.reverseWithout file
  transposed := by
    intro source target
    rw [mem_forwardWithout, mem_reverseWithout]
  irrefl := by
    intro source
    rw [mem_forwardWithout]
    exact fun h => graph.irrefl source h.2.2

/-- Every file that occurs at either end of an edge. -/
def getAllFiles (graph : FileDependencyGraph) : List String :=
  ((graph.forwardEdges.toList ++ graph.reverseEdges.toList).flatMap
    fun entry => entry.1 :: entry.2.toList).dedup

def collectTransitiveDependents (graph : FileDependencyGraph) (file : String) (maxDepth : Nat) :
    List String :=
  Search.collectTransitive graph.getDependents maxDepth (graph.getAllFiles.length + 1) file

def collectTransitiveDependencies (graph : FileDependencyGraph) (file : String)
    (maxDepth : Nat) : List String :=
  Search.collectTransitive graph.getDependencies maxDepth (graph.getAllFiles.length + 1) file

@[simp] theorem getDependencies_empty (file : String) :
    (∅ : FileDependencyGraph).getDependencies file = [] := rfl

theorem mem_getDependents {source target : String} :
    source ∈ graph.getDependents target ↔ target ∈ graph.getDependencies source :=
  (graph.transposed source target).symm

theorem mem_getDependencies_addDependency {source target a b : String} :
    b ∈ (graph.addDependency source target).getDependencies a ↔
      (a = source ∧ b = target ∧ source ≠ target) ∨ b ∈ graph.getDependencies a := by
  unfold addDependency getDependencies
  split_ifs with loop present
  · simp [loop]
  · constructor
    · exact Or.inr
    · rintro (⟨rfl, rfl, _⟩ | mem)
      · exact present
      · exact mem
  · rw [mem_members_insertAt]
    tauto

theorem mem_foldl_addDependency {own source target : String} {targets : List String} :
    target ∈ (targets.foldl (fun graph target => graph.addDependency own target)
        graph).getDependencies source ↔
      (source = own ∧ target ∈ targets ∧ source ≠ target) ∨
        target ∈ graph.getDependencies source := by
  rw [foldl_iff_or (fun graph => target ∈ getDependencies graph source)
    fun graph added => @mem_getDependencies_addDependency graph own added source target]
  refine or_congr_left ⟨?_, ?_⟩
  · rintro ⟨_, mem, rfl, rfl, distinct⟩
    exact ⟨rfl, mem, distinct⟩
  · rintro ⟨rfl, mem, distinct⟩
    exact ⟨target, mem, rfl, rfl, distinct⟩

theorem mem_getDependencies_removeDependency {source target a b : String} :
    b ∈ (graph.removeDependency source target).getDependencies a ↔
      ¬(a = source ∧ b = target) ∧ b ∈ graph.getDependencies a :=
  mem_members_eraseAt

theorem mem_getDependencies_removeFile {file a b : String} :
    b ∈ (graph.removeFile file).getDependencies a ↔
      a ≠ file ∧ b ≠ file ∧ b ∈ graph.getDependencies a :=
  mem_forwardWithout

end FileDependencyGraph

inductive DependencyGraphError where
  | cycleDetected (message : String)
  | fileNotFound (message : String)
  | invalidOperation (message : String)
  deriving DecidableEq

namespace FileDependencyGraph

variable (graph : FileDependencyGraph) (files : List String)

def subgraphEdges : List (String × String) :=
  files.flatMap fun file =>
    ((graph.getDependencies file).filter fun dep => dep ∈ files).map fun dep => (dep, file)

/-- The in-degrees and the dependents of the listed files. -/
def subgraph : Kahn.Counts String :=
  (graph.subgraphEdges files).foldl (fun counts edge => counts.addEdge edge.1 edge.2)
    (.ofNodes files)

def withoutDependencies : List String :=
  ((graph.subgraph files).inDegree.toList.filter fun entry => entry.2 = 0).map Prod.fst

/-- The sort of a list of files, where the files of in-degree 0 come in the given order. None when
the rounds do not end. -/
def topologicalSort (queue : List String) : Option (Except DependencyGraphError (List String)) :=
  if files.isEmpty then some (.ok [])
  else
    let counts := graph.subgraph files
    (Loops.run (Kahn.round counts.adjacency.bucket) (files.length + 1)
      ⟨queue, counts.inDegree, []⟩).map fun result =>
        if result.length ≠ files.length then
          let remaining := files.filter fun file => file ∉ result
          .error (.cycleDetected ("Files involved in cycle: " ++ String.intercalate ", " remaining))
        else .ok result

/-- A listed file depends on itself through listed files. -/
def CycleWithin : Prop :=
  ∃ file, Relation.TransGen
    (fun source target => source ∈ files ∧ target ∈ files ∧ target ∈ graph.getDependencies source)
    file file

/-- In whatever order the in-degrees are iterated, the sort ends: with every listed file once and
behind its dependencies where there is no cycle, and with the error where there is one. -/
def SortsExactly : Prop :=
  ∀ queue, queue.Perm (graph.withoutDependencies files) →
    ∃ answer, graph.topologicalSort files queue = some answer ∧
      ((∃ sorted, answer = .ok sorted) ↔ ¬ graph.CycleWithin files) ∧
      (∀ sorted, answer = .ok sorted → sorted.Nodup ∧ (∀ file, file ∈ sorted ↔ file ∈ files) ∧
        ∀ file ∈ files, ∀ dep ∈ files, dep ∈ graph.getDependencies file →
          sorted.idxOf dep < sorted.idxOf file) ∧
      (graph.CycleWithin files → ∃ message, answer = .error (.cycleDetected message))

section Subgraph

variable {graph : FileDependencyGraph} {files : List String}

theorem mem_subgraphEdges {edge : String × String} :
    edge ∈ graph.subgraphEdges files ↔
      edge.1 ∈ files ∧ edge.2 ∈ files ∧ edge.1 ∈ graph.getDependencies edge.2 := by
  rw [subgraphEdges, mem_flatMap]
  constructor
  · rintro ⟨file, mem, listed⟩
    obtain ⟨dep, depMem, rfl⟩ := mem_map.1 listed
    rw [mem_filter, decide_eq_true_iff] at depMem
    exact ⟨depMem.2, mem, depMem.1⟩
  · rintro ⟨source, target, depends⟩
    exact ⟨edge.2, target, mem_map.2 ⟨edge.1, mem_filter.2 ⟨depends, decide_eq_true source⟩, rfl⟩⟩

theorem mem_adjacency {source target : String} :
    target ∈ (graph.subgraph files).adjacency.bucket source ↔
      source ∈ files ∧ target ∈ files ∧ source ∈ graph.getDependencies target := by
  refine Iff.trans (foldl_iff_or
    (fun counts => target ∈ bucket (Kahn.Counts.adjacency counts) source)
    (fun counts edge => @Kahn.Counts.mem_addEdge _ _ counts edge.1 edge.2 source target) _ _) ?_
  rw [(Kahn.Counts.lookup_ofNodes files source).2, or_iff_left not_mem_nil]
  constructor
  · rintro ⟨_, mem, rfl, rfl⟩
    exact mem_subgraphEdges.1 mem
  · exact fun within => ⟨(source, target), mem_subgraphEdges.2 within, rfl, rfl⟩

theorem balanced_subgraph : (graph.subgraph files).Balanced files.dedup := by
  refine foldlRecOn (motive := fun counts => Kahn.Counts.Balanced counts files.dedup) _ _
    (Kahn.Counts.balanced_ofNodes files fun file mem => mem_dedup.1 mem) ?_
  intro counts balanced edge mem
  exact balanced.addEdge (nodup_dedup files) (mem_dedup.2 (mem_subgraphEdges.1 mem).1)

theorem mem_of_lookup_inDegree {file : String} {degree : Nat}
    (counted : (graph.subgraph files).inDegree.lookup file = some degree) : file ∈ files := by
  refine foldlRecOn (motive := fun counts : Kahn.Counts String =>
    ∀ degree, counts.inDegree.lookup file = some degree → file ∈ files) _ _ ?_ ?_ degree counted
  · intro degree found
    rw [(Kahn.Counts.lookup_ofNodes files file).1] at found
    split_ifs at found with mem
    exact mem
  · intro counts start edge mem degree found
    change (alter counts.inDegree edge.2 _).lookup file = some degree at found
    rw [lookup_alter] at found
    split_ifs at found with same
    · rw [same]
      exact (mem_subgraphEdges.1 mem).2.1
    · exact start degree found

theorem mem_withoutDependencies {file : String} :
    file ∈ graph.withoutDependencies files ↔
      file ∈ files.dedup ∧ (graph.subgraph files).inDegree.lookup file = some 0 := by
  rw [withoutDependencies, mem_map]
  constructor
  · rintro ⟨entry, listed, rfl⟩
    obtain ⟨mem, zero⟩ := mem_filter.1 listed
    have found := mem_toList.1 mem
    rw [of_decide_eq_true zero] at found
    exact ⟨mem_dedup.2 (mem_of_lookup_inDegree found), found⟩
  · rintro ⟨-, found⟩
    exact ⟨(file, 0), mem_filter.2 ⟨mem_toList.2 found, rfl⟩, rfl⟩

theorem nodup_withoutDependencies : (graph.withoutDependencies files).Nodup := by
  have keys : ((graph.subgraph files).inDegree.toList.map Prod.fst).Nodup := by
    rw [map_fst_toList]
    exact (graph.subgraph files).inDegree.nodupKeys
  exact keys.sublist (filter_sublist.map _)

theorem exists_order {queue : List String} (perm : queue.Perm (graph.withoutDependencies files)) :
    ∃ final : Kahn.State String,
      Loops.run (Kahn.round (graph.subgraph files).adjacency.bucket) (files.length + 1)
        ⟨queue, (graph.subgraph files).inDegree, []⟩ = some final.order ∧ final.queue = [] ∧
      Kahn.Inv (graph.subgraph files).adjacency.bucket files.dedup final := by
  have start := Kahn.inv_start balanced_subgraph (perm.nodup_iff.2 nodup_withoutDependencies)
    fun file => perm.mem_iff.trans mem_withoutDependencies
  refine Kahn.exists_order (nodup_dedup files) ?_ start ?_
  · intro source _ target edge
    exact mem_dedup.2 (mem_adjacency.1 edge).2.1
  · have shorter := (dedup_sublist files).length_le
    show files.dedup.length < 0 + (files.length + 1)
    omega

theorem cycleWithin_iff : graph.CycleWithin files ↔ ∃ file, Relation.TransGen
    (Kahn.Edge (graph.subgraph files).adjacency.bucket files.dedup) file file := by
  have edges : Kahn.Edge (graph.subgraph files).adjacency.bucket files.dedup =
      Function.swap fun source target =>
        source ∈ files ∧ target ∈ files ∧ target ∈ graph.getDependencies source := by
    funext source target
    refine propext ?_
    show Kahn.Edge _ _ source target ↔
      target ∈ files ∧ source ∈ files ∧ source ∈ graph.getDependencies target
    rw [Kahn.Edge, mem_dedup, mem_dedup, mem_adjacency]
    tauto
  rw [CycleWithin, edges]
  exact exists_congr fun file => Relation.transGen_swap.symm

theorem topologicalSort_eq {queue : List String}
    (perm : queue.Perm (graph.withoutDependencies files)) :
    ∃ final : Kahn.State String, final.queue = [] ∧
      Kahn.Inv (graph.subgraph files).adjacency.bucket files.dedup final ∧
      graph.topologicalSort files queue = some (if final.order.length ≠ files.length then
          .error (.cycleDetected ("Files involved in cycle: " ++
            String.intercalate ", " (files.filter fun file => file ∉ final.order)))
        else .ok final.order) := by
  obtain ⟨final, returned, idle, inv⟩ := exists_order perm
  refine ⟨final, idle, inv, ?_⟩
  rw [topologicalSort]
  by_cases empty : files.isEmpty = true
  · have none : files = [] := isEmpty_iff.1 empty
    have order : final.order = [] := by
      have short := inv.length_le
      rw [none] at short
      exact length_eq_zero_iff.1 (Nat.le_zero.1 short)
    rw [if_pos empty, order, none]
    rfl
  · rw [if_neg empty]
    dsimp only
    rw [returned, Option.map_some]

variable {final : Kahn.State String}

theorem order_subset
    (inv : Kahn.Inv (graph.subgraph files).adjacency.bucket files.dedup final) :
    final.order ⊆ files.dedup := fun file mem =>
  ((inv.ready file).1 (mem_append_left _ mem)).1

theorem dedup_subset_iff (idle : final.queue = [])
    (inv : Kahn.Inv (graph.subgraph files).adjacency.bucket files.dedup final) :
    files.dedup ⊆ final.order ↔ ¬ graph.CycleWithin files := by
  rw [cycleWithin_iff]
  constructor
  · rintro all ⟨file, cycle⟩
    have mem : file ∈ files.dedup := by
      cases cycle with
      | single edge => exact edge.1
      | tail _ edge => exact edge.2.1
    exact inv.not_cyclic (all mem) cycle
  · intro acyclic file mem
    exact inv.mem_order idle (fun a cycle => acyclic ⟨a, cycle⟩) mem

theorem length_order_iff (idle : final.queue = [])
    (inv : Kahn.Inv (graph.subgraph files).adjacency.bucket files.dedup final) :
    final.order.length = files.length ↔ files.Nodup ∧ ¬ graph.CycleWithin files := by
  have distinct := List.Nodup.of_append_left inv.distinct
  have bound := inv.length_le
  have shorter := (dedup_sublist files).length_le
  rw [← dedup_subset_iff idle inv]
  constructor
  · intro same
    have nodup : files.dedup = files := (dedup_sublist files).eq_of_length (by omega)
    have perm : final.order.Perm files.dedup :=
      (subperm_of_subset distinct (order_subset inv)).perm_of_length_le (by omega)
    exact ⟨dedup_eq_self.1 nodup, perm.symm.subset⟩
  · rintro ⟨nodup, all⟩
    have longer := (nodup_dedup files).length_le_of_subset all
    rw [dedup_eq_self.2 nodup] at longer
    omega

end Subgraph

/-- The sort is exact if and only if no file is listed twice or there is a cycle: where files are
listed twice, the error comes without a cycle. -/
theorem sortsExactly_iff (graph : FileDependencyGraph) (files : List String) :
    graph.SortsExactly files ↔ files.Nodup ∨ graph.CycleWithin files := by
  constructor
  · intro exact_
    obtain ⟨final, idle, inv, answered⟩ :=
      topologicalSort_eq (.refl (graph.withoutDependencies files))
    obtain ⟨answer, returned, succeeds, -, -⟩ := exact_ _ (.refl _)
    by_contra fails
    obtain ⟨repeated, acyclic⟩ := not_or.1 fails
    obtain ⟨sorted, rfl⟩ := succeeds.2 acyclic
    have short : final.order.length ≠ files.length := fun same =>
      repeated ((length_order_iff idle inv).1 same).1
    rw [answered, if_pos short] at returned
    cases returned
  · intro allowed queue perm
    obtain ⟨final, idle, inv, answered⟩ := topologicalSort_eq perm
    have all := dedup_subset_iff idle inv
    refine ⟨_, answered, ?_⟩
    by_cases cyclic : graph.CycleWithin files
    · have short : final.order.length ≠ files.length := fun same =>
        ((length_order_iff idle inv).1 same).2 cyclic
      rw [if_pos short]
      refine ⟨⟨?_, fun acyclic => absurd cyclic acyclic⟩, ?_, fun _ => ⟨_, rfl⟩⟩
      · rintro ⟨_, failed⟩
        cases failed
      · intro _ failed
        cases failed
    · have once : files.Nodup := allowed.resolve_right cyclic
      rw [if_neg (not_not.2 ((length_order_iff idle inv).2 ⟨once, cyclic⟩))]
      refine ⟨⟨fun _ => cyclic, fun _ => ⟨_, rfl⟩⟩, ?_, fun cycle => absurd cycle cyclic⟩
      rintro _ ⟨rfl⟩
      have listed : ∀ file, file ∈ final.order ↔ file ∈ files := fun file =>
        ⟨fun mem => mem_dedup.1 (order_subset inv mem),
          fun mem => all.2 cyclic (mem_dedup.2 mem)⟩
      refine ⟨List.Nodup.of_append_left inv.distinct, listed, ?_⟩
      intro file fileMem dep depMem edge
      exact (inv.idxOf_lt ⟨mem_dedup.2 depMem, mem_dedup.2 fileMem,
        mem_adjacency.2 ⟨depMem, fileMem, edge⟩⟩ ((listed file).2 fileMem)).2

/-- A file that is listed twice is reported as a cycle of no files. -/
theorem repeatedFile_cycleDetected :
    (∅ : FileDependencyGraph).topologicalSort ["a.rs", "a.rs"]
        ((∅ : FileDependencyGraph).withoutDependencies ["a.rs", "a.rs"]) =
      some (.error (.cycleDetected "Files involved in cycle: ")) ∧
    ¬ (∅ : FileDependencyGraph).SortsExactly ["a.rs", "a.rs"] := by
  have answered : (∅ : FileDependencyGraph).topologicalSort ["a.rs", "a.rs"]
      ((∅ : FileDependencyGraph).withoutDependencies ["a.rs", "a.rs"]) =
      some (.error (.cycleDetected "Files involved in cycle: ")) := by
    decide +kernel
  have acyclic : ¬ (∅ : FileDependencyGraph).CycleWithin ["a.rs", "a.rs"] := by
    rintro ⟨file, cycle⟩
    cases cycle with
    | single edge => cases edge.2.2
    | tail _ edge => cases edge.2.2
  refine ⟨answered, fun exact_ => ?_⟩
  obtain ⟨answer, returned, succeeds, -, -⟩ := exact_ _ (.refl _)
  obtain ⟨sorted, rfl⟩ := succeeds.2 acyclic
  rw [answered] at returned
  cases returned

end FileDependencyGraph

end ContextEngine

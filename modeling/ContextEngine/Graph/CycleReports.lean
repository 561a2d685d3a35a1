/- digest: The two directions of the file graph, its traversals, and which of its cycles are found.
   -/

import Mathlib.Data.List.TakeWhile
import ContextEngine.Index.DependencyGraph
import ContextEngine.Lib.DepthFirst

set_option autoImplicit false

namespace ContextEngine

open List DepthFirst Search

namespace FileDependencyGraph

section Runs

inductive GraphOp where
  | addDependency (source target : String)
  | removeDependency (source target : String)
  | removeFile (file : String)
  deriving DecidableEq

def applyOp (graph : FileDependencyGraph) : GraphOp → FileDependencyGraph
  | .addDependency source target => graph.addDependency source target
  | .removeDependency source target => graph.removeDependency source target
  | .removeFile file => graph.removeFile file

/-- The graph after a sequence of mutations of the empty graph. -/
def run (ops : List GraphOp) : FileDependencyGraph := ops.foldl applyOp ∅

/-- Neither table keeps an entry for a file without neighbours. -/
structure NoBareEntries (graph : FileDependencyGraph) : Prop where
  forward : graph.forwardEdges.NoBareEntry
  reverse : graph.reverseEdges.NoBareEntry

theorem NoBareEntries.applyOp {graph : FileDependencyGraph} (full : graph.NoBareEntries)
    (op : GraphOp) : (graph.applyOp op).NoBareEntries := by
  cases op with
  | addDependency source target =>
    change (graph.addDependency source target).NoBareEntries
    unfold addDependency
    split_ifs
    · exact full
    · exact full
    · exact ⟨full.forward.insertAt source target, full.reverse.insertAt target source⟩
  | removeDependency source target =>
    exact ⟨full.forward.eraseAt source target, full.reverse.eraseAt target source⟩
  | removeFile file =>
    exact ⟨(full.forward.erase file).foldl_eraseAt _ file,
      (full.reverse.foldl_eraseAt _ file).erase file⟩

theorem noBareEntries_run (ops : List GraphOp) : (run ops).NoBareEntries := by
  have steps : ∀ (ops : List GraphOp) (graph : FileDependencyGraph), graph.NoBareEntries →
      (ops.foldl FileDependencyGraph.applyOp graph).NoBareEntries := by
    intro ops
    induction ops with
    | nil => exact fun _ full => full
    | cons op ops ih => exact fun graph full => ih _ (full.applyOp op)
  exact steps ops ∅ ⟨.empty, .empty⟩

/-- No entry for a file and no edge from or to it. -/
structure NoTraceOf (graph : FileDependencyGraph) (file : String) : Prop where
  forward : graph.forwardEdges.lookup file = none
  reverse : graph.reverseEdges.lookup file = none
  target : ∀ other, file ∉ graph.getDependencies other
  source : ∀ other, file ∉ graph.getDependents other

theorem noTraceOf_removeFile {graph : FileDependencyGraph} (full : graph.NoBareEntries)
    (file : String) : (graph.removeFile file).NoTraceOf file := by
  have kept : (graph.removeFile file).NoBareEntries := full.applyOp (.removeFile file)
  have noSource : ∀ other, other ∉ (graph.removeFile file).getDependencies file := fun other mem =>
    (mem_getDependencies_removeFile.1 mem).1 rfl
  have noTarget : ∀ other, file ∉ (graph.removeFile file).getDependencies other :=
    fun other mem => (mem_getDependencies_removeFile.1 mem).2.1 rfl
  refine ⟨kept.forward.lookup_eq_none ?_, kept.reverse.lookup_eq_none ?_, noTarget,
    fun other mem => noSource other (mem_getDependents.1 mem)⟩
  · exact eq_nil_iff_forall_not_mem.2 noSource
  · exact eq_nil_iff_forall_not_mem.2 fun other mem =>
      noTarget other (mem_getDependents.1 mem)

end Runs

section Traversal

variable (graph : FileDependencyGraph)

theorem mem_getAllFiles_of_mem_getDependencies {source target : String}
    (edge : target ∈ graph.getDependencies source) : target ∈ graph.getAllFiles := by
  obtain ⟨set, found, mem⟩ := HashMap.mem_members.1 edge
  rw [getAllFiles, mem_dedup, mem_flatMap]
  exact ⟨(source, set), mem_append_left _ (HashMap.mem_toList.2 found), mem_cons_of_mem _ mem⟩

theorem mem_getAllFiles_of_mem_getDependents {source target : String}
    (edge : source ∈ graph.getDependents target) : source ∈ graph.getAllFiles := by
  obtain ⟨set, found, mem⟩ := HashMap.mem_members.1 edge
  rw [getAllFiles, mem_dedup, mem_flatMap]
  exact ⟨(target, set), mem_append_right _ (HashMap.mem_toList.2 found), mem_cons_of_mem _ mem⟩

variable {file other : String} {maxDepth : Nat}

theorem mem_collectTransitiveDependents :
    other ∈ graph.collectTransitiveDependents file maxDepth ↔
      ∃ n, 1 ≤ n ∧ Admitted maxDepth n ∧ Steps graph.getDependents n file other :=
  mem_collectTransitive (fun _ _ edge => graph.mem_getAllFiles_of_mem_getDependents edge)
    (Nat.lt_succ_self _)

theorem mem_collectTransitiveDependencies :
    other ∈ graph.collectTransitiveDependencies file maxDepth ↔
      ∃ n, 1 ≤ n ∧ Admitted maxDepth n ∧ Steps graph.getDependencies n file other :=
  mem_collectTransitive (fun _ _ edge => graph.mem_getAllFiles_of_mem_getDependencies edge)
    (Nat.lt_succ_self _)

/-- At a distance of at least one that a bound of zero leaves unlimited. -/
def WithinDepth (next : String → List String) (maxDepth : Nat) (file other : String) : Prop :=
  ∃ n, 1 ≤ n ∧ Admitted maxDepth n ∧ AtDistance next n file other

private theorem withinDepth_iff {next : String → List String} (distinct : other ≠ file) :
    WithinDepth next maxDepth file other ↔
      ∃ n, 1 ≤ n ∧ Admitted maxDepth n ∧ Steps next n file other := by
  constructor
  · rintro ⟨n, positive, admitted, path, -⟩
    exact ⟨n, positive, admitted, path⟩
  · rintro ⟨n, -, admitted, path⟩
    obtain ⟨m, le, atDistance⟩ := path.exists_atDistance
    refine ⟨m, Nat.one_le_iff_ne_zero.2 ?_, admitted.imp_right (Nat.le_trans le), atDistance⟩
    rintro rfl
    exact distinct atDistance.1.symm

/-- The two directions are transposes, no file is left with a bare entry or after its removal
with any trace, and both traversals report the other files within the depth, each once. -/
structure DirectionsExact : Prop where
  transposed : ∀ source target,
    target ∈ graph.getDependencies source ↔ source ∈ graph.getDependents target
  full : graph.NoBareEntries
  removed : ∀ file, (graph.removeFile file).NoTraceOf file
  dependents : ∀ file maxDepth other, other ≠ file →
    (other ∈ graph.collectTransitiveDependents file maxDepth ↔
      WithinDepth graph.getDependents maxDepth file other)
  dependencies : ∀ file maxDepth other, other ≠ file →
    (other ∈ graph.collectTransitiveDependencies file maxDepth ↔
      WithinDepth graph.getDependencies maxDepth file other)
  dependents_once : ∀ file maxDepth, (graph.collectTransitiveDependents file maxDepth).Nodup
  dependencies_once : ∀ file maxDepth, (graph.collectTransitiveDependencies file maxDepth).Nodup

/-- Every graph that a sequence of mutations builds is exact in both directions. -/
theorem directionsExact_run (ops : List GraphOp) : DirectionsExact (run ops) where
  transposed source target := (run ops).transposed source target
  full := noBareEntries_run ops
  removed file := noTraceOf_removeFile (noBareEntries_run ops) file
  dependents file maxDepth other distinct := by
    rw [mem_collectTransitiveDependents, withinDepth_iff distinct]
  dependencies file maxDepth other distinct := by
    rw [mem_collectTransitiveDependencies, withinDepth_iff distinct]
  dependents_once file maxDepth := nodup_collectTransitive _ _ _ _
  dependencies_once file maxDepth := nodup_collectTransitive _ _ _ _

end Traversal

section Sample

/-- A depth of zero is no bound: the traversal reports a file although no distance lies between
one and zero. -/
theorem zeroDepth_unlimited :
    ¬∀ other, other ∈ (run [.addDependency "src/a.rs" "src/b.rs"]).collectTransitiveDependencies
        "src/a.rs" 0 ↔
      other ≠ "src/a.rs" ∧ ∃ n, 1 ≤ n ∧ n ≤ 0 ∧
        AtDistance (run [.addDependency "src/a.rs" "src/b.rs"]).getDependencies n
          "src/a.rs" other := by
  intro directions
  obtain ⟨-, n, positive, none, -⟩ := (directions "src/b.rs").1 (by decide)
  omega

end Sample

section Searches

variable {α : Type} [DecidableEq α]

def scanDependencies (dfs : α → HashSet α × HashSet α → Option (Bool × HashSet α × HashSet α)) :
    List α → HashSet α × HashSet α → Option (Bool × HashSet α × HashSet α)
  | [], state => some (false, state)
  | dep :: deps, state =>
    if dep ∉ state.1 then
      (dfs dep state).bind fun result =>
        if result.1 then some result else scanDependencies dfs deps result.2
    else if dep ∈ state.2 then some (true, state)
    else scanDependencies dfs deps state

/-- The visited files and the recursion stack go along; none when the recursion is too deep. -/
def hasCycleDfs (next : α → List α) :
    Nat → α → HashSet α × HashSet α → Option (Bool × HashSet α × HashSet α)
  | 0, _, _ => none
  | depth + 1, file, state =>
    (scanDependencies (hasCycleDfs next depth) (next file)
        (state.1.insert file, state.2.insert file)).map fun result =>
      if result.1 then result else (false, result.2.1, result.2.2.erase file)

def hasCycleFrom (next : α → List α) (depth : Nat) : List α → HashSet α × HashSet α → Option Bool
  | [], _ => some false
  | file :: files, state =>
    (hasCycleDfs next depth file state).bind fun result =>
      if result.1 then some true else hasCycleFrom next depth files result.2

/-- The visited files and the cycles found so far go along. -/
def findCyclesDfs (next : α → List α) :
    Nat → List α → α → HashSet α × List (List α) → Option (HashSet α × List (List α))
  | 0, _, _, _ => none
  | depth + 1, path, file, state =>
    if file ∈ path then some (state.1, state.2 ++ [path.dropWhile fun f => f ≠ file])
    else if file ∈ state.1 then some state
    else
      ((next file).foldlM (fun state dep => findCyclesDfs next depth (path ++ [file]) dep state)
        state).map fun result => (result.1.insert file, result.2)

def findCyclesFrom (next : α → List α) (depth : Nat) (files : List α) :
    Option (HashSet α × List (List α)) :=
  files.foldlM
    (fun state file =>
      if file ∈ state.1 then some state else findCyclesDfs next depth [] file state)
    (∅, [])

variable {next : α → List α} {nodes path candidates : List α}

def outside (nodes : List α) (others : List α) : Nat := (nodes.filter fun x => x ∉ others).length

omit [DecidableEq α] in
theorem length_filter_lt {p q : α → Bool} {l : List α} (implies : ∀ x ∈ l, q x = true → p x = true)
    {a : α} (mem : a ∈ l) (passes : p a = true) (fails : q a = false) :
    (l.filter q).length < (l.filter p).length := by
  induction l with
  | nil => cases mem
  | cons b l ih =>
    have le : (l.filter q).length ≤ (l.filter p).length := by
      rw [← countP_eq_length_filter, ← countP_eq_length_filter]
      exact countP_mono_left fun x mem => implies x (mem_cons_of_mem _ mem)
    by_cases same : b = a
    · subst same
      rw [filter_cons_of_pos passes, filter_cons_of_neg (by simp [fails])]
      exact Nat.lt_succ_of_le le
    · have later := ih (fun x mem => implies x (mem_cons_of_mem _ mem))
        ((mem_cons.1 mem).resolve_left fun here => same here.symm)
      by_cases taken : q b = true
      · rw [filter_cons_of_pos taken, filter_cons_of_pos (implies b mem_cons_self taken)]
        exact Nat.succ_lt_succ later
      · rw [filter_cons_of_neg taken, filter_cons]
        split_ifs
        · exact Nat.lt_succ_of_lt later
        · exact later

theorem outside_lt {others more : List α} {a : α} (mem : a ∈ nodes) (notMem : a ∉ others)
    (added : a ∈ more) (grows : ∀ x ∈ others, x ∈ more) :
    outside nodes more < outside nodes others :=
  length_filter_lt (fun x _ away => by
    simp only [decide_eq_true_eq] at away ⊢
    exact fun known => away (grows x known)) mem (by simpa using notMem) (by simpa using added)

/-- The cycles that are listed below a path: the rest of the path from a candidate on it, and the
rest of a direct path from a file that its end depends on. -/
def ListedBelow (next : α → List α) (path candidates : List α) (visited : α → Prop)
    (cycle : List α) : Prop :=
  (∃ d ∈ candidates, d ∈ path ∧ cycle = path.dropWhile fun f => f ≠ d) ∨
    ∃ u p w, ¬visited u ∧ DirectPath next u path candidates p ∧ w ∈ next u ∧ w ∈ path ++ p ∧
      cycle = (path ++ p).dropWhile fun f => f ≠ w

def Lists (next : α → List α) (path candidates : List α) (state : HashSet α × List (List α))
    (outcome : Option (HashSet α × List (List α))) : Prop :=
  ∃ visited listed, outcome = some (visited, state.2 ++ listed) ∧
    (∀ x, x ∈ visited ↔ x ∈ state.1 ∨ ∃ d ∈ candidates, ReachAvoiding next path d x) ∧
    ∀ cycle, cycle ∈ listed ↔ ListedBelow next path candidates (· ∈ state.1) cycle

variable {depth : Nat} {file : α}

theorem lists_findCyclesDfs {state : HashSet α × List (List α)}
    (closed : ClosedUpTo next path (· ∈ state.1))
    (below : file ∉ path → Lists next (path ++ [file]) (next file) state
      ((next file).foldlM (fun state dep => findCyclesDfs next depth (path ++ [file]) dep state)
        state)) :
    Lists next path [file] state (findCyclesDfs next (depth + 1) path file state) := by
  rw [findCyclesDfs]
  split_ifs with on known
  · -- the file is on the path, so nothing is reached and one cycle is found
    have unreached : ∀ x, ¬ReachAvoiding next path file x := fun x reach => reach.1 on
    refine ⟨state.1, [path.dropWhile fun f => f ≠ file], rfl, fun x => ?_, fun cycle => ?_⟩
    · simp [unreached]
    · rw [mem_singleton]
      constructor
      · rintro rfl
        exact Or.inl ⟨file, mem_singleton_self file, on, rfl⟩
      · rintro (⟨d, mem, -, rfl⟩ | ⟨u, p, w, -, direct, -⟩)
        · rw [mem_singleton.1 mem]
        · obtain ⟨d, mem, reach⟩ := direct.reaches
          rw [mem_singleton.1 mem] at reach
          exact absurd reach (unreached u)
  · refine ⟨state.1, [], by simp, fun x => ?_, fun cycle => ?_⟩
    · refine ⟨Or.inl, ?_⟩
      rintro (mem | ⟨d, mem, reach⟩)
      · exact mem
      · rw [mem_singleton.1 mem] at reach
        exact closed.reaches known reach
    · refine iff_of_false not_mem_nil ?_
      rintro (⟨d, mem, here, -⟩ | ⟨u, p, w, fresh, direct, -⟩)
      · rw [mem_singleton.1 mem] at here
        exact on here
      · obtain ⟨d, mem, reach⟩ := direct.reaches
        rw [mem_singleton.1 mem] at reach
        exact fresh (closed.reaches known reach)
  · obtain ⟨visited, listed, outcome, visits, lists⟩ := below on
    refine ⟨visited.insert file, listed, by rw [outcome]; rfl, fun x => ?_, fun cycle => ?_⟩
    · rw [HashSet.mem_insert, visits]
      simp only [mem_singleton, exists_eq_left]
      rw [reachAvoiding_iff_of_notMem on]
      tauto
    · rw [lists]
      constructor
      · rintro (⟨d, mem, here, rfl⟩ | ⟨u, p, w, fresh, direct, step, here, rfl⟩)
        · exact Or.inr ⟨file, [file], d, known, .here on, mem, here, rfl⟩
        · refine Or.inr ⟨u, file :: p, w, fresh, .child on direct, step, ?_, ?_⟩
          · simpa using here
          · simp
      · rintro (⟨d, mem, here, -⟩ | ⟨u, p, w, fresh, direct, step, here, rfl⟩)
        · rw [mem_singleton.1 mem] at here
          exact absurd here on
        · cases direct with
          | here avoids => exact Or.inl ⟨w, step, here, rfl⟩
          | child avoids direct =>
            exact Or.inr ⟨u, _, w, fresh, direct, step, by simpa using here, by simp⟩
          | later unreached direct =>
            obtain ⟨d, mem, -⟩ := direct.reaches
            cases mem

theorem lists_cons {state : HashSet α × List (List α)}
    {dfs : α → HashSet α × List (List α) → Option (HashSet α × List (List α))}
    (first : Lists next path [file] state (dfs file state))
    (rest : ∀ state', (∀ x, x ∈ state'.1 ↔ x ∈ state.1 ∨ ReachAvoiding next path file x) →
      Lists next path candidates state'
        (candidates.foldlM (fun state dep => dfs dep state) state')) :
    Lists next path (file :: candidates) state
      ((file :: candidates).foldlM (fun state dep => dfs dep state) state) := by
  obtain ⟨visited, listed, outcome, visits, lists⟩ := first
  simp only [mem_singleton, exists_eq_left] at visits
  obtain ⟨visited', listed', outcome', visits', lists'⟩ := rest (visited, state.2 ++ listed) visits
  refine ⟨visited', listed ++ listed', ?_, fun x => ?_, fun cycle => ?_⟩
  · rw [foldlM_cons, outcome, ← append_assoc]
    exact outcome'
  · rw [visits', visits]
    simp only [mem_cons, exists_eq_or_imp, or_assoc]
  · rw [mem_append, lists, lists']
    constructor
    · rintro ((⟨d, mem, here, rfl⟩ | ⟨u, p, w, fresh, direct, more⟩) |
        (⟨d, mem, here, rfl⟩ | ⟨u, p, w, fresh, direct, more⟩))
      · exact Or.inl ⟨d, by simp [mem_singleton.1 mem], here, rfl⟩
      · refine Or.inr ⟨u, p, w, fresh, ?_, more⟩
        cases direct with
        | here avoids => exact .here avoids
        | child avoids direct => exact .child avoids direct
        | later unreached direct =>
          obtain ⟨d, mem, -⟩ := direct.reaches
          cases mem
      · exact Or.inl ⟨d, mem_cons_of_mem _ mem, here, rfl⟩
      · obtain ⟨old, unreached⟩ := not_or.1 fun known => fresh ((visits u).2 known)
        exact Or.inr ⟨u, p, w, old, .later unreached direct, more⟩
    · rintro (⟨d, mem, here, rfl⟩ | ⟨u, p, w, fresh, direct, more⟩)
      · rcases mem_cons.1 mem with rfl | later
        · exact Or.inl (Or.inl ⟨d, mem_singleton_self d, here, rfl⟩)
        · exact Or.inr (Or.inl ⟨d, later, here, rfl⟩)
      · cases direct with
        | here avoids => exact Or.inl (Or.inr ⟨_, _, w, fresh, .here avoids, more⟩)
        | child avoids direct => exact Or.inl (Or.inr ⟨_, _, w, fresh, .child avoids direct, more⟩)
        | later unreached direct =>
          exact Or.inr (Or.inr ⟨_, _, w, fun known => ((visits _).1 known).elim fresh unreached,
            direct, more⟩)

theorem lists_nil (next : α → List α) (path : List α) (state : HashSet α × List (List α)) :
    Lists next path [] state (some state) :=
  ⟨state.1, [], by simp, fun x => by simp, fun cycle => iff_of_false not_mem_nil (by
    rintro (⟨d, mem, -⟩ | ⟨u, p, w, -, direct, -⟩)
    · cases mem
    · obtain ⟨d, mem, -⟩ := direct.reaches
      cases mem)⟩

theorem lists_foldlM (inside : ∀ x ∈ nodes, ∀ y ∈ next x, y ∈ nodes)
    (deep : outside nodes path < depth) (mem : ∀ x ∈ candidates, x ∈ nodes)
    {state : HashSet α × List (List α)} (closed : ClosedUpTo next path (· ∈ state.1)) :
    Lists next path candidates state
      (candidates.foldlM (fun state dep => findCyclesDfs next depth path dep state) state) := by
  induction depth generalizing path candidates state with
  | zero => exact absurd deep (Nat.not_lt_zero _)
  | succ depth ih =>
    induction candidates generalizing state with
    | nil => exact lists_nil next path state
    | cons file candidates rest =>
      have own : file ∈ nodes := mem file mem_cons_self
      refine lists_cons ?_ fun state' visits => rest
        (fun x later => mem x (mem_cons_of_mem _ later)) ?_
      · refine lists_findCyclesDfs closed fun on => ih ?_
          (inside file own) fun x known y step => ?_
        · exact Nat.lt_of_lt_of_le
            (outside_lt own on (by simp) fun x known => mem_append_left _ known)
            (Nat.le_of_lt_succ deep)
        · exact (closed x known y step).imp_right fun here => mem_append_left _ here
      · intro x known y step
        have added := closed.add (a := file) x ((visits x).1 known) y step
        exact added.imp_left (visits y).2

/-- Files that are done with: closed under dependencies and on no cycle. -/
structure DoneWith (next : α → List α) (done : α → Prop) : Prop where
  closed : ∀ x, done x → ∀ y ∈ next x, done y
  acyclic : ∀ x, done x → ¬Reach next x x

omit [DecidableEq α] in
theorem DoneWith.leads {done : α → Prop} (known : DoneWith next done) {a b : α} (start : done a)
    (leads : Reach next a b) : done b := by
  induction leads with
  | single step => exact known.closed a start _ step
  | tail _ step ih => exact known.closed _ ih _ step

omit [DecidableEq α] in
theorem DoneWith.add {done : α → Prop} (known : DoneWith next done) (fresh : ¬done file)
    (deps : ∀ y ∈ next file, done y) : DoneWith next fun x => done x ∨ x = file where
  closed := by
    rintro x (old | rfl) y step
    · exact Or.inl (known.closed x old y step)
    · exact Or.inl (deps y step)
  acyclic := by
    rintro x (old | rfl) leads
    · exact known.acyclic x old leads
    · rcases (Relation.TransGen.head'_iff).1 leads with ⟨y, step, rest⟩
      rcases Relation.reflTransGen_iff_eq_or_transGen.1 rest with rfl | further
      · exact fresh (deps _ step)
      · exact fresh (known.leads (deps y step) further)

omit [DecidableEq α] in
theorem DoneWith.congr {done done' : α → Prop} (known : DoneWith next done)
    (same : ∀ x, done x ↔ done' x) : DoneWith next done' where
  closed x isDone y step := (same y).1 (known.closed x ((same x).2 isDone) y step)
  acyclic x isDone := known.acyclic x ((same x).2 isDone)

/-- Visited and not on the recursion stack. -/
def Done (state : HashSet α × HashSet α) (x : α) : Prop := x ∈ state.1 ∧ x ∉ state.2

/-- A positive answer comes with a cycle; after a negative one the stack is as before and the
candidates are done with. -/
def Decides (next : α → List α) (candidates : List α) (state : HashSet α × HashSet α)
    (outcome : Option (Bool × HashSet α × HashSet α)) : Prop :=
  ∃ found state', outcome = some (found, state') ∧ (found = true → ∃ x, Reach next x x) ∧
    (found = false → (∀ x, x ∈ state'.2 ↔ x ∈ state.2) ∧ (∀ x ∈ state.1, x ∈ state'.1) ∧
      (∀ d ∈ candidates, Done state' d) ∧ DoneWith next (Done state'))

theorem decides_scanDependencies {state : HashSet α × HashSet α}
    {dfs : α → HashSet α × HashSet α → Option (Bool × HashSet α × HashSet α)}
    (edges : ∀ d ∈ candidates, d ∈ next file)
    (stacked : ∀ s ∈ state.2, Relation.ReflTransGen (fun a b => b ∈ next a) s file)
    (known : DoneWith next (Done state))
    (search : ∀ d ∈ candidates, ∀ state' : HashSet α × HashSet α,
      (∀ x, x ∈ state'.2 ↔ x ∈ state.2) → (∀ x ∈ state.1, x ∈ state'.1) →
        DoneWith next (Done state') → d ∉ state'.1 → Decides next [d] state' (dfs d state')) :
    Decides next candidates state (scanDependencies dfs candidates state) := by
  induction candidates generalizing state with
  | nil => exact ⟨false, state, rfl, fun absurd_ => (Bool.false_ne_true absurd_).elim,
      fun _ => ⟨fun _ => Iff.rfl, fun _ mem => mem,
        fun d mem => absurd mem not_mem_nil, known⟩⟩
  | cons d rest ih =>
    have later : ∀ state' : HashSet α × HashSet α, (∀ x, x ∈ state'.2 ↔ x ∈ state.2) →
        (∀ x ∈ state.1, x ∈ state'.1) → DoneWith next (Done state') → Done state' d →
        Decides next (d :: rest) state (scanDependencies dfs rest state') := by
      intro state' sameStack grown known' done
      obtain ⟨found, last, outcome, positive, negative⟩ := ih
        (fun e mem => edges e (mem_cons_of_mem _ mem))
        (fun s mem => stacked s ((sameStack s).1 mem)) known'
        fun e mem state'' same grown' => search e (mem_cons_of_mem _ mem) state''
          (fun x => (same x).trans (sameStack x)) fun x old => grown' x (grown x old)
      refine ⟨found, last, outcome, positive, fun no => ?_⟩
      obtain ⟨same, grown', done', known''⟩ := negative no
      refine ⟨fun x => (same x).trans (sameStack x), fun x old => grown' x (grown x old), ?_,
        known''⟩
      intro e mem
      rcases mem_cons.1 mem with rfl | mem
      · exact ⟨grown' e done.1, fun on => done.2 ((same e).1 on)⟩
      · exact done' e mem
    rw [scanDependencies]
    split_ifs with seen on
    · exact ⟨true, state, rfl,
        fun _ => ⟨d, Relation.TransGen.tail' (stacked d on) (edges d mem_cons_self)⟩,
        fun absurd_ => Bool.noConfusion absurd_⟩
    · exact later state (fun _ => Iff.rfl) (fun _ old => old) known ⟨seen, on⟩
    · obtain ⟨found, state', outcome, positive, negative⟩ :=
        search d mem_cons_self state (fun _ => Iff.rfl) (fun _ old => old) known seen
      rw [outcome, Option.bind_some]
      cases found with
      | true => exact ⟨true, state', rfl, positive, fun absurd_ => Bool.noConfusion absurd_⟩
      | false =>
        obtain ⟨same, grown, done, known'⟩ := negative rfl
        exact later state' same grown known' (done d (mem_singleton_self d))

section

variable (inside : ∀ x ∈ nodes, ∀ y ∈ next x, y ∈ nodes)

include inside

theorem decides_hasCycleDfs {file : α}
    {state : HashSet α × HashSet α} (deep : outside nodes state.1.toList < depth)
      (mem : file ∈ nodes)
    (fresh : file ∉ state.1) (visited : ∀ s ∈ state.2, s ∈ state.1)
    (stacked : ∀ s ∈ state.2, Reach next s file) (known : DoneWith next (Done state)) :
    Decides next [file] state (hasCycleDfs next depth file state) := by
  induction depth generalizing file state with
  | zero => exact absurd deep (Nat.not_lt_zero _)
  | succ depth ih =>
    have offStack : file ∉ state.2 := fun on => fresh (visited file on)
    have sameDone : ∀ x, Done state x ↔ Done (state.1.insert file, state.2.insert file) x := by
      intro x
      unfold Done
      rw [HashSet.mem_insert, HashSet.mem_insert, not_or]
      constructor
      · rintro ⟨seen, off⟩
        exact ⟨Or.inr seen, fun same => fresh (same ▸ seen), off⟩
      · rintro ⟨same | seen, ne, off⟩
        · exact absurd same ne
        · exact ⟨seen, off⟩
    have scanned : Decides next (next file) (state.1.insert file, state.2.insert file)
        (scanDependencies (hasCycleDfs next depth) (next file)
          (state.1.insert file, state.2.insert file)) := by
      refine decides_scanDependencies (fun d step => step) ?_ (known.congr sameDone) ?_
      · intro s on
        rcases HashSet.mem_insert.1 on with rfl | on
        · exact .refl
        · exact (stacked s on).to_reflTransGen
      · intro d step state' same grown known' fresh'
        refine ih ?_ (inside file mem d step) fresh' ?_ ?_ known'
        · refine Nat.lt_of_lt_of_le ?_ (Nat.le_of_lt_succ deep)
          exact outside_lt mem fresh (grown file (HashSet.mem_insert.2 (Or.inl rfl)))
            fun x old => grown x (HashSet.mem_insert.2 (Or.inr old))
        · intro s on
          refine grown s (HashSet.mem_insert.2 ?_)
          exact (HashSet.mem_insert.1 ((same s).1 on)).imp_right (visited s)
        · intro s on
          rcases HashSet.mem_insert.1 ((same s).1 on) with rfl | on
          · exact .single step
          · exact (stacked s on).tail step
    obtain ⟨found, state', outcome, positive, negative⟩ := scanned
    rw [hasCycleDfs, outcome, Option.map_some]
    cases found with
    | true => exact ⟨true, state', rfl, positive, fun absurd_ => Bool.noConfusion absurd_⟩
    | false =>
      obtain ⟨same, grown, done, known'⟩ := negative rfl
      refine ⟨false, (state'.1, state'.2.erase file), rfl,
        fun absurd_ => Bool.noConfusion absurd_, fun _ => ⟨?_, ?_, ?_, ?_⟩⟩
      · intro x
        rw [HashSet.mem_erase, same, HashSet.mem_insert]
        constructor
        · rintro ⟨ne, here | on⟩
          · exact absurd here ne
          · exact on
        · intro on
          exact ⟨fun here => offStack (here ▸ on), Or.inr on⟩
      · exact fun x old => grown x (HashSet.mem_insert.2 (Or.inr old))
      · intro d single
        rw [mem_singleton.1 single]
        exact ⟨grown file (HashSet.mem_insert.2 (Or.inl rfl)),
          fun on => (HashSet.mem_erase.1 on).1 rfl⟩
      · have notDone : ¬Done state' file := fun isDone =>
          isDone.2 ((same file).2 (HashSet.mem_insert.2 (Or.inl rfl)))
        refine (known'.add notDone done).congr fun x => ?_
        unfold Done
        rw [HashSet.mem_erase]
        constructor
        · rintro (⟨seen, off⟩ | rfl)
          · exact ⟨seen, fun on => off on.2⟩
          · exact ⟨grown x (HashSet.mem_insert.2 (Or.inl rfl)), fun on => on.1 rfl⟩
        · rintro ⟨seen, off⟩
          by_cases here : x = file
          · exact Or.inr here
          · exact Or.inl ⟨seen, fun on => off ⟨here, on⟩⟩

theorem hasCycleFrom_spec
    (deep : nodes.length < depth) {files : List α} (mem : ∀ x ∈ files, x ∈ nodes)
    {state : HashSet α × HashSet α} (offStack : ∀ x, x ∉ state.2)
    (known : DoneWith next (Done state)) :
    ∃ found, hasCycleFrom next depth files state = some found ∧
      (found = true → ∃ x, Reach next x x) ∧ (found = false → ∀ x ∈ files, ¬Reach next x x) := by
  induction files generalizing state with
  | nil => exact ⟨false, rfl, fun absurd_ => Bool.noConfusion absurd_,
      fun _ x none => absurd none not_mem_nil⟩
  | cons file files ih =>
    have first : Decides next [file] state (hasCycleDfs next depth file state) := by
      by_cases fresh : file ∈ state.1
      · -- every dependency is done with already
        obtain ⟨depth, rfl⟩ := Nat.exists_eq_succ_of_ne_zero (Nat.ne_zero_of_lt deep)
        have done : Done state file := ⟨fresh, offStack file⟩
        have scanned : ∀ deps : List α, (∀ y ∈ deps, y ∈ next file) →
            scanDependencies (hasCycleDfs next depth) deps
              (state.1.insert file, state.2.insert file) =
                some (false, state.1.insert file, state.2.insert file) := by
          intro deps edges
          induction deps with
          | nil => rfl
          | cons y deps ih =>
            have step := edges y mem_cons_self
            have isDone := known.closed file done y step
            have seen : y ∈ state.1.insert file := HashSet.mem_insert.2 (Or.inr isDone.1)
            have off : y ∉ state.2.insert file := by
              rw [HashSet.mem_insert, not_or]
              refine ⟨?_, isDone.2⟩
              rintro rfl
              exact known.acyclic y done (.single step)
            rw [scanDependencies, if_neg (not_not.2 seen), if_neg off]
            exact ih fun z later => edges z (mem_cons_of_mem _ later)
        have sameSeen : ∀ x, x ∈ state.1.insert file ↔ x ∈ state.1 := by
          intro x
          rw [HashSet.mem_insert]
          exact ⟨fun seen => seen.elim (fun here => here ▸ fresh) id, Or.inr⟩
        have sameStack : ∀ x, x ∈ (state.2.insert file).erase file ↔ x ∈ state.2 := by
          intro x
          rw [HashSet.mem_erase, HashSet.mem_insert]
          exact ⟨fun on => on.2.resolve_left on.1, fun on => absurd on (offStack x)⟩
        have same : ∀ x, Done state x ↔
            Done (state.1.insert file, (state.2.insert file).erase file) x := fun x =>
          and_congr (sameSeen x).symm (not_congr (sameStack x).symm)
        refine ⟨false, (state.1.insert file, (state.2.insert file).erase file), ?_,
          fun absurd_ => Bool.noConfusion absurd_, fun _ => ⟨sameStack,
            fun x seen => (sameSeen x).2 seen, ?_, known.congr same⟩⟩
        · rw [hasCycleDfs, scanned (next file) fun _ step => step]
          rfl
        · intro d single
          rw [mem_singleton.1 single]
          exact (same file).1 done
      · refine decides_hasCycleDfs inside ?_ (mem file mem_cons_self) fresh
          (fun s on => absurd on (offStack s)) (fun s on => absurd on (offStack s)) known
        exact Nat.lt_of_le_of_lt (length_filter_le _ _) deep
    obtain ⟨found, state', outcome, positive, negative⟩ := first
    rw [hasCycleFrom, outcome, Option.bind_some]
    cases found with
    | true => exact ⟨true, rfl, positive, fun absurd_ => Bool.noConfusion absurd_⟩
    | false =>
      obtain ⟨same, -, done, known'⟩ := negative rfl
      obtain ⟨found, rest, positive', negative'⟩ := ih
        (fun x later => mem x (mem_cons_of_mem _ later))
        (fun x on => offStack x ((same x).1 on)) known'
      refine ⟨found, rest, positive', fun no x mem => ?_⟩
      rcases mem_cons.1 mem with rfl | later
      · exact known'.acyclic x (done x (mem_singleton_self x))
      · exact negative' no x later

theorem lists_findCyclesFrom
    (deep : nodes.length < depth) {files : List α} (mem : ∀ x ∈ files, x ∈ nodes) :
    Lists next [] files (∅, []) (findCyclesFrom next depth files) := by
  have guarded : (fun (state : HashSet α × List (List α)) file =>
      if file ∈ state.1 then some state else findCyclesDfs next depth [] file state) =
        fun state file => findCyclesDfs next depth [] file state := by
    obtain ⟨depth, rfl⟩ := Nat.exists_eq_succ_of_ne_zero (Nat.ne_zero_of_lt deep)
    funext state file
    split_ifs with known
    · rw [findCyclesDfs, if_neg not_mem_nil, if_pos known]
    · rfl
  unfold findCyclesFrom
  rw [guarded]
  refine lists_foldlM inside ?_ mem fun x none => absurd none (HashSet.notMem_empty x)
  exact Nat.lt_of_le_of_lt (length_filter_le _ _) deep

end

end Searches

section Reports

variable (graph : FileDependencyGraph) (files : List String) (deps : String → List String)

/-- An order in which the files of the graph and the dependencies of each may be iterated. -/
structure IterationOrder : Prop where
  files : files.Perm graph.getAllFiles
  deps : ∀ file, (deps file).Perm (graph.getDependencies file)

def hasCycle : Option Bool := hasCycleFrom deps (files.length + 1) files (∅, ∅)

def findAllCycles : Option (List (List String)) :=
  (findCyclesFrom deps (files.length + 1) files).map Prod.snd

def ClosedWalk (walk : List String) : Prop :=
  walk.IsChain (fun x y => y ∈ graph.getDependencies x) ∧
    ∃ first last, walk.head? = some first ∧ walk.getLast? = some last ∧
      first ∈ graph.getDependencies last

/-- Both searches return, a cycle is found where there is one, only closed walks are listed, and
every file on a cycle is in one of them. -/
structure CycleReportsExact : Prop where
  decided : ∃ found, hasCycle files deps = some found ∧
    (found = true ↔ ∃ file, Reach graph.getDependencies file file)
  listed : ∃ cycles, findAllCycles files deps = some cycles ∧
    (∀ cycle ∈ cycles, graph.ClosedWalk cycle) ∧
      ∀ file, Reach graph.getDependencies file file → ∃ cycle ∈ cycles, file ∈ cycle

/-- Every file on a cycle lies on the direct path to some file, at or behind a file which that file
depends on. -/
def CyclesOnDirectPaths : Prop :=
  ∀ file, Reach graph.getDependencies file file → ∃ u path w, DirectPath deps u [] files path ∧
    w ∈ deps u ∧ w ∈ path ∧ file ∈ path.dropWhile fun f => f ≠ w

variable {graph files deps}

theorem IterationOrder.mem_files (order : graph.IterationOrder files deps) {source target : String}
    (step : target ∈ deps source) : source ∈ files ∧ target ∈ files := by
  have edge := (order.deps source).mem_iff.1 step
  exact ⟨order.files.mem_iff.2 (graph.mem_getAllFiles_of_mem_getDependents
      (FileDependencyGraph.mem_getDependents.2 edge)),
    order.files.mem_iff.2 (graph.mem_getAllFiles_of_mem_getDependencies edge)⟩

theorem IterationOrder.reach_iff (order : graph.IterationOrder files deps) {a b : String} :
    Reach deps a b ↔ Reach graph.getDependencies a b := by
  unfold Reach
  have same : (fun a b => b ∈ deps a) = fun a b => b ∈ graph.getDependencies a := by
    funext a b
    exact propext (order.deps a).mem_iff
  rw [same]

theorem closedWalk_dropWhile (order : graph.IterationOrder files deps) {u w : String}
    {path : List String} (direct : DirectPath deps u [] files path) (step : w ∈ deps u)
    (mem : w ∈ path) : graph.ClosedWalk (path.dropWhile fun f => f ≠ w) := by
  obtain ⟨chain, -, last⟩ := direct.isChain
  have suffix_ : (path.dropWhile fun f => f ≠ w) <:+ path := dropWhile_suffix _
  have ne : (path.dropWhile fun f => f ≠ w) ≠ [] := by
    intro empty
    have all := dropWhile_eq_nil_iff.1 empty w mem
    simp at all
  refine ⟨(chain.suffix suffix_).imp fun x y edge => (order.deps x).mem_iff.1 edge, w, u, ?_, ?_,
    (order.deps u).mem_iff.1 step⟩
  · have stops := head_dropWhile_not (fun f => decide (f ≠ w)) ne
    rw [head?_eq_some_head ne]
    simpa using stops
  · obtain ⟨front, whole⟩ := suffix_
    rw [← whole, getLast?_append_of_ne_nil _ ne] at last
    exact last

/-- In every order of iteration the reports are exact where every cycle lies on direct paths, and
only there. -/
theorem cycleReportsExact_iff (order : graph.IterationOrder files deps) :
    graph.CycleReportsExact files deps ↔ graph.CyclesOnDirectPaths files deps := by
  have inside : ∀ x ∈ files, ∀ y ∈ deps x, y ∈ files := fun x _ y step => (order.mem_files step).2
  have unseen : DoneWith deps (Done ((∅, ∅) : HashSet String × HashSet String)) :=
    ⟨fun x done => absurd done.1 (HashSet.notMem_empty x),
      fun x done => absurd done.1 (HashSet.notMem_empty x)⟩
  obtain ⟨found, decided, positive, negative⟩ := hasCycleFrom_spec inside (Nat.lt_succ_self _)
    (fun x (mem : x ∈ files) => mem) (fun x => HashSet.notMem_empty x) unseen
  obtain ⟨visited, cycles, outcome, -, lists⟩ := lists_findCyclesFrom inside (Nat.lt_succ_self _)
    fun x (mem : x ∈ files) => mem
  have shape : ∀ cycle, cycle ∈ cycles ↔ ∃ u path w, DirectPath deps u [] files path ∧ w ∈ deps u ∧
      w ∈ path ∧ cycle = path.dropWhile fun f => f ≠ w := by
    intro cycle
    rw [lists]
    constructor
    · rintro (⟨d, -, none, -⟩ | ⟨u, path, w, -, direct, step, mem, same⟩)
      · cases none
      · exact ⟨u, path, w, direct, step, mem, same⟩
    · rintro ⟨u, path, w, direct, step, mem, same⟩
      exact Or.inr ⟨u, path, w, HashSet.notMem_empty u, direct, step, mem, same⟩
  have returned : findAllCycles files deps = some cycles := by
    unfold findAllCycles
    rw [outcome]
    rfl
  constructor
  · intro reports file onCycle
    obtain ⟨cycles', same, -, complete⟩ := reports.listed
    rw [returned] at same
    cases same
    obtain ⟨cycle, mem, inCycle⟩ := complete file onCycle
    obtain ⟨u, path, w, direct, step, onPath, rfl⟩ := (shape cycle).1 mem
    exact ⟨u, path, w, direct, step, onPath, inCycle⟩
  · intro onPaths
    refine ⟨⟨found, decided, fun yes => ?_, ?_⟩, cycles, returned, ?_, ?_⟩
    · obtain ⟨file, reach⟩ := positive yes
      exact ⟨file, order.reach_iff.1 reach⟩
    · rintro ⟨file, reach⟩
      by_contra no
      have reach' := order.reach_iff.2 reach
      refine negative (Bool.not_eq_true _ ▸ no) file ?_ reach'
      obtain ⟨y, step, -⟩ := Relation.TransGen.head'_iff.1 reach'
      exact (order.mem_files step).1
    · intro cycle mem
      obtain ⟨u, path, w, direct, step, onPath, rfl⟩ := (shape cycle).1 mem
      exact closedWalk_dropWhile order direct step onPath
    · intro file onCycle
      obtain ⟨u, path, w, direct, step, onPath, inCycle⟩ := onPaths file onCycle
      exact ⟨_, (shape _).2 ⟨u, path, w, direct, step, onPath, rfl⟩, inCycle⟩

end Reports

section Sample

/-- Two cycles that share two of their files. -/
def sharedCycles : FileDependencyGraph :=
  ((((addDependency ∅ "a.rs" "b.rs").addDependency "a.rs" "c.rs").addDependency "b.rs"
    "d.rs").addDependency "c.rs" "d.rs").addDependency "d.rs" "a.rs"

def alphabetical : List String := ["a.rs", "b.rs", "c.rs", "d.rs"]

theorem iterationOrder_sharedCycles :
    sharedCycles.IterationOrder alphabetical sharedCycles.getDependencies :=
  ⟨by decide, fun _ => .refl _⟩

theorem cycleReportsExact_sharedCycles :
    sharedCycles.IterationOrder alphabetical sharedCycles.getDependencies ∧
      (sharedCycles.CycleReportsExact alphabetical sharedCycles.getDependencies ↔
        sharedCycles.CyclesOnDirectPaths alphabetical sharedCycles.getDependencies) :=
  ⟨iterationOrder_sharedCycles, cycleReportsExact_iff iterationOrder_sharedCycles⟩

/-- The file that is come to second is on a cycle and in no listed one. -/
theorem sharedCycle_not_listed :
    sharedCycles.IterationOrder alphabetical sharedCycles.getDependencies ∧
      findAllCycles alphabetical sharedCycles.getDependencies = some [["a.rs", "c.rs", "d.rs"]] ∧
      Reach sharedCycles.getDependencies "b.rs" "b.rs" ∧
      ¬sharedCycles.CycleReportsExact alphabetical sharedCycles.getDependencies := by
  have found : findAllCycles alphabetical sharedCycles.getDependencies =
      some [["a.rs", "c.rs", "d.rs"]] := by decide
  have ab : "b.rs" ∈ sharedCycles.getDependencies "a.rs" := by decide
  have bd : "d.rs" ∈ sharedCycles.getDependencies "b.rs" := by decide
  have da : "a.rs" ∈ sharedCycles.getDependencies "d.rs" := by decide
  have onCycle : Reach sharedCycles.getDependencies "b.rs" "b.rs" :=
    ((Relation.TransGen.single bd).tail da).tail ab
  refine ⟨iterationOrder_sharedCycles, found, onCycle, fun reports => ?_⟩
  obtain ⟨cycles, returned, -, complete⟩ := reports.listed
  rw [found] at returned
  cases returned
  obtain ⟨cycle, mem, inCycle⟩ := complete "b.rs" onCycle
  rw [mem_singleton.1 mem] at inCycle
  exact absurd inCycle (by decide)

end Sample

end FileDependencyGraph

end ContextEngine

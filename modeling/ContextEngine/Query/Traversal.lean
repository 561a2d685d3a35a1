/- digest: What a call-chain traversal reports, and when an impact is the reverse closure. -/

import Mathlib.Data.String.Basic
import ContextEngine.Graph.CycleReports
import ContextEngine.Layered.EdgeAnswers
import ContextEngine.Lib.LateMarking
import ContextEngine.Query.CallChain

set_option autoImplicit false

namespace ContextEngine

open List Search LateMarking

namespace CallChainTraverser

variable {Index : Type} [SnapshotQueryIndex Index] (traverser : CallChainTraverser Index)

/-- The entities one passing edge away, in the direction of the traversal. -/
def neighbours (entityId : EntityId) : List EntityId :=
  (traverser.nextElements entityId).map PathElement.entityId

def FilteredEdge (source target : EntityId) : Prop :=
  match traverser.config.direction with
  | .forward =>
    ∃ relation ∈ (SnapshotQueryIndex.getResolvedRelationsByCaller traverser.index source).getD [],
      traverser.config.relationPassesFilter relation = true ∧ relation.calleeId = some target
  | .backward =>
    ∃ relation ∈ SnapshotQueryIndex.getRelationsToEntity traverser.index source,
      traverser.config.relationPassesFilter relation = true ∧ relation.caller = target

theorem mem_neighbours {source target : EntityId} :
    target ∈ traverser.neighbours source ↔ traverser.FilteredEdge source target := by
  unfold neighbours FilteredEdge nextElements
  cases traverser.config.direction with
  | forward =>
    simp only [forwardElements, map_filterMap, Option.map_map, mem_filterMap,
      mem_filter, Option.map_eq_some_iff, Function.comp_apply, and_assoc]
    constructor
    · rintro ⟨relation, mem, passes, _, ends, rfl⟩
      exact ⟨relation, mem, passes, ends⟩
    · rintro ⟨relation, mem, passes, ends⟩
      exact ⟨relation, mem, passes, target, ends, rfl⟩
  | backward =>
    simp only [callerElements, map_map, mem_map, mem_filter, and_assoc]
    rfl

end CallChainTraverser

section Exact

open CallChainTraverser

variable {Index : Type} [SnapshotQueryIndex Index] (traverser : CallChainTraverser Index)

/-- The length of the shortest walk of at least one passing edge. -/
def AtPositiveDistance (depth : Nat) (start entityId : EntityId) : Prop :=
  0 < depth ∧ Steps traverser.neighbours depth start entityId ∧
    ∀ m, 0 < m → m < depth → ¬Steps traverser.neighbours m start entityId

/-- The nodes below the start are what can be reached within the bound, each once, at its
distance, near ones first. -/
structure TraversalExact (start : EntityId) (nodes : List CallChainNode) : Prop where
  exact : ∀ entityId depth,
    (∃ node ∈ nodes, node.functionId = entityId ∧ node.depth = depth ∧ 0 < depth) ↔
      depth ≤ traverser.config.maxDepth ∧ AtPositiveDistance traverser depth start entityId
  once : ((nodes.filter fun node => 0 < node.depth).map CallChainNode.functionId).Nodup
  ascending : (nodes.map CallChainNode.depth).Pairwise (· ≤ ·)

variable {traverser}

/-- A node, less its texts. -/
def nodeKey (node : CallChainNode) : EntityId × Nat := (node.functionId, node.depth)

def entryKey (entry : PathElement × Nat) : EntityId × Nat := (entry.1.entityId, entry.2)

variable {nodes : List CallChainNode} {start : EntityId}

theorem traversalExact_iff_of_keys
    {top found : List (EntityId × Nat)} (keys : nodes.map nodeKey = top ++ found)
    (shown : ∀ entry ∈ top, entry.2 = 0) (deep : ∀ entry ∈ found, 0 < entry.2)
    (once : (found.map Prod.fst).Nodup)
    (ascending : found.Pairwise fun first second => first.2 ≤ second.2) :
    TraversalExact traverser start nodes ↔ ∀ entityId depth, (entityId, depth) ∈ found ↔
      depth ≤ traverser.config.maxDepth ∧ AtPositiveDistance traverser depth start entityId := by
  have listed : ∀ entityId depth,
      (∃ node ∈ nodes, node.functionId = entityId ∧ node.depth = depth ∧ 0 < depth) ↔
        (entityId, depth) ∈ found := by
    intro entityId depth
    constructor
    · rintro ⟨node, mem, rfl, rfl, positive⟩
      have key : nodeKey node ∈ top ++ found := keys ▸ mem_map_of_mem mem
      rcases mem_append.1 key with atTop | below
      · exact absurd (shown _ atTop) positive.ne'
      · exact below
    · intro mem
      have key : (entityId, depth) ∈ nodes.map nodeKey := keys ▸ mem_append_right top mem
      obtain ⟨node, nodeMem, same⟩ := mem_map.1 key
      obtain ⟨rfl, rfl⟩ := Prod.mk.inj same
      exact ⟨node, nodeMem, rfl, rfl, deep _ mem⟩
  have ids : (nodes.filter fun node => 0 < node.depth).map CallChainNode.functionId =
      found.map Prod.fst := by
    have filtered := congrArg (fun l => (l.filter fun entry => 0 < entry.2).map Prod.fst) keys
    have none : top.filter (fun entry => 0 < entry.2) = [] :=
      filter_eq_nil_iff.2 fun entry mem => by simp [shown entry mem]
    have all : found.filter (fun entry => 0 < entry.2) = found :=
      filter_eq_self.2 fun entry mem => by simpa using deep entry mem
    simp only [filter_append, none, all, nil_append, filter_map, map_map] at filtered
    exact filtered
  have depths : (nodes.map CallChainNode.depth).Pairwise (· ≤ ·) := by
    have mapped : nodes.map CallChainNode.depth = (top ++ found).map Prod.snd := by
      rw [← keys, map_map]
      rfl
    rw [mapped, pairwise_map, pairwise_append]
    refine ⟨pairwise_of_forall_mem_list fun first firstMem second _ => ?_, ascending,
      fun first firstMem second _ => ?_⟩ <;>
    · rw [shown first firstMem]
      exact Nat.zero_le _
  constructor
  · exact fun traversed entityId depth => (listed entityId depth).symm.trans
      (traversed.exact entityId depth)
  · intro same
    exact ⟨fun entityId depth => (listed entityId depth).trans (same entityId depth), ids ▸ once,
      depths⟩

theorem drain_of_traverseLoop (stop : traverser.config.stopOnCycles = true) {budget : Nat}
    {queue : List (PathElement × Nat)} {visited : HashSet EntityId}
    {result nodes : List CallChainNode} {top found : List (EntityId × Nat)}
    (deep : ∀ entry ∈ queue, 0 < entry.2)
    (marked : ∀ entityId, entityId ∈ visited ↔ entityId ∈ found.map Prod.fst)
    (keys : result.map nodeKey = top ++ found)
    (ran : traverser.traverseLoop budget queue visited result = .ok nodes) :
    ∃ all, drain traverser.neighbours traverser.config.maxDepth budget (queue.map entryKey) found =
      some all ∧ nodes.map nodeKey = top ++ all := by
  induction budget generalizing queue visited result found with
  | zero =>
    cases queue with
    | nil =>
      rw [traverseLoop] at ran
      cases ran
      exact ⟨found, rfl, keys⟩
    | cons entry queue =>
      rw [traverseLoop] at ran
      cases ran
  | succ budget ih =>
    cases queue with
    | nil =>
      rw [traverseLoop] at ran
      cases ran
      exact ⟨found, rfl, keys⟩
    | cons entry queue =>
      obtain ⟨element, depth⟩ := entry
      have positive : 0 < depth := deep _ mem_cons_self
      have later : ∀ entry ∈ queue, 0 < entry.2 := fun entry mem =>
        deep entry (mem_cons_of_mem _ mem)
      have shows : traverser.shouldAdd depth = true := by
        unfold shouldAdd
        cases traverser.config.direction <;> simp [positive]
      have keysAfter : (result ++ [traverser.node element depth]).map nodeKey =
          top ++ (found ++ [(element.entityId, depth)]) := by
        rw [map_append, keys, append_assoc]
        rfl
      have markedAfter : ∀ entityId, entityId ∈ visited.insert element.entityId ↔
          entityId ∈ (found ++ [(element.entityId, depth)]).map Prod.fst := by
        intro entityId
        rw [HashSet.mem_insert, marked]
        simp [or_comm]
      rw [traverseLoop] at ran
      rw [map_cons, entryKey, drain]
      simp only [stop, positive, shows, true_and, and_self, if_true, marked element.entityId] at ran
      split_ifs at ran with far old deeper
      · rw [if_pos (Or.inl far)]
        exact ih later marked keys ran
      · rw [if_pos (Or.inr old)]
        exact ih later marked keys ran
      · rw [if_neg (not_or.2 ⟨far, old⟩), successors, if_pos deeper]
        have queued : (queue ++ (traverser.nextElements element.entityId).map
            fun next => (next, depth + 1)).map entryKey =
              queue.map entryKey ++ (traverser.neighbours element.entityId).map
                fun next => (next, depth + 1) := by
          simp [CallChainTraverser.neighbours, entryKey, Function.comp_def]
        rw [← queued]
        refine ih (fun entry mem => ?_) markedAfter keysAfter ran
        rcases mem_append.1 mem with waits | new
        · exact later entry waits
        · obtain ⟨next, -, rfl⟩ := mem_map.1 new
          exact Nat.succ_pos depth
      · rw [if_neg (not_or.2 ⟨far, old⟩), successors, if_neg deeper, append_nil]
        exact ih later markedAfter keysAfter ran

def allCallers (traverser : CallChainTraverser Index) (start : EntityId) : List EntityId :=
  (SnapshotQueryIndex.getRelationsToEntity traverser.index start).map ResolvedRelation.caller

/-- What the first round expands: the neighbours of the start, or all callers. -/
def seedOf (traverser : CallChainTraverser Index) (start : EntityId) : List EntityId :=
  match traverser.config.direction with
  | .forward => traverser.neighbours start
  | .backward => allCallers traverser start

theorem neighbours_subset_seedOf (start : EntityId) :
    ∀ entityId ∈ traverser.neighbours start, entityId ∈ seedOf traverser start := by
  intro entityId mem
  rw [seedOf]
  cases way : traverser.config.direction with
  | forward => exact mem
  | backward =>
    rw [CallChainTraverser.mem_neighbours, FilteredEdge, way] at mem
    obtain ⟨relation, mem, -, rfl⟩ := mem
    exact mem_map_of_mem mem

theorem validate_of_traverseFrom
    (ran : traverser.traverseFrom start = .ok nodes) :
    0 < traverser.config.maxDepth ∧ 0 < traverser.config.maxNodes ∧
      traverser.traverseLoop traverser.config.maxNodes (traverser.initialQueue start) ∅ [] =
        .ok nodes := by
  unfold traverseFrom TraversalConfig.validate at ran
  split_ifs at ran with shallow few
  · cases ran
  · cases ran
  · refine ⟨Nat.pos_of_ne_zero shallow, Nat.pos_of_ne_zero few, ?_⟩
    simp only [bind, Except.bind] at ran
    cases loop : traverser.traverseLoop traverser.config.maxNodes (traverser.initialQueue start)
        ∅ [] with
    | error failure => simp [loop] at ran
    | ok result =>
      simp only [loop] at ran
      split_ifs at ran
      exact ran

/-- The run of a traversal is a run of the search from its seed. -/
theorem invariant_of_traverseFrom (stop : traverser.config.stopOnCycles = true)
    (ran : traverser.traverseFrom start = .ok nodes) :
    ∃ top found, nodes.map nodeKey = top ++ found ∧ (∀ entry ∈ top, entry.2 = 0) ∧
      Invariant traverser.neighbours (seedOf traverser start) traverser.config.maxDepth []
        found := by
  obtain ⟨deep, some, ran⟩ := validate_of_traverseFrom ran
  have searched : ∀ (budget : Nat) (elements : List PathElement) (result : List CallChainNode)
      (top : List (EntityId × Nat)), result.map nodeKey = top →
        elements.map PathElement.entityId = seedOf traverser start →
        traverser.traverseLoop budget (elements.map fun element => (element, 1)) ∅ result =
          .ok nodes →
        ∃ found, nodes.map nodeKey = top ++ found ∧
          Invariant traverser.neighbours (seedOf traverser start) traverser.config.maxDepth []
            found := by
    intro budget elements result top keys seeds ran
    have above : ∀ entry ∈ elements.map fun element => (element, 1), 0 < entry.2 := by
      intro entry mem
      obtain ⟨element, -, rfl⟩ := mem_map.1 mem
      exact Nat.one_pos
    have unmarked : ∀ entityId, entityId ∈ (∅ : HashSet EntityId) ↔
        entityId ∈ ([] : List (EntityId × Nat)).map Prod.fst :=
      fun _ => ⟨fun mem => absurd mem not_mem_nil, fun mem => absurd mem not_mem_nil⟩
    obtain ⟨found, drained, all⟩ :=
      drain_of_traverseLoop stop above unmarked (keys.trans (append_nil top).symm) ran
    have queued : (elements.map fun element => (element, 1)).map entryKey =
        (seedOf traverser start).map fun a => (a, 1) := by
      rw [← seeds, map_map, map_map]
      rfl
    rw [queued] at drained
    exact ⟨found, all, invariant_drain (Invariant.start deep) drained⟩
  cases way : traverser.config.direction with
  | backward =>
    rw [initialQueue, way] at ran
    obtain ⟨found, keys, inv⟩ := searched _ _ [] [] rfl (by
      simp [seedOf, way, allCallers, callerElements, PathElement.ofEdge]) ran
    exact ⟨[], found, keys, fun entry mem => absurd mem not_mem_nil, inv⟩
  | forward =>
    obtain ⟨budget, rounds⟩ := Nat.exists_eq_succ_of_ne_zero some.ne'
    rw [initialQueue, way, rounds, traverseLoop] at ran
    simp only [Nat.not_lt_zero, if_false, Nat.lt_irrefl, false_and, and_false, deep, if_true,
      nil_append] at ran
    let top := if traverser.shouldAdd 0 then
      [traverser.node { entityId := start } 0] else []
    obtain ⟨found, keys, inv⟩ := searched _ _ top (top.map nodeKey) rfl (by
      simp [seedOf, way, CallChainTraverser.neighbours]) ran
    refine ⟨top.map nodeKey, found, keys, fun entry mem => ?_, inv⟩
    obtain ⟨node, mem, rfl⟩ := mem_map.1 mem
    unfold top at mem
    split_ifs at mem
    · rw [mem_singleton.1 mem]
      rfl
    · cases mem

/-- The walks from a seed that holds the neighbours of the start are the walks from the start if
the seed holds nothing else. -/
theorem seededAt_iff_of_seed {next : EntityId → List EntityId} {seed : List EntityId}
    {maxDepth : Nat} (deep : 0 < maxDepth)
    (covered : ∀ a ∈ next start, a ∈ seed) :
    (∀ a depth, (depth ≤ maxDepth ∧ SeededAt next seed depth a) ↔
        depth ≤ maxDepth ∧ 0 < depth ∧ Steps next depth start a ∧
          ∀ m, 0 < m → m < depth → ¬Steps next m start a) ↔
      ∀ a ∈ seed, a ∈ next start := by
  constructor
  · intro same a mem
    have first : SeededAt next seed 1 a :=
      ⟨mem, fun m less reached => absurd reached.pos (by omega)⟩
    obtain ⟨_, rfl, edge⟩ := ((same a 1).1 ⟨deep, first⟩).2.2.1
    exact edge
  · intro exact a depth
    refine and_congr_right fun _ => ?_
    have walks : ∀ n, Seeded next seed n a ↔ 0 < n ∧ Steps next n start a := by
      intro n
      rw [Seeded.congr fun b => ⟨exact b, covered b⟩]
      cases n with
      | zero => exact iff_of_false id fun h => Nat.lt_irrefl 0 h.1
      | succ n => rw [seeded_iff_steps, and_iff_right (Nat.succ_pos n)]
    rw [SeededAt, walks, and_assoc]
    refine and_congr_right fun _ => and_congr_right fun _ => forall_congr' fun m => ?_
    rw [walks]
    tauto

/-- A successful traversal is exact when it runs forward, or every edge into the start has a
passing edge of the same caller beside it. -/
theorem traversalExact_iff (stop : traverser.config.stopOnCycles = true) {start : EntityId}
    {nodes : List CallChainNode} (ran : traverser.traverseFrom start = .ok nodes) :
    TraversalExact traverser start nodes ↔ traverser.config.direction = .forward ∨
      ∀ relation ∈ SnapshotQueryIndex.getRelationsToEntity traverser.index start,
        ∃ other ∈ SnapshotQueryIndex.getRelationsToEntity traverser.index start,
          traverser.config.relationPassesFilter other = true ∧ other.caller = relation.caller := by
  obtain ⟨deep, -, -⟩ := validate_of_traverseFrom ran
  obtain ⟨top, found, keys, shown, inv⟩ := invariant_of_traverseFrom stop ran
  rw [traversalExact_iff_of_keys keys shown (fun entry mem => (inv.atDistance entry mem).2.1.pos)
    inv.once inv.foundAscending]
  simp only [inv.mem_found_iff, AtPositiveDistance]
  rw [seededAt_iff_of_seed deep (neighbours_subset_seedOf start)]
  simp only [seedOf, CallChainTraverser.mem_neighbours, FilteredEdge]
  cases way : traverser.config.direction with
  | forward => simp [CallChainTraverser.mem_neighbours, FilteredEdge, way]
  | backward => simp [allCallers]

end Exact

section Sample

open CallChainTraverser

/-- Back from the second function along edges of the given domains; the first calls it. -/
def callersOf (relationDomains : List String) : CallChainTraverser RelationIndex where
  index := indexOf [1, 2] [callOf 1 2]
  config := { direction := .backward, relationDomains := relationDomains }

def firstCaller : CallChainNode where
  functionId := 1
  functionName := "f"
  filePath := "src/main.rs"
  depth := 1
  relationType := .directCall
  callLine := some 2
  ownerType := none
  callContext := .direct

theorem traversalExact_call :
    (callersOf ["call"]).traverseFrom 2 = .ok [firstCaller] ∧
      TraversalExact (callersOf ["call"]) 2 [firstCaller] := by
  have ran : (callersOf ["call"]).traverseFrom 2 = .ok [firstCaller] := by rfl
  exact ⟨ran, (traversalExact_iff rfl ran).2 (Or.inr (by decide))⟩

/-- A call is reported though the filter asks for dependencies. -/
theorem traversalExact_fails :
    (callersOf ["dependency"]).traverseFrom 2 = .ok [firstCaller] ∧
      ¬TraversalExact (callersOf ["dependency"]) 2 [firstCaller] := by
  refine ⟨by rfl, fun exact => ?_⟩
  obtain ⟨-, -, ⟨_, rfl, edge⟩, -⟩ := (exact.exact 1 1).1
    ⟨firstCaller, mem_singleton_self _, rfl, rfl, Nat.one_pos⟩
  exact absurd edge (by decide)

end Sample

structure ImpactAnalysis where
  changed : String
  directDependents : List String
  indirectDependents : List String

/-- Both lists are sorted and deduplicated. -/
def ImpactAnalysis.new (changed : String) (direct indirect : List String) : ImpactAnalysis where
  changed := changed
  directDependents := (SortedVec.ofList direct).toList
  indirectDependents := (SortedVec.ofList indirect).toList

namespace LayeredSnapshotIndex

variable (layered : LayeredSnapshotIndex) (file : String)

/-- One source's diff: an edge it loses, then an edge it gains. -/
def overlayDependencyDiff (dependents : List String) (diff : DependencyDiff) :
    List String :=
  let kept := if file ∈ diff.removedDependencies then
    dependents.filter fun source => source ≠ diff.sourceFile else dependents
  if file ∈ diff.addedDependencies ∧ diff.sourceFile ∉ kept then kept ++ [diff.sourceFile]
  else kept

def overlayFileDependents (dependents : List String) (delta : SnapshotDelta) :
    List String :=
  delta.dependencyDiffs.foldl (overlayDependencyDiff file)
    (dependents.filter fun source => source ∉ delta.removedFiles)

def dependentsOf : List String :=
  if layered.deltas.any fun delta => file ∈ delta.removedFiles then []
  else layered.deltas.foldl (overlayFileDependents file)
    (layered.base.index.dependencyGraph.getDependents file)

def dependentRange : List String :=
  layered.base.index.dependencyGraph.getAllFiles ++
    layered.deltas.flatMap fun delta => delta.dependencyDiffs.map DependencyDiff.sourceFile

def collectTransitiveDependents (maxDepth : Nat) : List String :=
  collectTransitive layered.dependentsOf maxDepth (layered.dependentRange.length + 1) file

def callerRange : List EntityId :=
  (layered.base.queryOptimized.callersByCallee.keys ++
      layered.base.index.reverseCalleeIndex.keys).flatMap layered.base.getCallersByCalleeEntity ++
    layered.deltas.flatMap fun delta => delta.addedRelations.map ResolvedRelation.caller

end LayeredSnapshotIndex

namespace CallChainQuery

variable (query : CallChainQuery)

def getChangeImpact (filePath : String) (maxDepth : Nat) : ImpactAnalysis :=
  let direct := HashSet.ofList (query.index.dependentsOf filePath)
  let indirect := (query.index.collectTransitiveDependents filePath maxDepth).filter
    fun dependent => dependent ∉ direct
  .new filePath direct.toList indirect

/-- The callers of callers, level by level; a depth of zero does not end the loop. -/
def indirectCallers (entityId : EntityId) (maxDepth : Nat) : List EntityId :=
  let visited := HashSet.ofList (query.getCallersByEntity entityId)
  levelSearch query.getCallersByEntity
    (if maxDepth = 0 then query.index.callerRange.length else maxDepth - 1)
    visited.toList visited.toList []

def getEntityImpact (entityId : EntityId) (maxDepth : Nat) (scope : String) : ImpactAnalysis :=
  if scope = "file" then
    let filePath := (query.index.getFilePathByEntity entityId).getD ""
    if filePath = "" then .new (toString entityId) [] []
    else query.getChangeImpact filePath maxDepth
  else
    let direct := HashSet.ofList ((query.getCallersByEntity entityId).map toString)
    .new (toString entityId) direct.toList
      ((query.indirectCallers entityId maxDepth).map toString)

end CallChainQuery

section Closure

variable {A : Type} (dependentsOf : A → List A) (printed : A → String) (x : A) (maxDepth : Nat)

/-- The other direct dependents, and those at a distance from two up to the depth. -/
structure ImpactExact (impact : ImpactAnalysis) : Prop where
  direct : ∀ text, text ∈ impact.directDependents ↔
    ∃ a, printed a = text ∧ a ≠ x ∧ a ∈ dependentsOf x
  indirect : ∀ text, text ∈ impact.indirectDependents ↔
    ∃ a n, printed a = text ∧ 2 ≤ n ∧ Admitted maxDepth n ∧ AtDistance dependentsOf n x a
  disjoint : impact.directDependents.Disjoint impact.indirectDependents
  once : impact.directDependents.Nodup ∧ impact.indirectDependents.Nodup
  apart : printed x ∉ impact.directDependents ∧ printed x ∉ impact.indirectDependents

/-- No cycle leads back within the depth. -/
def NoReturn : Prop := ∀ n, 1 ≤ n → Admitted maxDepth n → ¬Steps dependentsOf n x x

variable {dependentsOf printed x maxDepth}

private theorem admitted_one : Admitted maxDepth 1 := by
  unfold Admitted
  omega

private theorem steps_one {a : A} : Steps dependentsOf 1 x a ↔ a ∈ dependentsOf x :=
  ⟨fun ⟨_, start, edge⟩ => start ▸ edge, fun edge => ⟨x, rfl, edge⟩⟩

/-- Direct dependents next to whatever else a walk within the depth reaches are the closure
exactly if no such walk returns. -/
theorem impactExact_new_iff (once : Function.Injective printed) (changed : String)
    {direct indirect : List String}
    (near : ∀ text, text ∈ direct ↔ ∃ a, printed a = text ∧ a ∈ dependentsOf x)
    (far : ∀ text, text ∈ indirect ↔ ∃ a, printed a = text ∧
      (∃ n, 1 ≤ n ∧ Admitted maxDepth n ∧ Steps dependentsOf n x a) ∧ a ∉ dependentsOf x) :
    ImpactExact dependentsOf printed x maxDepth (.new changed direct indirect) ↔
      NoReturn dependentsOf x maxDepth := by
  have listed : ∀ text, text ∈ (ImpactAnalysis.new changed direct indirect).directDependents ↔
      ∃ a, printed a = text ∧ a ∈ dependentsOf x := fun text =>
    SortedVec.mem_toList.trans (SortedVec.mem_ofList.trans (near text))
  have deeper : ∀ text, text ∈ (ImpactAnalysis.new changed direct indirect).indirectDependents ↔
      ∃ a, printed a = text ∧
        (∃ n, 1 ≤ n ∧ Admitted maxDepth n ∧ Steps dependentsOf n x a) ∧ a ∉ dependentsOf x :=
    fun text => SortedVec.mem_toList.trans (SortedVec.mem_ofList.trans (far text))
  constructor
  · intro exactly n positive admitted back
    by_cases self : x ∈ dependentsOf x
    · exact exactly.apart.1 ((listed _).2 ⟨x, rfl, self⟩)
    · exact exactly.apart.2 ((deeper _).2 ⟨x, rfl, ⟨n, positive, admitted, back⟩, self⟩)
  · intro straight
    have apart : x ∉ dependentsOf x := fun self =>
      straight 1 (Nat.le_refl 1) admitted_one (steps_one.2 self)
    refine ⟨fun text => ?_, fun text => ?_, fun text nearby distant => ?_,
      ⟨SortedVec.nodup _, SortedVec.nodup _⟩, fun mem => ?_, fun mem => ?_⟩
    · rw [listed]
      exact exists_congr fun a => and_congr_right fun _ =>
        ⟨fun edge => ⟨fun same => apart (same ▸ edge), edge⟩, And.right⟩
    · rw [deeper]
      constructor
      · rintro ⟨a, shown, ⟨n, positive, admitted, walk⟩, further⟩
        obtain ⟨m, le, atDistance⟩ := walk.exists_atDistance
        refine ⟨a, m, shown, ?_, admitted.imp_right (Nat.le_trans le), atDistance⟩
        -- a distance of zero is a return, and of one a direct dependent
        match m, atDistance.1 with
        | 0, same => exact absurd (same ▸ walk) (straight n positive admitted)
        | 1, edge => exact absurd (steps_one.1 edge) further
        | m + 2, _ => exact Nat.le_add_left 2 m
      · rintro ⟨a, n, shown, far, admitted, walk, least⟩
        exact ⟨a, shown, ⟨n, by omega, admitted, walk⟩, fun edge =>
          least 1 far (steps_one.2 edge)⟩
    · obtain ⟨a, rfl, edge⟩ := (listed text).1 nearby
      obtain ⟨b, same, -, further⟩ := (deeper _).1 distant
      exact further (once same ▸ edge)
    · obtain ⟨a, same, edge⟩ := (listed _).1 mem
      exact apart (once same ▸ edge)
    · obtain ⟨a, same, ⟨n, positive, admitted, walk⟩, -⟩ := (deeper _).1 mem
      exact straight n positive admitted (once same ▸ walk)

end Closure

namespace LayeredSnapshotIndex

variable (layered : LayeredSnapshotIndex)

private theorem mem_overlayDependencyDiff {file source : String} {dependents : List String}
    {diffs : List DependencyDiff}
    (mem : source ∈ diffs.foldl (overlayDependencyDiff file) dependents) :
    source ∈ diffs.map DependencyDiff.sourceFile ∨ source ∈ dependents := by
  rw [mem_map]
  refine foldl_or (source ∈ ·) (fun dependents diff listed => ?_) mem
  let kept := if file ∈ diff.removedDependencies then
    dependents.filter fun source => source ≠ diff.sourceFile else dependents
  have old : source ∈ kept → source ∈ dependents := by
    intro listed
    unfold kept at listed
    split_ifs at listed
    · exact mem_of_mem_filter listed
    · exact listed
  change source ∈ if file ∈ diff.addedDependencies ∧ diff.sourceFile ∉ kept then
    kept ++ [diff.sourceFile] else kept at listed
  split_ifs at listed
  · exact (mem_append.1 listed).symm.imp (fun new => (mem_singleton.1 new).symm) old
  · exact Or.inr (old listed)

theorem mem_dependentRange (file : String) :
    ∀ source ∈ layered.dependentsOf file, source ∈ layered.dependentRange := by
  intro source mem
  rw [dependentsOf] at mem
  split_ifs at mem
  · cases mem
  · rcases @foldl_or _ _ (source ∈ ·) _ (overlayFileDependents file) (fun _ _ listed =>
      (mem_overlayDependencyDiff listed).imp_right mem_of_mem_filter) _ _ mem with added | base
    · exact mem_append_right _ (mem_flatMap.2 added)
    · exact mem_append_left _ (FileDependencyGraph.mem_getAllFiles_of_mem_getDependents _ base)

theorem mem_callerRange (callee : EntityId) :
    ∀ caller ∈ layered.getCallersByCalleeEntity callee, caller ∈ layered.callerRange := by
  intro caller mem
  have bounded : ∀ {callers : List EntityId}, caller ∈ boundedCallers callers → caller ∈ callers :=
    fun listed => SortedVec.mem_ofList.1 (SortedVec.mem_toList.1 (mem_of_mem_take listed))
  rw [getCallersByCalleeEntity] at mem
  split_ifs at mem
  · cases mem
  · have one : ∀ (callers : List EntityId) (delta : SnapshotDelta),
        caller ∈ overlayCallers callee callers delta →
          caller ∈ delta.addedRelations.map ResolvedRelation.caller ∨ caller ∈ callers := by
      intro callers delta listed
      rcases RepresentsReplay.mem_overlayCallers.1 listed with old | ⟨added, addedMem, rfl, -⟩
      · exact Or.inr old.1
      · exact Or.inl (mem_map_of_mem addedMem)
    rcases foldl_or (caller ∈ ·) one (bounded mem) with added | base
    · exact mem_append_right _ (mem_flatMap.2 added)
    · refine mem_append_left _ (mem_flatMap.2 ⟨callee, ?_, base⟩)
      rw [RelationSnapshotIndex.getCallersByCalleeEntity] at base
      split at base
      · next callers found =>
        exact mem_append_left _ (HashMap.mem_keys_iff.2 ⟨callers, found⟩)
      · have listed := bounded base
        rw [callersAt] at listed
        cases found : layered.base.index.reverseCalleeIndex.lookup callee with
        | none =>
          rw [found] at listed
          cases listed
        | some set => exact mem_append_right _ (HashMap.mem_keys_iff.2 ⟨set, found⟩)

end LayeredSnapshotIndex

namespace CallChainQuery

variable (query : CallChainQuery)

theorem impactExact_getChangeImpact (file : String) (maxDepth : Nat) :
    ImpactExact query.index.dependentsOf id file maxDepth (query.getChangeImpact file maxDepth) ↔
      NoReturn query.index.dependentsOf file maxDepth := by
  refine impactExact_new_iff Function.injective_id _ (fun text => ?_) fun text => ?_
  · rw [HashSet.mem_toList, HashSet.mem_ofList]
    simp only [id, exists_eq_left]
  · rw [mem_filter, decide_eq_true_eq, HashSet.mem_ofList]
    simp only [id, exists_eq_left]
    exact and_congr_left fun _ =>
      mem_collectTransitive query.index.mem_dependentRange (Nat.lt_succ_self _)

variable (entityId : EntityId)

private theorem mem_indirectCallers (maxDepth : Nat) (a : EntityId) :
    a ∈ query.indirectCallers entityId maxDepth ↔
      (∃ n, 1 ≤ n ∧ Admitted maxDepth n ∧ Steps query.getCallersByEntity n entityId a) ∧
        a ∉ query.getCallersByEntity entityId := by
  rw [indirectCallers,
    mem_levelSearch_successors fun a => HashSet.mem_toList.trans HashSet.mem_ofList]
  refine and_congr_left fun _ => ⟨?_, ?_⟩
  · rintro ⟨n, positive, within, walk⟩
    refine ⟨n, positive, ?_, walk⟩
    unfold Admitted
    split_ifs at within <;> omega
  · rintro ⟨n, positive, admitted, walk⟩
    split_ifs with unbounded
    · obtain ⟨m, more, short, reached⟩ :=
        Steps.exists_le_length query.index.mem_callerRange positive walk
      exact ⟨m, more, Nat.le_succ_of_le short, reached⟩
    · exact ⟨n, positive, by unfold Admitted at admitted; omega, walk⟩

theorem impactExact_getEntityImpact (maxDepth : Nat) {scope : String}
    (entityScope : scope ≠ "file") :
    ImpactExact query.getCallersByEntity toString entityId maxDepth
        (query.getEntityImpact entityId maxDepth scope) ↔
      NoReturn query.getCallersByEntity entityId maxDepth := by
  have once : Function.Injective (toString : EntityId → String) := by
    intro a b same
    have digits : Nat.toDigits 10 a = Nat.toDigits 10 b := by
      rw [← Nat.toList_repr, ← Nat.toList_repr]
      exact congrArg String.toList same
    rw [← Nat.ofDigitChars_ten_toDigits (n := a), digits, Nat.ofDigitChars_ten_toDigits]
  rw [getEntityImpact, if_neg entityScope]
  refine impactExact_new_iff once _ (fun text => ?_) fun text => ?_
  · rw [HashSet.mem_toList, HashSet.mem_ofList, mem_map]
    exact exists_congr fun a => and_comm
  · rw [mem_map]
    refine exists_congr fun a => ?_
    rw [mem_indirectCallers, and_comm]

/-- The analysis in either scope is the closure of that scope's graph. -/
def EntityImpactExact (maxDepth : Nat) (scope : String) : Prop :=
  if scope = "file" then
    ∀ file, query.index.getFilePathByEntity entityId = some file →
      ImpactExact query.index.dependentsOf id file maxDepth
        (query.getEntityImpact entityId maxDepth scope)
  else
    ImpactExact query.getCallersByEntity toString entityId maxDepth
      (query.getEntityImpact entityId maxDepth scope)

/-- No cycle of the scope's graph leads back; a file without a name is not analysed. -/
def ScopeNoReturn (maxDepth : Nat) (scope : String) : Prop :=
  if scope = "file" then
    ∀ file, query.index.getFilePathByEntity entityId = some file →
      if file = "" then ∀ dependent ∈ query.index.dependentsOf file, dependent = file
      else NoReturn query.index.dependentsOf file maxDepth
  else NoReturn query.getCallersByEntity entityId maxDepth

private theorem impactExact_unnamed_iff {dependentsOf : String → List String}
    {changed file : String}
    {maxDepth : Nat} :
    ImpactExact dependentsOf id file maxDepth (.new changed [] []) ↔
      ∀ dependent ∈ dependentsOf file, dependent = file := by
  constructor
  · intro exactly dependent edge
    by_contra other
    exact not_mem_nil ((exactly.direct dependent).2 ⟨dependent, rfl, other, edge⟩)
  · intro alone
    have stays : ∀ n a, Steps dependentsOf n file a → a = file := by
      intro n
      induction n with
      | zero => exact fun a same => same.symm
      | succ n ih =>
        rintro a ⟨b, walk, edge⟩
        exact alone a (ih b walk ▸ edge)
    have near : (ImpactAnalysis.new changed [] []).directDependents = [] := rfl
    have far : (ImpactAnalysis.new changed [] []).indirectDependents = [] := rfl
    constructor
    · intro text
      rw [near]
      refine ⟨fun mem => absurd mem not_mem_nil, ?_⟩
      rintro ⟨a, -, other, edge⟩
      exact absurd (alone a edge) other
    · intro text
      rw [far]
      refine ⟨fun mem => absurd mem not_mem_nil, ?_⟩
      rintro ⟨a, n, -, deep, -, walk, least⟩
      exact absurd (stays n a walk).symm (least 0 (by omega))
    · exact fun text mem => absurd mem not_mem_nil
    · exact ⟨nodup_nil, nodup_nil⟩
    · exact ⟨not_mem_nil, not_mem_nil⟩

/-- Every analysis is the reverse closure of its scope exactly if no cycle within the depth leads
    back to what was changed. -/
theorem impactsExact_iff (file : String) (entityId : EntityId) (scope : String) (maxDepth : Nat) :
    (ImpactExact query.index.dependentsOf id file maxDepth (query.getChangeImpact file maxDepth) ↔
        NoReturn query.index.dependentsOf file maxDepth) ∧
      (query.EntityImpactExact entityId maxDepth scope ↔
        query.ScopeNoReturn entityId maxDepth scope) := by
  refine ⟨query.impactExact_getChangeImpact file maxDepth, ?_⟩
  rw [EntityImpactExact, ScopeNoReturn]
  split_ifs with fileScope
  · refine forall_congr' fun path => imp_congr_right fun known => ?_
    have named : query.getEntityImpact entityId maxDepth scope =
        if path = "" then .new (toString entityId) [] []
        else query.getChangeImpact path maxDepth := by
      rw [getEntityImpact, if_pos fileScope, known]
      rfl
    rw [named]
    split_ifs
    · exact impactExact_unnamed_iff
    · exact query.impactExact_getChangeImpact path maxDepth
  · exact query.impactExact_getEntityImpact entityId maxDepth fileScope

end CallChainQuery

section Sample

/-- A function that calls itself. -/
def recursiveCall : CallChainQuery :=
  ⟨⟨.fromIndexShared (indexOf [1] [callOf 1 1]), []⟩⟩

theorem not_entityImpactExact_recursiveCall :
    ¬recursiveCall.EntityImpactExact 1 10 "entity" := by
  intro exactly
  have calls : 1 ∈ recursiveCall.getCallersByEntity 1 := by decide
  exact (recursiveCall.impactExact_getEntityImpact 1 10 (by decide)).1 exactly 1 (by decide)
    (Or.inr (by decide)) ⟨1, rfl, calls⟩

end Sample

end ContextEngine

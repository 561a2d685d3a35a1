/- digest: When the path search is sound, complete and shortest. -/

import ContextEngine.Lib.PathQueue
import ContextEngine.Query.CallChain

set_option autoImplicit false

namespace ContextEngine

open List Search PathQueue

namespace CallChainTraverser

variable {Index : Type} [SnapshotQueryIndex Index] (traverser : CallChainTraverser Index)

/-- The entities one passing edge forward. -/
def callees : EntityId → List EntityId := successors PathElement.entityId traverser.forwardElements

/-- A stored edge from one entity to another that passes the filter. -/
structure PassingCall (source target : EntityId) (relation : ResolvedRelation) : Prop where
  stored : relation ∈
    (SnapshotQueryIndex.getResolvedRelationsByCaller traverser.index source).getD []
  passes : traverser.config.relationPassesFilter relation = true
  target : relation.calleeId = some target

variable {traverser}

theorem mem_forwardElements {source : EntityId} {element : PathElement} :
    element ∈ traverser.forwardElements source ↔
      ∃ target relation, traverser.PassingCall source target relation ∧
        element = .ofEdge target relation := by
  unfold forwardElements
  rw [mem_filterMap]
  constructor
  · rintro ⟨relation, mem, found⟩
    obtain ⟨target, ends, rfl⟩ := Option.map_eq_some_iff.1 found
    exact ⟨target, relation, ⟨(mem_filter.1 mem).1, (mem_filter.1 mem).2, ends⟩, rfl⟩
  · rintro ⟨target, relation, ⟨stored, passes, ends⟩, rfl⟩
    exact ⟨relation, mem_filter.2 ⟨stored, passes⟩, by rw [ends]; rfl⟩

theorem mem_callees {source target : EntityId} :
    target ∈ traverser.callees source ↔
      ∃ relation, traverser.PassingCall source target relation := by
  unfold callees successors
  rw [mem_map]
  constructor
  · rintro ⟨element, mem, rfl⟩
    obtain ⟨target, relation, passing, rfl⟩ := mem_forwardElements.1 mem
    exact ⟨relation, passing⟩
  · rintro ⟨relation, passing⟩
    exact ⟨.ofEdge target relation, mem_forwardElements.2 ⟨target, relation, passing, rfl⟩, rfl⟩

section Fresh

variable {visited : HashSet EntityId} {elements : List PathElement}

theorem mem_unvisitedElements {element : PathElement}
    (mem : element ∈ (unvisitedElements visited elements).1) :
    element ∈ elements ∧ element.entityId ∉ visited := by
  induction elements generalizing visited with
  | nil => cases mem
  | cons first elements ih =>
    unfold unvisitedElements at mem
    split_ifs at mem with marked
    · exact ⟨mem_cons_of_mem _ (ih mem).1, (ih mem).2⟩
    · rcases mem_cons.1 mem with rfl | later
      · exact ⟨mem_cons_self, marked⟩
      · obtain ⟨listed, unmarked⟩ := ih later
        exact ⟨mem_cons_of_mem _ listed, fun old =>
          unmarked (HashSet.mem_insert.2 (Or.inr old))⟩

theorem nodup_unvisitedElements :
    ((unvisitedElements visited elements).1.map PathElement.entityId).Nodup := by
  induction elements generalizing visited with
  | nil => exact nodup_nil
  | cons first elements ih =>
    unfold unvisitedElements
    split_ifs
    · exact ih
    · refine nodup_cons.2 ⟨fun again => ?_, ih⟩
      obtain ⟨element, mem, same⟩ := mem_map.1 again
      exact (mem_unvisitedElements mem).2 (HashSet.mem_insert.2 (Or.inl same))

theorem mem_marked_unvisitedElements {entityId : EntityId} :
    entityId ∈ (unvisitedElements visited elements).2 ↔ entityId ∈ visited ∨
      entityId ∈ (unvisitedElements visited elements).1.map PathElement.entityId := by
  induction elements generalizing visited with
  | nil => simp [unvisitedElements]
  | cons first elements ih =>
    unfold unvisitedElements
    split_ifs with marked
    · exact ih
    · rw [ih, HashSet.mem_insert, map_cons, mem_cons]
      tauto

theorem marked_of_mem {element : PathElement} (mem : element ∈ elements) :
    element.entityId ∈ visited ∨
      element.entityId ∈ (unvisitedElements visited elements).1.map PathElement.entityId := by
  induction elements generalizing visited with
  | nil => cases mem
  | cons first elements ih =>
    unfold unvisitedElements
    split_ifs with marked
    · rcases mem_cons.1 mem with rfl | later
      · exact Or.inl marked
      · exact ih later
    · rw [map_cons, mem_cons]
      rcases mem_cons.1 mem with rfl | later
      · exact Or.inr (Or.inl rfl)
      · have rest : element.entityId ∈ visited.insert first.entityId ∨ _ := ih later
        rcases rest with old | new
        · rcases HashSet.mem_insert.1 old with same | old
          · exact Or.inr (Or.inl same)
          · exact Or.inl old
        · exact Or.inr (Or.inr new)

theorem fresh_unvisitedElements (source : EntityId) :
    Fresh PathElement.entityId traverser.forwardElements (· ∈ visited) source
      (unvisitedElements visited (traverser.forwardElements source)).1 where
  mem _ mem := (mem_unvisitedElements mem).1
  unmarked _ mem := (mem_unvisitedElements mem).2
  once := nodup_unvisitedElements
  all b edge := by
    obtain ⟨element, mem, rfl⟩ := mem_map.1 edge
    exact marked_of_mem mem

end Fresh

section Loop

variable (traverser) (startId endId : EntityId)

def dequeued : Nat → List (List PathElement) → HashSet EntityId → List EntityId
  | _, [], _ => []
  | 0, path :: _, _ => (path.getLast?.map PathElement.entityId).toList
  | budget + 1, path :: queue, visited =>
    (path.getLast?.map PathElement.entityId).toList ++
      if wrappingAdd traverser.config.maxDepth 1 < path.length then dequeued budget queue visited
      else
        match path.getLast? with
        | none => []
        | some last =>
          if last.entityId = endId then []
          else
            let fresh := unvisitedElements visited (traverser.forwardElements last.entityId)
            dequeued budget (queue ++ fresh.1.map fun element => path ++ [element]) fresh.2

/-- A path from the start to the end, within the bound and as short as any walk. -/
structure ShortestRoute (path : List PathElement) : Prop where
  route : ∃ last, Route PathElement.entityId traverser.forwardElements { entityId := startId }
    path last ∧ last.entityId = endId
  within : path.length ≤ traverser.config.maxDepth + 1
  shortest : ∀ n, Steps traverser.callees n startId endId → path.length ≤ n + 1

/-- What the loop can answer, with the entities taken before. -/
structure LoopOutcome (taken : List EntityId) (budget : Nat) (queue : List (List PathElement))
    (visited : HashSet EntityId) : Prop where
  found : ∀ path, traverser.findPathLoop startId endId budget queue visited = .ok (some path) →
    ShortestRoute traverser startId endId path
  absent : traverser.findPathLoop startId endId budget queue visited = .ok none →
    ∀ n ≤ traverser.config.maxDepth, ¬Steps traverser.callees n startId endId
  stopped : ∀ failure,
    traverser.findPathLoop startId endId budget queue visited = .error failure →
      (∃ message, failure = .traversal message) ∧
      (taken ++ dequeued traverser endId budget queue visited).Nodup ∧
      budget < (dequeued traverser endId budget queue visited).length

variable {traverser startId endId} {visited : HashSet EntityId} {budget : Nat}

theorem findPathLoop_of_long {queue : List (List PathElement)}
    (long : ∀ path ∈ queue, wrappingAdd traverser.config.maxDepth 1 < path.length) :
    (∀ path, traverser.findPathLoop startId endId budget queue visited ≠ .ok (some path)) ∧
    ∀ failure, traverser.findPathLoop startId endId budget queue visited = .error failure →
      (∃ message, failure = .traversal message) ∧
      dequeued traverser endId budget queue visited =
        ends PathElement.entityId (queue.take (budget + 1)) ∧ budget < queue.length := by
  induction budget generalizing queue with
  | zero =>
    cases queue with
    | nil =>
      refine ⟨fun path => ?_, fun failure => ?_⟩
      · rw [findPathLoop]
        simp
      · rw [findPathLoop]
        simp
    | cons path queue =>
      refine ⟨fun path => ?_, fun failure stopped => ?_⟩
      · rw [findPathLoop]
        simp
      · rw [findPathLoop] at stopped
        cases stopped
        refine ⟨⟨_, rfl⟩, ?_, by simp⟩
        cases last : path.getLast? <;> simp [dequeued, ends, last]
  | succ budget ih =>
    cases queue with
    | nil =>
      refine ⟨fun path => ?_, fun failure => ?_⟩
      · rw [findPathLoop]
        simp
      · rw [findPathLoop]
        simp
    | cons path queue =>
      have far := long path mem_cons_self
      obtain ⟨none, stops⟩ := ih fun path mem => long path (mem_cons_of_mem _ mem)
      rw [findPathLoop, if_pos far, dequeued, if_pos far]
      refine ⟨none, fun failure stopped => ?_⟩
      obtain ⟨kind, taken, less⟩ := stops failure stopped
      refine ⟨kind, ?_, by simpa using less⟩
      cases last : path.getLast? <;> simp [taken, ends, last]

theorem length_ends {queue : List (List PathElement)}
    (routes : ∀ path ∈ queue, ∃ last, Route PathElement.entityId traverser.forwardElements
      { entityId := startId } path last) :
    (ends PathElement.entityId queue).length = queue.length := by
  induction queue with
  | nil => rfl
  | cons path queue ih =>
    obtain ⟨last, route⟩ := routes path mem_cons_self
    rw [ends_cons route, length_cons, length_cons,
      ih fun path mem => routes path (mem_cons_of_mem _ mem)]

theorem findPathLoop_outcome_nil {taken : List EntityId}
    (inv : PathQueue.Invariant PathElement.entityId traverser.forwardElements
      { entityId := startId } taken [] (· ∈ visited)) (unmet : endId ∉ taken) :
    LoopOutcome traverser startId endId taken budget [] visited := by
  have none : traverser.findPathLoop startId endId budget [] visited = .ok none := by
    cases budget <;> rw [findPathLoop]
  refine ⟨fun path found => ?_, fun _ n _ walk => ?_, fun failure stopped => ?_⟩
  · rw [none] at found
    cases found
  · rcases inv.cut walk with old | ⟨path, mem, -⟩
    · exact unmet old
    · cases mem
  · rw [none] at stopped
    cases stopped

/-- Where the bound plus one does not wrap around, the loop answers as it should. -/
theorem findPathLoop_outcome
    (exact : wrappingAdd traverser.config.maxDepth 1 = traverser.config.maxDepth + 1)
    {taken : List EntityId} {queue : List (List PathElement)}
    (inv : PathQueue.Invariant PathElement.entityId traverser.forwardElements
      { entityId := startId } taken queue (· ∈ visited)) (unmet : endId ∉ taken) :
    LoopOutcome traverser startId endId taken budget queue visited := by
  induction budget generalizing taken queue visited with
  | zero =>
    cases queue with
    | nil => exact findPathLoop_outcome_nil inv unmet
    | cons path queue =>
      obtain ⟨last, route⟩ := inv.routes path mem_cons_self
      refine ⟨fun path found => ?_, fun found => ?_, fun failure stopped => ?_⟩
      · rw [findPathLoop] at found
        cases found
      · rw [findPathLoop] at found
        cases found
      · rw [findPathLoop] at stopped
        cases stopped
        have once := inv.once
        rw [ends_cons route, append_cons] at once
        rw [dequeued, route.getLast?]
        exact ⟨⟨_, rfl⟩, once.of_append_left, by simp⟩
  | succ budget ih =>
    cases queue with
    | nil => exact findPathLoop_outcome_nil inv unmet
    | cons path queue =>
      obtain ⟨last, route⟩ := inv.routes path mem_cons_self
      by_cases far : traverser.config.maxDepth + 1 < path.length
      · -- everything behind a path that is too long is too long as well
        have long : ∀ other ∈ path :: queue,
            wrappingAdd traverser.config.maxDepth 1 < other.length := by
          intro other mem
          rw [exact]
          rcases mem_cons.1 mem with rfl | later
          · exact far
          · exact Nat.lt_of_lt_of_le far ((pairwise_cons.1 inv.ascending).1 other later)
        obtain ⟨none, stops⟩ := findPathLoop_of_long long
        refine ⟨fun found answer => absurd answer (none found), fun _ n within walk => ?_,
          fun failure stopped => ?_⟩
        · rcases inv.cut walk with old | ⟨other, mem, short⟩
          · exact unmet old
          · have := long other mem
            rw [exact] at this
            omega
        · obtain ⟨kind, taken', less⟩ := stops failure stopped
          rw [taken']
          have listed : ends PathElement.entityId ((path :: queue).take (budget + 1 + 1)) <+:
              ends PathElement.entityId (path :: queue) :=
            (List.take_prefix _ _).filterMap _
          refine ⟨kind, inv.once.sublist (listed.sublist.append_left taken), ?_⟩
          rw [length_ends fun other mem => inv.routes other (mem_of_mem_take mem),
            length_take]
          omega
      · by_cases met : last.entityId = endId
        · refine ⟨fun answer found => ?_, fun found => ?_, fun failure stopped => ?_⟩
          · rw [findPathLoop, exact, if_neg far, route.getLast?] at found
            simp only [met, if_true, Except.ok.injEq, Option.some.injEq] at found
            subst found
            refine ⟨⟨last, route, met⟩, Nat.not_lt.1 far, fun n walk => ?_⟩
            exact inv.shortest path mem_cons_self last route n (met ▸ walk)
          · rw [findPathLoop, exact, if_neg far, route.getLast?] at found
            simp [met] at found
          · rw [findPathLoop, exact, if_neg far, route.getLast?] at stopped
            simp [met] at stopped
        · have fresh : Fresh PathElement.entityId traverser.forwardElements (· ∈ visited)
              last.entityId _ := fresh_unvisitedElements last.entityId
          have unmet' : endId ∉ taken ++ [last.entityId] := by
            simp [unmet, Ne.symm met]
          obtain ⟨found, absent, stopped⟩ := ih
            (inv.take route fresh fun _ => mem_marked_unvisitedElements) unmet'
          have loop : traverser.findPathLoop startId endId (budget + 1) (path :: queue)
              visited = traverser.findPathLoop startId endId budget
                (queue ++ (unvisitedElements visited
                  (traverser.forwardElements last.entityId)).1.map fun element => path ++ [element])
                (unvisitedElements visited (traverser.forwardElements last.entityId)).2 := by
            rw [findPathLoop, exact, if_neg far, route.getLast?]
            simp only [met, if_false]
          have order : dequeued traverser endId (budget + 1) (path :: queue) visited =
              last.entityId :: dequeued traverser endId budget (queue ++ (unvisitedElements visited
                  (traverser.forwardElements last.entityId)).1.map fun element => path ++ [element])
                (unvisitedElements visited (traverser.forwardElements last.entityId)).2 := by
            rw [dequeued, exact, if_neg far, route.getLast?]
            simp only [met, if_false]
            rfl
          refine ⟨?_, ?_, fun failure failed => ?_⟩
          · rw [loop]
            exact found
          · rw [loop]
            exact absent
          · rw [loop] at failed
            obtain ⟨kind, once, more⟩ := stopped failure failed
            rw [order, append_cons, length_cons]
            exact ⟨kind, once, Nat.succ_lt_succ more⟩

end Loop

section Nodes

variable (startId endId : EntityId)

/-- A chain of nodes from the start to the end; each node records the passing edge it is reached
by. -/
structure IsCallPath (traverser : CallChainTraverser Index) (nodes : List CallChainNode) :
    Prop where
  starts : nodes.head?.map CallChainNode.functionId = some startId
  ends : nodes.getLast?.map CallChainNode.functionId = some endId
  joined : nodes.IsChain fun first second =>
    ∃ relation, traverser.PassingCall first.functionId second.functionId relation ∧
      second.relationType = relation.relationType ∧ second.ownerType = relation.ownerType ∧
      second.callContext = relation.callContext

/-- A call path within the bound, as short as any walk along passing edges. -/
structure IsShortestCallPath (traverser : CallChainTraverser Index)
    (nodes : List CallChainNode) : Prop where
  path : IsCallPath startId endId traverser nodes
  within : nodes.length ≤ traverser.config.maxDepth + 1
  shortest : ∀ n, Steps traverser.callees n startId endId → nodes.length ≤ n + 1

variable {startId endId}

@[simp] theorem length_buildPathNodes (path : List PathElement) :
    (traverser.buildPathNodes path).length = path.length := by
  rw [buildPathNodes, length_map, length_zipIdx]

theorem map_functionId_buildPathNodes (path : List PathElement) :
    (traverser.buildPathNodes path).map CallChainNode.functionId =
      path.map PathElement.entityId := by
  rw [buildPathNodes, map_map]
  conv_rhs => rw [← zipIdx_map_fst 0 path, map_map]
  rfl

theorem isChain_buildPathNodes {path : List PathElement} (chain : path.IsChain fun first second =>
      second ∈ traverser.forwardElements first.entityId) :
    (traverser.buildPathNodes path).IsChain fun first second =>
      ∃ relation, traverser.PassingCall first.functionId second.functionId relation ∧
        second.relationType = relation.relationType ∧ second.ownerType = relation.ownerType ∧
        second.callContext = relation.callContext := by
  rw [← zipIdx_map_fst 0 path, isChain_map] at chain
  rw [buildPathNodes, isChain_map]
  refine chain.imp ?_
  rintro ⟨first, i⟩ ⟨second, j⟩ edge
  obtain ⟨target, relation, passing, rfl⟩ := mem_forwardElements.1 edge
  exact ⟨relation, passing, rfl, rfl, rfl⟩

theorem ShortestRoute.nodes {path : List PathElement}
    (found : ShortestRoute traverser startId endId path) :
    IsShortestCallPath startId endId traverser (traverser.buildPathNodes path) := by
  obtain ⟨⟨last, route, met⟩, within, shortest⟩ := found
  have ids : (traverser.buildPathNodes path).map CallChainNode.functionId = _ :=
    map_functionId_buildPathNodes path
  refine ⟨⟨?_, ?_, isChain_buildPathNodes route.isChain⟩, ?_, fun n walk => ?_⟩
  · rw [← head?_map, ids, head?_map, route.head?]
    rfl
  · rw [← getLast?_map, ids, getLast?_map, route.getLast?, ← met]
    rfl
  · rw [length_buildPathNodes]
    exact within
  · rw [length_buildPathNodes]
    exact shortest n walk

end Nodes

section Search

variable (traverser) (startId endId : EntityId)

/-- The entities that a search takes from its queue. -/
def searched : List EntityId :=
  dequeued traverser endId traverser.config.maxNodes [[{ entityId := startId }]]
    ((∅ : HashSet EntityId).insert startId)

/-- A path is found if there is one within the bound, and it is a shortest one, unless more
entities than the node limit were taken. -/
structure PathSearchExact : Prop where
  sound : ∀ nodes, traverser.findPath startId endId = .ok (some nodes) →
    IsShortestCallPath startId endId traverser nodes
  complete : (∃ n ≤ traverser.config.maxDepth, Steps traverser.callees n startId endId) →
    (∃ nodes, traverser.findPath startId endId = .ok (some nodes)) ∨
      ∃ message, traverser.findPath startId endId = .error (.traversal message)
  limited : ∀ message, traverser.findPath startId endId = .error (.traversal message) →
    (searched traverser startId endId).Nodup ∧
      traverser.config.maxNodes < (searched traverser startId endId).length

/-- Two known functions and a configuration that validates. -/
structure SearchReady : Prop where
  start : (SnapshotQueryIndex.getFunctionByEntityId traverser.index startId).isSome = true
  target : (SnapshotQueryIndex.getFunctionByEntityId traverser.index endId).isSome = true
  depth : 0 < traverser.config.maxDepth
  nodes : 0 < traverser.config.maxNodes

variable {traverser startId endId}

theorem findPath_of_loop (ready : SearchReady traverser startId endId) :
    (∀ failure, traverser.findPathLoop startId endId traverser.config.maxNodes
        [[{ entityId := startId }]] ((∅ : HashSet EntityId).insert startId) = .error failure →
      traverser.findPath startId endId = .error failure) ∧
    (∀ path, traverser.findPathLoop startId endId traverser.config.maxNodes
        [[{ entityId := startId }]] ((∅ : HashSet EntityId).insert startId) = .ok (some path) →
      traverser.findPath startId endId = .ok (some (traverser.buildPathNodes path))) ∧
    (traverser.findPathLoop startId endId traverser.config.maxNodes
        [[{ entityId := startId }]] ((∅ : HashSet EntityId).insert startId) = .ok none →
      traverser.findPath startId endId = .ok none ∨
        traverser.config.debug = true ∧ ∃ source target, traverser.findPath startId endId =
          .error (.pathNotFound source target traverser.config.maxDepth)) := by
  obtain ⟨startFunc, startFound⟩ := Option.isSome_iff_exists.1 ready.start
  obtain ⟨endFunc, endFound⟩ := Option.isSome_iff_exists.1 ready.target
  have valid : traverser.config.validate = .ok () := by
    rw [TraversalConfig.validate, if_neg ready.depth.ne', if_neg ready.nodes.ne']
  unfold findPath
  rw [valid, startFound, endFound]
  simp only [bind, Except.bind]
  refine ⟨fun failure loop => ?_, fun path loop => ?_, fun loop => ?_⟩
  · rw [loop]
  · rw [loop]
  · rw [loop]
    simp only
    split_ifs with debug
    · exact Or.inr ⟨debug, _, _, rfl⟩
    · exact Or.inl rfl

omit [SnapshotQueryIndex Index] in
theorem wrappingAdd_maxDepth (below : traverser.config.maxDepth < usizeMax) :
    wrappingAdd traverser.config.maxDepth 1 = traverser.config.maxDepth + 1 :=
  Nat.mod_eq_of_lt (by omega)

theorem findPathLoop_largest (largest : traverser.config.maxDepth = usizeMax)
    (some : 0 < traverser.config.maxNodes) :
    traverser.findPathLoop startId endId traverser.config.maxNodes [[{ entityId := startId }]]
      ((∅ : HashSet EntityId).insert startId) = .ok none := by
  obtain ⟨budget, rounds⟩ := Nat.exists_eq_succ_of_ne_zero some.ne'
  have wraps : wrappingAdd traverser.config.maxDepth 1 = 0 := by
    rw [wrappingAdd, largest, Nat.mod_self]
  rw [rounds, findPathLoop, wraps, if_pos (by simp)]
  cases budget <;> rfl

/-- A search that answers was asked for two known functions under a valid configuration. -/
theorem ready_of_findPath {answer : Option (List CallChainNode)}
    (found : traverser.findPath startId endId = .ok answer) :
    SearchReady traverser startId endId := by
  unfold findPath at found
  cases valid : traverser.config.validate with
  | error failure => simp [valid, bind, Except.bind] at found
  | ok _ =>
    obtain ⟨deep, some⟩ := traverser.config.pos_of_validate valid
    simp only [valid, bind, Except.bind] at found
    cases source : SnapshotQueryIndex.getFunctionByEntityId traverser.index startId with
    | none => simp [source] at found
    | some startFunc =>
      cases target : SnapshotQueryIndex.getFunctionByEntityId traverser.index endId with
      | none => simp [source, target] at found
      | some endFunc => exact ⟨by simp [source], by simp [target], deep, some⟩

theorem pathSearchExact_of_absent (ready : SearchReady traverser startId endId)
    (loop : traverser.findPathLoop startId endId traverser.config.maxNodes
      [[{ entityId := startId }]] ((∅ : HashSet EntityId).insert startId) = .ok none)
    (none : ∀ n ≤ traverser.config.maxDepth, ¬Steps traverser.callees n startId endId) :
    PathSearchExact traverser startId endId := by
  have answer := (findPath_of_loop ready).2.2 loop
  refine ⟨fun nodes same => ?_, fun ⟨n, within, walk⟩ => absurd walk (none n within),
    fun message same => ?_⟩ <;>
  · rcases answer with other | ⟨-, source, target, other⟩ <;>
      exact absurd (same.symm.trans other) (by simp)

theorem loopOutcome_of_below (below : traverser.config.maxDepth < usizeMax) :
    LoopOutcome traverser startId endId [] traverser.config.maxNodes [[{ entityId := startId }]]
      ((∅ : HashSet EntityId).insert startId) := by
  have start : PathQueue.Invariant PathElement.entityId traverser.forwardElements
      { entityId := startId } [] [[{ entityId := startId }]]
      (· ∈ (∅ : HashSet EntityId).insert startId) := .initial (by simp)
  exact findPathLoop_outcome (wrappingAdd_maxDepth below) start not_mem_nil

theorem pathSearchExact_of_below (ready : SearchReady traverser startId endId)
    (below : traverser.config.maxDepth < usizeMax) :
    PathSearchExact traverser startId endId := by
  obtain ⟨failed, found, -⟩ := findPath_of_loop ready
  have outcome : LoopOutcome traverser startId endId [] traverser.config.maxNodes _ _ :=
    loopOutcome_of_below below
  cases loop : traverser.findPathLoop startId endId traverser.config.maxNodes
      [[{ entityId := startId }]] ((∅ : HashSet EntityId).insert startId) with
  | error failure =>
    obtain ⟨⟨message, rfl⟩, once, more⟩ := outcome.stopped failure loop
    have answer := failed _ loop
    refine ⟨fun nodes found => ?_, fun _ => Or.inr ⟨message, answer⟩, fun _ _ => ?_⟩
    · rw [answer] at found
      cases found
    · exact ⟨once, more⟩
  | ok result =>
    cases result with
    | some path =>
      have answer := found path loop
      refine ⟨fun nodes same => ?_, fun _ => Or.inl ⟨_, answer⟩, fun message same => ?_⟩
      · rw [answer, Except.ok.injEq, Option.some.injEq] at same
        exact same ▸ (outcome.found path loop).nodes
      · rw [answer] at same
        cases same
    | none => exact pathSearchExact_of_absent ready loop (outcome.absent loop)

/-- The search is exact unless its bound is the largest number and there is a path to find. -/
theorem pathSearchExact_iff (ready : SearchReady traverser startId endId) :
    PathSearchExact traverser startId endId ↔ traverser.config.maxDepth < usizeMax ∨
      ∀ n ≤ traverser.config.maxDepth, ¬Steps traverser.callees n startId endId := by
  constructor
  · intro exact
    by_contra neither
    push Not at neither
    obtain ⟨notBelow, walk⟩ := neither
    have largest := Nat.le_antisymm traverser.config.maxDepth_le notBelow
    have none := (findPath_of_loop ready).2.2 (findPathLoop_largest largest ready.nodes)
    rcases exact.complete walk with ⟨nodes, answer⟩ | ⟨message, answer⟩ <;>
      rcases none with none | ⟨-, source, target, none⟩ <;>
        exact absurd (answer.symm.trans none) (by simp)
  · intro condition
    by_cases below : traverser.config.maxDepth < usizeMax
    · exact pathSearchExact_of_below ready below
    · have largest := Nat.le_antisymm traverser.config.maxDepth_le (Nat.not_lt.1 below)
      exact pathSearchExact_of_absent ready (findPathLoop_largest largest ready.nodes)
        (condition.resolve_left below)

theorem shortest_of_findPath {nodes : List CallChainNode}
    (found : traverser.findPath startId endId = .ok (some nodes)) :
    traverser.config.maxDepth < usizeMax ∧ IsShortestCallPath startId endId traverser nodes := by
  have ready := ready_of_findPath found
  by_cases below : traverser.config.maxDepth < usizeMax
  · exact ⟨below, (pathSearchExact_of_below ready below).sound nodes found⟩
  · have largest := Nat.le_antisymm traverser.config.maxDepth_le (Nat.not_lt.1 below)
    rcases (findPath_of_loop ready).2.2 (findPathLoop_largest largest ready.nodes) with
      none | ⟨-, source, target, none⟩ <;>
    exact absurd (found.symm.trans none) (by simp)

theorem findPath_answers (ready : SearchReady traverser startId endId)
    (quiet : traverser.config.debug = false)
    (unlimited : ∀ message, traverser.findPath startId endId ≠ .error (.traversal message)) :
    ∃ answer, traverser.findPath startId endId = .ok answer := by
  obtain ⟨failed, found, absent⟩ := findPath_of_loop ready
  cases loop : traverser.findPathLoop startId endId traverser.config.maxNodes
      [[{ entityId := startId }]] ((∅ : HashSet EntityId).insert startId) with
  | error failure =>
    by_cases below : traverser.config.maxDepth < usizeMax
    · have outcome : LoopOutcome traverser startId endId [] _ _ _ := loopOutcome_of_below below
      obtain ⟨⟨message, rfl⟩, -, -⟩ := outcome.stopped failure loop
      exact absurd (failed _ loop) (unlimited message)
    · have largest := Nat.le_antisymm traverser.config.maxDepth_le (Nat.not_lt.1 below)
      rw [findPathLoop_largest largest ready.nodes] at loop
      cases loop
  | ok result =>
    cases result with
    | some path => exact ⟨_, found path loop⟩
    | none =>
      rcases absent loop with none | ⟨debug, -⟩
      · exact ⟨_, none⟩
      · rw [quiet] at debug
        cases debug

end Search

section Sample

/-- From the first function to the second, which it calls, at most so deep. -/
def callBetween (maxDepth : Nat) (le : maxDepth ≤ usizeMax) : CallChainTraverser RelationIndex where
  index := indexOf [1, 2] [callOf 1 2]
  config := { maxDepth := maxDepth, maxDepth_le := le }

theorem pathSearchExact_call :
    SearchReady (callBetween 1 (by decide)) 1 2 ∧
      PathSearchExact (callBetween 1 (by decide)) 1 2 := by
  have ready : SearchReady (callBetween 1 (by decide)) 1 2 :=
    ⟨by decide, by decide, by decide, by decide⟩
  exact ⟨ready, (pathSearchExact_iff ready).2 (Or.inl (by decide))⟩

/-- Under the default bound the call is not found. -/
theorem pathSearchExact_fails :
    SearchReady (callBetween usizeMax (Nat.le_refl _)) 1 2 ∧
      (callBetween usizeMax (Nat.le_refl _)).findPath 1 2 = .ok none ∧
      ¬PathSearchExact (callBetween usizeMax (Nat.le_refl _)) 1 2 := by
  have none : (callBetween usizeMax (Nat.le_refl _)).findPath 1 2 = .ok none := by rfl
  have call : 2 ∈ (callBetween usizeMax (Nat.le_refl _)).callees 1 := by decide
  refine ⟨⟨by decide, by decide, by decide, by decide⟩, none, fun exact => ?_⟩
  rcases exact.complete ⟨1, by decide, 1, rfl, call⟩ with ⟨nodes, found⟩ | ⟨message, failed⟩
  · rw [none] at found
    cases found
  · rw [none] at failed
    cases failed

end Sample

end CallChainTraverser

end ContextEngine

/- digest: The search for several shortest paths, and when it answers as Yen's algorithm. -/

import ContextEngine.Lib.NodeWalks
import ContextEngine.Query.PathSearch

set_option autoImplicit false

namespace ContextEngine

open List Search NodeWalks CallChainTraverser

def functionIds (path : List CallChainNode) : List EntityId := path.map CallChainNode.functionId

namespace CallChainTraverser

variable {Index : Type} [SnapshotQueryIndex Index] (traverser : CallChainTraverser Index)
  (endId : EntityId)

/-- The unrestricted path search, with its answer dropped if it uses a removed edge or comes back
to the root. -/
def findSpurPath (spurNode : EntityId) (rootPath : List EntityId)
    (removedEdges : List (EntityId × EntityId)) :
    Except RelationQueryError (Option (List CallChainNode)) := do
  match ← traverser.findPath spurNode endId with
  | none => .ok none
  | some nodes =>
    let hasRemovedEdge := (nodes.zip nodes.tail).any fun window =>
      removedEdges.contains (window.1.functionId, window.2.functionId)
    let hasRootNode := nodes.tail.any fun node => rootPath.contains node.functionId
    if hasRemovedEdge || hasRootNode then .ok none else .ok (some nodes)

/-- The edges by which the paths found so far leave a common root. -/
def edgesToRemove (result : List (List CallChainNode)) (rootPath : List EntityId) (j : Nat) :
    List (EntityId × EntityId) :=
  (result.filter fun path => j < path.length ∧ functionIds (path.take (j + 1)) = rootPath).filterMap
    fun path => path[j]?.bind fun node => path[j + 1]?.map fun following =>
      (node.functionId, following.functionId)

/-- One candidate for each node at which the previous path can be left. -/
def spurLoop (result : List (List CallChainNode)) (prevPath : List CallChainNode) :
    List (CallChainNode × Nat) → List (List CallChainNode) →
      Except RelationQueryError (List (List CallChainNode))
  | [], candidates => .ok candidates
  | (spurNode, j) :: spurs, candidates => do
      let root := prevPath.take (j + 1)
      match ← traverser.findSpurPath endId spurNode.functionId (functionIds root)
          (edgesToRemove result (functionIds root) j) with
      | none => spurLoop result prevPath spurs candidates
      | some spur =>
        let totalPath := root ++ spur
        spurLoop result prevPath spurs
          (if totalPath ∈ result ∨ totalPath ∈ candidates then candidates
          else candidates ++ [totalPath])

/-- The rounds from the `i`-th on; each adds the shortest candidate. -/
def pathRounds : Nat → Nat → List (List CallChainNode) → List (List CallChainNode) →
    Except RelationQueryError (List (List CallChainNode))
  | 0, _, result, _ => .ok result
  | remaining + 1, i, result, candidates => do
      let prevPath := result[i - 1]?.getD []
      let found ← traverser.spurLoop endId result prevPath prevPath.dropLast.zipIdx candidates
      match found.mergeSort fun first second => first.length ≤ second.length with
      | [] => .ok result
      | best :: others => pathRounds remaining (i + 1) (result ++ [best]) others

def kShortestPaths (startId : EntityId) (k : Nat) :
    Except RelationQueryError (List (List CallChainNode)) := do
  if k = 0 then .ok []
  else
    match ← traverser.findPath startId endId with
    | none => .ok []
    | some firstPath => traverser.pathRounds endId (k - 1) 1 [firstPath] []

end CallChainTraverser

namespace CallChainQuery

variable (query : CallChainQuery)

def pathTraverser (maxDepth maxNodes : Nat) (le : maxDepth ≤ usizeMax) :
    CallChainTraverser LayeredSnapshotIndex where
  index := query.index
  config :=
    { maxDepth := maxDepth
      maxNodes := maxNodes
      includeStartNode := true
      maxDepth_le := le }

def findKShortestPaths (startId endId : EntityId) (k maxDepth maxNodes : Nat)
    (le : maxDepth ≤ usizeMax) : Except RelationQueryError (List (List CallChainNode)) :=
  (query.pathTraverser maxDepth maxNodes le).kShortestPaths endId startId k

end CallChainQuery

section Spec

variable {Index : Type} [SnapshotQueryIndex Index] (traverser : CallChainTraverser Index)
  (startId endId : EntityId)

/-- A path without loops along passing edges, within the bound. -/
structure BoundedPath (path : List EntityId) : Prop where
  loopless : Loopless traverser.callees startId endId path
  within : path.length ≤ traverser.config.maxDepth + 1

/-- The answer holds the shortest paths without loops, as many as asked for or all there are. -/
structure KShortest (k : Nat) (paths : List (List CallChainNode)) : Prop where
  distinct : (paths.map functionIds).Nodup
  loopless : ∀ path ∈ paths, BoundedPath traverser startId endId (functionIds path)
  ascending : (paths.map List.length).Pairwise (· ≤ ·)
  few : paths.length ≤ k
  all : paths.length < k → ∀ path, BoundedPath traverser startId endId path →
    path ∈ paths.map functionIds
  shortest : ∀ path, BoundedPath traverser startId endId path → path ∉ paths.map functionIds →
    ∀ found ∈ paths, found.length ≤ path.length

/-- No search from an entity behind the start runs into the node limit. -/
def LimitNotHit : Prop :=
  ∀ source n, Steps traverser.callees n startId source →
    ∀ message, traverser.findPath source endId ≠ .error (.traversal message)

end Spec

section Paths

variable {Index : Type} [SnapshotQueryIndex Index] {t : CallChainTraverser Index}
  {startId endId source : EntityId} {nodes : List CallChainNode}

theorem nodeWalk_of_isCallPath (path : IsCallPath source endId t nodes) :
    NodeWalk t.callees source endId (functionIds nodes) where
  head := by
    rw [functionIds, head?_map]
    exact path.starts
  last := by
    rw [functionIds, getLast?_map]
    exact path.ends
  chain := by
    rw [functionIds, isChain_map]
    refine path.joined.imp fun first second => ?_
    rintro ⟨relation, passing, -⟩
    exact mem_callees.2 ⟨relation, passing⟩

@[simp] theorem length_functionIds : (functionIds nodes).length = nodes.length := length_map ..

theorem boundedPath_of_shortest (shortest : IsShortestCallPath source endId t nodes) :
    BoundedPath t source endId (functionIds nodes) ∧
      ∀ other, NodeWalk t.callees source endId other → nodes.length ≤ other.length := by
  have least : ∀ other, NodeWalk t.callees source endId other → nodes.length ≤ other.length := by
    intro other walk
    obtain ⟨n, length, reached⟩ := walk.steps
    rw [length]
    exact shortest.shortest n reached
  have walk := nodeWalk_of_isCallPath shortest.path
  have once := walk.nodup_of_shortest fun other walk => by
    rw [length_functionIds]
    exact least other walk
  exact ⟨⟨⟨walk, once⟩, length_functionIds ▸ shortest.within⟩, least⟩

theorem not_boundedPath (none : ∀ n ≤ t.config.maxDepth,
    ¬Steps t.callees n source endId) (path : List EntityId) :
    ¬BoundedPath t source endId path := by
  intro bounded
  obtain ⟨n, length, reached⟩ := bounded.loopless.walk.steps
  refine none n ?_ reached
  have within := bounded.within
  omega

theorem not_boundedPath_of_findPath (below : t.config.maxDepth < usizeMax)
    (absent : t.findPath source endId = .ok none) (path : List EntityId) :
    ¬BoundedPath t source endId path := by
  refine not_boundedPath (fun n within reached => ?_) path
  have exact := pathSearchExact_of_below (ready_of_findPath absent) below
  rcases exact.complete ⟨n, within, reached⟩ with ⟨nodes, found⟩ | ⟨message, failed⟩
  · rw [absent] at found
    cases found
  · rw [absent] at failed
    cases failed

end Paths

section Spurs

variable {Index : Type} [SnapshotQueryIndex Index] {t : CallChainTraverser Index}
  {startId endId source : EntityId}

theorem findPath_of_findSpurPath {rootPath : List EntityId}
    {removedEdges : List (EntityId × EntityId)} {spur : List CallChainNode}
    (found : t.findSpurPath endId source rootPath removedEdges = .ok (some spur)) :
    t.findPath source endId = .ok (some spur) := by
  unfold findSpurPath at found
  cases answer : t.findPath source endId with
  | error failure => simp [answer, bind, Except.bind] at found
  | ok path =>
    cases path with
    | none => simp [answer, bind, Except.bind] at found
    | some nodes =>
      simp only [answer, bind, Except.bind] at found
      split_ifs at found
      · cases found
      · rw [Except.ok.injEq, Option.some.injEq] at found
        rw [found]

theorem exists_findPath_of_findSpurPath {rootPath : List EntityId}
    {removedEdges : List (EntityId × EntityId)} {spur : Option (List CallChainNode)}
    (found : t.findSpurPath endId source rootPath removedEdges = .ok spur) :
    ∃ answer, t.findPath source endId = .ok answer := by
  unfold findSpurPath at found
  cases answer : t.findPath source endId with
  | error failure => simp [answer, bind, Except.bind] at found
  | ok path => exact ⟨path, rfl⟩

variable {spurNode : CallChainNode}

theorem split_of_mem {prevPath : List CallChainNode} {j : Nat}
    (listed : (spurNode, j) ∈ prevPath.dropLast.zipIdx) :
    ∃ front following rest, prevPath = front ++ spurNode :: following :: rest ∧
      front.length = j := by
  rw [mem_zipIdx_iff_getElem?, getElem?_eq_some_iff] at listed
  obtain ⟨inside, node⟩ := listed
  rw [length_dropLast] at inside
  rw [getElem_dropLast] at node
  simp only at inside node
  have more : j + 1 < prevPath.length := by omega
  refine ⟨prevPath.take j, prevPath[j + 1], prevPath.drop (j + 2), ?_, ?_⟩
  · rw [← node, getElem_cons_drop, getElem_cons_drop, take_append_drop]
  · rw [length_take]
    omega

theorem repeats_of_spur {prevPath spur : List CallChainNode} {j : Nat}
    (listed : (spurNode, j) ∈ prevPath.dropLast.zipIdx)
    (starts : spur.head?.map CallChainNode.functionId = some spurNode.functionId) :
    ¬(functionIds (prevPath.take (j + 1) ++ spur)).Nodup := by
  obtain ⟨front, following, rest, rfl, rfl⟩ := split_of_mem listed
  cases spur with
  | nil => cases starts
  | cons first spur =>
    rw [head?_cons, Option.map_some, Option.some.injEq] at starts
    intro once
    have root : (front ++ spurNode :: following :: rest).take (front.length + 1) =
        front ++ [spurNode] := by
      rw [take_append, take_of_length_le (by omega)]
      simp
    rw [root, functionIds, append_assoc, map_append] at once
    have pair := once.of_append_right
    simp [starts] at pair

variable {result candidates found : List (List CallChainNode)} {prevPath : List CallChainNode}

theorem searched_of_spurLoop {spurs : List (CallChainNode × Nat)}
    (ran : t.spurLoop endId result prevPath spurs candidates = .ok found) :
    ∀ spur ∈ spurs, ∃ answer, t.findPath spur.1.functionId endId = .ok answer := by
  induction spurs generalizing candidates with
  | nil => exact fun _ mem => absurd mem not_mem_nil
  | cons spur spurs ih =>
    rw [spurLoop] at ran
    cases answer : t.findSpurPath endId spur.1.functionId (functionIds (prevPath.take (spur.2 + 1)))
        (edgesToRemove result (functionIds (prevPath.take (spur.2 + 1))) spur.2) with
    | error failure => simp [answer, bind, Except.bind] at ran
    | ok path =>
      intro other mem
      simp only [answer, bind, Except.bind] at ran
      rcases mem_cons.1 mem with rfl | later
      · exact exists_findPath_of_findSpurPath answer
      · cases path with
        | none => exact ih ran other later
        | some nodes => exact ih ran other later

theorem repeats_of_spurLoop {spurs : List (CallChainNode × Nat)}
    (listed : ∀ spur ∈ spurs, spur ∈ prevPath.dropLast.zipIdx)
    (before : ∀ path ∈ candidates, ¬(functionIds path).Nodup)
    (ran : t.spurLoop endId result prevPath spurs candidates = .ok found) :
    ∀ path ∈ found, ¬(functionIds path).Nodup := by
  induction spurs generalizing candidates with
  | nil =>
    rw [spurLoop] at ran
    cases ran
    exact before
  | cons spur spurs ih =>
    have later : ∀ other ∈ spurs, other ∈ prevPath.dropLast.zipIdx := fun other mem =>
      listed other (mem_cons_of_mem _ mem)
    rw [spurLoop] at ran
    cases answer : t.findSpurPath endId spur.1.functionId (functionIds (prevPath.take (spur.2 + 1)))
        (edgesToRemove result (functionIds (prevPath.take (spur.2 + 1))) spur.2) with
    | error failure => simp [answer, bind, Except.bind] at ran
    | ok path =>
      simp only [answer, bind, Except.bind] at ran
      cases path with
      | none => exact ih later before ran
      | some nodes =>
        refine ih later (fun path mem => ?_) ran
        split_ifs at mem
        · exact before path mem
        · rcases mem_append.1 mem with old | new
          · exact before path old
          · rw [mem_singleton.1 new]
            have shortest := shortest_of_findPath (findPath_of_findSpurPath answer)
            exact repeats_of_spur (listed spur mem_cons_self) shortest.2.path.starts

theorem repeats_of_pathRounds {remaining : Nat} {first : List CallChainNode}
    {others answer : List (List CallChainNode)}
    (before : ∀ path ∈ others ++ candidates, ¬(functionIds path).Nodup)
    (ran : t.pathRounds endId remaining (others.length + 1) (first :: others) candidates =
      .ok answer) :
    ∃ others', answer = first :: others' ∧ ∀ path ∈ others', ¬(functionIds path).Nodup := by
  induction remaining generalizing others candidates with
  | zero =>
    rw [pathRounds] at ran
    cases ran
    exact ⟨others, rfl, fun path mem => before path (mem_append_left _ mem)⟩
  | succ remaining ih =>
    rw [pathRounds] at ran
    cases spurs : t.spurLoop endId (first :: others)
        ((first :: others)[others.length + 1 - 1]?.getD [])
        ((first :: others)[others.length + 1 - 1]?.getD []).dropLast.zipIdx candidates with
    | error failure =>
      simp only [spurs, bind, Except.bind] at ran
      cases ran
    | ok found =>
      simp only [spurs, bind, Except.bind] at ran
      have repeated := repeats_of_spurLoop (fun _ mem => mem)
        (fun path mem => before path (mem_append_right _ mem)) spurs
      cases sorted : found.mergeSort fun first second => first.length ≤ second.length with
      | nil =>
        rw [sorted] at ran
        cases ran
        exact ⟨others, rfl, fun path mem => before path (mem_append_left _ mem)⟩
      | cons best rest =>
        rw [sorted] at ran
        have fromFound : ∀ path ∈ best :: rest, ¬(functionIds path).Nodup := by
          intro path mem
          rw [← sorted, mem_mergeSort] at mem
          exact repeated path mem
        have grown : (others ++ [best]).length = others.length + 1 := by simp
        simp only [cons_append] at ran
        rw [← grown] at ran
        refine ih (fun path mem => ?_) ran
        rcases mem_append.1 mem with old | waits
        · rcases mem_append.1 old with old | new
          · exact before path (mem_append_left _ old)
          · exact fromFound path (mem_singleton.1 new ▸ mem_cons_self)
        · exact fromFound path (mem_cons_of_mem _ waits)

theorem findSpurPath_of_unique {first : List CallChainNode} {j : Nat}
    (quiet : t.config.debug = false) (hit : LimitNotHit t startId endId)
    (bounded : BoundedPath t startId endId (functionIds first))
    (unique : ∀ path, BoundedPath t startId endId path → path = functionIds first)
    (listed : (spurNode, j) ∈ first.dropLast.zipIdx)
    (ready : SearchReady t spurNode.functionId endId) :
    t.findSpurPath endId spurNode.functionId (functionIds (first.take (j + 1)))
      (edgesToRemove [first] (functionIds (first.take (j + 1))) j) = .ok none := by
  obtain ⟨front, following, rest, rfl, rfl⟩ := split_of_mem listed
  have root : (front ++ spurNode :: following :: rest).take (front.length + 1) =
      front ++ [spurNode] := by
    rw [take_append, take_of_length_le (by omega)]
    simp
  rw [root]
  have ids : functionIds (front ++ spurNode :: following :: rest) =
      functionIds front ++ spurNode.functionId :: following.functionId :: functionIds rest := by
    simp [functionIds]
  rw [ids] at bounded unique
  have whole := bounded.loopless.walk
  obtain ⟨n, -, reached⟩ := whole.left.steps
  obtain ⟨answer, found⟩ := findPath_answers ready quiet (hit _ n reached)
  unfold findSpurPath
  simp only [found, bind, Except.bind]
  cases answer with
  | none => rfl
  | some nodes =>
    simp only
    rw [if_pos]
    by_contra kept
    rw [Bool.or_eq_true, not_or, Bool.not_eq_true, Bool.not_eq_true] at kept
    obtain ⟨usesNone, avoids⟩ := kept
    obtain ⟨spurBounded, least⟩ := boundedPath_of_shortest (shortest_of_findPath found).2
    have starts := (shortest_of_findPath found).2.path.starts
    cases nodes with
    | nil => cases starts
    | cons node tail =>
      rw [head?_cons, Option.map_some, Option.some.injEq] at starts
      have spurIds : functionIds (node :: tail) = spurNode.functionId :: functionIds tail := by
        rw [← starts]
        rfl
      rw [spurIds] at spurBounded
      have apart : ∀ other ∈ tail, other.functionId ∉ functionIds (front ++ [spurNode]) := by
        simpa using avoids
      have shorter := least _ whole.right
      -- the spur path without its first node, behind the root
      have joined : BoundedPath t startId endId
          (functionIds front ++ spurNode.functionId :: functionIds tail) := by
        refine ⟨⟨whole.left.splice spurBounded.loopless.walk, ?_⟩, ?_⟩
        · have before := bounded.loopless.nodup
          rw [append_cons] at before ⊢
          refine nodup_append.2 ⟨before.of_append_left,
            (nodup_cons.1 spurBounded.loopless.nodup).2, fun a root b behind => ?_⟩
          rintro rfl
          obtain ⟨other, mem, rfl⟩ := mem_map.1 behind
          exact apart other mem (by simpa [functionIds] using root)
        · have within := bounded.within
          simp only [length_cons, length_functionIds] at shorter
          simp only [length_append, length_cons, length_functionIds] at within ⊢
          omega
      have same := append_cancel_left (unique _ joined)
      rw [cons.injEq] at same
      cases tail with
      | nil => exact absurd same.2 (by simp [functionIds])
      | cons next tail =>
        have uses : (spurNode.functionId, next.functionId) ∈
            edgesToRemove [front ++ spurNode :: following :: rest]
              (functionIds (front ++ [spurNode])) front.length := by
          unfold edgesToRemove
          refine mem_filterMap.2 ⟨_, mem_filter.2 ⟨mem_singleton_self _, ?_⟩, ?_⟩
          · simp [root]
          · have following := (cons.inj same.2).1
            simp [following]
        rw [tail_cons, zip_cons_cons, any_cons, Bool.or_eq_false_iff, starts] at usesNone
        exact absurd uses (by simpa using usesNone.1)

end Spurs

section Exact

variable {Index : Type} [SnapshotQueryIndex Index] {t : CallChainTraverser Index}
  {startId endId : EntityId} {k : Nat}

def AllKnown (traverser : CallChainTraverser Index) (path : List EntityId) : Prop :=
  ∀ entityId ∈ path,
    (SnapshotQueryIndex.getFunctionByEntityId traverser.index entityId).isSome = true

/-- There is one path without loops within the bound, and all its functions are known. -/
def OnlyPath (traverser : CallChainTraverser Index) (startId endId : EntityId) : Prop :=
  ∃ path, BoundedPath traverser startId endId path ∧
    (∀ other, BoundedPath traverser startId endId other → other = path) ∧
    AllKnown traverser path

variable {first : List CallChainNode}

theorem kShortest_first (positive : k ≠ 0)
    (shortest : IsShortestCallPath startId endId t first)
    (last : k = 1 ∨ ∀ other, BoundedPath t startId endId other → other = functionIds first) :
    KShortest t startId endId k [first] := by
  obtain ⟨bounded, least⟩ := boundedPath_of_shortest shortest
  refine ⟨by simp, fun path mem => ?_, by simp, Nat.pos_of_ne_zero positive,
    fun fewer path other => ?_, fun path other _ found mem => ?_⟩
  · exact mem_singleton.1 mem ▸ bounded
  · rcases last with rfl | unique
    · exact absurd fewer (by simp)
    · simp [unique path other]
  · exact mem_singleton.1 mem ▸ least path other.loopless.walk

theorem onlyPath_of_kShortest {answer : List (List CallChainNode)}
    (several : 1 < k)
    (ran : t.pathRounds endId (k - 1) 1 [first] [] = .ok answer)
    (ready : SearchReady t startId endId)
    (shortest : IsShortestCallPath startId endId t first)
    (exact : KShortest t startId endId k answer) : OnlyPath t startId endId := by
  have alone : answer = [first] := by
    have start : ∀ path ∈ ([] : List (List CallChainNode)) ++ [], ¬(functionIds path).Nodup :=
      fun _ mem => absurd mem not_mem_nil
    obtain ⟨others, rfl, repeated⟩ := repeats_of_pathRounds start ran
    cases others with
    | nil => rfl
    | cons second others =>
      have mem : second ∈ first :: second :: others := by simp
      exact absurd (exact.loopless second mem).loopless.nodup (repeated second mem_cons_self)
  subst alone
  refine ⟨functionIds first, exact.loopless first (mem_singleton_self _),
    fun other bounded => ?_, ?_⟩
  · have listed := exact.all several other bounded
    simpa using listed
  · have remaining : k - 1 = (k - 2) + 1 := by omega
    rw [remaining, pathRounds] at ran
    cases spurs : t.spurLoop endId [first] first first.dropLast.zipIdx [] with
    | error failure => simp [spurs, bind, Except.bind] at ran
    | ok found =>
      intro entityId mem
      obtain ⟨node, nodeMem, rfl⟩ := mem_map.1 mem
      obtain ⟨last, ends, same⟩ := Option.map_eq_some_iff.1 shortest.path.ends
      rw [← dropLast_append_getLast? last ends] at nodeMem
      rcases mem_append.1 nodeMem with before | atEnd
      · obtain ⟨j, found⟩ := mem_iff_getElem?.1 before
        have listed : (node, j) ∈ first.dropLast.zipIdx := mem_zipIdx_iff_getElem?.2 found
        obtain ⟨path, searched⟩ := searched_of_spurLoop spurs _ listed
        exact (ready_of_findPath searched).start
      · rw [mem_singleton.1 atEnd, same]
        exact ready.target

theorem pathRounds_of_onlyPath
    (quiet : t.config.debug = false) (hit : LimitNotHit t startId endId)
    (ready : SearchReady t startId endId)
    (bounded : BoundedPath t startId endId (functionIds first))
    (unique : ∀ path, BoundedPath t startId endId path → path = functionIds first)
    (known : AllKnown t (functionIds first)) (remaining : Nat) :
    t.pathRounds endId remaining 1 [first] [] = .ok [first] := by
  cases remaining with
  | zero => rfl
  | succ remaining =>
    have none : ∀ spurs : List (CallChainNode × Nat),
        (∀ spur ∈ spurs, spur ∈ first.dropLast.zipIdx) →
          t.spurLoop endId [first] first spurs [] = .ok [] := by
      intro spurs
      induction spurs with
      | nil => exact fun _ => rfl
      | cons spur spurs ih =>
        intro listed
        have here := listed spur mem_cons_self
        have inPath : spur.1 ∈ first := dropLast_subset _ (fst_mem_of_mem_zipIdx here)
        have spurReady : SearchReady t spur.1.functionId endId :=
          ⟨known _ (mem_map_of_mem inPath), ready.target, ready.depth, ready.nodes⟩
        rw [spurLoop, findSpurPath_of_unique quiet hit bounded unique here spurReady]
        exact ih fun other mem => listed other (mem_cons_of_mem _ mem)
    rw [pathRounds]
    simp only [Nat.sub_self, getElem?_cons_zero, Option.getD_some, none _ fun _ mem => mem,
      bind, Except.bind, mergeSort_nil]

/-- Outside the case of no path at all, the search must see its bound and be asked for one path, or
there must be one path only. -/
theorem exists_kShortest_iff (quiet : t.config.debug = false) (hit : LimitNotHit t startId endId) :
    (∃ paths, t.kShortestPaths endId startId k = .ok paths ∧ KShortest t startId endId k paths) ↔
      k = 0 ∨ SearchReady t startId endId ∧ ((∀ path, ¬BoundedPath t startId endId path) ∨
          t.config.maxDepth < usizeMax ∧ (k = 1 ∨ OnlyPath t startId endId)) := by
  by_cases zero : k = 0
  · refine iff_of_true ⟨[], by rw [kShortestPaths, if_pos zero], ?_⟩ (Or.inl zero)
    subst zero
    exact ⟨nodup_nil, fun _ mem => absurd mem not_mem_nil, List.Pairwise.nil,
      Nat.le_refl 0, fun less => absurd less (Nat.not_lt_zero _),
      fun _ _ _ _ mem => absurd mem not_mem_nil⟩
  rw [or_iff_right zero, kShortestPaths, if_neg zero]
  cases found : t.findPath startId endId with
  | error failure =>
    refine iff_of_false ?_ ?_
    · rintro ⟨paths, answer, -⟩
      cases answer
    · rintro ⟨ready, -⟩
      obtain ⟨answer, same⟩ := findPath_answers ready quiet (hit startId 0 rfl)
      rw [found] at same
      cases same
  | ok answer =>
    have ready := ready_of_findPath found
    rw [and_iff_right ready]
    cases answer with
    | none =>
      simp only [bind, Except.bind, Except.ok.injEq, exists_eq_left']
      constructor
      · exact fun exact => Or.inl fun path bounded =>
          not_mem_nil (exact.all (Nat.pos_of_ne_zero zero) path bounded)
      · intro condition
        have none : ∀ path, ¬BoundedPath t startId endId path := by
          rcases condition with none | ⟨below, -⟩
          · exact none
          · exact not_boundedPath_of_findPath below found
        exact ⟨nodup_nil, fun _ mem => absurd mem not_mem_nil, List.Pairwise.nil,
          Nat.zero_le k, fun _ path bounded => absurd bounded (none path),
          fun path bounded => absurd bounded (none path)⟩
    | some first =>
      obtain ⟨below, shortest⟩ := shortest_of_findPath found
      obtain ⟨bounded, least⟩ := boundedPath_of_shortest shortest
      simp only [bind, Except.bind]
      constructor
      · rintro ⟨paths, ran, exact⟩
        refine Or.inr ⟨below, ?_⟩
        by_cases one : k = 1
        · exact Or.inl one
        · exact Or.inr (onlyPath_of_kShortest (by omega) ran ready shortest exact)
      · rintro (none | ⟨-, one | ⟨path, pathBounded, unique, known⟩⟩)
        · exact absurd bounded (none _)
        · refine ⟨[first], ?_, kShortest_first zero shortest (Or.inl one)⟩
          rw [one]
          rfl
        · obtain rfl := unique _ bounded
          exact ⟨[first], pathRounds_of_onlyPath quiet hit ready bounded unique known _,
            kShortest_first zero shortest (Or.inr unique)⟩

theorem limitNotHit_of_closed (range : List EntityId) (start : startId ∈ range)
    (closed : ∀ source ∈ range, ∀ target ∈ t.callees source, target ∈ range)
    (answers : ∀ source ∈ range, ∃ answer, t.findPath source endId = .ok answer) :
    LimitNotHit t startId endId := by
  have inside : ∀ n source, Steps t.callees n startId source → source ∈ range := by
    intro n
    induction n with
    | zero => exact fun source same => same ▸ start
    | succ n ih =>
      rintro source ⟨before, reached, edge⟩
      exact closed before (ih before reached) source edge
  intro source n reached message failed
  obtain ⟨answer, found⟩ := answers source (inside n source reached)
  rw [found] at failed
  cases failed

end Exact

/-- `find_k_shortest_paths` answers as Yen's algorithm for no path, for one path, and where the
graph holds one path only. -/
theorem findKShortestPaths_iff (query : CallChainQuery)
    {startId endId : EntityId} {k maxDepth maxNodes : Nat} (le : maxDepth ≤ usizeMax)
    (hit : LimitNotHit (query.pathTraverser maxDepth maxNodes le) startId endId) :
    (∃ paths, query.findKShortestPaths startId endId k maxDepth maxNodes le = .ok paths ∧
        KShortest (query.pathTraverser maxDepth maxNodes le) startId endId k paths) ↔
      k = 0 ∨ SearchReady (query.pathTraverser maxDepth maxNodes le) startId endId ∧
        ((∀ path, ¬BoundedPath (query.pathTraverser maxDepth maxNodes le) startId endId path) ∨
          maxDepth < usizeMax ∧
            (k = 1 ∨ OnlyPath (query.pathTraverser maxDepth maxNodes le) startId endId)) :=
  exists_kShortest_iff rfl hit

section Sample

def callGraph (functions : List EntityId) (edges : List ResolvedRelation) : CallChainQuery where
  index := ⟨.fromIndexShared (indexOf functions edges), []⟩

theorem findKShortestPaths_call :
    LimitNotHit ((callGraph [1, 2] [callOf 1 2]).pathTraverser 10 100 (by decide)) 1 2 ∧
      ∃ paths, (callGraph [1, 2] [callOf 1 2]).findKShortestPaths 1 2 1 10 100 (by decide) =
          .ok paths ∧
        KShortest ((callGraph [1, 2] [callOf 1 2]).pathTraverser 10 100 (by decide)) 1 2 1
          paths := by
  have hit : LimitNotHit
      ((callGraph [1, 2] [callOf 1 2]).pathTraverser 10 100 (by decide)) 1 2 := by
    refine limitNotHit_of_closed [1, 2] (by decide) (by decide) fun source mem => ?_
    simp only [mem_cons, not_mem_nil, or_false] at mem
    rcases mem with rfl | rfl
    · exact ⟨_, rfl⟩
    · exact ⟨_, rfl⟩
  have ready : SearchReady
      ((callGraph [1, 2] [callOf 1 2]).pathTraverser 10 100 (by decide)) 1 2 :=
    ⟨by decide, by decide, by decide, by decide⟩
  exact ⟨hit, (findKShortestPaths_iff _ (by decide) hit).2
    (Or.inr ⟨ready, Or.inr ⟨by decide, Or.inl rfl⟩⟩)⟩

/-- The first function calls the second, and a third one that calls it as well. -/
def detour : CallChainQuery := callGraph [1, 2, 3] [callOf 1 2, callOf 1 3, callOf 3 2]

def directCallPath : List CallChainNode :=
  [{ functionId := 1
     functionName := "f"
     filePath := "src/main.rs"
     depth := 0
     relationType := .directCall
     callLine := none
     ownerType := none
     callContext := .direct },
   { functionId := 2
     functionName := "f"
     filePath := "src/main.rs"
     depth := 1
     relationType := .directCall
     callLine := some 2
     ownerType := none
     callContext := .direct }]

/-- The second of two paths is missed. -/
theorem findKShortestPaths_fails :
    LimitNotHit (detour.pathTraverser 10 100 (by decide)) 1 2 ∧
      detour.findKShortestPaths 1 2 2 10 100 (by decide) = .ok [directCallPath] ∧
      ¬∃ paths, detour.findKShortestPaths 1 2 2 10 100 (by decide) = .ok paths ∧
        KShortest (detour.pathTraverser 10 100 (by decide)) 1 2 2 paths := by
  have hit : LimitNotHit (detour.pathTraverser 10 100 (by decide)) 1 2 := by
    refine limitNotHit_of_closed [1, 2, 3] (by decide) (by decide) fun source mem => ?_
    simp only [mem_cons, not_mem_nil, or_false] at mem
    rcases mem with rfl | rfl | rfl
    · exact ⟨_, rfl⟩
    · exact ⟨_, rfl⟩
    · exact ⟨_, rfl⟩
  have first : (detour.pathTraverser 10 100 (by decide)).findPath 1 2 =
      .ok (some directCallPath) := by rfl
  have spurs : (detour.pathTraverser 10 100 (by decide)).spurLoop 2 [directCallPath]
      directCallPath directCallPath.dropLast.zipIdx [] = .ok [] := by rfl
  have ran : detour.findKShortestPaths 1 2 2 10 100 (by decide) = .ok [directCallPath] := by
    rw [CallChainQuery.findKShortestPaths, kShortestPaths, if_neg (by decide), first]
    simp only [bind, Except.bind, pathRounds, Nat.sub_self, getElem?_cons_zero,
      Option.getD_some, spurs, mergeSort_nil]
  refine ⟨hit, ran, ?_⟩
  rintro ⟨paths, found, exact⟩
  rw [ran, Except.ok.injEq] at found
  subst found
  have around : BoundedPath (detour.pathTraverser 10 100 (by decide)) 1 2 [1, 3, 2] := by
    refine ⟨⟨⟨rfl, rfl, ?_⟩, by decide⟩, by decide⟩
    exact .cons_cons (by decide) (.cons_cons (by decide) (.singleton 2))
  exact absurd (exact.all (by decide) _ around) (by decide)

end Sample

end ContextEngine

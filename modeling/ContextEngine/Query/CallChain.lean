/- digest: Call-chain traversal and path search over any queryable index. -/

import ContextEngine.Index.SnapshotQuery

set_option autoImplicit false

namespace ContextEngine

/-- The one-based first line, if the span carries a source location. -/
def Span.startLineOpt (span : Span) : Option Nat :=
  if span.startPosition.row = usizeMax then none
  else some (min (span.startPosition.row + 1) usizeMax)

inductive RelationQueryError where
  | notFound (message : String)
  | invalidQuery (message : String)
  | traversal (message : String)
  | pathNotFound (source target : String) (maxDepth : Nat)
  deriving DecidableEq

namespace RelationQueryError

def config (message : String) : RelationQueryError := .invalidQuery message

end RelationQueryError

/-- A function of a call chain and the edge it was reached by. -/
structure CallChainNode where
  functionId : EntityId
  functionName : String
  filePath : String
  depth : Nat
  relationType : RelationType
  callLine : Option Nat
  ownerType : Option String
  callContext : CallContext
  deriving DecidableEq

inductive TraversalDirection where
  | forward
  | backward
  deriving DecidableEq

structure TraversalConfig where
  maxDepth : Nat := usizeMax
  includeStartNode : Bool := false
  stopOnCycles : Bool := true
  direction : TraversalDirection := .forward
  debug : Bool := false
  maxNodes : Nat := 10000
  relationDomains : List String := []
  relationTypes : List RelationType := []
  includeExternal : Bool := true
  maxDepth_le : maxDepth ≤ usizeMax := by decide

namespace TraversalConfig

variable (config : TraversalConfig)

def validate : Except RelationQueryError Unit :=
  if config.maxDepth = 0 then .error (.config "max_depth cannot be 0")
  else if config.maxNodes = 0 then .error (.config "max_nodes cannot be 0")
  else .ok ()

theorem pos_of_validate (valid : config.validate = .ok ()) :
    0 < config.maxDepth ∧ 0 < config.maxNodes := by
  unfold validate at valid
  split_ifs at valid with shallow few
  exact ⟨Nat.pos_of_ne_zero shallow, Nat.pos_of_ne_zero few⟩

def relationPassesFilter (relation : ResolvedRelation) : Bool :=
  (config.includeExternal || !relation.isExternal) &&
    (config.relationDomains.isEmpty ||
      config.relationDomains.contains relation.relationType.domain) &&
    (config.relationTypes.isEmpty || config.relationTypes.contains relation.relationType)

end TraversalConfig

structure PathElement where
  entityId : EntityId
  relationType : RelationType := .directCall
  callLine : Option Nat := none
  ownerType : Option String := none
  callContext : CallContext := .direct
  deriving DecidableEq

def PathElement.ofEdge (entityId : EntityId) (relation : ResolvedRelation) : PathElement where
  entityId := entityId
  relationType := relation.relationType
  callLine := some (relation.span.startLineOpt.getD 0)
  ownerType := relation.ownerType
  callContext := relation.callContext

/-- The derived debug form. -/
def debugEntityId (entityId : EntityId) : String := s!"EntityId({entityId})"

structure CallChainTraverser (Index : Type) where
  index : Index
  config : TraversalConfig

namespace CallChainTraverser

variable {Index : Type} [SnapshotQueryIndex Index] (traverser : CallChainTraverser Index)

def node (element : PathElement) (depth : Nat) : CallChainNode :=
  let named : String × String :=
    match SnapshotQueryIndex.getFunctionByEntityId traverser.index element.entityId with
    | some info => (info.name,
        (SnapshotQueryIndex.getFilePathByEntity traverser.index element.entityId).getD "")
    | none => (toString element.entityId, "")
  { functionId := element.entityId
    functionName := named.1
    filePath := named.2
    depth := depth
    relationType := element.relationType
    callLine := element.callLine
    ownerType := element.ownerType
    callContext := element.callContext }

def forwardElements (entityId : EntityId) : List PathElement :=
  (((SnapshotQueryIndex.getResolvedRelationsByCaller traverser.index entityId).getD []).filter
    traverser.config.relationPassesFilter).filterMap fun relation =>
      relation.calleeId.map fun calleeId => .ofEdge calleeId relation

/-- The callers before the given edges. -/
def callerElements (relations : List ResolvedRelation) : List PathElement :=
  relations.map fun relation => .ofEdge relation.caller relation

/-- What is queued behind an entity. -/
def nextElements (entityId : EntityId) : List PathElement :=
  match traverser.config.direction with
  | .forward => traverser.forwardElements entityId
  | .backward =>
    callerElements ((SnapshotQueryIndex.getRelationsToEntity traverser.index entityId).filter
      traverser.config.relationPassesFilter)

def shouldAdd (depth : Nat) : Bool :=
  match traverser.config.direction with
  | .forward => 0 < depth || traverser.config.includeStartNode
  | .backward => true

def traverseLoop : Nat → List (PathElement × Nat) → HashSet EntityId → List CallChainNode →
    Except RelationQueryError (List CallChainNode)
  | _, [], _, result => .ok result
  | 0, _ :: _, _, _ => .error <| .traversal
      s!"Exceeded maximum node limit ({traverser.config.maxNodes}) during traversal"
  | budget + 1, (element, depth) :: queue, visited, result =>
    if traverser.config.maxDepth < depth then traverseLoop budget queue visited result
    else if traverser.config.stopOnCycles ∧ 0 < depth ∧ element.entityId ∈ visited then
      traverseLoop budget queue visited result
    else
      let marked := if traverser.config.stopOnCycles ∧ 0 < depth then
        visited.insert element.entityId else visited
      let shown := if traverser.shouldAdd depth then result ++ [traverser.node element depth]
        else result
      let queued := if depth < traverser.config.maxDepth then
        queue ++ (traverser.nextElements element.entityId).map fun next => (next, depth + 1)
        else queue
      traverseLoop budget queued marked shown

/-- A backward traversal starts behind the edges into the start, whatever they are. -/
def initialQueue (start : EntityId) : List (PathElement × Nat) :=
  match traverser.config.direction with
  | .forward => [({ entityId := start }, 0)]
  | .backward =>
    (callerElements (SnapshotQueryIndex.getRelationsToEntity traverser.index start)).map
      fun element => (element, 1)

/-- A forward traversal that shows nothing reports an unknown start. -/
def traverseFrom (start : EntityId) : Except RelationQueryError (List CallChainNode) := do
  traverser.config.validate
  let result ← traverser.traverseLoop traverser.config.maxNodes (traverser.initialQueue start) ∅ []
  if result.isEmpty ∧ traverser.config.direction = .forward ∧ 0 < traverser.config.maxDepth ∧
      (SnapshotQueryIndex.getFunctionByEntityId traverser.index start).isNone then
    .error (.notFound s!"EntityId: {debugEntityId start}")
  else .ok result

/-- The callees not yet marked, each once, with the first edge that leads there. -/
def unvisitedElements (visited : HashSet EntityId) :
    List PathElement → List PathElement × HashSet EntityId
  | [] => ([], visited)
  | element :: elements =>
    if element.entityId ∈ visited then unvisitedElements visited elements
    else
      let rest := unvisitedElements (visited.insert element.entityId) elements
      (element :: rest.1, rest.2)

/-- `usize` addition of the release build. -/
def wrappingAdd (a b : Nat) : Nat := (a + b) % (usizeMax + 1)

def findPathLoop (startId endId : EntityId) : Nat → List (List PathElement) → HashSet EntityId →
    Except RelationQueryError (Option (List PathElement))
  | _, [], _ => .ok none
  | 0, _ :: _, _ => .error <| .traversal <|
      s!"Exceeded maximum node limit ({traverser.config.maxNodes}) while searching for path " ++
        s!"from {debugEntityId startId} to {debugEntityId endId}"
  | budget + 1, path :: queue, visited =>
    if wrappingAdd traverser.config.maxDepth 1 < path.length then
      findPathLoop startId endId budget queue visited
    else
      match path.getLast? with
      | none => .error (.invalidQuery "Empty path in BFS queue")
      | some last =>
        if last.entityId = endId then .ok (some path)
        else
          let fresh := unvisitedElements visited (traverser.forwardElements last.entityId)
          findPathLoop startId endId budget
            (queue ++ fresh.1.map fun element => path ++ [element]) fresh.2

def buildPathNodes (path : List PathElement) : List CallChainNode :=
  path.zipIdx.map fun element => traverser.node element.1 element.2

def findPath (startId endId : EntityId) :
    Except RelationQueryError (Option (List CallChainNode)) := do
  traverser.config.validate
  match SnapshotQueryIndex.getFunctionByEntityId traverser.index startId,
      SnapshotQueryIndex.getFunctionByEntityId traverser.index endId with
  | none, _ => .error (.notFound s!"Start function not found for EntityId: {debugEntityId startId}")
  | some _, none =>
    .error (.notFound s!"Target function not found for EntityId: {debugEntityId endId}")
  | some startFunc, some endFunc =>
    match ← traverser.findPathLoop startId endId traverser.config.maxNodes
        [[{ entityId := startId }]] ((∅ : HashSet EntityId).insert startId) with
    | some path => .ok (some (traverser.buildPathNodes path))
    | none =>
      if traverser.config.debug then
        .error (.pathNotFound s!"{startFunc.name} ({debugEntityId startId})"
          s!"{endFunc.name} ({debugEntityId endId})" traverser.config.maxDepth)
      else .ok none

end CallChainTraverser

/-- `CallChainQuery`: queries over a layered snapshot. -/
structure CallChainQuery where
  index : LayeredSnapshotIndex

namespace CallChainQuery

variable (query : CallChainQuery)

def getCalleesByEntity (entityId : EntityId) :
    Except RelationQueryError (List ResolvedRelation) :=
  if query.index.containsFunction entityId then
    .ok ((query.index.getResolvedRelationsByCaller entityId).getD [])
  else .error (.notFound s!"Entity not found: {debugEntityId entityId}")

def getCallersByEntity (entityId : EntityId) : List EntityId :=
  query.index.getCallersByCalleeEntity entityId

end CallChainQuery

end ContextEngine

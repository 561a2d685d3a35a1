/- digest: The Markdown parser and grouper, and when every line of a text goes to its node. -/

import ContextEngine.Chunking.MergeFixpoint
import ContextEngine.Chunking.DocumentChunker

set_option autoImplicit false

namespace ContextEngine

open Option List

/-- The character classes of the patterns beyond white space. -/
class PatternClasses where
  /-- `\w` -/
  isWord : Char → Bool
  /-- `\d` -/
  isDigit : Char → Bool

inductive DocNodeType where
  | heading (level : Nat)
  | codeBlock (language : Option Text)
  | list (ordered : Bool)
  | blockquote
  | thematicBreak
  | tableRow
  | paragraph
  deriving DecidableEq

def DocNodeType.headingLevel : DocNodeType → Option Nat
  | heading level => some level
  | _ => none

def DocNodeType.isCode : DocNodeType → Bool
  | codeBlock _ => true
  | _ => false

deriving instance DecidableEq for DocNode

/-- What the scan finds: the kind, the content and the first and last row. -/
structure ScannedNode extends DocNode where
  nodeType : DocNodeType
  startRow : Nat
  endRow : Nat
  deriving DecidableEq

/-- A node with its place in the hierarchy. -/
structure MarkdownNode extends ScannedNode where
  id : String
  depth : Nat
  parentId : Option String
  childIds : List String
  deriving DecidableEq

namespace MarkdownParser

section Patterns

variable [PatternClasses]

/-- `\s+(.+)$`: the white space leaves at least one character. -/
def spacedRest (text : Text) : Option Text :=
  if (text.head?.any isWhitespace) = false then none
  else
    match text.dropWhile isWhitespace with
    | [] => if 2 ≤ text.length then text.getLast?.map fun c => [c] else none
    | rest => some rest

variable (line : Text)

/-- `^(#{1,6})\s+(.+)$` -/
def headingCaptures : Option (Nat × Text) :=
  let level := (line.takeWhile fun c => c = '#').length
  if 1 ≤ level ∧ level ≤ 6 then (spacedRest (line.drop level)).map fun content => (level, content)
  else none

def fence : Text := ['`', '`', '`']

/-- ``^```(\w*)$`` -/
def codeBlockStart : Option Text :=
  if fence.isPrefixOf line && (line.drop 3).all PatternClasses.isWord then some (line.drop 3)
  else none

/-- `^[\s]*[-*+]\s+(.+)$` -/
def listCaptures : Option Text :=
  match line.dropWhile isWhitespace with
  | c :: rest => if c ∈ ['-', '*', '+'] then spacedRest rest else none
  | [] => none

/-- `^[\s]*\d+\.\s+(.+)$` -/
def orderedListCaptures : Option Text :=
  let rest := line.dropWhile isWhitespace
  if (rest.takeWhile PatternClasses.isDigit).isEmpty then none
  else
    match rest.dropWhile PatternClasses.isDigit with
    | '.' :: rest => spacedRest rest
    | _ => none

/-- `^>\s*(.+)$` -/
def blockquoteCaptures : Text → Option Text
  | '>' :: rest =>
    match rest.dropWhile isWhitespace with
    | [] => rest.getLast?.map fun c => [c]
    | content => some content
  | _ => none

/-- `^[-*_]{3,}$` -/
def isThematicBreak : Bool :=
  3 ≤ line.length && line.all fun c => c ∈ ['-', '*', '_']

/-- `^\|(.+)\|$` -/
def tableRowCaptures : Option Text :=
  if 3 ≤ line.length ∧ line.head? = some '|' ∧ line.getLast? = some '|' then
    some (line.drop 1).dropLast
  else none

/-- The nodes of one line that are tried behind the code block. -/
def lineNode : Option (DocNodeType × Text) :=
  ((listCaptures line).map fun content => (.list false, content)) <|>
  ((orderedListCaptures line).map fun content => (.list true, content)) <|>
  ((blockquoteCaptures line).map fun content => (.blockquote, content)) <|>
  (if isThematicBreak line then some (.thematicBreak, []) else none) <|>
  ((tableRowCaptures line).map fun content => (.tableRow, content))

def isBlank : Bool := (trim line).isEmpty

def inParagraph : Bool :=
  !isBlank line && (headingCaptures line).isNone && (codeBlockStart line).isNone &&
    (lineNode line).isNone

/-- A line that ends a code block. -/
def isFence : Bool := fence.isPrefixOf (trim line)

end Patterns

def pushLines (separator : Char) (pushed : List Text) : Text :=
  pushed.foldl
    (fun content line => if content.isEmpty then line else content ++ separator :: line) []

section Scan

variable [PatternClasses]

def scan (total row : Nat) : List Text → List ScannedNode
  | [] => []
  | line :: rest =>
    if isBlank line then scan total (row + 1) rest
    else
      match headingCaptures line with
      | some heading => ⟨⟨heading.2⟩, .heading heading.1, row, row⟩ :: scan total (row + 1) rest
      | none =>
        match codeBlockStart line with
        | some language =>
          let body := rest.takeWhile fun line => !isFence line
          ⟨⟨pushLines '\n' body⟩, .codeBlock (some language), row,
              min (row + body.length + 1) (total - 1)⟩ ::
            scan total (row + body.length + 2) (rest.drop (body.length + 1))
        | none =>
          match lineNode line with
          | some node => ⟨⟨node.2⟩, node.1, row, row⟩ :: scan total (row + 1) rest
          | none =>
            -- the line that came here would itself be taken in
            let more := rest.takeWhile inParagraph
            ⟨⟨pushLines ' ' ((line :: more).map trim)⟩, .paragraph, row,
              row + more.length⟩ ::
              scan total (row + more.length + 1) (rest.drop more.length)
termination_by lines => lines.length
decreasing_by
  all_goals
    simp only [List.length_drop, List.length_cons]
    omega

end Scan

section Hierarchy

def link (nodes : List MarkdownNode) (parent child depth : Nat) : List MarkdownNode :=
  let linked := nodes.modify child fun node =>
    { node with parentId := nodes[parent]?.map MarkdownNode.id, depth := depth }
  linked.modify parent fun node =>
    { node with childIds := node.childIds ++ (nodes[child]?.map MarkdownNode.id).toList }

def placeNode (state : List MarkdownNode × List (Nat × Nat)) (index : Nat) :
    List MarkdownNode × List (Nat × Nat) :=
  match (state.1[index]?).bind fun node => node.nodeType.headingLevel with
  | some level =>
    let open_ := state.2.dropWhile fun entry => level ≤ entry.2
    match open_ with
    | parent :: _ => (link state.1 parent.1 index level, (index, level) :: open_)
    | [] => (state.1, [(index, level)])
  | none =>
    match state.2 with
    | parent :: _ => (link state.1 parent.1 index parent.2, state.2)
    | [] => state

def buildHierarchy (nodes : List MarkdownNode) : List MarkdownNode :=
  ((List.range nodes.length).foldl placeNode (nodes, [])).1

/-- The nodes as they are numbered, behind those of earlier texts. -/
def numbered (counter : Nat) (scanned : List ScannedNode) : List MarkdownNode :=
  scanned.mapIdx fun index node =>
    { node with
      id := s!"md_node_{counter + index + 1}"
      depth := node.nodeType.headingLevel.getD 0
      parentId := none
      childIds := [] }

def parse [PatternClasses] (counter : Nat) (content : Text) : List MarkdownNode :=
  let contentLines := lines content
  buildHierarchy (numbered counter (scan contentLines.length 0 contentLines))

end Hierarchy

end MarkdownParser

/-- The limits the grouper reads. -/
structure MarkdownGrouperConfig where
  maxTokens : Nat := 0
  maxBm25Terms : Nat := 200
  minStandaloneTokens : Nat := 100
  minStandaloneBm25Terms : Nat := 80

structure MarkdownGroup where
  groupId : String
  groupType : DocGroupType
  header : Option MarkdownNode
  members : List MarkdownNode
  bm25Text : Text

namespace MarkdownGroup

variable (group : MarkdownGroup)

def nodes : List MarkdownNode := group.header.toList ++ group.members

def level : Option Nat :=
  group.header.bind fun node => node.nodeType.headingLevel

def title : Text := (group.header.map fun node => trim node.content).getD []

end MarkdownGroup

def DocGroupType.display : DocGroupType → String
  | chapter => "chapter"
  | sectionGroup => "section"
  | standaloneBlock => "standalone"
  | paragraphGroup => "paragraph_group"
  | listGroup => "list_group"

/-- `to_bm25_text` of a heading. -/
def headingBm25Text (level : Nat) (content : Text) : Text :=
  List.replicate level '#' ++ ' ' :: content

namespace DocGrouper

variable [CostModel] (config : MarkdownGrouperConfig) (filePath : String)

structure Grouping where
  groups : List MarkdownGroup
  current : Option MarkdownGroup
  groupCounter : Nat

def shouldBeStandalone (node : MarkdownNode) : Bool :=
  node.nodeType.isCode &&
    (config.minStandaloneTokens ≤ ChunkUnit.tokens.cost node.content ||
      config.minStandaloneBm25Terms ≤ ChunkUnit.terms.cost node.content)

def shouldSplit (group : MarkdownGroup) : Bool :=
  if 0 < config.maxBm25Terms then
    config.maxBm25Terms < ChunkUnit.terms.cost group.bm25Text && !group.members.isEmpty
  else if 0 < config.maxTokens then
    config.maxTokens < ChunkUnit.tokens.cost group.bm25Text && !group.members.isEmpty
  else false

def headed (counter level : Nat) (node : MarkdownNode) : MarkdownGroup :=
  let groupType := if level = 1 then DocGroupType.chapter else DocGroupType.sectionGroup
  { groupId := s!"{filePath}_{groupType.display}_{counter}"
    groupType
    header := some node
    members := []
    bm25Text := headingBm25Text level node.content }

def unheaded (counter : Nat) (kind : String) (groupType : DocGroupType) (node : MarkdownNode) :
    MarkdownGroup :=
  ⟨s!"{filePath}_{kind}_{counter}", groupType, none, [node], []⟩

def place (state : Grouping) (node : MarkdownNode) : Grouping :=
  let counter := state.groupCounter + 1
  match node.nodeType.headingLevel with
  | some level =>
    ⟨state.groups ++ state.current.toList, some (headed filePath counter level node), counter⟩
  | none =>
    if shouldBeStandalone config node then
      ⟨state.groups ++ state.current.toList ++
          [unheaded filePath counter "standalone" .standaloneBlock node], none, counter⟩
    else
      match state.current with
      | some group =>
        let joined := { group with members := group.members ++ [node] }
        if shouldSplit config joined then
          ⟨state.groups ++ [group],
            some (unheaded filePath counter "section" .sectionGroup node),
            counter⟩
        else ⟨state.groups, some joined, state.groupCounter⟩
      | none =>
        ⟨state.groups, some (unheaded filePath counter "paragraph" .paragraphGroup node),
          counter⟩

/-- The groups of the nodes, before `finalize` combines their texts. -/
def gather (nodes : List MarkdownNode) : List MarkdownGroup :=
  let last := nodes.foldl (place config filePath) ⟨[], none, 0⟩
  last.groups ++ last.current.toList

def group (finalize : MarkdownGroup → Text × Text × Span) (nodes : List MarkdownNode) :
    List DocGroup :=
  (gather config filePath nodes).map fun group =>
    { groupId := group.groupId
      groupType := group.groupType
      header := group.header.map fun node => node.toDocNode
      embeddingText := (finalize group).1
      bm25Text := (finalize group).2.1
      span := (finalize group).2.2 }

section Partition

/-- What holds of every group: a heading in front makes it a chapter at level 1 and a section below,
and no member is a heading. -/
structure WellFormed (group : MarkdownGroup) : Prop where
  headed : ∀ node, group.header = some node → ∃ level, node.nodeType.headingLevel = some level ∧
    group.groupType = if level = 1 then .chapter else .sectionGroup
  unheaded : group.header = none → group.groupType ≠ .chapter
  members : ∀ node ∈ group.members, node.nodeType.headingLevel = none

variable {config} {filePath}

omit [CostModel] in
theorem wellFormed_headed {counter level : Nat} {node : MarkdownNode}
    (isHeading : node.nodeType.headingLevel = some level) :
    WellFormed (headed filePath counter level node) where
  headed other found := by
    cases found
    exact ⟨level, isHeading, rfl⟩
  unheaded none := nomatch none
  members _ mem := nomatch mem

omit [CostModel] in
theorem wellFormed_unheaded {counter : Nat} {kind : String} {groupType : DocGroupType}
    {node : MarkdownNode} (plain : node.nodeType.headingLevel = none)
    (notChapter : groupType ≠ .chapter) :
    WellFormed (unheaded filePath counter kind groupType node) where
  headed _ found := nomatch found
  unheaded _ := notChapter
  members other mem := by rw [mem_singleton.1 mem, plain]

variable (config) (filePath)

theorem place_spec {state : Grouping} (node : MarkdownNode)
    (formed : ∀ group ∈ state.groups ++ state.current.toList, WellFormed group) :
    let next := place config filePath state node
    (∀ group ∈ next.groups ++ next.current.toList, WellFormed group) ∧
      (next.groups ++ next.current.toList).flatMap MarkdownGroup.nodes =
        (state.groups ++ state.current.toList).flatMap MarkdownGroup.nodes ++ [node] := by
  unfold place
  simp only
  cases heading : node.nodeType.headingLevel with
  | some level =>
    simp only
    constructor
    · intro group mem
      rcases mem_append.1 mem with old | new
      · exact formed group old
      · rw [mem_toList.1 new |> some.inj |>.symm]
        exact wellFormed_headed heading
    · rw [flatMap_append]
      rfl
  | none =>
    simp only
    split_ifs with standalone
    · constructor
      · intro group mem
        rw [toList_none, append_nil] at mem
        rcases mem_append.1 mem with old | new
        · exact formed group old
        · rw [mem_singleton.1 new]
          exact wellFormed_unheaded heading (by decide)
      · rw [toList_none, append_nil, flatMap_append]
        rfl
    · cases present : state.current with
      | none =>
        rw [present] at formed
        simp only
        constructor
        · intro group mem
          rcases mem_append.1 mem with old | new
          · exact formed group (mem_append_left _ old)
          · rw [mem_toList.1 new |> some.inj |>.symm]
            exact wellFormed_unheaded heading (by decide)
        · rw [flatMap_append, toList_none, append_nil]
          rfl
      | some group =>
        rw [present] at formed
        simp only
        split_ifs with exceeds
        · constructor
          · intro other mem
            rcases mem_append.1 mem with old | new
            · exact formed other old
            · rw [mem_toList.1 new |> some.inj |>.symm]
              exact wellFormed_unheaded heading (by decide)
          · rw [flatMap_append]
            rfl
        · have last := formed group (by simp)
          constructor
          · intro other mem
            rcases mem_append.1 mem with old | new
            · exact formed other (mem_append_left _ old)
            · rw [mem_toList.1 new |> some.inj |>.symm]
              refine ⟨last.headed, last.unheaded, fun member mem => ?_⟩
              rcases mem_append.1 mem with old | new
              · exact last.members member old
              · rw [mem_singleton.1 new, heading]
          · rw [flatMap_append, flatMap_append]
            simp [MarkdownGroup.nodes]

theorem gather_spec (nodes : List MarkdownNode) :
    (∀ group ∈ gather config filePath nodes, WellFormed group) ∧
      (gather config filePath nodes).flatMap MarkdownGroup.nodes = nodes := by
  have loop : ∀ (nodes : List MarkdownNode) (state : Grouping),
      (∀ group ∈ state.groups ++ state.current.toList, WellFormed group) →
      let last := nodes.foldl (place config filePath) state
      (∀ group ∈ last.groups ++ last.current.toList, WellFormed group) ∧
        (last.groups ++ last.current.toList).flatMap MarkdownGroup.nodes =
          (state.groups ++ state.current.toList).flatMap MarkdownGroup.nodes ++ nodes := by
    intro nodes
    induction nodes with
    | nil => exact fun state formed => ⟨formed, by simp⟩
    | cons node nodes ih =>
      intro state formed
      obtain ⟨formed', same⟩ := place_spec config filePath node formed
      obtain ⟨formed'', same'⟩ := ih _ formed'
      exact ⟨formed'', by rw [foldl_cons, same', same]; simp⟩
  obtain ⟨formed, same⟩ := loop nodes ⟨[], none, 0⟩ (fun group mem => nomatch mem)
  exact ⟨formed, same⟩

end Partition

end DocGrouper

namespace MarkdownParser

variable [PatternClasses]

/-- An opening line, the lines up to the closing one, and the rows of the two. -/
structure FencedBlock where
  start : Nat
  stop : Nat
  opener : Text
  body : List Text
  deriving DecidableEq

/-- The fenced blocks of a text whose fences are balanced, and the numbered lines outside of
them. -/
def outline (row : Nat) : List Text → Option (List FencedBlock × List (Nat × Text))
  | [] => some ([], [])
  | line :: rest =>
    if isFence line then
      let body := rest.takeWhile fun line => !isFence line
      if body.length < rest.length then
        (outline (row + body.length + 2) (rest.drop (body.length + 1))).map fun found =>
          (⟨row, row + body.length + 1, line, body⟩ :: found.1, found.2)
      else none
    else (outline (row + 1) rest).map fun found => (found.1, (row, line) :: found.2)
termination_by lines => lines.length
decreasing_by
  all_goals
    simp only [List.length_drop, List.length_cons]
    omega

def KeepsText (block : List (Nat × Text)) (node : ScannedNode) : Prop :=
  (∃ row line, block = [(row, line)] ∧ node.startRow = row ∧ node.endRow = row ∧
    ((headingCaptures line).map (fun heading => (DocNodeType.heading heading.1, heading.2)) =
        some (node.nodeType, node.content) ∨
      headingCaptures line = none ∧ lineNode line = some (node.nodeType, node.content))) ∨
  (node.nodeType = .paragraph ∧ (∀ entry ∈ block, inParagraph entry.2 = true) ∧
    (∃ first last, block.head? = some first ∧ block.getLast? = some last ∧
      node.startRow = first.1 ∧ node.endRow = last.1) ∧
    node.content = [' '].intercalate (block.map fun entry => trim entry.2))

/-- The code nodes are the fenced blocks with their lines, the other nodes have every line outside
that is not blank once and in order, and the nodes follow each other. -/
structure Attributed (blocks : List FencedBlock) (outside : List (Nat × Text))
    (nodes : List ScannedNode) : Prop where
  code : (nodes.filter fun node => node.nodeType.isCode).map
      (fun node => (node.startRow, node.endRow, node.content)) =
    blocks.map fun block => (block.start, block.stop, ['\n'].intercalate block.body)
  others : ∃ parts : List (List (Nat × Text)),
    parts.flatten = outside.filter (fun entry => !isBlank entry.2) ∧
      List.Forall₂ KeepsText parts (nodes.filter fun node => !node.nodeType.isCode)
  ordered : nodes.IsChain fun node next => node.endRow < next.startRow

/-- The opening line is recognised, and the body does not begin with an empty line that others
follow. -/
def Recognised (block : FencedBlock) : Prop :=
  (codeBlockStart block.opener).isSome ∧ ¬(block.body.head? = some [] ∧ 2 ≤ block.body.length)

section Lines

omit [PatternClasses] in
theorem pushLines_cons {separator : Char} {line : Text} (ne : line ≠ []) (rest : List Text) :
    pushLines separator (line :: rest) = [separator].intercalate (line :: rest) := by
  have pushed : ∀ (rest : List Text) (content : Text), content ≠ [] →
      rest.foldl (fun content line => if content.isEmpty then line else content ++
        separator :: line)
        content = content ++ rest.flatMap fun line => separator :: line := by
    intro rest
    induction rest with
    | nil => simp
    | cons next rest ih =>
      intro content ne
      rw [foldl_cons, if_neg (by simpa using ne), ih _ (by simp)]
      simp
  have joined : ∀ (rest : List Text) (line : Text), [separator].intercalate (line :: rest) =
        line ++ rest.flatMap fun line => separator :: line := by
    intro rest
    induction rest with
    | nil => simp
    | cons next rest ih =>
      intro line
      rw [intercalate_cons_cons, ih]
      simp
  rw [joined]
  exact pushed rest line ne

omit [PatternClasses] in
theorem pushLines_nil_cons (separator : Char) (rest : List Text) :
    pushLines separator ([] :: rest) = pushLines separator rest := rfl

omit [PatternClasses] in
/-- Pushing loses a separator exactly when the first of several lines is empty. -/
theorem pushLines_eq_iff (separator : Char) (pushed : List Text) :
    pushLines separator pushed = [separator].intercalate pushed ↔
      ¬(pushed.head? = some [] ∧ 2 ≤ pushed.length) := by
  have short : ∀ pushed : List Text,
      (pushLines separator pushed).length ≤ ([separator].intercalate pushed).length := by
    intro pushed
    induction pushed with
    | nil => exact Nat.le_refl _
    | cons line rest ih =>
      cases line with
      | cons c line => rw [pushLines_cons (by simp)]
      | nil =>
        rw [pushLines_nil_cons]
        refine Nat.le_trans ih ?_
        cases rest with
        | nil => simp
        | cons next rest =>
          rw [intercalate_cons_cons]
          simp
  cases pushed with
  | nil => exact iff_of_true rfl (by simp)
  | cons line rest =>
    cases line with
    | cons c line => exact iff_of_true (pushLines_cons (by simp) rest) (by simp)
    | nil =>
      cases rest with
      | nil => exact iff_of_true rfl (by simp)
      | cons next rest =>
        refine iff_of_false (fun same => ?_) (by simp)
        have le := short (next :: rest)
        rw [pushLines_nil_cons, intercalate_cons_cons] at same
        rw [same] at le
        simp at le

omit [PatternClasses] in
theorem prefix_rdropWhile {p : Char → Bool} {front text : Text} (isFront : front <+: text)
    (last : ∀ c, front.getLast? = some c → p c = false) : front <+: text.rdropWhile p := by
  induction text using reverseRecOn with
  | nil =>
    rw [prefix_nil.1 isFront]
    exact nil_prefix
  | append_singleton text c ih =>
    by_cases passes : p c = true
    · rw [rdropWhile_concat_pos _ _ _ passes]
      refine ih ?_
      rcases prefix_concat_iff.1 isFront with whole | shorter
      · have ends := last c (by rw [whole]; simp)
        rw [passes] at ends
        cases ends
      · exact shorter
    · rw [rdropWhile_concat_neg _ _ _ passes]
      exact isFront

variable {line : Text}

theorem isFence_of_codeBlockStart (opens : (codeBlockStart line).isSome) :
    isFence line = true := by
  unfold codeBlockStart at opens
  split_ifs at opens with start
  · rw [Bool.and_eq_true] at start
    obtain ⟨rest, rfl⟩ := isPrefixOf_iff_prefix.1 start.1
    have front : fence <+: trim (fence ++ rest) := by
      have stays : (fence ++ rest).dropWhile isWhitespace = fence ++ rest := rfl
      unfold trim trimEnd
      rw [stays]
      refine prefix_rdropWhile (prefix_append _ _) fun c last => ?_
      cases last
      rfl
    exact isPrefixOf_iff_prefix.2 front
  · cases opens

theorem headingCaptures_of_codeBlockStart (opens : (codeBlockStart line).isSome) :
    headingCaptures line = none := by
  unfold codeBlockStart at opens
  split_ifs at opens with start
  · rw [Bool.and_eq_true] at start
    obtain ⟨rest, rfl⟩ := isPrefixOf_iff_prefix.1 start.1
    rfl
  · cases opens

omit [PatternClasses] in
theorem isFence_of_isBlank (blank : isBlank line = true) : isFence line = false := by
  have empty : trim line = [] := isEmpty_iff.1 blank
  unfold isFence
  rw [empty]
  rfl

theorem kind_lineNode {node : DocNodeType × Text} (found : lineNode line = some node) :
    node.1.isCode = false ∧ node.1.headingLevel = none := by
  unfold lineNode at found
  simp only [orElse_eq_some, map_eq_some_iff] at found
  rcases found with ⟨_, _, rfl⟩ | ⟨-, ⟨_, _, rfl⟩ | ⟨-, ⟨_, _, rfl⟩ | ⟨-, found | ⟨-, _, _, rfl⟩⟩⟩⟩
  · exact ⟨rfl, rfl⟩
  · exact ⟨rfl, rfl⟩
  · exact ⟨rfl, rfl⟩
  · split_ifs at found
    cases found
    exact ⟨rfl, rfl⟩
  · exact ⟨rfl, rfl⟩

omit [PatternClasses] in
theorem row_behind {P : Text → Prop} {start row k : Nat} (line : Text) {rest : List Text}
    (there : row + 1 + k ≤ start ∧
      ∃ found, (rest.drop k)[start - (row + 1 + k)]? = some found ∧ P found) :
    row ≤ start ∧ ∃ found, (line :: rest)[start - row]? = some found ∧ P found := by
  obtain ⟨le, found, here, holds⟩ := there
  refine ⟨by omega, found, ?_, holds⟩
  rw [getElem?_drop] at here
  have shift : start - row = k + (start - (row + 1 + k)) + 1 := by omega
  rw [shift, getElem?_cons_succ]
  exact here

theorem codeBlockStart_of_mem_scan {total row : Nat} {text : List Text} {node : ScannedNode}
    (mem : node ∈ scan total row text) (code : node.nodeType.isCode = true) :
    row ≤ node.startRow ∧ ∃ line, text[node.startRow - row]? = some line ∧
      (codeBlockStart line).isSome := by
  fun_induction scan total row text with
  | case1 row => cases mem
  | case2 row line rest blank ih => exact row_behind (k := 0) line (ih mem)
  | case3 row line rest blank heading found ih =>
    rcases mem_cons.1 mem with rfl | later
    · cases code
    · exact row_behind (k := 0) line (ih later)
  | case4 row line rest blank heading language found body ih =>
    rcases mem_cons.1 mem with rfl | later
    · exact ⟨Nat.le_refl _, line, by simp, by rw [found]; rfl⟩
    · have shifted := ih later
      rw [show row + body.length + 2 = row + 1 + (body.length + 1) by omega] at shifted
      exact row_behind line shifted
  | case5 row line rest blank heading opens found same ih =>
    rcases mem_cons.1 mem with rfl | later
    · rw [(kind_lineNode same).1] at code
      cases code
    · exact row_behind (k := 0) line (ih later)
  | case6 row line rest blank heading opens found more ih =>
    rcases mem_cons.1 mem with rfl | later
    · cases code
    · have shifted := ih later
      rw [show row + more.length + 1 = row + 1 + more.length by omega] at shifted
      exact row_behind line shifted

omit [PatternClasses] in
theorem opener_of_mem_outline {row : Nat} {text : List Text} {blocks : List FencedBlock}
    {outside : List (Nat × Text)} (found : outline row text = some (blocks, outside))
    {block : FencedBlock} (mem : block ∈ blocks) :
    row ≤ block.start ∧ ∃ line, text[block.start - row]? = some line ∧ line = block.opener := by
  fun_induction outline row text generalizing blocks outside with
  | case1 row =>
    cases found
    cases mem
  | case2 row line rest fenced body shorter =>
    rename_i ih
    obtain ⟨later, inner, same⟩ := map_eq_some_iff.1 found
    cases same
    rcases mem_cons.1 mem with rfl | mem
    · exact ⟨Nat.le_refl _, line, by simp, rfl⟩
    · have shifted := ih inner mem
      rw [show row + body.length + 2 = row + 1 + (body.length + 1) by omega] at shifted
      exact row_behind line shifted
  | case3 row line rest fenced longer => cases found
  | case4 row line rest plain ih =>
    obtain ⟨later, inner, same⟩ := map_eq_some_iff.1 found
    cases same
    exact row_behind (k := 0) line (ih inner mem)

end Lines

section Scanned

def numberedFrom (row : Nat) : List Text → List (Nat × Text)
  | [] => []
  | line :: rest => (row, line) :: numberedFrom (row + 1) rest

/-- As `Attributed`, with the code as it is pushed line by line. -/
structure Scanned (row : Nat) (blocks : List FencedBlock) (outside : List (Nat × Text))
    (nodes : List ScannedNode) : Prop where
  code : (nodes.filter fun node => node.nodeType.isCode).map
      (fun node => (node.startRow, node.endRow, node.content)) =
    blocks.map fun block => (block.start, block.stop, pushLines '\n' block.body)
  others : ∃ parts : List (List (Nat × Text)),
    parts.flatten = outside.filter (fun entry => !isBlank entry.2) ∧
      List.Forall₂ KeepsText parts (nodes.filter fun node => !node.nodeType.isCode)
  ordered : nodes.IsChain fun node next => node.endRow < next.startRow
  behind : ∀ node ∈ nodes, row ≤ node.startRow

omit [PatternClasses] in
theorem isChain_cons_of_forall {node : ScannedNode} {nodes : List ScannedNode}
    (chain : nodes.IsChain fun node next => node.endRow < next.startRow)
    (behind : ∀ next ∈ nodes, node.endRow < next.startRow) :
    (node :: nodes).IsChain fun node next => node.endRow < next.startRow := by
  cases nodes with
  | nil => exact isChain_singleton node
  | cons next rest => exact isChain_cons_cons.2 ⟨behind next mem_cons_self, chain⟩

variable {blocks : List FencedBlock}

theorem Scanned.cons_other {row next : Nat}
    {outside : List (Nat × Text)} {nodes : List ScannedNode} {node : ScannedNode}
    (scanned : Scanned next blocks outside nodes) (part : List (Nat × Text))
    (keeps : KeepsText part node)
    (plain : node.nodeType.isCode = false) (filled : ∀ entry ∈ part, isBlank entry.2 = false)
    (start : row ≤ node.startRow) (le : row ≤ next) (stop : node.endRow < next) :
    Scanned row blocks (part ++ outside) (node :: nodes) where
  code := by
    rw [filter_cons_of_neg (by simp [plain])]
    exact scanned.code
  others := by
    obtain ⟨parts, flat, keep⟩ := scanned.others
    refine ⟨part :: parts, ?_, ?_⟩
    · have all : part.filter (fun entry => !isBlank entry.2) = part :=
        filter_eq_self.2 fun entry mem => by rw [filled entry mem]; rfl
      rw [flatten_cons, flat, filter_append, all]
    · rw [filter_cons_of_pos (by simp [plain])]
      exact .cons keeps keep
  ordered := isChain_cons_of_forall scanned.ordered fun later mem =>
    Nat.lt_of_lt_of_le stop (scanned.behind later mem)
  behind := by
    intro later mem
    rcases mem_cons.1 mem with rfl | mem
    · exact start
    · exact Nat.le_trans le (scanned.behind later mem)

variable {row : Nat} {rest : List Text}

theorem outline_append (more : List Text)
    {outside : List (Nat × Text)} (found : outline row (more ++ rest) = some (blocks, outside))
    (opens : ∀ block ∈ blocks, (codeBlockStart block.opener).isSome)
    (plain : ∀ line ∈ more, codeBlockStart line = none) :
    ∃ later, outline (row + more.length) rest = some (blocks, later) ∧
      outside = numberedFrom row more ++ later := by
  induction more generalizing row outside with
  | nil => exact ⟨outside, found, rfl⟩
  | cons line more ih =>
    rw [cons_append, outline] at found
    simp only at found
    split_ifs at found
    · obtain ⟨inner, -, same⟩ := map_eq_some_iff.1 found
      cases same
      have recognised := opens _ mem_cons_self
      rw [plain line mem_cons_self] at recognised
      cases recognised
    · obtain ⟨inner, here, same⟩ := map_eq_some_iff.1 found
      cases same
      obtain ⟨later, same, numbered⟩ := ih here fun other mem => plain other
        (mem_cons_of_mem _ mem)
      refine ⟨later, ?_, by rw [numbered]; rfl⟩
      rw [length_cons, ← same]
      congr 1
      omega

omit [PatternClasses] in
theorem mem_numberedFrom {text : List Text} {entry : Nat × Text}
    (mem : entry ∈ numberedFrom row text) : entry.2 ∈ text := by
  induction text generalizing row with
  | nil => cases mem
  | cons line rest ih =>
    rcases mem_cons.1 mem with rfl | later
    · exact mem_cons_self
    · exact mem_cons_of_mem _ (ih later)

omit [PatternClasses] in
theorem map_snd_numberedFrom (row : Nat) (text : List Text) (f : Text → Text) :
    (numberedFrom row text).map (fun entry => f entry.2) = text.map f := by
  induction text generalizing row with
  | nil => rfl
  | cons line rest ih => rw [numberedFrom, map_cons, ih, map_cons]

omit [PatternClasses] in
theorem getLast?_numberedFrom (row : Nat) (line : Text) (rest : List Text) :
    ∃ last, (numberedFrom row (line :: rest)).getLast? = some (row + rest.length, last) := by
  induction rest generalizing row line with
  | nil => exact ⟨line, rfl⟩
  | cons next rest ih =>
    obtain ⟨last, found⟩ := ih (row + 1) next
    refine ⟨last, ?_⟩
    rw [numberedFrom, numberedFrom, getLast?_cons_cons, length_cons]
    rw [numberedFrom] at found
    rw [found]
    congr 2
    omega

variable {line : Text}

theorem keepsText_paragraph {more : List Text}
    (taken : ∀ other ∈ line :: more, inParagraph other = true) :
    KeepsText (numberedFrom row (line :: more))
      ⟨⟨pushLines ' ' ((line :: more).map trim)⟩, .paragraph, row, row + more.length⟩ := by
  obtain ⟨last, ends⟩ := getLast?_numberedFrom row line more
  refine Or.inr ⟨rfl, fun entry mem => taken _ (mem_numberedFrom mem),
    ⟨(row, line), (row + more.length, last), rfl, ends, rfl, rfl⟩, ?_⟩
  have first := taken line mem_cons_self
  unfold inParagraph isBlank at first
  rw [Bool.and_eq_true, Bool.and_eq_true, Bool.and_eq_true] at first
  rw [map_snd_numberedFrom, map_cons]
  exact pushLines_cons (by simpa using first.1.1.1) (more.map trim)

theorem outline_cons
    {outside : List (Nat × Text)} (found : outline row (line :: rest) = some (blocks, outside))
    (opens : ∀ block ∈ blocks, (codeBlockStart block.opener).isSome)
    (plain : codeBlockStart line = none) :
    ∃ later, outline (row + 1) rest = some (blocks, later) ∧ outside = (row, line) :: later :=
  outline_append [line] found opens fun other mem => by
    rw [mem_singleton.1 mem, plain]

omit [PatternClasses] in
theorem outline_fence
    {outside : List (Nat × Text)} (found : outline row (line :: rest) = some (blocks, outside))
    (fenced : isFence line = true) (body : List Text)
    (same : body = rest.takeWhile fun line => !isFence line) :
    body.length < rest.length ∧ ∃ later,
      outline (row + body.length + 2) (rest.drop (body.length + 1)) = some (later, outside) ∧
        blocks = ⟨row, row + body.length + 1, line, body⟩ :: later := by
  rw [outline, if_pos fenced, ← same] at found
  simp only at found
  split_ifs at found with shorter
  obtain ⟨⟨later, out⟩, inner, pair⟩ := map_eq_some_iff.1 found
  cases pair
  exact ⟨shorter, later, inner, rfl⟩

theorem scanned_scan {total row : Nat} {text : List Text}
    {outside : List (Nat × Text)} (found : outline row text = some (blocks, outside))
    (size : total = row + text.length)
    (opens : ∀ block ∈ blocks, (codeBlockStart block.opener).isSome) :
    Scanned row blocks outside (scan total row text) := by
  fun_induction scan total row text generalizing blocks outside with
  | case1 row =>
    rw [outline] at found
    cases found
    exact ⟨rfl, ⟨[], rfl, .nil⟩, isChain_nil, fun node mem => absurd mem not_mem_nil⟩
  | case2 row line rest blank ih =>
    have plain : codeBlockStart line = none := by
      rw [← not_isSome_iff_eq_none]
      intro opened
      have fenced := isFence_of_codeBlockStart opened
      rw [isFence_of_isBlank blank] at fenced
      cases fenced
    obtain ⟨later, inner, rfl⟩ := outline_cons found opens plain
    have scanned := ih inner (by rw [length_cons] at size; omega) opens
    exact {
      code := scanned.code
      others := by
        rw [filter_cons_of_neg (by simp [blank])]
        exact scanned.others
      ordered := scanned.ordered
      behind := fun node mem => Nat.le_of_succ_le (scanned.behind node mem) }
  | case3 row line rest blank heading captured ih =>
    have plain : codeBlockStart line = none := by
      rw [← not_isSome_iff_eq_none]
      intro opened
      rw [headingCaptures_of_codeBlockStart opened] at captured
      cases captured
    obtain ⟨later, inner, rfl⟩ := outline_cons found opens plain
    have scanned := ih inner (by rw [length_cons] at size; omega) opens
    refine scanned.cons_other [(row, line)] ?_ rfl ?_ (Nat.le_refl _) (Nat.le_succ _)
      (Nat.lt_succ_self _)
    · exact Or.inl ⟨row, line, rfl, rfl, rfl, Or.inl (by rw [captured]; rfl)⟩
    · intro entry mem
      rw [mem_singleton.1 mem]
      simpa using blank
  | case4 row line rest blank heading language captured body =>
    rename_i ih
    obtain ⟨shorter, later, inner, rfl⟩ :=
      outline_fence found (isFence_of_codeBlockStart (by rw [captured]; rfl)) body rfl
    have scanned := ih inner (by
      rw [length_cons] at size
      rw [length_drop]
      omega) fun block mem => opens block (mem_cons_of_mem _ mem)
    -- the closing fence is there, so the block does not end with the text
    have stop : min (row + body.length + 1) (total - 1) = row + body.length + 1 := by
      rw [length_cons] at size
      omega
    rw [stop]
    exact {
      code := by
        rw [filter_cons_of_pos rfl, map_cons, scanned.code, map_cons]
      others := by
        rw [filter_cons_of_neg (by simp [DocNodeType.isCode])]
        exact scanned.others
      ordered := isChain_cons_of_forall scanned.ordered fun next mem =>
        Nat.lt_of_lt_of_le (Nat.lt_succ_self _) (scanned.behind next mem)
      behind := by
        intro node mem
        rcases mem_cons.1 mem with rfl | mem
        · exact Nat.le_refl _
        · exact Nat.le_trans (by omega) (scanned.behind node mem) }
  | case5 row line rest blank heading plain node captured ih =>
    obtain ⟨later, inner, rfl⟩ := outline_cons found opens plain
    have scanned := ih inner (by rw [length_cons] at size; omega) opens
    refine scanned.cons_other [(row, line)] ?_ (kind_lineNode captured).1 ?_
      (Nat.le_refl _) (Nat.le_succ _) (Nat.lt_succ_self _)
    · exact Or.inl ⟨row, line, rfl, rfl, rfl, Or.inr ⟨heading, captured⟩⟩
    · intro entry mem
      rw [mem_singleton.1 mem]
      simpa using blank
  | case6 row line rest blank heading plain captured more =>
    rename_i ih
    have taken : ∀ other ∈ line :: more, inParagraph other = true := by
      intro other mem
      rcases mem_cons.1 mem with rfl | mem
      · unfold inParagraph
        rw [heading, plain, captured]
        simpa using blank
      · exact mem_takeWhile_imp mem
    have whole : line :: rest = (line :: more) ++ rest.drop more.length := by
      rw [cons_append, cons.injEq]
      refine ⟨rfl, ?_⟩
      have parts := takeWhile_append_dropWhile (p := inParagraph) (l := rest)
      have dropped : rest.drop more.length = rest.dropWhile inParagraph := by
        conv_lhs => rw [← parts]
        exact drop_left
      rw [dropped]
      exact parts.symm
    rw [whole] at found
    obtain ⟨later, inner, rfl⟩ := outline_append _ found opens fun other mem => by
      have taken := taken other mem
      unfold inParagraph at taken
      simp only [Bool.and_eq_true, isNone_iff_eq_none] at taken
      exact taken.1.2
    have shift : row + (line :: more).length = row + more.length + 1 := by
      rw [length_cons]
      omega
    rw [shift] at inner
    have scanned := ih inner (by
      have fits : more.length ≤ rest.length := (takeWhile_sublist _).length_le
      rw [length_cons] at size
      rw [length_drop]
      omega) opens
    refine scanned.cons_other _ (keepsText_paragraph taken) rfl ?_ (Nat.le_refl _) (by omega)
      (Nat.lt_succ_self _)
    intro entry mem
    have filled := taken _ (mem_numberedFrom mem)
    unfold inParagraph at filled
    simp only [Bool.and_eq_true] at filled
    simpa using filled.1.1.1

end Scanned

section Hierarchy

omit [PatternClasses] in
theorem map_modify_of_eq {α β : Type} {g : α → β} {f : α → α} (same : ∀ a, g (f a) = g a)
    (l : List α) (i : Nat) : (l.modify i f).map g = l.map g := by
  refine ext_getElem? fun j => ?_
  rw [getElem?_map, getElem?_map, getElem?_modify]
  cases l[j]? with
  | none => rfl
  | some a =>
    by_cases here : i = j
    · simp [here, same]
    · simp [here]

omit [PatternClasses] in
theorem map_link {β : Type} (f : ScannedNode × String → β) (nodes : List MarkdownNode)
    (parent child depth : Nat) :
    (link nodes parent child depth).map (fun node => f (node.toScannedNode, node.id)) =
      nodes.map fun node => f (node.toScannedNode, node.id) := by
  unfold link
  refine (map_modify_of_eq ?_ _ _).trans (map_modify_of_eq ?_ _ _)
  · exact fun _ => rfl
  · exact fun _ => rfl

omit [PatternClasses] in
theorem map_buildHierarchy (nodes : List MarkdownNode) :
    (buildHierarchy nodes).map MarkdownNode.toScannedNode =
      nodes.map MarkdownNode.toScannedNode := by
  have step : ∀ (state : List MarkdownNode × List (Nat × Nat)) (index : Nat),
      (placeNode state index).1.map MarkdownNode.toScannedNode =
        state.1.map MarkdownNode.toScannedNode := by
    intro state index
    unfold placeNode
    split
    · simp only
      split
      · exact map_link Prod.fst ..
      · rfl
    · split
      · exact map_link Prod.fst ..
      · rfl
  have loop : ∀ (indices : List Nat) (state : List MarkdownNode × List (Nat × Nat)),
      (indices.foldl placeNode state).1.map MarkdownNode.toScannedNode =
        state.1.map MarkdownNode.toScannedNode := by
    intro indices
    induction indices with
    | nil => exact fun _ => rfl
    | cons index indices ih => exact fun state => (ih _).trans (step state index)
  exact loop _ _

theorem map_parse (counter : Nat) (content : Text) :
    (parse counter content).map MarkdownNode.toScannedNode =
      scan (lines content).length 0 (lines content) := by
  unfold parse
  simp only
  rw [map_buildHierarchy]
  unfold numbered
  refine ext_getElem? fun index => ?_
  rw [getElem?_map, getElem?_mapIdx, Option.map_map]
  cases (scan (lines content).length 0 (lines content))[index]? <;> rfl

end Hierarchy

section Attribution

variable {blocks : List FencedBlock} {outside : List (Nat × Text)}

theorem opens_of_code {text : List Text} (found : outline 0 text = some (blocks, outside))
    (code : ((scan text.length 0 text).filter fun node => node.nodeType.isCode).map
        (fun node => (node.startRow, node.endRow, node.content)) =
      blocks.map fun block => (block.start, block.stop, ['\n'].intercalate block.body)) :
    ∀ block ∈ blocks, (codeBlockStart block.opener).isSome := by
  intro block mem
  have listed := mem_map_of_mem (f := fun block : FencedBlock =>
    (block.start, block.stop, ['\n'].intercalate block.body)) mem
  rw [← code] at listed
  obtain ⟨node, scanned, same⟩ := mem_map.1 listed
  obtain ⟨inScan, isCode⟩ := mem_filter.1 scanned
  obtain ⟨-, line, here, opens⟩ := codeBlockStart_of_mem_scan inScan isCode
  obtain ⟨-, opener, there, rfl⟩ := opener_of_mem_outline found mem
  have start : node.startRow = block.start := congrArg Prod.fst same
  rw [start, there] at here
  cases here
  exact opens

/-- In a text with balanced fences every line goes to the node it belongs to, with its text, exactly
where every opening line is recognised and no body begins with an empty line that others follow. -/
theorem attributed_parse_iff (counter : Nat) (content : Text)
    (balanced : outline 0 (lines content) = some (blocks, outside)) :
    Attributed blocks outside ((parse counter content).map MarkdownNode.toScannedNode) ↔
      ∀ block ∈ blocks, Recognised block := by
  rw [map_parse]
  constructor
  · intro attributed
    have opens := opens_of_code balanced attributed.code
    have scanned := scanned_scan balanced (Nat.zero_add _).symm opens
    have contents := scanned.code.symm.trans attributed.code
    intro block mem
    refine ⟨opens block mem, (pushLines_eq_iff '\n' block.body).1 ?_⟩
    have same := map_inj_left.1 contents block mem
    exact congrArg (fun entry => entry.2.2) same
  · intro recognised
    have scanned := scanned_scan balanced (Nat.zero_add _).symm fun block mem =>
      (recognised block mem).1
    refine ⟨?_, scanned.others, scanned.ordered⟩
    rw [scanned.code]
    refine map_inj_left.2 fun block mem => ?_
    rw [(pushLines_eq_iff '\n' block.body).2 (recognised block mem).2]

end Attribution

section Sample

@[reducible] def asciiClasses : PatternClasses where
  isWord c := c.isAlphanum || c = '_'
  isDigit := Char.isDigit

def blockAndHeading (opener : String) (body : List String) : Text :=
  (String.intercalate "\n" ([opener] ++ body ++ ["```", "# Title"])).toList

omit [PatternClasses] in
theorem attributed_parse_rust :
    outline 0 (lines (blockAndHeading "```rust" ["x"])) =
        some ([⟨0, 2, "```rust".toList, ["x".toList]⟩], [(3, "# Title".toList)]) ∧
      (@Attributed asciiClasses [⟨0, 2, "```rust".toList, ["x".toList]⟩] [(3, "# Title".toList)]
          ((@parse asciiClasses 0 (blockAndHeading "```rust" ["x"])).map
            MarkdownNode.toScannedNode) ↔
        ∀ block ∈ [(⟨0, 2, "```rust".toList, ["x".toList]⟩ : FencedBlock)],
          @Recognised asciiClasses block) := by
  have balanced : outline 0 (lines (blockAndHeading "```rust" ["x"])) =
      some ([⟨0, 2, "```rust".toList, ["x".toList]⟩], [(3, "# Title".toList)]) := by decide +kernel
  exact ⟨balanced, @attributed_parse_iff asciiClasses _ _ 0
    (blockAndHeading "```rust" ["x"]) balanced⟩

omit [PatternClasses] in
/-- An opening line with an info string of other characters is not recognised, and its closing line
takes in the heading behind; an empty first line of a body is lost. -/
theorem fences_misread :
    outline 0 (lines (blockAndHeading "```c++" ["x"])) =
        some ([⟨0, 2, "```c++".toList, ["x".toList]⟩], [(3, "# Title".toList)]) ∧
      ¬@Attributed asciiClasses [⟨0, 2, "```c++".toList, ["x".toList]⟩] [(3, "# Title".toList)]
        ((@parse asciiClasses 0 (blockAndHeading "```c++" ["x"])).map MarkdownNode.toScannedNode) ∧
      outline 0 (lines (blockAndHeading "```rust" ["", "x"])) =
        some ([⟨0, 3, "```rust".toList, [[], "x".toList]⟩], [(4, "# Title".toList)]) ∧
      ¬@Attributed asciiClasses [⟨0, 3, "```rust".toList, [[], "x".toList]⟩]
        [(4, "# Title".toList)]
        ((@parse asciiClasses 0 (blockAndHeading "```rust" ["", "x"])).map
          MarkdownNode.toScannedNode) := by
  refine ⟨by decide +kernel, fun attributed => ?_, by decide +kernel, fun attributed => ?_⟩
  · have code := @Attributed.code asciiClasses _ _ _ attributed
    rw [@map_parse asciiClasses] at code
    exact absurd code (by decide +kernel)
  · have code := @Attributed.code asciiClasses _ _ _ attributed
    rw [@map_parse asciiClasses] at code
    exact absurd code (by decide +kernel)

end Sample

end MarkdownParser

end ContextEngine

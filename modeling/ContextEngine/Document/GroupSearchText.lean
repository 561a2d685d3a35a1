/- digest: The texts of a document group, what they leave out and how large they get. -/

import ContextEngine.Document.MarkdownParser
import ContextEngine.Lib.FieldEncoding

set_option autoImplicit false

namespace ContextEngine

open List

namespace Span

def fromLines (startRow endRow : Nat) : Span :=
  ⟨0, 0, ⟨startRow, 0⟩, ⟨min (endRow + 1) usizeMax, 0⟩⟩

def around (current member : Span) : Span :=
  ⟨min current.startByte member.startByte, max current.endByte member.endByte,
    ⟨min current.startPosition.row member.startPosition.row, 0⟩,
    ⟨max current.endPosition.row member.endPosition.row, 0⟩⟩

end Span

namespace MarkdownNode

variable (node : MarkdownNode)

def span : Span := Span.fromLines node.startRow node.endRow

def toEmbeddingText : Text :=
  match node.nodeType with
  | .heading 1 => "Chapter: ".toList ++ trim node.content
  | .heading 2 => "Section: ".toList ++ trim node.content
  | .heading level =>
    "Subsection (level ".toList ++ (toString level).toList ++ "): ".toList ++ trim node.content
  | .codeBlock language =>
    "Code (".toList ++ language.getD "text".toList ++ "): ".toList ++ node.content
  | .list ordered =>
    (if ordered then "Ordered entries: " else "List item: ").toList ++ trim node.content
  | .blockquote => "Quote: ".toList ++ trim node.content
  | .tableRow => "Table content".toList
  | .thematicBreak => "divider".toList
  | .paragraph => trim node.content

def toBm25Text : Text :=
  match node.nodeType with
  | .heading level => headingBm25Text level node.content
  | .codeBlock language =>
    MarkdownParser.fence ++ language.getD [] ++ newline ++ node.content ++ newline ++
      MarkdownParser.fence
  | .list _ => "- ".toList ++ node.content
  | .blockquote => "> ".toList ++ node.content
  | .tableRow => node.content
  | .thematicBreak => "---".toList
  | .paragraph => node.content

end MarkdownNode

def joinLines (parts : List Text) : Text :=
  List.intercalate newline (parts.filter fun part => !part.isEmpty)

namespace MarkdownGroup

variable (group : MarkdownGroup)

def headerSpan : Span := (group.header.map MarkdownNode.span).getD Span.unavailable

def extendSpan (current : Option Span) (member : Span) : Option Span :=
  if MergeStrategy.isAvailable member then
    some ((current.map fun known => known.around member).getD member)
  else current

/-- The span of a group after `finalize`, from the one before. -/
def combineSpans (span : Span) (members : List Span) : Span :=
  (members.foldl extendSpan (if MergeStrategy.isAvailable span then some span else none)).getD span

/-- The texts of `finalize`, and the span. The heading is part of the first text only. -/
def finalize : Text × Text × Span :=
  (joinLines (group.nodes.map MarkdownNode.toEmbeddingText),
    joinLines (group.members.map MarkdownNode.toBm25Text),
    combineSpans group.headerSpan (group.members.map MarkdownNode.span))

end MarkdownGroup

section Spans

open MarkdownGroup

variable {span member current : Span}

def Span.IsRows (span : Span) : Prop := span.startPosition.column = 0 ∧ span.endPosition.column = 0

theorem isRows_fromLines (startRow endRow : Nat) : (Span.fromLines startRow endRow).IsRows :=
  ⟨rfl, rfl⟩

/-- The span lies around the other one. -/
def Span.Covers (current member : Span) : Prop :=
  current.startByte ≤ member.startByte ∧ member.endByte ≤ current.endByte ∧
    current.startPosition.row ≤ member.startPosition.row ∧
    member.endPosition.row ≤ current.endPosition.row

theorem around_eq_self (rows : current.IsRows) (covers : current.Covers member) :
    current.around member = current := by
  obtain ⟨startColumn, endColumn⟩ := rows
  obtain ⟨startByte, endByte, startRow, endRow⟩ := covers
  obtain ⟨_, _, ⟨_, _⟩, ⟨_, _⟩⟩ := current
  simp_all [Span.around]

theorem covers_around (current member : Span) :
    (current.around member).Covers current ∧ (current.around member).Covers member := by
  simp [Span.around, Span.Covers]

theorem Span.Covers.trans {inner : Span} (first : current.Covers member)
    (second : member.Covers inner) : current.Covers inner := by
  simp only [Span.Covers] at *
  omega

theorem isAvailable_around (known : MergeStrategy.isAvailable current = true)
    (memberKnown : MergeStrategy.isAvailable member = true) :
    MergeStrategy.isAvailable (current.around member) = true := by
  rw [MergeStrategy.isAvailable, decide_eq_true_eq] at *
  change min current.startPosition.row member.startPosition.row ≠ usizeMax
  rcases min_choice current.startPosition.row member.startPosition.row with same | same
  · rwa [same]
  · rwa [same]

/-- What the loop over the spans knows: a span around every known member, or no known member. -/
def Surrounds (members : List Span) : Option Span → Prop
  | some last => last.IsRows ∧ MergeStrategy.isAvailable last = true ∧
      ∀ member ∈ members, MergeStrategy.isAvailable member = true → last.Covers member
  | none => ∀ member ∈ members, MergeStrategy.isAvailable member = false

variable {members : List Span}

theorem surrounds_foldl {start : Option Span}
    (rows : ∀ member ∈ members, member.IsRows) (started : Surrounds [] start) :
    Surrounds members (members.foldl extendSpan start) := by
  induction members using reverseRecOn with
  | nil => exact started
  | append_singleton members member ih =>
    rw [foldl_append, foldl_cons, foldl_nil, extendSpan]
    have before := ih fun other mem => rows other (mem_append_left _ mem)
    have rowsMember := rows member (by simp)
    generalize members.foldl extendSpan start = reached at before
    split_ifs with known
    · cases reached with
      | none =>
        refine ⟨rowsMember, known, fun other mem otherKnown => ?_⟩
        rcases mem_append.1 mem with earlier | last
        · simp [before other earlier] at otherKnown
        · simp_all [Span.Covers]
      | some current =>
        obtain ⟨_, currentKnown, covers⟩ := before
        refine ⟨⟨rfl, rfl⟩, isAvailable_around currentKnown known, fun other mem otherKnown => ?_⟩
        rcases mem_append.1 mem with earlier | last
        · exact (covers_around current member).1.trans (covers other earlier otherKnown)
        · rw [mem_singleton.1 last]
          exact (covers_around current member).2
    · cases reached with
      | none =>
        intro other mem
        rcases mem_append.1 mem with earlier | last
        · exact before other earlier
        · simpa [mem_singleton.1 last] using known
      | some current =>
        obtain ⟨currentRows, currentKnown, covers⟩ := before
        refine ⟨currentRows, currentKnown, fun other mem otherKnown => ?_⟩
        rcases mem_append.1 mem with earlier | last
        · exact covers other earlier otherKnown
        · exact absurd (mem_singleton.1 last ▸ otherKnown) known

theorem foldl_extendSpan_of_surrounds {reached : Option Span}
    (surrounds : Surrounds members reached) : members.foldl extendSpan reached = reached := by
  refine foldlRecOn members extendSpan (motive := fun s => s = reached) rfl ?_
  intro s same member mem
  rw [same, extendSpan]
  split_ifs with known
  · cases reached with
    | none => simp [surrounds member mem] at known
    | some last => simp [around_eq_self surrounds.1 (surrounds.2.2 member mem known)]
  · rfl

theorem combineSpans_again (rows : ∀ member ∈ members, member.IsRows)
    (header : MergeStrategy.isAvailable span = true → span.IsRows) :
    combineSpans (combineSpans span members) members = combineSpans span members := by
  have surrounds : Surrounds members
      (members.foldl extendSpan (if MergeStrategy.isAvailable span then some span else none)) := by
    apply surrounds_foldl
    · exact rows
    · split_ifs with known
      · exact ⟨header known, known, by simp⟩
      · simp [Surrounds]
  have settled := foldl_extendSpan_of_surrounds surrounds
  rw [combineSpans, combineSpans]
  generalize members.foldl extendSpan _ = reached at surrounds settled
  cases reached with
  | some last => simp [surrounds.2.1, settled]
  | none =>
    have idle : ∀ start : Option Span, members.foldl extendSpan start = start := fun start => by
      refine foldlRecOn members extendSpan (motive := fun s => s = start) rfl ?_
      intro s same member mem
      simp [same, extendSpan, surrounds member mem]
    rw [idle]
    split_ifs <;> simp

/-- The code finalizes the last group, and every group that it closed early, a second time. -/
theorem MarkdownGroup.combineSpans_finalize (group : MarkdownGroup) :
    combineSpans group.finalize.2.2 (group.members.map MarkdownNode.span) = group.finalize.2.2 := by
  refine combineSpans_again (fun member mem => ?_) fun known => ?_
  · obtain ⟨node, _, rfl⟩ := mem_map.1 mem
    exact isRows_fromLines _ _
  · rw [headerSpan] at known ⊢
    cases header : group.header with
    | none =>
      rw [header] at known
      cases known
    | some node => exact isRows_fromLines _ _

end Spans

namespace DocGrouper

variable [CostModel] (config : MarkdownGrouperConfig) (filePath : String)

/-- Whether a node does not join the nodes in front of it. -/
def startsGroup (node : MarkdownNode) : Bool :=
  node.nodeType.headingLevel.isSome || shouldBeStandalone config node

/-- The groups hold the nodes in their order, both texts of a group consist of the texts of its
nodes, no two groups have one identifier, and no group of several members is over the limit. -/
structure Keeps (nodes : List MarkdownNode) : Prop where
  inOrder : (gather config filePath nodes).flatMap MarkdownGroup.nodes = nodes
  embedded : (group config filePath MarkdownGroup.finalize nodes).map DocGroup.embeddingText =
    (gather config filePath nodes).map fun group =>
      joinLines (group.nodes.map MarkdownNode.toEmbeddingText)
  searchable : (group config filePath MarkdownGroup.finalize nodes).map DocGroup.bm25Text =
    (gather config filePath nodes).map fun group =>
      joinLines (group.nodes.map MarkdownNode.toBm25Text)
  distinct : ((group config filePath MarkdownGroup.finalize nodes).map DocGroup.groupId).Nodup
  bounded : ∀ group ∈ gather config filePath nodes, 1 < group.members.length →
    ChunkUnit.terms.fits group.finalize.2.1 config.maxBm25Terms = true

section Identifiers

variable {config} {filePath}

def Numbered (groupId : String) (number : Nat) : Prop :=
  ∃ front : Text, groupId.toList = front ++ '_' :: Nat.toDigits 10 number

omit [CostModel] in
theorem Numbered.unique {groupId : String} {first second : Nat} (one : Numbered groupId first)
    (other : Numbered groupId second) : first = second := by
  obtain ⟨front, ends⟩ := one
  obtain ⟨front', ends'⟩ := other
  rw [ends, FieldEncoding.separated_last_inj Nat.underscore_not_in_toDigits
    Nat.underscore_not_in_toDigits] at ends'
  rw [← Nat.ofDigitChars_ten_toDigits (n := first), ends'.2, Nat.ofDigitChars_ten_toDigits]

omit [CostModel] in
theorem numbered_groupId (kind : String) (number : Nat) :
    Numbered s!"{filePath}_{kind}_{number}" number := by
  have digits : (toString number).toList = Nat.toDigits 10 number := Nat.toList_repr
  have mark : (toString "_").toList = ['_'] := rfl
  have own : ∀ text : String, (toString text).toList = text.toList := fun _ => rfl
  refine ⟨filePath.toList ++ '_' :: kind.toList, ?_⟩
  simp only [String.toList_append, digits, mark, own, append_assoc, cons_append, nil_append]

omit [CostModel] in
theorem numbered_headed (number level : Nat) (node : MarkdownNode) :
    Numbered (headed filePath number level node).groupId number := numbered_groupId _ number

omit [CostModel] in
theorem numbered_unheaded (number : Nat) (kind : String) (groupType : DocGroupType)
    (node : MarkdownNode) :
    Numbered (unheaded filePath number kind groupType node).groupId number :=
  numbered_groupId kind number

variable (config filePath) in
theorem place_cases (state : Grouping) (node : MarkdownNode) :
    (∃ new, (place config filePath state node).groups ++
          (place config filePath state node).current.toList =
        state.groups ++ state.current.toList ++ [new] ∧
      (place config filePath state node).groupCounter = state.groupCounter + 1 ∧
      Numbered new.groupId (state.groupCounter + 1)) ∨
    ∃ group, state.current = some group ∧ place config filePath state node =
      ⟨state.groups, some { group with members := group.members ++ [node] },
        state.groupCounter⟩ := by
  unfold place
  dsimp only
  cases node.nodeType.headingLevel with
  | some level => exact Or.inl ⟨_, rfl, rfl, numbered_headed _ level node⟩
  | none =>
    dsimp only
    split_ifs
    · exact Or.inl ⟨_, append_nil _, rfl, numbered_unheaded _ _ _ node⟩
    · cases state.current with
      | none =>
        refine Or.inl ⟨unheaded filePath (state.groupCounter + 1) "paragraph" .paragraphGroup
          node, ?_, rfl, numbered_unheaded _ _ _ node⟩
        rw [Option.toList_none, append_nil]
        rfl
      | some group =>
        dsimp only
        split_ifs
        · exact Or.inl ⟨_, rfl, rfl, numbered_unheaded _ _ _ node⟩
        · exact Or.inr ⟨group, rfl, rfl⟩

theorem nodup_groupIds (nodes : List MarkdownNode) :
    ((gather config filePath nodes).map MarkdownGroup.groupId).Nodup := by
  have loop : let last := nodes.foldl (place config filePath) ⟨[], none, 0⟩
      ((last.groups ++ last.current.toList).map MarkdownGroup.groupId).Nodup ∧
        ∀ group ∈ last.groups ++ last.current.toList,
          ∃ number ≤ last.groupCounter, Numbered group.groupId number := by
    induction nodes using reverseRecOn with
    | nil => simp
    | append_singleton nodes node ih =>
      rw [foldl_append, foldl_cons, foldl_nil]
      obtain ⟨distinct, numbered⟩ := ih
      generalize nodes.foldl (place config filePath) ⟨[], none, 0⟩ = state at distinct numbered ⊢
      rcases place_cases config filePath state node with
        ⟨new, groups, counter, named⟩ | ⟨group, current, placed⟩
      · dsimp only
        rw [groups, counter]
        constructor
        · rw [map_append, nodup_append]
          refine ⟨distinct, by simp, fun old oldMem id newMem same => ?_⟩
          obtain ⟨group, mem, rfl⟩ := mem_map.1 oldMem
          obtain ⟨number, below, numberedOld⟩ := numbered group mem
          have newId : id = new.groupId := by simpa using newMem
          rw [same, newId] at numberedOld
          have equal := named.unique numberedOld
          omega
        · intro group mem
          rcases mem_append.1 mem with old | added
          · obtain ⟨number, below, numberedOld⟩ := numbered group old
            exact ⟨number, by omega, numberedOld⟩
          · rw [mem_singleton.1 added]
            exact ⟨_, le_rfl, named⟩
      · rw [placed]
        rw [current] at distinct numbered
        constructor
        · simpa using distinct
        · intro other mem
          rcases mem_append.1 mem with old | joined
          · exact numbered other (mem_append_left _ old)
          · rw [← Option.mem_toList.1 joined |> Option.some.inj]
            exact numbered group (by simp)
  exact loop.1

end Identifiers

section Runs

variable {config} {filePath}

/-- The lists of several nodes among these. -/
def long (runs : List (List MarkdownNode)) : List (List MarkdownNode) :=
  runs.filter fun run => decide (1 < run.length)

omit [CostModel] in
theorem long_append (runs more : List (List MarkdownNode)) :
    long (runs ++ more) = long runs ++ long more := filter_append ..

def openMembers (current : Option MarkdownGroup) : List MarkdownNode :=
  (current.map MarkdownGroup.members).getD []

omit [CostModel] in
theorem long_toList (current : Option MarkdownGroup) :
    long (current.toList.map MarkdownGroup.members) = long [openMembers current] := by
  cases current <;> rfl

variable (config) in
/-- A group that is being filled and has members is not over the limit, whatever its members. -/
def StaysOpen (current : Option MarkdownGroup) : Prop :=
  ∀ group ∈ current, group.members ≠ [] → ∀ members,
    shouldSplit config { group with members := members } = false

theorem staysOpen_unheaded (number : Nat) (kind : String) (groupType : DocGroupType)
    (node : MarkdownNode) :
    StaysOpen config (some (unheaded filePath number kind groupType node)) := by
  intro group mem _ members
  cases mem
  simp [shouldSplit, unheaded]

theorem shouldSplit_members {group : MarkdownGroup} {members : List MarkdownNode}
    (nonempty : members ≠ []) (fits : shouldSplit config { group with members := members } = false)
    (others : List MarkdownNode) :
    shouldSplit config { group with members := others } = false := by
  have some_ : members.isEmpty = false := by simpa using nonempty
  simp only [shouldSplit, some_] at fits ⊢
  split_ifs at fits ⊢ <;> simp_all

variable (filePath) in
/-- One round: where a group starts, the run before it is complete; otherwise it gets longer. -/
theorem place_runs {state : Grouping} (opened : StaysOpen config state.current)
    (node : MarkdownNode) :
    let next := place config filePath state node
    StaysOpen config next.current ∧
    if startsGroup config node then
      openMembers next.current = [] ∧ long (next.groups.map MarkdownGroup.members) =
        long (state.groups.map MarkdownGroup.members) ++ long [openMembers state.current]
    else
      openMembers next.current = openMembers state.current ++ [node] ∧
        long (next.groups.map MarkdownGroup.members) =
          long (state.groups.map MarkdownGroup.members) := by
  unfold place startsGroup
  dsimp only
  cases node.nodeType.headingLevel with
  | some level =>
    refine ⟨?_, ?_⟩
    · intro group mem nonempty
      cases mem
      exact absurd rfl nonempty
    · simp [openMembers, headed, long_append, long_toList]
  | none =>
    simp only [Option.isSome_none, Bool.false_or]
    split_ifs with standalone
    · constructor
      · intro group mem
        cases mem
      · have alone : long [[node]] = [] := rfl
        simp [openMembers, unheaded, long_append, long_toList, alone]
    · cases current : state.current with
      | none =>
        exact ⟨staysOpen_unheaded _ _ _ _, by simp [openMembers, unheaded]⟩
      | some group =>
        rw [current] at opened
        dsimp only
        split_ifs with exceeds
        · -- a group with members never gets here
          have empty : group.members = [] := by
            by_contra nonempty
            have fits := opened group rfl nonempty (group.members ++ [node])
            rw [fits] at exceeds
            cases exceeds
          refine ⟨staysOpen_unheaded _ _ _ _, ?_⟩
          simp [openMembers, unheaded, empty, long]
        · refine ⟨?_, by simp [openMembers]⟩
          intro other mem _ members
          cases mem
          have nonempty : group.members ++ [node] ≠ [] := by simp
          exact shouldSplit_members nonempty (by simpa using exceeds) members

variable (config filePath) in
theorem long_gather (nodes : List MarkdownNode) :
    long ((gather config filePath nodes).map MarkdownGroup.members) =
      long (nodes.splitOnP (startsGroup config)) := by
  have loop : ∀ (nodes : List MarkdownNode) (state : Grouping), StaysOpen config state.current →
      let last := nodes.foldl (place config filePath) state
      long ((last.groups ++ last.current.toList).map MarkdownGroup.members) =
        long (state.groups.map MarkdownGroup.members) ++
          long ((nodes.splitOnP (startsGroup config)).modifyHead
            (openMembers state.current ++ ·)) := by
    intro nodes
    induction nodes with
    | nil =>
      intro state _
      simp [long_append, long_toList, splitOnP_nil]
    | cons node nodes ih =>
      intro state opened
      obtain ⟨opened', round⟩ := place_runs filePath opened node
      have rest := ih _ opened'
      dsimp only at rest ⊢
      rw [foldl_cons, rest, splitOnP_cons_eq_if_modifyHead]
      split_ifs at round ⊢ with starts
      · rw [round.1, round.2]
        have whole : ((fun run => [] ++ run) : List MarkdownNode → _) = id := rfl
        rw [whole, modifyHead_id, id_eq, append_assoc, ← long_append,
          modifyHead_cons, append_nil, singleton_append]
      · rw [round.1, round.2, modifyHead_modifyHead]
        congr 3
        funext run
        simp
  exact loop nodes ⟨[], none, 0⟩ (fun group mem => by cases mem) |>.trans (by
    have whole : ((fun run => openMembers none ++ run) : List MarkdownNode → _) = id := rfl
    rw [whole, modifyHead_id]
    rfl)

end Runs

section Limits

variable {config} {filePath}

omit [CostModel] in
theorem length_joinLines_cons {part : Text} (nonempty : part ≠ []) (parts : List Text) :
    (joinLines parts).length < (joinLines (part :: parts)).length := by
  have kept : (part :: parts).filter (fun part => !part.isEmpty) =
      part :: parts.filter fun part => !part.isEmpty :=
    filter_cons_of_pos (by simpa using nonempty)
  have some_ := length_pos_of_ne_nil nonempty
  rw [joinLines, joinLines, kept]
  cases parts.filter fun part => !part.isEmpty with
  | nil => simpa using some_
  | cons next rest =>
    rw [intercalate_cons_cons]
    simp only [length_append]
    omega

variable (config filePath) in
theorem searchable_iff (nodes : List MarkdownNode) :
    (∀ group ∈ gather config filePath nodes,
      group.finalize.2.1 = joinLines (group.nodes.map MarkdownNode.toBm25Text)) ↔
      ∀ node ∈ nodes, node.nodeType.headingLevel = none := by
  obtain ⟨formed, inOrder⟩ := gather_spec config filePath nodes
  constructor
  · intro searchable node mem
    rw [← inOrder, mem_flatMap] at mem
    obtain ⟨group, groupMem, nodeMem⟩ := mem
    have well := formed group groupMem
    cases header : group.header with
    | none =>
      rw [MarkdownGroup.nodes, header] at nodeMem
      exact well.members node nodeMem
    | some heading =>
      obtain ⟨level, isHeading, _⟩ := well.headed heading header
      have same := congrArg length (searchable group groupMem)
      have shown : heading.toBm25Text ≠ [] := by
        cases kind : heading.nodeType <;> rw [kind] at isHeading <;> cases isHeading
        simp [MarkdownNode.toBm25Text, kind, headingBm25Text]
      have shorter := length_joinLines_cons shown (group.members.map MarkdownNode.toBm25Text)
      rw [MarkdownGroup.finalize, MarkdownGroup.nodes, header] at same
      exact absurd same shorter.ne
  · intro plain group groupMem
    have unheaded : group.header = none := by
      cases header : group.header with
      | none => rfl
      | some heading =>
        obtain ⟨level, isHeading, _⟩ := (formed group groupMem).headed heading header
        have mem : heading ∈ nodes := by
          rw [← inOrder, mem_flatMap]
          exact ⟨group, groupMem, by simp [MarkdownGroup.nodes, header]⟩
        rw [plain heading mem] at isHeading
        cases isHeading
    rw [MarkdownGroup.finalize, MarkdownGroup.nodes, unheaded]
    rfl

variable (config filePath) in
theorem bounded_iff (nodes : List MarkdownNode) :
    (∀ group ∈ gather config filePath nodes, 1 < group.members.length →
      ChunkUnit.terms.fits group.finalize.2.1 config.maxBm25Terms = true) ↔
      ∀ run ∈ nodes.splitOnP (startsGroup config), 1 < run.length →
        ChunkUnit.terms.fits (joinLines (run.map MarkdownNode.toBm25Text)) config.maxBm25Terms =
          true := by
  have mem_long : ∀ {runs : List (List MarkdownNode)} {run : List MarkdownNode},
      run ∈ long runs ↔ run ∈ runs ∧ 1 < run.length := by simp [long]
  have same := long_gather config filePath nodes
  constructor
  · intro bounded run mem several
    have inGroups : run ∈ long ((gather config filePath nodes).map MarkdownGroup.members) := by
      rw [same, mem_long]
      exact ⟨mem, several⟩
    obtain ⟨group, groupMem, rfl⟩ := mem_map.1 (mem_long.1 inGroups).1
    exact bounded group groupMem several
  · intro bounded group groupMem several
    have inRuns : group.members ∈ long (nodes.splitOnP (startsGroup config)) := by
      rw [← same, mem_long]
      exact ⟨mem_map_of_mem groupMem, several⟩
    exact bounded group.members (mem_long.1 inRuns).1 several

/-- The groups of a document keep all of it if and only if it has no heading and no run of several
nodes between large code blocks is over the limit. -/
theorem keeps_iff (nodes : List MarkdownNode) :
    Keeps config filePath nodes ↔
      (∀ node ∈ nodes, node.nodeType.headingLevel = none) ∧
      ∀ run ∈ nodes.splitOnP (startsGroup config), 1 < run.length →
        ChunkUnit.terms.fits (joinLines (run.map MarkdownNode.toBm25Text)) config.maxBm25Terms =
          true := by
  have searchable : (group config filePath MarkdownGroup.finalize nodes).map DocGroup.bm25Text =
      (gather config filePath nodes).map (fun group =>
        joinLines (group.nodes.map MarkdownNode.toBm25Text)) ↔
      ∀ group ∈ gather config filePath nodes,
        group.finalize.2.1 = joinLines (group.nodes.map MarkdownNode.toBm25Text) := by
    rw [group, map_map, map_inj_left]
    rfl
  rw [← searchable_iff config filePath, ← bounded_iff config filePath, ← searchable]
  constructor
  · intro keeps
    exact ⟨keeps.searchable, keeps.bounded⟩
  · rintro ⟨searchable, bounded⟩
    refine ⟨(gather_spec config filePath nodes).2, ?_, searchable, ?_, bounded⟩
    · rw [group, map_map]
      rfl
    · rw [group, map_map]
      exact nodup_groupIds nodes

omit [CostModel] in
/-- The text for term search of a section lacks its heading, and two paragraphs of two words each
stay together under a limit of three. -/
theorem keeps_fails :
    ¬ @Keeps quarterTokens {} "doc.md"
      (@MarkdownParser.parse MarkdownParser.asciiClasses 0 "# Setup\nrun make".toList) ∧
    ¬ @Keeps quarterTokens { maxBm25Terms := 3 } "doc.md"
      (@MarkdownParser.parse MarkdownParser.asciiClasses 0 "one two\n\nthree four".toList) := by
  constructor
  · intro keeps
    exact absurd (@Keeps.searchable quarterTokens _ _ _ keeps) (by decide +kernel)
  · intro keeps
    exact absurd (@Keeps.bounded quarterTokens _ _ _ keeps) (by decide +kernel)

end Limits

end DocGrouper

end ContextEngine

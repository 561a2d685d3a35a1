/- digest: When the context path of a group is its chain of headings. -/

import Mathlib.Data.List.Flatten
import ContextEngine.Document.MarkdownParser
import ContextEngine.Lib.LevelChain

set_option autoImplicit false

namespace ContextEngine

open Option List LevelChain

def MarkdownNode.level (node : MarkdownNode) : Option Nat := node.nodeType.headingLevel

namespace MarkdownParser

section Placing

variable (nodes : List MarkdownNode)

def headingsAbove (index : Nat) : List MarkdownNode :=
  ancestors MarkdownNode.level (nodes[index]?.bind MarkdownNode.level) (nodes.take index).reverse

def levelAt (index : Nat) : Option Nat :=
  nodes[index]?.bind MarkdownNode.level

def openStack (bound : Option Nat) (index : Nat) : List (Nat × Nat) :=
  (ancestors (levelAt nodes) bound (List.range index).reverse).map fun heading =>
    (heading, (levelAt nodes heading).getD 0)

/-- What the loop has done in front of an index. -/
structure Placed (nodes : List MarkdownNode) (index : Nat)
    (state : List MarkdownNode × List (Nat × Nat)) : Prop where
  same : state.1.map (fun node => (node.toScannedNode, node.id)) =
    nodes.map fun node => (node.toScannedNode, node.id)
  stack : state.2 = openStack nodes none index
  parents : ∀ i : Nat, state.1[i]?.map MarkdownNode.parentId =
    if i < index then
      nodes[i]?.map fun _ => ((openStack nodes (levelAt nodes i) i).head?.bind fun heading =>
        nodes[heading.1]?).map MarkdownNode.id
    else nodes[i]?.map MarkdownNode.parentId

variable {nodes : List MarkdownNode} {index : Nat} {state : List MarkdownNode × List (Nat × Nat)}

theorem Placed.keeps (placed : Placed nodes index state) {β : Type}
    (i : Nat) (f : ScannedNode × String → β) :
    (state.1[i]?.map fun node => f (node.toScannedNode, node.id)) =
      nodes[i]?.map fun node => f (node.toScannedNode, node.id) := by
  have at_i := congrArg (fun l => (l[i]?).map f) placed.same
  simpa only [getElem?_map, Option.map_map, Function.comp_def] using at_i

theorem Placed.levels (placed : Placed nodes index state) :
    levelAt state.1 = levelAt nodes := by
  funext i
  have at_i := congrArg (fun l => (l[i]?).bind fun e => e.1.nodeType.headingLevel) placed.same
  simp only [getElem?_map, bind_map, Function.comp_def] at at_i
  exact at_i

theorem parentId_link (parent child depth i : Nat) :
    (link nodes parent child depth)[i]?.map MarkdownNode.parentId =
      if i = child then nodes[i]?.map fun _ => nodes[parent]?.map MarkdownNode.id
      else nodes[i]?.map MarkdownNode.parentId := by
  have filed : ∀ (l : List MarkdownNode) (added : MarkdownNode → List String),
      (l.modify parent fun node => { node with childIds := added node })[i]?.map
        MarkdownNode.parentId = l[i]?.map MarkdownNode.parentId := by
    intro l added
    rw [getElem?_modify]
    cases l[i]? with
    | none => rfl
    | some node =>
      by_cases here : parent = i
      · simp [here]
      · simp [here]
  unfold link
  simp only
  rw [filed, getElem?_modify]
  cases nodes[i]? with
  | none => simp
  | some node =>
    by_cases here : child = i
    · simp [here]
    · simp [here, Ne.symm here]

theorem dropWhile_openStack (index level : Nat) :
    (openStack nodes none index).dropWhile (fun entry => decide (level ≤ entry.2)) =
      openStack nodes (some level) index := by
  unfold openStack
  rw [ancestors_eq_dropWhile, dropWhile_map]
  rfl

theorem openStack_succ_some {index level : Nat} (heading : levelAt nodes index = some level) :
    openStack nodes none (index + 1) = (index, level) :: openStack nodes (some level) index := by
  unfold openStack
  rw [range_succ, reverse_append, reverse_singleton, singleton_append,
    ancestors_below heading (by simp), map_cons, heading]
  rfl

theorem openStack_succ_none (plain : levelAt nodes index = none) :
    openStack nodes none (index + 1) = openStack nodes none index := by
  unfold openStack
  rw [range_succ, reverse_append, reverse_singleton, singleton_append, ancestors_none plain]

theorem Placed.filed (placed : Placed nodes index state)
    (fresh : ∀ i : Nat, nodes[i]?.map MarkdownNode.parentId = nodes[i]?.map fun _ => none)
    (next : List MarkdownNode) (depth : Nat)
    (files : next = (openStack nodes (levelAt nodes index) index).head?.elim state.1
      fun parent => link state.1 parent.1 index (depth)) :
    next.map (fun node => (node.toScannedNode, node.id)) =
        nodes.map (fun node => (node.toScannedNode, node.id)) ∧
      ∀ i : Nat, next[i]?.map MarkdownNode.parentId = if i < index + 1 then
          nodes[i]?.map fun _ => ((openStack nodes (levelAt nodes i) i).head?.bind fun heading =>
            nodes[heading.1]?).map MarkdownNode.id
        else nodes[i]?.map MarkdownNode.parentId := by
  have ids : ∀ i : Nat, state.1[i]?.map MarkdownNode.id = nodes[i]?.map MarkdownNode.id :=
    fun i => placed.keeps i Prod.snd
  cases above : (openStack nodes (levelAt nodes index) index).head? with
  | none =>
    rw [above, elim_none] at files
    subst files
    refine ⟨placed.same, fun i => ?_⟩
    rw [placed.parents i]
    by_cases here : i = index
    · subst here
      rw [if_neg (Nat.lt_irrefl i), if_pos (Nat.lt_succ_self i), above, fresh]
      rfl
    · by_cases earlier : i < index
      · rw [if_pos earlier, if_pos (by omega)]
      · rw [if_neg earlier, if_neg (by omega)]
  | some parent =>
    rw [above, elim_some] at files
    subst files
    refine ⟨(map_link id ..).trans placed.same, fun i => ?_⟩
    rw [parentId_link, placed.parents i, ids]
    by_cases here : i = index
    · subst here
      rw [if_pos rfl, if_pos (Nat.lt_succ_self i), above]
      exact placed.keeps i fun _ => _
    · rw [if_neg here]
      by_cases earlier : i < index
      · rw [if_pos earlier, if_pos (by omega)]
      · rw [if_neg earlier, if_neg (by omega)]

theorem Placed.placeNode (placed : Placed nodes index state)
    (fresh : ∀ i : Nat, nodes[i]?.map MarkdownNode.parentId = nodes[i]?.map fun _ => none) :
    Placed nodes (index + 1) (placeNode state index) := by
  have level : (state.1[index]?.bind fun node => node.nodeType.headingLevel) =
      levelAt nodes index := congrFun placed.levels index
  unfold MarkdownParser.placeNode
  rw [level]
  cases heading : levelAt nodes index with
  | some level =>
    simp only
    rw [placed.stack, dropWhile_openStack]
    cases above : openStack nodes (some level) index with
    | nil =>
      obtain ⟨same, parents⟩ := placed.filed fresh state.1 level
        (by rw [heading, above]; rfl)
      refine ⟨same, ?_, parents⟩
      rw [openStack_succ_some heading, above]
    | cons parent rest =>
      obtain ⟨same, parents⟩ := placed.filed fresh
        (link state.1 parent.1 index level) level
        (by rw [heading, above]; rfl)
      refine ⟨same, ?_, parents⟩
      rw [openStack_succ_some heading, above]
  | none =>
    simp only
    rw [placed.stack]
    cases above : openStack nodes none index with
    | nil =>
      obtain ⟨same, parents⟩ := placed.filed fresh state.1 0
        (by rw [heading, above]; rfl)
      refine ⟨same, ?_, parents⟩
      rw [openStack_succ_none heading, placed.stack]
    | cons parent rest =>
      obtain ⟨same, parents⟩ := placed.filed fresh
        (link state.1 parent.1 index parent.2) parent.2
        (by rw [heading, above]; rfl)
      refine ⟨same, ?_, parents⟩
      rw [openStack_succ_none heading, above]

theorem placed_foldl
    (fresh : ∀ i : Nat, nodes[i]?.map MarkdownNode.parentId = nodes[i]?.map fun _ => none)
    (index : Nat) : Placed nodes index
      ((List.range index).foldl MarkdownParser.placeNode (nodes, [])) := by
  induction index with
  | zero => exact ⟨rfl, rfl, fun _ => rfl⟩
  | succ index ih =>
    rw [range_succ, foldl_append]
    exact ih.placeNode fresh

end Placing

section Parents

theorem filterMap_range (nodes : List MarkdownNode) (index : Nat) :
    (List.range index).filterMap (fun i => nodes[i]?) = nodes.take index := by
  induction index with
  | zero => rfl
  | succ index ih =>
    rw [range_succ, filterMap_append, ih, take_add_one]
    cases found : nodes[index]? with
    | none => simp [found]
    | some node => simp [found]

theorem head?_headingsAbove (nodes : List MarkdownNode) (index : Nat) :
    (headingsAbove nodes index).head? =
      (openStack nodes (levelAt nodes index) index).head?.bind fun heading =>
        nodes[heading.1]? := by
  unfold headingsAbove openStack
  rw [← filterMap_range, ← filterMap_reverse, ancestors_filterMap]
  change (filterMap _ (ancestors (levelAt nodes) (levelAt nodes index) _)).head? = _
  cases chain : ancestors (levelAt nodes) (levelAt nodes index) (range index).reverse with
  | nil => rfl
  | cons heading rest =>
    have levelled : (levelAt nodes heading).isSome :=
      level_of_mem_ancestors (chain ▸ mem_cons_self)
    cases found : nodes[heading]? with
    | none => simp [levelAt, found] at levelled
    | some node =>
      rw [filterMap_cons_some found, map_cons, head?_cons, head?_cons, bind_some, found]

variable [PatternClasses]

theorem parentId_parse {counter : Nat} {content : Text} {index : Nat} {node : MarkdownNode}
    (found : (parse counter content)[index]? = some node) :
    node.parentId = (headingsAbove (parse counter content) index).head?.map MarkdownNode.id := by
  have fresh : ∀ i : Nat, (numbered counter (scan (lines content).length 0 (lines content)))[i]?.map
          MarkdownNode.parentId =
        (numbered counter (scan (lines content).length 0 (lines content)))[i]?.map
          fun _ => none := by
    intro i
    simp only [numbered, getElem?_mapIdx, Option.map_map]
    rfl
  unfold parse at found ⊢
  simp only at found ⊢
  generalize numbered counter (scan (lines content).length 0 (lines content)) = nodes at *
  have placed := placed_foldl fresh nodes.length
  change Placed nodes nodes.length (buildHierarchy nodes, _) at placed
  have inRange : index < nodes.length := by
    have sizes := congrArg length placed.same
    rw [length_map, length_map] at sizes
    exact sizes ▸ (List.getElem?_eq_some_iff.1 found).1
  have filed := placed.parents index
  simp only [found, if_pos inRange, Option.map_some, getElem?_eq_getElem inRange,
    Option.some_inj] at filed
  rw [head?_headingsAbove, filed]
  unfold openStack
  rw [placed.levels, Option.map_bind, Option.map_bind]
  refine congrArg (Option.bind _) (funext fun heading => ?_)
  exact (placed.keeps heading.1 Prod.snd).symm

/-- The parent of every node is the nearest heading above it of a lower level. -/
theorem parentIds_parse (counter : Nat) (content : Text) :
    (parse counter content).map MarkdownNode.parentId =
      (parse counter content).mapIdx fun index _ =>
        (headingsAbove (parse counter content) index).head?.map MarkdownNode.id := by
  refine ext_getElem? fun index => ?_
  rw [getElem?_map, getElem?_mapIdx]
  cases found : (parse counter content)[index]? with
  | none => rfl
  | some node => exact congrArg some (parentId_parse found)

end Parents

end MarkdownParser

/-- What stands between two titles of a context path. -/
def pathSeparator : Text := " > ".toList

namespace MarkdownGroup

def titled (group : MarkdownGroup) : Bool := !group.title.isEmpty

def isChapter (group : MarkdownGroup) : Bool := group.groupType = .chapter

def hierarchyPath (groups : List MarkdownGroup) (index : Nat) : Text :=
  let above := ancestors level (groups[index]?.bind level) (groups.take index).reverse
  pathSeparator.intercalate (((above.reverse ++ groups[index]?.toList).filter titled).map title)

/-- The groups from the nearest chapter before a group on, or from the start, and the group. -/
def chapterRange (groups : List MarkdownGroup) (index : Nat) : List MarkdownGroup :=
  (upTo isChapter (groups.take index).reverse).reverse ++ groups[index]?.toList

/-- The levels of a group of a parsed document: the highest is 1, that of the chapters. -/
structure Ranked (group : MarkdownGroup) : Prop where
  positive : ∀ l, group.level = some l → 1 ≤ l
  chapter : group.groupType = .chapter → group.level = some 1
  titled : group.titled = true →
    group.level.isSome ∧ (group.groupType = .chapter ∨ group.groupType = .sectionGroup)

end MarkdownGroup

section Levels

variable [PatternClasses] {level : Nat}

omit [PatternClasses] in
theorem MarkdownParser.level_of_headingCaptures {line content : Text}
    (found : headingCaptures line = some (level, content)) : 1 ≤ level := by
  unfold headingCaptures at found
  simp only at found
  split_ifs at found with bounded
  · obtain ⟨_, -, same⟩ := map_eq_some_iff.1 found
    cases same
    exact bounded.1

theorem MarkdownParser.level_of_mem_scan {total row : Nat} {text : List Text} {node : ScannedNode}
    (mem : node ∈ scan total row text)
    (heading : node.nodeType.headingLevel = some level) : 1 ≤ level := by
  fun_induction scan total row text with
  | case1 row => cases mem
  | case2 row line rest blank ih => exact ih mem
  | case3 row line rest blank captured found ih =>
    rcases mem_cons.1 mem with rfl | later
    · cases heading
      exact level_of_headingCaptures found
    · exact ih later
  | case4 row line rest blank captured language found body ih =>
    rcases mem_cons.1 mem with rfl | later
    · cases heading
    · exact ih later
  | case5 row line rest blank captured opens found same ih =>
    rcases mem_cons.1 mem with rfl | later
    · rw [(kind_lineNode same).2] at heading
      cases heading
    · exact ih later
  | case6 row line rest blank captured opens found more ih =>
    rcases mem_cons.1 mem with rfl | later
    · cases heading
    · exact ih later

theorem MarkdownParser.level_of_mem_parse {counter : Nat} {content : Text} {node : MarkdownNode}
    (mem : node ∈ parse counter content)
    (heading : node.nodeType.headingLevel = some level) : 1 ≤ level := by
  have scanned := mem_map_of_mem (f := MarkdownNode.toScannedNode) mem
  rw [map_parse] at scanned
  exact level_of_mem_scan scanned heading

variable [CostModel] {config : MarkdownGrouperConfig} {filePath : String}

theorem ranked_gather_parse {counter : Nat} {content : Text} {group : MarkdownGroup}
    (mem : group ∈ DocGrouper.gather config filePath (MarkdownParser.parse counter content)) :
    group.Ranked := by
  obtain ⟨formed, same⟩ := DocGrouper.gather_spec config filePath
    (MarkdownParser.parse counter content)
  have formed := formed group mem
  cases header : group.header with
  | none =>
    refine ⟨fun l found => ?_, fun chapter => absurd chapter (formed.unheaded header),
      fun titled => ?_⟩
    · simp [MarkdownGroup.level, header] at found
    · simp [MarkdownGroup.titled, MarkdownGroup.title, header] at titled
  | some node =>
    obtain ⟨level, heading, type⟩ := formed.headed node header
    have own : group.level = some level := by
      rw [MarkdownGroup.level, header]
      exact heading
    refine ⟨fun l found => ?_, fun chapter => ?_, fun _ => ⟨by rw [own]; rfl, ?_⟩⟩
    · rw [own] at found
      cases found
      have parsed := mem_flatMap.2 ⟨group, mem,
        show node ∈ group.nodes by simp [MarkdownGroup.nodes, header]⟩
      rw [same] at parsed
      exact MarkdownParser.level_of_mem_parse parsed heading
    · rw [type] at chapter
      split_ifs at chapter with first
      · rw [own, first]
    · rw [type]
      split_ifs
      · exact Or.inl rfl
      · exact Or.inr rfl

end Levels

section Joined

theorem intercalate_append_separator (separator first : Text) (rest : List Text) :
    separator.intercalate (first :: rest) ++ separator =
      (first :: rest).flatMap fun text => text ++ separator := by
  induction rest generalizing first with
  | nil => simp
  | cons next rest ih =>
    rw [intercalate_cons_cons, flatMap_cons, ← ih]
    simp only [append_assoc]

theorem intercalate_ne_nil {separator first : Text} (filled : first ≠ []) (rest : List Text) :
    separator.intercalate (first :: rest) ≠ [] := by
  obtain ⟨c, first, rfl⟩ := exists_cons_of_ne_nil filled
  rw [intercalate_cons_cons_left]
  exact cons_ne_nil _ _

theorem intercalate_concat {separator : Text} {texts : List Text}
    (filled : ∀ text ∈ texts, text ≠ []) (last : Text) :
    separator.intercalate (texts ++ [last]) = if (separator.intercalate texts).isEmpty then last
      else separator.intercalate texts ++ separator ++ last := by
  induction texts with
  | nil => simp
  | cons first rest ih =>
    have some := filled first mem_cons_self
    cases rest with
    | nil =>
      rw [intercalate_singleton, if_neg (by simpa using some)]
      simp
    | cons next rest =>
      have ih := ih fun text mem => filled text (mem_cons_of_mem _ mem)
      have joined : separator.intercalate (next :: rest) ≠ [] :=
        intercalate_ne_nil (filled next (mem_cons_of_mem _ mem_cons_self)) rest
      rw [if_neg (by simpa using joined)] at ih
      rw [cons_append, cons_append, intercalate_cons_cons, ← cons_append, ih,
        intercalate_cons_cons, if_neg (by simp [some])]
      simp only [append_assoc]

theorem eq_of_flatMap_eq {α β : Type} {f : α → List β} {short long : List α}
    (sub : short.Sublist long) (filled : ∀ a ∈ long, f a ≠ [])
    (same : (short.flatMap f).length = (long.flatMap f).length) : short = long := by
  have le : ∀ {short long : List α}, short.Sublist long →
      (short.flatMap f).length ≤ (long.flatMap f).length := by
    intro short long sub
    exact (sub.flatMap f).length_le
  induction sub with
  | slnil => rfl
  | cons a sub ih =>
    have positive := length_pos_of_ne_nil (filled a mem_cons_self)
    have bound := le sub
    rw [flatMap_cons, length_append] at same
    omega
  | cons_cons a sub ih =>
    rw [flatMap_cons, flatMap_cons, length_append, length_append] at same
    rw [ih (fun b mem => filled b (mem_cons_of_mem a mem)) (by omega)]

theorem intercalate_inj_of_sublist {separator : Text} {short long : List Text}
    (sub : short.Sublist long) (filled : ∀ text ∈ long, text ≠ []) :
    separator.intercalate short = separator.intercalate long ↔ short = long := by
  refine ⟨fun same => ?_, fun same => by rw [same]⟩
  cases short with
  | nil =>
    cases long with
    | nil => rfl
    | cons next rest =>
      exact absurd same.symm (intercalate_ne_nil (filled next mem_cons_self) rest)
  | cons first others =>
    cases long with
    | nil => cases sub
    | cons next rest =>
      have spread : ∀ text ∈ next :: rest, text ++ separator ≠ [] :=
        fun text mem empty => filled text mem (append_eq_nil_iff.1 empty).1
      refine eq_of_flatMap_eq sub spread ?_
      rw [← intercalate_append_separator, ← intercalate_append_separator, same]

end Joined

namespace MarkdownGroup

section Hierarchy

theorem ancestors_nodes {groups : List MarkdownGroup}
    (formed : ∀ group ∈ groups, DocGrouper.WellFormed group) (bound : Option Nat) :
    ancestors MarkdownNode.level bound (groups.flatMap nodes).reverse =
      (ancestors level bound groups.reverse).filterMap header := by
  have front : ∀ bound : Option Nat, ancestors level bound groups.reverse =
      ancestors (fun group : MarkdownGroup => group.header.bind MarkdownNode.level) bound
        groups.reverse := fun _ => rfl
  rw [front, ← ancestors_filterMap]
  clear front
  induction groups using reverseRecOn generalizing bound with
  | nil => rfl
  | append_singleton groups group ih =>
    have ih := ih fun other mem => formed other (mem_append_left _ mem)
    have plain : ∀ node ∈ group.members.reverse, MarkdownNode.level node = none :=
      fun node mem => (formed group (by simp)).members node (mem_reverse.1 mem)
    rw [flatMap_append, flatMap_singleton, reverse_append, reverse_append,
      reverse_singleton, singleton_append, MarkdownGroup.nodes, reverse_append,
      append_assoc, ancestors_append_plain plain]
    cases found : group.header with
    | none =>
      rw [filterMap_cons_none found]
      exact ih bound
    | some node =>
      rw [filterMap_cons_some found]
      change ancestors _ _ (node :: (groups.flatMap nodes).reverse) = _
      rw [ancestors, ancestors]
      cases MarkdownNode.level node with
      | none => exact ih bound
      | some l => simp only [ih]

/-- The chain in front of every group with a header holds the headings above that header. -/
theorem headingsAbove_headers [PatternClasses] [CostModel] (config : MarkdownGrouperConfig)
    (filePath : String) (document : List MarkdownNode) :
    let groups := DocGrouper.gather config filePath document
    (groups.mapIdx fun index own => own.header.map fun _ =>
        MarkdownParser.headingsAbove document ((groups.take index).flatMap nodes).length) =
      groups.mapIdx fun index own => own.header.map fun _ =>
        (ancestors level own.level (groups.take index).reverse).filterMap header := by
  obtain ⟨formed, same⟩ := DocGrouper.gather_spec config filePath document
  generalize DocGrouper.gather config filePath document = groups at formed same
  refine ext_getElem? fun index => ?_
  rw [getElem?_mapIdx, getElem?_mapIdx]
  cases found : groups[index]? with
  | none => rfl
  | some own =>
    obtain ⟨inRange, here⟩ := List.getElem?_eq_some_iff.1 found
    rw [Option.map_some, Option.map_some]
    cases headed : own.header with
    | none => rfl
    | some node =>
      have parts : document = (groups.take index).flatMap nodes ++
          (node :: (own.members ++ (groups.drop (index + 1)).flatMap nodes)) := by
        rw [← same]
        conv_lhs => rw [← take_append_drop index groups, drop_eq_getElem_cons inRange, here]
        rw [flatMap_append, flatMap_cons, MarkdownGroup.nodes, headed]
        rfl
      have ownLevel : own.level = MarkdownNode.level node := by
        rw [MarkdownGroup.level, headed]
        rfl
      rw [Option.map_some, Option.map_some, ownLevel,
        ← ancestors_nodes fun group mem => formed group (mem_of_mem_take mem)]
      unfold MarkdownParser.headingsAbove
      have placed : document[((groups.take index).flatMap nodes).length]? = some node := by
        rw [parts]
        simp
      have earlier : document.take ((groups.take index).flatMap nodes).length =
          (groups.take index).flatMap nodes := by
        rw [parts]
        exact take_left
      rw [placed, earlier]
      rfl

end Hierarchy

section Walk

variable {toDoc : MarkdownGroup → DocGroup}

theorem ancestorTitles_map
    (header : ∀ group, (toDoc group).header = group.header.map fun node => node.toDocNode)
    (groupType : ∀ group, (toDoc group).groupType = group.groupType)
    {before : List MarkdownGroup} (ranked : ∀ group ∈ before, group.Ranked) :
    ancestorTitles (before.map toDoc) = ((upTo isChapter before).filter titled).map title := by
  induction before with
  | nil => rfl
  | cons group rest ih =>
    have ih := ih fun other mem => ranked other (mem_cons_of_mem _ mem)
    have ranked := ranked group mem_cons_self
    have ownTitle : ((toDoc group).header.map fun header => trim header.content).getD [] =
        group.title := by
      rw [header, Option.map_map]
      rfl
    have own : (if ((toDoc group).groupType = .chapter ∨
        (toDoc group).groupType = .sectionGroup) ∧ group.title ≠ [] then [group.title] else []) =
          ([group].filter titled).map title := by
      cases isTitled : group.titled with
      | true =>
        have filled : group.title ≠ [] := by simpa [MarkdownGroup.titled] using isTitled
        rw [if_pos ⟨by rw [groupType]; exact (ranked.titled isTitled).2, filled⟩]
        simp [isTitled]
      | false =>
        have empty : group.title = [] := by simpa [MarkdownGroup.titled] using isTitled
        rw [if_neg (by simp [empty])]
        simp [isTitled]
    rw [map_cons, ancestorTitles, upTo]
    simp only [ownTitle]
    rw [own, groupType, ih]
    by_cases chapter : group.groupType = .chapter
    · rw [if_pos chapter, if_pos (by simpa [isChapter] using chapter)]
    · rw [if_neg chapter, if_neg (by simpa [isChapter] using chapter), ← map_append,
        ← filter_append]
      rfl

variable {groups : List MarkdownGroup}

theorem buildContextPath_map
    (header : ∀ group, (toDoc group).header = group.header.map fun node => node.toDocNode)
    (groupType : ∀ group, (toDoc group).groupType = group.groupType)
    (ranked : ∀ group ∈ groups, group.Ranked) {index : Nat}
    {own : MarkdownGroup} (found : groups[index]? = some own) (behind : index ≠ 0) :
    buildContextPath (groups.map toDoc) index =
      pathSeparator.intercalate (((chapterRange groups index).filter titled).map title) := by
  have nonempty : groups ≠ [] := by
    rintro rfl
    cases found
  have walked : ancestorTitles ((groups.map toDoc).take index).reverse =
      ((upTo isChapter (groups.take index).reverse).filter titled).map title := by
    rw [← map_take, ← map_reverse]
    refine ancestorTitles_map header groupType fun group mem => ranked group ?_
    exact mem_of_mem_take (mem_reverse.1 mem)
  have ownTitle : (((groups.map toDoc)[index]?.bind DocGroup.header).map
      fun header => trim header.content).getD [] = own.title := by
    rw [getElem?_map, found, Option.map_some, Option.bind_some, header, Option.map_map]
    rfl
  unfold buildContextPath
  rw [if_neg (by simp [behind, nonempty])]
  simp only [walked, ownTitle]
  rw [← map_reverse, ← filter_reverse, chapterRange, found, filter_append, map_append]
  change _ = pathSeparator.intercalate (_ ++ ([own].filter titled).map title)
  cases isTitled : own.titled with
  | true =>
    rw [if_neg (by simpa [MarkdownGroup.titled] using isTitled)]
    rw [filter_cons_of_pos isTitled]
    refine (intercalate_concat (fun text mem => ?_) own.title).symm
    obtain ⟨group, listed, rfl⟩ := mem_map.1 mem
    simpa [MarkdownGroup.titled] using of_mem_filter listed
  | false =>
    rw [if_pos (by simpa [MarkdownGroup.titled] using isTitled)]
    rw [filter_cons_of_neg (by simp [isTitled]), filter_nil, map_nil,
      append_nil]
    rfl

theorem hierarchyPath_zero_eq_nil_iff {own : MarkdownGroup}
    (found : groups[0]? = some own) : [] = hierarchyPath groups 0 ↔ own.titled = false := by
  have path : hierarchyPath groups 0 =
      pathSeparator.intercalate (([own].filter titled).map title) := by
    rw [hierarchyPath, found]
    rfl
  rw [path]
  cases isTitled : own.titled with
  | true =>
    refine iff_of_false (fun same => ?_) (fun none => nomatch none)
    have empty : own.title = [] := by
      rw [filter_cons_of_pos isTitled, filter_nil, map_singleton, intercalate_singleton] at same
      exact same.symm
    simp [titled, empty] at isTitled
  | false =>
    refine iff_of_true ?_ rfl
    rw [filter_cons_of_neg (by simp [isTitled])]
    rfl

/-- The joined titles of some of the groups are those of all when no titled group is left out. -/
theorem intercalate_titles_eq_iff {short long : List MarkdownGroup} (sub : short.Sublist long) :
    pathSeparator.intercalate ((long.filter titled).map title) =
        pathSeparator.intercalate ((short.filter titled).map title) ↔
      short.filter titled = long.filter titled := by
  have filled : ∀ text ∈ (long.filter titled).map title, text ≠ [] := by
    intro text mem
    obtain ⟨group, listed, rfl⟩ := mem_map.1 mem
    simpa [titled] using of_mem_filter listed
  rw [eq_comm, intercalate_inj_of_sublist ((sub.filter titled).map title) filled]
  refine ⟨fun same => (sub.filter titled).eq_of_length ?_, fun same => by rw [same]⟩
  simpa using congrArg length same

theorem buildContextPath_map_iff
    (header : ∀ group, (toDoc group).header = group.header.map fun node => node.toDocNode)
    (groupType : ∀ group, (toDoc group).groupType = group.groupType)
    (ranked : ∀ group ∈ groups, group.Ranked) {index : Nat}
    (inRange : index < groups.length) :
    buildContextPath (groups.map toDoc) index = hierarchyPath groups index ↔
      (index = 0 → ∀ first ∈ groups.head?, first.titled = false) ∧
        (chapterRange groups index).Pairwise (Under level titled) := by
  obtain ⟨own, found⟩ : ∃ own, groups[index]? = some own := ⟨_, getElem?_eq_getElem inRange⟩
  by_cases first : index = 0
  · subst first
    have head : groups.head? = some own := by rw [← found, head?_eq_getElem?]
    have actual : buildContextPath (groups.map toDoc) 0 = [] := if_pos (Or.inl rfl)
    have alone : (chapterRange groups 0).Pairwise (Under level titled) := by
      rw [chapterRange, found]
      exact pairwise_singleton _ _
    rw [actual, hierarchyPath_zero_eq_nil_iff found, head]
    refine ⟨fun untitled => ⟨fun _ group same => ?_, alone⟩, fun both => both.1 rfl own rfl⟩
    cases same
    exact untitled
  · have before : ∀ group ∈ (groups.take index).reverse, group.Ranked :=
      fun group mem => ranked group (mem_of_mem_take (mem_reverse.1 mem))
    have walked : ∀ group ∈ upTo isChapter (groups.take index).reverse, group.Ranked :=
      fun group mem => before group ((upTo_sublist _).subset mem)
    -- the chain does not go beyond the nearest chapter, as no level is above that of a chapter
    have above : ancestors level own.level (groups.take index).reverse =
        ancestors level own.level (upTo isChapter (groups.take index).reverse) :=
      ancestors_upTo (fun group mem => (before group mem).positive)
        (fun group mem stops => (before group mem).chapter (by simpa [isChapter] using stops)) _
    rw [buildContextPath_map header groupType ranked found first, hierarchyPath, chapterRange,
      found, bind_some]
    simp only [above]
    generalize upTo isChapter (groups.take index).reverse = walk at walked
    have sub : ((ancestors level own.level walk).reverse ++ [own]).Sublist
        (walk.reverse ++ [own]) :=
      (ancestors_sublist walk _).reverse.append (List.Sublist.refl _)
    calc
      _ ↔ ((ancestors level own.level walk).reverse ++ [own]).filter titled =
          (walk.reverse ++ [own]).filter titled := intercalate_titles_eq_iff sub
      _ ↔ (ancestors level own.level walk).filter titled = walk.filter titled := by
        rw [filter_append, filter_append, append_left_inj, filter_reverse,
          filter_reverse, reverse_inj]
      _ ↔ _ := by
        rw [filter_ancestors_iff (fun group mem isTitled => ((walked group mem).titled isTitled).1),
          pairwise_append, pairwise_reverse, and_comm]
        simp [first, Under]

end Walk

end MarkdownGroup

namespace DocGrouper

open MarkdownGroup MarkdownParser

section Paths

variable [PatternClasses] [CostModel] (config : MarkdownGrouperConfig) (filePath : String)
  (finalize : MarkdownGroup → Text × Text × Span) (counter : Nat) (content : Text)

/-- The context path of a group of a document is its chain of headings exactly when the group is not
the first, or has no title, and the levels of the headings rise from the nearest chapter on. -/
theorem buildContextPath_group_iff {index : Nat}
    (inRange : index < (gather config filePath (parse counter content)).length) :
    buildContextPath (group config filePath finalize (parse counter content)) index =
        hierarchyPath (gather config filePath (parse counter content)) index ↔
      (index = 0 → ∀ first ∈ (gather config filePath (parse counter content)).head?,
        first.titled = false) ∧
      (chapterRange (gather config filePath (parse counter content)) index).Pairwise
        (Under level titled) :=
  buildContextPath_map_iff (fun _ => rfl) (fun _ => rfl) (fun _ mem => ranked_gather_parse mem)
    inRange

end Paths

section Sample

def noTexts (_ : MarkdownGroup) : Text × Text × Span := ([], [], ⟨0, 0, ⟨0, 0⟩, ⟨0, 0⟩⟩)

def headingGroups (headings : List String) : List MarkdownGroup :=
  @gather quarterTokens {} "doc.md" (@parse asciiClasses 0 ("\n".intercalate headings).toList)

def headingDocGroups (headings : List String) : List DocGroup :=
  @group quarterTokens {} "doc.md" noTexts
    (@parse asciiClasses 0 ("\n".intercalate headings).toList)

theorem buildContextPath_risingLevels :
    2 < (headingGroups ["# A", "## B", "### C"]).length ∧
      (buildContextPath (headingDocGroups ["# A", "## B", "### C"]) 2 =
          hierarchyPath (headingGroups ["# A", "## B", "### C"]) 2 ↔
        (2 = 0 → ∀ first ∈ (headingGroups ["# A", "## B", "### C"]).head?, first.titled = false) ∧
        (chapterRange (headingGroups ["# A", "## B", "### C"]) 2).Pairwise
          (Under level titled)) := by
  have inRange : 2 < (headingGroups ["# A", "## B", "### C"]).length := by decide +kernel
  exact ⟨inRange, @buildContextPath_group_iff asciiClasses quarterTokens {} "doc.md" noTexts 0
    ("\n".intercalate ["# A", "## B", "### C"]).toList 2 inRange⟩

/-- A sibling section and a previous chapter stand in the path, and the first heading is missing. -/
theorem siblings_and_chapters_listed :
    (buildContextPath (headingDocGroups ["# A", "## B", "## C"]) 2 ≠
        hierarchyPath (headingGroups ["# A", "## B", "## C"]) 2 ∧
      buildContextPath (headingDocGroups ["# A", "## B", "## C"]) 2 = "A > B > C".toList ∧
      hierarchyPath (headingGroups ["# A", "## B", "## C"]) 2 = "A > C".toList) ∧
    (buildContextPath (headingDocGroups ["# A", "## B", "# C"]) 2 = "A > B > C".toList ∧
      hierarchyPath (headingGroups ["# A", "## B", "# C"]) 2 = "C".toList) ∧
    (buildContextPath (headingDocGroups ["# A"]) 0 = [] ∧
      hierarchyPath (headingGroups ["# A"]) 0 = "A".toList) := by
  decide +kernel

end Sample

end DocGrouper

end ContextEngine

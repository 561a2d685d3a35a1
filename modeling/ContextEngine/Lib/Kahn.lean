/- digest: Kahn's algorithm on a graph with counted in-degrees, and what it orders. -/

import Mathlib.Data.Fintype.List
import Mathlib.Data.Fintype.EquivFin
import Mathlib.Logic.Relation
import Mathlib.Order.WellFounded
import ContextEngine.Lib.Collections
import ContextEngine.Lib.Loops

/-!
A node is ready when no edge into it is open. A ready node is taken, its edges are closed, and the
nodes that get ready by this are put behind the others. What is taken in the end are the nodes that
no cycle leads to; in the order, every edge goes from an earlier node to a later one.
-/

namespace ContextEngine.Kahn

open HashMap List

variable {α : Type} [DecidableEq α]

section Counting

/-- The edges out of every node, and the number of edges into it. -/
structure Counts (α : Type) [DecidableEq α] where
  inDegree : HashMap α Nat
  adjacency : HashMap α (List α)

/-- Nodes without edges. -/
def Counts.ofNodes (nodes : List α) : Counts α :=
  nodes.foldl (fun counts node => ⟨counts.inDegree.insert node 0, counts.adjacency.insert node []⟩)
    ⟨∅, ∅⟩

def Counts.addEdge (counts : Counts α) (source target : α) : Counts α where
  inDegree := counts.inDegree.alter target fun degree => some (degree.getD 0 + 1)
  adjacency := counts.adjacency.bucketPush source target

def Counts.Balanced (counts : Counts α) (nodes : List α) : Prop :=
  ∀ node ∈ nodes,
    counts.inDegree.lookup node = some ((nodes.flatMap counts.adjacency.bucket).count node)

variable {counts : Counts α} {nodes : List α} {source target : α}

theorem Counts.lookup_ofNodes (nodes : List α) (node : α) :
    (Counts.ofNodes nodes).inDegree.lookup node = (if node ∈ nodes then some 0 else none) ∧
      (Counts.ofNodes nodes).adjacency.bucket node = [] := by
  have fold : ∀ (nodes : List α) (counts : Counts α), counts.adjacency.bucket node = [] →
      (nodes.foldl (fun counts node =>
          (⟨counts.inDegree.insert node 0, counts.adjacency.insert node []⟩ : Counts α))
        counts).inDegree.lookup node =
          (if node ∈ nodes then some 0 else counts.inDegree.lookup node) ∧
      (nodes.foldl (fun counts node =>
          (⟨counts.inDegree.insert node 0, counts.adjacency.insert node []⟩ : Counts α))
        counts).adjacency.bucket node = [] := by
    intro nodes
    induction nodes with
    | nil => exact fun counts bare => ⟨(if_neg not_mem_nil).symm, bare⟩
    | cons first rest ih =>
      intro counts bare
      have kept : bucket (counts.adjacency.insert first []) node = [] := by
        rw [bucket, lookup_insert_eq]
        split_ifs with same
        · rfl
        · exact bare
      obtain ⟨degree, edges⟩ := ih ⟨counts.inDegree.insert first 0, _⟩ kept
      refine ⟨degree.trans ?_, edges⟩
      rw [lookup_insert_eq]
      by_cases later : node ∈ rest
      · rw [if_pos later, if_pos (mem_cons_of_mem _ later)]
      · rw [if_neg later]
        by_cases same : node = first
        · rw [if_pos same, if_pos (same ▸ mem_cons_self)]
        · rw [if_neg same, if_neg (by simp [same, later])]
  exact fold nodes ⟨∅, ∅⟩ rfl

theorem Counts.balanced_ofNodes (nodes : List α) {listed : List α}
    (same : ∀ a ∈ listed, a ∈ nodes) :
    (Counts.ofNodes nodes).Balanced listed := by
  intro node mem
  have bare : listed.flatMap (Counts.ofNodes nodes).adjacency.bucket = [] :=
    flatMap_eq_nil_iff.2 fun other _ => (lookup_ofNodes nodes other).2
  rw [(lookup_ofNodes nodes node).1, if_pos (same node mem), bare, count_nil]

theorem Counts.mem_addEdge {a b : α} :
    b ∈ (counts.addEdge source target).adjacency.bucket a ↔
      a = source ∧ b = target ∨ b ∈ counts.adjacency.bucket a := by
  rw [addEdge, bucket_bucketPush]
  split_ifs with same
  · subst same
    simp [or_comm]
  · simp [same]

private theorem count_addEdge (distinct : nodes.Nodup) (mem : source ∈ nodes) (node : α) :
    (nodes.flatMap (counts.addEdge source target).adjacency.bucket).count node =
      (nodes.flatMap counts.adjacency.bucket).count node + if node = target then 1 else 0 := by
  induction nodes with
  | nil => cases mem
  | cons first rest ih =>
    rw [nodup_cons] at distinct
    rw [flatMap_cons, flatMap_cons, count_append, count_append, Counts.addEdge, bucket_bucketPush]
    rcases mem_cons.1 mem with rfl | later
    · have others : rest.flatMap (counts.adjacency.bucketPush source target).bucket =
          rest.flatMap counts.adjacency.bucket := by
        refine flatMap_congr fun other otherMem => ?_
        rw [bucket_bucketPush, if_neg]
        exact fun same => distinct.1 (same ▸ otherMem)
      rw [others, if_pos rfl, count_append, count_singleton]
      simp only [beq_iff_eq, eq_comm (a := target)]
      omega
    · have apart : first ≠ source := fun same => distinct.1 (same ▸ later)
      have rest := ih distinct.2 later
      rw [Counts.addEdge] at rest
      rw [if_neg apart, rest]
      omega

theorem Counts.Balanced.addEdge (balanced : counts.Balanced nodes) (distinct : nodes.Nodup)
    (mem : source ∈ nodes) : (counts.addEdge source target).Balanced nodes := by
  intro node nodeMem
  rw [count_addEdge distinct mem node, Counts.addEdge, lookup_alter, balanced node nodeMem]
  by_cases same : node = target
  · subst same
    rw [if_pos rfl, if_pos rfl, balanced node nodeMem, Option.getD_some]
  · rw [if_neg same, if_neg same, Nat.add_zero]

end Counting

section Rounds

/-- The ready nodes, the numbers of open edges into the nodes, and the order so far. -/
structure State (α : Type) [DecidableEq α] where
  queue : List α
  inDegree : HashMap α Nat
  order : List α

/-- Close one edge into a node; it is ready when this was the last. -/
def release (state : List α × HashMap α Nat) (node : α) : List α × HashMap α Nat :=
  match state.2.lookup node with
  | some degree =>
    (if degree - 1 = 0 then state.1 ++ [node] else state.1, state.2.insert node (degree - 1))
  | none => state

/-- Take the first ready node, or leave with the order. -/
def round (next : α → List α) (state : State α) : List α ⊕ State α :=
  match state.queue with
  | [] => .inl state.order
  | node :: queue =>
    let released := (next node).foldl release (queue, state.inDegree)
    .inr ⟨released.1, released.2, state.order ++ [node]⟩

theorem round_eq_inl {next : α → List α} {state : State α} {order : List α}
    (leaves : round next state = .inl order) : state.queue = [] ∧ state.order = order := by
  rw [round] at leaves
  cases queued : state.queue with
  | nil =>
    rw [queued] at leaves
    exact ⟨rfl, Sum.inl.inj leaves⟩
  | cons taken queue =>
    rw [queued] at leaves
    cases leaves

theorem round_eq_inr {next : α → List α} {state later : State α}
    (step : round next state = .inr later) : ∃ taken queue, state.queue = taken :: queue ∧
      later = ⟨((next taken).foldl release (queue, state.inDegree)).1,
        ((next taken).foldl release (queue, state.inDegree)).2, state.order ++ [taken]⟩ := by
  rw [round] at step
  cases queued : state.queue with
  | nil =>
    rw [queued] at step
    cases step
  | cons taken queue =>
    rw [queued] at step
    exact ⟨taken, queue, rfl, (Sum.inr.inj step).symm⟩

/-- What the edges out of one node leave: `rest` says how many open edges stay. -/
theorem foldl_release {l queue : List α} {degrees : HashMap α Nat} {rest : α → Nat}
    (open_ : ∀ node ∈ l, degrees.lookup node = some (l.count node + rest node)) :
    ∃ freed, (l.foldl release (queue, degrees)).1 = queue ++ freed ∧ freed.Nodup ∧
      (∀ node, node ∈ freed ↔ node ∈ l ∧ rest node = 0) ∧
      ∀ node, (l.foldl release (queue, degrees)).2.lookup node =
        if node ∈ l then some (rest node) else degrees.lookup node := by
  induction l generalizing queue degrees with
  | nil => exact ⟨[], (append_nil _).symm, nodup_nil, by simp, by simp⟩
  | cons first l ih =>
    have degree : (first :: l).count first + rest first - 1 = l.count first + rest first := by
      rw [count_cons_self]
      omega
    have step : release (queue, degrees) first =
        (if l.count first + rest first = 0 then queue ++ [first] else queue,
          degrees.insert first (l.count first + rest first)) := by
      rw [release, open_ first mem_cons_self]
      dsimp only
      rw [degree]
    have open' : ∀ node ∈ l, (degrees.insert first (l.count first + rest first)).lookup node =
        some (l.count node + rest node) := by
      intro node mem
      rw [lookup_insert_eq]
      split_ifs with same
      · rw [same]
      · rw [open_ node (mem_cons_of_mem _ mem), count_cons_of_ne (Ne.symm same)]
    obtain ⟨freed, queued, distinct, ready, degrees'⟩ := ih open'
    have lookups : ∀ node, ((first :: l).foldl release (queue, degrees)).2.lookup node =
        if node ∈ first :: l then some (rest node) else degrees.lookup node := by
      intro node
      rw [foldl_cons, step, degrees' node]
      by_cases later : node ∈ l
      · rw [if_pos later, if_pos (mem_cons_of_mem _ later)]
      · rw [if_neg later, lookup_insert_eq]
        by_cases same : node = first
        · subst same
          rw [if_pos rfl, if_pos mem_cons_self, count_eq_zero_of_not_mem later, Nat.zero_add]
        · rw [if_neg same, if_neg (by simp [same, later])]
    rw [foldl_cons, step] at lookups ⊢
    by_cases last : l.count first + rest first = 0
    · have gone : first ∉ l := count_eq_zero.1 (by omega)
      refine ⟨first :: freed, ?_, ?_, ?_, lookups⟩
      · rw [queued, if_pos last, append_assoc, singleton_append]
      · exact nodup_cons.2 ⟨fun mem => gone ((ready first).1 mem).1, distinct⟩
      · intro node
        rw [mem_cons, mem_cons, ready node]
        constructor
        · rintro (rfl | ⟨mem, closed⟩)
          · exact ⟨Or.inl rfl, by omega⟩
          · exact ⟨Or.inr mem, closed⟩
        · rintro ⟨rfl | mem, closed⟩
          · exact Or.inl rfl
          · exact Or.inr ⟨mem, closed⟩
    · refine ⟨freed, by rw [queued, if_neg last], distinct, ?_, lookups⟩
      intro node
      rw [ready node, mem_cons]
      constructor
      · rintro ⟨mem, closed⟩
        exact ⟨Or.inr mem, closed⟩
      · rintro ⟨rfl | mem, closed⟩
        · refine ⟨count_pos_iff.1 ?_, closed⟩
          omega
        · exact ⟨mem, closed⟩

end Rounds

section Invariant

variable {next : α → List α} {nodes order : List α} {state : State α} {node : α}

/-- The open edges into a node: those out of the nodes that are not taken yet. -/
def pending (next : α → List α) (nodes order : List α) (node : α) : Nat :=
  ((nodes.filter fun other => other ∉ order).flatMap next).count node

theorem pending_eq_zero_iff :
    pending next nodes order node = 0 ↔ ∀ other ∈ nodes, node ∈ next other → other ∈ order := by
  rw [pending, count_eq_zero, mem_flatMap]
  constructor
  · intro closed other mem edge
    by_contra untaken
    exact closed ⟨other, mem_filter.2 ⟨mem, by simpa using untaken⟩, edge⟩
  · rintro taken ⟨other, listed, edge⟩
    obtain ⟨mem, untaken⟩ := mem_filter.1 listed
    exact of_decide_eq_true untaken (taken other mem edge)

theorem pending_snoc (distinct : nodes.Nodup) {taken : α} (mem : taken ∈ nodes)
    (untaken : taken ∉ order) (node : α) :
    pending next nodes order node =
      (next taken).count node + pending next nodes (order ++ [taken]) node := by
  induction nodes with
  | nil => cases mem
  | cons first rest ih =>
    rw [nodup_cons] at distinct
    rcases mem_cons.1 mem with rfl | later
    · have others : rest.filter (fun other => other ∉ order ++ [taken]) =
          rest.filter fun other => other ∉ order := by
        refine filter_congr fun other otherMem => ?_
        have apart : other ≠ taken := fun same => distinct.1 (same ▸ otherMem)
        simp [apart]
      rw [pending, pending, filter_cons_of_pos (by simpa using untaken),
        filter_cons_of_neg (by simp), others, flatMap_cons, count_append]
    · have apart : first ≠ taken := fun same => distinct.1 (same ▸ later)
      have rest := ih distinct.2 later
      rw [pending, pending] at rest ⊢
      by_cases old : first ∈ order
      · rw [filter_cons_of_neg (by simpa using old),
          filter_cons_of_neg (by simp [old]), rest]
      · rw [filter_cons_of_pos (by simpa using old),
          filter_cons_of_pos (by simp [old, apart]), flatMap_cons, flatMap_cons,
          count_append, count_append, rest]
        omega

/-- What the rounds keep: taken and ready are the nodes without open edges, and what was taken
before a node are the sources of all edges into it. -/
structure Inv (next : α → List α) (nodes : List α) (state : State α) : Prop where
  distinct : (state.order ++ state.queue).Nodup
  ready : ∀ node, node ∈ state.order ++ state.queue ↔
    node ∈ nodes ∧ pending next nodes state.order node = 0
  degree : ∀ node ∈ nodes,
    state.inDegree.lookup node = some (pending next nodes state.order node)
  ordered : ∀ before node after, state.order = before ++ node :: after →
    ∀ other ∈ nodes, node ∈ next other → other ∈ before

theorem inv_start {counts : Counts α} (balanced : counts.Balanced nodes) {queue : List α}
    (once : queue.Nodup)
    (ready : ∀ node, node ∈ queue ↔ node ∈ nodes ∧ counts.inDegree.lookup node = some 0) :
    Inv counts.adjacency.bucket nodes ⟨queue, counts.inDegree, []⟩ := by
  have none : ∀ node, pending counts.adjacency.bucket nodes [] node =
      (nodes.flatMap counts.adjacency.bucket).count node := by
    intro node
    rw [pending, filter_eq_self.2 fun other _ => by simp]
  constructor
  · exact once
  · intro node
    rw [nil_append, ready node, none node]
    refine and_congr_right fun mem => ?_
    rw [balanced node mem, Option.some_inj]
  · intro node mem
    rw [none node]
    exact balanced node mem
  · intro before node after absurd_
    cases before <;> cases absurd_

theorem Inv.round (distinct : nodes.Nodup) (edges : ∀ a ∈ nodes, ∀ b ∈ next a, b ∈ nodes)
    (inv : Inv next nodes state) {later : State α} (step : round next state = .inr later) :
    Inv next nodes later ∧ later.order.length = state.order.length + 1 := by
  obtain ⟨taken, queue, queued, rfl⟩ := round_eq_inr step
  have ready := inv.ready
  have once := inv.distinct
  rw [queued] at ready once
  obtain ⟨mem, closed⟩ := (ready taken).1 (mem_append_right _ mem_cons_self)
  have untaken : taken ∉ state.order := by
    intro old
    exact (disjoint_of_nodup_append once) old mem_cons_self
  have split : ∀ node, pending next nodes state.order node = (next taken).count node +
      pending next nodes (state.order ++ [taken]) node := pending_snoc distinct mem untaken
  have open_ : ∀ node ∈ next taken, state.inDegree.lookup node = some
      ((next taken).count node + pending next nodes (state.order ++ [taken]) node) := by
    intro node edge
    rw [inv.degree node (edges taken mem node edge), split node]
  obtain ⟨freed, queue', freedOnce, freedReady, degrees⟩ := @foldl_release _ _ _ queue _ _ open_
  have regroup : (state.order ++ [taken]) ++ queue = state.order ++ taken :: queue := by
    rw [append_assoc, singleton_append]
  refine ⟨⟨?_, ?_, ?_, ?_⟩, by rw [length_append, length_singleton]⟩
  · show ((state.order ++ [taken]) ++ _).Nodup
    rw [queue', ← append_assoc, regroup]
    refine once.append freedOnce fun node old new => ?_
    obtain ⟨edge, -⟩ := (freedReady node).1 new
    have positive := count_pos_iff.2 edge
    have zero := ((ready node).1 old).2
    rw [split node] at zero
    omega
  · intro node
    show node ∈ (state.order ++ [taken]) ++ _ ↔
      node ∈ nodes ∧ pending next nodes (state.order ++ [taken]) node = 0
    rw [queue', ← append_assoc, regroup, mem_append, freedReady node, ready node, split node]
    constructor
    · rintro (⟨nodeMem, zero⟩ | ⟨edge, zero⟩)
      · exact ⟨nodeMem, by omega⟩
      · exact ⟨edges taken mem node edge, zero⟩
    · rintro ⟨nodeMem, zero⟩
      by_cases edge : node ∈ next taken
      · exact Or.inr ⟨edge, zero⟩
      · rw [count_eq_zero_of_not_mem edge]
        exact Or.inl ⟨nodeMem, by omega⟩
  · intro node nodeMem
    rw [degrees node]
    split_ifs with edge
    · rfl
    · rw [inv.degree node nodeMem, split node, count_eq_zero_of_not_mem edge, Nat.zero_add]
  · intro before node after parts other otherMem edge
    change state.order ++ [taken] = before ++ node :: after at parts
    rcases eq_nil_or_concat after with rfl | ⟨after', last, rfl⟩
    · obtain ⟨rfl, lastSame⟩ := append_inj' parts rfl
      cases lastSame
      exact pending_eq_zero_iff.1 closed other otherMem edge
    · rw [concat_eq_append, ← cons_append, ← append_assoc] at parts
      obtain ⟨front, -⟩ := append_inj' parts rfl
      exact inv.ordered before node after' front other otherMem edge

theorem Inv.length_le (inv : Inv next nodes state) : state.order.length ≤ nodes.length := by
  have sub : state.order ⊆ nodes := fun node mem =>
    ((inv.ready node).1 (mem_append_left _ mem)).1
  exact (List.Nodup.of_append_left inv.distinct).length_le_of_subset sub

/-- With a round for every node and one more, the rounds end, and nothing is ready then. -/
theorem exists_order (distinct : nodes.Nodup) (edges : ∀ a ∈ nodes, ∀ b ∈ next a, b ∈ nodes)
    {rounds : Nat} (inv : Inv next nodes state)
    (enough : nodes.length < state.order.length + rounds) :
    ∃ final : State α, Loops.run (round next) rounds state = some final.order ∧
      final.queue = [] ∧ Inv next nodes final := by
  induction rounds generalizing state with
  | zero =>
    have short := inv.length_le
    omega
  | succ rounds ih =>
    cases step : round next state with
    | inl order =>
      obtain ⟨idle, rfl⟩ := round_eq_inl step
      exact ⟨state, Loops.run_of_left step, idle, inv⟩
    | inr later =>
      obtain ⟨laterInv, longer⟩ := inv.round distinct edges step
      obtain ⟨final, returned, idle, finalInv⟩ := ih laterInv (by omega)
      exact ⟨final, by rw [Loops.run_of_right step, returned], idle, finalInv⟩

end Invariant

section Final

variable {next : α → List α} {nodes : List α} {state : State α}

def Edge (next : α → List α) (nodes : List α) (a b : α) : Prop :=
  a ∈ nodes ∧ b ∈ nodes ∧ b ∈ next a

theorem Inv.idxOf_lt (inv : Inv next nodes state) {a b : α} (edge : Edge next nodes a b)
    (taken : b ∈ state.order) : a ∈ state.order ∧ state.order.idxOf a < state.order.idxOf b := by
  obtain ⟨before, after, split⟩ := append_of_mem taken
  have earlier := inv.ordered before b after split a edge.1 edge.2.2
  have once := List.Nodup.of_append_left inv.distinct
  rw [split] at once ⊢
  have first : b ∉ before := fun old => disjoint_of_nodup_append once old mem_cons_self
  refine ⟨mem_append_left _ earlier, ?_⟩
  rw [idxOf_append_of_mem earlier, idxOf_append_of_notMem first, idxOf_cons_self, Nat.add_zero]
  exact idxOf_lt_length_of_mem earlier

theorem Inv.not_cyclic (inv : Inv next nodes state) {a : α} (taken : a ∈ state.order) :
    ¬ Relation.TransGen (Edge next nodes) a a := by
  have before : ∀ {b : α}, Relation.TransGen (Edge next nodes) b a →
      state.order.idxOf b < state.order.idxOf a := by
    intro b path
    have both : b ∈ state.order ∧ state.order.idxOf b < state.order.idxOf a := by
      induction path using Relation.TransGen.head_induction_on with
      | single edge => exact inv.idxOf_lt edge taken
      | head edge _ ih =>
        obtain ⟨mem, lt⟩ := inv.idxOf_lt edge ih.1
        exact ⟨mem, lt.trans ih.2⟩
    exact both.2
  exact fun cycle => Nat.lt_irrefl _ (before cycle)

/-- Without cycles, all nodes are taken in the end. -/
theorem Inv.mem_order (inv : Inv next nodes state) (idle : state.queue = [])
    (acyclic : ∀ a, ¬ Relation.TransGen (Edge next nodes) a a) {a : α} (mem : a ∈ nodes) :
    a ∈ state.order := by
  let before (a b : { a // a ∈ nodes }) : Prop := Relation.TransGen (Edge next nodes) a.1 b.1
  have : IsTrans { a // a ∈ nodes } before := ⟨fun _ _ _ first second => first.trans second⟩
  have : Std.Irrefl before := ⟨fun a => acyclic a.1⟩
  have founded : WellFounded before := Finite.wellFounded_of_trans_of_irrefl before
  have taken : ∀ a : { a // a ∈ nodes }, a.1 ∈ state.order := by
    intro a
    induction a using founded.induction with
    | _ a ih =>
      have closed : pending next nodes state.order a.1 = 0 :=
        pending_eq_zero_iff.2 fun other otherMem edge =>
          ih ⟨other, otherMem⟩ (.single ⟨otherMem, a.2, edge⟩)
      have ready := (inv.ready a.1).2 ⟨a.2, closed⟩
      rwa [idle, append_nil] at ready
  exact taken ⟨a, mem⟩

end Final

end ContextEngine.Kahn

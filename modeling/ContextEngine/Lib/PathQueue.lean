/- digest: Breadth-first search over whole paths that marks a node when its path is queued. -/

import ContextEngine.Lib.Search
import Mathlib.Data.List.Chain

/-!
The queue holds paths of labelled elements; each node is the end of at most one of them. The path
that is taken is a shortest one to its end. What the search marks is given as a predicate, so any
representation of the marks will do.
-/

namespace ContextEngine.PathQueue

open List Search

variable {α ε : Type} (key : ε → α) (next : α → List ε)

/-- The nodes one element further. -/
def successors (a : α) : List α := (next a).map key

inductive Route (start : ε) : List ε → ε → Prop
  | single : Route start [start] start
  | extend {path : List ε} {last element : ε} (before : Route start path last)
      (edge : element ∈ next (key last)) : Route start (path ++ [element]) element

def ends (queue : List (List ε)) : List α :=
  queue.filterMap fun path => path.getLast?.map key

/-- The elements behind a node whose nodes are unmarked, one for each such node. -/
structure Fresh (visited : α → Prop) (a : α) (fresh : List ε) : Prop where
  mem : ∀ element ∈ fresh, element ∈ next a
  unmarked : ∀ element ∈ fresh, ¬visited (key element)
  once : (fresh.map key).Nodup
  all : ∀ b ∈ successors key next a, visited b ∨ b ∈ fresh.map key

/-- The state between two rounds, with the nodes taken so far: the queued paths are shortest
ones, their lengths ascend by at most one, and what is behind a taken node is marked. -/
structure Invariant (start : ε) (taken : List α) (queue : List (List ε)) (visited : α → Prop) :
    Prop where
  routes : ∀ path ∈ queue, ∃ last, Route key next start path last
  shortest : ∀ path ∈ queue, ∀ last, Route key next start path last →
    ∀ m, Steps (successors key next) m (key start) (key last) → path.length ≤ m + 1
  ascending : queue.Pairwise fun first second => first.length ≤ second.length
  narrow : ∀ first ∈ queue, ∀ second ∈ queue, second.length ≤ first.length + 1
  marked : ∀ a, visited a ↔ a ∈ taken ++ ends key queue
  once : (taken ++ ends key queue).Nodup
  started : visited (key start)
  expanded : ∀ a ∈ taken, ∀ b ∈ successors key next a, visited b

section Routes

variable {key next} {start last : ε} {path : List ε}

section

variable (route : Route key next start path last)

include route

theorem Route.getLast? : path.getLast? = some last := by
  cases route with
  | single => rfl
  | extend before edge => exact getLast?_concat

theorem Route.head? : path.head? = some start := by
  induction route with
  | single => rfl
  | @extend path last element before edge ih =>
    cases path with
    | nil => cases ih
    | cons first path => exact ih

theorem Route.isChain :
    path.IsChain fun first second => second ∈ next (key first) := by
  induction route with
  | single => exact List.IsChain.singleton _
  | @extend path last element before edge ih =>
    refine ih.append (List.IsChain.singleton _) fun first firstMem second secondMem => ?_
    rw [before.getLast?, Option.mem_some_iff] at firstMem
    rw [head?_singleton, Option.mem_some_iff] at secondMem
    exact firstMem ▸ secondMem ▸ edge

theorem ends_cons (queue : List (List ε)) :
    ends key (path :: queue) = key last :: ends key queue := by
  rw [ends, filterMap_cons, route.getLast?]
  rfl

end

theorem ends_append (queue : List (List ε)) (path : List ε) (fresh : List ε) :
    ends key (queue ++ fresh.map fun element => path ++ [element]) =
      ends key queue ++ fresh.map key := by
  have added : ends key (fresh.map fun element => path ++ [element]) = fresh.map key := by
    rw [ends, filterMap_map]
    have single : ((fun path : List ε => path.getLast?.map key) ∘
        fun element => path ++ [element]) = fun element => some (key element) := by
      funext element
      simp
    rw [single, filterMap_eq_map']
  rw [ends, filterMap_append, ← ends, ← ends, added]

end Routes

namespace Invariant

variable {key next} {start last : ε} {path : List ε} {taken : List α} {queue : List (List ε)}
  {visited : α → Prop}

theorem initial (marks : ∀ a, visited a ↔ a = key start) :
    Invariant key next start [] [[start]] visited where
  routes path mem := ⟨start, mem_singleton.1 mem ▸ Route.single⟩
  shortest path mem last _ m _ := by
    rw [mem_singleton.1 mem]
    exact Nat.le_add_left 1 m
  ascending := pairwise_singleton _ _
  narrow first firstMem second secondMem := by
    rw [mem_singleton.1 firstMem, mem_singleton.1 secondMem]
    exact Nat.le_succ 1
  marked a := by simpa [ends] using marks a
  once := by simp [ends]
  started := (marks _).2 rfl
  expanded a mem := absurd mem not_mem_nil

theorem cut (inv : Invariant key next start taken queue visited) {n : Nat} {a : α}
    (walk : Steps (successors key next) n (key start) a) :
    a ∈ taken ∨ ∃ path ∈ queue, path.length ≤ n + 1 := by
  have waiting : ∀ {b n}, Steps (successors key next) n (key start) b → visited b →
      b ∈ taken ∨ ∃ path ∈ queue, path.length ≤ n + 1 := by
    intro b n walk mark
    rcases mem_append.1 ((inv.marked b).1 mark) with old | waits
    · exact Or.inl old
    · obtain ⟨path, mem, found⟩ := mem_filterMap.1 waits
      obtain ⟨last, route⟩ := inv.routes path mem
      rw [route.getLast?, Option.map_some, Option.some.injEq] at found
      exact Or.inr ⟨path, mem, inv.shortest path mem last route n (found ▸ walk)⟩
  induction n generalizing a with
  | zero => exact waiting walk (walk ▸ inv.started)
  | succ n ih =>
    obtain ⟨b, before, edge⟩ := walk
    rcases ih before with old | ⟨path, mem, short⟩
    · exact waiting ⟨b, before, edge⟩ (inv.expanded b old a edge)
    · exact Or.inr ⟨path, mem, Nat.le_succ_of_le short⟩

theorem take (inv : Invariant key next start taken (path :: queue) visited)
    (route : Route key next start path last) {fresh : List ε}
    (behind : Fresh key next visited (key last) fresh) {marks : α → Prop}
    (marksAll : ∀ a, marks a ↔ visited a ∨ a ∈ fresh.map key) :
    Invariant key next start (taken ++ [key last])
      (queue ++ fresh.map fun element => path ++ [element]) marks := by
  have ordered : (taken ++ [key last]) ++ ends key (queue ++ fresh.map fun element =>
      path ++ [element]) = (taken ++ ends key (path :: queue)) ++ fresh.map key := by
    rw [ends_append, ends_cons route]
    simp
  have longer : ∀ waiting ∈ queue, path.length ≤ waiting.length :=
    (pairwise_cons.1 inv.ascending).1
  have tail : ∀ waiting ∈ queue ++ fresh.map (fun element => path ++ [element]),
      path.length ≤ waiting.length ∧ waiting.length ≤ path.length + 1 := by
    intro waiting mem
    rcases mem_append.1 mem with waits | new
    · exact ⟨longer waiting waits, inv.narrow _ mem_cons_self waiting (mem_cons_of_mem _ waits)⟩
    · obtain ⟨element, -, rfl⟩ := mem_map.1 new
      simp
  constructor
  · intro waiting mem
    rcases mem_append.1 mem with waits | new
    · exact inv.routes waiting (mem_cons_of_mem _ waits)
    · obtain ⟨element, freshMem, rfl⟩ := mem_map.1 new
      exact ⟨element, route.extend (behind.mem element freshMem)⟩
  · intro waiting mem element extended m walk
    rcases mem_append.1 mem with waits | new
    · exact inv.shortest waiting (mem_cons_of_mem _ waits) element extended m walk
    · obtain ⟨added, freshMem, rfl⟩ := mem_map.1 new
      have same := extended.getLast?
      rw [getLast?_concat, Option.some.injEq] at same
      subst same
      have unmarked := behind.unmarked added freshMem
      rw [length_append, length_singleton]
      -- an unmarked node is not the start, and the walk's last but one node is not taken
      cases m with
      | zero => exact absurd (walk ▸ inv.started) unmarked
      | succ m =>
        obtain ⟨b, before, edge⟩ := walk
        rcases inv.cut before with old | ⟨other, otherMem, short⟩
        · exact absurd (inv.expanded b old _ edge) unmarked
        · have least : path.length ≤ other.length := by
            rcases mem_cons.1 otherMem with rfl | waits
            · exact Nat.le_refl _
            · exact longer other waits
          omega
  · refine pairwise_append.2 ⟨(pairwise_cons.1 inv.ascending).2, ?_, ?_⟩
    · exact pairwise_map.2 (pairwise_of_forall fun _ _ => by simp)
    · intro waiting waits added new
      obtain ⟨element, -, rfl⟩ := mem_map.1 new
      have := (tail waiting (mem_append_left _ waits)).2
      simpa using this
  · intro first firstMem second secondMem
    have low := (tail first firstMem).1
    have high := (tail second secondMem).2
    omega
  · intro a
    rw [marksAll, inv.marked, ordered]
    exact mem_append.symm
  · rw [ordered]
    refine nodup_append.2 ⟨inv.once, behind.once, fun a old b new => ?_⟩
    rintro rfl
    obtain ⟨element, mem, rfl⟩ := mem_map.1 new
    exact behind.unmarked element mem ((inv.marked _).2 old)
  · exact (marksAll _).2 (Or.inl inv.started)
  · intro a mem b edge
    rcases mem_append.1 mem with old | new
    · exact (marksAll b).2 (Or.inl (inv.expanded a old b edge))
    · rw [mem_singleton.1 new] at edge
      exact (marksAll b).2 (behind.all b edge)

end Invariant

end ContextEngine.PathQueue

/- digest: Bounded breadth-first collection over an arbitrary successor function. -/

import Mathlib.Data.List.Basic
import Mathlib.Data.List.Dedup
import Mathlib.Data.List.Perm.Subperm
import Mathlib.Data.Nat.Find
import Mathlib.Logic.Relation

/-!
Two searches. The queue search marks a node when it is queued and reports it when it is taken
from the queue, so every node is queued at most once. The level search starts from a seed and
expands one whole level after another, never entering one barred node.
-/

namespace ContextEngine.Search

open List

variable {α : Type} [DecidableEq α]

/-- The successors not yet marked, each once, in order. -/
def unvisited (visited : List α) : List α → List α
  | [] => []
  | a :: l =>
    if a ∈ visited then unvisited visited l else a :: unvisited (a :: visited) l

/-- The search loop. A node deeper than a positive `maxDepth` is dropped when popped. -/
def searchLoop (next : α → List α) (maxDepth : Nat) :
    Nat → List (α × Nat) → List α → List α → List α
  | 0, _, _, found => found
  | _ + 1, [], _, found => found
  | fuel + 1, (current, depth) :: queue, visited, found =>
    if 0 < maxDepth ∧ maxDepth < depth then searchLoop next maxDepth fuel queue visited found
    else
      let fresh := unvisited visited (next current)
      searchLoop next maxDepth fuel (queue ++ fresh.map fun a => (a, depth + 1))
        (fresh ++ visited) (found.insert current)

def collectTransitive (next : α → List α) (maxDepth fuel : Nat) (start : α) : List α :=
  let fresh := unvisited [] (next start)
  searchLoop next maxDepth fuel (fresh.map fun a => (a, 1)) fresh []

theorem mem_unvisited {visited l : List α} {a : α} :
    a ∈ unvisited visited l ↔ a ∈ l ∧ a ∉ visited := by
  induction l generalizing visited with
  | nil => simp [unvisited]
  | cons b l ih =>
    unfold unvisited
    split_ifs with marked
    · rw [ih, mem_cons]
      refine and_congr_left fun unmarked => (or_iff_right ?_).symm
      rintro rfl
      exact unmarked marked
    · rw [mem_cons, ih, mem_cons, mem_cons, not_or]
      by_cases same : a = b
      · simp [same, marked]
      · simp [same]

theorem nodup_unvisited (visited l : List α) : (unvisited visited l).Nodup := by
  induction l generalizing visited with
  | nil => exact nodup_nil
  | cons b l ih =>
    unfold unvisited
    split_ifs
    · exact ih visited
    · refine nodup_cons.2 ⟨fun mem => ?_, ih (b :: visited)⟩
      exact (mem_unvisited.1 mem).2 mem_cons_self

section Queue

/-- Reachable in exactly the given number of steps. -/
def Steps (next : α → List α) : Nat → α → α → Prop
  | 0, a, c => a = c
  | n + 1, a, c => ∃ b, Steps next n a b ∧ c ∈ next b

/-- The given number of steps leads there and no smaller number does. -/
def AtDistance (next : α → List α) (n : Nat) (a c : α) : Prop :=
  Steps next n a c ∧ ∀ m < n, ¬Steps next m a c

omit [DecidableEq α] in
/-- Whatever some number of steps reaches is at a distance of at most that number. -/
theorem Steps.exists_atDistance {next : α → List α} {n : Nat} {a c : α}
    (path : Steps next n a c) : ∃ m ≤ n, AtDistance next m a c := by
  classical
  have some : ∃ n, Steps next n a c := ⟨n, path⟩
  exact ⟨Nat.find some, Nat.find_min' some path, Nat.find_spec some,
    fun m less => Nat.find_min some less⟩

omit [DecidableEq α] in
theorem Steps.congr {next other : α → List α} (same : ∀ a c, c ∈ next a ↔ c ∈ other a) {n : Nat}
    {a c : α} : Steps next n a c ↔ Steps other n a c := by
  induction n generalizing c with
  | zero => exact Iff.rfl
  | succ n ih => exact exists_congr fun b => and_congr ih (same b c)

/-- A depth the search does not cut off; a bound of zero cuts nothing off. -/
def Admitted (maxDepth depth : Nat) : Prop := maxDepth = 0 ∨ depth ≤ maxDepth

/-- The state of the queue search: `done` lists the entries taken so far, the depths along
`done` and the queue ascend by at most one, and every entry is at its depth. -/
structure QueueInvariant (next : α → List α) (maxDepth : Nat) (start : α) (range : List α)
    (done queue : List (α × Nat)) (visited found : List α) : Prop where
  marked : ∀ a, a ∈ visited ↔ ∃ depth, (a, depth) ∈ done ++ queue
  once : ((done ++ queue).map Prod.fst).Nodup
  inRange : ∀ entry ∈ done ++ queue, entry.1 ∈ range
  reached : ∀ entry ∈ done ++ queue, 1 ≤ entry.2 ∧ Steps next entry.2 start entry.1
  ascending : queue.Pairwise fun first second => first.2 ≤ second.2
  doneFirst : ∀ entry ∈ done, ∀ waiting ∈ queue, entry.2 ≤ waiting.2
  narrow : ∀ first ∈ queue, ∀ second ∈ queue, second.2 ≤ first.2 + 1
  seeded : ∀ a ∈ next start, ∃ depth, (a, depth) ∈ done ++ queue ∧ depth ≤ 1
  expanded : ∀ entry ∈ done, Admitted maxDepth entry.2 → ∀ b ∈ next entry.1,
    ∃ depth, (b, depth) ∈ done ++ queue ∧ depth ≤ entry.2 + 1
  reported : ∀ a, a ∈ found ↔ ∃ depth, (a, depth) ∈ done ∧ Admitted maxDepth depth

namespace QueueInvariant

variable {next : α → List α} {maxDepth depth : Nat} {start current : α} {range : List α}
  {done queue : List (α × Nat)} {visited found : List α}

omit [DecidableEq α] in
private theorem mem_done_append {entry : α × Nat} :
    entry ∈ (done ++ [(current, depth)]) ++ queue ↔ entry ∈ done ++ (current, depth) :: queue := by
  rw [append_assoc, singleton_append]

omit [DecidableEq α] in
theorem drop (inv : QueueInvariant next maxDepth start range done ((current, depth) :: queue)
      visited found) (beyond : ¬Admitted maxDepth depth) :
    QueueInvariant next maxDepth start range (done ++ [(current, depth)]) queue visited found where
  marked a := by simp only [mem_done_append]; exact inv.marked a
  once := by rw [append_assoc]; exact inv.once
  inRange entry mem := inv.inRange entry (mem_done_append.1 mem)
  reached entry mem := inv.reached entry (mem_done_append.1 mem)
  ascending := (pairwise_cons.1 inv.ascending).2
  doneFirst entry mem waiting waits := by
    rcases mem_append.1 mem with before | last
    · exact inv.doneFirst entry before waiting (mem_cons_of_mem _ waits)
    · rw [mem_singleton.1 last]
      exact (pairwise_cons.1 inv.ascending).1 waiting waits
  narrow first firstMem second secondMem :=
    inv.narrow first (mem_cons_of_mem _ firstMem) second (mem_cons_of_mem _ secondMem)
  seeded a mem := by simp only [mem_done_append]; exact inv.seeded a mem
  expanded entry mem admitted := by
    simp only [mem_done_append]
    rcases mem_append.1 mem with before | last
    · exact inv.expanded entry before admitted
    · rw [mem_singleton.1 last] at admitted
      exact absurd admitted beyond
  reported a := by
    rw [inv.reported]
    refine exists_congr fun level => and_congr_left fun admitted => ?_
    rw [mem_append, mem_singleton, Prod.mk.injEq]
    refine (or_iff_left ?_).symm
    rintro ⟨-, rfl⟩
    exact beyond admitted

/-- An entry within the bound is reported, and its unmarked successors are queued one level
deeper. -/
theorem expand (inv : QueueInvariant next maxDepth start range done ((current, depth) :: queue)
      visited found) (closed : ∀ a, ∀ b ∈ next a, b ∈ range)
    (admitted : Admitted maxDepth depth) :
    QueueInvariant next maxDepth start range (done ++ [(current, depth)])
      (queue ++ (unvisited visited (next current)).map fun a => (a, depth + 1))
      (unvisited visited (next current) ++ visited) (found.insert current) := by
  have here : (current, depth) ∈ done ++ (current, depth) :: queue :=
    mem_append_right _ mem_cons_self
  have split : ∀ entry : α × Nat, entry ∈ (done ++ [(current, depth)]) ++
        (queue ++ (unvisited visited (next current)).map fun a => (a, depth + 1)) ↔
      entry ∈ done ++ (current, depth) :: queue ∨
        (entry.1 ∈ unvisited visited (next current) ∧ entry.2 = depth + 1) := by
    rintro ⟨a, level⟩
    rw [← append_assoc, mem_append, mem_done_append, mem_map]
    refine or_congr_right ⟨?_, ?_⟩
    · rintro ⟨b, mem, same⟩
      obtain ⟨rfl, rfl⟩ := Prod.mk.inj same
      exact ⟨mem, rfl⟩
    · rintro ⟨mem, rfl⟩
      exact ⟨a, mem, rfl⟩
  -- no entry is more than one level below the one being expanded
  have shallow : ∀ entry ∈ done ++ (current, depth) :: queue, entry.2 ≤ depth + 1 := by
    intro entry mem
    rcases mem_append.1 mem with before | waits
    · have le := inv.doneFirst entry before _ mem_cons_self
      omega
    · exact inv.narrow _ mem_cons_self entry waits
  have behind : ∀ waiting ∈ queue, depth ≤ waiting.2 := (pairwise_cons.1 inv.ascending).1
  have tail : ∀ waiting ∈ queue ++ (unvisited visited (next current)).map (fun a => (a, depth + 1)),
      depth ≤ waiting.2 ∧ waiting.2 ≤ depth + 1 := by
    intro waiting mem
    rcases mem_append.1 mem with waits | new
    · exact ⟨behind waiting waits, inv.narrow _ mem_cons_self waiting (mem_cons_of_mem _ waits)⟩
    · obtain ⟨a, -, rfl⟩ := mem_map.1 new
      exact ⟨Nat.le_succ depth, Nat.le_refl _⟩
  refine ⟨fun a => ?_, ?_, fun entry mem => ?_, fun entry mem => ?_, ?_, fun entry mem => ?_,
    fun first firstMem second secondMem => ?_, fun a mem => ?_, fun entry mem within b edge => ?_,
    fun a => ?_⟩
  · rw [mem_append, inv.marked]
    simp only [split]
    constructor
    · rintro (new | ⟨level, old⟩)
      · exact ⟨depth + 1, Or.inr ⟨new, rfl⟩⟩
      · exact ⟨level, Or.inl old⟩
    · rintro ⟨level, old | ⟨new, -⟩⟩
      · exact Or.inr ⟨level, old⟩
      · exact Or.inl new
  · have names : ((done ++ [(current, depth)]) ++
        (queue ++ (unvisited visited (next current)).map fun a => (a, depth + 1))).map Prod.fst =
          (done ++ (current, depth) :: queue).map Prod.fst ++ unvisited visited (next current) := by
      simp [map_map, Function.comp_def]
    rw [names, nodup_append]
    refine ⟨inv.once, nodup_unvisited _ _, fun a old b new same => ?_⟩
    subst same
    obtain ⟨⟨a', level⟩, mem, rfl⟩ := mem_map.1 old
    exact (mem_unvisited.1 new).2 ((inv.marked a').2 ⟨level, mem⟩)
  · rcases (split entry).1 mem with old | ⟨new, -⟩
    · exact inv.inRange entry old
    · exact closed current entry.1 (mem_unvisited.1 new).1
  · rcases (split entry).1 mem with old | ⟨new, level⟩
    · exact inv.reached entry old
    · rw [level]
      exact ⟨Nat.succ_pos depth, current, (inv.reached _ here).2, (mem_unvisited.1 new).1⟩
  · refine pairwise_append.2 ⟨(pairwise_cons.1 inv.ascending).2, ?_, ?_⟩
    · exact pairwise_map.2 (pairwise_of_forall fun _ _ => Nat.le_refl _)
    · intro waiting waits added new
      obtain ⟨a, -, rfl⟩ := mem_map.1 new
      exact inv.narrow _ mem_cons_self waiting (mem_cons_of_mem _ waits)
  · intro waiting waits
    have le := (tail waiting waits).1
    rcases mem_append.1 mem with before | last
    · exact Nat.le_trans (inv.doneFirst entry before _ mem_cons_self) le
    · rw [mem_singleton.1 last]
      exact le
  · have low := (tail first firstMem).1
    have high := (tail second secondMem).2
    omega
  · obtain ⟨level, old, le⟩ := inv.seeded a mem
    exact ⟨level, (split _).2 (Or.inl old), le⟩
  · rcases mem_append.1 mem with before | last
    · obtain ⟨level, old, le⟩ := inv.expanded entry before within b edge
      exact ⟨level, (split _).2 (Or.inl old), le⟩
    · obtain rfl := mem_singleton.1 last
      by_cases known : b ∈ visited
      · obtain ⟨level, old⟩ := (inv.marked b).1 known
        exact ⟨level, (split _).2 (Or.inl old), shallow _ old⟩
      · exact ⟨depth + 1, (split _).2 (Or.inr ⟨mem_unvisited.2 ⟨edge, known⟩, rfl⟩), Nat.le_refl _⟩
  · rw [mem_insert_iff, inv.reported]
    simp only [mem_append, mem_singleton, Prod.mk.injEq]
    constructor
    · rintro (rfl | ⟨level, mem, within⟩)
      · exact ⟨depth, Or.inr ⟨rfl, rfl⟩, admitted⟩
      · exact ⟨level, Or.inl mem, within⟩
    · rintro ⟨level, mem | ⟨rfl, rfl⟩, within⟩
      · exact Or.inr ⟨level, mem, within⟩
      · exact Or.inl rfl

omit [DecidableEq α] in
/-- Once the queue is empty the report is exact: a shorter path leads to an earlier entry. -/
theorem mem_found_iff (inv : QueueInvariant next maxDepth start range done [] visited found)
    {a : α} :
    a ∈ found ↔ ∃ n, 1 ≤ n ∧ Admitted maxDepth n ∧ Steps next n start a := by
  have closer : ∀ n, Admitted maxDepth (n + 1) → ∀ a, Steps next (n + 1) start a →
      ∃ depth, (a, depth) ∈ done ∧ depth ≤ n + 1 := by
    intro n
    induction n with
    | zero =>
      rintro - a ⟨b, rfl, edge⟩
      obtain ⟨depth, mem, le⟩ := inv.seeded a edge
      rw [append_nil] at mem
      exact ⟨depth, mem, le⟩
    | succ n ih =>
      rintro within a ⟨b, path, edge⟩
      have nearer : Admitted maxDepth (n + 1) := within.imp_right fun le => by omega
      obtain ⟨depth, mem, le⟩ := ih nearer b path
      have admitted : Admitted maxDepth depth := nearer.imp_right (Nat.le_trans le)
      obtain ⟨level, found, step⟩ := inv.expanded _ mem admitted a edge
      rw [append_nil] at found
      exact ⟨level, found, by simp only at step; omega⟩
  rw [inv.reported]
  constructor
  · rintro ⟨depth, mem, admitted⟩
    obtain ⟨positive, path⟩ := inv.reached (a, depth) (by rw [append_nil]; exact mem)
    exact ⟨depth, positive, admitted, path⟩
  · rintro ⟨n, positive, admitted, path⟩
    obtain ⟨n, rfl⟩ := Nat.exists_eq_add_of_le' positive
    obtain ⟨depth, mem, le⟩ := closer n admitted a path
    exact ⟨depth, mem, admitted.imp_right (Nat.le_trans le)⟩

theorem mem_searchLoop {fuel : Nat}
    (inv : QueueInvariant next maxDepth start range done queue visited found)
    (closed : ∀ a, ∀ b ∈ next a, b ∈ range) (enough : range.length < fuel + done.length) {a : α} :
    a ∈ searchLoop next maxDepth fuel queue visited found ↔
      ∃ n, 1 ≤ n ∧ Admitted maxDepth n ∧ Steps next n start a := by
  induction fuel generalizing done queue visited found with
  | zero =>
    have listed : done.map Prod.fst ⊆ range := by
      intro a mem
      obtain ⟨entry, entryMem, rfl⟩ := mem_map.1 mem
      exact inv.inRange entry (mem_append_left _ entryMem)
    have once : (done.map Prod.fst).Nodup := by
      have all := inv.once
      rw [map_append] at all
      exact (nodup_append.1 all).1
    have few := (subperm_of_subset once listed).length_le
    rw [length_map] at few
    omega
  | succ fuel ih =>
    cases queue with
    | nil => exact inv.mem_found_iff
    | cons entry queue =>
      obtain ⟨current, depth⟩ := entry
      have longer : range.length < fuel + (done ++ [(current, depth)]).length := by
        rw [length_append, length_singleton]
        omega
      unfold searchLoop
      split_ifs with beyond
      · refine ih (inv.drop fun admitted => ?_) longer
        rcases admitted with none | le
        · omega
        · omega
      · refine ih (inv.expand closed ?_) longer
        unfold Admitted
        omega

end QueueInvariant

theorem mem_collectTransitive {next : α → List α} {maxDepth fuel : Nat} {start a : α}
    {range : List α} (closed : ∀ a, ∀ b ∈ next a, b ∈ range) (enough : range.length < fuel) :
    a ∈ collectTransitive next maxDepth fuel start ↔
      ∃ n, 1 ≤ n ∧ Admitted maxDepth n ∧ Steps next n start a := by
  have first : ∀ entry : α × Nat, entry ∈ (unvisited [] (next start)).map (fun a => (a, 1)) ↔
        entry.1 ∈ next start ∧ entry.2 = 1 := by
    rintro ⟨b, level⟩
    rw [mem_map]
    constructor
    · rintro ⟨c, mem, same⟩
      obtain ⟨rfl, rfl⟩ := Prod.mk.inj same
      exact ⟨(mem_unvisited.1 mem).1, rfl⟩
    · rintro ⟨mem, rfl⟩
      exact ⟨b, mem_unvisited.2 ⟨mem, not_mem_nil⟩, rfl⟩
  have inv : QueueInvariant next maxDepth start range []
      ((unvisited [] (next start)).map fun a => (a, 1)) (unvisited [] (next start)) [] := by
    refine ⟨fun b => ?_, ?_, fun entry mem => ?_, fun entry mem => ?_, ?_,
      fun _ mem => absurd mem not_mem_nil, fun left leftMem right rightMem => ?_,
      fun b mem => ⟨1, (first _).2 ⟨mem, rfl⟩, Nat.le_refl _⟩,
      fun _ mem => absurd mem not_mem_nil, fun b => ?_⟩
    · rw [nil_append]
      simp only [first]
      constructor
      · exact fun mem => ⟨1, (mem_unvisited.1 mem).1, rfl⟩
      · exact fun ⟨_, mem, _⟩ => mem_unvisited.2 ⟨mem, not_mem_nil⟩
    · rw [nil_append, map_map]
      simpa [Function.comp_def] using nodup_unvisited [] (next start)
    · exact closed start _ ((first entry).1 mem).1
    · obtain ⟨mem, level⟩ := (first entry).1 mem
      rw [level]
      exact ⟨Nat.le_refl _, start, rfl, mem⟩
    · exact pairwise_map.2 (pairwise_of_forall fun _ _ => Nat.le_refl _)
    · rw [((first left).1 leftMem).2, ((first right).1 rightMem).2]
      exact Nat.le_succ 1
    · simp
  exact inv.mem_searchLoop closed (by simpa using enough)

theorem nodup_collectTransitive (next : α → List α) (maxDepth fuel : Nat) (start : α) :
    (collectTransitive next maxDepth fuel start).Nodup := by
  have loop : ∀ (fuel : Nat) (queue : List (α × Nat)) (visited found : List α), found.Nodup →
      (searchLoop next maxDepth fuel queue visited found).Nodup := by
    intro fuel
    induction fuel with
    | zero => exact fun _ _ _ once => once
    | succ fuel ih =>
      intro queue visited found once
      cases queue with
      | nil => exact once
      | cons entry queue =>
        obtain ⟨current, depth⟩ := entry
        unfold searchLoop
        split_ifs
        · exact ih _ _ _ once
        · exact ih _ _ _ once.insert
  exact loop fuel _ _ _ nodup_nil

end Queue

section Levels

/-- Expand the queue level by level, at most the given number of times. -/
def levelSearch (next : α → List α) : Nat → List α → List α → List α → List α
  | 0, _, _, found => found
  | depth + 1, queue, visited, found =>
    if queue.isEmpty then found
    else
      let fresh := unvisited visited (queue.flatMap next)
      levelSearch next depth fresh (fresh ++ visited) (found ++ fresh)

variable (next : α → List α) (barred : α) (seed : List α)

/-- The nodes within the given number of steps of the seed, no step entering the barred node. -/
def Ball : Nat → α → Prop
  | 0, a => a ∈ seed
  | depth + 1, a => Ball depth a ∨ (a ≠ barred ∧ ∃ b, Ball depth b ∧ a ∈ next b)

variable {next barred seed}

omit [DecidableEq α] in
theorem Ball.mono {near far : Nat} (le : near ≤ far) {a : α}
    (within : Ball next barred seed near a) :
    Ball next barred seed far a := by
  induction le with
  | refl => exact within
  | step _ ih => exact Or.inl ih

theorem mem_levelSearch_of_grows {within : Nat → α → Prop} {allowed : α → Prop}
    (grows : ∀ n a, within (n + 1) a ↔ within n a ∨ (allowed a ∧ ∃ b, within n b ∧ a ∈ next b))
    {depth level : Nat} {queue visited found early : List α}
    (reported : ∀ a, a ∈ found ↔ within level a ∧ a ∉ early)
    (started : ∀ a ∈ early, within level a)
    (marked : ∀ a, a ∈ visited ↔ ¬allowed a ∨ within level a)
    (frontier : ∀ a, within (level + 1) a ↔
      within level a ∨ (allowed a ∧ ∃ b ∈ queue, a ∈ next b)) {a : α} :
    a ∈ levelSearch next depth queue visited found ↔ within (level + depth) a ∧ a ∉ early := by
  induction depth generalizing level queue visited found with
  | zero => exact reported a
  | succ depth ih =>
    have shift : level + (depth + 1) = (level + 1) + depth := by omega
    unfold levelSearch
    split_ifs with bare
    · have closed : ∀ a, within (level + 1) a ↔ within level a := by
        intro a
        rw [frontier, isEmpty_iff.1 bare]
        simp
      have stuck : ∀ n a, within (level + n) a ↔ within level a := by
        intro n
        induction n with
        | zero => exact fun a => Iff.rfl
        | succ n step =>
          intro a
          rw [← Nat.add_assoc, grows]
          simp only [step]
          rw [← grows, closed]
      rw [reported, stuck]
    · have fresh : ∀ a, a ∈ unvisited visited (queue.flatMap next) ↔
          (allowed a ∧ ∃ b ∈ queue, a ∈ next b) ∧ ¬within level a := by
        intro a
        rw [mem_unvisited, marked, not_or, not_not, mem_flatMap]
        tauto
      have grown : ∀ a, a ∈ unvisited visited (queue.flatMap next) ∨ within level a ↔
          within (level + 1) a := by
        intro a
        rw [frontier, fresh, or_comm]
        by_cases before : within level a
        · exact iff_of_true (Or.inl before) (Or.inl before)
        · rw [and_iff_left before]
      rw [shift]
      refine ih ?_ ?_ ?_ ?_
      · intro a
        have apart : a ∈ early → a ∉ unvisited visited (queue.flatMap next) :=
          fun mem new => ((fresh a).1 new).2 (started a mem)
        rw [mem_append, reported, ← grown]
        tauto
      · exact fun a mem => (grown a).1 (Or.inr (started a mem))
      · intro a
        rw [mem_append, marked, ← grown]
        tauto
      · intro a
        constructor
        · intro further
          rcases (grows (level + 1) a).1 further with before | ⟨free, b, reached, edge⟩
          · exact Or.inl before
          · -- a successor of an earlier level is already in the level just reached
            rcases (grown b).2 reached with new | old
            · exact Or.inr ⟨free, b, new, edge⟩
            · exact Or.inl ((grows level a).2 (Or.inr ⟨free, b, old, edge⟩))
        · rintro (before | ⟨free, b, new, edge⟩)
          · exact (grows (level + 1) a).2 (Or.inl before)
          · exact (grows (level + 1) a).2 (Or.inr ⟨free, b, (grown b).1 (Or.inl new), edge⟩)

variable {depth : Nat}

theorem mem_levelSearch {a : α} :
    a ∈ levelSearch next depth seed (barred :: seed) seed ↔ Ball next barred seed depth a := by
  have start : a ∈ levelSearch next depth seed (barred :: seed) seed ↔
      Ball next barred seed (0 + depth) a ∧ a ∉ [] :=
    mem_levelSearch_of_grows (fun _ _ => Iff.rfl)
      (fun a => (and_iff_left not_mem_nil).symm) (fun _ mem => nomatch mem)
      (fun a => by rw [mem_cons, not_not]; rfl) (fun _ => Iff.rfl)
  rw [Nat.zero_add, and_iff_left not_mem_nil] at start
  exact start

/-- From the successors of a node the later levels are found: what a longer walk reaches. -/
theorem mem_levelSearch_successors {start a : α} {front : List α}
    (same : ∀ a, a ∈ front ↔ a ∈ next start) :
    a ∈ levelSearch next depth front front [] ↔
      (∃ n, 1 ≤ n ∧ n ≤ depth + 1 ∧ Steps next n start a) ∧ a ∉ next start := by
  have first : ∀ a, (∃ n, 1 ≤ n ∧ n ≤ 0 + 1 ∧ Steps next n start a) ↔ a ∈ front := by
    intro a
    rw [same]
    constructor
    · rintro ⟨n, positive, short, walk⟩
      obtain rfl : n = 1 := by omega
      obtain ⟨b, rfl, edge⟩ := walk
      exact edge
    · exact fun edge => ⟨1, Nat.le_refl 1, Nat.le_refl 1, start, rfl, edge⟩
  have grows : ∀ k a, (∃ n, 1 ≤ n ∧ n ≤ k + 1 + 1 ∧ Steps next n start a) ↔
      (∃ n, 1 ≤ n ∧ n ≤ k + 1 ∧ Steps next n start a) ∨
        (True ∧ ∃ b, (∃ n, 1 ≤ n ∧ n ≤ k + 1 ∧ Steps next n start b) ∧ a ∈ next b) := by
    intro k a
    constructor
    · rintro ⟨n, positive, short, walk⟩
      rcases Nat.lt_or_ge (k + 1) n with last | early
      · obtain rfl : n = k + 1 + 1 := by omega
        obtain ⟨b, before, edge⟩ := walk
        exact Or.inr ⟨trivial, b, ⟨k + 1, by omega, Nat.le_refl _, before⟩, edge⟩
      · exact Or.inl ⟨n, positive, early, walk⟩
    · rintro (⟨n, positive, short, walk⟩ | ⟨-, b, ⟨n, positive, short, walk⟩, edge⟩)
      · exact ⟨n, positive, by omega, walk⟩
      · exact ⟨n + 1, by omega, by omega, b, walk, edge⟩
  have found := @mem_levelSearch_of_grows α _ next
    (fun k a => ∃ n, 1 ≤ n ∧ n ≤ k + 1 ∧ Steps next n start a) (fun _ => True) grows
    depth 0 front front [] front
  rw [found, Nat.zero_add, same]
  · intro a
    rw [first]
    simp
  · exact fun a mem => (first a).2 mem
  · intro a
    rw [first]
    tauto
  · intro a
    rw [grows, first]
    simp only [first]

omit [DecidableEq α] in
theorem Steps.exists_le_length {range : List α} (closed : ∀ a, ∀ b ∈ next a, b ∈ range)
    {n : Nat} {start a : α} (positive : 1 ≤ n) (walk : Steps next n start a) :
    ∃ m, 1 ≤ m ∧ m ≤ range.length ∧ Steps next m start a := by
  classical
  let First (m : Nat) (b : α) : Prop :=
    1 ≤ m ∧ Steps next m start b ∧ ∀ k, 1 ≤ k → k < m → ¬Steps next k start b
  -- every level up to the first one of a node has a node of its own
  have levels : ∀ m b, First m b → ∃ nodes : List α, nodes.length = m ∧ nodes.Nodup ∧
      ∀ c ∈ nodes, c ∈ range ∧ ∃ k ≤ m, First k c := by
    intro m
    induction m with
    | zero => exact fun b first => absurd first.1 (by omega)
    | succ m ih =>
      rintro b first
      obtain ⟨-, ⟨c, before, edge⟩, none⟩ := id first
      rcases Nat.eq_zero_or_pos m with rfl | longer
      · exact ⟨[b], rfl, nodup_singleton b, fun d mem => by
          rw [mem_singleton.1 mem]
          exact ⟨closed c b edge, 1, Nat.le_refl 1, first⟩⟩
      · obtain ⟨nodes, counted, once, known⟩ := ih c ⟨longer, before, fun k positive less walk =>
          none (k + 1) (by omega) (by omega) ⟨c, walk, edge⟩⟩
        refine ⟨b :: nodes, by rw [length_cons, counted], nodup_cons.2 ⟨?_, once⟩, ?_⟩
        · intro mem
          obtain ⟨-, k, le, reached⟩ := known b mem
          exact none k reached.1 (by omega) reached.2.1
        · intro d mem
          rcases mem_cons.1 mem with rfl | mem
          · exact ⟨closed c d edge, m + 1, Nat.le_refl _, first⟩
          · obtain ⟨listed, k, le, reached⟩ := known d mem
            exact ⟨listed, k, by omega, reached⟩
  have some : ∃ m, 1 ≤ m ∧ Steps next m start a := ⟨n, positive, walk⟩
  have least := Nat.find_spec some
  obtain ⟨nodes, counted, once, known⟩ := levels (Nat.find some) a ⟨least.1, least.2,
    fun k positive less reached => Nat.find_min some less ⟨positive, reached⟩⟩
  refine ⟨Nat.find some, least.1, ?_, least.2⟩
  rw [← counted]
  exact once.length_le_of_subset fun c mem => (known c mem).1

/-- Reachable in at least one step. -/
def Reach (next : α → List α) : α → α → Prop := Relation.TransGen fun a b => b ∈ next a

/-- When the ball of the overlay graph around the seed is exactly what the target graph reaches
from the barred node. -/
structure BallIsReach (overlay target : α → List α) (barred : α) (seed : List α) (depth : Nat) :
    Prop where
  acyclic : ¬Reach target barred barred
  seedReached : ∀ a ∈ seed, Reach target barred a
  stepReached : ∀ a, Ball overlay barred seed depth a → ∀ b ∈ overlay a,
    b = barred ∨ Reach target barred b
  directFound : ∀ a ∈ target barred, Ball overlay barred seed (depth + 1) a
  horizon : ∀ a, Ball overlay barred seed (depth + 1) a → ¬Ball overlay barred seed depth a →
    ∀ b ∈ target a, Ball overlay barred seed (depth + 1) b

omit [DecidableEq α] in
theorem ball_eq_reach_iff {overlay target : α → List α} (unseeded : barred ∉ seed)
    (covers : ∀ a, ∀ b ∈ target a, b ∈ overlay a) :
    (∀ a, Ball overlay barred seed (depth + 1) a ↔ Reach target barred a) ↔
      BallIsReach overlay target barred seed depth := by
  have never : ∀ n, ¬Ball overlay barred seed n barred := by
    intro n
    induction n with
    | zero => exact unseeded
    | succ n ih => exact fun within => within.elim ih fun step => step.1 rfl
  constructor
  · intro exact_
    refine ⟨fun cycle => never _ ((exact_ barred).2 cycle), fun a mem => ?_,
      fun a within b edge => ?_,
      fun a edge => (exact_ a).2 (.single edge), fun a within _ b edge => ?_⟩
    · exact (exact_ a).1 (Ball.mono (Nat.zero_le _) (show Ball overlay barred seed 0 a from mem))
    · by_cases same : b = barred
      · exact Or.inl same
      · exact Or.inr ((exact_ b).1 (Or.inr ⟨same, a, within, edge⟩))
    · exact (exact_ b).2 (((exact_ a).1 within).tail edge)
  · intro closed a
    have sound : ∀ n, n ≤ depth + 1 → ∀ a, Ball overlay barred seed n a →
        Reach target barred a := by
      intro n
      induction n with
      | zero => exact fun _ a mem => closed.seedReached a mem
      | succ n ih =>
        rintro le a (early | ⟨other, b, within, edge⟩)
        · exact ih (Nat.le_of_succ_le le) a early
        · have near := within.mono (Nat.le_of_succ_le_succ le)
          exact (closed.stepReached b near a edge).resolve_left other
    refine ⟨sound (depth + 1) (Nat.le_refl _) a, fun reached => ?_⟩
    induction reached with
    | single edge => exact closed.directFound _ edge
    | @tail b c path edge within =>
      by_cases near : Ball overlay barred seed depth b
      · refine Or.inr ⟨?_, b, near, covers b c edge⟩
        rintro rfl
        exact closed.acyclic (path.tail edge)
      · exact closed.horizon b within near c edge

end Levels

end ContextEngine.Search

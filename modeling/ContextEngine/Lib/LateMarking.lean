/- digest: Breadth-first search that marks a node when it is taken from the queue. -/

import ContextEngine.Lib.Search

/-!
A node may wait in the queue several times; the first time it is taken it is marked and expanded,
later times it is dropped. Every round costs one unit of a budget. What is found comes at its
distance from the seed.
-/

namespace ContextEngine.LateMarking

open List Search

variable {α : Type} [DecidableEq α]

/-- What is queued behind a node: its successors one level deeper, unless that is too deep. -/
def successors (next : α → List α) (maxDepth : Nat) (current : α) (depth : Nat) :
    List (α × Nat) :=
  if depth < maxDepth then (next current).map fun a => (a, depth + 1) else []

/-- Run the queue down; `none` once the budget is used up. -/
def drain (next : α → List α) (maxDepth : Nat) :
    Nat → List (α × Nat) → List (α × Nat) → Option (List (α × Nat))
  | _, [], found => some found
  | 0, _ :: _, _ => none
  | budget + 1, (current, depth) :: queue, found =>
    if maxDepth < depth ∨ current ∈ found.map Prod.fst then drain next maxDepth budget queue found
    else
      drain next maxDepth budget (queue ++ successors next maxDepth current depth)
        (found ++ [(current, depth)])

/-- Reachable from the seed, which is at depth one, in a walk that ends at the given depth. -/
def Seeded (next : α → List α) (seed : List α) : Nat → α → Prop
  | 0, _ => False
  | 1, a => a ∈ seed
  | n + 2, a => ∃ b, Seeded next seed (n + 1) b ∧ a ∈ next b

/-- The given depth is reached and no smaller one. -/
def SeededAt (next : α → List α) (seed : List α) (depth : Nat) (a : α) : Prop :=
  Seeded next seed depth a ∧ ∀ m < depth, ¬Seeded next seed m a

section Seed

variable {next : α → List α} {seed : List α} {n : Nat} {a : α}

omit [DecidableEq α] in
theorem Seeded.pos (reached : Seeded next seed n a) : 1 ≤ n := by
  cases n with
  | zero => exact reached.elim
  | succ n => exact Nat.succ_pos n

omit [DecidableEq α] in
theorem Seeded.step {b : α} (reached : Seeded next seed n a) (edge : b ∈ next a) :
    Seeded next seed (n + 1) b := by
  cases n with
  | zero => exact reached.elim
  | succ n => exact ⟨a, reached, edge⟩

omit [DecidableEq α] in
theorem seeded_iff_steps {start : α} : Seeded next (next start) (n + 1) a ↔
    Steps next (n + 1) start a := by
  induction n generalizing a with
  | zero =>
    constructor
    · exact fun mem => ⟨start, rfl, mem⟩
    · rintro ⟨_, rfl, mem⟩
      exact mem
  | succ n ih => exact exists_congr fun b => and_congr_left fun _ => ih

omit [DecidableEq α] in
theorem Seeded.congr {other : List α} (same : ∀ a, a ∈ seed ↔ a ∈ other) :
    Seeded next seed n a ↔ Seeded next other n a := by
  induction n generalizing a with
  | zero => exact Iff.rfl
  | succ n ih =>
    cases n with
    | zero => exact same a
    | succ n => exact exists_congr fun b => and_congr_left fun _ => ih

end Seed

/-- The state between two rounds: the queue ascends by at most one level, what is found stands
at its distance, and every seed and every successor of an expanded node is found or waits. -/
structure Invariant (next : α → List α) (seed : List α) (maxDepth : Nat)
    (queue found : List (α × Nat)) : Prop where
  bounded : ∀ entry ∈ queue, entry.2 ≤ maxDepth
  reached : ∀ entry ∈ queue, Seeded next seed entry.2 entry.1
  ascending : queue.Pairwise fun first second => first.2 ≤ second.2
  narrow : ∀ first ∈ queue, ∀ second ∈ queue, second.2 ≤ first.2 + 1
  foundFirst : ∀ entry ∈ found, ∀ waiting ∈ queue, entry.2 ≤ waiting.2
  foundAscending : found.Pairwise fun first second => first.2 ≤ second.2
  once : (found.map Prod.fst).Nodup
  atDistance : ∀ entry ∈ found, entry.2 ≤ maxDepth ∧ SeededAt next seed entry.2 entry.1
  seeded : ∀ a ∈ seed, (∃ depth ≤ 1, (a, depth) ∈ found) ∨ (a, 1) ∈ queue
  expanded : ∀ entry ∈ found, entry.2 < maxDepth → ∀ b ∈ next entry.1,
    (∃ depth ≤ entry.2 + 1, (b, depth) ∈ found) ∨ (b, entry.2 + 1) ∈ queue

namespace Invariant

variable {next : α → List α} {seed : List α} {maxDepth depth : Nat} {current : α}
  {queue found : List (α × Nat)}

omit [DecidableEq α] in
theorem start (positive : 1 ≤ maxDepth) :
    Invariant next seed maxDepth (seed.map fun a => (a, 1)) [] where
  bounded entry mem := by
    obtain ⟨a, -, rfl⟩ := mem_map.1 mem
    exact positive
  reached entry mem := by
    obtain ⟨a, seedMem, rfl⟩ := mem_map.1 mem
    exact seedMem
  ascending := pairwise_map.2 (pairwise_of_forall fun _ _ => Nat.le_refl _)
  narrow first firstMem second secondMem := by
    obtain ⟨a, -, rfl⟩ := mem_map.1 firstMem
    obtain ⟨b, -, rfl⟩ := mem_map.1 secondMem
    exact Nat.le_succ 1
  foundFirst _ mem := absurd mem not_mem_nil
  foundAscending := List.Pairwise.nil
  once := nodup_nil
  atDistance _ mem := absurd mem not_mem_nil
  seeded a mem := Or.inr (mem_map.2 ⟨a, mem, rfl⟩)
  expanded _ mem := absurd mem not_mem_nil

omit [DecidableEq α] in
/-- Every walk within the bound ends in something found no later, or something of its level or
an earlier one still waits. -/
theorem cut (inv : Invariant next seed maxDepth queue found) {n : Nat} {a : α}
    (reached : Seeded next seed n a) (within : n ≤ maxDepth) :
    (∃ m ≤ n, (a, m) ∈ found) ∨ ∃ entry ∈ queue, entry.2 ≤ n := by
  induction n generalizing a with
  | zero => exact reached.elim
  | succ n ih =>
    cases n with
    | zero =>
      rcases inv.seeded a reached with old | waits
      · exact Or.inl old
      · exact Or.inr ⟨_, waits, Nat.le_refl 1⟩
    | succ n =>
      obtain ⟨b, before, edge⟩ := reached
      rcases ih before (Nat.le_of_succ_le within) with ⟨m, le, mem⟩ | ⟨entry, waits, le⟩
      · rcases inv.expanded (b, m) mem (by simp only; omega) a edge with
          ⟨level, low, old⟩ | waits
        · exact Or.inl ⟨level, by simp only at low; omega, old⟩
        · exact Or.inr ⟨_, waits, by simp only; omega⟩
      · exact Or.inr ⟨entry, waits, by omega⟩

omit [DecidableEq α] in
theorem drop (inv : Invariant next seed maxDepth ((current, depth) :: queue) found)
    (old : current ∈ found.map Prod.fst) : Invariant next seed maxDepth queue found where
  bounded entry mem := inv.bounded entry (mem_cons_of_mem _ mem)
  reached entry mem := inv.reached entry (mem_cons_of_mem _ mem)
  ascending := (pairwise_cons.1 inv.ascending).2
  narrow first firstMem second secondMem :=
    inv.narrow first (mem_cons_of_mem _ firstMem) second (mem_cons_of_mem _ secondMem)
  foundFirst entry mem waiting waits := inv.foundFirst entry mem waiting
    (mem_cons_of_mem _ waits)
  foundAscending := inv.foundAscending
  once := inv.once
  atDistance := inv.atDistance
  seeded a mem := by
    rcases inv.seeded a mem with found | waits
    · exact Or.inl found
    · rcases mem_cons.1 waits with same | waits
      · obtain ⟨rfl, rfl⟩ := Prod.mk.inj same
        obtain ⟨⟨b, m⟩, found, rfl⟩ := mem_map.1 old
        exact Or.inl ⟨m, inv.foundFirst _ found _ mem_cons_self, found⟩
      · exact Or.inr waits
  expanded entry mem deeper b edge := by
    rcases inv.expanded entry mem deeper b edge with found | waits
    · exact Or.inl found
    · rcases mem_cons.1 waits with same | waits
      · obtain ⟨rfl, level⟩ := Prod.mk.inj same
        obtain ⟨⟨c, m⟩, found, rfl⟩ := mem_map.1 old
        have low := inv.foundFirst _ found _ mem_cons_self
        exact Or.inl ⟨m, by simp only at low; omega, found⟩
      · exact Or.inr waits

omit [DecidableEq α] in
theorem take (inv : Invariant next seed maxDepth ((current, depth) :: queue) found)
    (new : current ∉ found.map Prod.fst) :
    Invariant next seed maxDepth (queue ++ successors next maxDepth current depth)
      (found ++ [(current, depth)]) := by
  have here : (current, depth) ∈ (current, depth) :: queue := mem_cons_self
  have behind : ∀ waiting ∈ queue, depth ≤ waiting.2 := (pairwise_cons.1 inv.ascending).1
  have pushed : ∀ entry, entry ∈ successors next maxDepth current depth ↔
      depth < maxDepth ∧ entry.1 ∈ next current ∧ entry.2 = depth + 1 := by
    rintro ⟨b, level⟩
    unfold successors
    split_ifs with deeper
    · simp [deeper, eq_comm]
    · simp [deeper]
  have shortest : SeededAt next seed depth current := by
    refine ⟨inv.reached _ here, fun m less earlier => ?_⟩
    have within := inv.bounded _ here
    rcases inv.cut earlier (by simp only at within; omega) with ⟨level, -, mem⟩ | ⟨entry, waits, le⟩
    · exact new (mem_map.2 ⟨_, mem, rfl⟩)
    · rcases mem_cons.1 waits with rfl | waits
      · simp only at le
        omega
      · have := behind entry waits
        omega
  have tail : ∀ entry ∈ queue ++ successors next maxDepth current depth,
      depth ≤ entry.2 ∧ entry.2 ≤ depth + 1 := by
    intro entry mem
    rcases mem_append.1 mem with waits | added
    · exact ⟨behind entry waits, inv.narrow _ here entry (mem_cons_of_mem _ waits)⟩
    · obtain ⟨-, -, level⟩ := (pushed entry).1 added
      omega
  have foundBefore : ∀ entry ∈ found ++ [(current, depth)], entry.2 ≤ depth := by
    intro entry mem
    rcases mem_append.1 mem with before | last
    · exact inv.foundFirst entry before _ here
    · rw [mem_singleton.1 last]
  constructor
  · intro entry mem
    rcases mem_append.1 mem with waits | added
    · exact inv.bounded entry (mem_cons_of_mem _ waits)
    · obtain ⟨deeper, -, level⟩ := (pushed entry).1 added
      omega
  · intro entry mem
    rcases mem_append.1 mem with waits | added
    · exact inv.reached entry (mem_cons_of_mem _ waits)
    · obtain ⟨-, edge, level⟩ := (pushed entry).1 added
      rw [level]
      exact (inv.reached _ here).step edge
  · refine pairwise_append.2 ⟨(pairwise_cons.1 inv.ascending).2, ?_, ?_⟩
    · refine pairwise_of_forall_mem_list fun first firstMem second secondMem => ?_
      have low := ((pushed first).1 firstMem).2.2
      have high := ((pushed second).1 secondMem).2.2
      omega
    · intro waiting waits added mem
      have low := (tail waiting (mem_append_left _ waits)).2
      have high := ((pushed added).1 mem).2.2
      omega
  · intro first firstMem second secondMem
    have low := (tail first firstMem).1
    have high := (tail second secondMem).2
    omega
  · intro entry mem waiting waits
    exact Nat.le_trans (foundBefore entry mem) (tail waiting waits).1
  · refine pairwise_append.2 ⟨inv.foundAscending, pairwise_singleton _ _, ?_⟩
    intro entry mem last lastMem
    rw [mem_singleton.1 lastMem]
    exact inv.foundFirst entry mem _ here
  · rw [map_append, map_singleton]
    exact nodup_append.2 ⟨inv.once, nodup_singleton _, fun a mem b last => by
      rintro rfl
      rw [mem_singleton.1 last] at mem
      exact new mem⟩
  · intro entry mem
    rcases mem_append.1 mem with before | last
    · exact inv.atDistance entry before
    · rw [mem_singleton.1 last]
      exact ⟨inv.bounded _ here, shortest⟩
  · intro a mem
    rcases inv.seeded a mem with ⟨level, le, old⟩ | waits
    · exact Or.inl ⟨level, le, mem_append_left _ old⟩
    · rcases mem_cons.1 waits with same | waits
      · exact Or.inl ⟨1, Nat.le_refl 1, by simp [same]⟩
      · exact Or.inr (mem_append_left _ waits)
  · intro entry mem deeper b edge
    rcases mem_append.1 mem with before | last
    · rcases inv.expanded entry before deeper b edge with ⟨level, le, old⟩ | waits
      · exact Or.inl ⟨level, le, mem_append_left _ old⟩
      · rcases mem_cons.1 waits with same | waits
        · exact Or.inl ⟨entry.2 + 1, Nat.le_refl _, by simp [same]⟩
        · exact Or.inr (mem_append_left _ waits)
    · obtain rfl := mem_singleton.1 last
      exact Or.inr (mem_append_right _ ((pushed _).2 ⟨deeper, edge, rfl⟩))

omit [DecidableEq α] in
theorem mem_found_iff (inv : Invariant next seed maxDepth [] found) {a : α} :
    (a, depth) ∈ found ↔ depth ≤ maxDepth ∧ SeededAt next seed depth a := by
  constructor
  · exact inv.atDistance (a, depth)
  · rintro ⟨within, reached, shortest⟩
    rcases inv.cut reached within with ⟨m, le, mem⟩ | ⟨entry, waits, -⟩
    · obtain ⟨-, also, -⟩ := inv.atDistance (a, m) mem
      rcases Nat.lt_or_eq_of_le le with less | rfl
      · exact absurd also (shortest m less)
      · exact mem
    · cases waits

end Invariant

theorem invariant_drain {next : α → List α} {seed : List α} {maxDepth budget : Nat}
    {queue found result : List (α × Nat)} (inv : Invariant next seed maxDepth queue found)
    (ran : drain next maxDepth budget queue found = some result) :
    Invariant next seed maxDepth [] result := by
  induction budget generalizing queue found with
  | zero =>
    cases queue with
    | nil =>
      rw [drain, Option.some.injEq] at ran
      exact ran ▸ inv
    | cons entry queue => cases ran
  | succ budget ih =>
    cases queue with
    | nil =>
      rw [drain, Option.some.injEq] at ran
      exact ran ▸ inv
    | cons entry queue =>
      obtain ⟨current, depth⟩ := entry
      rw [drain] at ran
      split_ifs at ran with skipped
      · refine ih (inv.drop (skipped.resolve_left ?_)) ran
        exact Nat.not_lt.2 (inv.bounded _ mem_cons_self)
      · exact ih (inv.take fun old => skipped (Or.inr old)) ran

end ContextEngine.LateMarking

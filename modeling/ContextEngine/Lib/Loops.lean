/- digest: Loops that follow links from key to key, the paths they take and where they end. -/

import ContextEngine.Lib.Sorting
import Mathlib.Data.List.Count
import Mathlib.Data.List.Sort

/-!
The body of a loop either leaves with a result or names the key to go on with. A loop is run for
a bounded number of rounds; its path says which keys it went on from. Where every link descends,
the loop ends, and where no stored key lies beside a link, the keys of a path are a window of the
stored keys.
-/

namespace ContextEngine.Loops

open List

variable {K R : Type}

def run (body : K → R ⊕ K) : Nat → K → Option R
  | 0, _ => none
  | rounds + 1, k => Sum.elim some (run body rounds) (body k)

/-- From one key to another, going on from the listed keys in turn. -/
inductive Path (body : K → R ⊕ K) : K → List K → K → Prop
  | done (k : K) : Path body k [] k
  | next {k next last : K} {ks : List K} (link : body k = .inr next)
      (rest : Path body next ks last) : Path body k (k :: ks) last

variable {body body' : K → R ⊕ K} {k next last last' : K} {ks ks' : List K} {r r' : R}

variable {rounds : Nat}

theorem run_of_left (leaves : body k = .inl r) : run body (rounds + 1) k = some r := by
  rw [run, leaves, Sum.elim_inl]

theorem run_of_right (link : body k = .inr next) :
    run body (rounds + 1) k = run body rounds next := by
  rw [run, link, Sum.elim_inr]

theorem Path.run_eq (path : Path body k ks last) (leaves : body last = .inl r) {rounds : Nat}
    (enough : ks.length < rounds) : run body rounds k = some r := by
  induction path generalizing rounds with
  | done k =>
    obtain ⟨rounds, rfl⟩ := Nat.exists_eq_succ_of_ne_zero (Nat.ne_of_gt enough)
    exact run_of_left leaves
  | next link rest ih =>
    obtain ⟨rounds, rfl⟩ := Nat.exists_eq_succ_of_ne_zero (Nat.ne_of_gt (Nat.zero_lt_of_lt enough))
    rw [run_of_right link]
    exact ih leaves (Nat.lt_of_succ_lt_succ enough)

theorem exists_path (returned : run body rounds k = some r) :
    ∃ ks last, Path body k ks last ∧ body last = .inl r ∧ ks.length < rounds := by
  induction rounds generalizing k with
  | zero => cases returned
  | succ rounds ih =>
    cases step : body k with
    | inl result =>
      rw [run_of_left step] at returned
      cases returned
      exact ⟨[], k, .done k, step, Nat.succ_pos rounds⟩
    | inr next =>
      rw [run_of_right step] at returned
      obtain ⟨ks, last, path, leaves, short⟩ := ih returned
      exact ⟨k :: ks, last, .next step path, leaves, Nat.succ_lt_succ short⟩

/-- Run the body with a record of the keys it goes on from. -/
def trace (body : K → R ⊕ K) : Nat → K → Option (List K × R)
  | 0, _ => none
  | rounds + 1, k => Sum.elim (fun r => some ([], r))
      (fun next => (trace body rounds next).map fun t => (k :: t.1, t.2)) (body k)

theorem exists_path_of_trace (returned : trace body rounds k = some (ks, r)) :
    ∃ last, Path body k ks last ∧ body last = .inl r := by
  induction rounds generalizing k ks with
  | zero => cases returned
  | succ rounds ih =>
    rw [trace] at returned
    cases step : body k with
    | inl result =>
      rw [step, Sum.elim_inl] at returned
      cases returned
      exact ⟨k, .done k, step⟩
    | inr next =>
      rw [step, Sum.elim_inr, Option.map_eq_some_iff] at returned
      obtain ⟨⟨ks', r'⟩, rest, same⟩ := returned
      cases same
      obtain ⟨last, path, leaves⟩ := ih rest
      exact ⟨last, .next step path, leaves⟩

section

variable (path : Path body k ks last)

include path

theorem Path.rest (other : Path body k ks' last')
    (leaves : body last' = .inl r) : ∃ rest, ks' = ks ++ rest ∧ Path body last rest last' := by
  induction path generalizing ks' with
  | done k => exact ⟨ks', rfl, other⟩
  | next link rest ih =>
    cases other with
    | done => rw [leaves] at link; cases link
    | next link' rest' =>
      rw [link] at link'
      cases link'
      obtain ⟨further, rfl, path⟩ := ih rest'
      exact ⟨further, rfl, path⟩

theorem Path.unique (other : Path body k ks' last')
    (leaves : body last = .inl r) (leaves' : body last' = .inl r') : ks = ks' ∧ last = last' := by
  obtain ⟨further, rfl, path'⟩ := path.rest other leaves'
  cases path' with
  | done => exact ⟨(append_nil ks).symm, rfl⟩
  | next link _ => rw [leaves] at link; cases link

theorem Path.start_mem : k ∈ ks ++ [last] := by
  cases path with
  | done => exact mem_append_right _ mem_cons_self
  | next link rest => exact mem_cons_self

theorem Path.imp {R' : Type} {other : K → R' ⊕ K}
    (follows : ∀ x ∈ ks, ∀ next ∈ ks ++ [last], body x = .inr next → other x = .inr next) :
    Path other k ks last := by
  induction path with
  | done k => exact .done k
  | next link rest ih =>
    have first := follows _ mem_cons_self _ (mem_cons_of_mem _ rest.start_mem) link
    refine .next first (ih fun x mem next nextMem => ?_)
    exact follows x (mem_cons_of_mem _ mem) next (mem_cons_of_mem _ nextMem)

theorem Path.enter {x : K} (mem : x ∈ ks) :
    ∃ before after, ks = before ++ x :: after ∧ Path body x (x :: after) last := by
  induction path with
  | done k => cases mem
  | @next k next last ks link rest ih =>
    rcases mem_cons.1 mem with rfl | later
    · exact ⟨[], ks, rfl, .next link rest⟩
    · obtain ⟨before, after, rfl, path⟩ := ih later
      exact ⟨k :: before, after, rfl, path⟩

theorem Path.nodup (leaves : body last = .inl r) : ks.Nodup := by
  induction path with
  | done k => exact nodup_nil
  | @next k next last ks link rest ih =>
    refine nodup_cons.2 ⟨fun again => ?_, ih leaves⟩
    obtain ⟨before, after, same, entered⟩ := rest.enter again
    have shorter := ((Path.next link rest).unique entered leaves leaves).1
    have length := congrArg length same
    rw [(cons.inj shorter).2, length_append, length_cons] at length
    omega

theorem Path.invariant {holds : K → Prop} (start : holds k)
    (kept : ∀ x next, holds x → body x = .inr next → holds next) :
    holds last ∧ ∀ x ∈ ks, holds x := by
  induction path with
  | done k => exact ⟨start, fun x mem => absurd mem not_mem_nil⟩
  | next link rest ih =>
    obtain ⟨ends, along⟩ := ih (kept _ _ start link)
    exact ⟨ends, forall_mem_cons.2 ⟨start, along⟩⟩

end

section Descending

theorem exists_run (rank : K → Nat) (lowers : ∀ k next, body k = .inr next → rank next < rank k)
    {rounds : Nat} (enough : rank k < rounds) : ∃ r, run body rounds k = some r := by
  induction rounds generalizing k with
  | zero => exact absurd enough (Nat.not_lt_zero _)
  | succ rounds ih =>
    cases step : body k with
    | inl r => exact ⟨r, run_of_left step⟩
    | inr next =>
      rw [run_of_right step]
      exact ih (Nat.lt_of_lt_of_le (lowers k next step) (Nat.le_of_lt_succ enough))

variable [LinearOrder K] (stored : List K)

/-- The stored keys above one key and up to another, in ascending order. -/
def window (low high : K) : List K :=
  sortByKey id (stored.filter fun x => low < x ∧ x ≤ high)

theorem mem_window {stored : List K} {low high x : K} :
    x ∈ window stored low high ↔ x ∈ stored ∧ low < x ∧ x ≤ high := by
  rw [window, mem_sortByKey, mem_filter, decide_eq_true_iff]

/-- The number of stored keys that are not above a key. -/
def rankIn (k : K) : Nat := stored.countP fun x => x ≤ k

theorem rankIn_le (k : K) : rankIn stored k ≤ stored.length :=
  countP_le_length

theorem rankIn_lt {stored : List K} {low high : K} (mem : high ∈ stored) (lt : low < high) :
    rankIn stored low < rankIn stored high := by
  induction stored with
  | nil => cases mem
  | cons x stored ih =>
    have tail : rankIn stored low ≤ rankIn stored high :=
      countP_mono_left fun y _ le =>
        decide_eq_true ((of_decide_eq_true le).trans lt.le)
    simp only [rankIn, countP_cons, decide_eq_true_eq] at tail ⊢
    rcases mem_cons.1 mem with rfl | later
    · rw [if_neg (not_le_of_gt lt), if_pos (le_refl high)]
      omega
    · have strict := ih later
      simp only [rankIn] at strict
      by_cases below : x ≤ low
      · rw [if_pos below, if_pos (below.trans lt.le)]
        omega
      · rw [if_neg below]
        split_ifs <;> omega

/-- The links of a body descend, and no stored key lies strictly beside one. -/
structure Spaced (body : K → R ⊕ K) (stored : List K) : Prop where
  descends : ∀ k next, body k = .inr next → next < k
  clear : ∀ k next, body k = .inr next → ∀ x ∈ stored, next < x → ¬ x < k

variable {stored : List K}

theorem Path.descending (path : Path body k ks last)
    (descends : ∀ k next, body k = .inr next → next < k) : ks.Pairwise (· > ·) ∧
      (∀ x ∈ ks, last < x ∧ x ≤ k) ∧ last ≤ k := by
  induction path with
  | done k => exact ⟨List.Pairwise.nil, fun x mem => absurd mem not_mem_nil, le_refl k⟩
  | @next k next last ks link rest ih =>
    obtain ⟨sorted, within, low⟩ := ih
    have below : next < k := descends k next link
    refine ⟨pairwise_cons.2 ⟨fun x mem => (within x mem).2.trans_lt below, sorted⟩, ?_,
      low.trans below.le⟩
    intro x mem
    rcases mem_cons.1 mem with rfl | later
    · exact ⟨low.trans_lt below, le_refl _⟩
    · exact ⟨(within x later).1, (within x later).2.trans below.le⟩

/-- Where no stored key lies beside a link, a path goes on from exactly the stored keys of its
window. -/
theorem Path.mem_iff_of_spaced (path : Path body k ks last) (spaced : Spaced body stored)
    (linked : ∀ x next, body x = .inr next → x ∈ stored) {x : K} :
    x ∈ ks ↔ x ∈ stored ∧ last < x ∧ x ≤ k := by
  constructor
  · intro mem
    obtain ⟨_, within, _⟩ := path.descending spaced.descends
    obtain ⟨_, after, _, entered⟩ := path.enter mem
    cases entered with
    | next link _ => exact ⟨linked _ _ link, within x mem⟩
  · intro ⟨mem, above, upTo⟩
    induction path with
    | done k => exact absurd upTo (not_le_of_gt above)
    | @next k next last ks link rest ih =>
      rcases upTo.lt_or_eq with lt | rfl
      · have below : x ≤ next := le_of_not_gt fun gt => spaced.clear k next link x mem gt lt
        exact mem_cons_of_mem _ (ih above below)
      · exact mem_cons_self

theorem nodup_window {low high : K} (nodup : stored.Nodup) : (window stored low high).Nodup :=
  (perm_sortByKey _ _).nodup_iff.2 (nodup.filter _)

theorem Path.window_eq (path : Path body k ks last) (spaced : Spaced body stored)
    (linked : ∀ x next, body x = .inr next → x ∈ stored) (nodup : stored.Nodup) :
    window stored last k = ks.reverse := by
  have descending := (path.descending spaced.descends).1
  have reversed : ks.reverse.Pairwise (· ≤ ·) :=
    pairwise_reverse.2 (descending.imp fun gt => le_of_lt gt)
  have distinct : ks.Nodup := descending.imp fun gt => (ne_of_lt gt).symm
  have same : (window stored last k).Perm ks.reverse := by
    refine (perm_ext_iff_of_nodup (nodup_window nodup) (nodup_reverse.2 distinct)).2 ?_
    intro x
    rw [mem_window, mem_reverse, path.mem_iff_of_spaced spaced linked]
  have ascending : (window stored last k).Pairwise (· ≤ ·) := pairwise_sortByKey id _
  exact same.eq_of_pairwise' ascending reversed

theorem Path.spaced_of_window (path : Path body k (k :: ks) last) (link : body k = .inr next)
    (nodup : stored.Nodup) (exact_window : window stored last k = (k :: ks).reverse) :
    next < k ∧ ∀ x ∈ stored, next < x → ¬ x < k := by
  have ascending : (window stored last k).Pairwise (· ≤ ·) := pairwise_sortByKey id _
  have distinct : (k :: ks).Nodup := by
    rw [← nodup_reverse, ← exact_window]
    exact nodup_window nodup
  have descending : (k :: ks).Pairwise (· ≥ ·) := by
    rw [exact_window] at ascending
    exact pairwise_reverse.1 ascending
  have member : ∀ x, x ∈ k :: ks ↔ x ∈ stored ∧ last < x ∧ x ≤ k := fun x => by
    rw [← mem_window, exact_window, mem_reverse]
  cases path with
  | next link' rest =>
    rw [link] at link'
    cases link'
    have aboveNext : ∀ x ∈ stored, next < x → x < k → x ∈ ks := by
      intro x mem gt lt
      have inPath : x ∈ k :: ks := (member x).2 ⟨mem, ?_, lt.le⟩
      · exact (mem_cons.1 inPath).resolve_left (ne_of_lt lt)
      · cases rest with
        | done => exact gt
        | next _ _ => exact ((member next).1 (mem_cons_of_mem _ mem_cons_self)).2.1.trans gt
    cases rest with
    | done =>
      refine ⟨((member k).1 mem_cons_self).2.1, fun x mem gt lt => ?_⟩
      exact absurd (aboveNext x mem gt lt) not_mem_nil
    | @next _ _ _ ks _ _ =>
      have le : next ≤ k := (pairwise_cons.1 descending).1 next mem_cons_self
      have ne : next ≠ k := fun same =>
        (nodup_cons.1 distinct).1 (same ▸ mem_cons_self)
      refine ⟨lt_of_le_of_ne le ne, fun x mem gt lt => ?_⟩
      rcases mem_cons.1 (aboveNext x mem gt lt) with rfl | later
      · exact absurd gt (lt_irrefl _)
      · have sorted := (pairwise_cons.1 descending).2
        exact absurd ((pairwise_cons.1 sorted).1 x later) (not_le_of_gt gt)

end Descending

end ContextEngine.Loops

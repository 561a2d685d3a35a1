/- digest: Runs of the event loop and the background processor over one watch queue. -/

import ContextEngine.HotUpdate.WatchChangeQueue
import ContextEngine.Lib.Runs

set_option autoImplicit false

namespace ContextEngine

open List

/-- Where the background processor stands. -/
inductive BackgroundPhase where
  | waiting
  | running
  | flagRead (needsFullRescan : Bool)
  deriving DecidableEq

structure WatchDelivery where
  queue : WatchChangeQueue
  phase : BackgroundPhase
  /-- The paths offered since an operation last processed them. -/
  offered : List PathBuf
  /-- An overflow of the event channel was signalled since the last full scan. -/
  overflowed : Bool
  deriving DecidableEq

inductive WatchStep where
  /-- The event loop forwards a debounced batch. -/
  | extend (incoming : List (PathBuf × Bool))
  /-- `handle_file_event` offers one path. -/
  | push (path : PathBuf) (isDeletion : Bool)
  /-- The event loop passes on an overflow of the event channel. -/
  | markFullRescan
  /-- The background processor decides whether to run. -/
  | decideRun
  /-- The operation ends before it reads the queue: another operation is active, a configuration
  change goes first, or an incomplete operation is resumed. -/
  | giveUp
  /-- The operation reads the flag. -/
  | readFlag
  /-- The operation takes the queue and scans or processes what it took, or fails to. -/
  | takeAndProcess (succeeds : Bool)
  deriving DecidableEq

namespace WatchDelivery

variable (capacity : Nat)

def start : WatchDelivery := ⟨WatchChangeQueue.new capacity, .waiting, [], false⟩

variable (s : WatchDelivery)

def shouldRun : Bool := !s.queue.isEmpty

/-- An operation scans everything if it has read the flag set or took nothing; else it processes
what it took. -/
def scansEverything (needsFullRescan : Bool) : Bool :=
  needsFullRescan || s.queue.isEmpty

def step : WatchStep → WatchDelivery
  | .extend incoming =>
    { s with queue := s.queue.extend incoming, offered := s.offered ++ incoming.map Prod.fst }
  | .push path isDeletion =>
    { s with queue := s.queue.push path isDeletion, offered := s.offered ++ [path] }
  | .markFullRescan => { s with queue := s.queue.markFullRescan, overflowed := true }
  | .decideRun =>
    if s.phase = .waiting ∧ s.shouldRun then { s with phase := .running } else s
  | .giveUp => if s.phase = .running then { s with phase := .waiting } else s
  | .readFlag =>
    if s.phase = .running then { s with phase := .flagRead s.queue.needsFullRescan } else s
  | .takeAndProcess succeeds =>
    match s.phase with
    | .flagRead needsFullRescan =>
      let taken := { s with queue := s.queue.take, phase := .waiting }
      if !succeeds then taken
      else if s.scansEverything needsFullRescan then
        { taken with offered := [], overflowed := false }
      else { taken with offered := s.offered.filter fun path => path ∉ s.queue.paths }
    | _ => s

def run (steps : List WatchStep) : WatchDelivery := steps.foldl step s

/-- Nothing is lost: what was offered is queued or the flag is set, a signalled overflow has set
the flag, and while either is outstanding the next tick decides to run. -/
structure NothingLost (s : WatchDelivery) : Prop where
  paths : ∀ path ∈ s.offered, path ∈ s.queue.paths ∨ s.queue.needsFullRescan = true
  overflow : s.overflowed = true → s.queue.needsFullRescan = true
  runs : s.offered ≠ [] ∨ s.overflowed = true → s.shouldRun = true

/-- What holds in every state: the queue is bounded, holds nothing that was not offered, and its
flag has a reason the queue does not show. -/
structure Accounted (s : WatchDelivery) : Prop where
  bounded : s.queue.Bounded
  offered : ∀ path ∈ s.queue.paths, path ∈ s.offered
  reason : s.queue.needsFullRescan = true →
    s.overflowed = true ∨ ∃ path ∈ s.offered, path ∉ s.queue.paths

/-- The steps that lose nothing. -/
def Keeps : WatchStep → Prop
  | .extend incoming => incoming = [] ∨ s.queue.capacity ≠ 0
  | .push _ _ => s.queue.capacity ≠ 0
  | .markFullRescan => s.queue.isEmpty = false
  | .takeAndProcess succeeds =>
    ∀ needsFullRescan, s.phase = .flagRead needsFullRescan →
      if succeeds then
        s.scansEverything needsFullRescan = true ∨ s.queue.needsFullRescan = false
      else s.queue.isEmpty = true ∧ s.queue.needsFullRescan = false
  | _ => True

theorem start_nothingLost : (start capacity).NothingLost where
  paths := fun _ mem => absurd mem not_mem_nil
  overflow := fun overflowed => absurd overflowed Bool.false_ne_true
  runs := fun outstanding => outstanding.elim (absurd rfl) fun o => absurd o Bool.false_ne_true

theorem start_accounted : (start capacity).Accounted where
  bounded := Nat.zero_le capacity
  offered := fun _ mem => absurd mem not_mem_nil
  reason := fun flagged => absurd flagged Bool.false_ne_true

theorem shouldRun_iff : s.shouldRun = true ↔ s.queue.paths ≠ [] := by
  rw [shouldRun, Bool.not_eq_true', ne_eq, ← WatchChangeQueue.isEmpty_iff, Bool.not_eq_true]

section Step

variable {s : WatchDelivery}

/-- The decision and the steps of an operation before it takes the queue move the phase only. -/
private theorem step_phase_only (d : WatchStep)
    (quiet : d = .decideRun ∨ d = .giveUp ∨ d = .readFlag) :
    (s.step d).queue = s.queue ∧ (s.step d).offered = s.offered ∧
      (s.step d).overflowed = s.overflowed := by
  rcases quiet with rfl | rfl | rfl <;> simp only [step] <;> split_ifs <;> exact ⟨rfl, rfl, rfl⟩

variable {s' : WatchDelivery}

private theorem nothingLost_congr (same : s'.queue = s.queue ∧
    s'.offered = s.offered ∧ s'.overflowed = s.overflowed) :
    s'.NothingLost ↔ s.NothingLost := by
  obtain ⟨queue, offered, overflowed⟩ := same
  constructor
  · rintro ⟨paths, overflow, runs⟩
    rw [offered, queue] at paths
    rw [overflowed, queue] at overflow
    rw [offered, overflowed, shouldRun, queue] at runs
    exact ⟨paths, overflow, runs⟩
  · rintro ⟨paths, overflow, runs⟩
    refine ⟨?_, ?_, ?_⟩
    · rw [offered, queue]; exact paths
    · rw [overflowed, queue]; exact overflow
    · rw [offered, overflowed, shouldRun, queue]; exact runs

private theorem Accounted.congr (accounted : s.Accounted)
    (same : s'.queue = s.queue ∧ s'.offered = s.offered ∧ s'.overflowed = s.overflowed) :
    s'.Accounted := by
  obtain ⟨queue, offered, overflowed⟩ := same
  refine ⟨?_, ?_, ?_⟩
  · rw [queue]; exact accounted.bounded
  · rw [queue, offered]; exact accounted.offered
  · rw [queue, offered, overflowed]; exact accounted.reason

private theorem nothingLost_taken (taken : s'.queue = s.queue.take) :
    s'.NothingLost ↔ s'.offered = [] ∧ s'.overflowed = false := by
  have idle : ¬ s'.shouldRun = true := by
    rw [shouldRun_iff, taken, not_not]
    rfl
  constructor
  · intro lost
    have quiet := mt lost.runs idle
    rw [not_or, not_not, Bool.not_eq_true] at quiet
    exact quiet
  · rintro ⟨offered, overflowed⟩
    refine ⟨?_, ?_, ?_⟩
    · rw [offered]
      exact fun _ mem => absurd mem not_mem_nil
    · rw [overflowed]
      exact fun signalled => absurd signalled Bool.false_ne_true
    · rw [offered, overflowed]
      exact fun outstanding =>
        outstanding.elim (absurd rfl) fun signalled => absurd signalled Bool.false_ne_true

private theorem accounted_taken (taken : s'.queue = s.queue.take) :
    s'.Accounted := by
  refine ⟨?_, ?_, ?_⟩
  · rw [taken]
    exact Nat.zero_le _
  · rw [taken]
    exact fun _ mem => absurd mem not_mem_nil
  · rw [taken]
    exact fun flagged => absurd flagged Bool.false_ne_true

private theorem Accounted.extend (accounted : s.Accounted) (incoming : List (PathBuf × Bool)) :
    (s.step (.extend incoming)).Accounted := by
  cases flag : s.queue.needsFullRescan with
  | true =>
    have same : (s.step (.extend incoming)).queue = s.queue :=
      WatchChangeQueue.extend_of_flagged flag incoming
    refine ⟨accounted.bounded.extend incoming, ?_, ?_⟩
    · rw [same]
      exact fun path mem => mem_append_left _ (accounted.offered path mem)
    · intro _
      rcases accounted.reason flag with overflowed | ⟨path, mem, absent⟩
      · exact Or.inl overflowed
      · exact Or.inr ⟨path, mem_append_left _ mem, same.symm ▸ absent⟩
  | false =>
    have absorbs := WatchChangeQueue.absorbs_extend flag incoming
    refine ⟨accounted.bounded.extend incoming, ?_, ?_⟩
    · intro path mem
      rcases absorbs.sound path mem with early | late
      · exact mem_append_left _ (accounted.offered path early)
      · exact mem_append_right _ late
    · intro flagged
      rcases absorbs.dropped flagged with early | ⟨⟨path, mem, absent⟩, -⟩
      · rw [flag] at early
        cases early
      · exact Or.inr ⟨path, mem_append_right _ mem, absent⟩

private theorem Accounted.step (accounted : s.Accounted) (d : WatchStep) :
    (s.step d).Accounted := by
  cases d with
  | extend incoming => exact accounted.extend incoming
  | push path isDeletion => exact accounted.extend [(path, isDeletion)]
  | markFullRescan => exact ⟨accounted.bounded, accounted.offered, fun _ => Or.inl rfl⟩
  | decideRun => exact accounted.congr (step_phase_only _ (Or.inl rfl))
  | giveUp => exact accounted.congr (step_phase_only _ (Or.inr (Or.inl rfl)))
  | readFlag => exact accounted.congr (step_phase_only _ (Or.inr (Or.inr rfl)))
  | takeAndProcess succeeds =>
    cases phase : s.phase with
    | waiting => simpa only [WatchDelivery.step, phase] using accounted
    | running => simpa only [WatchDelivery.step, phase] using accounted
    | flagRead needsFullRescan =>
      simp only [WatchDelivery.step, phase]
      split_ifs <;> exact accounted_taken rfl

private theorem nothingLost_extend (lost : s.NothingLost) (accounted : s.Accounted)
    (incoming : List (PathBuf × Bool)) :
    (s.step (.extend incoming)).NothingLost ↔ incoming = [] ∨ s.queue.capacity ≠ 0 := by
  have roomy : ∀ q : WatchChangeQueue, q.Bounded → q.paths ≠ [] → q.capacity ≠ 0 := by
    intro q bounded nonempty
    have positive := length_pos_of_ne_nil nonempty
    unfold WatchChangeQueue.Bounded at bounded
    omega
  cases flag : s.queue.needsFullRescan with
  | true =>
    have same : (s.step (.extend incoming)).queue = s.queue :=
      WatchChangeQueue.extend_of_flagged flag incoming
    have outstanding : s.offered ≠ [] ∨ s.overflowed = true := by
      rcases accounted.reason flag with overflowed | ⟨path, mem, -⟩
      · exact Or.inr overflowed
      · exact Or.inl (ne_nil_of_mem mem)
    have runs := lost.runs outstanding
    have capacity := roomy _ accounted.bounded ((shouldRun_iff s).1 runs)
    refine iff_of_true ⟨?_, ?_, ?_⟩ (Or.inr capacity)
    · exact fun _ _ => Or.inr (same.symm ▸ flag)
    · exact fun _ => same.symm ▸ flag
    · intro _
      rw [shouldRun, same]
      exact runs
  | false =>
    have absorbs := WatchChangeQueue.absorbs_extend flag incoming
    constructor
    · intro after
      by_cases empty : incoming = []
      · exact Or.inl empty
      · have offered : (s.step (.extend incoming)).offered ≠ [] := by
          intro none
          exact empty (map_eq_nil_iff.1 (append_eq_nil_iff.1 none).2)
        have queued := (shouldRun_iff _).1 (after.runs (Or.inl offered))
        have capacity := roomy _ (accounted.bounded.extend incoming) queued
        rw [absorbs.capacity] at capacity
        exact Or.inr capacity
    · rintro (rfl | capacity)
      · have same : s.step (.extend []) = s := by
          simp only [WatchDelivery.step, WatchChangeQueue.extend, foldl_nil, map_nil,
            append_nil, ite_self]
        rw [same]
        exact lost
      · refine ⟨?_, ?_, ?_⟩
        · intro path mem
          rcases mem_append.1 mem with early | late
          · exact (lost.paths path early).imp (absorbs.kept path) absorbs.flagged
          · exact absorbs.covered path late
        · exact fun overflowed => absorbs.flagged (lost.overflow overflowed)
        · intro outstanding
          rw [shouldRun_iff]
          by_cases before : s.offered ≠ [] ∨ s.overflowed = true
          · have queued := (shouldRun_iff s).1 (lost.runs before)
            obtain ⟨path, mem⟩ := exists_mem_of_ne_nil _ queued
            exact ne_nil_of_mem (absorbs.kept path mem)
          · rw [not_or, not_not] at before
            have fresh : incoming.map Prod.fst ≠ [] := by
              intro none
              rcases outstanding with offered | overflowed
              · exact offered (append_eq_nil_iff.2 ⟨before.1, none⟩)
              · exact before.2 overflowed
            obtain ⟨path, mem⟩ := exists_mem_of_ne_nil _ fresh
            rcases absorbs.covered path mem with queued | flagged
            · exact ne_nil_of_mem queued
            · rcases absorbs.dropped flagged with early | ⟨-, full⟩
              · rw [flag] at early
                cases early
              · rw [absorbs.capacity] at full
                exact ne_nil_of_length_pos (Nat.lt_of_lt_of_le (Nat.pos_of_ne_zero capacity) full)

private theorem nothingLost_takeAndProcess (lost : s.NothingLost) (accounted : s.Accounted)
    (succeeds : Bool) :
    (s.step (.takeAndProcess succeeds)).NothingLost ↔ s.Keeps (.takeAndProcess succeeds) := by
  cases phase : s.phase with
  | waiting =>
    simp only [WatchDelivery.step, Keeps, phase]
    exact iff_of_true lost fun _ same => absurd same (by simp)
  | running =>
    simp only [WatchDelivery.step, Keeps, phase]
    exact iff_of_true lost fun _ same => absurd same (by simp)
  | flagRead needsFullRescan =>
    simp only [WatchDelivery.step, Keeps, phase, BackgroundPhase.flagRead.injEq, forall_eq']
    have unflagged : s.queue.needsFullRescan = false →
        (∀ path ∈ s.offered, path ∈ s.queue.paths) ∧ s.overflowed = false := by
      intro flag
      constructor
      · intro path mem
        rcases lost.paths path mem with queued | flagged
        · exact queued
        · rw [flag] at flagged
          cases flagged
      · rw [← Bool.not_eq_true]
        intro overflowed
        rw [lost.overflow overflowed] at flag
        cases flag
    cases succeeds with
    | false =>
      simp only [Bool.not_false, if_true, Bool.false_eq_true, if_false]
      rw [nothingLost_taken rfl, WatchChangeQueue.isEmpty_iff]
      constructor
      · rintro ⟨offered, overflowed⟩
        refine ⟨eq_nil_iff_forall_not_mem.2 fun path mem => ?_, ?_⟩
        · have owed := accounted.offered path mem
          rw [offered] at owed
          exact not_mem_nil owed
        · rw [← Bool.not_eq_true]
          intro flagged
          rcases accounted.reason flagged with signalled | ⟨path, mem, -⟩
          · rw [overflowed] at signalled
            cases signalled
          · rw [offered] at mem
            exact not_mem_nil mem
      · rintro ⟨empty, flag⟩
        refine ⟨eq_nil_iff_forall_not_mem.2 fun path mem => ?_, (unflagged flag).2⟩
        have queued := (unflagged flag).1 path mem
        rw [empty] at queued
        exact not_mem_nil queued
    | true =>
      simp only [Bool.not_true, Bool.false_eq_true, if_false, if_true]
      by_cases everything : s.scansEverything needsFullRescan = true
      · rw [if_pos everything, nothingLost_taken rfl]
        exact iff_of_true ⟨rfl, rfl⟩ (Or.inl everything)
      · rw [if_neg everything, nothingLost_taken rfl, or_iff_right everything]
        constructor
        · rintro ⟨offered, overflowed⟩
          rw [← Bool.not_eq_true]
          intro flagged
          rcases accounted.reason flagged with signalled | ⟨path, mem, absent⟩
          · rw [overflowed] at signalled
            cases signalled
          · have owed : path ∈ s.offered.filter fun path => path ∉ s.queue.paths :=
              mem_filter.2 ⟨mem, decide_eq_true absent⟩
            exact ne_nil_of_mem owed offered
        · intro flag
          refine ⟨filter_eq_nil_iff.2 fun path mem => ?_, (unflagged flag).2⟩
          rw [decide_eq_true_eq, not_not]
          exact (unflagged flag).1 path mem

theorem nothingLost_step (lost : s.NothingLost) (accounted : s.Accounted) (d : WatchStep) :
    (s.step d).NothingLost ↔ s.Keeps d := by
  cases d with
  | extend incoming => exact nothingLost_extend lost accounted incoming
  | push path isDeletion =>
    refine (nothingLost_extend lost accounted [(path, isDeletion)]).trans ?_
    exact or_iff_right (cons_ne_nil _ _)
  | markFullRescan =>
    constructor
    · intro after
      have runs : (!s.queue.isEmpty) = true := after.runs (Or.inr rfl)
      rw [Bool.not_eq_true'] at runs
      exact runs
    · intro nonempty
      refine ⟨fun _ _ => Or.inr rfl, fun _ => rfl, fun _ => ?_⟩
      change (!s.queue.isEmpty) = true
      rw [nonempty]
      rfl
  | decideRun =>
    exact iff_of_true ((nothingLost_congr (step_phase_only _ (Or.inl rfl))).2 lost) trivial
  | giveUp =>
    exact iff_of_true ((nothingLost_congr (step_phase_only _ (Or.inr (Or.inl rfl)))).2 lost) trivial
  | readFlag =>
    exact iff_of_true ((nothingLost_congr (step_phase_only _ (Or.inr (Or.inr rfl)))).2 lost) trivial
  | takeAndProcess succeeds => exact nothingLost_takeAndProcess lost accounted succeeds

end Step

theorem accounted_run (capacity : Nat) (steps : List WatchStep) :
    ((start capacity).run steps).Accounted := by
  have always : Runs.EveryStep step (fun _ _ => True) (start capacity) steps :=
    Runs.EveryStep.of_always (fun _ _ => trivial) _ steps
  have kept : ∀ (s : WatchDelivery) (d : WatchStep), True → s.Accounted → (s.step d).Accounted :=
    fun _ d _ accounted => accounted.step d
  exact Runs.invariant kept (start_accounted capacity) always

/-- No event is lost in any state of a run exactly when every step of the run keeps what it
finds. -/
theorem nothingLost_run_iff (capacity : Nat) (steps : List WatchStep) :
    (∀ reached, reached <+: steps → ((start capacity).run reached).NothingLost) ↔
      Runs.EveryStep step Keeps (start capacity) steps := by
  have stepIff : ∀ (s : WatchDelivery) (d : WatchStep), s.NothingLost ∧ s.Accounted →
      ((s.step d).NothingLost ∧ (s.step d).Accounted ↔ s.Keeps d) := by
    rintro s d ⟨lost, accounted⟩
    exact (and_iff_left (accounted.step d)).trans (nothingLost_step lost accounted d)
  rw [← Runs.invariant_iff stepIff ⟨start_nothingLost capacity, start_accounted capacity⟩]
  refine forall_congr' fun reached => imp_congr_right fun _ => ?_
  exact (and_iff_left (accounted_run capacity reached)).symm

/-- What else can start an operation, beside the ticks in file-watch mode. -/
inductive LoopStep where
  | watch (d : WatchStep)
  /-- A tick whose mode check leaves the coordinator in periodic-scan mode, and what
  `check_should_update` answers it. -/
  | scanTick (due : Bool)
  /-- An operation is run by a direct call. -/
  | runOperation
  deriving DecidableEq

def loopStep (s : WatchDelivery) : LoopStep → WatchDelivery
  | .watch d => s.step d
  | .scanTick due => if s.phase = .waiting ∧ due then { s with phase := .running } else s
  | .runOperation => if s.phase = .waiting then { s with phase := .running } else s

def loopRun (s : WatchDelivery) (steps : List LoopStep) : WatchDelivery := steps.foldl loopStep s

/-- Flagged for a full rescan with nothing queued, between two operations. -/
structure Stalled (s : WatchDelivery) : Prop where
  flagged : s.queue.needsFullRescan = true
  empty : s.queue.paths = []
  waiting : s.phase = .waiting

namespace Stalled

variable {s : WatchDelivery}

theorem quiet (stalled : s.Stalled) : s.shouldRun = false := by
  rw [← Bool.not_eq_true, shouldRun_iff, not_not]
  exact stalled.empty

protected theorem extend (stalled : s.Stalled) (incoming : List (PathBuf × Bool)) :
    (s.step (.extend incoming)).Stalled := by
  have same : (s.step (.extend incoming)).queue = s.queue :=
    WatchChangeQueue.extend_of_flagged stalled.flagged incoming
  exact ⟨same.symm ▸ stalled.flagged, same.symm ▸ stalled.empty, stalled.waiting⟩

protected theorem step (stalled : s.Stalled) (d : WatchStep) : (s.step d).Stalled := by
  cases d with
  | extend incoming => exact stalled.extend incoming
  | push path isDeletion => exact stalled.extend [(path, isDeletion)]
  | markFullRescan => exact ⟨rfl, stalled.empty, stalled.waiting⟩
  | decideRun =>
    simp only [WatchDelivery.step, stalled.quiet, Bool.false_eq_true, and_false, if_false]
    exact stalled
  | giveUp => simpa only [WatchDelivery.step, stalled.waiting, reduceCtorEq, if_false]
  | readFlag => simpa only [WatchDelivery.step, stalled.waiting, reduceCtorEq, if_false]
  | takeAndProcess succeeds => simpa only [WatchDelivery.step, stalled.waiting]

/-- Nothing recovers a stalled state but an operation that starts otherwise. -/
theorem loopRun (stalled : s.Stalled) {steps : List LoopStep}
    (unscanned : .scanTick true ∉ steps) (uncalled : .runOperation ∉ steps) :
    (s.loopRun steps).Stalled := by
  induction steps generalizing s with
  | nil => exact stalled
  | cons first steps ih =>
    have kept : (s.loopStep first).Stalled := by
      cases first with
      | watch d => exact stalled.step d
      | scanTick due =>
        cases due with
        | false => simpa only [loopStep, Bool.false_eq_true, and_false, if_false] using stalled
        | true => exact absurd mem_cons_self unscanned
      | runOperation => exact absurd mem_cons_self uncalled
    exact ih kept (fun mem => unscanned (mem_cons_of_mem _ mem))
      fun mem => uncalled (mem_cons_of_mem _ mem)

theorem served (stalled : s.Stalled) {first : LoopStep}
    (starts : first = .scanTick true ∨ first = .runOperation) :
    (s.loopRun [first, .watch .readFlag, .watch (.takeAndProcess true)]).NothingLost := by
  have begun : s.loopStep first = { s with phase := .running } := by
    rcases starts with rfl | rfl <;> simp [loopStep, stalled.waiting]
  simp only [WatchDelivery.loopRun, foldl_cons, foldl_nil, begun]
  simp only [loopStep, WatchDelivery.step, scansEverything, stalled.flagged, if_true,
    Bool.true_or, Bool.not_true, Bool.false_eq_true, if_false]
  exact (nothingLost_taken rfl).2 ⟨rfl, rfl⟩

end Stalled

/-- An overflow that is passed on while nothing is queued and no operation runs is not served
before an operation starts otherwise than by a tick in file-watch mode. -/
theorem stalled_of_idleOverflow {s : WatchDelivery} (waiting : s.phase = .waiting)
    (idle : s.queue.paths = []) {steps : List LoopStep} (unscanned : .scanTick true ∉ steps)
    (uncalled : .runOperation ∉ steps) :
    (s.loopRun (.watch .markFullRescan :: steps)).Stalled ∧
      (s.loopRun (.watch .markFullRescan :: steps)).shouldRun = false := by
  have stalled : (s.step .markFullRescan).Stalled := ⟨rfl, idle, waiting⟩
  have after := stalled.loopRun unscanned uncalled
  exact ⟨after, after.quiet⟩

theorem stalled_idleOverflow : ((start defaultWatchChangeCapacity).loopRun
    [.watch .markFullRescan, .watch (.push "/p/a.rs" false), .scanTick false,
      .watch .decideRun]).Stalled :=
  (stalled_of_idleOverflow rfl rfl (by decide) (by decide)).1

/-- After an overflow is passed on while the queue is empty, no tick in file-watch mode decides to
run. -/
theorem overflow_neverServed :
    ¬ ∀ steps, ((start defaultWatchChangeCapacity).run steps).NothingLost := by
  intro always
  have runs := (always [.markFullRescan, .extend [("/p/a.rs", false)]]).runs (Or.inr rfl)
  revert runs
  decide

end WatchDelivery

end ContextEngine

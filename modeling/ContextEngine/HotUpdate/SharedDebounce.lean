/- digest: The debounce that two tasks ask, and when none of their answers swallows a change. -/

import ContextEngine.HotUpdate.ModeSwitch
import ContextEngine.HotUpdate.WatchChangeQueue
import Mathlib.Order.Bounds.Basic

set_option autoImplicit false

namespace ContextEngine

/-- Both durations in nanoseconds. -/
structure DebounceConfig where
  pendingInterval : Nat := fromSecs 30
  maxWaitTime : Nat := fromSecs 300
  deriving DecidableEq

structure DebounceState where
  lastTrigger : Instant
  hasPendingChanges : Bool
  pendingSince : Option Instant
  config : DebounceConfig
  isFirstCheck : Bool
  deriving DecidableEq

namespace DebounceState

def new (config : DebounceConfig) (now : Instant) : DebounceState :=
  ⟨now, false, none, config, true⟩

variable (state : DebounceState)

def reset (now : Instant) : DebounceState :=
  { state with lastTrigger := now, hasPendingChanges := false, pendingSince := none }

def markChanges (now : Instant) : DebounceState :=
  { state with
    hasPendingChanges := true
    pendingSince := some (state.pendingSince.getD now) }

def waitedLong (now : Instant) : Bool :=
  state.pendingSince.any fun since => state.config.maxWaitTime ≤ now - since

def checkIntervals (now : Instant) : DebounceState × Bool :=
  if !state.hasPendingChanges then (state, false)
  else if state.waitedLong now then (state.reset now, true)
  else if state.config.pendingInterval ≤ now - state.lastTrigger then (state.reset now, true)
  else (state, false)

/-- `DebounceState::should_update`. -/
def shouldUpdateLocked (cacheMiss force : Bool) (now : Instant) :
    DebounceState × Bool :=
  if force then (state.reset now, true)
  else
    let checked := { state with isFirstCheck := false }
    if state.isFirstCheck && cacheMiss then (checked.reset now, true)
    else (if cacheMiss then checked.markChanges now else checked).checkIntervals now

/-- The answer under the read lock, which is never yes. -/
def refusedFast (now : Instant) : Bool :=
  !state.hasPendingChanges ||
    (decide (now - state.lastTrigger < state.config.pendingInterval) && !state.waitedLong now)

def shouldUpdate (cacheMiss force : Bool) (now : Instant) :
    DebounceState × Bool :=
  if !force && !cacheMiss && state.refusedFast now then (state, false)
  else state.shouldUpdateLocked cacheMiss force now

def shouldProcess (now : Instant) : DebounceState × Bool :=
  if !state.hasPendingChanges then (state, false)
  else
    match state.pendingSince with
    | none => (state, false)
    | some since =>
      if state.config.pendingInterval ≤ now - since ∨ state.config.maxWaitTime ≤ now - since then
        (state.reset now, true)
      else (state, false)

variable {state : DebounceState} {now : Instant}

theorem shouldProcess_of_young {since : Instant} (known : state.pendingSince = some since)
    (young : now - since < state.config.pendingInterval)
    (early : now - since < state.config.maxWaitTime) :
    state.shouldProcess now = (state, false) := by
  unfold shouldProcess
  rw [known]
  split_ifs
  · rfl
  · exact if_neg (not_or.2 ⟨Nat.not_le.2 young, Nat.not_le.2 early⟩)

/-- With nothing pending, the longest duration of whole seconds. -/
def timeUntilNext (now : Instant) : Nat :=
  if !state.hasPendingChanges then fromSecs (2 ^ 64 - 1)
  else if state.config.pendingInterval ≤ now - state.lastTrigger then 0
  else state.config.pendingInterval - (now - state.lastTrigger)

/-- There is no instant before the first one, and the subtraction panics. -/
def forceNext (now : Instant) : Option DebounceState :=
  if state.config.pendingInterval + fromSecs 1 ≤ now then
    some { state with lastTrigger := now - state.config.pendingInterval - fromSecs 1 }
  else none

inductive Call where
  | markChanges
  | shouldUpdate (cacheMiss force : Bool)
  | shouldProcess
  | forceNext
  | reset
  deriving DecidableEq

def Call.isUnforcedCheck : Call → Bool
  | .shouldUpdate _ force => !force
  | _ => false

section Runs

variable (check : DebounceState → Bool → Bool → Instant → DebounceState × Bool)

def respond (state : DebounceState) (now : Instant) : Call → DebounceState × Option Bool
  | .markChanges => (state.markChanges now, none)
  | .shouldUpdate cacheMiss force => (check state cacheMiss force now).map id some
  | .shouldProcess => (state.shouldProcess now).map id some
  | .forceNext => ((state.forceNext now).getD state, none)
  | .reset => (state.reset now, none)

/-- After the calls of a history, which lists the last call first. -/
def run (fresh : DebounceState) : List (Instant × Call) → DebounceState
  | [] => fresh
  | made :: history => (respond check (run fresh history) made.1 made.2).1

def answers (fresh : DebounceState) : List (Instant × Call) → List (Option Bool)
  | [] => []
  | made :: history =>
    (respond check (run check fresh history) made.1 made.2).2 :: answers fresh history

end Runs

/-- A check with a new change meets one of the two intervals. -/
def Due (state : DebounceState) (now : Instant) : Prop :=
  (state.markChanges now).waitedLong now = true ∨
    state.config.pendingInterval ≤ now - state.lastTrigger

/-- Where the fast path has answered a check and kept the first one, an interval has run out when
the next change comes. -/
def FirstCheckSpent (fresh : DebounceState) : List (Instant × Call) → Prop
  | [] => True
  | made :: history =>
    (made.2 = .shouldUpdate true false → (run shouldUpdate fresh history).isFirstCheck = true →
      (history.any fun earlier => earlier.2.isUnforcedCheck) = true →
        (run shouldUpdate fresh history).Due made.1) ∧ FirstCheckSpent fresh history

/-- The calls come at non-decreasing times, none before the start or after now. -/
def Timed (start : Instant) : List (Instant × Call) → Instant → Prop
  | [], now => start ≤ now
  | made :: history, now => made.1 ≤ now ∧ Timed start history made.1

/-- A change noted then, and neither a reset nor a positive answer since. -/
inductive Waiting (fresh : DebounceState) : List (Instant × Call) → Instant → Prop
  | noted {history : List (Instant × Call)} {now : Instant} {call : Call}
      (notes : call = .markChanges ∨ call = .shouldUpdate true false)
      (unanswered : (respond shouldUpdate (run shouldUpdate fresh history) now call).2 ≠
        some true) :
      Waiting fresh ((now, call) :: history) now
  | kept {history : List (Instant × Call)} {moment : Instant}
      {made : Instant × Call} (waiting : Waiting fresh history moment)
      (stays : made.2 ≠ .reset)
      (unanswered : (respond shouldUpdate (run shouldUpdate fresh history) made.1 made.2).2 ≠
        some true) :
      Waiting fresh (made :: history) moment

/-- The returned delay is the least one with a positive answer, or the longest if there is none. -/
def ExactDelay (state : DebounceState) (now : Instant) : Prop :=
  let positive := {delay | (state.shouldUpdate false false (now + delay)).2 = true}
  IsLeast positive (state.timeUntilNext now) ∨
    positive = ∅ ∧ state.timeUntilNext now = fromSecs (2 ^ 64 - 1)

def withFirst (state : DebounceState) (first : Bool) : DebounceState :=
  { state with isFirstCheck := first }

theorem checkIntervals_withFirst (state : DebounceState) (first : Bool) (now : Instant) :
    (state.withFirst first).checkIntervals now =
      ((state.checkIntervals now).1.withFirst first, (state.checkIntervals now).2) := by
  unfold checkIntervals waitedLong withFirst
  simp only
  split_ifs <;> rfl

theorem checkIntervals_of_refused (refused : state.refusedFast now = true) :
    state.checkIntervals now = (state, false) := by
  cases pending : state.hasPendingChanges with
  | false => simp [checkIntervals, pending]
  | true =>
    simp only [refusedFast, pending, Bool.not_true, Bool.false_or, Bool.and_eq_true,
      decide_eq_true_eq, Bool.not_eq_true'] at refused
    simp [checkIntervals, pending, refused.2, Nat.not_le.2 refused.1]

theorem checkIntervals_of_due (due : state.Due now) :
    (state.markChanges now).checkIntervals now = (state.reset now, true) := by
  unfold checkIntervals
  rw [if_neg (by simp [markChanges])]
  split_ifs with long interval
  · rfl
  · rfl
  · exact absurd due (not_or.2 ⟨long, interval⟩)

theorem checkIntervals_of_not_due (early : ¬state.Due now) :
    (state.markChanges now).checkIntervals now = (state.markChanges now, false) := by
  unfold checkIntervals
  rw [if_neg (by simp [markChanges]), if_neg (fun long => early (Or.inl long))]
  exact if_neg fun interval => early (Or.inr interval)

theorem shouldUpdate_of_no_miss (state : DebounceState) (now : Instant) :
    state.shouldUpdate false false now = if state.refusedFast now = true then (state, false)
      else ((state.checkIntervals now).1.withFirst false, (state.checkIntervals now).2) := by
  rw [← checkIntervals_withFirst]
  simp [shouldUpdate, shouldUpdateLocked, withFirst]

theorem shouldUpdateLocked_of_no_miss (state : DebounceState) (now : Instant) :
    state.shouldUpdateLocked false false now =
      ((state.checkIntervals now).1.withFirst false, (state.checkIntervals now).2) := by
  rw [← checkIntervals_withFirst]
  simp [shouldUpdateLocked, withFirst]

theorem shouldUpdate_of_miss (state : DebounceState) (now : Instant) :
    state.shouldUpdate true false now = state.shouldUpdateLocked true false now := by
  simp [shouldUpdate]

theorem shouldUpdateLocked_of_miss (state : DebounceState) (now : Instant) :
    state.shouldUpdateLocked true false now =
      if state.isFirstCheck = true then ((state.reset now).withFirst false, true)
      else (((state.markChanges now).checkIntervals now).1.withFirst false,
        ((state.markChanges now).checkIntervals now).2) := by
  rw [← checkIntervals_withFirst]
  simp [shouldUpdateLocked, withFirst, DebounceState.reset, markChanges]

theorem shouldProcess_eq (state : DebounceState) (now : Instant) : state.shouldProcess now =
    if state.hasPendingChanges = true ∧ (state.pendingSince.any fun since =>
        state.config.pendingInterval ≤ now - since ∨ state.config.maxWaitTime ≤ now - since) = true
    then (state.reset now, true) else (state, false) := by
  unfold shouldProcess
  cases pending : state.hasPendingChanges with
  | false => simp
  | true => cases state.pendingSince <;> simp

/-- The two forms of an unforced check, for states that differ in the first check only. -/
theorem shouldUpdateLocked_withFirst {first : Bool}
    (kept : first = true → state.isFirstCheck = true) (cacheMiss : Bool) (now : Instant) :
    let fast := state.shouldUpdate cacheMiss false now
    let plain := (state.withFirst first).shouldUpdateLocked cacheMiss false now
    (plain.2 = fast.2 ↔
      (cacheMiss = true → state.isFirstCheck = true → first = false → state.Due now)) ∧
    (plain.2 = fast.2 → plain.1 = fast.1.withFirst false) := by
  cases cacheMiss with
  | false =>
    rw [shouldUpdate_of_no_miss, shouldUpdateLocked_of_no_miss, checkIntervals_withFirst]
    by_cases refused : state.refusedFast now = true
    · simp [checkIntervals_of_refused refused, refused, withFirst]
    · simp [refused, withFirst]
  | true =>
    have marked : (state.withFirst first).markChanges now =
      (state.markChanges now).withFirst first := rfl
    have cleared : (state.withFirst first).reset now = (state.reset now).withFirst first := rfl
    rw [shouldUpdate_of_miss, shouldUpdateLocked_of_miss, shouldUpdateLocked_of_miss, marked,
      cleared, checkIntervals_withFirst]
    by_cases due : state.Due now
    · rw [checkIntervals_of_due due]
      cases first <;> simp [withFirst, due]
    · rw [checkIntervals_of_not_due due]
      cases flag : state.isFirstCheck <;> cases first <;> simp_all [withFirst]

/-- What the run with the plain check has in place of the first check. -/
def unchecked (history : List (Instant × Call)) : Bool :=
  !history.any fun made => made.2.isUnforcedCheck

theorem respond_of_not_check (state : DebounceState) (first : Bool) (now : Instant) {call : Call}
    (other : call.isUnforcedCheck = false) :
    let fast := respond shouldUpdate state now call
    respond shouldUpdateLocked (state.withFirst first) now call = (fast.1.withFirst first, fast.2) ∧
      fast.1.isFirstCheck = state.isFirstCheck := by
  cases call with
  | markChanges => exact ⟨rfl, rfl⟩
  | reset => exact ⟨rfl, rfl⟩
  | forceNext =>
    by_cases early : state.config.pendingInterval + fromSecs 1 ≤ now
    · simp [respond, forceNext, withFirst, early]
    · simp [respond, forceNext, withFirst, early]
  | shouldProcess =>
    simp only [respond, shouldProcess_eq, withFirst]
    split_ifs <;> exact ⟨rfl, rfl⟩
  | shouldUpdate cacheMiss force =>
    have forced : force = true := by simpa [Call.isUnforcedCheck] using other
    simp [forced, respond, shouldUpdate, shouldUpdateLocked, reset, withFirst]

theorem respond_withFirst {first : Bool} (kept : first = true → state.isFirstCheck = true)
    (now : Instant) (call : Call) :
    let fast := respond shouldUpdate state now call
    let plain := respond shouldUpdateLocked (state.withFirst first) now call
    (plain.2 = fast.2 ↔ (call = .shouldUpdate true false → state.isFirstCheck = true →
      first = false → state.Due now)) ∧
    (plain.2 = fast.2 → plain.1 = fast.1.withFirst (first && !call.isUnforcedCheck) ∧
      ((first && !call.isUnforcedCheck) = true → fast.1.isFirstCheck = true)) := by
  intro fast plain
  cases other : call.isUnforcedCheck with
  | false =>
    obtain ⟨same, flag⟩ := respond_of_not_check state first now other
    rw [show plain = _ from same, show fast.1.isFirstCheck = _ from flag]
    refine ⟨iff_of_true rfl fun check => ?_, fun _ => ⟨by simp [fast], by simpa using kept⟩⟩
    simp [check, Call.isUnforcedCheck] at other
  | true =>
    cases call with
    | shouldUpdate cacheMiss force =>
      obtain rfl : force = false := by simpa [Call.isUnforcedCheck] using other
      obtain ⟨answers, states⟩ := shouldUpdateLocked_withFirst kept cacheMiss now
      simpa [fast, plain, respond] using And.intro answers states
    | _ => cases other

theorem answers_eq_iff {fresh : DebounceState} (first : fresh.isFirstCheck = true)
    (history : List (Instant × Call)) :
    (answers shouldUpdateLocked fresh history = answers shouldUpdate fresh history ↔
      FirstCheckSpent fresh history) ∧
    (FirstCheckSpent fresh history → run shouldUpdateLocked fresh history =
          (run shouldUpdate fresh history).withFirst (unchecked history) ∧
        (unchecked history = true → (run shouldUpdate fresh history).isFirstCheck = true)) := by
  induction history with
  | nil =>
    refine ⟨by simp [answers, FirstCheckSpent], fun _ => ⟨?_, fun _ => first⟩⟩
    simp [run, unchecked, withFirst, ← first]
  | cons made history ih =>
    have both (spent : FirstCheckSpent fresh history) :=
      respond_withFirst (ih.2 spent).2 made.1 made.2
    have flags : unchecked (made :: history) = (unchecked history && !made.2.isUnforcedCheck) := by
      simp [unchecked, Bool.and_comm]
    have agree : answers shouldUpdateLocked fresh (made :: history) =
        answers shouldUpdate fresh (made :: history) ↔ FirstCheckSpent fresh (made :: history) := by
      rw [answers, answers, List.cons.injEq, ih.1, FirstCheckSpent, and_congr_left_iff]
      intro spent
      rw [(ih.2 spent).1, (both spent).1, unchecked, Bool.not_eq_false']
    refine ⟨agree, fun spent => ?_⟩
    have same := (List.cons.inj (agree.2 spent)).1
    rw [(ih.2 spent.2).1] at same
    rw [run, run, flags, (ih.2 spent.2).1]
    exact (both spent.2).2 same

theorem shouldUpdate_outcome (state : DebounceState) (cacheMiss : Bool) (now : Instant) :
    ∃ first, state.shouldUpdate cacheMiss false now = ((state.reset now).withFirst first, true) ∨
      cacheMiss = false ∧
        state.shouldUpdate cacheMiss false now = (state.withFirst first, false) ∨
      state.shouldUpdate cacheMiss false now =
        ((state.markChanges now).withFirst first, false) := by
  cases cacheMiss with
  | false =>
    rw [shouldUpdate_of_no_miss]
    unfold checkIntervals
    split_ifs
    · exact ⟨_, Or.inr (Or.inl ⟨rfl, rfl⟩)⟩
    · exact ⟨_, Or.inr (Or.inl ⟨rfl, rfl⟩)⟩
    · exact ⟨_, Or.inl rfl⟩
    · exact ⟨_, Or.inl rfl⟩
    · exact ⟨_, Or.inr (Or.inl ⟨rfl, rfl⟩)⟩
  | true =>
    rw [shouldUpdate_of_miss, shouldUpdateLocked_of_miss]
    split_ifs
    · exact ⟨_, Or.inl rfl⟩
    · by_cases due : state.Due now
      · rw [checkIntervals_of_due due]
        exact ⟨_, Or.inl rfl⟩
      · rw [checkIntervals_of_not_due due]
        exact ⟨_, Or.inr (Or.inr rfl)⟩

theorem shouldUpdate_cases (state : DebounceState) (cacheMiss : Bool) (now : Instant) :
    ((state.shouldUpdate cacheMiss false now).2 = true ∧
      (state.shouldUpdate cacheMiss false now).1.lastTrigger = now) ∨
    ((state.shouldUpdate cacheMiss false now).2 = false ∧
      (state.shouldUpdate cacheMiss false now).1.lastTrigger = state.lastTrigger ∧
      (state.hasPendingChanges = true →
        (state.shouldUpdate cacheMiss false now).1.hasPendingChanges = true)) := by
  obtain ⟨first, yes | ⟨-, no⟩ | no⟩ := shouldUpdate_outcome state cacheMiss now
  · rw [yes]
    exact Or.inl ⟨rfl, rfl⟩
  · rw [no]
    exact Or.inr ⟨rfl, rfl, id⟩
  · rw [no]
    exact Or.inr ⟨rfl, rfl, fun _ => rfl⟩

theorem respond_cases (state : DebounceState) (now : Instant) (call : Call) :
    ∃ first, let after := respond shouldUpdate state now call
      (after.1 = (state.reset now).withFirst first ∧ (call = .reset ∨ after.2 = some true)) ∨
      (∃ last ≤ max state.lastTrigger now,
        after.1 = { state with lastTrigger := last }.withFirst first ∧
          call ≠ .markChanges ∧ call ≠ .shouldUpdate true false) ∨
      after.1 = (state.markChanges now).withFirst first := by
  have kept : state.lastTrigger ≤ max state.lastTrigger now := le_max_left ..
  cases call with
  | markChanges => exact ⟨_, Or.inr (Or.inr rfl)⟩
  | reset => exact ⟨_, Or.inl ⟨rfl, Or.inl rfl⟩⟩
  | forceNext =>
    refine ⟨state.isFirstCheck, Or.inr (Or.inl ?_)⟩
    by_cases early : state.config.pendingInterval + fromSecs 1 ≤ now
    · refine ⟨now - state.config.pendingInterval - fromSecs 1, ?_, ?_⟩
      · exact le_max_of_le_right (Nat.sub_le_of_le_add (by omega))
      · simp [respond, forceNext, withFirst, early]
    · exact ⟨_, kept, by simp [respond, forceNext, withFirst, early]⟩
  | shouldProcess =>
    refine ⟨state.isFirstCheck, ?_⟩
    simp only [respond, shouldProcess_eq]
    split_ifs
    · exact Or.inl ⟨rfl, Or.inr rfl⟩
    · exact Or.inr (Or.inl ⟨_, kept, rfl, by simp⟩)
  | shouldUpdate cacheMiss force =>
    cases force with
    | true => exact ⟨_, Or.inl ⟨rfl, Or.inr rfl⟩⟩
    | false =>
      obtain ⟨first, yes | ⟨rfl, no⟩ | no⟩ := shouldUpdate_outcome state cacheMiss now
      · exact ⟨first, Or.inl ⟨by rw [respond, yes]; rfl, Or.inr (by rw [respond, yes]; rfl)⟩⟩
      · exact ⟨first, Or.inr (Or.inl ⟨_, kept, by rw [respond, no]; rfl, by simp⟩)⟩
      · exact ⟨first, Or.inr (Or.inr (by rw [respond, no]; rfl))⟩

/-- The instants of a state and its pending change, as they are after calls until now. -/
structure Settled (config : DebounceConfig) (now : Instant) (state : DebounceState) : Prop where
  configured : state.config = config
  triggered : state.lastTrigger ≤ now
  pending : state.hasPendingChanges = state.pendingSince.isSome
  since : ∀ first, state.pendingSince = some first → first ≤ now

variable {config : DebounceConfig} {start : Instant} {history : List (Instant × Call)}

theorem settled_run (timed : Timed start history now) :
    Settled config now (run shouldUpdate (new config start) history) := by
  induction history generalizing now with
  | nil => exact ⟨rfl, timed, rfl, by simp [run, new]⟩
  | cons made history ih =>
    obtain ⟨configured, triggered, pending, since⟩ := ih timed.2
    have later := timed.1
    rw [run]
    generalize run shouldUpdate (new config start) history = state at *
    obtain ⟨first, ⟨after, -⟩ | ⟨last, bound, after, -⟩ | after⟩ :=
      respond_cases state made.1 made.2
    · rw [after]
      exact ⟨configured, later, rfl, by simp [reset, withFirst]⟩
    · rw [after]
      refine ⟨configured, ?_, pending, fun first known => (since first known).trans later⟩
      exact (bound.trans (max_le triggered le_rfl)).trans later
    · rw [after]
      refine ⟨configured, triggered.trans later, rfl, fun first known => ?_⟩
      rw [← Option.some.inj known]
      cases known : state.pendingSince with
      | none => exact later
      | some noted => exact (since noted known).trans later

theorem pendingSince_of_waiting {noted : Instant} (timed : Timed start history now)
    (waiting : Waiting (new config start) history noted) :
    ∃ first ≤ noted, (run shouldUpdate (new config start) history).pendingSince = some first := by
  induction waiting generalizing now with
  | @noted history moment call notes unanswered =>
    have settled : Settled config _ _ := settled_run timed.2
    rw [run]
    obtain ⟨flag, ⟨-, answered⟩ | ⟨_, -, -, silent⟩ | after⟩ :=
      respond_cases (run shouldUpdate (new config start) history) moment call
    · rcases answered with reset | yes
      · rcases notes with rfl | rfl <;> cases reset
      · exact absurd yes unanswered
    · rcases notes with notes | notes
      · exact absurd notes silent.1
      · exact absurd notes silent.2
    · refine ⟨_, ?_, congrArg pendingSince after⟩
      cases known : (run shouldUpdate (new config start) history).pendingSince with
      | none => exact le_rfl
      | some first => exact settled.since first known
  | @kept history moment made waiting stays unanswered ih =>
    obtain ⟨first, before, known⟩ := ih timed.2
    refine ⟨first, before, ?_⟩
    rw [run]
    obtain ⟨flag, ⟨-, answered⟩ | ⟨_, -, after, -⟩ | after⟩ :=
      respond_cases (run shouldUpdate (new config start) history) made.1 made.2
    · rcases answered with reset | yes
      · exact absurd reset stays
      · exact absurd yes unanswered
    · exact (congrArg pendingSince after).trans known
    · exact (congrArg pendingSince after).trans (by simp [withFirst, markChanges, known])

theorem checkIntervals_answer (state : DebounceState) (now : Instant) :
    (state.checkIntervals now).2 = true ↔ state.hasPendingChanges = true ∧
      (state.waitedLong now = true ∨ state.config.pendingInterval ≤ now - state.lastTrigger) := by
  unfold checkIntervals
  split_ifs <;> simp_all

theorem shouldUpdate_answer (state : DebounceState) (now : Instant) :
    (state.shouldUpdate false false now).2 = true ↔ state.hasPendingChanges = true ∧
      (state.waitedLong now = true ∨ state.config.pendingInterval ≤ now - state.lastTrigger) := by
  rw [shouldUpdate_of_no_miss, ← checkIntervals_answer]
  split_ifs with refused
  · simp [checkIntervals_of_refused refused]
  · exact Iff.rfl

theorem shouldUpdate_of_pending (pending : state.hasPendingChanges = true)
    (met : state.waitedLong now = true ∨ state.config.pendingInterval ≤ now - state.lastTrigger)
    (cacheMiss : Bool) : (state.shouldUpdate cacheMiss false now).2 = true := by
  cases cacheMiss with
  | false => exact (shouldUpdate_answer state now).2 ⟨pending, met⟩
  | true =>
    have due : state.Due now := met.imp_left fun long => by
      cases known : state.pendingSince with
      | none => simp [waitedLong, known] at long
      | some since => simpa [waitedLong, markChanges, known] using long
    rw [shouldUpdate_of_miss, shouldUpdateLocked_of_miss, checkIntervals_of_due due]
    split_ifs <;> rfl

theorem answers_of_waited (pending : state.hasPendingChanges = true)
    (long : state.waitedLong now = true) :
    (∀ cacheMiss force, (state.shouldUpdate cacheMiss force now).2 = true) ∧
      (state.shouldProcess now).2 = true := by
  refine ⟨fun cacheMiss force => ?_, ?_⟩
  · cases force with
    | true => rfl
    | false => exact shouldUpdate_of_pending pending (Or.inl long) cacheMiss
  · rw [shouldProcess_eq, if_pos]
    refine ⟨pending, ?_⟩
    unfold waitedLong at long
    cases known : state.pendingSince with
    | none => simp [known] at long
    | some since =>
      simp only [known, Option.any_some, decide_eq_true_eq] at long ⊢
      exact Or.inr long

theorem isLeast_delay_iff {interval longest now last first : Nat} (triggered : last ≤ now)
    (noted : first ≤ now) :
    IsLeast {delay | longest ≤ now + delay - first ∨ interval ≤ now + delay - last}
      (interval - (now - last)) ↔ interval - (now - last) ≤ longest - (now - first) := by
  constructor
  · intro least
    exact least.2 (Or.inl (by omega))
  · intro le
    refine ⟨Or.inr (by omega), ?_⟩
    rintro delay (long | due)
    · omega
    · omega

theorem exactDelay_iff (settled : Settled config now state) : state.ExactDelay now ↔
    ∀ first, state.pendingSince = some first →
      config.pendingInterval - (now - state.lastTrigger) ≤ config.maxWaitTime - (now - first) := by
  obtain ⟨configured, triggered, pending, since⟩ := settled
  simp only [ExactDelay, shouldUpdate_answer, timeUntilNext, pending, configured]
  cases known : state.pendingSince with
  | none => simp
  | some first =>
    have early := since first known
    have interval : (if config.pendingInterval ≤ now - state.lastTrigger then 0 else
        config.pendingInterval - (now - state.lastTrigger)) =
          config.pendingInterval - (now - state.lastTrigger) := by
      split_ifs <;> omega
    simp only [waitedLong, known, configured, interval, Option.isSome_some, Option.any_some,
      decide_eq_true_eq, true_and, Bool.not_true, Bool.false_eq_true, if_false, Option.some.injEq,
      forall_eq']
    rw [← isLeast_delay_iff triggered early, or_iff_left]
    rintro ⟨none, -⟩
    have soon : config.maxWaitTime + first ∈ (∅ : Set Nat) :=
      none ▸ Or.inl (Nat.le_sub_of_add_le (Nat.le_add_left ..))
    cases soon

/-- In a run of any calls: when the fast path changes no answer, that changes wait no longer than
they may, and when the returned delay is the least one. -/
theorem debounce_exact_iff (timed : Timed start history now) :
    let fresh := new config start
    let state := run shouldUpdate fresh history
    (answers shouldUpdateLocked fresh history = answers shouldUpdate fresh history ↔
      FirstCheckSpent fresh history) ∧
    (∀ noted, Waiting fresh history noted → config.maxWaitTime ≤ now - noted →
      (∀ cacheMiss force, (state.shouldUpdate cacheMiss force now).2 = true) ∧
        (state.shouldProcess now).2 = true) ∧
    (state.ExactDelay now ↔ ∀ first, state.pendingSince = some first →
      config.pendingInterval - (now - state.lastTrigger) ≤ config.maxWaitTime - (now - first)) := by
  intro fresh state
  have settled : Settled config _ _ := settled_run timed
  refine ⟨(answers_eq_iff rfl history).1, fun noted waiting long => ?_, exactDelay_iff settled⟩
  obtain ⟨first, before, known⟩ := pendingSince_of_waiting timed waiting
  refine answers_of_waited (settled.pending.trans (by rw [known]; rfl)) ?_
  simp only [waitedLong, state, fresh, known, settled.configured, Option.any_some,
    decide_eq_true_eq]
  exact long.trans (Nat.sub_le_sub_left before now)

/-- Changes, a check after a cache miss and one without. -/
def markedAndChecked : List (Instant × Call) :=
  [(6, .shouldUpdate false false), (4, .shouldUpdate true false), (1, .markChanges)]

theorem debounce_exact_iff_checked :
    Timed 0 markedAndChecked 8 ∧
      (answers shouldUpdateLocked (new ⟨5, 7⟩ 0) markedAndChecked =
          answers shouldUpdate (new ⟨5, 7⟩ 0) markedAndChecked ↔
        FirstCheckSpent (new ⟨5, 7⟩ 0) markedAndChecked) :=
  have timed : Timed 0 markedAndChecked 8 := by simp [Timed, markedAndChecked]
  ⟨timed, (debounce_exact_iff timed).1⟩

/-- The fast path answers the second check at once, the plain check does not. -/
theorem firstCheck_kept :
    let history := [(2, .shouldUpdate true false), (1, .shouldUpdate false false)]
    Timed 0 history 2 ∧ answers shouldUpdate (new ⟨10, 100⟩ 0) history = [some true, some false] ∧
      answers shouldUpdateLocked (new ⟨10, 100⟩ 0) history = [some false, some false] := by
  simp only [Timed]
  decide

end DebounceState

/-- The coordinator with its debounce and queue. Beside them: when changes were first marked that no
operation has started for, and the files changed since they were last scanned. -/
structure HotUpdateCoordinator where
  clock : Instant
  debounce : DebounceState
  mode : HotUpdateMode
  periodicScanTask : Bool
  pendingWatchChanges : WatchChangeQueue
  markedSince : Option Instant
  unscanned : List PathBuf
  deriving DecidableEq

/-- What the coordinator, the periodic scan task, the event loop and the file system do. -/
inductive HotUpdateEvent where
  | fileChanged (path : PathBuf)
  | forwarded (events : List (PathBuf × Bool))
  | overflowed
  | markChanges
  | periodicTick
  | checkShouldUpdate (hasChanges : Bool)
  | operation
  | switchToPeriodicScan
  | switchToFileWatch
  deriving DecidableEq

namespace HotUpdateCoordinator

def new (config : DebounceConfig) (mode : HotUpdateMode) (capacity : Nat) (now : Instant) :
    HotUpdateCoordinator :=
  ⟨now, .new config now, mode, false, .new capacity, none, []⟩

variable (c : HotUpdateCoordinator)

def markChanges : HotUpdateCoordinator :=
  { c with
    debounce := c.debounce.markChanges c.clock
    markedSince := some (c.markedSince.getD c.clock) }

/-- An operation takes the queue; it scans everything, unless there are entries and no full rescan
is due. -/
def startOperation : HotUpdateCoordinator :=
  { c with
    pendingWatchChanges := c.pendingWatchChanges.take
    markedSince := none
    unscanned :=
      if c.pendingWatchChanges.needsFullRescan || c.pendingWatchChanges.isEmpty then []
      else c.unscanned.filter fun path => path ∉ c.pendingWatchChanges.paths }

def checkShouldUpdate (hasChanges : Bool) :
    HotUpdateCoordinator × Bool :=
  let answer := c.debounce.shouldUpdate hasChanges false c.clock
  let answered := { c with debounce := answer.1 }
  (if answer.2 then answered.startOperation else answered, answer.2)

/-- A round of the periodic scan task, which does nothing with a positive answer. -/
def periodicTick : HotUpdateCoordinator :=
  if c.periodicScanTask then
    let marked := c.markChanges
    { marked with debounce := (marked.debounce.shouldProcess c.clock).1 }
  else c

def switchToPeriodicScan : HotUpdateCoordinator :=
  { c with mode := .periodicScan, periodicScanTask := true }

def switchToFileWatch : HotUpdateCoordinator :=
  { c with mode := .fileWatch, periodicScanTask := false }

def handle : HotUpdateEvent → HotUpdateCoordinator
  | .fileChanged path => { c with unscanned := c.unscanned ++ [path] }
  | .forwarded events => { c with pendingWatchChanges := c.pendingWatchChanges.extend events }
  | .overflowed => { c with pendingWatchChanges := c.pendingWatchChanges.markFullRescan }
  | .markChanges => c.markChanges
  | .periodicTick => c.periodicTick
  | .checkShouldUpdate hasChanges => (c.checkShouldUpdate hasChanges).1
  | .operation => c.startOperation
  | .switchToPeriodicScan => c.switchToPeriodicScan
  | .switchToFileWatch => c.switchToFileWatch

/-- The clock goes on, then the event is handled. -/
def elapse (elapsed : Nat) : HotUpdateCoordinator :=
  { c with clock := c.clock + elapsed }

variable (event : Nat × HotUpdateEvent)

def step : HotUpdateCoordinator :=
  (c.elapse event.1).handle event.2

/-- Every file changed since the last scan is queued, or a full rescan is scheduled. -/
def Covered : Prop :=
  ∀ path ∈ c.unscanned, path ∈ c.pendingWatchChanges.paths ∨ c.pendingWatchChanges.needsFullRescan

/-- A check that comes the debounce interval after the first mark without an operation since is
answered with yes, and a switch to the watched mode leaves every change covered. -/
def NothingSwallowed : Prop :=
  (∀ hasChanges since, event.2 = .checkShouldUpdate hasChanges → c.markedSince = some since →
    c.debounce.config.pendingInterval ≤ (c.elapse event.1).clock - since →
      ((c.elapse event.1).checkShouldUpdate hasChanges).2 = true) ∧
    (event.2 = .switchToFileWatch → (c.step event).Covered)

/-- The periodic scan task comes when the pending changes are younger than both intervals, and the
switch to the watched mode when every change is covered already. -/
def Admitted : Prop :=
  (event.2 = .periodicTick → c.periodicScanTask = true →
    let pending := (c.elapse event.1).clock -
      c.debounce.pendingSince.getD (c.elapse event.1).clock
    pending < c.debounce.config.pendingInterval ∧ pending < c.debounce.config.maxWaitTime) ∧
    (event.2 = .switchToFileWatch → c.Covered)

/-- Marked changes are pending, and the last trigger was not after the mark. -/
structure Pending (c : HotUpdateCoordinator) : Prop where
  triggered : c.debounce.lastTrigger ≤ c.clock
  marked : ∀ since, c.markedSince = some since →
    c.debounce.hasPendingChanges = true ∧ c.debounce.lastTrigger ≤ since ∧ since ≤ c.clock

variable {c : HotUpdateCoordinator} {event : Nat × HotUpdateEvent}

theorem pending_new (config : DebounceConfig) (mode : HotUpdateMode) (capacity : Nat)
    (now : Instant) : (new config mode capacity now).Pending :=
  ⟨Nat.le_refl now, fun _ marked => nomatch marked⟩

theorem Pending.elapse (pending : c.Pending) (elapsed : Nat) : (c.elapse elapsed).Pending where
  triggered := Nat.le_trans pending.triggered (Nat.le_add_right ..)
  marked since known := by
    obtain ⟨has, before, le⟩ := pending.marked since known
    exact ⟨has, before, Nat.le_trans le (Nat.le_add_right ..)⟩

theorem Pending.markChanges (pending : c.Pending) : c.markChanges.Pending where
  triggered := pending.triggered
  marked since known := by
    refine ⟨rfl, ?_⟩
    have same : c.markedSince.getD c.clock = since := Option.some.inj known
    cases marked : c.markedSince with
    | none =>
      rw [marked] at same
      rw [← same]
      exact ⟨pending.triggered, Nat.le_refl _⟩
    | some first =>
      rw [marked] at same
      rw [← same]
      exact (pending.marked first marked).2

theorem Pending.checkShouldUpdate (pending : c.Pending) (hasChanges : Bool) :
    (c.checkShouldUpdate hasChanges).1.Pending := by
  unfold HotUpdateCoordinator.checkShouldUpdate
  simp only
  rcases c.debounce.shouldUpdate_cases hasChanges c.clock with
    ⟨yes, trigger⟩ | ⟨no, trigger, kept⟩
  · rw [yes, if_pos rfl]
    exact ⟨Nat.le_of_eq trigger, fun _ marked => nomatch marked⟩
  · rw [no, if_neg Bool.false_ne_true]
    refine ⟨Nat.le_trans (Nat.le_of_eq trigger) pending.triggered, fun since known => ?_⟩
    obtain ⟨has, before, le⟩ := pending.marked since known
    exact ⟨kept has, Nat.le_trans (Nat.le_of_eq trigger) before, le⟩

theorem Pending.step (pending : c.Pending) (admitted : c.Admitted event) :
    (c.step event).Pending := by
  have later := pending.elapse event.1
  unfold HotUpdateCoordinator.step
  obtain ⟨elapsed, kind⟩ := event
  cases kind with
  | fileChanged path => exact ⟨later.triggered, later.marked⟩
  | forwarded events => exact ⟨later.triggered, later.marked⟩
  | overflowed => exact ⟨later.triggered, later.marked⟩
  | markChanges => exact later.markChanges
  | periodicTick =>
    show (c.elapse elapsed).periodicTick.Pending
    unfold periodicTick
    split_ifs with running
    · -- the task answers no, so what it marked stays pending
      obtain ⟨young, early⟩ := admitted.1 rfl running
      have quiet : (c.elapse elapsed).markChanges.debounce.shouldProcess (c.elapse elapsed).clock =
          ((c.elapse elapsed).markChanges.debounce, false) :=
        DebounceState.shouldProcess_of_young rfl young early
      simp only [quiet]
      exact later.markChanges
    · exact later
  | checkShouldUpdate hasChanges => exact later.checkShouldUpdate hasChanges
  | operation => exact ⟨later.triggered, fun _ marked => nomatch marked⟩
  | switchToPeriodicScan => exact ⟨later.triggered, later.marked⟩
  | switchToFileWatch => exact ⟨later.triggered, later.marked⟩

theorem nothingSwallowed_of_pending (admitted : c.Admitted event) (pending : c.Pending) :
    c.NothingSwallowed event := by
  constructor
  · intro hasChanges since _ known waited
    obtain ⟨has, before, -⟩ := pending.marked since known
    have since_trigger : c.debounce.config.pendingInterval ≤
        (c.elapse event.1).clock - c.debounce.lastTrigger :=
      Nat.le_trans waited (Nat.sub_le_sub_left before _)
    exact DebounceState.shouldUpdate_of_pending has (Or.inr since_trigger) hasChanges
  · intro switch
    have same : c.step event = (c.elapse event.1).switchToFileWatch := by
      unfold HotUpdateCoordinator.step
      rw [switch]
      rfl
    rw [same]
    exact admitted.2 switch

/-- In a run whose scan task comes early enough and whose switches to the watched mode find every
change covered, nothing is swallowed at any step. -/
theorem nothingSwallowed_run (config : DebounceConfig) (mode : HotUpdateMode) (capacity : Nat)
    (now : Instant) (events : List (Nat × HotUpdateEvent))
    (admitted : Runs.EveryStep HotUpdateCoordinator.step Admitted
      (new config mode capacity now) events) :
    Runs.EveryStep HotUpdateCoordinator.step NothingSwallowed
      (new config mode capacity now) events := by
  have kept : ∀ c event, Admitted c event → Pending c → Pending (step c event) :=
    fun _ _ admitted pending => pending.step admitted
  have answered : ∀ c event, Admitted c event → Pending c → NothingSwallowed c event :=
    fun _ _ admitted pending => nothingSwallowed_of_pending admitted pending
  exact admitted.with_invariant kept answered (pending_new config mode capacity now)

/-- A file changes while the scan task runs, and the coordinator asks before the task comes
again. -/
def patientRun : List (Nat × HotUpdateEvent) :=
  [(0, .switchToPeriodicScan), (0, .fileChanged "src/a.rs"), (0, .periodicTick),
    (fromSecs 30, .checkShouldUpdate true), (0, .switchToFileWatch)]

/-- The task comes first, its positive answer is lost, and the watcher is back before anything was
scanned. -/
def hastyRun : List (Nat × HotUpdateEvent) :=
  [(0, .switchToPeriodicScan), (0, .checkShouldUpdate true), (0, .fileChanged "src/a.rs"),
    (0, .periodicTick), (fromSecs 30, .periodicTick)]

theorem nothingSwallowed_patientRun :
    Runs.EveryStep HotUpdateCoordinator.step Admitted (new {} .fileWatch 8 0) patientRun ∧
      Runs.EveryStep HotUpdateCoordinator.step NothingSwallowed
        (new {} .fileWatch 8 0) patientRun := by
  have admitted : Runs.EveryStep HotUpdateCoordinator.step Admitted (new {} .fileWatch 8 0)
      patientRun := by
    refine ⟨⟨nofun, nofun⟩, ⟨nofun, nofun⟩, ⟨fun _ _ => ?_, nofun⟩, ⟨nofun, nofun⟩,
      ⟨nofun, fun _ path mem => nomatch mem⟩, trivial⟩
    decide
  exact ⟨admitted, nothingSwallowed_run {} .fileWatch 8 0 patientRun admitted⟩

theorem change_swallowed :
    ¬ Runs.EveryStep HotUpdateCoordinator.step NothingSwallowed (new {} .fileWatch 8 0)
        (hastyRun ++ [(fromSecs 1, .checkShouldUpdate true)]) ∧
      ¬ Runs.EveryStep HotUpdateCoordinator.step NothingSwallowed (new {} .fileWatch 8 0)
        (hastyRun ++ [(fromSecs 1, .switchToFileWatch)]) := by
  constructor
  · intro every
    have answer := every.last.1 true 0 rfl (by decide) (by decide)
    exact absurd answer (by decide)
  · intro every
    have covered := every.last.2 rfl "src/a.rs" (by decide)
    exact absurd covered (by decide)

end HotUpdateCoordinator

end ContextEngine

/- digest: The circuit breaker over its calls, the results of earlier requests coming late. -/

import Mathlib.Tactic

set_option autoImplicit false

namespace ContextEngine

open List

inductive CircuitState
  | closed
  | opened
  | halfOpen
  deriving DecidableEq

/-- Durations and instants count in one unit of time. -/
structure CircuitBreaker where
  failureThreshold : Nat
  successThreshold : Nat
  timeout : Nat
  state : CircuitState
  failureCount : Nat
  successCount : Nat
  lastFailure : Option Nat
  deriving DecidableEq

inductive BreakerCall
  | tryAcquire
  | recordSuccess
  | recordFailure
  deriving DecidableEq

structure TimedCall where
  call : BreakerCall
  time : Nat
  deriving DecidableEq

namespace CircuitBreaker

def new (failureThreshold timeout : Nat) : CircuitBreaker :=
  ⟨failureThreshold, 2, timeout, .closed, 0, 0, none⟩

variable (breaker : CircuitBreaker)

def transitionTo (newState : CircuitState) : CircuitBreaker :=
  if breaker.state = newState then breaker
  else
    { breaker with
      state := newState
      successCount := if newState = .halfOpen then 0 else breaker.successCount }

def tryAcquire (now : Nat) : CircuitBreaker × Except String Unit :=
  match breaker.state with
  | .opened =>
    match breaker.lastFailure with
    | some last =>
      if breaker.timeout ≤ now - last then (breaker.transitionTo .halfOpen, .ok ())
      else (breaker, .error "Circuit breaker is open")
    | none => (breaker, .ok ())
  | _ => (breaker, .ok ())

def onSuccess : CircuitBreaker :=
  match breaker.state with
  | .halfOpen =>
    let counted := { breaker with successCount := breaker.successCount + 1 }
    if counted.successThreshold ≤ counted.successCount then
      { counted.transitionTo .closed with failureCount := 0 }
    else counted
  | .closed => if 0 < breaker.failureCount then { breaker with failureCount := 0 } else breaker
  | .opened => breaker

/-- The failure count stays at the largest 32-bit number. -/
def onFailure (now : Nat) : CircuitBreaker :=
  let counted := { breaker with
    failureCount := min (breaker.failureCount + 1) (2 ^ 32 - 1)
    lastFailure := some now }
  if counted.state = .halfOpen ∨ counted.failureThreshold ≤ counted.failureCount then
    counted.transitionTo .opened
  else counted

def step (made : TimedCall) : CircuitBreaker :=
  match made.call with
  | .tryAcquire => (breaker.tryAcquire made.time).1
  | .recordSuccess => breaker.onSuccess
  | .recordFailure => breaker.onFailure made.time

def run (fresh : CircuitBreaker) : List TimedCall → CircuitBreaker
  | [] => fresh
  | made :: history => (run fresh history).step made

end CircuitBreaker

open CircuitBreaker

/-- A breaker closes on a success only, so the last closing is no later than the last success. -/
def failuresSinceSuccess (history : List TimedCall) : Nat :=
  (history.takeWhile fun made => made.call ≠ .recordSuccess).countP fun made =>
    made.call = .recordFailure

def mostRecentFailure (history : List TimedCall) : Option Nat :=
  (history.find? fun made => made.call = .recordFailure).map TimedCall.time

/-- The calls made since the breaker last became half-open, in which state it still is. -/
inductive HalfOpenFor (fresh : CircuitBreaker) : List TimedCall → List TimedCall → Prop
  | entered {history : List TimedCall} {made : TimedCall}
      (other : (run fresh history).state ≠ .halfOpen)
      (half : (run fresh (made :: history)).state = .halfOpen) :
      HalfOpenFor fresh (made :: history) []
  | stayed {history later : List TimedCall} {made : TimedCall}
      (since : HalfOpenFor fresh history later)
      (half : (run fresh (made :: history)).state = .halfOpen) :
      HalfOpenFor fresh (made :: history) (made :: later)

section Functions

variable {breaker : CircuitBreaker}

theorem tryAcquire_cases (breaker : CircuitBreaker) (now : Nat) :
    (breaker.tryAcquire now).1 = breaker ∨ breaker.state = .opened ∧
        (breaker.tryAcquire now).1 = { breaker with state := .halfOpen, successCount := 0 } := by
  unfold tryAcquire
  cases state : breaker.state with
  | closed => exact Or.inl rfl
  | halfOpen => exact Or.inl rfl
  | opened =>
    cases recorded : breaker.lastFailure with
    | none => exact Or.inl rfl
    | some last =>
      simp only
      split_ifs
      · exact Or.inr ⟨trivial, by simp [transitionTo, state, recorded]⟩
      · exact Or.inl rfl

theorem tryAcquire_rejects_iff (known : breaker.state = .opened → breaker.lastFailure.isSome)
    (now : Nat) : (∃ message, (breaker.tryAcquire now).2 = .error message) ↔
      breaker.state = .opened ∧ ∃ last, breaker.lastFailure = some last ∧
        now - last < breaker.timeout := by
  unfold tryAcquire
  cases state : breaker.state with
  | closed => simp
  | halfOpen => simp
  | opened =>
    obtain ⟨last, recorded⟩ := Option.isSome_iff_exists.1 (known state)
    rw [recorded]
    by_cases elapsed : breaker.timeout ≤ now - last
    · simp [elapsed]
    · simp [elapsed, Nat.not_le.1 elapsed]

theorem onSuccess_of_closed (state : breaker.state = .closed) :
    breaker.onSuccess = { breaker with failureCount := 0 } := by
  unfold onSuccess
  rw [state]
  by_cases failed : 0 < breaker.failureCount
  · simp [failed]
  · have none : breaker.failureCount = 0 := by omega
    simp [← none, ← state]

theorem onSuccess_of_halfOpen (state : breaker.state = .halfOpen) :
    breaker.onSuccess = if breaker.successThreshold ≤ breaker.successCount + 1 then
        { breaker with
          state := .closed, failureCount := 0, successCount := breaker.successCount + 1 }
      else { breaker with successCount := breaker.successCount + 1 } := by
  unfold onSuccess transitionTo
  rw [state]
  simp

theorem onSuccess_of_opened (state : breaker.state = .opened) : breaker.onSuccess = breaker := by
  unfold onSuccess
  rw [state]

theorem onFailure_eq (breaker : CircuitBreaker) (now : Nat) :
    breaker.onFailure now =
      { breaker with
        state :=
          if breaker.state = .halfOpen ∨
              breaker.failureThreshold ≤ min (breaker.failureCount + 1) (2 ^ 32 - 1) then .opened
          else breaker.state
        failureCount := min (breaker.failureCount + 1) (2 ^ 32 - 1)
        lastFailure := some now } := by
  unfold onFailure transitionTo
  by_cases opens : breaker.state = .halfOpen ∨
      breaker.failureThreshold ≤ min (breaker.failureCount + 1) (2 ^ 32 - 1)
  · by_cases already : breaker.state = .opened
    · simp [already]
    · simp only [opens, already, if_true, if_false]
      rfl
  · rw [if_neg opens, if_neg opens]

theorem step_fields (breaker : CircuitBreaker) (made : TimedCall) :
    (breaker.step made).failureThreshold = breaker.failureThreshold ∧
      (breaker.step made).successThreshold = breaker.successThreshold ∧
      (breaker.step made).timeout = breaker.timeout ∧
      (breaker.step made).lastFailure =
        if made.call = .recordFailure then some made.time else breaker.lastFailure := by
  unfold step
  cases made.call with
  | tryAcquire =>
    rcases tryAcquire_cases breaker made.time with same | ⟨-, half⟩
    · simp [same]
    · simp [half]
  | recordSuccess =>
    cases state : breaker.state with
    | opened => simp [onSuccess_of_opened state]
    | closed => simp [onSuccess_of_closed state]
    | halfOpen =>
      simp only [onSuccess_of_halfOpen state]
      split_ifs with second _ <;> simp_all
  | recordFailure => simp [onFailure_eq]

end Functions

structure BreakerAccount (fresh : CircuitBreaker) (history : List TimedCall) : Prop where
  opened : (run fresh history).state = .opened → (run fresh history).lastFailure.isSome
  closed : (run fresh history).state = .closed →
    (run fresh history).failureCount < fresh.failureThreshold ∧
      (run fresh history).failureCount = failuresSinceSuccess history
  halfOpen : (run fresh history).state = .halfOpen → ∃ later,
    HalfOpenFor fresh history later ∧ (∀ made ∈ later, made.call ≠ .recordFailure) ∧
      (run fresh history).successCount < fresh.successThreshold ∧
      (run fresh history).successCount = later.countP fun made => made.call = .recordSuccess

section Histories

variable {fresh : CircuitBreaker} {history : List TimedCall}

theorem fields_run (fresh : CircuitBreaker) (history : List TimedCall) :
    (run fresh history).failureThreshold = fresh.failureThreshold ∧
      (run fresh history).successThreshold = fresh.successThreshold ∧
      (run fresh history).timeout = fresh.timeout ∧
      (run fresh history).lastFailure = (mostRecentFailure history).or fresh.lastFailure := by
  induction history with
  | nil => exact ⟨rfl, rfl, rfl, rfl⟩
  | cons made history ih =>
    obtain ⟨failures, successes, waits, last⟩ := step_fields (run fresh history) made
    refine ⟨failures.trans ih.1, successes.trans ih.2.1, waits.trans ih.2.2.1, last.trans ?_⟩
    rw [ih.2.2.2, mostRecentFailure, mostRecentFailure, find?_cons]
    by_cases failed : made.call = .recordFailure
    · simp [failed]
    · simp [failed]

variable {made : TimedCall}

theorem BreakerAccount.acquired (account : BreakerAccount fresh history)
    (single : 0 < fresh.successThreshold) (acquires : made.call = .tryAcquire) :
    BreakerAccount fresh (made :: history) := by
  have next : run fresh (made :: history) = ((run fresh history).tryAcquire made.time).1 := by
    rw [run, step, acquires]
  rcases tryAcquire_cases (run fresh history) made.time with same | ⟨opened, half⟩
  · rw [same] at next
    refine ⟨next ▸ account.opened, ?_, fun state => ?_⟩
    · simpa [next, failuresSinceSuccess, acquires] using account.closed
    · obtain ⟨later, since, clean, small, successes⟩ := account.halfOpen (next ▸ state)
      exact ⟨made :: later, since.stayed state, by simpa [acquires] using clean, next ▸ small,
        by simpa [next, acquires] using successes⟩
  · rw [half] at next
    refine ⟨by simp [next], by simp [next], fun state => ?_⟩
    exact ⟨[], .entered (by simp [opened]) state, by simp, by simp [next, single],
      by simp [next]⟩

theorem BreakerAccount.succeeded (account : BreakerAccount fresh history)
    (positive : 0 < fresh.failureThreshold)
    (succeeds : made.call = .recordSuccess) : BreakerAccount fresh (made :: history) := by
  have next : run fresh (made :: history) = (run fresh history).onSuccess := by
    rw [run, step, succeeds]
  have counted : failuresSinceSuccess (made :: history) = 0 := by
    simp [failuresSinceSuccess, succeeds]
  cases state : (run fresh history).state with
  | opened =>
    rw [onSuccess_of_opened state] at next
    exact ⟨next ▸ account.opened, by simp [next, state], by simp [next, state]⟩
  | closed =>
    rw [onSuccess_of_closed state] at next
    exact ⟨next ▸ account.opened, by simp [next, counted, positive], by simp [next, state]⟩
  | halfOpen =>
    obtain ⟨later, since, clean, small, successes⟩ := account.halfOpen state
    rw [onSuccess_of_halfOpen state, (fields_run fresh history).2.1] at next
    split_ifs at next with second
    · exact ⟨by simp [next], by simp [next, counted, positive], by simp [next]⟩
    · refine ⟨by simp [next, state], by simp [next, state], fun half => ?_⟩
      refine ⟨made :: later, since.stayed half, by simpa [succeeds] using clean, ?_, ?_⟩
      · rw [next]
        exact Nat.not_le.1 second
      · simpa [next, succeeds] using successes

theorem BreakerAccount.failed (account : BreakerAccount fresh history)
    (fits : fresh.failureThreshold < 2 ^ 32)
    (fails : made.call = .recordFailure) : BreakerAccount fresh (made :: history) := by
  have next : run fresh (made :: history) = (run fresh history).onFailure made.time := by
    rw [run, step, fails]
  have counted : failuresSinceSuccess (made :: history) = failuresSinceSuccess history + 1 := by
    simp [failuresSinceSuccess, fails]
  rw [onFailure_eq, (fields_run fresh history).1] at next
  refine ⟨by simp [next], fun state => ?_, fun state => ?_⟩
  · rw [next] at state ⊢
    simp only [counted] at state ⊢
    split_ifs at state with opens
    have below := account.closed state
    omega
  · rw [next] at state
    simp only at state
    split_ifs at state with opens
    exact absurd (Or.inl state) opens

theorem BreakerAccount.of_run {threshold : Nat} (positive : 0 < threshold)
    (fits : threshold < 2 ^ 32) (timeout : Nat) (history : List TimedCall) :
    BreakerAccount (new threshold timeout) history := by
  induction history with
  | nil => exact ⟨by simp [run, new], fun _ => ⟨positive, rfl⟩, by simp [run, new]⟩
  | cons made history account =>
    cases call : made.call with
    | tryAcquire => exact account.acquired Nat.two_pos call
    | recordSuccess => exact account.succeeded positive call
    | recordFailure => exact account.failed fits call

theorem BreakerAccount.of_closing (account : BreakerAccount fresh history)
    (before : (run fresh history).state ≠ .closed)
    (after : (run fresh (made :: history)).state = .closed) :
    made.call = .recordSuccess ∧ ∃ later, HalfOpenFor fresh history later ∧
      (∀ other ∈ later, other.call ≠ .recordFailure) ∧
      later.countP (fun other => other.call = .recordSuccess) + 1 = fresh.successThreshold := by
  rw [run, step] at after
  cases call : made.call with
  | tryAcquire =>
    rw [call] at after
    rcases tryAcquire_cases (run fresh history) made.time with same | ⟨-, half⟩
    · exact absurd (same ▸ after) before
    · simp [half] at after
  | recordFailure =>
    simp only [call, onFailure_eq] at after
    split_ifs at after
    exact absurd after before
  | recordSuccess =>
    simp only [call] at after
    cases state : (run fresh history).state with
    | closed => exact absurd state before
    | opened => simp [onSuccess_of_opened state, state] at after
    | halfOpen =>
      obtain ⟨later, since, clean, small, successes⟩ := account.halfOpen state
      rw [onSuccess_of_halfOpen state, (fields_run fresh history).2.1] at after
      split_ifs at after with second
      · exact ⟨rfl, later, since, clean, by omega⟩
      · simp [state] at after

end Histories

theorem circuitBreaker_law {threshold : Nat} (positive : 0 < threshold) (fits : threshold < 2 ^ 32)
    (timeout : Nat) (history : List TimedCall) :
    let fresh := new threshold timeout
    let breaker := run fresh history
    (breaker.state = .opened → breaker.lastFailure.isSome) ∧
    (breaker.state = .closed → breaker.failureCount < threshold ∧
      breaker.failureCount = failuresSinceSuccess history) ∧
    (∀ now, (∃ message, (breaker.tryAcquire now).2 = .error message) ↔
      breaker.state = .opened ∧
        ∃ last, mostRecentFailure history = some last ∧ now - last < timeout) ∧
    ∀ made, breaker.state ≠ .closed → (run fresh (made :: history)).state = .closed →
      made.call = .recordSuccess ∧ ∃ later, HalfOpenFor fresh history later ∧
        (∀ other ∈ later, other.call ≠ .recordFailure) ∧
        later.countP (fun other => other.call = .recordSuccess) = 1 := by
  have account := BreakerAccount.of_run positive fits timeout history
  obtain ⟨-, -, waits, last⟩ := fields_run (new threshold timeout) history
  refine ⟨account.opened, account.closed, fun now => ?_, fun made before after => ?_⟩
  · rw [tryAcquire_rejects_iff account.opened, last, waits, new, Option.or_none]
  · obtain ⟨success, later, since, clean, second⟩ := account.of_closing before after
    exact ⟨success, later, since, clean, Nat.succ.inj second⟩

theorem circuitBreaker_law_once_failed :
    (0 < 1 ∧ 1 < 2 ^ 32) ∧ (run (new 1 5) [⟨.recordFailure, 3⟩]).state = .opened ∧
      (run (new 1 5) [⟨.recordFailure, 3⟩]).lastFailure.isSome :=
  ⟨by decide, rfl, (circuitBreaker_law (by decide) (by decide) 5 [⟨.recordFailure, 3⟩]).1 rfl⟩

end ContextEngine

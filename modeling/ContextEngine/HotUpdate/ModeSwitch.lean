/- digest: Storm and calm detection of the mode state machine, and what its requests rest on. -/

import ContextEngine.Lib.Runs

set_option autoImplicit false

namespace ContextEngine

/-- A reading of the monotonic clock, in nanoseconds. -/
abbrev Instant := Nat

def fromSecs (seconds : Nat) : Nat := seconds * 1000000000

inductive HotUpdateMode where
  | fileWatch | periodicScan
  deriving DecidableEq

structure ModeSwitchConfig where
  stormThreshold : Nat := 100
  stormDurationSecs : Nat := 10
  recoveryThreshold : Nat := 50
  recoveryDurationSecs : Nat := 30
  degradedScanIntervalSecs : Nat := 30
  deriving DecidableEq

structure ModeStateMachine where
  currentMode : HotUpdateMode
  modeSince : Instant
  config : ModeSwitchConfig
  eventTimestamps : List Instant
  windowSizeSecs : Nat
  stormExceededSince : Option Instant
  recoveryBelowSince : Option Instant
  deriving DecidableEq

namespace ModeStateMachine

def new (config : ModeSwitchConfig) (now : Instant) : ModeStateMachine :=
  ⟨.fileWatch, now, config, [], 1, none, none⟩

def inWindow (windowSizeSecs : Nat) (now ts : Instant) : Bool := now < ts + fromSecs windowSizeSecs

variable (m : ModeStateMachine)

def currentEventRate : Nat := m.eventTimestamps.length

variable (now : Instant)

def recordEventAndCheckStorm : ModeStateMachine × Bool :=
  let kept := (m.eventTimestamps ++ [now]).filter (inWindow m.windowSizeSecs now)
  ({ m with eventTimestamps := kept }, decide (m.config.stormThreshold < kept.length))

/-- The start of a period, noted when the condition is first seen and forgotten when it is not. -/
def noteSince (holds : Bool) (since : Option Instant) (now : Instant) : Option Instant :=
  if holds then some (since.getD now) else none

/-- The period has lasted; a clock difference saturates at zero. -/
def hasLasted (since : Option Instant) (now : Instant) (seconds : Nat) : Bool :=
  since.any fun start => fromSecs seconds ≤ now - start

def stormListed : Bool := m.config.stormThreshold < m.currentEventRate

def shouldDegrade : ModeStateMachine × Bool :=
  if m.currentMode ≠ .fileWatch then (m, false)
  else
    let since := noteSince m.stormListed m.stormExceededSince now
    ({ m with stormExceededSince := since }, hasLasted since now m.config.stormDurationSecs)

def shouldRecover (eventRate : Nat) (now : Instant) :
    ModeStateMachine × Bool :=
  if m.currentMode ≠ .periodicScan then (m, false)
  else
    let since := noteSince
      (decide (eventRate < m.config.recoveryThreshold)) m.recoveryBelowSince now
    ({ m with recoveryBelowSince := since }, hasLasted since now m.config.recoveryDurationSecs)

/-- `switch_to_periodic_scan`, `switch_to_file_watch` and `reset`, which differ in the mode. -/
def switchTo (mode : HotUpdateMode) (now : Instant) : ModeStateMachine :=
  { m with
    currentMode := mode
    modeSince := now
    stormExceededSince := none
    recoveryBelowSince := none
    eventTimestamps := [] }

def switchToPeriodicScan : ModeStateMachine :=
  m.switchTo .periodicScan now

def switchToFileWatch : ModeStateMachine :=
  m.switchTo .fileWatch now

def reset : ModeStateMachine := m.switchTo .fileWatch now

end ModeStateMachine

inductive ModeCall where
  | recordEvent | shouldDegrade | shouldRecover | switchToPeriodicScan | switchToFileWatch | reset
  deriving DecidableEq

/-- The machine with the clock and what it has been told. -/
structure ModeRun where
  machine : ModeStateMachine
  clock : Instant
  /-- Every event ever recorded. -/
  events : List Instant
  /-- When `should_degrade` last looked at the list, which it does in file-watch mode. -/
  degradeCheck : Instant
  /-- When `should_recover` last looked at the list, which it does in periodic-scan mode. -/
  recoverCheck : Instant

namespace ModeRun

def start (config : ModeSwitchConfig) : ModeRun := ⟨ModeStateMachine.new config 0, 0, [], 0, 0⟩

variable (s : ModeRun)

/-- The reading of a call that comes so long after the previous one. -/
def now (elapsed : Nat) : Instant := s.clock + elapsed

variable (call : Nat × ModeCall)

/-- One call. `should_recover` is given the current event rate, as its caller does. -/
def step : ModeRun :=
  let now := s.now call.1
  match call.2 with
  | .recordEvent =>
    { s with
      machine := (s.machine.recordEventAndCheckStorm now).1
      clock := now
      events := s.events ++ [now] }
  | .shouldDegrade =>
    { s with
      machine := (s.machine.shouldDegrade now).1
      clock := now
      degradeCheck := if s.machine.currentMode = .fileWatch then now else s.degradeCheck }
  | .shouldRecover =>
    { s with
      machine := (s.machine.shouldRecover s.machine.currentEventRate now).1
      clock := now
      recoverCheck := if s.machine.currentMode = .periodicScan then now else s.recoverCheck }
  | .switchToPeriodicScan =>
    { s with machine := s.machine.switchToPeriodicScan now, clock := now }
  | .switchToFileWatch => { s with machine := s.machine.switchToFileWatch now, clock := now }
  | .reset => { s with machine := s.machine.reset now, clock := now }

def rateAt (moment : Instant) : Nat :=
  (s.events.filter fun ts => ts ≤ moment && ModeStateMachine.inWindow 1 moment ts).length

def requestsDegradation : Prop :=
  call.2 = .shouldDegrade ∧ (s.machine.shouldDegrade (s.now call.1)).2 = true

def requestsRecovery : Prop :=
  call.2 = .shouldRecover ∧
    (s.machine.shouldRecover s.machine.currentEventRate (s.now call.1)).2 = true

/-- A request rests on a period of the configured length that ends with the call: of a rate above
the storm threshold for degradation, of a rate not above the recovery threshold for recovery. -/
structure Backed (s : ModeRun) (call : Nat × ModeCall) : Prop where
  storm : s.requestsDegradation call →
    ∃ start, start + fromSecs s.machine.config.stormDurationSecs ≤ s.now call.1 ∧
      ∀ moment, start ≤ moment → moment ≤ s.now call.1 →
        s.machine.config.stormThreshold < s.rateAt moment
  calm : s.requestsRecovery call →
    ∃ start, start + fromSecs s.machine.config.recoveryDurationSecs ≤ s.now call.1 ∧
      ∀ moment, start ≤ moment → moment ≤ s.now call.1 →
        s.rateAt moment ≤ s.machine.config.recoveryThreshold

variable (since : Option Instant)

/-- When a check starts to look back: at the previous check while a period is being timed, at its
own reading otherwise. -/
def lookBack (previous now : Instant) : Instant :=
  if since.isSome then previous else now

/-- What the list shows at a check held at every moment the check answers for. -/
structure Faithful (s : ModeRun) (call : Nat × ModeCall) : Prop where
  storm : call.2 = .shouldDegrade → s.machine.currentMode = .fileWatch →
    s.machine.stormListed = true →
    ∀ moment, lookBack s.machine.stormExceededSince s.degradeCheck (s.now call.1) ≤ moment →
      moment ≤ s.now call.1 → s.machine.config.stormThreshold < s.rateAt moment
  calm : call.2 = .shouldRecover → s.machine.currentMode = .periodicScan →
    s.machine.currentEventRate < s.machine.config.recoveryThreshold →
    ∀ moment, lookBack s.machine.recoveryBelowSince s.recoverCheck (s.now call.1) ≤ moment →
      moment ≤ s.now call.1 → s.rateAt moment ≤ s.machine.config.recoveryThreshold

/-- A period being timed started before the last check, and what it times held until then. -/
def Timed (previous : Instant) (holds : Instant → Prop) : Prop :=
  ∀ start, since = some start →
    start ≤ previous ∧ ∀ moment, start ≤ moment → moment < previous → holds moment

theorem hasLasted_iff (now : Instant) (seconds : Nat) :
    ModeStateMachine.hasLasted since now seconds = true ↔
      ∃ start, since = some start ∧ fromSecs seconds ≤ now - start := by
  simp only [ModeStateMachine.hasLasted, Option.any_eq_true, decide_eq_true_eq]

theorem Timed.noteSince {since : Option Instant} {previous now : Instant} {holds : Instant → Prop}
    {listed : Bool} (timed : Timed since previous holds)
    (faithful : listed = true → ∀ moment, lookBack since previous now ≤ moment → moment ≤ now →
      holds moment) (ordered : previous ≤ now) :
    ∀ start, ModeStateMachine.noteSince listed since now = some start →
      start ≤ now ∧ ∀ moment, start ≤ moment → moment ≤ now → holds moment := by
  intro start noted
  cases listed with
  | false => cases noted
  | true =>
    cases since with
    | none =>
      have same : now = start := Option.some.inj noted
      rw [← same]
      exact ⟨Nat.le_refl now, faithful rfl⟩
    | some first =>
      have same : first = start := Option.some.inj noted
      obtain ⟨early, before⟩ := timed first rfl
      rw [← same]
      refine ⟨Nat.le_trans early ordered, fun moment from_ to_ => ?_⟩
      by_cases covered : moment < previous
      · exact before moment from_ covered
      · exact faithful rfl moment (Nat.le_of_not_lt covered) to_

theorem Timed.mono {since : Option Instant} {previous : Instant} {holds holds' : Instant → Prop}
    (timed : Timed since previous holds)
    (implies : ∀ moment, moment < previous → holds moment → holds' moment) :
    Timed since previous holds' := by
  intro start noted
  obtain ⟨early, before⟩ := timed start noted
  exact ⟨early, fun moment from_ to_ => implies moment to_ (before moment from_ to_)⟩

theorem timed_none (previous : Instant) (holds : Instant → Prop) : Timed none previous holds :=
  fun _ noted => absurd noted.symm (Option.some_ne_none _)

/-- The machine's times lie in the past and what it is timing has held so far. -/
structure Sound (s : ModeRun) : Prop where
  events : ∀ ts ∈ s.events, ts ≤ s.clock
  degradeCheck : s.degradeCheck ≤ s.clock
  recoverCheck : s.recoverCheck ≤ s.clock
  storm : Timed s.machine.stormExceededSince s.degradeCheck fun moment =>
    s.machine.config.stormThreshold < s.rateAt moment
  calm : Timed s.machine.recoveryBelowSince s.recoverCheck fun moment =>
    s.rateAt moment ≤ s.machine.config.recoveryThreshold

theorem start_sound (config : ModeSwitchConfig) : (start config).Sound where
  events := fun _ mem => absurd mem List.not_mem_nil
  degradeCheck := Nat.le_refl 0
  recoverCheck := Nat.le_refl 0
  storm := timed_none _ _
  calm := timed_none _ _

section Step

variable {s : ModeRun} {elapsed : Nat}

private theorem clock_le_now : s.clock ≤ s.now elapsed := Nat.le_add_right _ _

private theorem rateAt_recordEvent {moment : Instant} (before : moment < s.now elapsed) :
    (s.step (elapsed, .recordEvent)).rateAt moment = s.rateAt moment := by
  have late : ¬ s.now elapsed ≤ moment := Nat.not_le_of_lt before
  simp only [rateAt, step, List.filter_append, List.filter_singleton, late, decide_false,
    Bool.false_and, cond_false, List.append_nil]

section

variable (sound : s.Sound)

include sound

private theorem Sound.later : Sound { s with clock := s.now elapsed } where
  events := fun ts mem => Nat.le_trans (sound.events ts mem) clock_le_now
  degradeCheck := Nat.le_trans sound.degradeCheck clock_le_now
  recoverCheck := Nat.le_trans sound.recoverCheck clock_le_now
  storm := sound.storm
  calm := sound.calm

private theorem Sound.recordEvent : (s.step (elapsed, .recordEvent)).Sound where
  events := by
    intro ts mem
    rcases List.mem_append.1 mem with early | late
    · exact Nat.le_trans (sound.events ts early) clock_le_now
    · exact Nat.le_of_eq (List.mem_singleton.1 late)
  degradeCheck := sound.later.degradeCheck
  recoverCheck := sound.later.recoverCheck
  storm := by
    refine sound.storm.mono fun moment before rate => ?_
    rwa [rateAt_recordEvent (Nat.lt_of_lt_of_le before sound.later.degradeCheck)]
  calm := by
    refine sound.calm.mono fun moment before rate => ?_
    rwa [rateAt_recordEvent (Nat.lt_of_lt_of_le before sound.later.recoverCheck)]

private theorem Sound.switchTo (mode : HotUpdateMode) :
    Sound { s with
      machine := s.machine.switchTo mode (s.now elapsed)
      clock := s.now elapsed } :=
  { sound.later with
    storm := timed_none _ _
    calm := timed_none _ _ }

private theorem storm_noted (faithful : s.Faithful (elapsed, .shouldDegrade))
    (watching : s.machine.currentMode = .fileWatch) :
    ∀ start, ModeStateMachine.noteSince s.machine.stormListed s.machine.stormExceededSince
        (s.now elapsed) = some start →
      start ≤ s.now elapsed ∧ ∀ moment, start ≤ moment → moment ≤ s.now elapsed →
        s.machine.config.stormThreshold < s.rateAt moment :=
  sound.storm.noteSince (faithful.storm rfl watching) (Nat.le_trans sound.degradeCheck clock_le_now)

private theorem calm_noted (faithful : s.Faithful (elapsed, .shouldRecover))
    (scanning : s.machine.currentMode = .periodicScan) :
    ∀ start, ModeStateMachine.noteSince
        (decide (s.machine.currentEventRate < s.machine.config.recoveryThreshold))
        s.machine.recoveryBelowSince (s.now elapsed) = some start →
      start ≤ s.now elapsed ∧ ∀ moment, start ≤ moment → moment ≤ s.now elapsed →
        s.rateAt moment ≤ s.machine.config.recoveryThreshold :=
  sound.calm.noteSince (fun listed => faithful.calm rfl scanning (of_decide_eq_true listed))
    (Nat.le_trans sound.recoverCheck clock_le_now)

private theorem Sound.shouldDegrade (faithful : s.Faithful (elapsed, .shouldDegrade)) :
    (s.step (elapsed, .shouldDegrade)).Sound := by
  by_cases watching : s.machine.currentMode = .fileWatch
  · have noted := storm_noted sound faithful watching
    simp only [step, ModeStateMachine.shouldDegrade, watching, ne_eq, not_true_eq_false, if_false,
      if_true]
    exact
      { sound.later with
        degradeCheck := Nat.le_refl _
        storm := fun start some => ⟨(noted start some).1, fun moment from_ to_ =>
          (noted start some).2 moment from_ (Nat.le_of_lt to_)⟩ }
  · simp only [step, ModeStateMachine.shouldDegrade, ne_eq, watching, not_false_eq_true, if_true,
      if_false]
    exact sound.later

private theorem Sound.shouldRecover (faithful : s.Faithful (elapsed, .shouldRecover)) :
    (s.step (elapsed, .shouldRecover)).Sound := by
  by_cases scanning : s.machine.currentMode = .periodicScan
  · have noted := calm_noted sound faithful scanning
    simp only [step, ModeStateMachine.shouldRecover, scanning, ne_eq, not_true_eq_false, if_false,
      if_true]
    exact
      { sound.later with
        recoverCheck := Nat.le_refl _
        calm := fun start some => ⟨(noted start some).1, fun moment from_ to_ =>
          (noted start some).2 moment from_ (Nat.le_of_lt to_)⟩ }
  · simp only [step, ModeStateMachine.shouldRecover, ne_eq, scanning, not_false_eq_true, if_true,
      if_false]
    exact sound.later

theorem Sound.step (call : Nat × ModeCall) (faithful : s.Faithful call) :
    (s.step call).Sound := by
  obtain ⟨elapsed, call⟩ := call
  cases call with
  | recordEvent => exact sound.recordEvent
  | shouldDegrade => exact sound.shouldDegrade faithful
  | shouldRecover => exact sound.shouldRecover faithful
  | switchToPeriodicScan => exact sound.switchTo .periodicScan
  | switchToFileWatch => exact sound.switchTo .fileWatch
  | reset => exact sound.switchTo .fileWatch

theorem Sound.backed (call : Nat × ModeCall) (faithful : s.Faithful call) :
    s.Backed call := by
  obtain ⟨elapsed, call⟩ := call
  constructor
  · rintro ⟨rfl, requested⟩
    by_cases watching : s.machine.currentMode = .fileWatch
    · simp only [ModeStateMachine.shouldDegrade, watching, ne_eq, not_true_eq_false, if_false,
        hasLasted_iff] at requested
      obtain ⟨start, noted, lasted⟩ := requested
      obtain ⟨early, held⟩ := storm_noted sound faithful watching start noted
      exact ⟨start, Nat.add_le_of_le_sub' early lasted, held⟩
    · simp only [ModeStateMachine.shouldDegrade, ne_eq, watching, not_false_eq_true, if_true,
        Bool.false_eq_true] at requested
  · rintro ⟨rfl, requested⟩
    by_cases scanning : s.machine.currentMode = .periodicScan
    · simp only [ModeStateMachine.shouldRecover, scanning, ne_eq, not_true_eq_false, if_false,
        hasLasted_iff] at requested
      obtain ⟨start, noted, lasted⟩ := requested
      obtain ⟨early, held⟩ := calm_noted sound faithful scanning start noted
      exact ⟨start, Nat.add_le_of_le_sub' early lasted, held⟩
    · simp only [ModeStateMachine.shouldRecover, ne_eq, scanning, not_false_eq_true, if_true,
        Bool.false_eq_true] at requested

end

end Step

/-- In a run whose checks are faithful, every request for a mode switch is backed. -/
theorem backed_run (config : ModeSwitchConfig) (calls : List (Nat × ModeCall))
    (faithful : Runs.EveryStep step Faithful (start config) calls) :
    Runs.EveryStep step Backed (start config) calls := by
  have kept : ∀ (s : ModeRun) (call : Nat × ModeCall), s.Faithful call → s.Sound →
      (s.step call).Sound := fun _ call faithful sound => sound.step call faithful
  have implies : ∀ (s : ModeRun) (call : Nat × ModeCall), s.Faithful call → s.Sound →
      s.Backed call := fun _ call faithful sound => sound.backed call faithful
  exact Runs.EveryStep.with_invariant kept implies (start_sound config) faithful

/-- Two events at a time, half a second apart, and two checks a second apart: the second requests
degradation. -/
def lastingStorm : List (Nat × ModeCall) :=
  [(0, .recordEvent), (0, .recordEvent), (0, .shouldDegrade), (500000000, .recordEvent),
    (0, .recordEvent), (500000000, .shouldDegrade)]

theorem backed_run_lastingStorm :
    Runs.EveryStep step Backed (start { stormThreshold := 1, stormDurationSecs := 1 })
      lastingStorm := by
  refine backed_run _ _ ⟨⟨?_, ?_⟩, ⟨?_, ?_⟩, ⟨?_, ?_⟩, ⟨?_, ?_⟩, ⟨?_, ?_⟩, ⟨?_, ?_⟩, trivial⟩
  -- The two checks that look at the list; no other call is one.
  case refine_5 =>
    intro _ _ _ moment from_ to_
    obtain rfl : moment = 0 := Nat.le_antisymm to_ from_
    decide
  case refine_11 =>
    intro _ _ _ moment _ to_
    change moment ≤ 1000000000 at to_
    change 1 < ([0, 0, 500000000, 500000000].filter fun ts =>
      ts ≤ moment && ModeStateMachine.inWindow 1 moment ts).length
    rcases Nat.lt_or_ge moment 500000000 with early | late
    · have recent : moment < 1000000000 := Nat.lt_trans early (by decide)
      simp [ModeStateMachine.inWindow, fromSecs, recent]
    · rcases Nat.lt_or_ge moment 1000000000 with before | last
      · have recent : moment < 1500000000 := Nat.lt_trans before (by decide)
        simp [ModeStateMachine.inWindow, fromSecs, recent, late, before]
      · obtain rfl : moment = 1000000000 := Nat.le_antisymm to_ last
        decide
  all_goals exact fun other => by cases other

/-- Three events in one instant and two checks ten seconds apart request degradation, ten seconds
after the last event left the window. -/
theorem staleList_requestsDegradation :
    ¬ ∀ config calls, Runs.EveryStep step Backed (start config) calls := by
  intro always
  have run := always { stormThreshold := 2 }
    [(0, .recordEvent), (0, .recordEvent), (0, .recordEvent), (1000000000, .shouldDegrade),
      (10000000000, .shouldDegrade)]
  obtain ⟨-, -, -, -, last, -⟩ := run
  obtain ⟨start, early, held⟩ := last.storm ⟨rfl, by decide⟩
  have atCheck := held 11000000000 (Nat.le_trans (Nat.le_add_right _ _) early) (by decide)
  revert atCheck
  decide

end ModeRun

end ContextEngine

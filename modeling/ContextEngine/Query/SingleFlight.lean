/- digest: What keeps the lookups of a query cache to one computation at a time. -/

import Mathlib.Logic.Function.Basic
import ContextEngine.Lib.Runs

set_option autoImplicit false

namespace ContextEngine

open Function Runs

variable {Key : Type} [DecidableEq Key]

/-- How far a caller has come in `get_or_compute`. -/
inductive CallPhase (Key : Type)
  | idle
  | reading (key : Key)
  | missed (key : Key)
  | waiting (key : Key) (guard : Nat)
  | checking (key : Key) (guard : Nat)
  | starting (key : Key) (guard : Nat)
  | computing (key : Key) (guard : Nat)
  | publishing (key : Key) (guard : Nat)
  | removing (key : Key) (guard : Nat)
  deriving DecidableEq

namespace CallPhase

def guard? : CallPhase Key → Option (Key × Nat)
  | .idle | .reading _ | .missed _ => none
  | .waiting key guard | .checking key guard | .starting key guard | .computing key guard
  | .publishing key guard | .removing key guard => some (key, guard)

/-- Whether the caller has locked its guard. -/
def holds : CallPhase Key → Bool
  | .idle | .reading _ | .missed _ | .waiting _ _ => false
  | _ => true

end CallPhase

/-- What a caller does next, or what happens to it. -/
inductive CallEvent (Key : Type)
  | call (key : Key)
  | proceed
  | finish (success : Bool)
  | cancel

/-- The shared cache and table, and the callers. The last two fields are kept for the proofs only:
    the keys with a finished computation, and whether one was started after that. -/
structure QueryCache (Key : Type) where
  cached : Key → Bool
  inflight : Key → Option Nat
  locked : Nat → Bool
  nextGuard : Nat
  phase : Nat → CallPhase Key
  succeeded : Key → Bool
  startedLate : Bool

namespace QueryCache

/-- An empty cache that nobody uses. -/
def start : QueryCache Key where
  cached _ := false
  inflight _ := none
  locked _ := false
  nextGuard := 0
  phase _ := .idle
  succeeded _ := false
  startedLate := false

variable (s : QueryCache Key) (caller : Nat)

def enter (phase : CallPhase Key) : QueryCache Key :=
  { s with phase := Function.update s.phase caller phase }

/-- The caller has left, and what it held is unlocked. -/
def leave : QueryCache Key :=
  { s with
    phase := Function.update s.phase caller .idle
    locked :=
      match (s.phase caller).guard? with
      | some (_, guard) =>
        if (s.phase caller).holds then Function.update s.locked guard false else s.locked
      | none => s.locked }

def proceed : QueryCache Key :=
  match s.phase caller with
  | .idle => s
  | .reading key => if s.cached key then s.leave caller else s.enter caller (.missed key)
  | .missed key =>
    match s.inflight key with
    | some guard => s.enter caller (.waiting key guard)
    | none =>
      { s.enter caller (.waiting key s.nextGuard) with
        inflight := Function.update s.inflight key (some s.nextGuard)
        nextGuard := s.nextGuard + 1 }
  | .waiting key guard =>
    if s.locked guard then s
    else
      { s.enter caller (.checking key guard) with
        locked := Function.update s.locked guard true }
  | .checking key guard =>
    if s.cached key then s.leave caller else s.enter caller (.starting key guard)
  | .starting key guard =>
    { s.enter caller (.computing key guard) with
      startedLate := s.startedLate || s.succeeded key }
  | .computing _ _ => s
  | .publishing key guard =>
    { s.enter caller (.removing key guard) with cached := Function.update s.cached key true }
  | .removing key guard =>
    { s.leave caller with
      inflight :=
        if s.inflight key = some guard then Function.update s.inflight key none
        else s.inflight }

/-- The end of a computation. -/
def finish (success : Bool) : QueryCache Key :=
  match s.phase caller with
  | .computing key guard =>
    if success then
      { s.enter caller (.publishing key guard) with
        succeeded := Function.update s.succeeded key true }
    else s.enter caller (.removing key guard)
  | _ => s

def step (input : Nat × CallEvent Key) : QueryCache Key :=
  match input.2 with
  | .call key => if s.phase input.1 = .idle then s.enter input.1 (.reading key) else s
  | .proceed => s.proceed input.1
  | .finish success => s.finish input.1 success
  | .cancel => s.leave input.1

def Computes (key : Key) : Prop :=
  ∃ guard, s.phase caller = .computing key guard

/-- One computation a key at a time, none after a success, and nothing in flight when nobody
    calls. -/
structure SingleFlight (s : QueryCache Key) : Prop where
  single : ∀ caller caller' key, s.Computes caller key → s.Computes caller' key → caller = caller'
  notLate : s.startedLate = false
  cleared : (∀ caller, s.phase caller = .idle) → ∀ key, s.inflight key = none

/-- A new guard is put into the table only for an unpublished key without callers that still use
    an older guard; and a caller is cancelled only if it is not about to publish and, where its
    guard is in the table, another caller is left on it that will take it out. -/
def Admitted (input : Nat × CallEvent Key) : Prop :=
  match input.2 with
  | .proceed => ∀ key, s.phase input.1 = .missed key → s.inflight key = none →
      s.cached key = false ∧ ∀ caller guard, (s.phase caller).guard? ≠ some (key, guard)
  | .cancel => ∀ key guard, (s.phase input.1).guard? = some (key, guard) →
      s.phase input.1 ≠ .publishing key guard ∧
      (s.inflight key = some guard → ∃ other ≠ input.1,
        (s.phase other).guard? = some (key, guard) ∧
          (s.cached key = true → s.phase other = .removing key guard))
  | _ => True

/-- The callers of a key share one guard, and one caller at a time has a guard locked. -/
structure GuardsApart (s : QueryCache Key) : Prop where
  shared : ∀ caller caller' key guard guard', (s.phase caller).guard? = some (key, guard) →
    (s.phase caller').guard? = some (key, guard') → guard = guard'
  exclusive : ∀ caller caller' key key' guard, (s.phase caller).guard? = some (key, guard) →
    (s.phase caller').guard? = some (key', guard) → (s.phase caller).holds = true →
    (s.phase caller').holds = true → caller = caller'
  locked : ∀ caller key guard, (s.phase caller).guard? = some (key, guard) →
    (s.phase caller).holds = true → s.locked guard = true
  taken : ∀ caller key guard, (s.phase caller).guard? = some (key, guard) → guard < s.nextGuard

/-- A guard in the table is one that some caller will take out, a success is published or about to
    be, and a computation of an unpublished key is the first to succeed. -/
structure Inv (s : QueryCache Key) : Prop where
  guards : GuardsApart s
  listed : ∀ key guard, s.inflight key = some guard → ∃ caller,
    (s.phase caller).guard? = some (key, guard) ∧
      (s.cached key = true → s.phase caller = .removing key guard)
  settled : ∀ key, s.succeeded key = true →
    s.cached key = true ∨ ∃ caller guard, s.phase caller = .publishing key guard
  unsettled : ∀ caller key guard,
    s.phase caller = .starting key guard ∨ s.phase caller = .computing key guard →
      s.succeeded key = false
  notLate : s.startedLate = false

omit [DecidableEq Key] in
theorem inv_start : Inv (start : QueryCache Key) where
  guards :=
    { shared := fun _ _ _ _ _ taken => nomatch taken
      exclusive := fun _ _ _ _ _ taken => nomatch taken
      locked := fun _ _ _ taken => nomatch taken
      taken := fun _ _ _ taken => nomatch taken }
  listed _ _ listed := nomatch listed
  settled _ done := nomatch done
  unsettled _ _ _ phase := phase.elim nofun nofun
  notLate := rfl

omit [DecidableEq Key] in
theorem Inv.singleFlight {s : QueryCache Key} (inv : Inv s) : SingleFlight s where
  single caller caller' key first second := by
    obtain ⟨guard, first⟩ := first
    obtain ⟨guard', second⟩ := second
    have mine : (s.phase caller).guard? = some (key, guard) := by rw [first]; rfl
    have other : (s.phase caller').guard? = some (key, guard') := by rw [second]; rfl
    have same := inv.guards.shared caller caller' key guard guard' mine other
    subst same
    exact inv.guards.exclusive caller caller' key key guard mine other (by rw [first]; rfl)
      (by rw [second]; rfl)
  notLate := inv.notLate
  cleared idle key := by
    cases listed : s.inflight key with
    | none => rfl
    | some guard =>
      obtain ⟨caller, mine, -⟩ := inv.listed key guard listed
      rw [idle caller] at mine
      cases mine

section Guards

variable {s s' : QueryCache Key} {caller : Nat} {key : Key} {guard : Nat}

omit [DecidableEq Key] in
theorem GuardsApart.mono (apart : GuardsApart s)
    (guards : ∀ c p, (s'.phase c).guard? = some p → (s.phase c).guard? = some p)
    (holds : ∀ c, (s'.phase c).holds = true → (s.phase c).holds = true)
    (locked : ∀ c k g, (s'.phase c).guard? = some (k, g) → (s'.phase c).holds = true →
      s.locked g = true → s'.locked g = true)
    (next : s.nextGuard ≤ s'.nextGuard) : GuardsApart s' where
  shared c c' k g g' mine other := apart.shared c c' k g g' (guards c _ mine) (guards c' _ other)
  exclusive c c' k k' g mine other held held' :=
    apart.exclusive c c' k k' g (guards c _ mine) (guards c' _ other) (holds c held)
      (holds c' held')
  locked c k g mine held := locked c k g mine held (apart.locked c k g (guards c _ mine)
    (holds c held))
  taken c k g mine := Nat.lt_of_lt_of_le (apart.taken c k g (guards c _ mine)) next

omit [DecidableEq Key] in
theorem GuardsApart.take (apart : GuardsApart s)
    (phase : s'.phase = Function.update s.phase caller (.waiting key guard))
    (locked : s'.locked = s.locked) (next : s.nextGuard ≤ s'.nextGuard)
    (known : guard < s'.nextGuard)
    (only : ∀ c g, (s.phase c).guard? = some (key, g) → g = guard) : GuardsApart s' := by
  have guards : ∀ c k g, (s'.phase c).guard? = some (k, g) →
      c = caller ∧ k = key ∧ g = guard ∨ c ≠ caller ∧ (s.phase c).guard? = some (k, g) := by
    intro c k g mine
    rw [phase, update_apply] at mine
    split_ifs at mine with same
    · cases mine
      exact Or.inl ⟨same, rfl, rfl⟩
    · exact Or.inr ⟨same, mine⟩
  have holds : ∀ c, (s'.phase c).holds = true → c ≠ caller ∧ (s.phase c).holds = true := by
    intro c held
    rw [phase, update_apply] at held
    split_ifs at held with same
    · cases held
    · exact ⟨same, held⟩
  refine ⟨?_, ?_, ?_, ?_⟩
  · intro c c' k g g' mine other
    rcases guards c k g mine with ⟨-, rfl, rfl⟩ | ⟨-, mine⟩
    · rcases guards c' k g' other with ⟨-, -, rfl⟩ | ⟨-, other⟩
      · rfl
      · exact (only c' g' other).symm
    · rcases guards c' k g' other with ⟨-, rfl, rfl⟩ | ⟨-, other⟩
      · exact only c g mine
      · exact apart.shared c c' k g g' mine other
  · intro c c' k k' g mine other held held'
    have first := (guards c k g mine).resolve_left fun same => (holds c held).1 same.1
    have second := (guards c' k' g other).resolve_left fun same => (holds c' held').1 same.1
    exact apart.exclusive c c' k k' g first.2 second.2 (holds c held).2 (holds c' held').2
  · intro c k g mine held
    have first := (guards c k g mine).resolve_left fun same => (holds c held).1 same.1
    rw [locked]
    exact apart.locked c k g first.2 (holds c held).2
  · intro c k g mine
    rcases guards c k g mine with ⟨-, -, rfl⟩ | ⟨-, mine⟩
    · exact known
    · exact Nat.lt_of_lt_of_le (apart.taken c k g mine) next

omit [DecidableEq Key] in
theorem GuardsApart.acquire (apart : GuardsApart s) (waits : s.phase caller = .waiting key guard)
    (unlocked : s.locked guard = false)
    (phase : s'.phase = Function.update s.phase caller (.checking key guard))
    (locked : s'.locked = Function.update s.locked guard true)
    (next : s'.nextGuard = s.nextGuard) : GuardsApart s' := by
  have guards : ∀ c, (s'.phase c).guard? = (s.phase c).guard? := by
    intro c
    rw [phase, update_apply]
    split_ifs with same
    · rw [same, waits]
      rfl
    · rfl
  have holds : ∀ c, (s'.phase c).holds = true → c = caller ∨ (s.phase c).holds = true := by
    intro c held
    rw [phase, update_apply] at held
    split_ifs at held with same
    · exact Or.inl same
    · exact Or.inr held
  have nobody : ∀ c k, (s.phase c).guard? = some (k, guard) → (s.phase c).holds = true → False := by
    intro c k mine held
    have busy := apart.locked c k guard mine held
    rw [unlocked] at busy
    cases busy
  have mine : (s.phase caller).guard? = some (key, guard) := by
    rw [waits]
    rfl
  refine ⟨?_, ?_, ?_, ?_⟩
  · intro c c' k g g' first second
    rw [guards] at first second
    exact apart.shared c c' k g g' first second
  · intro c c' k k' g first second held held'
    rw [guards] at first second
    rcases holds c held with rfl | held
    · rcases holds c' held' with rfl | held'
      · rfl
      · rw [mine] at first
        cases first
        exact absurd held' fun held' => nobody c' k' second held'
    · rcases holds c' held' with rfl | held'
      · rw [mine] at second
        cases second
        exact absurd held fun held => nobody c k first held
      · exact apart.exclusive c c' k k' g first second held held'
  · intro c k g first held
    rw [guards] at first
    rw [locked, update_apply]
    split_ifs with same
    · rfl
    · rcases holds c held with rfl | held
      · rw [mine] at first
        cases first
        exact absurd rfl same
      · exact apart.locked c k g first held
  · intro c k g first
    rw [guards] at first
    rw [next]
    exact apart.taken c k g first

end Guards

section Steps

variable {s : QueryCache Key} {caller : Nat} {key : Key} {guard : Nat}

omit [DecidableEq Key] in
theorem phase_enter (s : QueryCache Key) (caller : Nat) (phase : CallPhase Key) (c : Nat) :
    (s.enter caller phase).phase c = if c = caller then phase else s.phase c :=
  update_apply _ _ _ _

omit [DecidableEq Key] in
theorem phase_leave (s : QueryCache Key) (caller c : Nat) :
    (s.leave caller).phase c = if c = caller then .idle else s.phase c :=
  update_apply _ _ _ _

omit [DecidableEq Key] in
theorem Inv.holder_eq (inv : Inv s) {c c' : Nat} {g g' : Nat}
    (mine : (s.phase c).guard? = some (key, g)) (other : (s.phase c').guard? = some (key, g'))
    (held : (s.phase c).holds = true) (held' : (s.phase c').holds = true) : c = c' := by
  have same := inv.guards.shared c c' key g g' mine other
  subst same
  exact inv.guards.exclusive c c' key key g mine other held held'

omit [DecidableEq Key] in
theorem Inv.enter_free (inv : Inv s) {phase : CallPhase Key}
    (free : (s.phase caller).guard? = none) (still : phase.guard? = none) :
    Inv (s.enter caller phase) := by
  have unheld : phase.holds = false := by
    cases phase <;> first | rfl | cases still
  have busy : ∀ c p, (s.phase c).guard? = some p → c ≠ caller := by
    rintro c p mine rfl
    rw [free] at mine
    cases mine
  have kept : ∀ c p, (s.phase c).guard? = some p → (s.enter caller phase).phase c = s.phase c := by
    intro c p mine
    rw [phase_enter, if_neg (busy c p mine)]
  refine ⟨inv.guards.mono ?_ ?_ (fun _ _ _ _ _ locked => locked) (Nat.le_refl _), ?_, ?_, ?_,
    inv.notLate⟩
  · intro c p mine
    rw [phase_enter] at mine
    split_ifs at mine
    · rw [still] at mine
      cases mine
    · exact mine
  · intro c held
    rw [phase_enter] at held
    split_ifs at held
    · rw [unheld] at held
      cases held
    · exact held
  · intro k g listed
    obtain ⟨c, mine, last⟩ := inv.listed k g listed
    exact ⟨c, by rw [kept c _ mine]; exact mine, fun done => by rw [kept c _ mine]; exact last done⟩
  · intro k done
    refine (inv.settled k done).imp_right fun ⟨c, g, publishes⟩ => ⟨c, g, ?_⟩
    rw [kept c (k, g) (by rw [publishes]; rfl)]
    exact publishes
  · intro c k g early
    rw [phase_enter] at early
    split_ifs at early
    · rcases early with rfl | rfl <;> cases still
    · exact inv.unsettled c k g early

omit [DecidableEq Key] in
theorem locked_leave {g : Nat} (locked : s.locked g = true)
    (other : ∀ k, (s.phase caller).guard? = some (k, g) → (s.phase caller).holds = false) :
    (s.leave caller).locked g = true := by
  cases own : (s.phase caller).guard? with
  | none => simpa [QueryCache.leave, own] using locked
  | some pair =>
    obtain ⟨k', g'⟩ := pair
    cases held : (s.phase caller).holds with
    | false => simpa [QueryCache.leave, own, held] using locked
    | true =>
      simp only [QueryCache.leave, own, held, if_true, update_apply]
      split_ifs with freed
      · subst freed
        rw [other k' own] at held
        cases held
      · exact locked

omit [DecidableEq Key] in
/-- A caller leaves that is not about to publish and that no table entry waits for. -/
theorem Inv.leave (inv : Inv s) (unpublishing : ∀ k g, s.phase caller ≠ .publishing k g)
    (replaced : ∀ k g, (s.phase caller).guard? = some (k, g) → s.inflight k = some g →
      ∃ other ≠ caller, (s.phase other).guard? = some (k, g) ∧
        (s.cached k = true → s.phase other = .removing k g)) : Inv (s.leave caller) := by
  have kept : ∀ c, c ≠ caller → (s.leave caller).phase c = s.phase c := by
    intro c other
    rw [phase_leave, if_neg other]
  refine ⟨inv.guards.mono ?_ ?_ ?_ (Nat.le_refl _), ?_, ?_, ?_, inv.notLate⟩
  · intro c p mine
    rw [phase_leave] at mine
    split_ifs at mine
    · cases mine
    · exact mine
  · intro c held
    rw [phase_leave] at held
    split_ifs at held
    · cases held
    · exact held
  · intro c k g mine held locked
    rw [phase_leave] at mine held
    split_ifs at mine held with same
    · cases mine
    · refine locked_leave locked fun k' own => ?_
      by_contra holds
      exact same (inv.guards.exclusive c caller k k' g mine own held (by simpa using holds))
  · intro k g listed
    obtain ⟨c, mine, last⟩ := inv.listed k g listed
    by_cases same : c = caller
    · subst same
      obtain ⟨other, differs, its, final⟩ := replaced k g mine listed
      refine ⟨other, ?_, ?_⟩
      · rw [kept other differs]
        exact its
      · rw [kept other differs]
        exact final
    · refine ⟨c, ?_, ?_⟩
      · rw [kept c same]
        exact mine
      · rw [kept c same]
        exact last
  · intro k done
    refine (inv.settled k done).imp_right fun ⟨c, g, publishes⟩ => ⟨c, g, ?_⟩
    rw [kept c]
    · exact publishes
    · rintro rfl
      exact unpublishing k g publishes
  · intro c k g early
    rw [phase_leave] at early
    split_ifs at early
    · rcases early with early | early <;> cases early
    · exact inv.unsettled c k g early

variable {s' : QueryCache Key}

omit [DecidableEq Key] in
theorem Inv.advance {p : CallPhase Key} (inv : Inv s)
    (mine : (s.phase caller).guard? = some (key, guard)) (held : (s.phase caller).holds = true)
    (still : p.guard? = some (key, guard)) (phase : s'.phase = Function.update s.phase caller p)
    (locked : s'.locked = s.locked) (next : s'.nextGuard = s.nextGuard)
    (inflight : s'.inflight = s.inflight) (cached : ∀ k ≠ key, s'.cached k = s.cached k)
    (succeeded : ∀ k ≠ key, s'.succeeded k = s.succeeded k)
    (published : s'.cached key = true → s.inflight key = some guard → p = .removing key guard)
    (settled : s'.succeeded key = true → s'.cached key = true ∨ p = .publishing key guard)
    (unsettled : p = .starting key guard ∨ p = .computing key guard → s'.succeeded key = false)
    (notLate : s'.startedLate = false) : Inv s' := by
  have mover : s'.phase caller = p := by
    rw [phase, update_self]
  have kept : ∀ c, c ≠ caller → s'.phase c = s.phase c := by
    intro c other
    rw [phase, update_of_ne other]
  have elsewhere : ∀ c k g, (s.phase c).guard? = some (k, g) → k ≠ key → c ≠ caller := by
    rintro c k g its other rfl
    rw [mine] at its
    cases its
    exact other rfl
  refine ⟨inv.guards.mono ?_ ?_ ?_ (Nat.le_of_eq next.symm), ?_, ?_, ?_, notLate⟩
  · intro c pair its
    by_cases same : c = caller
    · subst same
      rw [mover, still] at its
      rw [mine, its]
    · rwa [kept c same] at its
  · intro c holds
    by_cases same : c = caller
    · subst same
      exact held
    · rwa [kept c same] at holds
  · intro c k g _ _ was
    rw [locked]
    exact was
  · intro k g listed
    rw [inflight] at listed
    obtain ⟨c, its, last⟩ := inv.listed k g listed
    by_cases same : k = key
    · subst same
      have one := inv.guards.shared c caller k g guard its mine
      subst one
      refine ⟨caller, ?_, ?_⟩
      · rw [mover]
        exact still
      · intro done
        rw [mover]
        exact published done listed
    · rw [cached k same]
      refine ⟨c, ?_, ?_⟩
      · rw [kept c (elsewhere c k g its same)]
        exact its
      · rw [kept c (elsewhere c k g its same)]
        exact last
  · intro k done
    by_cases same : k = key
    · subst same
      refine (settled done).imp_right fun publishes => ⟨caller, guard, ?_⟩
      rw [mover]
      exact publishes
    · rw [succeeded k same] at done
      rw [cached k same]
      refine (inv.settled k done).imp_right fun ⟨c, g, publishes⟩ => ⟨c, g, ?_⟩
      have its : (s.phase c).guard? = some (k, g) := by
        rw [publishes]
        rfl
      rw [kept c (elsewhere c k g its same)]
      exact publishes
  · intro c k g early
    by_cases same : c = caller
    · subst same
      rw [mover] at early
      have own : k = key ∧ g = guard := by
        rcases early with rfl | rfl <;> cases still <;> exact ⟨rfl, rfl⟩
      rw [own.1, own.2] at early
      rw [own.1]
      exact unsettled early
    · rw [kept c same] at early
      have its : (s.phase c).guard? = some (k, g) := by
        rcases early with early | early <;> rw [early] <;> rfl
      by_cases mineKey : k = key
      · subst mineKey
        have holds : (s.phase c).holds = true := by
          rcases early with early | early <;> rw [early] <;> rfl
        exact absurd (inv.holder_eq its mine holds held) same
      · rw [succeeded k mineKey]
        exact inv.unsettled c k g early

omit [DecidableEq Key] in
theorem Inv.take (inv : Inv s) (free : (s.phase caller).guard? = none)
    (phase : s'.phase = Function.update s.phase caller (.waiting key guard))
    (locked : s'.locked = s.locked) (next : s.nextGuard ≤ s'.nextGuard)
    (known : guard < s'.nextGuard) (only : ∀ c g, (s.phase c).guard? = some (key, g) → g = guard)
    (cached : s'.cached = s.cached) (succeeded : s'.succeeded = s.succeeded)
    (late : s'.startedLate = s.startedLate)
    (listed : ∀ k g, s'.inflight k = some g → s.inflight k = some g ∨
      k = key ∧ g = guard ∧ s.cached key = false) : Inv s' := by
  have mover : s'.phase caller = .waiting key guard := by
    rw [phase, update_self]
  have kept : ∀ c, c ≠ caller → s'.phase c = s.phase c := by
    intro c other
    rw [phase, update_of_ne other]
  have busy : ∀ c pair, (s.phase c).guard? = some pair → c ≠ caller := by
    rintro c pair its rfl
    rw [free] at its
    cases its
  refine ⟨inv.guards.take phase locked next known only, ?_, ?_, ?_, late.trans inv.notLate⟩
  · intro k g entry
    rw [cached]
    rcases listed k g entry with old | ⟨rfl, rfl, unpublished⟩
    · obtain ⟨c, its, last⟩ := inv.listed k g old
      refine ⟨c, ?_, ?_⟩
      · rw [kept c (busy c _ its)]
        exact its
      · rw [kept c (busy c _ its)]
        exact last
    · refine ⟨caller, ?_, fun done => ?_⟩
      · rw [mover]
        rfl
      · rw [unpublished] at done
        cases done
  · intro k done
    rw [succeeded] at done
    rw [cached]
    refine (inv.settled k done).imp_right fun ⟨c, g, publishes⟩ => ⟨c, g, ?_⟩
    rw [kept c (busy c (k, g) (by rw [publishes]; rfl))]
    exact publishes
  · intro c k g early
    rw [succeeded]
    by_cases same : c = caller
    · subst same
      rw [mover] at early
      rcases early with early | early <;> cases early
    · rw [kept c same] at early
      exact inv.unsettled c k g early

omit [DecidableEq Key] in
theorem Inv.acquire (inv : Inv s)
    (waits : s.phase caller = .waiting key guard) (unlocked : s.locked guard = false)
    (phase : s'.phase = Function.update s.phase caller (.checking key guard))
    (locked : s'.locked = Function.update s.locked guard true)
    (next : s'.nextGuard = s.nextGuard) (inflight : s'.inflight = s.inflight)
    (cached : s'.cached = s.cached) (succeeded : s'.succeeded = s.succeeded)
    (late : s'.startedLate = s.startedLate) : Inv s' := by
  have mover : s'.phase caller = .checking key guard := by
    rw [phase, update_self]
  have kept : ∀ c, c ≠ caller → s'.phase c = s.phase c := by
    intro c other
    rw [phase, update_of_ne other]
  refine ⟨inv.guards.acquire waits unlocked phase locked next, ?_, ?_, ?_, late.trans inv.notLate⟩
  · intro k g listed
    rw [inflight] at listed
    rw [cached]
    obtain ⟨c, its, last⟩ := inv.listed k g listed
    refine ⟨c, ?_, fun done => ?_⟩
    · by_cases same : c = caller
      · subst same
        rw [mover, ← its, waits]
        rfl
      · rw [kept c same]
        exact its
    · have removes := last done
      have other : c ≠ caller := by
        rintro rfl
        rw [waits] at removes
        cases removes
      rw [kept c other]
      exact removes
  · intro k done
    rw [succeeded] at done
    rw [cached]
    refine (inv.settled k done).imp_right fun ⟨c, g, publishes⟩ => ⟨c, g, ?_⟩
    have other : c ≠ caller := by
      rintro rfl
      rw [waits] at publishes
      cases publishes
    rw [kept c other]
    exact publishes
  · intro c k g early
    rw [succeeded]
    by_cases same : c = caller
    · subst same
      rw [mover] at early
      rcases early with early | early <;> cases early
    · rw [kept c same] at early
      exact inv.unsettled c k g early

end Steps

section Run

variable {s : QueryCache Key} {caller : Nat}

theorem Inv.proceed (inv : Inv s)
    (admitted : ∀ key, s.phase caller = .missed key → s.inflight key = none →
      s.cached key = false ∧ ∀ c guard, (s.phase c).guard? ≠ some (key, guard)) :
    Inv (s.proceed caller) := by
  rw [QueryCache.proceed]
  cases at_ : s.phase caller with
  | idle => exact inv
  | computing key guard => exact inv
  | reading key =>
    have free : (s.phase caller).guard? = none := by rw [at_]; rfl
    dsimp only
    split_ifs
    · refine inv.leave (fun k g publishes => ?_) (fun k g mine => ?_)
      · rw [at_] at publishes
        cases publishes
      · rw [free] at mine
        cases mine
    · exact inv.enter_free free rfl
  | missed key =>
    have free : (s.phase caller).guard? = none := by rw [at_]; rfl
    dsimp only
    cases listed : s.inflight key with
    | some guard =>
      obtain ⟨c, its, -⟩ := inv.listed key guard listed
      refine inv.take free rfl rfl (Nat.le_refl _) (inv.guards.taken c key guard its) ?_ rfl rfl
        rfl fun k g old => Or.inl old
      exact fun c' g other => inv.guards.shared c' c key g guard other its
    | none =>
      obtain ⟨unpublished, unused⟩ := admitted key at_ listed
      refine inv.take free rfl rfl (Nat.le_succ _) (Nat.lt_succ_self _) ?_ rfl rfl rfl ?_
      · exact fun c g other => absurd other (unused c g)
      · intro k g entry
        dsimp only at entry
        rw [update_apply] at entry
        split_ifs at entry with same
        · exact Or.inr ⟨same, (Option.some.inj entry).symm, unpublished⟩
        · exact Or.inl entry
  | waiting key guard =>
    dsimp only
    split_ifs with busy
    · exact inv
    · exact inv.acquire at_ (by simpa using busy) rfl rfl rfl rfl rfl rfl rfl
  | checking key guard =>
    have mine : (s.phase caller).guard? = some (key, guard) := by rw [at_]; rfl
    have held : (s.phase caller).holds = true := by rw [at_]; rfl
    dsimp only
    split_ifs with cached
    · refine inv.leave (fun k g publishes => ?_) (fun k g its listed => ?_)
      · rw [at_] at publishes
        cases publishes
      · -- the one that would take the guard out of the table holds it, as this caller does
        rw [mine] at its
        cases its
        obtain ⟨c, other, last⟩ := inv.listed key guard listed
        have removes := last cached
        have same := inv.holder_eq other mine (by rw [removes]; rfl) held
        rw [same, at_] at removes
        cases removes
    · have fresh : s.succeeded key = false := by
        cases done : s.succeeded key with
        | false => rfl
        | true =>
          rcases inv.settled key done with published | ⟨c, g, publishes⟩
          · exact absurd published cached
          · have other : (s.phase c).guard? = some (key, g) := by rw [publishes]; rfl
            have same := inv.holder_eq other mine (by rw [publishes]; rfl) held
            rw [same, at_] at publishes
            cases publishes
      refine inv.advance mine held rfl rfl rfl rfl rfl (fun _ _ => rfl) (fun _ _ => rfl)
        (fun published => absurd published cached) (fun done => ?_) (fun _ => fresh) inv.notLate
      exact absurd (fresh.symm.trans done) (by decide)
  | starting key guard =>
    have mine : (s.phase caller).guard? = some (key, guard) := by rw [at_]; rfl
    have held : (s.phase caller).holds = true := by rw [at_]; rfl
    have fresh := inv.unsettled caller key guard (Or.inl at_)
    refine inv.advance mine held rfl rfl rfl rfl rfl (fun _ _ => rfl) (fun _ _ => rfl) ?_
      (fun done => absurd (fresh.symm.trans done) (by decide)) (fun _ => fresh) ?_
    · intro published listed
      obtain ⟨c, other, last⟩ := inv.listed key guard listed
      have removes := last published
      have same := inv.holder_eq other mine (by rw [removes]; rfl) held
      rw [same, at_] at removes
      cases removes
    · show (s.startedLate || s.succeeded key) = false
      rw [inv.notLate, fresh]
      rfl
  | publishing key guard =>
    have mine : (s.phase caller).guard? = some (key, guard) := by rw [at_]; rfl
    have held : (s.phase caller).holds = true := by rw [at_]; rfl
    refine inv.advance mine held rfl rfl rfl rfl rfl (fun k other => ?_) (fun _ _ => rfl)
      (fun _ _ => rfl) (fun _ => Or.inl ?_) (fun early => early.elim nofun nofun) inv.notLate
    · exact update_of_ne other _ _
    · exact update_self _ _ _
  | removing key guard =>
    have mine : (s.phase caller).guard? = some (key, guard) := by rw [at_]; rfl
    let cleared : QueryCache Key :=
      { s with inflight :=
          if s.inflight key = some guard then update s.inflight key none
          else s.inflight }
    have entries : ∀ k g, cleared.inflight k = some g →
        s.inflight k = some g ∧ (k, g) ≠ (key, guard) := by
      intro k g entry
      dsimp only [cleared] at entry
      split_ifs at entry with own
      · rw [update_apply] at entry
        split_ifs at entry with same
        exact ⟨entry, fun pair => same (Prod.mk.inj pair).1⟩
      · refine ⟨entry, fun pair => own ?_⟩
        obtain ⟨rfl, rfl⟩ := Prod.mk.inj pair
        exact entry
    have invCleared : Inv cleared :=
      ⟨⟨inv.guards.shared, inv.guards.exclusive, inv.guards.locked, inv.guards.taken⟩,
        fun k g entry => inv.listed k g (entries k g entry).1, inv.settled, inv.unsettled,
        inv.notLate⟩
    have left : Inv (cleared.leave caller) := by
      refine invCleared.leave (fun k g publishes => ?_) (fun k g its entry => ?_)
      · have publishes : s.phase caller = .publishing k g := publishes
        rw [at_] at publishes
        cases publishes
      · have its : (s.phase caller).guard? = some (k, g) := its
        rw [mine] at its
        exact absurd (Option.some.inj its).symm (entries k g entry).2
    exact left

theorem Inv.finish (inv : Inv s) (success : Bool) : Inv (s.finish caller success) := by
  rw [QueryCache.finish]
  cases at_ : s.phase caller with
  | computing key guard =>
    have mine : (s.phase caller).guard? = some (key, guard) := by rw [at_]; rfl
    have held : (s.phase caller).holds = true := by rw [at_]; rfl
    have fresh := inv.unsettled caller key guard (Or.inr at_)
    have unpublished : s.cached key = true → s.inflight key = some guard → False := by
      intro published listed
      obtain ⟨c, other, last⟩ := inv.listed key guard listed
      have removes := last published
      have same := inv.holder_eq other mine (by rw [removes]; rfl) held
      rw [same, at_] at removes
      cases removes
    dsimp only
    split_ifs
    · refine inv.advance mine held rfl rfl rfl rfl rfl (fun _ _ => rfl) (fun k other => ?_)
        (fun published listed => (unpublished published listed).elim) (fun _ => Or.inr rfl)
        (fun early => early.elim nofun nofun) inv.notLate
      exact update_of_ne other _ _
    · exact inv.advance mine held rfl rfl rfl rfl rfl (fun _ _ => rfl) (fun _ _ => rfl)
        (fun _ _ => rfl) (fun done => absurd (fresh.symm.trans done) (by decide))
        (fun early => early.elim nofun nofun) inv.notLate
  | idle => exact inv
  | reading key => exact inv
  | missed key => exact inv
  | waiting key guard => exact inv
  | checking key guard => exact inv
  | starting key guard => exact inv
  | publishing key guard => exact inv
  | removing key guard => exact inv

theorem inv_step (input : Nat × CallEvent Key) (admitted : Admitted s input) (inv : Inv s) :
    Inv (s.step input) := by
  obtain ⟨caller, event⟩ := input
  cases event with
  | call key =>
    show Inv (if s.phase caller = .idle then s.enter caller (.reading key) else s)
    split_ifs with at_
    · exact inv.enter_free (by rw [at_]; rfl) rfl
    · exact inv
  | proceed => exact inv.proceed admitted
  | finish success => exact inv.finish success
  | cancel =>
    refine inv.leave (fun k g publishes => ?_) (fun k g mine => (admitted k g mine).2)
    exact (admitted k g (by rw [publishes]; rfl)).1 publishes

/-- Every state of a run of admitted steps keeps lookups to one computation at a time. -/
theorem singleFlight_run {inputs : List (Nat × CallEvent Key)}
    (every : EveryStep step Admitted start inputs) :
    ∀ reached, reached <+: inputs → SingleFlight (reached.foldl step (start : QueryCache Key)) :=
  fun _ initial => (invariant (fun _ input admitted inv => inv_step input admitted inv) inv_start
    (every.of_prefix initial)).singleFlight

theorem phase_step_of_ne {c : Nat} {input : Nat × CallEvent Key} (other : c ≠ input.1) :
    (s.step input).phase c = s.phase c := by
  obtain ⟨caller, event⟩ := input
  have moved : ∀ p, update s.phase caller p c = s.phase c :=
    fun p => update_of_ne other _ _
  cases event with
  | call key =>
    show (if s.phase caller = .idle then s.enter caller (.reading key) else s).phase c = _
    split_ifs
    · exact moved _
    · rfl
  | proceed =>
    show (s.proceed caller).phase c = _
    rw [QueryCache.proceed]
    cases at_ : s.phase caller <;> dsimp only
    case reading key => split_ifs <;> exact moved _
    case missed key => cases s.inflight key <;> exact moved _
    case waiting key guard =>
      split_ifs
      · rfl
      · exact moved _
    case checking key guard => split_ifs <;> exact moved _
    case starting key guard => exact moved _
    case publishing key guard => exact moved _
    case removing key guard => exact moved _
  | finish success =>
    show (s.finish caller success).phase c = _
    rw [QueryCache.finish]
    cases at_ : s.phase caller <;> dsimp only
    case computing key guard => split_ifs <;> exact moved _
  | cancel => exact moved _

theorem phase_foldl_of_ne {c : Nat} {inputs : List (Nat × CallEvent Key)}
    (others : ∀ input ∈ inputs, c ≠ input.1) : (inputs.foldl step s).phase c = s.phase c := by
  induction inputs generalizing s with
  | nil => rfl
  | cons input inputs ih =>
    rw [List.foldl_cons, ih fun later mem => others later (List.mem_cons_of_mem _ mem)]
    exact phase_step_of_ne (others input List.mem_cons_self)

end Run

/-- Two callers look up the same key at the same time: both miss, one computes and publishes, and
the other waits for its guard and finds the result. -/
def lookupTogether : List (Nat × CallEvent String) :=
  [(0, .call "parse"), (1, .call "parse"), (0, .proceed), (1, .proceed), (0, .proceed),
    (1, .proceed), (0, .proceed), (1, .proceed), (0, .proceed), (0, .proceed), (0, .finish true),
    (0, .proceed), (1, .proceed), (0, .proceed), (1, .proceed), (1, .proceed)]

theorem singleFlight_lookupTogether :
    SingleFlight (lookupTogether.foldl step (start : QueryCache String)) := by
  refine singleFlight_run ?_ _ (List.prefix_refl _)
  have free : ∀ {s : QueryCache String} {caller : Nat},
      (∀ key, s.phase caller ≠ .missed key) → Admitted s (caller, .proceed) :=
    fun other key at_ => absurd at_ (other key)
  refine ⟨trivial, trivial, free nofun, free nofun, ?_, ?_, free nofun, free nofun, free nofun,
    free nofun, trivial, free nofun, free nofun, free nofun, free nofun, free nofun, trivial⟩
  · intro key at_ _
    refine ⟨rfl, fun c guard mine => ?_⟩
    by_cases first : c = 0
    · subst first
      cases mine
    · by_cases second : c = 1
      · subst second
        cases mine
      · have idle : CallPhase.guard? (.idle : CallPhase String) = some (key, guard) := by
          rw [← mine, phase_step_of_ne second, phase_step_of_ne first, phase_step_of_ne second,
            phase_step_of_ne first]
          rfl
        cases idle
  · intro key at_ absent
    obtain rfl : "parse" = key := CallPhase.missed.inj at_
    cases absent

/-- A caller that is cancelled while it computes leaves its guard in the table. -/
theorem cancelled_inflight : ¬∀ (inputs reached : List (Nat × CallEvent String)),
    reached <+: inputs → SingleFlight (reached.foldl step (start : QueryCache String)) := by
  intro single
  let inputs : List (Nat × CallEvent String) :=
    [(0, .call "parse"), (0, .proceed), (0, .proceed), (0, .proceed), (0, .proceed), (0, .proceed),
      (0, .cancel)]
  have cleared := (single inputs inputs (List.prefix_refl _)).cleared ?_ "parse"
  · cases cleared
  · intro caller
    by_cases own : caller = 0
    · subst own
      rfl
    · refine phase_foldl_of_ne fun input mem => ?_
      have zero : input.1 = 0 := by
        simp only [inputs, List.mem_cons, List.not_mem_nil, or_false] at mem
        rcases mem with rfl | rfl | rfl | rfl | rfl | rfl | rfl <;> rfl
      rw [zero]
      exact own

end QueryCache

end ContextEngine

/- digest: Conditions on every step of a run, and what a step preserves along the run. -/

import Mathlib.Data.List.Basic

/-!
A run folds a step function over a list of inputs. A condition on a step may look at the state
before it, so a condition on a run is threaded through the states the run passes.
-/

namespace ContextEngine.Runs

open List

variable {S D A : Type} {step : S → D → S}

/-- A condition on every step of a run, each met in the state before the step. -/
def EveryStep (step : S → D → S) (ok : S → D → Prop) : S → List D → Prop
  | _, [] => True
  | s, d :: ds => ok s d ∧ EveryStep step ok (step s d) ds

variable {ok : S → D → Prop}

theorem EveryStep.of_always (always : ∀ s d, ok s d) (s : S) (ds : List D) :
    EveryStep step ok s ds := by
  induction ds generalizing s with
  | nil => trivial
  | cons d ds ih => exact ⟨always s d, ih (step s d)⟩

variable {s : S}

theorem EveryStep.of_prefix {ds reached : List D}
    (every : EveryStep step ok s ds) (initial : reached <+: ds) :
    EveryStep step ok s reached := by
  induction reached generalizing s ds with
  | nil => trivial
  | cons d reached ih =>
    obtain ⟨rest, rfl⟩ := initial
    exact ⟨every.1, ih every.2 (List.prefix_append reached rest)⟩

variable {ds : List D}

theorem EveryStep.last {d : D}
    (every : EveryStep step ok s (ds ++ [d])) : ok (ds.foldl step s) d := by
  induction ds generalizing s with
  | nil => exact every.1
  | cons e ds ih => exact ih every.2

variable {inv : S → Prop}

/-- A condition the invariant implies, along a run whose steps keep the invariant. -/
theorem EveryStep.with_invariant {ok also : S → D → Prop}
    (kept : ∀ s d, ok s d → inv s → inv (step s d)) (implies : ∀ s d, ok s d → inv s → also s d)
    (start : inv s) (every : EveryStep step ok s ds) :
    EveryStep step also s ds := by
  induction ds generalizing s with
  | nil => trivial
  | cons d ds ih => exact ⟨implies s d every.1 start, ih (kept s d every.1 start) every.2⟩

/-- Two conditions that agree in every state of an invariant the steps keep agree on the run. -/
theorem EveryStep.congr {ok ok' : S → D → Prop}
    (kept : ∀ s d, inv s → inv (step s d)) (same : ∀ s d, inv s → (ok s d ↔ ok' s d))
    (start : inv s) (ds : List D) :
    EveryStep step ok s ds ↔ EveryStep step ok' s ds := by
  induction ds generalizing s with
  | nil => exact Iff.rfl
  | cons d ds ih => exact and_congr (same s d start) (ih (kept s d start))

/-- Two conditions agree on a run if they agree in every state of an invariant that the steps of
the run keep where they are admitted. -/
theorem EveryStep.congr_admitted {ok ok' : S → D → Prop}
    (kept : ∀ s, ∀ d ∈ ds, inv s → ok s d → inv (step s d))
    (same : ∀ s, ∀ d ∈ ds, inv s → (ok s d ↔ ok' s d)) (start : inv s) :
    EveryStep step ok s ds ↔ EveryStep step ok' s ds := by
  induction ds generalizing s with
  | nil => exact Iff.rfl
  | cons d ds ih =>
    have head := same s d mem_cons_self start
    have tail : ok s d → (EveryStep step ok (step s d) ds ↔ EveryStep step ok' (step s d) ds) :=
      fun admitted => ih (fun s e mem => kept s e (mem_cons_of_mem d mem))
        (fun s e mem => same s e (mem_cons_of_mem d mem))
        (kept s d mem_cons_self start admitted)
    rw [EveryStep, EveryStep, ← head]
    exact and_congr_right tail

/-- What holds at the start and every admitted step keeps holds at the end. -/
theorem invariant
    (kept : ∀ s d, ok s d → inv s → inv (step s d)) (start : inv s)
    (every : EveryStep step ok s ds) : inv (ds.foldl step s) := by
  induction ds generalizing s with
  | nil => exact start
  | cons d ds ih => exact ih (kept s d every.1 start) every.2

/-- If a step from a good state leads to a good state exactly when it is admitted, every state a
run reaches is good exactly when every step is admitted. -/
theorem invariant_iff
    (step_iff : ∀ s d, inv s → (inv (step s d) ↔ ok s d)) (start : inv s) :
    (∀ reached, reached <+: ds → inv (reached.foldl step s)) ↔ EveryStep step ok s ds := by
  constructor
  · intro always
    induction ds generalizing s with
    | nil => trivial
    | cons d ds ih =>
      have next : inv (step s d) := always [d] (List.prefix_append [d] ds)
      refine ⟨(step_iff s d start).1 next, ih next fun reached initial => ?_⟩
      exact always (d :: reached) (List.cons_prefix_cons.2 ⟨rfl, initial⟩)
  · intro every reached initial
    induction reached generalizing s ds with
    | nil => exact start
    | cons d reached ih =>
      obtain ⟨rest, rfl⟩ := initial
      have next : inv (step s d) := (step_iff s d start).2 every.1
      exact ih next every.2 (List.prefix_append reached rest)

section Fallible

variable {E : Type} {attempt : S → D → Except E S}

theorem bind_eq_ok {α β : Type} {x : Except E α} {f : α → Except E β} {b : β} :
    x >>= f = .ok b ↔ ∃ a, x = .ok a ∧ f a = .ok b := by
  cases x with
  | error e =>
    constructor
    · exact fun failed => by cases failed
    · rintro ⟨a, failed, -⟩
      cases failed
  | ok a =>
    constructor
    · exact fun done => ⟨a, rfl, done⟩
    · rintro ⟨a', same, done⟩
      exact Except.ok.inj same ▸ done

theorem invariant_of_ok {inv : S → Prop} {ds : List D}
    (kept : ∀ d ∈ ds, ∀ s s', attempt s d = .ok s' → inv s → inv s') {s r : S}
    (done : ds.foldlM attempt s = .ok r) (start : inv s) : inv r := by
  induction ds generalizing s with
  | nil => exact Except.ok.inj done ▸ start
  | cons d ds ih =>
    rw [foldlM_cons, bind_eq_ok] at done
    obtain ⟨s', first, rest⟩ := done
    exact ih (fun e mem => kept e (mem_cons_of_mem _ mem)) rest
      (kept d mem_cons_self s s' first start)

/-- What the step of an input establishes and every later step keeps holds of all inputs at the
end. -/
theorem established_of_ok {holds : D → S → Prop} {ds : List D}
    (sets : ∀ d s s', attempt s d = .ok s' → holds d s')
    (kept : ∀ d e s s', attempt s e = .ok s' → holds d s → holds d s') {s r : S}
    (done : ds.foldlM attempt s = .ok r) : ∀ d ∈ ds, holds d r := by
  induction ds generalizing s with
  | nil => exact fun d mem => absurd mem not_mem_nil
  | cons d ds ih =>
    rw [foldlM_cons, bind_eq_ok] at done
    obtain ⟨s', first, rest⟩ := done
    intro e mem
    rcases mem_cons.1 mem with rfl | later
    · exact invariant_of_ok (fun e' _ s s' => kept e e' s s') rest (sets e s s' first)
    · exact ih rest e later

end Fallible

end ContextEngine.Runs

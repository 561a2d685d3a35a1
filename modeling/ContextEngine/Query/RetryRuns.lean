/- digest: Exactly which runs of the retry queue give up in time and forget no request. -/

import Mathlib.Data.List.Nodup
import Mathlib.Data.List.Perm.Subperm
import ContextEngine.Lib.Runs

set_option autoImplicit false

namespace ContextEngine

open List Runs

section Model

variable {Rest : Type} [DecidableEq Rest]

/-- A search request; `rest` holds its sources, filters, limits and overrides. -/
structure QueryOptions (Rest : Type) where
  query : String
  projectId : Int
  rest : Rest
  deriving DecidableEq

structure QueuedQuery (Rest : Type) where
  options : QueryOptions Rest
  enqueuedAt : Nat
  retryCount : Nat

structure RetryQueueConfig where
  maxRetries : Nat
  cooldown : Nat
  maxQueueLen : Nat

/-- The queued searches and the dead letters, the oldest first. -/
structure RetryQueue (Rest : Type) where
  queue : List (QueuedQuery Rest)
  dead : List (QueuedQuery Rest)

/-- How a search ends. -/
inductive SearchOutcome
  | answered
  | retryable
  | rejected
  deriving DecidableEq

/-- How the repetition of a search ends. -/
inductive RetryOutcome
  | viewFailed
  | searched (outcome : SearchOutcome)
  deriving DecidableEq

namespace RetryQueue

def empty : RetryQueue Rest := ⟨[], []⟩

def pushBounded (capacity : Nat) (entries : List (QueuedQuery Rest)) (entry : QueuedQuery Rest) :
    List (QueuedQuery Rest) :=
  if capacity < (entries ++ [entry]).length then (entries ++ [entry]).tail else entries ++ [entry]

variable (config : RetryQueueConfig) (inner : RetryQueue Rest)

/-- Queues a failed search, unless one of the same text is queued. -/
def push (options : QueryOptions Rest)
    (now : Nat) : RetryQueue Rest :=
  if inner.queue.any fun queued => queued.options.query = options.query then inner
  else { inner with queue := pushBounded config.maxQueueLen inner.queue ⟨options, now, 0⟩ }

/-- The three ways out of a drain. -/
structure Drained (Rest : Type) where
  ready : List (QueryOptions Rest)
  remaining : List (QueuedQuery Rest)
  dead : List (QueuedQuery Rest)

def drainEntry (now : Nat) (drained : Drained Rest)
    (entry : QueuedQuery Rest) : Drained Rest :=
  if config.maxRetries ≤ entry.retryCount then
    { drained with dead := pushBounded config.maxQueueLen drained.dead entry }
  else if config.cooldown ≤ now - entry.enqueuedAt then
    { drained with ready := drained.ready ++ [entry.options] }
  else { drained with remaining := drained.remaining ++ [entry] }

/-- Takes the searches that are ready for a retry and buries the exhausted ones. -/
def drainReady (now : Nat) : Drained Rest :=
  inner.queue.foldl (drainEntry config now) ⟨[], [], inner.dead⟩

def clearDead : RetryQueue Rest := { inner with dead := [] }

def search (options : QueryOptions Rest)
    (outcome : SearchOutcome) (now : Nat) : RetryQueue Rest :=
  match outcome with
  | .retryable => inner.push config options now
  | _ => inner

/-- The end of one repetition. -/
def retry (outcome : QueryOptions Rest → RetryOutcome)
    (pushedAt : QueryOptions Rest → Nat) (inner : RetryQueue Rest) (options : QueryOptions Rest) :
    RetryQueue Rest :=
  match outcome options with
  | .viewFailed | .searched .retryable => inner.push config options (pushedAt options)
  | .searched _ => inner

def processRetryQueue (now : Nat)
    (outcome : QueryOptions Rest → RetryOutcome) (pushedAt : QueryOptions Rest → Nat) :
    RetryQueue Rest :=
  let drained := inner.drainReady config now
  drained.ready.foldl (retry config outcome pushedAt) ⟨drained.remaining, drained.dead⟩

end RetryQueue

/-- What happens to a queue, with the readings of the clock. -/
inductive RetryInput (Rest : Type)
  | search (options : QueryOptions Rest) (outcome : SearchOutcome) (now : Nat)
  | processRetryQueue (now : Nat) (outcome : QueryOptions Rest → RetryOutcome)
      (pushedAt : QueryOptions Rest → Nat)
  | clearDead

/-- A queue with a record, kept for the proofs only, of how often each request was repeated since
    its failing search queued it. -/
structure RetryRun (Rest : Type) where
  inner : RetryQueue Rest
  reattempts : QueryOptions Rest → Nat

namespace RetryRun

def start : RetryRun Rest := ⟨RetryQueue.empty, fun _ => 0⟩

/-- The request is queued. -/
def Waiting (run : RetryRun Rest) (options : QueryOptions Rest) : Prop :=
  ∃ entry ∈ run.inner.queue, entry.options = options

/-- The request is on the dead-letter list. -/
def Dead (run : RetryRun Rest) (options : QueryOptions Rest) : Prop :=
  ∃ entry ∈ run.inner.dead, entry.options = options

instance (run : RetryRun Rest) (options : QueryOptions Rest) : Decidable (run.Waiting options) :=
  inferInstanceAs (Decidable (∃ entry ∈ run.inner.queue, entry.options = options))

def step (config : RetryQueueConfig) (run : RetryRun Rest) : RetryInput Rest → RetryRun Rest
  | .search options outcome now =>
    { inner := run.inner.search config options outcome now
      reattempts := fun other =>
        if other = options ∧ outcome = .retryable ∧ ¬run.Waiting options then 0
        else run.reattempts other }
  | .processRetryQueue now outcome pushedAt =>
    { inner := run.inner.processRetryQueue config now outcome pushedAt
      reattempts := fun other =>
        run.reattempts other + if other ∈ (run.inner.drainReady config now).ready then 1 else 0 }
  | .clearDead => { run with inner := run.inner.clearDead }

/-- A repetition that is not queued again. -/
def Settled : RetryOutcome → Prop
  | .searched .answered | .searched .rejected => True
  | _ => False

/-- What a step may do to the requests that wait or are dead. -/
structure StepSound (config : RetryQueueConfig) (run : RetryRun Rest) (input : RetryInput Rest) :
    Prop where
  /-- No request is repeated more often than the queue allows. -/
  bounded : ∀ now outcome pushedAt, input = .processRetryQueue now outcome pushedAt →
    ∀ options ∈ (run.inner.drainReady config now).ready, run.reattempts options < config.maxRetries
  /-- A request that was repeated that often is given up by the next cycle. -/
  givesUp : ∀ now outcome pushedAt, input = .processRetryQueue now outcome pushedAt →
    ∀ options, run.Waiting options → config.maxRetries ≤ run.reattempts options →
      (run.step config input).Dead options
  /-- Dead letters stay until they are cleared. -/
  keepsDead : input ≠ .clearDead → ∀ options, run.Dead options →
    (run.step config input).Dead options
  /-- A search that fails for want of a service waits. -/
  queues : ∀ options now, input = .search options .retryable now →
    (run.step config input).Waiting options
  /-- A waiting request goes on waiting, is given up, or is settled by its own repetition. -/
  forgetsNothing : ∀ options, run.Waiting options →
    (run.step config input).Waiting options ∨ (run.step config input).Dead options ∨
      ∃ now outcome pushedAt, input = .processRetryQueue now outcome pushedAt ∧
        options ∈ (run.inner.drainReady config now).ready ∧ Settled (outcome options)

end RetryRun

end Model

variable {Rest : Type}

namespace RetryQueue

variable {config : RetryQueueConfig} {inner : RetryQueue Rest}

/-- Whether the repetition of a request queues it again. -/
def requeues (outcome : QueryOptions Rest → RetryOutcome) (options : QueryOptions Rest) : Bool :=
  outcome options = .viewFailed || outcome options = .searched .retryable

def cooled (config : RetryQueueConfig) (now : Nat) (entry : QueuedQuery Rest) : Bool :=
  config.cooldown ≤ now - entry.enqueuedAt

variable {capacity : Nat}

theorem pushBounded_of_room {entries : List (QueuedQuery Rest)}
    (room : entries.length < capacity) (entry : QueuedQuery Rest) :
    pushBounded capacity entries entry = entries ++ [entry] := by
  rw [pushBounded, if_neg]
  rw [length_append, length_singleton]
  omega

theorem pushBounded_eq_drop {entries : List (QueuedQuery Rest)}
    (bounded : entries.length ≤ capacity) (entry : QueuedQuery Rest) :
    pushBounded capacity entries entry =
      (entries ++ [entry]).drop ((entries ++ [entry]).length - capacity) := by
  rw [pushBounded]
  split_ifs with exceeds
  · have one : (entries ++ [entry]).length - capacity = 1 := by
      rw [length_append, length_singleton] at exceeds ⊢
      omega
    rw [one, drop_one]
  · have none_over : (entries ++ [entry]).length - capacity = 0 := by omega
    rw [none_over, drop_zero]

theorem foldl_pushBounded {dead : List (QueuedQuery Rest)}
    (bounded : dead.length ≤ capacity) (entries : List (QueuedQuery Rest)) :
    entries.foldl (pushBounded capacity) dead =
      (dead ++ entries).drop ((dead ++ entries).length - capacity) := by
  induction entries generalizing dead with
  | nil =>
    have none_over : (dead ++ []).length - capacity = 0 := by
      rw [append_nil]
      omega
    rw [none_over, drop_zero, append_nil]
    rfl
  | cons entry entries ih =>
    rw [foldl_cons, pushBounded_eq_drop bounded, ih]
    · have split : dead ++ entry :: entries = (dead ++ [entry]) ++ entries := by
        rw [append_assoc, singleton_append]
      have cut : (dead ++ [entry]).length - capacity ≤ (dead ++ [entry]).length :=
        Nat.sub_le _ _
      rw [split, ← drop_append_of_le_length cut, drop_drop]
      congr 1
      rw [length_drop, @List.length_append _ (dead ++ [entry]) entries]
      omega
    · rw [length_drop]
      omega

theorem drainReady_of_zero (none_allowed : config.maxRetries = 0) (now : Nat) :
    inner.drainReady config now =
      ⟨[], [], inner.queue.foldl (pushBounded config.maxQueueLen) inner.dead⟩ := by
  have bury : ∀ (entries dead : List (QueuedQuery Rest)),
      entries.foldl (drainEntry config now) ⟨[], [], dead⟩ =
        ⟨[], [], entries.foldl (pushBounded config.maxQueueLen) dead⟩ := by
    intro entries
    induction entries with
    | nil => exact fun _ => rfl
    | cons entry entries ih =>
      intro dead
      have exhausted : config.maxRetries ≤ entry.retryCount := by omega
      rw [foldl_cons, foldl_cons, drainEntry, if_pos exhausted]
      exact ih _
  exact bury inner.queue inner.dead

/-- New entries are never exhausted, so a drain splits them by whether they have cooled down. -/
theorem drainReady_of_new (allowed : 0 < config.maxRetries)
    (new : ∀ entry ∈ inner.queue, entry.retryCount = 0) (now : Nat) :
    inner.drainReady config now = ⟨(inner.queue.filter (cooled config now)).map (·.options),
        inner.queue.filter (!cooled config now ·), inner.dead⟩ := by
  have split : ∀ (entries : List (QueuedQuery Rest)), (∀ entry ∈ entries, entry.retryCount = 0) →
      ∀ drained, entries.foldl (drainEntry config now) drained =
        ⟨drained.ready ++ (entries.filter (cooled config now)).map (·.options),
          drained.remaining ++ entries.filter (!cooled config now ·), drained.dead⟩ := by
    intro entries new
    induction entries with
    | nil =>
      intro drained
      simp
    | cons entry entries ih =>
      intro drained
      have fresh : ¬config.maxRetries ≤ entry.retryCount := by
        rw [new entry mem_cons_self]
        omega
      have rest := ih fun other mem => new other (mem_cons_of_mem _ mem)
      rw [foldl_cons, rest, drainEntry, if_neg fresh]
      by_cases ready : config.cooldown ≤ now - entry.enqueuedAt
      · simp [cooled, ready]
      · simp [cooled, ready]
  rw [drainReady, split inner.queue new]
  simp

theorem push_of_room (room : inner.queue.length < config.maxQueueLen)
    (options : QueryOptions Rest) (now : Nat) :
    inner.push config options now =
      if inner.queue.any fun queued => queued.options.query = options.query then inner
      else { inner with queue := inner.queue ++ [⟨options, now, 0⟩] } := by
  rw [push, pushBounded_of_room room]

theorem foldl_retry {outcome : QueryOptions Rest → RetryOutcome}
    {pushedAt : QueryOptions Rest → Nat} {ready : List (QueryOptions Rest)}
    (room : inner.queue.length + ready.length ≤ config.maxQueueLen)
    (distinct : (inner.queue.map (·.options.query) ++ ready.map (·.query)).Nodup) :
    ready.foldl (retry config outcome pushedAt) inner =
      { inner with queue := inner.queue ++
          (ready.filter (requeues outcome)).map fun options =>
            ⟨options, pushedAt options, 0⟩ } := by
  induction ready generalizing inner with
  | nil => simp
  | cons options ready ih =>
    rw [length_cons] at room
    have unlisted : inner.queue.any (fun queued => queued.options.query = options.query) =
        false := by
      rw [any_eq_false]
      intro queued mem same
      have inFront := mem_map_of_mem (f := fun entry => entry.options.query) mem
      rw [nodup_append'] at distinct
      refine disjoint_left.1 distinct.2.2 inFront ?_
      rw [of_decide_eq_true same, map_cons]
      exact mem_cons_self
    have tail : (inner.queue.map (·.options.query) ++ ready.map (·.query)).Nodup := by
      refine distinct.sublist (List.Sublist.append_left ?_ _)
      rw [map_cons]
      exact sublist_cons_self _ _
    rw [foldl_cons]
    by_cases again : requeues outcome options = true
    · have pushed : retry config outcome pushedAt inner options =
          { inner with queue := inner.queue ++ [⟨options, pushedAt options, 0⟩] } := by
        have push : retry config outcome pushedAt inner options =
            inner.push config options (pushedAt options) := by
          rw [retry]
          rw [requeues, Bool.or_eq_true, decide_eq_true_eq, decide_eq_true_eq] at again
          rcases again with failed | failed
          · rw [failed]
          · rw [failed]
        rw [push, push_of_room (by omega), unlisted]
        rfl
      rw [pushed, ih]
      · simp [again]
      · rw [length_append, length_singleton]
        omega
      · simpa using distinct
    · have settled : retry config outcome pushedAt inner options = inner := by
        rw [retry]
        rw [requeues, Bool.or_eq_true, decide_eq_true_eq, decide_eq_true_eq] at again
        cases ended : outcome options with
        | viewFailed => exact absurd (Or.inl ended) again
        | searched result =>
          cases result with
          | retryable => exact absurd (Or.inr ended) again
          | answered => rfl
          | rejected => rfl
      rw [settled, ih (by omega) tail]
      simp [again]

end RetryQueue

namespace RetryRun

open RetryQueue

/-- What holds of a queue that is asked for the given texts only. -/
structure Inv (config : RetryQueueConfig) (texts : List String) (run : RetryRun Rest) : Prop where
  distinct : (run.inner.queue.map (·.options.query)).Nodup
  known : ∀ entry ∈ run.inner.queue, entry.options.query ∈ texts
  new : ∀ entry ∈ run.inner.queue, entry.retryCount = 0
  bounded : run.inner.dead.length ≤ config.maxQueueLen
  deathless : 0 < config.maxRetries → run.inner.dead = []

/-- What a step needs for the queue to give up in time and forget nothing: no other request of the
    same text is queued; without retries, the dead-letter list has room for its requests; with
    retries, no waiting request has used them up. -/
def Admitted (config : RetryQueueConfig) (run : RetryRun Rest) : RetryInput Rest → Prop
  | .search options outcome _ => outcome = .retryable →
      ∀ entry ∈ run.inner.queue, entry.options.query = options.query → entry.options = options
  | .processRetryQueue _ _ _ =>
    (config.maxRetries = 0 → ∀ entry ∈ run.inner.dead ++ run.inner.queue,
      ∃ kept ∈ (run.inner.dead ++ run.inner.queue).drop
        ((run.inner.dead ++ run.inner.queue).length - config.maxQueueLen),
        kept.options = entry.options) ∧
    (0 < config.maxRetries → ∀ entry ∈ run.inner.queue,
      run.reattempts entry.options < config.maxRetries)
  | .clearDead => True

def Asks (texts : List String) : RetryInput Rest → Prop
  | .search options _ _ => options.query ∈ texts
  | _ => True

variable {config : RetryQueueConfig} {texts : List String} {run : RetryRun Rest}

theorem Inv.room (inv : Inv config texts run) (few : texts.length < config.maxQueueLen) :
    run.inner.queue.length < config.maxQueueLen := by
  have fits : (run.inner.queue.map (·.options.query)).length ≤ texts.length := by
    refine (List.Nodup.subperm inv.distinct fun text mem => ?_).length_le
    obtain ⟨entry, entryMem, rfl⟩ := mem_map.1 mem
    exact inv.known entry entryMem
  rw [length_map] at fits
  omega

theorem Inv.options_eq (inv : Inv config texts run) {a b : QueuedQuery Rest}
    (aMem : a ∈ run.inner.queue) (bMem : b ∈ run.inner.queue)
    (same : a.options.query = b.options.query) : a = b :=
  inj_on_of_nodup_map inv.distinct aMem bMem same

section Process

variable {now : Nat} {outcome : QueryOptions Rest → RetryOutcome}
  {pushedAt : QueryOptions Rest → Nat}

theorem process_of_zero (inv : Inv config texts run) (none_allowed : config.maxRetries = 0) :
    run.inner.processRetryQueue config now outcome pushedAt =
      ⟨[], (run.inner.dead ++ run.inner.queue).drop
        ((run.inner.dead ++ run.inner.queue).length - config.maxQueueLen)⟩ := by
  rw [processRetryQueue, drainReady_of_zero none_allowed, foldl_pushBounded inv.bounded]
  rfl

theorem cooled_perm (config : RetryQueueConfig) (now : Nat) (queue : List (QueuedQuery Rest)) :
    (queue.filter (!cooled config now ·) ++ queue.filter (cooled config now)).Perm queue := by
  have parts := filter_append_perm (fun entry => !cooled config now entry) queue
  simp only [Bool.not_not] at parts
  exact parts

/-- A cycle with retries keeps what has not cooled down and queues anew what fails again. -/
theorem process_of_pos (inv : Inv config texts run) (few : texts.length < config.maxQueueLen)
    (allowed : 0 < config.maxRetries) :
    run.inner.processRetryQueue config now outcome pushedAt =
      ⟨run.inner.queue.filter (!cooled config now ·) ++
        (((run.inner.queue.filter (cooled config now)).map (·.options)).filter
          (requeues outcome)).map fun options => ⟨options, pushedAt options, 0⟩,
        run.inner.dead⟩ := by
  have parts := cooled_perm config now run.inner.queue
  have room := inv.room few
  rw [processRetryQueue, drainReady_of_new allowed inv.new]
  dsimp only
  rw [foldl_retry]
  · have lengths := parts.length_eq
    rw [length_append] at lengths
    rw [length_map]
    dsimp only
    omega
  · dsimp only
    rw [map_map, Function.comp_def, ← map_append]
    exact (parts.map _).nodup_iff.2 inv.distinct

variable [DecidableEq Rest]

theorem inv_process (inv : Inv config texts run) (few : texts.length < config.maxQueueLen) :
    Inv config texts (run.step config (.processRetryQueue now outcome pushedAt)) := by
  rcases Nat.eq_zero_or_pos config.maxRetries with none_allowed | allowed
  · have next : (run.step config (.processRetryQueue now outcome pushedAt)).inner = _ :=
      process_of_zero inv none_allowed
    refine ⟨?_, ?_, ?_, ?_, fun allowed => by omega⟩
    · rw [next]
      exact nodup_nil
    · rw [next]
      exact fun entry mem => absurd mem not_mem_nil
    · rw [next]
      exact fun entry mem => absurd mem not_mem_nil
    · rw [next]
      dsimp only
      rw [length_drop]
      omega
  · have next : (run.step config (.processRetryQueue now outcome pushedAt)).inner = _ :=
      process_of_pos inv few allowed
    have parts := cooled_perm config now run.inner.queue
    refine ⟨?_, ?_, ?_, ?_, ?_⟩
    · rw [next]
      dsimp only
      rw [map_append, map_map, Function.comp_def]
      have whole := (parts.map (·.options.query)).nodup_iff.2 inv.distinct
      rw [map_append] at whole
      refine whole.sublist (List.Sublist.append_left ?_ _)
      have again : (((run.inner.queue.filter (cooled config now)).map (·.options)).filter
          (requeues outcome)).map (·.query) =
          (((run.inner.queue.filter (cooled config now)).filter
            fun entry => requeues outcome entry.options).map (·.options.query)) := by
        rw [filter_map, map_map]
        rfl
      rw [again]
      exact filter_sublist.map _
    · rw [next]
      intro entry mem
      rcases mem_append.1 mem with kept | again
      · exact inv.known entry (mem_of_mem_filter kept)
      · obtain ⟨options, optionsMem, rfl⟩ := mem_map.1 again
        obtain ⟨source, sourceMem, rfl⟩ := mem_map.1 (mem_of_mem_filter optionsMem)
        exact inv.known source (mem_of_mem_filter sourceMem)
    · rw [next]
      intro entry mem
      rcases mem_append.1 mem with kept | again
      · exact inv.new entry (mem_of_mem_filter kept)
      · obtain ⟨options, -, rfl⟩ := mem_map.1 again
        rfl
    · rw [next]
      exact inv.bounded
    · rw [next]
      exact inv.deathless

end Process

variable [DecidableEq Rest]

theorem inv_step (inv : Inv config texts run) (few : texts.length < config.maxQueueLen)
    {input : RetryInput Rest} (asks : Asks texts input) :
    Inv config texts (run.step config input) := by
  cases input with
  | search options outcome now =>
    cases outcome with
    | answered => exact ⟨inv.distinct, inv.known, inv.new, inv.bounded, inv.deathless⟩
    | rejected => exact ⟨inv.distinct, inv.known, inv.new, inv.bounded, inv.deathless⟩
    | retryable =>
      have next : (run.step config (.search options .retryable now)).inner = _ :=
        push_of_room (inv.room few) options now
      split_ifs at next with listed
      · exact ⟨next ▸ inv.distinct, next ▸ inv.known, next ▸ inv.new, next ▸ inv.bounded,
          next ▸ inv.deathless⟩
      · rw [any_eq_true] at listed
        refine ⟨?_, ?_, ?_, ?_, ?_⟩
        · rw [next]
          dsimp only
          rw [map_append, map_singleton, nodup_append']
          refine ⟨inv.distinct, nodup_singleton _, ?_⟩
          rw [disjoint_singleton]
          intro mem
          obtain ⟨entry, entryMem, same⟩ := mem_map.1 mem
          exact listed ⟨entry, entryMem, decide_eq_true same⟩
        · rw [next]
          intro entry mem
          rcases mem_append.1 mem with old | last
          · exact inv.known entry old
          · rw [mem_singleton.1 last]
            exact asks
        · rw [next]
          intro entry mem
          rcases mem_append.1 mem with old | last
          · exact inv.new entry old
          · rw [mem_singleton.1 last]
        · rw [next]
          exact inv.bounded
        · rw [next]
          exact inv.deathless
  | processRetryQueue now outcome pushedAt => exact inv_process inv few
  | clearDead => exact ⟨inv.distinct, inv.known, inv.new, Nat.zero_le _, fun _ => rfl⟩

theorem search_sound_iff (inv : Inv config texts run) (few : texts.length < config.maxQueueLen)
    (options : QueryOptions Rest) (outcome : SearchOutcome) (now : Nat) :
    StepSound config run (.search options outcome now) ↔
      Admitted config run (.search options outcome now) := by
  cases outcome with
  | answered =>
    refine iff_of_true ⟨nofun, nofun, fun _ _ dead => dead, nofun, fun _ waits => Or.inl waits⟩ ?_
    exact nofun
  | rejected =>
    refine iff_of_true ⟨nofun, nofun, fun _ _ dead => dead, nofun, fun _ waits => Or.inl waits⟩ ?_
    exact nofun
  | retryable =>
    have next : (run.step config (.search options .retryable now)).inner = _ :=
      push_of_room (inv.room few) options now
    constructor
    · intro sound _ entry mem same
      obtain ⟨waiting, waitingMem, asked⟩ := sound.queues options now rfl
      have listed : (run.inner.queue.any fun queued => queued.options.query = options.query) =
          true := any_eq_true.2 ⟨entry, mem, decide_eq_true same⟩
      rw [next, if_pos listed] at waitingMem
      have alike : entry.options.query = waiting.options.query := by rw [same, asked]
      rw [inv.options_eq mem waitingMem alike]
      exact asked
    · intro admitted
      have kept : ∀ entry ∈ run.inner.queue,
          entry ∈ (run.step config (.search options .retryable now)).inner.queue := by
        intro entry mem
        rw [next]
        split_ifs
        · exact mem
        · exact mem_append_left _ mem
      have dead : (run.step config (.search options .retryable now)).inner.dead =
          run.inner.dead := by
        rw [next]
        split_ifs <;> rfl
      refine ⟨nofun, nofun, fun _ other buried => ?_, fun asked at_ same => ?_,
        fun other waits => ?_⟩
      · obtain ⟨entry, mem, alike⟩ := buried
        exact ⟨entry, dead ▸ mem, alike⟩
      · have asked_eq : options = asked := (RetryInput.search.inj same).1
        subst asked_eq
        by_cases listed : (run.inner.queue.any fun queued =>
            queued.options.query = options.query) = true
        · obtain ⟨entry, mem, alike⟩ := any_eq_true.1 listed
          exact ⟨entry, kept entry mem, admitted rfl entry mem (of_decide_eq_true alike)⟩
        · refine ⟨⟨options, now, 0⟩, ?_, rfl⟩
          rw [next, if_neg listed]
          exact mem_append_right _ mem_cons_self
      · obtain ⟨entry, mem, alike⟩ := waits
        exact Or.inl ⟨entry, kept entry mem, alike⟩

section ProcessSound

variable {now : Nat} {outcome : QueryOptions Rest → RetryOutcome}
  {pushedAt : QueryOptions Rest → Nat}

/-- Without retries a cycle is sound exactly if the dead-letter list has room. -/
theorem process_sound_iff_of_zero (inv : Inv config texts run)
    (none_allowed : config.maxRetries = 0) :
    StepSound config run (.processRetryQueue now outcome pushedAt) ↔
      ∀ entry ∈ run.inner.dead ++ run.inner.queue, ∃ kept ∈ (run.inner.dead ++ run.inner.queue).drop
          ((run.inner.dead ++ run.inner.queue).length - config.maxQueueLen),
          kept.options = entry.options := by
  have next : (run.step config (.processRetryQueue now outcome pushedAt)).inner = _ :=
    process_of_zero inv none_allowed
  have dead : (run.step config (.processRetryQueue now outcome pushedAt)).inner.dead =
      (run.inner.dead ++ run.inner.queue).drop
        ((run.inner.dead ++ run.inner.queue).length - config.maxQueueLen) := by
    rw [next]
  have ready : (run.inner.drainReady config now).ready = [] := by
    rw [drainReady_of_zero none_allowed]
  constructor
  · intro sound entry mem
    have buried : (run.step config (.processRetryQueue now outcome pushedAt)).Dead
        entry.options := by
      rcases mem_append.1 mem with old | queued
      · exact sound.keepsDead nofun _ ⟨entry, old, rfl⟩
      · refine sound.givesUp now outcome pushedAt rfl _ ⟨entry, queued, rfl⟩ ?_
        rw [none_allowed]
        exact Nat.zero_le _
    obtain ⟨kept, keptMem, same⟩ := buried
    exact ⟨kept, dead ▸ keptMem, same⟩
  · intro room
    have buried : ∀ entry ∈ run.inner.dead ++ run.inner.queue,
        (run.step config (.processRetryQueue now outcome pushedAt)).Dead entry.options := by
      intro entry mem
      obtain ⟨kept, keptMem, same⟩ := room entry mem
      exact ⟨kept, dead ▸ keptMem, same⟩
    refine ⟨?_, ?_, ?_, nofun, ?_⟩
    · intro at_ ended pushed same options mem
      obtain ⟨rfl, rfl, rfl⟩ := RetryInput.processRetryQueue.inj same
      rw [ready] at mem
      exact absurd mem not_mem_nil
    · intro at_ ended pushed _ options waits _
      obtain ⟨entry, mem, same⟩ := waits
      rw [← same]
      exact buried entry (mem_append_right _ mem)
    · intro _ options was
      obtain ⟨entry, mem, same⟩ := was
      rw [← same]
      exact buried entry (mem_append_left _ mem)
    · intro options waits
      obtain ⟨entry, mem, same⟩ := waits
      rw [← same]
      exact Or.inr (Or.inl (buried entry (mem_append_right _ mem)))

/-- With retries a cycle is sound exactly if no waiting request has used them up. -/
theorem process_sound_iff_of_pos (inv : Inv config texts run)
    (few : texts.length < config.maxQueueLen) (allowed : 0 < config.maxRetries)
    (deathless : run.inner.dead = []) :
    StepSound config run (.processRetryQueue now outcome pushedAt) ↔
      ∀ entry ∈ run.inner.queue, run.reattempts entry.options < config.maxRetries := by
  have next : (run.step config (.processRetryQueue now outcome pushedAt)).inner = _ :=
    process_of_pos inv few allowed
  have ready : (run.inner.drainReady config now).ready =
      (run.inner.queue.filter (cooled config now)).map (·.options) := by
    rw [drainReady_of_new allowed inv.new]
  have dead : (run.step config (.processRetryQueue now outcome pushedAt)).inner.dead = [] := by
    rw [next]
    exact deathless
  constructor
  · intro sound entry mem
    by_contra used
    obtain ⟨buried, buriedMem, -⟩ :=
      sound.givesUp now outcome pushedAt rfl _ ⟨entry, mem, rfl⟩ (Nat.le_of_not_lt used)
    rw [dead] at buriedMem
    exact absurd buriedMem not_mem_nil
  · intro within
    refine ⟨?_, ?_, ?_, nofun, ?_⟩
    · intro at_ ended pushed same options mem
      obtain ⟨rfl, rfl, rfl⟩ := RetryInput.processRetryQueue.inj same
      rw [ready] at mem
      obtain ⟨entry, entryMem, rfl⟩ := mem_map.1 mem
      exact within entry (mem_of_mem_filter entryMem)
    · intro at_ ended pushed _ options waits used
      obtain ⟨entry, mem, rfl⟩ := waits
      exact absurd (within entry mem) (Nat.not_lt_of_le used)
    · intro _ options was
      obtain ⟨entry, mem, -⟩ := was
      rw [deathless] at mem
      exact absurd mem not_mem_nil
    · intro options waits
      obtain ⟨entry, mem, rfl⟩ := waits
      by_cases cool : cooled config now entry = true
      · have drained : entry.options ∈ (run.inner.queue.filter (cooled config now)).map
            (·.options) := mem_map_of_mem (mem_filter.2 ⟨mem, cool⟩)
        by_cases again : requeues outcome entry.options = true
        · refine Or.inl ⟨⟨entry.options, pushedAt entry.options, 0⟩, ?_, rfl⟩
          rw [next]
          exact mem_append_right _ (mem_map_of_mem (mem_filter.2 ⟨drained, again⟩))
        · refine Or.inr (Or.inr ⟨now, outcome, pushedAt, rfl, ready ▸ drained, ?_⟩)
          rw [requeues, Bool.or_eq_true, decide_eq_true_eq, decide_eq_true_eq] at again
          cases ended : outcome entry.options with
          | viewFailed => exact absurd (Or.inl ended) again
          | searched result =>
            cases result with
            | retryable => exact absurd (Or.inr ended) again
            | answered => trivial
            | rejected => trivial
      · refine Or.inl ⟨entry, ?_, rfl⟩
        rw [next]
        exact mem_append_left _ (mem_filter.2 ⟨mem, by simpa using cool⟩)

end ProcessSound

theorem step_sound_iff (inv : Inv config texts run) (few : texts.length < config.maxQueueLen)
    (input : RetryInput Rest) : StepSound config run input ↔ Admitted config run input := by
  cases input with
  | search options outcome now => exact search_sound_iff inv few options outcome now
  | processRetryQueue now outcome pushedAt =>
    rcases Nat.eq_zero_or_pos config.maxRetries with none_allowed | allowed
    · rw [process_sound_iff_of_zero inv none_allowed]
      exact ⟨fun room => ⟨fun _ => room, fun pos => by omega⟩,
        fun admitted => admitted.1 none_allowed⟩
    · rw [process_sound_iff_of_pos inv few allowed (inv.deathless allowed)]
      exact ⟨fun within => ⟨fun none_allowed => by omega, fun _ => within⟩,
        fun admitted => admitted.2 allowed⟩
  | clearDead =>
    refine iff_of_true ⟨nofun, nofun, fun other => absurd rfl other, nofun, ?_⟩ trivial
    exact fun _ waits => Or.inl waits

omit [DecidableEq Rest] in
theorem inv_start : Inv config texts (start : RetryRun Rest) where
  distinct := nodup_nil
  known _ mem := absurd mem not_mem_nil
  new _ mem := absurd mem not_mem_nil
  bounded := Nat.zero_le _
  deathless _ := rfl

def defaultConfig : RetryQueueConfig where
  maxRetries := 3
  cooldown := 30
  maxQueueLen := 1024

def repeatedOnce : List (RetryInput Unit) :=
  [.search ⟨"parse config", 1, ()⟩ .retryable 0,
    .processRetryQueue 30 (fun _ => .searched .answered) (fun _ => 31)]

end RetryRun

/-- A call of a method, which holds the lock of the queue throughout. -/
inductive RetryCall (Rest : Type)
  | push (options : QueryOptions Rest) (now : Nat)
  | drainReady (now : Nat)
  | clear
  | clearDead

namespace RetryQueue

variable {config : RetryQueueConfig} {inner : RetryQueue Rest}

def call (config : RetryQueueConfig) (inner : RetryQueue Rest) : RetryCall Rest → RetryQueue Rest
  | .push options now => inner.push config options now
  | .drainReady now =>
    { queue := (inner.drainReady config now).remaining, dead := (inner.drainReady config now).dead }
  | .clear => { inner with queue := [] }
  | .clearDead => inner.clearDead

/-- Both lists are bounded, no text is queued twice, and what is queued is never exhausted. -/
structure Bounded (config : RetryQueueConfig) (inner : RetryQueue Rest) : Prop where
  queue : inner.queue.length ≤ config.maxQueueLen
  dead : inner.dead.length ≤ config.maxQueueLen
  distinct : (inner.queue.map (·.options.query)).Nodup
  new : ∀ entry ∈ inner.queue, entry.retryCount = 0
  deathless : 0 < config.maxRetries → inner.dead = []

theorem Bounded.push (bounded : Bounded config inner) (options : QueryOptions Rest) (now : Nat) :
    Bounded config (inner.push config options now) := by
  rw [RetryQueue.push]
  split_ifs with listed
  · exact bounded
  · let added : QueuedQuery Rest := ⟨options, now, 0⟩
    have distinct : ((inner.queue ++ [added]).map (·.options.query)).Nodup := by
      rw [map_append, map_singleton, ← concat_eq_append]
      refine bounded.distinct.concat fun mem => listed ?_
      obtain ⟨queued, queuedMem, same⟩ := mem_map.1 mem
      exact any_eq_true.2 ⟨queued, queuedMem, decide_eq_true same⟩
    have shorter : (pushBounded config.maxQueueLen inner.queue added).Sublist
        (inner.queue ++ [added]) := by
      rw [pushBounded_eq_drop bounded.queue]
      apply drop_sublist
    refine ⟨?_, bounded.dead, distinct.sublist (shorter.map _), ?_, bounded.deathless⟩
    · dsimp only
      rw [pushBounded_eq_drop bounded.queue, length_drop]
      omega
    · intro entry mem
      rcases mem_append.1 (shorter.subset mem) with before | last
      · exact bounded.new entry before
      · rw [mem_singleton.1 last]

theorem Bounded.drainReady (bounded : Bounded config inner) (now : Nat) :
    Bounded config (inner.call config (.drainReady now)) := by
  rw [call]
  rcases Nat.eq_zero_or_pos config.maxRetries with none_allowed | allowed
  · rw [drainReady_of_zero none_allowed, foldl_pushBounded bounded.dead]
    refine ⟨Nat.zero_le _, ?_, nodup_nil, fun _ mem => absurd mem not_mem_nil, by omega⟩
    rw [length_drop]
    omega
  · rw [drainReady_of_new allowed bounded.new]
    have kept : (inner.queue.filter (!cooled config now ·)).Sublist inner.queue := filter_sublist
    exact ⟨Nat.le_trans kept.length_le bounded.queue, bounded.dead,
      bounded.distinct.sublist (kept.map _),
      fun entry mem => bounded.new entry (kept.subset mem), bounded.deathless⟩

/-- However the calls of concurrent searches and cycles interleave, the queue is bounded, and it
buries nothing unless retries are turned off. -/
theorem bounded_calls (config : RetryQueueConfig) (calls : List (RetryCall Rest)) :
    Bounded config (calls.foldl (call config) empty) := by
  refine foldlRecOn calls (call config) (motive := Bounded config) ?_ fun inner bounded next _ => ?_
  · exact ⟨Nat.zero_le _, Nat.zero_le _, nodup_nil, fun _ mem => absurd mem not_mem_nil,
      fun _ => rfl⟩
  · cases next with
    | push options now => exact bounded.push options now
    | drainReady now => exact bounded.drainReady now
    | clear =>
      exact ⟨Nat.zero_le _, bounded.dead, nodup_nil, fun _ mem => absurd mem not_mem_nil,
        bounded.deathless⟩
    | clearDead =>
      exact ⟨bounded.queue, Nat.zero_le _, bounded.distinct, bounded.new, fun _ => rfl⟩

end RetryQueue

end ContextEngine

/- digest: The relation snapshot a project serves, and in which runs it follows the store. -/

import ContextEngine.Index.SnapshotIndex
import ContextEngine.Lib.Runs
import ContextEngine.Types.Canonical

set_option autoImplicit false

namespace ContextEngine

inductive RelationRuntimeState
  | disabled | unloaded | loading | available | updating | degraded
  deriving DecidableEq

inductive SnapshotIntegrity
  | full | partialSnapshot | empty
  deriving DecidableEq

structure PublishedSnapshot where
  projectId : Int
  relationEpoch : Int
  index : LayeredSnapshotIndex
  integrity : SnapshotIntegrity
  manifestId : Option String

structure RuntimeMetadata where
  lastError : Option String := none
  lastSuccessfulEpoch : Int := 0
  failureCount : Nat := 0

structure RelationRuntime where
  projectId : Int
  state : RelationRuntimeState := .unloaded
  publishedSnapshot : Option PublishedSnapshot := none
  metadata : RuntimeMetadata := {}

namespace RelationRuntime

def new (projectId : Int) : RelationRuntime := { projectId }

variable (runtime : RelationRuntime)

def setState (state : RelationRuntimeState) : RelationRuntime :=
  { runtime with state }

def setUpdating : RelationRuntime := runtime.setState .updating

/-- Report a failure and transition to the degraded state; an old snapshot is still served. -/
def reportFailure (error : String) : RelationRuntime :=
  { runtime with
    state := .degraded
    metadata := { runtime.metadata with
      lastError := some error, failureCount := runtime.metadata.failureCount + 1 } }

def servesAfter (relationEpoch : Int) : Bool :=
  runtime.publishedSnapshot.any fun current => relationEpoch < current.relationEpoch

/-- Publish a layered snapshot, unless the served one is newer. `publish_snapshot` does the same for
    a base without deltas. -/
def publishLayeredSnapshot (layered : LayeredSnapshotIndex)
    (relationEpoch : Int) (integrity : SnapshotIntegrity) (manifestId : Option String) :
    RelationRuntime :=
  if runtime.servesAfter relationEpoch then runtime
  else { runtime with
    publishedSnapshot := some
      { projectId := runtime.projectId, relationEpoch, index := layered, integrity, manifestId }
    state := .available
    metadata := { lastError := none, lastSuccessfulEpoch := relationEpoch, failureCount := 0 } }

end RelationRuntime

/-- An error of a call: a rejected input, a lost race, or what the database reported. -/
inductive StorageError
  | validation (text : String)
  | epochConflict (active base : Int)
  | store (text : String)
  deriving DecidableEq

def StorageError.text : StorageError → String
  | .validation text => "Validation failed: " ++ text
  | .epochConflict active base =>
    "Epoch conflict: active_epoch=" ++ toString active ++ " != base_epoch=" ++ toString base
  | .store text => text

structure RelationPublication where
  relationEpoch : Int
  snapshot : LayeredSnapshotIndex

/-- What the fallible steps of a call yield. -/
structure StepResults where
  /-- `project_meta_get_int("active_relation_epoch")` -/
  activeEpoch : Except StorageError Int
  /-- `RelationSnapshotLoader::load` of the active or base epoch -/
  load : Except StorageError RelationIndex
  /-- the configuration fingerprint in the manifest of the active epoch, if there is one -/
  manifest : Except StorageError (Option String)
  /-- `to_canonical_snapshot` under this fingerprint -/
  export_ : String → Except String CanonicalRelationSnapshot
  /-- `validate_snapshot` or `validate_delta_scoped` -/
  validation : Except String Unit
  /-- the transaction that allocates an epoch and writes the snapshot or the delta -/
  write : Except StorageError Int
  /-- `has_project_publication_candidate` -/
  candidate : Except StorageError Bool
  /-- `active_data_epoch` -/
  dataEpoch : Except StorageError Int
  /-- `ProjectIndexManifestRepository::activate`, for the data epoch -/
  activate : Int → Except StorageError Unit

/-- How a call ends. It returns the publication whether or not it activated the epoch. -/
inductive CallEnd
  | failed (error : StorageError)
  | deferred (publication : RelationPublication)
  | activated (publication : RelationPublication)

namespace RelationPublisher

open RelationRuntime Runs

def integrity (snapshot : CanonicalRelationSnapshot) : SnapshotIntegrity :=
  if snapshot.files.isEmpty && snapshot.entities.isEmpty && snapshot.relations.isEmpty &&
      snapshot.dependencies.isEmpty then .empty else .full

variable (runtime : RelationRuntime) (results : StepResults)

def activateAndPublish
    (layered : LayeredSnapshotIndex) (epoch : Int) (level : SnapshotIntegrity)
    (manifestId : String) : RelationRuntime × CallEnd :=
  match results.dataEpoch with
  -- returned by `?`, with nothing reported
  | .error error => (runtime, .failed error)
  | .ok dataEpoch =>
    match results.activate dataEpoch with
    | .error error => (runtime.reportFailure error.text, .failed error)
    | .ok () =>
      (runtime.publishLayeredSnapshot layered epoch level (some manifestId),
        .activated ⟨epoch, layered⟩)

/-- `publish` and `publish_delta` leave the activation to another operation's candidate. -/
def unlessCandidate
    (layered : LayeredSnapshotIndex) (epoch : Int) (level : SnapshotIntegrity)
    (manifestId : String) : RelationRuntime × CallEnd :=
  match results.candidate with
  -- returned by `?`, with nothing reported
  | .error error => (runtime, .failed error)
  | .ok true => (runtime, .deferred ⟨epoch, layered⟩)
  | .ok false => activateAndPublish runtime results layered epoch level manifestId

/-- A step whose failure is reported before it is returned. -/
def reported {α : Type} (result : Except StorageError α)
    (next : α → RelationRuntime × CallEnd) : RelationRuntime × CallEnd :=
  match result with
  | .error error => (runtime.reportFailure error.text, .failed error)
  | .ok value => next value

def checked {α : Type} (result : Except String α)
    (returned : String → StorageError) (next : α → RelationRuntime × CallEnd) :
    RelationRuntime × CallEnd :=
  match result with
  | .error text => (runtime.reportFailure text, .failed (returned text))
  | .ok value => next value

def baseOnly (index : RelationIndex) : LayeredSnapshotIndex :=
  ⟨RelationSnapshotIndex.fromIndexShared index, []⟩

variable (operationId : String)

def publishChecked
    (snapshot : CanonicalRelationSnapshot) (index : RelationIndex) : RelationRuntime × CallEnd :=
  let updating := runtime.setUpdating
  checked updating results.validation .validation fun _ =>
    reported updating results.write fun epoch =>
      unlessCandidate updating results (baseOnly index) epoch (integrity snapshot) operationId

def publish
    (snapshot : CanonicalRelationSnapshot) (index : RelationIndex) : RelationRuntime × CallEnd :=
  match snapshot.baseRelationEpoch with
  | none => publishChecked runtime results operationId snapshot index
  | some baseEpoch =>
    match results.activeEpoch with
    | .error error => (runtime, .failed (.validation
        ("cannot read active epoch for CAS: " ++ error.text)))
    | .ok activeEpoch =>
      if activeEpoch ≠ baseEpoch then (runtime, .failed (.epochConflict activeEpoch baseEpoch))
      else publishChecked runtime results operationId snapshot index

/-- The view a delta is applied to: the one supplied, or the base loaded from the store. -/
def scopedBase (base : Option LayeredSnapshotIndex) (results : StepResults) :
    Except StorageError LayeredSnapshotIndex :=
  match base with
  | some view => .ok view
  | none => results.load.map baseOnly

def publishDelta (projectId : Int)
    (operationId : String) (delta : SnapshotDelta) (base : Option LayeredSnapshotIndex) :
    RelationRuntime × CallEnd :=
  match results.activeEpoch with
  | .error error => (runtime, .failed (.validation
      ("cannot read active epoch for CAS: " ++ error.text)))
  | .ok activeEpoch =>
    if activeEpoch ≠ delta.baseEpoch then
      (runtime, .failed (.epochConflict activeEpoch delta.baseEpoch))
    else
      let updating := runtime.setUpdating
      reported updating (scopedBase base results) fun view =>
        checked updating results.validation (fun text => .validation
            ("relation delta " ++ toString projectId ++ "@" ++ toString activeEpoch ++
              " failed scoped validation: " ++ text)) fun _ =>
          reported updating results.write fun epoch =>
            unlessCandidate updating results { view with deltas := view.deltas ++ [delta] } epoch
              .full operationId

def compactLoaded (updating : RelationRuntime) (results : StepResults) (operationId : String)
    (fullIndex : RelationIndex) (configFingerprint : String) : RelationRuntime × CallEnd :=
  checked updating (results.export_ configFingerprint) .validation fun snapshot =>
    reported updating results.write fun epoch =>
      activateAndPublish updating results (baseOnly fullIndex) epoch (integrity snapshot)
        (operationId ++ "-compaction")

/-- The deltas that the merged snapshot replaces are collected in between; that this may fail
    changes nothing. -/
def compactProject :
    RelationRuntime × CallEnd :=
  match results.activeEpoch with
  | .error error => (runtime, .failed (.validation ("cannot read active epoch: " ++ error.text)))
  | .ok activeEpoch =>
    if activeEpoch ≤ 0 then (runtime, .failed (.validation "no active epoch to compact"))
    else
      let updating := runtime.setUpdating
      reported updating results.load fun fullIndex =>
        match results.manifest with
        -- both returned by `?`, with nothing reported
        | .error error => (updating, .failed (.validation
            ("cannot read manifest: " ++ error.text)))
        | .ok none => (updating, .failed (.validation "active epoch manifest missing"))
        | .ok (some configFingerprint) =>
          compactLoaded updating results operationId fullIndex configFingerprint

inductive PublicationCall
  | publish (operationId : String) (snapshot : CanonicalRelationSnapshot) (index : RelationIndex)
  | publishDelta (operationId : String) (delta : SnapshotDelta) (base : Option LayeredSnapshotIndex)
  | compactProject (operationId : String)

def perform : PublicationCall × StepResults → RelationRuntime × CallEnd
  | (.publish operationId snapshot index, results) =>
    publish runtime results operationId snapshot index
  | (.publishDelta operationId delta base, results) =>
    publishDelta runtime results runtime.projectId operationId delta base
  | (.compactProject operationId, results) => compactProject runtime results operationId

def afterCall (call : PublicationCall × StepResults) :
    RelationRuntime := (perform runtime call).1

/-- No call is in progress, and what is available is there. -/
structure Idle (runtime : RelationRuntime) : Prop where
  notUpdating : runtime.state ≠ .updating
  present : runtime.state = .available → runtime.publishedSnapshot.isSome

/-- A call that ends well: the runtime is idle again, serves no older epoch than before, and an
activated epoch is the one it serves. -/
structure EndsWell (start : RelationRuntime) (ending : RelationRuntime × CallEnd) : Prop where
  idle : Idle ending.1
  monotone : ∀ old, start.publishedSnapshot = some old →
    ∃ served, ending.1.publishedSnapshot = some served ∧ old.relationEpoch ≤ served.relationEpoch
  served : ∀ publication, ending.2 = .activated publication →
    ∃ served, ending.1.publishedSnapshot = some served ∧
      served.relationEpoch = publication.relationEpoch ∧ served.index = publication.snapshot

variable (start : RelationRuntime)

/-- The active data epoch can be read, and the epoch is not activated behind a newer one. -/
def Activates (results : StepResults) (epoch : Int) : Prop :=
  ∃ dataEpoch, results.dataEpoch = .ok dataEpoch ∧
    (results.activate dataEpoch = .ok () → start.servesAfter epoch = false)

/-- Moreover no other operation has a candidate. -/
def ActivatesAlone (results : StepResults) (epoch : Int) : Prop :=
  results.candidate = .ok false ∧ Activates start results epoch

/-- Where a call gets as far as writing an epoch, none of the silent exits is taken. -/
def FollowsStore : PublicationCall × StepResults → Prop
  | (.publish _ snapshot _, results) =>
    (∀ baseEpoch, snapshot.baseRelationEpoch = some baseEpoch →
      results.activeEpoch = .ok baseEpoch) → results.validation = .ok () →
        ∀ epoch, results.write = .ok epoch → ActivatesAlone start results epoch
  | (.publishDelta _ delta base, results) =>
    results.activeEpoch = .ok delta.baseEpoch → (∃ view, scopedBase base results = .ok view) →
      results.validation = .ok () →
        ∀ epoch, results.write = .ok epoch → ActivatesAlone start results epoch
  | (.compactProject _, results) =>
    ∀ activeEpoch, results.activeEpoch = .ok activeEpoch → 0 < activeEpoch →
      ∀ index, results.load = .ok index →
        ∃ fingerprint, results.manifest = .ok (some fingerprint) ∧
          ∀ snapshot, results.export_ fingerprint = .ok snapshot →
            ∀ epoch, results.write = .ok epoch → Activates start results epoch

section Exits

variable {start : RelationRuntime} {results : StepResults}

theorem endsWell_unchanged (idle : Idle start) (error : StorageError) :
    EndsWell start (start, .failed error) where
  idle := idle
  monotone old found := ⟨old, found, Int.le_refl _⟩
  served publication ended := by cases ended

theorem endsWell_reportFailure (text : String) (error : StorageError) :
    EndsWell start (start.setUpdating.reportFailure text, .failed error) where
  idle := ⟨nofun, nofun⟩
  monotone old found := ⟨old, found, Int.le_refl _⟩
  served publication ended := by cases ended

theorem not_endsWell_updating (ending : CallEnd) :
    ¬ EndsWell start (start.setUpdating, ending) := fun well => well.idle.notUpdating rfl

theorem endsWell_reported_iff {α : Type} {result : Except StorageError α}
    {next : α → RelationRuntime × CallEnd} :
    EndsWell start (reported start.setUpdating result next) ↔
      ∀ value, result = .ok value → EndsWell start (next value) := by
  unfold reported
  cases result with
  | error error =>
    exact ⟨fun _ _ => nofun, fun _ => endsWell_reportFailure _ _⟩
  | ok value =>
    constructor
    · rintro well _ same
      cases same
      exact well
    · exact fun all => all value rfl

theorem endsWell_checked_iff {α : Type} {result : Except String α}
    {returned : String → StorageError} {next : α → RelationRuntime × CallEnd} :
    EndsWell start (checked start.setUpdating result returned next) ↔
      ∀ value, result = .ok value → EndsWell start (next value) := by
  unfold checked
  cases result with
  | error text =>
    exact ⟨fun _ _ => nofun, fun _ => endsWell_reportFailure _ _⟩
  | ok value =>
    constructor
    · rintro well _ same
      cases same
      exact well
    · exact fun all => all value rfl

variable {layered : LayeredSnapshotIndex} {level : SnapshotIntegrity} {epoch : Int}

theorem endsWell_publishLayeredSnapshot_iff {manifestId : Option String} :
    EndsWell start (start.setUpdating.publishLayeredSnapshot layered epoch level manifestId,
      .activated ⟨epoch, layered⟩) ↔ start.servesAfter epoch = false := by
  have same : start.setUpdating.servesAfter epoch = start.servesAfter epoch := rfl
  unfold publishLayeredSnapshot
  rw [same]
  cases newer : start.servesAfter epoch with
  | true => simp [not_endsWell_updating]
  | false =>
    simp only [Bool.false_eq_true, if_false, iff_true]
    refine ⟨⟨nofun, fun _ => rfl⟩, fun old found => ?_,
      fun publication ended => ?_⟩
    · refine ⟨_, rfl, ?_⟩
      rw [servesAfter, found, Option.any_some, decide_eq_false_iff_not] at newer
      exact Int.not_lt.1 newer
    · cases ended
      exact ⟨_, rfl, rfl, rfl⟩

theorem endsWell_activateAndPublish_iff {manifestId : String} :
    EndsWell start (activateAndPublish start.setUpdating results layered epoch level manifestId) ↔
      Activates start results epoch := by
  unfold activateAndPublish Activates
  cases data : results.dataEpoch with
  | error error => simp [not_endsWell_updating]
  | ok dataEpoch =>
    simp only [Except.ok.injEq, exists_eq_left']
    cases activated : results.activate dataEpoch with
    | error error => simp [endsWell_reportFailure]
    | ok done => simp [endsWell_publishLayeredSnapshot_iff]

theorem endsWell_unlessCandidate_iff {manifestId : String} :
    EndsWell start (unlessCandidate start.setUpdating results layered epoch level manifestId) ↔
      ActivatesAlone start results epoch := by
  unfold unlessCandidate ActivatesAlone
  cases candidate : results.candidate with
  | error error => simp [not_endsWell_updating]
  | ok other =>
    cases other with
    | true => simp [not_endsWell_updating]
    | false => simp [endsWell_activateAndPublish_iff]

end Exits

section Calls

variable {start : RelationRuntime} {results : StepResults} {op : String}

theorem endsWell_publishChecked_iff {snapshot : CanonicalRelationSnapshot}
    {index : RelationIndex} :
    EndsWell start (publishChecked start results op snapshot index) ↔ (results.validation = .ok () →
        ∀ epoch, results.write = .ok epoch → ActivatesAlone start results epoch) := by
  simp only [publishChecked, endsWell_checked_iff, endsWell_reported_iff,
    endsWell_unlessCandidate_iff, Unique.forall_iff]

theorem endsWell_publish_iff (idle : Idle start)
    {snapshot : CanonicalRelationSnapshot} {index : RelationIndex} :
    EndsWell start (publish start results op snapshot index) ↔
      FollowsStore start (.publish op snapshot index, results) := by
  simp only [FollowsStore]
  unfold publish
  cases base : snapshot.baseRelationEpoch with
  | none => simp [endsWell_publishChecked_iff]
  | some baseEpoch =>
    cases active : results.activeEpoch with
    | error error => simp [endsWell_unchanged idle]
    | ok activeEpoch =>
      by_cases same : activeEpoch = baseEpoch
      · simp [same, endsWell_publishChecked_iff]
      · simp [same, endsWell_unchanged idle]

theorem endsWell_publishDelta_iff (idle : Idle start)
    {delta : SnapshotDelta} {base : Option LayeredSnapshotIndex} :
    EndsWell start (publishDelta start results start.projectId op delta base) ↔
      FollowsStore start (.publishDelta op delta base, results) := by
  simp only [FollowsStore]
  unfold publishDelta
  cases active : results.activeEpoch with
  | error error => simp [endsWell_unchanged idle]
  | ok activeEpoch =>
    by_cases same : activeEpoch = delta.baseEpoch
    · simp only [same, ne_eq, not_true_eq_false, if_false, endsWell_reported_iff,
        endsWell_checked_iff, endsWell_unlessCandidate_iff, forall_exists_index, true_imp_iff]
      exact ⟨fun all view found valid epoch => all view found () valid epoch,
        fun all view found _ valid epoch => all view found valid epoch⟩
    · simp [same, endsWell_unchanged idle]

theorem endsWell_compactProject_iff (idle : Idle start) :
    EndsWell start (compactProject start results op) ↔
      FollowsStore start (.compactProject op, results) := by
  simp only [FollowsStore]
  unfold compactProject
  cases active : results.activeEpoch with
  | error error => simp [endsWell_unchanged idle]
  | ok activeEpoch =>
    by_cases none_ : activeEpoch ≤ 0
    · simp [none_, endsWell_unchanged idle, Int.not_lt.2 none_]
    · simp only [none_, if_false, endsWell_reported_iff, Except.ok.injEq, forall_eq',
        Int.not_le.1 none_, true_imp_iff]
      refine forall_congr' fun index => imp_congr_right fun _ => ?_
      cases manifest : results.manifest with
      | error error => simp [not_endsWell_updating]
      | ok stored =>
        cases stored with
        | none => simp [not_endsWell_updating]
        | some fingerprint =>
          simp [compactLoaded, endsWell_checked_iff, endsWell_reported_iff,
            endsWell_activateAndPublish_iff]

theorem endsWell_perform_iff (idle : Idle start) (call : PublicationCall × StepResults) :
    EndsWell start (perform start call) ↔ FollowsStore start call := by
  obtain ⟨call, results⟩ := call
  cases call with
  | publish operationId snapshot index => exact endsWell_publish_iff idle
  | publishDelta operationId delta base => exact endsWell_publishDelta_iff idle
  | compactProject operationId => exact endsWell_compactProject_iff idle

end Calls

section Run

/-- Every call of a run ends well exactly if none takes a silent exit behind its write. -/
theorem runtime_follows_store_iff {start : RelationRuntime} (idle : Idle start)
    (calls : List (PublicationCall × StepResults)) :
    EveryStep afterCall (fun runtime call => EndsWell runtime (perform runtime call)) start calls ↔
      EveryStep afterCall FollowsStore start calls :=
  EveryStep.congr_admitted (fun _ _ _ _ well => well.idle)
    (fun _ call _ idle => endsWell_perform_iff idle call) idle

/-- A database in which every step succeeds and no other operation has a candidate. -/
def allWell : StepResults where
  activeEpoch := .ok 0
  load := .ok default
  manifest := .ok (some "")
  export_ fingerprint := .ok (emptyFull fingerprint)
  validation := .ok ()
  write := .ok 1
  candidate := .ok false
  dataEpoch := .ok 0
  activate _ := .ok ()
where
  emptyFull (configFingerprint : String) : CanonicalRelationSnapshot :=
    { configFingerprint, files := [], entities := [], relations := [], dependencies := [] }

theorem idle_new (projectId : Int) : Idle (new projectId) where
  notUpdating updating := by cases updating
  present available := by cases available

def firstPublish : PublicationCall := .publish "index-1" (allWell.emptyFull "") default

/-- A publication, an increment that fails its validation, the same increment again, and a
compaction. -/
def publishUpdateCompact : List (PublicationCall × StepResults) :=
  [(firstPublish, allWell),
    (.publishDelta "update-1" increment none,
      { allWell with activeEpoch := .ok 1, validation := .error "dangling endpoint" }),
    (.publishDelta "update-1" increment none,
      { allWell with activeEpoch := .ok 1, write := .ok 2 }),
    (.compactProject "compact-1", { allWell with activeEpoch := .ok 2, write := .ok 3 })]
where
  increment : SnapshotDelta := { epoch := 2, baseEpoch := 1, configFingerprint := "" }

theorem publishUpdateCompact_follows_store_iff :
    EveryStep afterCall (fun runtime call => EndsWell runtime (perform runtime call)) (new 1)
        publishUpdateCompact ↔
      EveryStep afterCall FollowsStore (new 1) publishUpdateCompact :=
  runtime_follows_store_iff (idle_new 1) _

/-- A publication that leaves the activation to another candidate leaves the runtime updating. -/
theorem deferredPublish_stays_updating :
    ¬ EveryStep afterCall (fun runtime call => EndsWell runtime (perform runtime call)) (new 1)
      [(firstPublish, { allWell with candidate := .ok true })] :=
  fun every => not_endsWell_updating _ every.1

end Run

end RelationPublisher

end ContextEngine

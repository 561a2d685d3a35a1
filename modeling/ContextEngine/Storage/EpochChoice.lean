/- digest: The data epochs that full indexes and hot updates choose to write to. -/

import ContextEngine.Storage.Coordinator
import ContextEngine.Storage.ManifestCalls

set_option autoImplicit false

namespace ContextEngine

open Option List

open GenerationStore (PrepareFault)
open Runs
open StorageCoordinator (CandidateStep)

/-- A publication does not go below the active epoch, and one above it is of a manifest newer than
all active ones. -/
def GenerationStore.GoesUp (store : GenerationStore) (dataEpoch : Int) (operationId : String) :
    Prop :=
  (∀ row, store.manifests.findOperation operationId = some row →
      row.state ≠ .active ∧ row.dataEpoch = dataEpoch) →
    store.activeDataEpoch ≤ dataEpoch ∧
      (dataEpoch ≠ store.activeDataEpoch →
        ∀ row, store.manifests.findOperation operationId = some row →
          ∀ other ∈ store.manifests.activeRows, other.publicationEpoch < row.publicationEpoch)

/-- The coordinator of a project, with the flags that a full index reads. -/
structure EpochProject extends StorageCoordinator where
  /-- The meta row `epoch_ready`. -/
  epochReady : Option Int
  /-- A full index has a checkpoint in progress. -/
  hasIncompleteCheckpoint : Bool
  /-- The epochs that full indexes chose, each its last; one may have no manifest yet. -/
  begun : List (String × Int)

/-- The transactions of full indexes and of hot updates, and the checkpoints that they leave. An
operation may end after any of them. -/
inductive IndexStep
  | beginFullIndex (operationId : String) (writes : Nat)
  | beginProjectManifest (operationId : String) (now : Int)
  | activateProjectManifest (operationId : String) (relationEpoch now : Int)
  | failProjectManifest (operationId : String)
  | candidate (next : CandidateStep)
  | checkpoints (hasIncompleteCheckpoint : Bool) (inProgress unfinished : List String)

namespace EpochProject

variable (project : EpochProject)

section Steps

/-- The current epoch is not finished, or its full index has a checkpoint in progress. -/
def reusesEpoch : Bool :=
  0 < project.store.epoch.getD 0 ∧
    (project.epochReady.getD 1 = 0 ∨ project.hasIncompleteCheckpoint = true)

def fullIndexEpoch : Int :=
  if project.reusesEpoch then project.store.epoch.getD 0 else project.store.epoch.getD 0 + 1

variable (operationId : String)

/-- The meta rows are set one after the other; the first `writes` of them are. -/
def beginFullIndex (writes : Nat) : EpochProject :=
  { project with
    epoch := project.fullIndexEpoch
    begun := (operationId, project.fullIndexEpoch) ::
      project.begun.filter fun entry => entry.1 ≠ operationId
    store := if 0 < writes then { project.store with epoch := some project.fullIndexEpoch }
      else project.store
    epochReady := if 2 < writes then some 0 else project.epochReady }

def readyAfter : Option Int :=
  if (project.store.manifests.findOperation operationId).map ProjectIndexManifestRow.state =
      some .active then project.epochReady
  else some 1

/-- The publication of an epoch in one transaction. -/
def publish (dataEpoch relationEpoch : Int) (operationId : String) (now : Int) :
    Except String EpochProject := do
  let published ← project.store.activate dataEpoch relationEpoch operationId now
  return { project with store := published, epochReady := project.readyAfter operationId }

def beginProjectManifest (now : Int) : Except String EpochProject := do
  let begun ← project.store.beginBuilding project.epoch operationId now
  return { project with store := begun }

/-- The flag is the only thing that hot updates change besides the coordinator. -/
def candidateReady (next : CandidateStep) : Option Int :=
  match next with
  | .activate operationId _ =>
    if (project.toStorageCoordinator.attempt next).isOk then project.readyAfter operationId
    else project.epochReady
  | .republish operationId _ _ =>
    if (project.toStorageCoordinator.attempt next).isOk then project.readyAfter operationId
    else project.epochReady
  | _ => project.epochReady

def attempt : IndexStep → Except String EpochProject
  | .beginFullIndex operationId writes => .ok (project.beginFullIndex operationId writes)
  | .beginProjectManifest operationId now => project.beginProjectManifest operationId now
  | .activateProjectManifest operationId relationEpoch now =>
    project.publish project.epoch relationEpoch operationId now
  | .failProjectManifest operationId =>
    .ok { project with store := project.store.markFailed operationId }
  | .candidate next =>
    .ok { project with
      toStorageCoordinator := project.toStorageCoordinator.step next
      epochReady := project.candidateReady next }
  | .checkpoints hasIncompleteCheckpoint inProgress unfinished =>
    .ok { project with
      store := { project.store with inProgress := inProgress, unfinished := unfinished }
      hasIncompleteCheckpoint := hasIncompleteCheckpoint }

/-- A failed transaction is rolled back. -/
def step (project : EpochProject) (next : IndexStep) : EpochProject :=
  (project.attempt next).toOption.getD project

/-- A project without manifests. -/
def start (relations : RelationTables) : EpochProject where
  store := { GenerationStore.empty with relations := relations }
  epoch := 0
  candidateOperation := none
  candidateRelationEpoch := 0
  epochReady := none
  hasIncompleteCheckpoint := false
  begun := []

end Steps

section Choice

variable (operationId : String)

def candidateEpoch (resume : Bool) (fault : Option PrepareFault) :
    Option Int :=
  if resume = true ∧ fault = some .adoptionRead then none
  else (if resume then project.store.tryAdoptExistingCandidate operationId else none) <|>
    if fault = some .activeRead then none else some project.store.nextCandidateEpoch

/-- The epoch that a step chooses, and the operation it is for. An operation that holds the
coordinator gets the epoch of the counter again. -/
def chosenEpoch : IndexStep → Option (String × Int)
  | .beginFullIndex operationId _ => some (operationId, project.fullIndexEpoch)
  | .candidate (.prepare operationId resume _ fault _) =>
    if project.candidateOperation = some operationId then some (operationId, project.epoch)
    else if project.candidateOperation.isSome then none
    else (project.candidateEpoch operationId resume fault).map fun epoch => (operationId, epoch)
  | _ => none

variable (epoch : Int)

/-- No other unfinished operation is a full index that chose the epoch last. -/
def NoneBegan : Prop :=
  ∀ entry ∈ project.begun, entry.1 ≠ operationId → entry.1 ∈ project.store.unfinished →
    entry.2 ≠ epoch

def FreeFor (operationId : String) : Prop :=
  (∀ row ∈ project.store.manifests.rows, row.dataEpoch = epoch → row.operationId ≠ operationId →
    row.state ≠ .active ∧ row.operationId ∉ project.store.unfinished) ∧
      project.NoneBegan operationId epoch

def ChoosesFree (next : IndexStep) : Prop :=
  ∀ operationId epoch, project.chosenEpoch next = some (operationId, epoch) →
    project.FreeFor epoch operationId

def OthersAvoid : Prop :=
  (∀ row ∈ project.store.manifests.rows, row.operationId ≠ operationId →
    row.operationId ∈ project.store.unfinished → row.dataEpoch = epoch → row.state = .active) ∧
      project.NoneBegan operationId epoch

/-- An epoch that is used again is above the active one, or its manifests are the operation's. -/
def MayReuse : Prop :=
  project.store.activeDataEpoch < epoch ∨
    ∀ row ∈ project.store.manifests.activeRows, row.dataEpoch = epoch →
      row.operationId = operationId

/-- Where no step takes over an epoch that is not its own. -/
def Admits : IndexStep → Prop
  | .beginFullIndex operationId _ =>
    if project.reusesEpoch then
      project.MayReuse operationId (project.store.epoch.getD 0) ∧
        project.OthersAvoid operationId (project.store.epoch.getD 0)
    else project.OthersAvoid operationId (project.store.epoch.getD 0 + 1)
  | .activateProjectManifest operationId _ _ => project.store.GoesUp project.epoch operationId
  | .candidate (.prepare operationId resume _ fault _) =>
    if project.candidateOperation = some operationId then
      project.MayReuse operationId project.epoch ∧ project.OthersAvoid operationId project.epoch
    else project.candidateOperation = none →
      (project.candidateEpoch operationId resume fault).isSome = true →
        project.OthersAvoid operationId (project.store.activeDataEpoch + 1)
  | .candidate (.activate operationId _) => project.store.GoesUp project.epoch operationId
  | _ => True

end Choice

end EpochProject

namespace ProjectIndexManifests

variable {manifests begun : ProjectIndexManifests} {p : ProjectIndexManifestRow → Bool}
  {f : ProjectIndexManifestRow → ProjectIndexManifestRow}

def activeEpochs (manifests : ProjectIndexManifests) : List Int :=
  manifests.activeRows.map ProjectIndexManifestRow.dataEpoch

theorem getActive_dataEpoch :
    manifests.getActive.map ProjectIndexManifestRow.dataEpoch = manifests.activeEpochs.head? := by
  rw [getActive_eq_head, activeEpochs, head?_map]

theorem activeEpochs_update (keeps : ∀ row ∈ manifests.rows, p row = true →
    (f row).dataEpoch = row.dataEpoch ∧ ((f row).state = .active ↔ row.state = .active)) :
    (manifests.update p f).activeEpochs = manifests.activeEpochs := by
  rw [activeEpochs, activeEpochs, activeRows, activeRows, rows_update]
  generalize manifests.rows = rows at keeps
  induction rows with
  | nil => rfl
  | cons row rows ih =>
    have rest := ih fun other mem => keeps other (mem_cons_of_mem _ mem)
    rw [map_cons, filter_cons, filter_cons]
    cases changed : p row with
    | false =>
      rw [updated_of_not changed]
      split_ifs
      · rw [map_cons, map_cons, rest]
      · exact rest
    | true =>
      obtain ⟨sameEpoch, sameState⟩ := keeps row mem_cons_self changed
      have state : ((updated p f row).state = .active) ↔ row.state = .active := by
        rw [updated, if_pos changed]
        exact sameState
      have epoch : (updated p f row).dataEpoch = row.dataEpoch := by
        rw [updated, if_pos changed]
        exact sameEpoch
      by_cases isActive : row.state = .active
      · rw [if_pos (decide_eq_true (state.2 isActive)), if_pos (decide_eq_true isActive),
          map_cons, map_cons, rest, epoch]
      · rw [if_neg (by simpa [state] using isActive), if_neg (by simpa using isActive), rest]

section Promotion

variable {row active : ProjectIndexManifestRow} {relationEpoch : Int}

theorem mem_activeRows_promote (mem : row ∈ manifests.rows) (isBuilding : row.state = .building)
    {other : ProjectIndexManifestRow} :
    other ∈ (manifests.promote row.publicationEpoch relationEpoch).activeRows ↔
      other = activated row relationEpoch ∨ other ∈ manifests.activeRows := by
  rw [mem_activeRows, mem_promote mem isBuilding, mem_activeRows]
  constructor
  · rintro ⟨rfl | ⟨kept, _⟩, isActive⟩
    · exact Or.inl rfl
    · exact Or.inr ⟨kept, isActive⟩
  · rintro (rfl | ⟨kept, isActive⟩)
    · exact ⟨Or.inl rfl, rfl⟩
    · refine ⟨Or.inr ⟨kept, fun same => ?_⟩, isActive⟩
      rw [same, isBuilding] at isActive
      cases isActive

theorem getActive_promote_older (mem : row ∈ manifests.rows) (isBuilding : row.state = .building)
    (found : manifests.getActive = some active)
    (older : row.publicationEpoch ≤ active.publicationEpoch) :
    (manifests.promote row.publicationEpoch relationEpoch).getActive = some active := by
  obtain ⟨activeMem, isActive, newest⟩ := getActive_eq_some_iff.1 found
  have kept : active ∈ (manifests.promote row.publicationEpoch relationEpoch).activeRows :=
    (mem_activeRows_promote mem isBuilding).2 (Or.inr (mem_activeRows.2 ⟨activeMem, isActive⟩))
  refine getActive_eq_some_iff.2
    ⟨(mem_activeRows.1 kept).1, isActive, fun other otherMem newer => ?_⟩
  rcases (mem_promote mem isBuilding).1 otherMem with rfl | ⟨old, _⟩
  · exact absurd newer (not_lt_of_ge older)
  · exact newest other old newer

end Promotion

end ProjectIndexManifests

namespace GenerationStore

variable {store next last : GenerationStore} {op : String} {now : Int}

theorem activeDataEpoch_eq :
    store.activeDataEpoch =
      (store.manifests.activeEpochs.head?).getD (store.activeEpoch.getD 0) := by
  rw [activeDataEpoch, ← ProjectIndexManifests.getActive_dataEpoch]
  cases store.manifests.getActive <;> rfl

/-- Nothing is published, and every operation keeps one manifest. -/
structure PublishesNothing (store next : GenerationStore) : Prop where
  distinct : next.manifests.Distinct
  active : next.manifests.activeEpochs = store.manifests.activeEpochs
  activeEpoch : next.activeEpoch = store.activeEpoch
  epoch : next.epoch = store.epoch

namespace PublishesNothing

theorem of_manifests (distinct : store.manifests.Distinct)
    (manifests : next.manifests = store.manifests)
    (activeEpoch : next.activeEpoch = store.activeEpoch) (epoch : next.epoch = store.epoch) :
    PublishesNothing store next :=
  ⟨manifests ▸ distinct, by rw [manifests], activeEpoch, epoch⟩

theorem refl (distinct : store.manifests.Distinct) : PublishesNothing store store :=
  of_manifests distinct rfl rfl rfl

theorem trans (first : PublishesNothing store next) (second : PublishesNothing next last) :
    PublishesNothing store last where
  distinct := second.distinct
  active := second.active.trans first.active
  activeEpoch := second.activeEpoch.trans first.activeEpoch
  epoch := second.epoch.trans first.epoch

section

variable (distinct : store.manifests.Distinct)

include distinct

theorem updateRows (epoch : Int)
    (f : GenerationRows → GenerationRows) : PublishesNothing store (store.updateRows epoch f) :=
  of_manifests distinct rfl rfl rfl

theorem clearCandidate (epoch : Int) :
    PublishesNothing store (store.clearCandidate epoch) :=
  of_manifests distinct rfl rfl rfl

theorem setParentDataEpoch (op : String) (parent : Option Int) :
    PublishesNothing store (store.setParentDataEpoch op parent) where
  distinct := distinct.update fun _ => rfl
  active := ProjectIndexManifests.activeEpochs_update fun _ _ _ => ⟨rfl, Iff.rfl⟩
  activeEpoch := rfl
  epoch := rfl

theorem markCandidateReady :
    PublishesNothing store (store.markCandidateReady op) where
  distinct := distinct.update fun _ => rfl
  active := ProjectIndexManifests.activeEpochs_update fun _ _ _ => ⟨rfl, Iff.rfl⟩
  activeEpoch := rfl
  epoch := rfl

theorem markFailed (op : String) :
    PublishesNothing store (store.markFailed op) where
  distinct := distinct.update fun _ => rfl
  active := ProjectIndexManifests.activeEpochs_update fun row _ changed => by
    have isBuilding := (of_decide_eq_true changed).2
    refine ⟨rfl, ?_⟩
    rw [isBuilding]
    exact iff_of_false (fun same => by cases same) (fun same => by cases same)
  activeEpoch := rfl
  epoch := rfl

theorem beginBuilding {dataEpoch : Int} (done : store.beginBuilding dataEpoch op now = .ok next) :
    PublishesNothing store next := by
  rw [GenerationStore.beginBuilding, Runs.bind_eq_ok] at done
  obtain ⟨⟨building, begun⟩, begins, done⟩ := done
  cases done
  obtain ⟨row, begins⟩ := distinct.begins begins
  refine ⟨begins.distinct, ?_, rfl, rfl⟩
  rw [ProjectIndexManifests.activeEpochs, begins.active, ProjectIndexManifests.activeEpochs]

theorem registerCandidate {candidateEpoch activeEpoch : Int}
    (done : store.registerCandidate candidateEpoch activeEpoch op now = .ok next) :
    PublishesNothing store next := by
  rw [GenerationStore.registerCandidate, Runs.bind_eq_ok] at done
  obtain ⟨begun, begins, done⟩ := done
  cases done
  have first := beginBuilding distinct begins
  have second := first.trans
    (setParentDataEpoch first.distinct op (candidateParent activeEpoch))
  have third := second.trans (clearCandidate second.distinct candidateEpoch)
  exact third.trans (markCandidateReady third.distinct)

theorem compactInherited (fault : Option PrepareFault) :
    PublishesNothing store (store.compactInherited fault).1 := by
  rw [GenerationStore.compactInherited]
  cases store.manifests.getActive with
  | none => exact refl distinct
  | some manifest =>
    dsimp only
    cases manifest.parentDataEpoch with
    | none => exact refl distinct
    | some parent =>
      dsimp only
      rw [compactGeneration]
      split_ifs with unread uncleared
      · exact refl distinct
      · exact updateRows distinct manifest.dataEpoch fun rows =>
          rows.materialize (store.rows parent) rows.overrides.keys
      · have first := updateRows distinct manifest.dataEpoch fun rows =>
          rows.materialize (store.rows parent) rows.overrides.keys
        have second := first.trans
          (setParentDataEpoch first.distinct manifest.operationId none)
        exact second.trans (updateRows second.distinct _ _)

theorem inheritCandidate (fault : Option PrepareFault) :
    PublishesNothing store (store.inheritCandidate op now fault).1 := by
  have compacted := compactInherited distinct fault
  rw [GenerationStore.inheritCandidate]
  cases (store.compactInherited fault).2 with
  | error message => exact compacted
  | ok done =>
    dsimp only
    split_ifs
    · exact compacted
    · cases registered : (store.compactInherited fault).1.registerCandidate
        store.nextCandidateEpoch store.activeDataEpoch op now with
      | error message => exact compacted
      | ok next => exact compacted.trans (registerCandidate compacted.distinct registered)

end

variable (coord : StorageCoordinator)

theorem prepareCandidate (distinct : coord.store.manifests.Distinct) (fault : Option PrepareFault) :
    PublishesNothing coord.store (coord.prepareCandidate op now fault).1.store := by
  rw [StorageCoordinator.prepareCandidate]
  split_ifs
  · exact refl distinct
  · exact inheritCandidate distinct fault

theorem beginHotUpdateCandidate (distinct : coord.store.manifests.Distinct) (resume : Bool)
    (fault : Option PrepareFault) (marked : Bool) :
    PublishesNothing coord.store
      (coord.beginHotUpdateCandidate op resume now fault marked).1.store := by
  rw [StorageCoordinator.beginHotUpdateCandidate]
  by_cases own : coord.candidateOperation = some op
  · rw [if_pos own]
    exact refl distinct
  rw [if_neg own]
  by_cases held : coord.candidateOperation.isSome = true
  · rw [if_pos held]
    exact refl distinct
  rw [if_neg held]
  dsimp only
  by_cases unread : resume = true ∧ fault = some .adoptionRead
  · rw [if_pos unread]
    exact refl distinct
  rw [if_neg unread]
  cases (if resume = true then coord.store.tryAdoptExistingCandidate op
      else none) with
  | some epoch => exact refl distinct
  | none =>
    dsimp only
    have prepared : PublishesNothing coord.store (({ coord with candidateOperation := some op } :
          StorageCoordinator).prepareCandidate op now fault).1.store :=
      prepareCandidate { coord with candidateOperation := some op } distinct fault
    generalize ({ coord with candidateOperation := some op } :
      StorageCoordinator).prepareCandidate op now fault = result at prepared ⊢
    cases result.2 with
    | ok epoch => exact prepared
    | error message =>
      dsimp only
      split_ifs
      · exact prepared.trans (markFailed prepared.distinct op)
      · exact prepared

end PublishesNothing

/-- No active epoch is above the last published one, and the counter of the meta rows is not below
it. Without a publication there is no active epoch. -/
structure EpochsOrdered (store : GenerationStore) : Prop where
  distinct : store.manifests.Distinct
  nonneg : 0 ≤ store.activeDataEpoch
  below : ∀ epoch ∈ store.manifests.activeEpochs, epoch ≤ store.activeDataEpoch
  counted : store.activeDataEpoch ≤ store.epoch.getD 0
  unpublished : store.manifests.activeEpochs = [] → store.activeEpoch = none

namespace EpochsOrdered

theorem publishesNothing (ordered : store.EpochsOrdered) (quiet : PublishesNothing store next) :
    next.EpochsOrdered := by
  have same : next.activeDataEpoch = store.activeDataEpoch := by
    rw [activeDataEpoch_eq, activeDataEpoch_eq, quiet.active, quiet.activeEpoch]
  constructor
  · exact quiet.distinct
  · rw [same]
    exact ordered.nonneg
  · rw [quiet.active, same]
    exact ordered.below
  · rw [same, quiet.epoch]
    exact ordered.counted
  · rw [quiet.active, quiet.activeEpoch]
    exact ordered.unpublished

theorem activate {dataEpoch relationEpoch : Int} (ordered : store.EpochsOrdered)
    (goesUp : store.GoesUp dataEpoch op)
    (done : store.activate dataEpoch relationEpoch op now = .ok next) :
    next.EpochsOrdered := by
  obtain ⟨-, building, begun, begins, outcome⟩ := activate_cases done
  obtain ⟨row, begins⟩ := ordered.distinct.begins begins
  rcases outcome with ⟨isActive, manifests, epoch, activeEpoch⟩ |
    ⟨idle, manifests, epoch, activeEpoch⟩
  · exact ordered.publishesNothing
      (PublishesNothing.of_manifests ordered.distinct manifests activeEpoch epoch)
  obtain ⟨distinct, active, found⟩ := begins.carryParent idle
  generalize begun.carryParent building = carried at manifests distinct active found
  generalize stored : ({ row with parentDataEpoch := _ } : ProjectIndexManifestRow) = published
    at found
  have answers := begins.answers
  have own : building.publicationEpoch = published.publicationEpoch := by rw [answers, ← stored]
  have ofEpoch : published.dataEpoch = dataEpoch := by
    rw [← begins.ofEpoch, answers, ← stored]
  have isBuilding : published.state = .building := by
    have notFailed := begins.notFailed
    rw [answers] at idle notFailed
    rw [← stored]
    cases state : row.state with
    | building => rfl
    | active => exact absurd state idle
    | failed => exact absurd state notFailed
  have mem := mem_of_find?_eq_some found
  obtain ⟨up, newest⟩ := goesUp fun old isOld => by
    obtain ⟨sameEpoch, _, stays, _⟩ := begins.ofOld old isOld
    exact ⟨fun isActive => idle (stays isActive), sameEpoch⟩
  rw [own] at manifests
  have publishes : next.activeDataEpoch = dataEpoch := by
    by_cases newer : ∀ other ∈ carried.activeRows,
        other.publicationEpoch < published.publicationEpoch
    · rw [activeDataEpoch, manifests, ProjectIndexManifests.getActive_promote mem isBuilding newer]
      exact ofEpoch
    -- A publication behind the active manifest is of the active epoch.
    · have same : dataEpoch = store.activeDataEpoch := by
        by_contra apart
        apply newer
        intro other otherMem
        rw [active] at otherMem
        rw [← own]
        cases sought : store.manifests.findOperation op with
        | none =>
          exact (begins.ofNew sought).2 other (ProjectIndexManifests.mem_activeRows.1 otherMem).1
        | some old =>
          rw [← (begins.ofOld old sought).2.1]
          exact newest apart old sought other otherMem
      obtain ⟨other, otherMem, later⟩ : ∃ other ∈ carried.activeRows,
          published.publicationEpoch ≤ other.publicationEpoch := by
        simpa using newer
      cases isActive : carried.getActive with
      | none =>
        rw [ProjectIndexManifests.getActive_eq_head] at isActive
        rw [head?_eq_none_iff.1 isActive] at otherMem
        cases otherMem
      | some last =>
        obtain ⟨_, _, newestActive⟩ := ProjectIndexManifests.getActive_eq_some_iff.1 isActive
        obtain ⟨listed, otherActive⟩ := ProjectIndexManifests.mem_activeRows.1 otherMem
        have first : other.publicationEpoch ≤ last.publicationEpoch := by
          by_contra above
          exact newestActive other listed (lt_of_not_ge above) otherActive
        have sameActive : store.manifests.getActive = some last := by
          rw [ProjectIndexManifests.getActive_eq_head, ← active,
            ← ProjectIndexManifests.getActive_eq_head, isActive]
        rw [activeDataEpoch, manifests, ProjectIndexManifests.getActive_promote_older mem
          isBuilding isActive (le_trans later first), same, activeDataEpoch, sameActive]
  have memActive : ∀ {other : ProjectIndexManifestRow}, other ∈ next.manifests.activeRows ↔
      other = ProjectIndexManifests.activated published relationEpoch ∨
        other ∈ store.manifests.activeRows := by
    intro other
    rw [manifests, ProjectIndexManifests.mem_activeRows_promote mem isBuilding, active]
  constructor
  · rw [manifests]
    exact distinct.update fun _ => rfl
  · rw [publishes]
    exact le_trans ordered.nonneg up
  · rw [publishes]
    intro other otherMem
    obtain ⟨row, rowMem, rfl⟩ := mem_map.1 otherMem
    rcases memActive.1 rowMem with rfl | old
    · exact le_of_eq ofEpoch
    · exact le_trans (ordered.below _ (mem_map_of_mem old)) up
  · rw [publishes, epoch]
    exact le_refl _
  · intro none
    have listed := memActive.2 (Or.inl rfl)
    rw [map_eq_nil_iff.1 none] at listed
    cases listed

theorem candidateStep {coord : StorageCoordinator} (ordered : coord.store.EpochsOrdered)
    {step : CandidateStep} (goesUp : ∀ op now, step = .activate op now →
      coord.store.GoesUp coord.epoch op) :
    (coord.step step).store.EpochsOrdered := by
  have distinct := ordered.distinct
  cases step with
  | prepare op resume now fault marked =>
    exact ordered.publishesNothing
      (PublishesNothing.beginHotUpdateCandidate coord distinct resume fault marked)
  | writeFile op file =>
    exact ordered.publishesNothing (PublishesNothing.of_manifests distinct rfl rfl rfl)
  | registerDeletedFiles op paths overridden =>
    refine ordered.publishesNothing ?_
    show PublishesNothing coord.store (coord.registerDeletedFiles paths overridden).1.store
    rw [StorageCoordinator.registerDeletedFiles]
    split_ifs
    · exact PublishesNothing.refl distinct
    · exact PublishesNothing.refl distinct
    · exact PublishesNothing.of_manifests distinct rfl rfl rfl
    · exact PublishesNothing.of_manifests distinct rfl rfl rfl
  | setCandidateRelationEpoch relationEpoch => exact ordered
  | activate op now =>
    rw [StorageCoordinator.step]
    cases done : coord.attempt (.activate op now) with
    | error message => exact ordered
    | ok result =>
      obtain ⟨relationEpoch, published, publication, rfl⟩ :=
        StorageCoordinator.activateHotUpdateCandidate_eq_ok done
      exact ordered.activate (goesUp op now rfl) publication
  | fail op marked cleared =>
    refine ordered.publishesNothing ?_
    have failed := PublishesNothing.markFailed distinct op
    cases marked with
    | false => exact PublishesNothing.refl distinct
    | true =>
      cases cleared with
      | false => exact failed
      | true => exact failed.trans (PublishesNothing.clearCandidate failed.distinct _)
  | republish op relationEpoch now =>
    rw [StorageCoordinator.step]
    cases done : coord.attempt (.republish op relationEpoch now) with
    | error message => exact ordered
    | ok result =>
      have published : coord.republish op relationEpoch now = .ok result := done
      rw [StorageCoordinator.republish, Runs.bind_eq_ok] at published
      obtain ⟨next, publication, published⟩ := published
      cases published
      exact ordered.activate (fun _ => ⟨le_refl _, fun apart => absurd rfl apart⟩) publication
  | relation next =>
    exact ordered.publishesNothing (PublishesNothing.of_manifests distinct rfl rfl rfl)
  | restart seeded => exact ordered

theorem activeDataEpoch_eq (ordered : store.EpochsOrdered) : store.activeDataEpoch =
    (store.manifests.getActive.map ProjectIndexManifestRow.dataEpoch).getD 0 := by
  have unpublished := ordered.unpublished
  rw [GenerationStore.activeDataEpoch_eq, ProjectIndexManifests.getActive_dataEpoch]
  cases listed : store.manifests.activeEpochs with
  | nil =>
    rw [unpublished listed]
    rfl
  | cons epoch epochs => rfl

end EpochsOrdered

end GenerationStore

namespace EpochProject

open GenerationStore (EpochsOrdered PublishesNothing)

variable {project : EpochProject} {next : IndexStep} {operationId : String} {epoch : Int}

theorem le_fullIndexEpoch : project.store.epoch.getD 0 ≤ project.fullIndexEpoch := by
  rw [fullIndexEpoch]
  split_ifs <;> omega

theorem ordered_step (admits : project.Admits next) (ordered : project.store.EpochsOrdered) :
    (project.step next).store.EpochsOrdered := by
  have distinct := ordered.distinct
  cases next with
  | beginFullIndex operationId writes =>
    show (if 0 < writes then { project.store with epoch := some project.fullIndexEpoch }
      else project.store).EpochsOrdered
    split_ifs
    · exact ⟨distinct, ordered.nonneg, ordered.below,
        le_trans ordered.counted le_fullIndexEpoch, ordered.unpublished⟩
    · exact ordered
  | beginProjectManifest operationId now =>
    rw [step]
    cases done : project.attempt (.beginProjectManifest operationId now) with
    | error message => exact ordered
    | ok result =>
      have begun : project.beginProjectManifest operationId now = .ok result := done
      rw [beginProjectManifest, Runs.bind_eq_ok] at begun
      obtain ⟨store, begins, begun⟩ := begun
      cases begun
      exact ordered.publishesNothing (PublishesNothing.beginBuilding distinct begins)
  | activateProjectManifest operationId relationEpoch now =>
    rw [step]
    cases done : project.attempt (.activateProjectManifest operationId relationEpoch now) with
    | error message => exact ordered
    | ok result =>
      have published : project.publish project.epoch relationEpoch operationId now =
          .ok result := done
      rw [publish, Runs.bind_eq_ok] at published
      obtain ⟨store, publication, published⟩ := published
      cases published
      exact ordered.activate admits publication
  | failProjectManifest operationId =>
    exact ordered.publishesNothing (PublishesNothing.markFailed distinct operationId)
  | candidate candidateStep =>
    refine EpochsOrdered.candidateStep ordered fun operationId now same => ?_
    rw [same] at admits
    exact admits
  | checkpoints hasIncompleteCheckpoint inProgress unfinished =>
    exact ordered.publishesNothing (PublishesNothing.of_manifests distinct rfl rfl rfl)

theorem freeFor_of_above (ordered : project.store.EpochsOrdered)
    (above : project.store.activeDataEpoch < epoch)
    (avoided : project.OthersAvoid operationId epoch) : project.FreeFor epoch operationId := by
  refine ⟨fun row mem ofEpoch other => ?_, avoided.2⟩
  have idle : row.state ≠ .active := by
    intro isActive
    have listed := ProjectIndexManifests.mem_activeRows.2 ⟨mem, isActive⟩
    have below := ordered.below _ (mem_map_of_mem listed)
    omega
  exact ⟨idle, fun unfinished => idle (avoided.1 row mem other unfinished ofEpoch)⟩

theorem freeFor_of_mayReuse (ordered : project.store.EpochsOrdered)
    (reuse : project.MayReuse operationId epoch) (avoided : project.OthersAvoid operationId epoch) :
    project.FreeFor epoch operationId := by
  rcases reuse with above | own
  · exact freeFor_of_above ordered above avoided
  · refine ⟨fun row mem ofEpoch other => ?_, avoided.2⟩
    have idle : row.state ≠ .active := fun isActive =>
      other (own row (ProjectIndexManifests.mem_activeRows.2 ⟨mem, isActive⟩) ofEpoch)
    exact ⟨idle, fun unfinished => idle (avoided.1 row mem other unfinished ofEpoch)⟩

/-- A hot update without a candidate gets the epoch after the active one, adopted or new. -/
theorem candidateEpoch_eq (ordered : project.store.EpochsOrdered) {resume : Bool}
    {fault : Option PrepareFault}
    (chosen : project.candidateEpoch operationId resume fault = some epoch) :
    epoch = project.store.activeDataEpoch + 1 := by
  have nonneg := ordered.nonneg
  rw [candidateEpoch] at chosen
  by_cases unread : resume = true ∧ fault = some .adoptionRead
  · rw [if_pos unread] at chosen
    cases chosen
  rw [if_neg unread, orElse_eq_orElse, orElse_eq_or, or_eq_some_iff] at chosen
  rcases chosen with adopted | ⟨_, fresh⟩
  · rw [ite_none_right_eq_some, GenerationStore.tryAdoptExistingCandidate,
      map_eq_some_iff] at adopted
    obtain ⟨_, manifest, matches', rfl⟩ := adopted
    have judged := (filter_eq_some_iff.1 matches').2
    rw [GenerationStore.candidateMatchesActive, decide_eq_true_iff] at judged
    rw [judged.2.1, ordered.activeDataEpoch_eq]
  · rw [ite_none_left_eq_some, some.injEq] at fresh
    rw [← fresh.2, GenerationStore.nextCandidateEpoch]
    omega

theorem choosesFree (admits : project.Admits next) (ordered : project.store.EpochsOrdered) :
    project.ChoosesFree next := by
  intro operationId epoch chosen
  cases next with
  | beginFullIndex own writes =>
    cases chosen
    rw [Admits] at admits
    rw [fullIndexEpoch]
    split_ifs at admits ⊢ with reuses
    · exact freeFor_of_mayReuse ordered admits.1 admits.2
    · have counted := ordered.counted
      exact freeFor_of_above ordered (by omega) admits
  | candidate candidateStep =>
    cases candidateStep with
    | prepare own resume now fault marked =>
      rw [chosenEpoch] at chosen
      rw [Admits] at admits
      by_cases holds : project.candidateOperation = some own
      · rw [if_pos holds] at chosen admits
        cases chosen
        exact freeFor_of_mayReuse ordered admits.1 admits.2
      rw [if_neg holds] at chosen admits
      by_cases held : project.candidateOperation.isSome = true
      · rw [if_pos held] at chosen
        cases chosen
      rw [if_neg held, map_eq_some_iff] at chosen
      obtain ⟨_, found, same⟩ := chosen
      cases same
      have avoided := admits (not_isSome_iff_eq_none.1 held)
        (isSome_iff_exists.2 ⟨epoch, found⟩)
      rw [candidateEpoch_eq ordered found]
      exact freeFor_of_above ordered (by omega) avoided
    | _ => cases chosen
  | _ => cases chosen

theorem ordered_start (relations : RelationTables) : (start relations).store.EpochsOrdered :=
  ⟨nodup_nil, le_refl _, (fun _ listed => by cases listed), le_refl _, fun _ => rfl⟩

/-- A run of admitted steps: no full index and no hot update chooses an epoch that another
operation published, or that an unfinished one has. -/
theorem runs_choose_free (relations : RelationTables) (steps : List IndexStep)
    (admitted : EveryStep step Admits (start relations) steps) :
    EveryStep step ChoosesFree (start relations) steps := by
  have kept : ∀ project next, Admits project next → project.store.EpochsOrdered →
      (step project next).store.EpochsOrdered :=
    fun project next admits ordered => ordered_step admits ordered
  have free : ∀ project next, Admits project next → project.store.EpochsOrdered →
      ChoosesFree project next :=
    fun project next admits ordered => choosesFree admits ordered
  exact EveryStep.with_invariant kept free (ordered_start relations) admitted

private def rebuildAndUpdate : List IndexStep :=
  [.beginFullIndex "full" 3, .activateProjectManifest "full" 0 1,
    .candidate (.prepare "update" false 2 none false), .candidate (.activate "update" 3)]

/-- The hot update before its publication. -/
private def prepared : EpochProject := (rebuildAndUpdate.take 3).foldl step (start .empty)

theorem runs_choose_free_rebuildAndUpdate :
    EveryStep step ChoosesFree (start .empty) rebuildAndUpdate := by
  have avoids : ∀ project : EpochProject, project.store.unfinished = [] →
      ∀ operationId epoch, project.OthersAvoid operationId epoch := by
    refine fun project none operationId epoch => ⟨fun row _ _ unfinished => ?_,
      fun entry _ _ unfinished => ?_⟩ <;>
    · rw [none] at unfinished
      cases unfinished
  refine runs_choose_free .empty rebuildAndUpdate ⟨?_, fun _ => ⟨by decide, ?_⟩, ?_, fun _ =>
    ⟨by decide, ?_⟩, trivial⟩
  · exact avoids _ rfl _ _
  · exact fun _ row found => by cases found
  · exact fun _ _ => avoids _ rfl _ _
  · intro _ row found other mem
    have own : (prepared.store.manifests.findOperation "update").map
        ProjectIndexManifestRow.publicationEpoch = some 2 := by decide
    have older : ∀ other ∈ prepared.store.manifests.activeRows, other.publicationEpoch < 2 := by
      decide
    have newest : row.publicationEpoch = 2 := by
      rw [show prepared.store.manifests.findOperation "update" = some row from found] at own
      exact some.inj own
    rw [newest]
    exact older other mem

/-- A full index publishes, and ends before its checkpoint. What it does again when it resumes
leaves its flag behind. -/
private def recovered : List IndexStep :=
  [.checkpoints true ["full"] ["full"], .beginFullIndex "full" 3, .beginProjectManifest "full" 0,
    .activateProjectManifest "full" 0 1, .candidate (.restart true), .beginFullIndex "full" 3,
    .beginProjectManifest "full" 2, .activateProjectManifest "full" 0 3, .checkpoints false [] []]

/-- The next full index writes to the published epoch. -/
theorem rebuild_reuses_published :
    ¬ EveryStep step ChoosesFree (start .empty) (recovered ++ [.beginFullIndex "rebuild" 3]) := by
  intro every
  have free := every.last "rebuild" 1 (by decide)
  have published : ∃ row ∈ (recovered.foldl step (start .empty)).store.manifests.rows,
      row.dataEpoch = 1 ∧ row.operationId ≠ "rebuild" ∧ row.state = .active := by decide
  obtain ⟨row, mem, ofEpoch, other, isActive⟩ := published
  exact (free.1 row mem ofEpoch other).1 isActive

end EpochProject

end ContextEngine

/- digest: The manifests of a project's index generations, and their publication. -/

import ContextEngine.HotUpdate.FileHashCache
import ContextEngine.Storage.DeltaChains

set_option autoImplicit false

namespace ContextEngine

inductive ProjectIndexManifestState
  | building | active | failed
  deriving DecidableEq

/-- A row of `project_index_manifests`. -/
structure ProjectIndexManifestRow where
  publicationEpoch : Int
  dataEpoch : Int
  relationEpoch : Int
  operationId : String
  state : ProjectIndexManifestState
  createdAt : Int
  candidateReady : Bool
  parentDataEpoch : Option Int
  deriving DecidableEq

/-- The manifests of a project, the newest publication first. -/
structure ProjectIndexManifests where
  rows : List ProjectIndexManifestRow
  descending : rows.Pairwise fun newer older => older.publicationEpoch < newer.publicationEpoch

namespace ProjectIndexManifests

def empty : ProjectIndexManifests := ⟨[], List.Pairwise.nil⟩

variable (manifests : ProjectIndexManifests)

section Rows

def nextPublicationEpoch : Int :=
  (manifests.rows.head?.map ProjectIndexManifestRow.publicationEpoch).getD 0 + 1

theorem lt_nextPublicationEpoch {row : ProjectIndexManifestRow}
    (mem : row ∈ manifests.rows) : row.publicationEpoch < manifests.nextPublicationEpoch := by
  rw [nextPublicationEpoch]
  have descending := manifests.descending
  cases listed : manifests.rows with
  | nil => rw [listed] at mem; cases mem
  | cons newest older =>
    rw [listed] at mem descending
    rw [List.head?_cons, Option.map_some, Option.getD_some]
    rcases List.mem_cons.1 mem with rfl | later
    · omega
    · have below := (List.pairwise_cons.1 descending).1 row later
      omega

def insert (row : ProjectIndexManifestRow) : ProjectIndexManifests where
  rows := { row with publicationEpoch := manifests.nextPublicationEpoch } :: manifests.rows
  descending := List.pairwise_cons.2
    ⟨fun _ mem => manifests.lt_nextPublicationEpoch mem, manifests.descending⟩

def update (p : ProjectIndexManifestRow → Bool)
    (f : ProjectIndexManifestRow → ProjectIndexManifestRow) : ProjectIndexManifests where
  rows := manifests.rows.map fun row =>
    if p row then { f row with publicationEpoch := row.publicationEpoch } else row
  descending := by
    refine List.pairwise_map.2 (manifests.descending.imp fun {newer older} lt => ?_)
    split_ifs <;> exact lt

/-- `DELETE` of all but the rows that pass a test. -/
def retain (p : ProjectIndexManifestRow → Bool) : ProjectIndexManifests where
  rows := manifests.rows.filter p
  descending := manifests.descending.filter p

theorem eq_of_publicationEpoch {row other : ProjectIndexManifestRow}
    (mem : row ∈ manifests.rows) (otherMem : other ∈ manifests.rows)
    (same : row.publicationEpoch = other.publicationEpoch) : row = other := by
  have distinct : (manifests.rows.map ProjectIndexManifestRow.publicationEpoch).Nodup :=
    List.pairwise_map.2 (manifests.descending.imp fun {newer older} lt => (ne_of_lt lt).symm)
  exact List.inj_on_of_nodup_map distinct mem otherMem same

end Rows

section Repository

variable (operationId : String)

def findOperation : Option ProjectIndexManifestRow :=
  manifests.rows.find? fun row => row.operationId = operationId

/-- The manifest of an operation on a data epoch: the one it has, reopened if it failed, or a new
one. The answer to a reopened one carries no parent; its row keeps the link. -/
def beginBuilding (dataEpoch : Int) (operationId : String) (now : Int) :
    Except String (ProjectIndexManifestRow × ProjectIndexManifests) :=
  match manifests.findOperation operationId with
  | some existing =>
    if existing.dataEpoch ≠ dataEpoch then
      .error (s!"operation {operationId} already targets data epoch " ++
        s!"{existing.dataEpoch} instead of {dataEpoch}")
    else if existing.state = .failed then
      .ok ({ existing with
          state := .building
          relationEpoch := 0
          candidateReady := false
          parentDataEpoch := none },
        manifests.update (fun row => row.operationId = operationId) fun row =>
          { row with
            state := .building
            relationEpoch := 0
            candidateReady := false
            createdAt := now })
    else .ok (existing, manifests)
  | none =>
    let row : ProjectIndexManifestRow :=
      { publicationEpoch := manifests.nextPublicationEpoch
        dataEpoch := dataEpoch
        relationEpoch := 0
        operationId := operationId
        state := .building
        createdAt := now
        candidateReady := false
        parentDataEpoch := none }
    .ok (row, manifests.insert row)

def setParentDataEpoch (parentDataEpoch : Option Int) :
    ProjectIndexManifests :=
  manifests.update (fun row => row.operationId = operationId) fun row =>
    { row with parentDataEpoch := parentDataEpoch }

def markCandidateReady : ProjectIndexManifests :=
  manifests.update (fun row => row.operationId = operationId ∧ row.state = .building) fun row =>
    { row with candidateReady := true }

def getBuildingByOperation : Option ProjectIndexManifestRow :=
  manifests.rows.find? fun row => row.operationId = operationId ∧ row.state = .building

def getActive : Option ProjectIndexManifestRow :=
  manifests.rows.find? fun row => row.state = .active

def parentDataEpochOf (dataEpoch : Int) : Option Int :=
  (manifests.rows.find? fun row => row.dataEpoch = dataEpoch).bind
    ProjectIndexManifestRow.parentDataEpoch

def markFailed : ProjectIndexManifests :=
  manifests.update (fun row => row.operationId = operationId ∧ row.state = .building) fun row =>
    { row with state := .failed }

def carryParent (building : ProjectIndexManifestRow) : ProjectIndexManifests :=
  match building.parentDataEpoch, manifests.getActive with
  | none, some active =>
    match active.parentDataEpoch with
    | some parent =>
      if 0 < parent ∧ active.dataEpoch = building.dataEpoch then
        manifests.update (fun row => row.publicationEpoch = building.publicationEpoch)
          fun row => { row with parentDataEpoch := some parent }
      else manifests
    | none => manifests
  | _, _ => manifests

end Repository

end ProjectIndexManifests

inductive OverrideDisposition
  | replaced | deleted
  deriving DecidableEq

/-- The rows of one data epoch: its files with their hash, the file of every entity, chunk and
detail row, and the paths it hides from its ancestors. -/
structure GenerationRows where
  files : HashMap PathBuf (Option String)
  entities : List PathBuf
  chunks : List PathBuf
  entityDetailMappings : List PathBuf
  overrides : HashMap PathBuf OverrideDisposition

def GenerationRows.empty : GenerationRows := ⟨∅, [], [], [], ∅⟩

/-- The index tables of one project, and the operations its checkpoints list. -/
structure GenerationStore where
  manifests : ProjectIndexManifests
  relations : RelationTables
  /-- The meta row `epoch`. -/
  epoch : Option Int
  /-- The meta row `active_epoch`. -/
  activeEpoch : Option Int
  rows : Int → GenerationRows
  /-- Operations with a checkpoint in progress. -/
  inProgress : List String
  /-- Operations with a checkpoint that is not completed. -/
  unfinished : List String

namespace GenerationStore

def empty : GenerationStore where
  manifests := .empty
  relations := .empty
  epoch := none
  activeEpoch := none
  rows := fun _ => .empty
  inProgress := []
  unfinished := []

variable (store : GenerationStore)

def hashTables (active : Option ProjectIndexManifestRow) : FileHashTables where
  activeManifest := active.map fun row => ⟨row.dataEpoch, row.parentDataEpoch⟩
  parentDataEpochOf := store.manifests.parentDataEpochOf
  overrides := fun epoch => (store.rows epoch).overrides.keys
  activeEpochMeta := store.activeEpoch
  files := fun epoch => (store.rows epoch).files

/-- What the hash cache reads. -/
def publishedTables : FileHashTables := store.hashTables store.manifests.getActive

def beginBuilding (dataEpoch : Int) (operationId : String) (now : Int) :
    Except String GenerationStore := do
  let (_, manifests) ← store.manifests.beginBuilding dataEpoch operationId now
  return { store with manifests := manifests }

def setParentDataEpoch (operationId : String) (parentDataEpoch : Option Int) : GenerationStore :=
  { store with manifests := store.manifests.setParentDataEpoch operationId parentDataEpoch }

def markFailed (operationId : String) : GenerationStore :=
  { store with manifests := store.manifests.markFailed operationId }

def activate (dataEpoch relationEpoch : Int) (operationId : String) (now : Int) :
    Except String GenerationStore := do
  let relations ← store.relations.activateRelation relationEpoch
  let (building, manifests) ← store.manifests.beginBuilding dataEpoch operationId now
  if building.state = .active then
    if building.relationEpoch = relationEpoch then return { store with relations := relations }
    else .error (s!"operation {operationId} is already active at relation epoch " ++
      s!"{building.relationEpoch}")
  else
    let published := (manifests.carryParent building).update
      (fun row => row.publicationEpoch = building.publicationEpoch ∧ row.state = .building)
      fun row => { row with relationEpoch := relationEpoch, state := .active }
    return { store with
      manifests := published
      relations := relations.setActiveRelationEpoch relationEpoch
      epoch := some dataEpoch
      activeEpoch := some dataEpoch }

/-- The transactions on the manifests and relation tables of a project, and the checkpoints that
operations leave. -/
inductive StoreStep
  | relation (next : RelationTables.RelationStep)
  | beginBuilding (dataEpoch : Int) (operationId : String) (now : Int)
  | setParentDataEpoch (operationId : String) (parentDataEpoch : Option Int)
  | activate (dataEpoch relationEpoch : Int) (operationId : String) (now : Int)
  | markFailed (operationId : String)
  | setCheckpoints (inProgress unfinished : List String)

def attempt : StoreStep → Except String GenerationStore
  | .relation next => .ok { store with relations := store.relations.step next }
  | .beginBuilding dataEpoch operationId now => store.beginBuilding dataEpoch operationId now
  | .setParentDataEpoch operationId parentDataEpoch =>
    .ok (store.setParentDataEpoch operationId parentDataEpoch)
  | .activate dataEpoch relationEpoch operationId now =>
    store.activate dataEpoch relationEpoch operationId now
  | .markFailed operationId => .ok (store.markFailed operationId)
  | .setCheckpoints inProgress unfinished =>
    .ok { store with inProgress := inProgress, unfinished := unfinished }

/-- A failed transaction is rolled back. -/
def step (store : GenerationStore) (next : StoreStep) : GenerationStore :=
  (store.attempt next).toOption.getD store

end GenerationStore

end ContextEngine

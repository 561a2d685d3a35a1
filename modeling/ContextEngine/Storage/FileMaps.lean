/- digest: The file map a project publishes, and when a failed preparation lets go of the
   coordinator. -/

import ContextEngine.Storage.AbortedCandidates
import ContextEngine.Storage.ManifestCalls
import ContextEngine.Storage.ManifestFrames

set_option autoImplicit false

namespace ContextEngine

open Option HashMap

/-- The map of a project, and what each operation would change in it: set a hash or remove the
path. -/
structure FileMap where
  published : PathBuf → Option String
  changes : String → PathBuf → Option (Option String)

inductive FileMapEvent
  | register (operationId : String)
  | write (operationId : String) (path : PathBuf) (hash : String)
  | delete (operationId : String) (paths : List PathBuf)
  | publish (operationId : String)
  | discard (operationId : String)
  | quiet

namespace FileMap

/-- A map with changes applied to it. -/
def overlay (published : PathBuf → Option String) (changes : PathBuf → Option (Option String)) :
    PathBuf → Option String :=
  fun path => (changes path).getD (published path)

variable (map : FileMap)

def setChanges (operationId : String)
    (changes : PathBuf → Option (Option String)) : FileMap :=
  { map with changes := fun op => if op = operationId then changes else map.changes op }

def apply : FileMapEvent → FileMap
  | .register operationId => map.setChanges operationId fun _ => none
  | .discard operationId => map.setChanges operationId fun _ => none
  | .write operationId path hash => map.setChanges operationId fun p =>
    if p = path then some (some hash) else map.changes operationId p
  | .delete operationId paths => map.setChanges operationId fun p =>
    if p ∈ paths then some none else map.changes operationId p
  | .publish operationId =>
    { map.setChanges operationId (fun _ => none) with
      published := overlay map.published (map.changes operationId) }
  | .quiet => map

theorem setChanges_self (operationId : String) :
    map.setChanges operationId (map.changes operationId) = map := by
  have same : (fun op => if op = operationId then map.changes operationId else map.changes op) =
      map.changes := by
    funext op
    split_ifs with own
    · rw [own]
    · rfl
  rw [setChanges, same]

end FileMap

namespace GenerationRows

variable (rows : GenerationRows)

def hash (path : PathBuf) : Option String := (rows.files.lookup path).join

def visible (parent : Option GenerationRows) (path : PathBuf) : Option String :=
  (rows.hash path).or
    (if path ∈ rows.overrides.keys then none else parent.bind fun inherited => inherited.hash path)

def Encodes (changes : PathBuf → Option (Option String)) : Prop :=
  ∀ path, rows.hash path = (changes path).join ∧
    (path ∈ rows.overrides.keys ↔ (changes path).isSome)

def CoveredOver (parent : GenerationRows) : Prop :=
  ∀ path, path ∉ rows.overrides.keys → rows.hash path = none ∨ rows.hash path = parent.hash path

def Alike (other : GenerationRows) : Prop :=
  rows.files = other.files ∧ rows.overrides = other.overrides

variable {rows}

theorem Alike.hash {other : GenerationRows} (alike : rows.Alike other) :
    rows.hash = other.hash := by
  funext path
  rw [GenerationRows.hash, alike.1]
  rfl

theorem Alike.encodes {other : GenerationRows} (alike : rows.Alike other)
    {changes : PathBuf → Option (Option String)} (encodes : other.Encodes changes) :
    rows.Encodes changes := by
  intro path
  rw [alike.hash, alike.2]
  exact encodes path

theorem visible_none : rows.visible none = rows.hash := by
  funext path
  show Option.or _ (if _ then none else none) = _
  rw [ite_self, or_none]

variable {changes : PathBuf → Option (Option String)}

theorem visible_of_encodes (encodes : rows.Encodes changes) (parent : GenerationRows) :
    rows.visible (some parent) = FileMap.overlay parent.hash changes := by
  funext path
  obtain ⟨own, covered⟩ := encodes path
  rw [visible, FileMap.overlay, own]
  cases change : changes path with
  | none =>
    rw [if_neg fun mem => by rw [change] at covered; cases covered.1 mem]
    rfl
  | some result =>
    rw [if_pos (covered.2 (by rw [change]; rfl))]
    cases result <;> rfl

theorem coveredOver_of_encodes
    (encodes : rows.Encodes changes) (parent : GenerationRows) : rows.CoveredOver parent := by
  intro path uncovered
  obtain ⟨own, covered⟩ := encodes path
  left
  rw [own]
  cases change : changes path with
  | none => rfl
  | some result => exact absurd (covered.2 (by rw [change]; rfl)) uncovered

theorem encodes_empty : empty.Encodes fun _ => none := by
  intro path
  exact ⟨rfl, iff_of_false List.not_mem_nil fun absent => by cases absent⟩

theorem Encodes.writeFile (encodes : rows.Encodes changes) (file : ChangedFile) :
    (rows.writeFile file).Encodes fun path =>
      if path = file.path then some (some file.contentHash) else changes path := by
  intro path
  obtain ⟨own, covered⟩ := encodes path
  rw [hash, GenerationRows.writeFile, lookup_insert_eq, ← AList.mem_keys, AList.mem_insert,
    AList.mem_keys]
  beta_reduce
  by_cases written : path = file.path
  · rw [if_pos written, if_pos written]
    exact ⟨rfl, iff_of_true (Or.inl written) rfl⟩
  · rw [if_neg written, if_neg written, or_iff_right written]
    exact ⟨own, covered⟩

theorem mem_keys_registerOverrides {paths : List PathBuf} {disposition : OverrideDisposition}
    {path : PathBuf} : path ∈ (rows.registerOverrides paths disposition).overrides.keys ↔
      path ∈ paths ∨ path ∈ rows.overrides.keys := by
  have listed : path ∈ (paths.map fun path => (path, disposition)).map Prod.fst ↔ path ∈ paths := by
    rw [List.map_map]
    simp only [Function.comp_def, List.map_id']
  rw [← AList.mem_keys, ← AList.lookup_isSome, registerOverrides, isSome_lookup_extend,
    listed, AList.lookup_isSome, AList.mem_keys]

theorem Encodes.registerDeleted (encodes : rows.Encodes changes) {paths : List PathBuf}
    (unwritten : ∀ path ∈ paths, rows.hash path = none) :
    ((rows.clearCandidateFileRows paths).registerOverrides paths .deleted).Encodes fun path =>
      if path ∈ paths then some none else changes path := by
  intro path
  obtain ⟨own, covered⟩ := encodes path
  rw [mem_keys_registerOverrides]
  show rows.hash path = _ ∧ (_ ∨ path ∈ rows.overrides.keys ↔ _)
  beta_reduce
  by_cases deleted : path ∈ paths
  · rw [if_pos deleted]
    exact ⟨unwritten path deleted, iff_of_true (Or.inl deleted) rfl⟩
  · rw [if_neg deleted, or_iff_right deleted]
    exact ⟨own, covered⟩

section Compaction

variable {parent : GenerationRows}

theorem hash_materialize (excluded : List PathBuf) (path : PathBuf) :
    (rows.materialize parent excluded).hash path =
      if path ∈ parent.files.keys ∧ path ∉ excluded then parent.hash path else rows.hash path := by
  rw [hash, materialize]
  by_cases copied : path ∈ parent.files.keys ∧ path ∉ excluded
  · obtain ⟨row, found⟩ := mem_keys_iff.1 copied.1
    have listed : (path, row) ∈ parent.files.toList.filter fun row => row.1 ∉ excluded :=
      List.mem_filter.2 ⟨mem_toList.2 found, decide_eq_true copied.2⟩
    rw [if_pos copied, hash, found]
    refine congrArg join (lookup_extend_of_mem listed fun other otherListed => ?_)
    have otherFound := mem_toList.1 (List.mem_filter.1 otherListed).1
    rw [found] at otherFound
    exact (some.inj otherFound).symm
  · rw [if_neg copied, hash]
    refine congrArg join ?_
    rw [lookup_extend_of_notMem]
    · show (eraseAll rows.files _).lookup path = _
      rw [lookup_eraseAll, if_neg fun mem => copied ?_]
      obtain ⟨stored, free⟩ := List.mem_filter.1 mem
      exact ⟨stored, of_decide_eq_true free⟩
    · intro mem
      obtain ⟨row, listed, rfl⟩ := List.mem_map.1 mem
      obtain ⟨stored, free⟩ := List.mem_filter.1 listed
      refine copied ⟨?_, of_decide_eq_true free⟩
      exact mem_keys_iff.2 ⟨row.2, mem_toList.1 stored⟩

private theorem hash_eq_none_of_notMem {path : PathBuf} (missing : path ∉ parent.files.keys) :
    parent.hash path = none := by
  rw [hash]
  cases found : parent.files.lookup path with
  | none => rfl
  | some row => exact absurd (mem_keys_iff.2 ⟨row, found⟩) missing

theorem visible_materialize (covered : rows.CoveredOver parent) :
    (rows.materialize parent rows.overrides.keys).visible (some parent) =
      rows.visible (some parent) := by
  funext path
  rw [visible, visible, hash_materialize]
  show Option.or _ (if path ∈ rows.overrides.keys then _ else _) = _
  by_cases hidden : path ∈ rows.overrides.keys
  · rw [if_pos hidden, if_neg fun copied => copied.2 hidden]
  · rw [if_neg hidden]
    show or _ (parent.hash path) = or _ (parent.hash path)
    split_ifs with copied
    · rcases covered path hidden with none | same
      · rw [none]
        cases parent.hash path <;> rfl
      · rw [same]
    · rfl

theorem coveredOver_materialize (covered : rows.CoveredOver parent) :
    (rows.materialize parent rows.overrides.keys).CoveredOver parent := by
  intro path uncovered
  rw [hash_materialize]
  split_ifs
  · exact Or.inr rfl
  · exact covered path uncovered

theorem hash_materialize_eq (covered : rows.CoveredOver parent) :
    (rows.materialize parent rows.overrides.keys).hash = rows.visible (some parent) := by
  rw [← visible_materialize covered]
  funext path
  rw [visible]
  show _ = or _ (if path ∈ rows.overrides.keys then _ else parent.hash path)
  rw [hash_materialize]
  by_cases hidden : path ∈ rows.overrides.keys
  · rw [if_pos hidden, or_none]
  · rw [if_neg hidden]
    split_ifs with copied
    · cases parent.hash path <;> rfl
    · have missing : path ∉ parent.files.keys := fun stored => copied ⟨stored, hidden⟩
      rw [hash_eq_none_of_notMem missing, or_none]

end Compaction

end GenerationRows

open GenerationStore (PrepareFault candidateParent candidateMatchesActive)

/-- Whether the candidate that an interrupted run left can be adopted; no state is changed. -/
def GenerationStore.isCandidateAdoptable (store : GenerationStore) (operationId : String) : Bool :=
  let activeEpoch := (store.manifests.getActive.map ProjectIndexManifestRow.dataEpoch).getD 0
  match store.manifests.getBuildingByOperation operationId with
  | some manifest => candidateMatchesActive manifest activeEpoch
  | none => false

namespace StorageCoordinator

/-- A call of `begin_hot_update_candidate`: its arguments, where it fails, and whether the manifest
of a failed preparation can be marked. -/
structure PrepareCall where
  operationId : String
  resume : Bool
  now : Int
  fault : Option PrepareFault
  marked : Bool

variable (coordinator : StorageCoordinator) (call : PrepareCall)

def run : StorageCoordinator × Except String Int :=
  coordinator.beginHotUpdateCandidate call.operationId call.resume call.now call.fault call.marked

/-- The operation holds the coordinator, and its manifest is ready on the next epoch above the
active generation, without rows. -/
structure Registers (operationId : String) : Prop where
  held : (coordinator.run call).1.candidateOperation = some operationId
  returned : (coordinator.run call).2 = .ok coordinator.store.nextCandidateEpoch
  counter : (coordinator.run call).1.epoch = coordinator.store.nextCandidateEpoch
  manifest : ∃ row ∈ (coordinator.run call).1.store.manifests.rows,
    row.operationId = operationId ∧ row.state = .building ∧ row.candidateReady = true ∧
      row.dataEpoch = coordinator.store.nextCandidateEpoch ∧
      row.parentDataEpoch = candidateParent coordinator.store.activeDataEpoch
  cleared : (coordinator.run call).1.store.rows coordinator.store.nextCandidateEpoch = .empty

/-- The call resumes an operation on a free coordinator, nothing fails, and the operation has a
stored candidate that cannot be adopted. -/
structure Resumes (candidate : ProjectIndexManifestRow) : Prop where
  free : coordinator.candidateOperation = none
  resume : call.resume = true
  works : call.fault = none
  stored : coordinator.store.manifests.findOperation call.operationId = some candidate
  unpublished : candidate.state ≠ .active
  unfit : coordinator.store.isCandidateAdoptable call.operationId = false

/-- An error leaves no operation in hold of the coordinator; a resumed operation whose stored
candidate cannot be adopted gets a new one; and the check without side effects agrees with the
adoption. -/
structure Prepares : Prop where
  releases : ∀ message, (coordinator.run call).2 = .error message →
    (coordinator.run call).1.candidateOperation = none
  fallsBack : ∀ candidate, coordinator.Resumes call candidate →
    coordinator.Registers call call.operationId
  agrees : coordinator.store.isCandidateAdoptable call.operationId =
    (coordinator.store.tryAdoptExistingCandidate call.operationId).isSome

/-- No other operation holds the coordinator, the look-up of a candidate to adopt does not fail,
and a stored candidate that cannot be adopted is of the next epoch. -/
structure Preparable : Prop where
  own : ∀ holder, coordinator.candidateOperation = some holder → holder = call.operationId
  readable : coordinator.candidateOperation = none → call.resume = true →
    call.fault ≠ some .adoptionRead
  next : ∀ candidate, coordinator.Resumes call candidate →
    candidate.dataEpoch = coordinator.store.nextCandidateEpoch

variable {coordinator} {call}

theorem isCandidateAdoptable_eq (store : GenerationStore) (op : String) :
    store.isCandidateAdoptable op = (store.tryAdoptExistingCandidate op).isSome := by
  rw [GenerationStore.isCandidateAdoptable, GenerationStore.tryAdoptExistingCandidate]
  cases store.manifests.getBuildingByOperation op with
  | none => rfl
  | some manifest =>
    rw [Option.isSome_map, Option.filter_some]
    split_ifs with fits
    · exact fits
    · simpa using fits

section Registration

variable {store compacted : GenerationStore} {row : ProjectIndexManifestRow}
  {op : String} {candidateEpoch activeEpoch now : Int}

theorem findOperation_compactInherited (store : GenerationStore) (fault : Option PrepareFault)
    (found : store.manifests.findOperation op = some row) :
    ∃ parent, (store.compactInherited fault).1.manifests.findOperation op =
      some { row with parentDataEpoch := parent } := by
  have unchanged : ∃ parent, store.manifests.findOperation op =
      some { row with parentDataEpoch := parent } := ⟨row.parentDataEpoch, found⟩
  rw [GenerationStore.compactInherited]
  cases store.manifests.getActive with
  | none => exact unchanged
  | some active =>
    dsimp only
    cases active.parentDataEpoch with
    | none => exact unchanged
    | some parent =>
      dsimp only
      rw [GenerationStore.compactGeneration]
      split_ifs
      · exact unchanged
      · exact unchanged
      · have unlinked :
            (store.manifests.update (fun row => decide (row.operationId = active.operationId))
              fun row => { row with parentDataEpoch := none }).findOperation op = _ :=
          ProjectIndexManifests.findOperation_update fun _ => rfl
        rw [found, Option.map_some, ProjectIndexManifests.updated] at unlinked
        split_ifs at unlinked
        · exact ⟨none, unlinked⟩
        · exact ⟨row.parentDataEpoch, unlinked⟩

theorem registerCandidate_of_stored (found : store.manifests.findOperation op = some row)
    (sameEpoch : row.dataEpoch = candidateEpoch) (unpublished : row.state ≠ .active) :
    ∃ registered, store.registerCandidate candidateEpoch activeEpoch op now = .ok registered ∧
      (∃ new ∈ registered.manifests.rows, new.operationId = op ∧ new.state = .building ∧
        new.candidateReady = true ∧ new.dataEpoch = candidateEpoch ∧
        new.parentDataEpoch = candidateParent activeEpoch) ∧
      registered.rows candidateEpoch = .empty := by
  have mem := List.mem_of_find?_eq_some found
  have own : row.operationId = op := ProjectIndexManifests.operationId_of_found found
  rw [GenerationStore.registerCandidate, GenerationStore.beginBuilding,
    ProjectIndexManifests.beginBuilding, found]
  simp only [sameEpoch, ne_eq, not_true_eq_false, if_false]
  have cleared : ∀ (manifests : ProjectIndexManifests),
      ((({ store with manifests := manifests } : GenerationStore).clearCandidate
        candidateEpoch).markCandidateReady op).rows candidateEpoch = .empty := by
    intro manifests
    exact if_pos rfl
  split_ifs with failed
  · refine ⟨_, rfl, ⟨{ row with
        state := .building, relationEpoch := 0, candidateReady := true, createdAt := now,
        parentDataEpoch := candidateParent activeEpoch }, ?_, own, rfl, rfl, sameEpoch, rfl⟩,
      cleared _⟩
    change _ ∈ (((store.manifests.update _ _).setParentDataEpoch _ _).markCandidateReady _).rows
    rw [ProjectIndexManifests.markCandidateReady, ProjectIndexManifests.setParentDataEpoch]
    simp only [ProjectIndexManifests.rows_update, List.mem_map, exists_exists_and_eq_and]
    refine ⟨row, mem, ?_⟩
    simp [ProjectIndexManifests.updated, own]
  · have building : row.state = .building := by
      cases state : row.state with
      | building => rfl
      | active => exact absurd state unpublished
      | failed => exact absurd state failed
    refine ⟨_, rfl, ⟨{ row with
        candidateReady := true, parentDataEpoch := candidateParent activeEpoch }, ?_, own,
        building, rfl, sameEpoch, rfl⟩, cleared _⟩
    change _ ∈ ((store.manifests.setParentDataEpoch _ _).markCandidateReady _).rows
    rw [ProjectIndexManifests.markCandidateReady, ProjectIndexManifests.setParentDataEpoch]
    simp only [ProjectIndexManifests.rows_update, List.mem_map, exists_exists_and_eq_and]
    refine ⟨row, mem, ?_⟩
    simp [ProjectIndexManifests.updated, own, building]

theorem registerCandidate_of_other (found : store.manifests.findOperation op = some row)
    (otherEpoch : row.dataEpoch ≠ candidateEpoch) :
    ∃ message, store.registerCandidate candidateEpoch activeEpoch op now =
      .error message := by
  rw [GenerationStore.registerCandidate, GenerationStore.beginBuilding,
    ProjectIndexManifests.beginBuilding, found]
  simp only [ne_eq, otherEpoch, not_false_eq_true, if_true]
  exact ⟨_, rfl⟩

theorem compactInherited_none (store : GenerationStore) :
    (store.compactInherited none).2 = .ok () := by
  rw [GenerationStore.compactInherited]
  cases store.manifests.getActive with
  | none => rfl
  | some active =>
    dsimp only
    cases active.parentDataEpoch with
    | none => rfl
    | some parent => rfl

end Registration

theorem run_of_resumes {candidate : ProjectIndexManifestRow}
    (resumes : coordinator.Resumes call candidate) :
    (∃ message, (coordinator.store.compactInherited none).1.registerCandidate
        coordinator.store.nextCandidateEpoch coordinator.store.activeDataEpoch call.operationId
        call.now = .error message ∧ (coordinator.run call).2 = .error message) ∨
    ∃ registered, (coordinator.store.compactInherited none).1.registerCandidate
        coordinator.store.nextCandidateEpoch coordinator.store.activeDataEpoch call.operationId
        call.now = .ok registered ∧
      coordinator.run call = ({
        store := registered
        epoch := coordinator.store.nextCandidateEpoch
        candidateOperation := some call.operationId
        candidateRelationEpoch := 0 }, .ok coordinator.store.nextCandidateEpoch) := by
  have unadopted : coordinator.store.tryAdoptExistingCandidate call.operationId = none := by
    have unfit := resumes.unfit
    rwa [isCandidateAdoptable_eq, Option.isSome_eq_false_iff, Option.isNone_iff_eq_none] at unfit
  have compacted := compactInherited_none coordinator.store
  rw [run, beginHotUpdateCandidate, resumes.free, resumes.resume, resumes.works, unadopted]
  simp only [reduceCtorEq, if_false, Option.isSome_none, Bool.false_eq_true, and_false, if_true,
    prepareCandidate, GenerationStore.inheritCandidate, compacted, false_or]
  cases registration : (coordinator.store.compactInherited none).1.registerCandidate
      coordinator.store.nextCandidateEpoch coordinator.store.activeDataEpoch call.operationId
      call.now with
  | error message => exact Or.inl ⟨message, rfl, rfl⟩
  | ok registered => exact Or.inr ⟨registered, rfl, rfl⟩

/-- A project whose operation "update" prepared data epoch 2, and "other" published it after a
restart; the coordinator has just been started again. -/
def superseded : StorageCoordinator :=
  let published : StorageCoordinator := {
    store := GenerationStore.empty.step (.activate 1 0 "initial" 0)
    epoch := 1
    candidateOperation := none
    candidateRelationEpoch := 0 }
  let prepared := (published.step (.prepare "update" false 0 none true)).step (.restart true)
  ((prepared.step (.prepare "other" false 0 none true)).step (.activate "other" 0)).step
    (.restart true)

theorem registers_iff {candidate : ProjectIndexManifestRow}
    (resumes : coordinator.Resumes call candidate) :
    coordinator.Registers call call.operationId ↔
      candidate.dataEpoch = coordinator.store.nextCandidateEpoch := by
  obtain ⟨parent, found⟩ := findOperation_compactInherited coordinator.store none resumes.stored
  constructor
  · intro registers
    by_contra otherEpoch
    obtain ⟨message, refused⟩ :
        ∃ message, (coordinator.store.compactInherited none).1.registerCandidate
          coordinator.store.nextCandidateEpoch coordinator.store.activeDataEpoch call.operationId
          call.now = .error message := registerCandidate_of_other found otherEpoch
    rcases run_of_resumes resumes with ⟨_, _, failed⟩ | ⟨registered, accepted, _⟩
    · have returned := registers.returned
      rw [failed] at returned
      cases returned
    · rw [refused] at accepted
      cases accepted
  · intro sameEpoch
    obtain ⟨registered, accepted, manifest, cleared⟩ :
        ∃ registered, (coordinator.store.compactInherited none).1.registerCandidate
            coordinator.store.nextCandidateEpoch coordinator.store.activeDataEpoch
            call.operationId call.now = .ok registered ∧ _ :=
      registerCandidate_of_stored found sameEpoch resumes.unpublished
    rcases run_of_resumes resumes with ⟨_, refused, _⟩ | ⟨_, accepted', done⟩
    · rw [accepted] at refused
      cases refused
    · rw [accepted] at accepted'
      cases accepted'
      constructor
      · rw [done]
      · rw [done]
      · rw [done]
      · rw [done]
        exact manifest
      · rw [done]
        exact cleared

/-- An error lets go of the coordinator unless another operation holds it or the look-up of a
candidate to adopt fails. -/
theorem releases_iff :
    (∀ message, (coordinator.run call).2 = .error message →
      (coordinator.run call).1.candidateOperation = none) ↔
    (∀ holder, coordinator.candidateOperation = some holder → holder = call.operationId) ∧
      (coordinator.candidateOperation = none → call.resume = true →
        call.fault ≠ some .adoptionRead) := by
  cases held : coordinator.candidateOperation with
  | some holder =>
    by_cases own : holder = call.operationId
    · have returned : coordinator.run call = (coordinator, .ok coordinator.epoch) := by
        rw [run, beginHotUpdateCandidate, if_pos (by rw [held, own])]
      simp [returned, own]
    · have refused : coordinator.run call =
          (coordinator, .error "another hot-update candidate is already prepared") := by
        rw [run, beginHotUpdateCandidate, if_neg (by simpa [held] using own),
          if_pos (by rw [held]; rfl)]
      simp [refused, held, own]
  | none =>
    by_cases unread : call.resume = true ∧ call.fault = some .adoptionRead
    · have kept : coordinator.run call =
          ({ coordinator with candidateOperation := some call.operationId },
            .error "failed to read the candidate") := by
        rw [run, beginHotUpdateCandidate, if_neg (by simp [held]), if_neg (by simp [held])]
        exact if_pos unread
      simp [kept, unread.1, unread.2]
    · have readable : call.resume = true → call.fault ≠ some .adoptionRead :=
        fun resume fault => unread ⟨resume, fault⟩
      have allowed : (∀ holder, (none : Option String) = some holder → holder = call.operationId) ∧
          (none = (none : Option String) → call.resume = true →
            call.fault ≠ some .adoptionRead) := by
        refine ⟨fun holder same => ?_, fun _ => readable⟩
        cases same
      refine iff_of_true ?_ allowed
      rw [run, beginHotUpdateCandidate, if_neg (by simp [held]), if_neg (by simp [held])]
      dsimp only
      rw [if_neg unread]
      cases (if call.resume = true then
          coordinator.store.tryAdoptExistingCandidate call.operationId else none) with
      | some epoch => exact fun message failed => nomatch failed
      | none =>
        dsimp only
        cases (({ coordinator with candidateOperation := some call.operationId } :
          StorageCoordinator).prepareCandidate call.operationId call.now call.fault).2 with
        | ok epoch => exact fun message failed => nomatch failed
        | error message => exact fun _ _ => rfl

/-- A call prepares as it should if and only if no other operation holds the coordinator, the
look-up does not fail, and a stored candidate that cannot be adopted is of the next epoch. -/
theorem prepares_iff (coordinator : StorageCoordinator) (call : PrepareCall) :
    coordinator.Prepares call ↔ coordinator.Preparable call := by
  constructor
  · intro prepares
    obtain ⟨own, readable⟩ := releases_iff.1 prepares.releases
    exact ⟨own, readable, fun candidate resumes =>
      (registers_iff resumes).1 (prepares.fallsBack candidate resumes)⟩
  · intro preparable
    exact ⟨releases_iff.2 ⟨preparable.own, preparable.readable⟩, fun candidate resumes =>
      (registers_iff resumes).2 (preparable.next candidate resumes),
      isCandidateAdoptable_eq coordinator.store call.operationId⟩

/-- A failed look-up leaves the operation in hold of a free coordinator; a candidate that another
publication superseded is not replaced. -/
theorem prepares_fails :
    ¬ superseded.Prepares {
      operationId := "update", resume := true, now := 0, fault := some .adoptionRead,
      marked := true } ∧
    ¬ superseded.Prepares {
      operationId := "update", resume := true, now := 0, fault := none, marked := true } := by
  constructor
  · intro prepares
    have released := prepares.releases "failed to read the candidate" (by decide +kernel)
    exact absurd released (by decide +kernel)
  · intro prepares
    obtain ⟨candidate, stored⟩ : ∃ candidate,
        superseded.store.manifests.findOperation "update" = some candidate :=
      Option.isSome_iff_exists.1 (by decide +kernel)
    have unpublished : (superseded.store.manifests.findOperation "update").all
        (fun row => row.state ≠ .active) = true := by decide +kernel
    have registers := prepares.fallsBack candidate {
      free := by decide +kernel
      resume := rfl
      works := rfl
      stored := stored
      unpublished := by simpa [stored] using unpublished
      unfit := by decide +kernel }
    have held := registers.held
    exact absurd held (by decide +kernel)

end StorageCoordinator

end ContextEngine

/- digest: The published generation refines the file map of the published operations. -/

import ContextEngine.Storage.FileMaps

set_option autoImplicit false

namespace ContextEngine

open StorageCoordinator (CandidateStep)

namespace TrackedCoordinator

variable (coordinator : TrackedCoordinator)

/-- An activation that makes a generation the published one, and not one that repeats itself. -/
def publishes (operationId : String) (now : Int) : Bool :=
  (coordinator.activateHotUpdateCandidate operationId now).isOk ∧
    (coordinator.store.manifests.findOperation operationId).map
      ProjectIndexManifestRow.state ≠ some .active

def fileMapEvent (next : CandidateStep) : FileMapEvent :=
  match next with
  | .prepare .. =>
    match coordinator.registration next with
    | some registered => .register registered.2
    | none => .quiet
  | .writeFile operationId file => .write operationId file.path file.contentHash
  | .registerDeletedFiles operationId paths overridden =>
    if overridden ∧ coordinator.candidateOperation.isSome then .delete operationId paths
    else .quiet
  | .activate operationId now =>
    if coordinator.publishes operationId now then .publish operationId else .quiet
  | .fail operationId marked _ => if marked then .discard operationId else .quiet
  | _ => .quiet

/-- The hash map that the published tables give their readers. -/
def publishedHashes (path : PathBuf) : Option String :=
  coordinator.store.publishedTables.storedHashes.lookup path

/-- The operation holds the coordinator with its own candidate, above the published generation. -/
structure Holds (operationId : String) : Prop where
  holder : coordinator.candidateOperation = some operationId
  candidate : coordinator.Candidate operationId coordinator.epoch
  next : coordinator.epoch = coordinator.store.activeDataEpoch + 1

/-- The conditions on a step: writes, deletions and publications of the operation that holds its
candidate; no deletion of a path that has an own row; publication on a generation that no manifest
links to another, by a manifest that is newer than the published one; aborts that clear nothing
others need; and republication by an operation without a newer manifest. -/
def Admits : CandidateStep → Prop
  | .writeFile operationId _ => coordinator.Holds operationId
  | .registerDeletedFiles operationId paths overridden =>
    overridden = true → coordinator.candidateOperation.isSome = true →
      ∀ path ∈ paths, coordinator.Holds operationId ∧
        (coordinator.store.rows coordinator.epoch).hash path = none
  | .activate operationId now =>
    coordinator.publishes operationId now = true → coordinator.Holds operationId ∧
      coordinator.store.manifests.parentDataEpochOf coordinator.store.activeDataEpoch = none ∧
      ∀ row ∈ coordinator.store.manifests.rows, row.operationId = operationId →
        ∀ active, coordinator.store.manifests.getActive = some active →
          active.publicationEpoch < row.publicationEpoch
  | .fail operationId marked cleared => coordinator.ClearsOwn (.fail operationId marked cleared)
  | .republish operationId relationEpoch now =>
    (coordinator.republish operationId relationEpoch now).isOk = true →
      ∀ row ∈ coordinator.store.manifests.rows, row.operationId = operationId →
        ∀ active, coordinator.store.manifests.getActive = some active →
          row.publicationEpoch ≤ active.publicationEpoch
  | _ => True

end TrackedCoordinator

variable {active : ProjectIndexManifestRow}

theorem resolve_of_published {store : GenerationStore}
    (published : store.manifests.Published active) :
    GenerationView.resolve store.publishedTables =
      { ownEpoch := active.dataEpoch
        ancestors := active.parentDataEpoch.toList
        excludedFiles := (store.rows active.dataEpoch).overrides.keys } := by
  rw [GenerationStore.publishedTables, published.isActive]
  show GenerationView.mk _ (ancestorsFrom _ 2 active.parentDataEpoch) _ = _
  cases link : active.parentDataEpoch with
  | none => rfl
  | some parent =>
    have full : (store.hashTables (some active)).parentDataEpochOf parent = none :=
      published.shallow parent link
    rw [ancestorsFrom, if_pos (published.links active published.mem parent link).1, full]
    rfl

theorem lookup_storedHashes_of_published {store : GenerationStore}
    (published : store.manifests.Published active)
    (path : PathBuf) :
    store.publishedTables.storedHashes.lookup path =
      (store.rows active.dataEpoch).visible (active.parentDataEpoch.map store.rows) path := by
  rw [FileHashTables.lookup_storedHashes, resolve_of_published published, GenerationRows.visible]
  congr 1
  split_ifs
  · rfl
  · cases active.parentDataEpoch with
    | none => rfl
    | some parent =>
      show ([parent].findSome? fun epoch => (store.rows epoch).hash path) = _
      rw [List.findSome?_singleton]
      rfl

theorem mem_publishedEpochs_of_published {coord : TrackedCoordinator}
    (published : coord.store.manifests.Published active)
    {epoch : Int} : epoch ∈ coord.publishedEpochs ↔
      epoch = active.dataEpoch ∨ active.parentDataEpoch = some epoch := by
  show epoch ∈ GenerationView.ownEpoch _ :: GenerationView.ancestors _ ↔ _
  rw [resolve_of_published published, List.mem_cons]
  cases active.parentDataEpoch with
  | none => simp
  | some parent => simp [eq_comm]

/-- The tables of a project and its file map, with the published manifest between them. -/
structure RefinesAt (coordinator : TrackedCoordinator) (map : FileMap)
    (active : ProjectIndexManifestRow) : Prop where
  published : coordinator.store.manifests.Published active
  covered : ∀ parent, active.parentDataEpoch = some parent →
    (coordinator.store.rows active.dataEpoch).CoveredOver (coordinator.store.rows parent)
  reads : (coordinator.store.rows active.dataEpoch).visible
    (active.parentDataEpoch.map coordinator.store.rows) = map.published
  ahead : ∀ epoch, active.dataEpoch + 1 < epoch → coordinator.registrant epoch = none
  candidates : ∀ operationId, coordinator.Candidate operationId (active.dataEpoch + 1) →
    active.parentDataEpoch = none ∧
    (∃ row ∈ coordinator.store.manifests.rows, row.operationId = operationId ∧
      row.dataEpoch = active.dataEpoch + 1 ∧ row.parentDataEpoch = some active.dataEpoch) ∧
    (coordinator.store.rows (active.dataEpoch + 1)).Encodes (map.changes operationId)

/-- The tables of a published project refine a file map. -/
def Refines (coordinator : TrackedCoordinator) (map : FileMap) : Prop :=
  ∃ active, RefinesAt coordinator map active

variable {coord after : TrackedCoordinator} {map next : FileMap}
  {active : ProjectIndexManifestRow}

namespace RefinesAt

section

variable (refines : RefinesAt coord map active)

include refines

theorem activeDataEpoch :
    coord.store.activeDataEpoch = active.dataEpoch := by
  rw [GenerationStore.activeDataEpoch, refines.published.isActive]

theorem publishedHashes :
    coord.publishedHashes = map.published := by
  rw [← refines.reads]
  exact funext fun path => lookup_storedHashes_of_published refines.published path

variable {op : String}

/-- An abort by the operation that holds its own candidate deletes nothing that others need. -/
theorem clearsOwn_of_holds (holds : coord.Holds op) (marked cleared : Bool) :
    coord.ClearsOwn (.fail op marked cleared) := by
  have above := holds.next
  rw [refines.activeDataEpoch] at above
  refine fun _ _ => Or.inr ⟨fun read => ?_, fun other different candidate => ?_⟩
  · rcases (mem_publishedEpochs_of_published refines.published).1 read with own | parent
    · omega
    · have below := (refines.published.links active refines.published.mem _ parent).2
      omega
  · have mine := holds.candidate.1
    rw [candidate.1] at mine
    exact different (Option.some.inj mine)

theorem frame {active' : ProjectIndexManifestRow}
    (published : after.store.manifests.Published active')
    (epoch : active'.dataEpoch = active.dataEpoch)
    (link : active'.parentDataEpoch = active.parentDataEpoch)
    (rows : ∀ e, e = active.dataEpoch ∨ active.parentDataEpoch = some e →
      (after.store.rows e).Alike (coord.store.rows e))
    (same : next.published = map.published)
    (ahead : ∀ e, active.dataEpoch + 1 < e → after.registrant e = coord.registrant e)
    (candidates : ∀ operationId, after.Candidate operationId (active.dataEpoch + 1) →
      active.parentDataEpoch = none ∧
      (∃ row ∈ after.store.manifests.rows, row.operationId = operationId ∧
        row.dataEpoch = active.dataEpoch + 1 ∧ row.parentDataEpoch = some active.dataEpoch) ∧
      (after.store.rows (active.dataEpoch + 1)).Encodes (next.changes operationId)) :
    RefinesAt after next active' := by
  have own := rows _ (Or.inl rfl)
  constructor
  · exact published
  · intro parent linked path uncovered
    rw [link] at linked
    rw [epoch] at uncovered ⊢
    rw [own.2] at uncovered
    rw [own.hash, (rows parent (Or.inr linked)).hash]
    exact refines.covered parent linked path uncovered
  · rw [epoch, link, same, ← refines.reads]
    funext path
    rw [GenerationRows.visible, GenerationRows.visible, own.hash, own.2]
    cases linked : active.parentDataEpoch with
    | none => rfl
    | some parent =>
      show Option.or _ (if _ then _ else (after.store.rows parent).hash path) = _
      rw [(rows parent (Or.inr linked)).hash]
      rfl
  · intro e above
    rw [epoch] at above
    rw [ahead e above]
    exact refines.ahead e above
  · rw [epoch, link]
    exact candidates

theorem quiet (manifests : after.store.manifests = coord.store.manifests)
    (rows : ∀ e, (after.store.rows e).Alike (coord.store.rows e))
    (registrant : after.registrant = coord.registrant) : RefinesAt after map active := by
  refine refines.frame (manifests ▸ refines.published) rfl rfl (fun e _ => rows e) rfl
    (fun e _ => by rw [registrant]) fun operationId candidate => ?_
  rw [TrackedCoordinator.Candidate, registrant, manifests] at candidate
  obtain ⟨full, linked, encodes⟩ := refines.candidates operationId candidate
  exact ⟨full, manifests ▸ linked, (rows _).encodes encodes⟩

theorem updateCandidate (holds : coord.Holds op) (f : GenerationRows → GenerationRows)
    {changes : PathBuf → Option (Option String)}
    (manifests : after.store.manifests = coord.store.manifests)
    (rows : ∀ e, after.store.rows e =
      if e = coord.epoch then f (coord.store.rows e) else coord.store.rows e)
    (registrant : after.registrant = coord.registrant)
    (encodes : (coord.store.rows coord.epoch).Encodes (map.changes op) →
      (f (coord.store.rows coord.epoch)).Encodes changes) :
    RefinesAt after (map.setChanges op changes) active := by
  have next : coord.epoch = active.dataEpoch + 1 := by
    rw [holds.next, refines.activeDataEpoch]
  refine refines.frame (manifests ▸ refines.published) rfl rfl (fun e read => ?_) rfl
    (fun e _ => by rw [registrant]) fun other candidate => ?_
  · have low : e ≤ active.dataEpoch := by
      rcases read with rfl | linked
      · exact le_refl _
      · exact (refines.published.links active refines.published.mem e linked).2.le
    rw [rows, if_neg (by omega)]
    exact ⟨rfl, rfl⟩
  · rw [TrackedCoordinator.Candidate, registrant, manifests] at candidate
    have own := holds.candidate.1
    rw [next, candidate.1] at own
    cases own
    obtain ⟨full, linked, before⟩ := refines.candidates op candidate
    refine ⟨full, manifests ▸ linked, ?_⟩
    rw [rows, if_pos next.symm, ← next]
    show GenerationRows.Encodes _ (if op = op then changes else _)
    rw [if_pos rfl]
    exact encodes (next ▸ before)

theorem writeFile (holds : coord.Holds op) (file : ChangedFile) :
    RefinesAt (coord.step (.writeFile op file))
      (map.apply (coord.fileMapEvent (.writeFile op file))) active :=
  refines.updateCandidate holds (fun rows => rows.writeFile file) rfl (fun _ => rfl) rfl
    fun encodes => encodes.writeFile file

theorem registerDeletedFiles
    {paths : List PathBuf} {overridden : Bool}
    (admitted : coord.Admits (.registerDeletedFiles op paths overridden)) :
    RefinesAt (coord.step (.registerDeletedFiles op paths overridden))
      (map.apply (coord.fileMapEvent (.registerDeletedFiles op paths overridden)))
      active := by
  cases overridden with
  | false =>
    refine refines.quiet ?_ (fun e => ?_) rfl
    · show (coord.registerDeletedFiles paths false).1.store.manifests = _
      simp only [StorageCoordinator.registerDeletedFiles, Bool.false_eq_true, if_false]
      split_ifs <;> rfl
    · show ((coord.registerDeletedFiles paths false).1.store.rows e).Alike _
      simp only [StorageCoordinator.registerDeletedFiles, Bool.false_eq_true, if_false]
      split_ifs
      · exact ⟨rfl, rfl⟩
      · exact ⟨rfl, rfl⟩
      · show GenerationRows.Alike (if e = coord.epoch then _ else _) _
        split_ifs <;> exact ⟨rfl, rfl⟩
  | true =>
    by_cases idle : paths = [] ∨ coord.candidateOperation = none
    · have kept : (coord.registerDeletedFiles paths true).1 =
          coord.toStorageCoordinator :=
        StorageCoordinator.registerDeletedFiles_of_idle idle
      have same : map.apply (coord.fileMapEvent (.registerDeletedFiles op paths true)) = map := by
        rw [TrackedCoordinator.fileMapEvent]
        rcases idle with rfl | none
        · split_ifs
          · exact map.setChanges_self op
          · rfl
        · rw [if_neg (by rw [none]; simp)]
          rfl
      rw [same]
      refine refines.quiet ?_ (fun e => ?_) rfl
      · show (coord.registerDeletedFiles paths true).1.store.manifests = _
        rw [kept]
      · show ((coord.registerDeletedFiles paths true).1.store.rows e).Alike _
        rw [kept]
        exact ⟨rfl, rfl⟩
    · obtain ⟨listed, held⟩ := not_or.1 idle
      obtain ⟨holder, held⟩ := Option.ne_none_iff_exists'.1 held
      have isHeld : coord.candidateOperation.isSome = true := by rw [held]; rfl
      have allowed := admitted rfl isHeld
      obtain ⟨path, mem⟩ := List.exists_mem_of_ne_nil paths listed
      have event : coord.fileMapEvent (.registerDeletedFiles op paths true) =
          .delete op paths := if_pos ⟨rfl, isHeld⟩
      have stored := StorageCoordinator.store_registerDeletedFiles listed held
      rw [event]
      refine refines.updateCandidate (allowed path mem).1 (fun rows =>
        (rows.clearCandidateFileRows paths).registerOverrides paths .deleted) ?_ (fun e => ?_) rfl
        fun encodes => encodes.registerDeleted fun path mem => (allowed path mem).2
      · show (coord.registerDeletedFiles paths true).1.store.manifests = _
        rw [stored]
        rfl
      · show (coord.registerDeletedFiles paths true).1.store.rows e = _
        rw [stored]
        rfl

theorem markFailed (op : String)
    (manifests : after.store.manifests = coord.store.manifests.markFailed op)
    (rows : ∀ e, e = active.dataEpoch ∨ active.parentDataEpoch = some e →
      (after.store.rows e).Alike (coord.store.rows e))
    (spared : ∀ other, other ≠ op → coord.Candidate other (active.dataEpoch + 1) →
      (after.store.rows (active.dataEpoch + 1)).Alike (coord.store.rows (active.dataEpoch + 1)))
    (registrant : after.registrant = coord.registrant)
    (same : next.published = map.published)
    (changes : ∀ other, other ≠ op → next.changes other = map.changes other) :
    RefinesAt after next active := by
  have ownOnly : ∀ row : ProjectIndexManifestRow,
      decide (row.operationId = op ∧ row.state = .building) = true →
        row.operationId = op := fun row changed => (of_decide_eq_true changed).1
  have others : ∀ row : ProjectIndexManifestRow, row.operationId ≠ op →
      (row ∈ after.store.manifests.rows ↔ row ∈ coord.store.manifests.rows) := by
    intro row other
    rw [manifests]
    exact ProjectIndexManifests.mem_update_of_ne ownOnly (fun _ => rfl) other
  refine refines.frame (manifests ▸ refines.published.markFailed op) rfl rfl rows same
    (fun e _ => by rw [registrant]) fun other candidate => ?_
  obtain ⟨registered, row, mem, id, epoch, isBuilding⟩ := candidate
  have different : other ≠ op := by
    rintro rfl
    rw [manifests] at mem
    obtain ⟨old, _, rfl⟩ := ProjectIndexManifests.mem_update.1 mem
    cases changed : decide (old.operationId = other ∧ old.state = .building) with
    | true =>
      rw [ProjectIndexManifests.updated, if_pos changed] at isBuilding
      cases isBuilding
    | false =>
      rw [ProjectIndexManifests.updated_of_not changed] at id isBuilding
      exact of_decide_eq_false changed ⟨id, isBuilding⟩
  have before : coord.Candidate other (active.dataEpoch + 1) :=
    ⟨registrant ▸ registered, row, (others row (id ▸ different)).1 mem, id, epoch, isBuilding⟩
  obtain ⟨full, ⟨linked, linkedMem, linkedId, link⟩, encodes⟩ := refines.candidates other before
  refine ⟨full, ⟨linked, (others linked (linkedId ▸ different)).2 linkedMem, linkedId, link⟩, ?_⟩
  rw [changes other different]
  exact (spared other different before).encodes encodes

theorem fail
    {marked cleared : Bool} (own : coord.ClearsOwn (.fail op marked cleared)) :
    RefinesAt (coord.step (.fail op marked cleared))
      (map.apply (coord.fileMapEvent (.fail op marked cleared))) active := by
  cases marked with
  | false => exact refines.quiet rfl (fun _ => ⟨rfl, rfl⟩) rfl
  | true =>
    have kept : ∀ e, (cleared = true → e = coord.epoch → coord.store.rows coord.epoch = .empty) →
        (coord.step (.fail op true cleared)).store.rows e =
          coord.store.rows e := by
      intro e nothing
      rw [TrackedCoordinator.rows_fail]
      split_ifs with all
      · rw [← nothing all.2.1 all.2.2, all.2.2]
      · rfl
    refine refines.markFailed op ?_ (fun e read => ?_)
      (fun other different candidate => ?_) rfl rfl fun other different => if_neg different
    · cases cleared <;> rfl
    · rw [kept e fun isCleared isOwn => (own rfl isCleared).resolve_right fun free => ?_]
      · exact ⟨rfl, rfl⟩
      · exact free.1 (isOwn ▸ (mem_publishedEpochs_of_published refines.published).2 read)
    · rw [kept _ fun isCleared isOwn => (own rfl isCleared).resolve_right fun free => ?_]
      · exact ⟨rfl, rfl⟩
      · exact free.2 other different (isOwn ▸ candidate)

end

variable {op : String}

private theorem findOperation_of_active {manifests begun : ProjectIndexManifests}
    {building : ProjectIndexManifestRow} {dataEpoch now : Int}
    (published : manifests.Published active)
    (begins : manifests.beginBuilding dataEpoch op now = .ok (building, begun)) :
    (manifests.findOperation op).map ProjectIndexManifestRow.state = some .active ↔
      building.state = .active := by
  rcases ProjectIndexManifests.beginBuilding_cases begins with ⟨mem, rfl, _, _, _⟩ |
    ⟨old, mem, rfl, _, isFailed, rfl, _⟩ | ⟨fresh, _, _, isBuilding, _, _, _⟩
  · rw [published.findOperation_eq mem]
    exact ⟨Option.some.inj, congrArg some⟩
  · rw [published.findOperation_eq mem]
    show some old.state = _ ↔ _
    rw [isFailed]
    exact iff_of_false (fun same => by cases same) fun same => by cases same
  · rw [fresh, isBuilding]
    exact iff_of_false (fun same => by cases same) fun same => by cases same

private theorem rolledBack (refines : RefinesAt coord map active) {next : CandidateStep}
    {message : String} (failed : coord.attempt next = .error message)
    (unregistered : coord.registration next = none) :
    RefinesAt (coord.step next) map active := by
  have kept : coord.toStorageCoordinator.step next = coord.toStorageCoordinator := by
    rw [StorageCoordinator.step, failed]
    rfl
  refine refines.quiet ?_ (fun e => ?_) ?_
  · show (coord.toStorageCoordinator.step next).store.manifests = _
    rw [kept]
  · show ((coord.toStorageCoordinator.step next).store.rows e).Alike _
    rw [kept]
    exact ⟨rfl, rfl⟩
  · simp only [TrackedCoordinator.step, unregistered]

theorem activate (refines : RefinesAt coord map active) {now : Int}
    (admitted : coord.Admits (.activate op now)) :
    Refines (coord.step (.activate op now))
      (map.apply (coord.fileMapEvent (.activate op now))) := by
  rw [TrackedCoordinator.fileMapEvent]
  cases done : coord.activateHotUpdateCandidate op now with
  | error message =>
    rw [if_neg (by rw [TrackedCoordinator.publishes, done]; simp [Except.isOk, Except.toBool])]
    exact ⟨active, refines.rolledBack done rfl⟩
  | ok result =>
    have reached :
        coord.toStorageCoordinator.step (.activate op now) = result := by
      show (StorageCoordinator.activateHotUpdateCandidate _ _ _).toOption.getD _ = _
      rw [done]
      rfl
    obtain ⟨relationEpoch, published, publication, rfl⟩ :=
      StorageCoordinator.activateHotUpdateCandidate_eq_ok done
    have stored : (coord.step (.activate op now)).store = published :=
      congrArg StorageCoordinator.store reached
    obtain ⟨rows, building, begun, begins, outcome⟩ := GenerationStore.activate_cases publication
    have rowsKept : ∀ e, (coord.step (.activate op now)).store.rows e =
        coord.store.rows e := fun e => by rw [stored, rows]
    have ran : coord.publishes op now = true ↔ building.state ≠ .active := by
      rw [TrackedCoordinator.publishes, done, decide_eq_true_eq, ne_eq,
        findOperation_of_active refines.published begins]
      simp [Except.isOk, Except.toBool]
    rcases outcome with ⟨isActive, manifests, -⟩ | ⟨inactive, manifests, -⟩
    · rw [if_neg (fun publishes => ran.1 publishes isActive)]
      refine ⟨active, refines.quiet ?_ (fun e => ?_) rfl⟩
      · rw [stored, manifests]
      · rw [rowsKept e]
        exact ⟨rfl, rfl⟩
    · rw [if_pos (ran.2 inactive)]
      obtain ⟨holds, full, newer⟩ := admitted (ran.2 inactive)
      rw [refines.activeDataEpoch] at full
      have next : coord.epoch = active.dataEpoch + 1 := by
        rw [holds.next, refines.activeDataEpoch]
      have candidate := holds.candidate
      rw [next] at candidate begins
      obtain ⟨unlinked, ⟨row, mem, rfl, epoch, link⟩, encodes⟩ :=
        refines.candidates _ candidate
      obtain ⟨_, own, ownMem, sameId, _, isBuilding⟩ := candidate
      have same := refines.published.eq_of_operationId ownMem mem sameId
      subst same
      obtain ⟨rfl, rfl, publishes⟩ := refines.published.publish mem isBuilding epoch link
        (newer own mem rfl active refines.published.isActive) full begins
      rw [← manifests, ← stored] at publishes
      refine ⟨_, publishes, ?_, ?_, ?_, ?_⟩
      · intro parent linked
        have parentIs : building.parentDataEpoch = some parent := linked
        rw [parentIs] at link
        cases link
        show (GenerationStore.rows _ building.dataEpoch).CoveredOver _
        rw [rowsKept, rowsKept, epoch]
        exact GenerationRows.coveredOver_of_encodes encodes _
      · show (GenerationStore.rows _ building.dataEpoch).visible
          (building.parentDataEpoch.map _) = FileMap.overlay map.published (map.changes _)
        rw [rowsKept, link, epoch, Option.map_some, rowsKept,
          GenerationRows.visible_of_encodes encodes, ← refines.reads, unlinked,
          Option.map_none, GenerationRows.visible_none]
      · intro e above
        have beyond : building.dataEpoch + 1 < e := above
        exact refines.ahead e (by omega)
      · intro other isCandidate
        have unregistered : coord.registrant (building.dataEpoch + 1) = none :=
          refines.ahead _ (by omega)
        have registered : coord.registrant (building.dataEpoch + 1) = some other :=
          isCandidate.1
        rw [unregistered] at registered
        cases registered

theorem republish (refines : RefinesAt coord map active)
    {relationEpoch now : Int}
    (admitted : coord.Admits (.republish op relationEpoch now)) :
    Refines (coord.step (.republish op relationEpoch now)) map := by
  cases done : coord.republish op relationEpoch now with
  | error message => exact ⟨active, refines.rolledBack done rfl⟩
  | ok result =>
    have reached : coord.toStorageCoordinator.step (.republish op relationEpoch now) = result := by
      show (StorageCoordinator.republish _ _ _ _).toOption.getD _ = _
      rw [done]
      rfl
    have old := admitted (by rw [done]; rfl)
    rw [StorageCoordinator.republish, Runs.bind_eq_ok] at done
    obtain ⟨published, publication, done⟩ := done
    cases done
    have stored : (coord.step (.republish op relationEpoch now)).store =
        published := congrArg StorageCoordinator.store reached
    obtain ⟨rows, building, begun, begins, outcome⟩ := GenerationStore.activate_cases publication
    have rowsKept : ∀ e, ((coord.step (.republish op relationEpoch now)).store.rows e).Alike
          (coord.store.rows e) := fun e => by
      rw [stored, rows]
      exact ⟨rfl, rfl⟩
    rw [refines.activeDataEpoch] at begins
    rcases outcome with ⟨_, manifests, -⟩ | ⟨inactive, manifests, -⟩
    · exact ⟨active, refines.quiet (stored ▸ manifests) rowsKept rfl⟩
    · obtain ⟨⟨next, publishes, epoch, link⟩, others⟩ :=
        refines.published.republish begins inactive fun row mem own =>
          old row mem own active refines.published.isActive
      rw [← manifests, ← stored] at publishes others
      refine ⟨next, refines.frame publishes epoch link (fun e _ => rowsKept e) rfl
        (fun _ _ => rfl) fun other candidate => ?_⟩
      obtain ⟨registered, row, mem, id, rowEpoch, isBuilding⟩ := candidate
      have before : coord.Candidate other (active.dataEpoch + 1) :=
        ⟨registered, row, (others row (by omega)).1 mem, id, rowEpoch, isBuilding⟩
      obtain ⟨full, ⟨linked, linkedMem, linkedId, linkedEpoch, linkedTo⟩, encodes⟩ :=
        refines.candidates other before
      exact ⟨full, ⟨linked, (others linked (by omega)).2 linkedMem, linkedId, linkedEpoch,
        linkedTo⟩, (rowsKept _).encodes encodes⟩

end RefinesAt

end ContextEngine

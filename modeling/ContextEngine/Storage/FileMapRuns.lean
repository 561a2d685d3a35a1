/- digest: Runs of hot updates publish the file map of their activated operations. -/

import ContextEngine.Storage.FileMapRefinement

set_option autoImplicit false

namespace ContextEngine

open GenerationStore (PrepareFault)
open StorageCoordinator (CandidateStep)

variable {coord after : TrackedCoordinator} {map : FileMap}
  {active : ProjectIndexManifestRow}

namespace RefinesAt

section

variable (refines : RefinesAt coord map active)

include refines

variable {parent : Int}

private theorem not_candidate_of_inherits (link : active.parentDataEpoch = some parent)
    (op : String) :
    ¬ coord.Candidate op (active.dataEpoch + 1) := by
  intro candidate
  have full := (refines.candidates op candidate).1
  rw [link] at full
  cases full

private theorem materialized (link : active.parentDataEpoch = some parent)
    (manifests : after.store.manifests = coord.store.manifests)
    (rows : ∀ e, after.store.rows e = if e = active.dataEpoch then
      (coord.store.rows e).materialize (coord.store.rows parent) (coord.store.rows e).overrides.keys
      else coord.store.rows e)
    (registrant : after.registrant = coord.registrant) : RefinesAt after map active := by
  have below := (refines.published.links active refines.published.mem parent link).2
  have covered := refines.covered parent link
  have own := rows active.dataEpoch
  rw [if_pos rfl] at own
  have inherited : after.store.rows parent = coord.store.rows parent := by
    rw [rows, if_neg (by omega)]
  constructor
  · exact manifests ▸ refines.published
  · intro other linked
    rw [link] at linked
    cases linked
    rw [own, inherited]
    exact GenerationRows.coveredOver_materialize covered
  · rw [link, Option.map_some, own, inherited, GenerationRows.visible_materialize covered,
      ← refines.reads, link, Option.map_some]
  · intro e above
    rw [registrant]
    exact refines.ahead e above
  · intro operationId candidate
    rw [TrackedCoordinator.Candidate, registrant, manifests] at candidate
    exact absurd candidate (refines.not_candidate_of_inherits link operationId)

private theorem unlinked (link : active.parentDataEpoch = some parent)
    (manifests : after.store.manifests =
      coord.store.manifests.setParentDataEpoch active.operationId none)
    (rows : (after.store.rows active.dataEpoch).hash =
      ((coord.store.rows active.dataEpoch).materialize (coord.store.rows parent)
        (coord.store.rows active.dataEpoch).overrides.keys).hash)
    (registrant : after.registrant = coord.registrant) :
    RefinesAt after map { active with parentDataEpoch := none } := by
  constructor
  · exact manifests ▸ refines.published.unlink
  · intro other linked
    cases linked
  · rw [Option.map_none, GenerationRows.visible_none, rows,
      GenerationRows.hash_materialize_eq (refines.covered parent link), ← refines.reads, link,
      Option.map_some]
  · intro e above
    rw [registrant]
    exact refines.ahead e above
  · intro operationId candidate
    obtain ⟨registered, row, mem, id, epoch, isBuilding⟩ := candidate
    rw [manifests] at mem
    obtain ⟨old, oldMem, rfl⟩ := ProjectIndexManifests.mem_update.1 mem
    cases changed : decide (old.operationId = active.operationId) with
    | true =>
      have same := refines.published.eq_of_operationId oldMem refines.published.mem
        (of_decide_eq_true changed)
      subst same
      rw [ProjectIndexManifests.updated, if_pos changed] at isBuilding
      have isActive := refines.published.state
      rw [show old.state = .building from isBuilding] at isActive
      cases isActive
    | false =>
      rw [ProjectIndexManifests.updated_of_not changed] at id epoch isBuilding
      exact absurd ⟨registrant ▸ registered, old, oldMem, id, epoch, isBuilding⟩
        (refines.not_candidate_of_inherits link operationId)

theorem compacted (fault : Option PrepareFault)
    (store : after.store = (coord.store.compactInherited fault).1)
    (registrant : after.registrant = coord.registrant) :
    ∃ full, RefinesAt after map full ∧ full.dataEpoch = active.dataEpoch ∧
      ((coord.store.compactInherited fault).2 = .ok () → full.parentDataEpoch = none) := by
  cases link : active.parentDataEpoch with
  | none =>
    have idle : coord.store.compactInherited fault = (coord.store, .ok ()) := by
      rw [GenerationStore.compactInherited]
      simp only [refines.published.isActive, link]
    rw [idle] at store
    exact ⟨active, refines.quiet (congrArg GenerationStore.manifests store)
      (fun e => by rw [store]; exact ⟨rfl, rfl⟩) registrant, rfl, fun _ => link⟩
  | some parent =>
    have compacts : coord.store.compactInherited fault =
        coord.store.compactGeneration active.operationId active.dataEpoch parent
          fault := by
      rw [GenerationStore.compactInherited]
      simp only [refines.published.isActive, link]
    rw [compacts, GenerationStore.compactGeneration] at store ⊢
    by_cases unread : fault = some .overridesRead ∨ fault = some .materialize
    · rw [if_pos unread] at store ⊢
      exact ⟨active, refines.quiet (congrArg GenerationStore.manifests store)
        (fun e => by rw [store]; exact ⟨rfl, rfl⟩) registrant, rfl, fun done => by cases done⟩
    · rw [if_neg unread] at store ⊢
      dsimp only at store ⊢
      by_cases stopped : fault = some .externalEpochs ∨ fault = some .clearLink
      · rw [if_pos stopped] at store ⊢
        refine ⟨active, refines.materialized link (by rw [store]; rfl) (fun e => ?_) registrant,
          rfl, fun done => by cases done⟩
        rw [store]
        rfl
      · rw [if_neg stopped] at store ⊢
        refine ⟨_, refines.unlinked link (by rw [store]; rfl) ?_ registrant, rfl, fun _ => rfl⟩
        rw [store]
        show GenerationRows.hash (if _ then GenerationRows.clearOverrides (if _ then _ else _)
          else _) = _
        rw [if_pos rfl, if_pos rfl]
        rfl

private theorem registered (full : active.parentDataEpoch = none) {op : String} {now : Int}
    (done : coord.store.registerCandidate (active.dataEpoch + 1) active.dataEpoch op
      now = .ok after.store)
    (registrant : after.registrant = fun epoch =>
      if epoch = active.dataEpoch + 1 then some op else coord.registrant epoch) :
    RefinesAt after (map.apply (.register op)) active := by
  rw [GenerationStore.registerCandidate, Runs.bind_eq_ok] at done
  obtain ⟨begunStore, begins, done⟩ := done
  rw [GenerationStore.beginBuilding, Runs.bind_eq_ok] at begins
  obtain ⟨⟨building, begun⟩, begins, same⟩ := begins
  cases same
  have stored := (Except.ok.inj done).symm
  rw [GenerationStore.candidateParent, if_pos refines.published.proper] at stored
  obtain ⟨published, linked, _⟩ := refines.published.register begins
  have manifests : after.store.manifests =
      (begun.setParentDataEpoch op (some active.dataEpoch)).markCandidateReady
        op := congrArg GenerationStore.manifests stored
  have rows : ∀ e, after.store.rows e = if e = active.dataEpoch + 1 then
      (coord.store.rows e).clearRows.clearOverrides else coord.store.rows e :=
    fun e => congrFun (congrArg GenerationStore.rows stored) e
  rw [← manifests] at published linked
  refine refines.frame published rfl rfl (fun e read => ?_) rfl (fun e above => ?_)
    fun other candidate => ?_
  · have low : e ≤ active.dataEpoch := by
      rcases read with rfl | link
      · exact le_refl _
      · rw [full] at link
        cases link
    rw [rows, if_neg (by omega)]
    exact ⟨rfl, rfl⟩
  · rw [registrant]
    exact if_neg (by omega)
  · have same : other = op := by
      have own := candidate.1
      rw [registrant] at own
      dsimp only at own
      rw [if_pos rfl] at own
      exact (Option.some.inj own).symm
    subst same
    refine ⟨full, linked, ?_⟩
    rw [rows, if_pos rfl]
    show GenerationRows.Encodes _ (if other = other then _ else _)
    rw [if_pos rfl]
    exact GenerationRows.encodes_empty

end

private theorem inheritCandidate_cases (store : GenerationStore) (op : String) (now : Int)
    (fault : Option PrepareFault) :
    (∃ message, store.inheritCandidate op now fault =
      ((store.compactInherited fault).1, .error message)) ∨
    (store.compactInherited fault).2 = .ok () ∧ ∃ registered,
      (store.compactInherited fault).1.registerCandidate store.nextCandidateEpoch
        store.activeDataEpoch op now = .ok registered ∧
      store.inheritCandidate op now fault = (registered, .ok store.nextCandidateEpoch) := by
  rw [GenerationStore.inheritCandidate]
  cases outcome : (store.compactInherited fault).2 with
  | error message => exact Or.inl ⟨message, rfl⟩
  | ok done =>
    dsimp only
    by_cases stopped : fault = some .externalDelete ∨ fault = some .register
    · rw [if_pos stopped]
      exact Or.inl ⟨_, rfl⟩
    · rw [if_neg stopped]
      cases registers : (store.compactInherited fault).1.registerCandidate
          store.nextCandidateEpoch store.activeDataEpoch op now with
      | error message => exact Or.inl ⟨message, rfl⟩
      | ok registered => exact Or.inr ⟨rfl, registered, rfl, rfl⟩

private theorem inherited (refines : RefinesAt coord map active) (op : String)
    (now : Int) (fault : Option PrepareFault)
    (store : after.store = (coord.store.inheritCandidate op now fault).1) :
    (∀ message, (coord.store.inheritCandidate op now fault).2 = .error message →
      after.registrant = coord.registrant → Refines after map) ∧
    ∀ epoch, (coord.store.inheritCandidate op now fault).2 = .ok epoch →
      (after.registrant = fun e => if e = epoch then some op
        else coord.registrant e) → Refines after (map.apply (.register op)) := by
  have next : coord.store.nextCandidateEpoch = active.dataEpoch + 1 := by
    have proper := refines.published.proper
    rw [GenerationStore.nextCandidateEpoch, refines.activeDataEpoch]
    omega
  let compacted : TrackedCoordinator :=
    { coord with store := (coord.store.compactInherited fault).1 }
  obtain ⟨full, refined, epoch, unlinked⟩ : ∃ full, RefinesAt compacted map full ∧
      full.dataEpoch = active.dataEpoch ∧
      ((coord.store.compactInherited fault).2 = .ok () → full.parentDataEpoch = none) :=
    refines.compacted fault rfl rfl
  rcases inheritCandidate_cases coord.store op now fault with
    ⟨message, stops⟩ | ⟨done, registered, registers, proceeds⟩
  · rw [stops] at store ⊢
    refine ⟨fun _ _ registrant => ⟨full, refined.quiet ?_ (fun e => ?_) registrant⟩,
      fun _ absent => by cases absent⟩
    · exact congrArg GenerationStore.manifests store
    · rw [store]
      exact ⟨rfl, rfl⟩
  · rw [proceeds] at store ⊢
    refine ⟨fun _ absent => (by cases absent), fun reached same registrant => ?_⟩
    have isNext : coord.store.nextCandidateEpoch = reached := Except.ok.inj same
    subst isNext
    rw [next, refines.activeDataEpoch, ← epoch] at registers
    rw [next, ← epoch] at registrant
    rw [← show after.store = registered from store] at registers
    exact ⟨full, refined.registered (unlinked done) registers registrant⟩

private theorem released (refines : RefinesAt coord map active) {op : String}
    {marked : Bool} (store : after.store =
      if marked = true then coord.store.markFailed op else coord.store)
    (registrant : after.registrant = coord.registrant) : RefinesAt after map active := by
  cases marked with
  | false =>
    have kept : after.store = coord.store := store
    exact refines.quiet (congrArg GenerationStore.manifests kept)
      (fun e => by rw [kept]; exact ⟨rfl, rfl⟩) registrant
  | true =>
    have failed : after.store = coord.store.markFailed op := store
    have rows : ∀ e, (after.store.rows e).Alike (coord.store.rows e) := fun e => by
      rw [failed]
      exact ⟨rfl, rfl⟩
    exact refines.markFailed op (congrArg GenerationStore.manifests failed)
      (fun e _ => rows e) (fun _ _ _ => rows _) registrant rfl fun _ _ => rfl

theorem prepare (refines : RefinesAt coord map active) (op : String) (resume : Bool)
    (now : Int) (fault : Option PrepareFault) (marked : Bool) :
    Refines (coord.step (.prepare op resume now fault marked))
      (map.apply (coord.fileMapEvent (.prepare op resume now fault marked))) := by
  let reached := coord.step (.prepare op resume now fault marked)
  have begins : reached.toStorageCoordinator =
      (coord.beginHotUpdateCandidate op resume now fault marked).1 := rfl
  have unregistered : coord.registration (.prepare op resume now fault marked) =
      none → reached.registrant = coord.registrant ∧ map.apply (coord.fileMapEvent
        (.prepare op resume now fault marked)) = map := by
    intro none
    refine ⟨?_, ?_⟩
    · simp only [reached, TrackedCoordinator.step, none]
    · simp only [TrackedCoordinator.fileMapEvent, none]
      rfl
  have idle : coord.registration (.prepare op resume now fault marked) = none →
      reached.store = coord.store → Refines reached (map.apply (coord.fileMapEvent
        (.prepare op resume now fault marked))) := by
    intro none store
    rw [(unregistered none).2]
    exact ⟨active, refines.quiet (congrArg GenerationStore.manifests store)
      (fun e => by rw [store]; exact ⟨rfl, rfl⟩) (unregistered none).1⟩
  rw [StorageCoordinator.beginHotUpdateCandidate] at begins
  by_cases held : coord.candidateOperation.isSome = true
  · refine idle (if_pos (Or.inl held)) ?_
    rw [begins]
    split_ifs <;> rfl
  rw [if_neg (by rintro own; rw [own] at held; exact held rfl), if_neg held] at begins
  dsimp only at begins
  by_cases unread : resume = true ∧ fault = some .adoptionRead
  · refine idle (if_pos (Or.inr ⟨unread.1, Or.inl unread.2⟩)) ?_
    rw [begins, if_pos unread]
  rw [if_neg unread] at begins
  by_cases adopts : resume = true ∧ (coord.store.tryAdoptExistingCandidate op).isSome = true
  · refine idle (if_pos (Or.inr ⟨adopts.1, Or.inr adopts.2⟩)) ?_
    obtain ⟨epoch, found⟩ := Option.isSome_iff_exists.1 adopts.2
    rw [begins, if_pos adopts.1, found]
  have fresh : (if resume = true then coord.store.tryAdoptExistingCandidate op
      else none) = none := by
    split_ifs with isResumed
    · exact Option.not_isSome_iff_eq_none.1 fun found => adopts ⟨isResumed, found⟩
    · rfl
  rw [fresh] at begins
  dsimp only at begins
  have registration : coord.registration (.prepare op resume now fault marked) =
      (coord.prepareCandidate op now fault).2.toOption.map fun epoch =>
        (epoch, op) := by
    refine if_neg fun either => either.elim held fun both => both.2.elim ?_ ?_
    · exact fun unreadable => unread ⟨both.1, unreadable⟩
    · exact fun found => adopts ⟨both.1, found⟩
  rw [StorageCoordinator.prepareCandidate] at begins registration
  by_cases blind : fault = some .activeRead
  · rw [if_pos blind] at begins registration
    obtain ⟨registrant, same⟩ := unregistered registration
    rw [same]
    exact ⟨active, refines.released (congrArg StorageCoordinator.store begins) registrant⟩
  · rw [if_neg blind] at begins registration
    dsimp only at begins registration
    cases outcome : (coord.store.inheritCandidate op now fault).2 with
    | error message =>
      rw [outcome] at begins registration
      obtain ⟨registrant, same⟩ := unregistered registration
      rw [same]
      let stopped : TrackedCoordinator :=
        { coord with store := (coord.store.inheritCandidate op now fault).1 }
      have kept : Refines stopped map :=
        (refines.inherited op now fault rfl).1 message outcome rfl
      obtain ⟨full, refined⟩ := kept
      exact ⟨full, refined.released (congrArg StorageCoordinator.store begins) registrant⟩
    | ok epoch =>
      rw [outcome] at begins registration
      have event : coord.fileMapEvent (.prepare op resume now fault marked) =
          .register op := by
        simp only [TrackedCoordinator.fileMapEvent, registration]
        rfl
      rw [event]
      refine (refines.inherited op now fault
        (congrArg StorageCoordinator.store begins)).2 epoch outcome ?_
      simp only [reached, TrackedCoordinator.step, registration]
      rfl

end RefinesAt

theorem refines_of_published (published : coord.store.manifests.Published active)
    (covered : ∀ parent, active.parentDataEpoch = some parent →
      (coord.store.rows active.dataEpoch).CoveredOver (coord.store.rows parent))
    (unregistered : ∀ epoch, coord.registrant epoch = none) :
    Refines coord ⟨coord.publishedHashes, fun _ _ => none⟩ := by
  refine ⟨active, published, covered, ?_, fun epoch _ => unregistered epoch,
    fun operationId candidate => ?_⟩
  · exact (funext fun path => lookup_storedHashes_of_published published path).symm
  · have registered := candidate.1
    rw [unregistered] at registered
    cases registered

theorem Refines.step (refines : Refines coord map) {next : CandidateStep}
    (admitted : coord.Admits next) :
    Refines (coord.step next) (map.apply (coord.fileMapEvent next)) := by
  obtain ⟨active, refined⟩ := refines
  cases next with
  | prepare operationId resume now fault marked =>
    exact refined.prepare operationId resume now fault marked
  | writeFile operationId file => exact ⟨active, refined.writeFile admitted file⟩
  | registerDeletedFiles operationId paths overridden =>
    exact ⟨active, refined.registerDeletedFiles admitted⟩
  | setCandidateRelationEpoch relationEpoch =>
    exact ⟨active, refined.quiet rfl (fun _ => ⟨rfl, rfl⟩) rfl⟩
  | activate operationId now => exact refined.activate admitted
  | fail operationId marked cleared => exact ⟨active, refined.fail admitted⟩
  | republish operationId relationEpoch now => exact refined.republish admitted
  | relation next => exact ⟨active, refined.quiet rfl (fun _ => ⟨rfl, rfl⟩) rfl⟩
  | restart seeded => exact ⟨active, refined.quiet rfl (fun _ => ⟨rfl, rfl⟩) rfl⟩

structure MappedProject extends TrackedCoordinator where
  map : FileMap

namespace MappedProject

variable (project : MappedProject)

def step (next : CandidateStep) : MappedProject where
  toTrackedCoordinator := project.toTrackedCoordinator.step next
  map := project.map.apply (project.fileMapEvent next)

def Admits (next : CandidateStep) : Prop :=
  project.toTrackedCoordinator.Admits next

/-- Only an activation changes what the map shows. -/
private theorem published_step {next : CandidateStep}
    (other : ∀ operationId now, next ≠ .activate operationId now) :
    (project.step next).map.published = project.map.published := by
  show (project.map.apply (project.fileMapEvent next)).published = _
  cases next with
  | activate operationId now => exact absurd rfl (other operationId now)
  | prepare operationId resume now fault marked =>
    rw [TrackedCoordinator.fileMapEvent]
    split <;> rfl
  | registerDeletedFiles operationId paths overridden =>
    rw [TrackedCoordinator.fileMapEvent]
    split_ifs <;> rfl
  | fail operationId marked cleared =>
    rw [TrackedCoordinator.fileMapEvent]
    split_ifs <;> rfl
  | _ => rfl

/-- In a run whose steps are all admitted, the published hashes are at every moment those of the
map of the activated operations, and only activations change them. -/
theorem publishedHashes_run (start : MappedProject)
    (refines : Refines start.toTrackedCoordinator start.map) (steps : List CandidateStep)
    (every : Runs.EveryStep step Admits start steps) :
    (∀ reached, reached <+: steps → (reached.foldl step start).publishedHashes =
      (reached.foldl step start).map.published) ∧
    ∀ reached next, reached ++ [next] <+: steps →
      (∀ operationId now, next ≠ .activate operationId now) →
        ((reached ++ [next]).foldl step start).publishedHashes =
          (reached.foldl step start).publishedHashes := by
  have kept : ∀ (project : MappedProject) (next : CandidateStep), project.Admits next →
      Refines project.toTrackedCoordinator project.map →
      Refines (project.step next).toTrackedCoordinator (project.step next).map :=
    fun project next admitted refined => refined.step admitted
  have shown : ∀ reached, reached <+: steps → (reached.foldl step start).publishedHashes =
      (reached.foldl step start).map.published := by
    intro reached initial
    obtain ⟨active, refined⟩ := Runs.invariant kept refines (every.of_prefix initial)
    exact refined.publishedHashes
  refine ⟨shown, fun reached next initial other => ?_⟩
  rw [shown _ initial, shown reached ((List.prefix_append reached [next]).trans initial),
    List.foldl_append]
  exact published_step _ other

def published : MappedProject where
  toTrackedCoordinator := TrackedCoordinator.publishedProject
  map := ⟨TrackedCoordinator.publishedProject.publishedHashes, fun _ _ => none⟩

private theorem refines_published : Refines published.toTrackedCoordinator published.map := by
  have active : published.store.manifests.getActive = some
      { publicationEpoch := 1
        dataEpoch := 1
        relationEpoch := 0
        operationId := "initial"
        state := .active
        createdAt := 0
        candidateReady := false
        parentDataEpoch := none } := by decide +kernel
  refine refines_of_published ⟨?_, active, ?_, ?_, ?_, ?_⟩ ?_ fun _ => rfl
  · decide +kernel
  · decide +kernel
  · decide +kernel
  · decide +kernel
  · intro parent link
    cases link
  · intro parent link
    cases link

/-- A file is rewritten, and a second operation fails. -/
theorem publishedHashes_run_published :
    let steps : List CandidateStep :=
      [.prepare "update" false 0 none true, .writeFile "update" TrackedCoordinator.changedFile,
        .activate "update" 0, .prepare "second" false 0 none true, .fail "second" true true]
    (∀ reached, reached <+: steps → (reached.foldl step published).publishedHashes =
      (reached.foldl step published).map.published) ∧
    ∀ reached next, reached ++ [next] <+: steps →
      (∀ operationId now, next ≠ .activate operationId now) →
        ((reached ++ [next]).foldl step published).publishedHashes =
          (reached.foldl step published).publishedHashes := by
  refine publishedHashes_run published refines_published _ ⟨trivial, ?_, ?_, trivial, ?_, trivial⟩
  · exact ⟨by decide +kernel, ⟨by decide +kernel, by decide +kernel⟩, by decide +kernel⟩
  · let prepared := (published.step (.prepare "update" false 0 none true)).step
      (.writeFile "update" TrackedCoordinator.changedFile)
    have older : prepared.store.manifests.getActive.map
        ProjectIndexManifestRow.publicationEpoch = some 1 := by decide +kernel
    have newer : ∀ row ∈ prepared.store.manifests.rows, row.operationId = "update" →
        1 < row.publicationEpoch := by decide +kernel
    intro _
    refine ⟨⟨by decide +kernel, ⟨by decide +kernel, by decide +kernel⟩, by decide +kernel⟩,
      by decide +kernel, fun row mem own active isActive => ?_⟩
    rw [isActive] at older
    rw [Option.some.inj older]
    exact newer row mem own
  · intro _ _
    refine Or.inr ⟨by decide +kernel, fun other different candidate => ?_⟩
    have registered : some other = some "second" := candidate.1.symm
    exact different (Option.some.inj registered)

/-- A file that a resumed operation finds deleted stays published with the hash it had before; an
operation that is retried after a relation publication publishes nothing; and a deleted file comes
back when a failed manifest still links the published generation to the one before. -/
theorem publishedHashes_ne :
    let resumed := [.prepare "update" false 0 none true,
      .writeFile "update" TrackedCoordinator.changedFile, .restart true,
      .prepare "update" true 0 none true, .registerDeletedFiles "update" ["src/lib.rs"] true,
      .activate "update" 0].foldl step published
    let retried := [.prepare "update" false 0 none true, .fail "update" true true,
      .republish "relations" 0 0, .prepare "update" true 0 none true,
      .writeFile "update" TrackedCoordinator.changedFile, .activate "update" 0].foldl step published
    let linked := [.prepare "first" false 0 none true, .fail "first" true true,
      .prepare "second" false 0 none true, .fail "second" true true,
      .prepare "first" true 0 none true, .registerDeletedFiles "first" ["src/lib.rs"] true,
      .activate "first" 0, .prepare "third" false 0 none true,
      .activate "third" 0].foldl step published
    (resumed.publishedHashes "src/lib.rs" = some "new" ∧
      resumed.map.published "src/lib.rs" = none) ∧
    (retried.publishedHashes "src/lib.rs" = some "hash" ∧
      retried.map.published "src/lib.rs" = some "new") ∧
    linked.publishedHashes "src/lib.rs" = some "hash" ∧
      linked.map.published "src/lib.rs" = none := by
  decide +kernel

end MappedProject

end ContextEngine

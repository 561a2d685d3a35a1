/- digest: What a cleanup leaves of the relation snapshots that kept publications name. -/

import ContextEngine.Storage.GenerationGc

set_option autoImplicit false

namespace ContextEngine

open List

namespace RelationTables

/-- The search for the base of an epoch ends at a full snapshot, along the given links. -/
structure LoadsAlong (tables : RelationTables) (epoch : Int) (links : List Int) (base : Int) :
    Prop where
  found : tables.findBaseEpoch epoch = some (.ok (some base))
  path : Loops.Path tables.baseStep epoch links base
  full : tables.stateOf base = some .ready ∨ tables.stateOf base = some .active

/-- An epoch keeps its manifest, and its chain of links to the same full snapshot. -/
structure StaysLoadable (before after : RelationTables) (epoch : Int) : Prop where
  manifest : epoch ∈ before.manifests.keys → epoch ∈ after.manifests.keys
  chain : ∀ links base, before.LoadsAlong epoch links base → after.LoadsAlong epoch links base

def Deletes (tables : RelationTables) (gone : Int → RelationSnapshotManifest → Bool)
    (epoch : Int) : Prop :=
  ∃ manifest, tables.manifests.lookup epoch = some manifest ∧ gone epoch manifest = true

variable {tables : RelationTables} {gone : Int → RelationSnapshotManifest → Bool}
  {epoch base : Int} {links : List Int}

theorem StaysLoadable.refl (tables : RelationTables) (epoch : Int) :
    StaysLoadable tables tables epoch := ⟨id, fun _ _ => id⟩

theorem mem_keys_deleteManifests :
    epoch ∈ (tables.deleteManifests gone).manifests.keys ↔
      epoch ∈ tables.manifests.keys ∧ ¬ tables.Deletes gone epoch := by
  rw [mem_keys_iff_stateOf, HashMap.mem_keys_iff]
  simp only [stateOf_deleteManifests, Deletes]
  constructor
  · rintro ⟨_, manifest, found, _, kept⟩
    refine ⟨⟨manifest, found⟩, fun ⟨other, found', deleted⟩ => ?_⟩
    rw [found] at found'
    cases found'
    rw [kept] at deleted
    cases deleted
  · rintro ⟨⟨manifest, found⟩, kept⟩
    refine ⟨manifest.state, manifest, found, rfl, ?_⟩
    exact Bool.eq_false_iff.2 fun deleted => kept ⟨manifest, found, deleted⟩

theorem stateOf_deleteManifests_of_kept (kept : ¬ tables.Deletes gone epoch) :
    (tables.deleteManifests gone).stateOf epoch = tables.stateOf epoch := by
  refine Option.ext fun state => ?_
  rw [stateOf_deleteManifests, stateOf, Option.map_eq_some_iff]
  constructor
  · rintro ⟨manifest, found, same, _⟩
    exact ⟨manifest, found, same⟩
  · rintro ⟨manifest, found, same⟩
    refine ⟨manifest, found, same, ?_⟩
    exact Bool.eq_false_iff.2 fun deleted => kept ⟨manifest, found, deleted⟩

theorem baseStep_deleteManifests_eq_inr {next : Int} :
    (tables.deleteManifests gone).baseStep epoch = .inr next ↔
      tables.baseStep epoch = .inr next ∧ ¬ tables.Deletes gone epoch ∧
        ¬ tables.Deletes gone next := by
  simp only [baseStep_eq_inr, lookup_deltas_deleteManifests, mem_keys_deleteManifests]
  constructor
  · rintro ⟨isDelta, delta, ⟨found, ⟨_, kept⟩, _, baseKept⟩, rfl, other, nonneg⟩
    rw [stateOf_deleteManifests_of_kept kept] at isDelta
    exact ⟨⟨isDelta, delta, found, rfl, other, nonneg⟩, kept, baseKept⟩
  · rintro ⟨⟨isDelta, delta, found, rfl, other, nonneg⟩, kept, baseKept⟩
    rw [stateOf_deleteManifests_of_kept kept]
    exact ⟨isDelta, delta, ⟨found, ⟨tables.deltaEpoch_stored _ _ found, kept⟩,
      tables.baseEpoch_stored _ _ found, baseKept⟩, rfl, other, nonneg⟩

/-- A chain that ends at a stored epoch has no more links than there are manifests. -/
private theorem findBaseEpoch_of_path (path : Loops.Path tables.baseStep epoch links base)
    (full : tables.stateOf base = some .ready ∨ tables.stateOf base = some .active) :
    tables.findBaseEpoch epoch = some (.ok (some base)) := by
  have leaves : tables.baseStep base = .inl (.ok (some base)) := by
    rcases full with ready | active
    · exact baseStep_of_stop ready fun same => by cases same
    · exact baseStep_of_stop active fun same => by cases same
  have stored : links ⊆ tables.manifests.keys := fun x mem => by
    obtain ⟨_, _, _, entered⟩ := path.enter mem
    cases entered with
    | next link _ =>
      obtain ⟨isDelta, _⟩ := baseStep_eq_inr.1 link
      exact mem_keys_iff_stateOf.2 ⟨_, isDelta⟩
  have short : links.length ≤ tables.manifests.keys.length :=
    ((path.nodup leaves).subperm stored).length_le
  exact path.run_eq leaves (Nat.lt_succ_of_le short)

/-- A chain outlives a deletion exactly if none of its epochs is deleted. -/
theorem loadsAlong_deleteManifests_iff (loads : tables.LoadsAlong epoch links base) :
    (tables.deleteManifests gone).LoadsAlong epoch links base ↔
      ∀ x ∈ links ++ [base], ¬ tables.Deletes gone x := by
  constructor
  · intro after x mem
    rcases mem_append.1 mem with inLinks | last
    · obtain ⟨_, _, _, entered⟩ := after.path.enter inLinks
      cases entered with
      | next link _ => exact (baseStep_deleteManifests_eq_inr.1 link).2.1
    · rw [mem_singleton.1 last]
      have stored : base ∈ (tables.deleteManifests gone).manifests.keys :=
        mem_keys_iff_stateOf.2 (after.full.elim (fun full => ⟨_, full⟩) fun full => ⟨_, full⟩)
      exact (mem_keys_deleteManifests.1 stored).2
  · intro kept
    have path : Loops.Path (tables.deleteManifests gone).baseStep epoch links base :=
      loads.path.imp fun x mem next nextMem link => baseStep_deleteManifests_eq_inr.2
        ⟨link, kept x (mem_append_left _ mem), kept next nextMem⟩
    have full := loads.full
    rw [← stateOf_deleteManifests_of_kept (kept base (mem_append_right _ mem_cons_self))] at full
    exact ⟨findBaseEpoch_of_path path full, path, full⟩

theorem staysLoadable_deleteManifests_iff :
    StaysLoadable tables (tables.deleteManifests gone) epoch ↔
      ¬ tables.Deletes gone epoch ∧ ∀ links base, tables.LoadsAlong epoch links base →
        ∀ x ∈ links ++ [base], ¬ tables.Deletes gone x := by
  constructor
  · intro stays
    refine ⟨fun deleted => ?_, fun links base loads => ?_⟩
    · obtain ⟨manifest, found, _⟩ := deleted
      have kept := stays.manifest (HashMap.mem_keys_iff.2 ⟨manifest, found⟩)
      exact (mem_keys_deleteManifests.1 kept).2 ⟨manifest, found, ‹_›⟩
    · exact (loadsAlong_deleteManifests_iff loads).1 (stays.chain links base loads)
  · rintro ⟨kept, chains⟩
    exact ⟨fun mem => mem_keys_deleteManifests.2 ⟨mem, kept⟩, fun links base loads =>
      (loadsAlong_deleteManifests_iff loads).2 (chains links base loads)⟩

end RelationTables

namespace GenerationStore

open RelationTables (StaysLoadable)

/-- The transactions of a project and the two cleanups. -/
inductive MaintenanceStep
  | store (next : StoreStep)
  | generationGc (keepActiveGenerations : Nat) (staleBefore : Int)
  | collectGarbage (staleBefore : Int)

section Cleanups

variable (store : GenerationStore)

def collectGarbage (staleBefore : Int) : GenerationStore :=
  { store with relations := store.relations.collectGarbage store.unfinished staleBefore }

def maintain (store : GenerationStore) : MaintenanceStep → GenerationStore
  | .store next => store.step next
  | .generationGc keepActiveGenerations staleBefore =>
    (store.generationGcPlan keepActiveGenerations staleBefore).elim store store.applyGenerationGc
  | .collectGarbage staleBefore => store.collectGarbage staleBefore

/-- The snapshots of the project manifests that are left, and of the active relation epoch, stay
loadable. -/
structure KeepsSnapshots (before after : GenerationStore) : Prop where
  kept : ∀ row ∈ after.manifests.rows,
    StaysLoadable before.relations after.relations row.relationEpoch
  active : ∀ epoch, before.relations.activeRelationEpoch = some epoch →
    StaysLoadable before.relations after.relations epoch

def CleansUpSafely : MaintenanceStep → Prop
  | .store _ => True
  | cleanup => KeepsSnapshots store (store.maintain cleanup)

def SparesChains (keepActiveGenerations : Nat) (staleBefore : Int) : Prop :=
  ∀ row, store.KeptRow keepActiveGenerations staleBefore row →
    ∀ links base, store.relations.LoadsAlong row.relationEpoch links base →
      ∀ epoch ∈ links ++ [base], ¬ store.CollectsRelation keepActiveGenerations staleBefore epoch

def SparesBases (staleBefore : Int) : Prop :=
  ∀ epoch, ((∃ row ∈ store.manifests.rows, row.relationEpoch = epoch) ∨
      store.relations.activeRelationEpoch = some epoch) →
    ∀ spared, (spared = epoch ∨ ∃ links, store.relations.LoadsAlong epoch links spared) →
      ∀ manifest, store.relations.manifests.lookup spared = some manifest →
        store.relations.isGarbage store.unfinished staleBefore spared manifest = false

def SparesSnapshots : MaintenanceStep → Prop
  | .store _ => True
  | .generationGc keepActiveGenerations staleBefore =>
    (store.generationGcPlan keepActiveGenerations staleBefore).isSome = true →
      store.SparesChains keepActiveGenerations staleBefore
  | .collectGarbage staleBefore => store.SparesBases staleBefore

end Cleanups

variable {store : GenerationStore} {keep : Nat} {stale : Int}
  {plan : GenerationGcPlan} {epoch base : Int} {links : List Int}

section GenerationGc

private theorem exists_path_of_activeRelationChain
    (active : store.relations.activeRelationEpoch = some epoch) (proper : 0 < epoch)
    {chain : List Int} (chained : store.activeRelationChain = some chain) :
    ∃ visited last, chain = visited ++ [last] ∧
      Loops.Path store.relations.linkBelow epoch visited last ∧
      store.relations.linkBelow last = .inl last := by
  simp only [activeRelationChain, active, if_pos proper, RelationTables.linkedEpochs,
    Option.map_eq_some_iff] at chained
  obtain ⟨⟨visited, last⟩, traced, rfl⟩ := chained
  obtain ⟨stop, path, leaves⟩ := Loops.exists_path_of_trace traced
  have stopped : last = stop := by
    rw [RelationTables.linkBelow] at leaves
    split at leaves
    · cases leaves; rfl
    · split_ifs at leaves
      cases leaves
      rfl
  subst stopped
  exact ⟨visited, last, rfl, path, leaves⟩

private theorem mem_keys_of_loadsAlong {tables : RelationTables}
    (loads : tables.LoadsAlong epoch links base) :
    ∀ x ∈ links ++ [base], x ∈ tables.manifests.keys := by
  intro x mem
  rw [RelationTables.mem_keys_iff_stateOf]
  rcases mem_append.1 mem with inLinks | isBase
  · obtain ⟨_, _, _, entered⟩ := loads.path.enter inLinks
    cases entered with
    | next link _ => exact ⟨_, (RelationTables.baseStep_eq_inr.1 link).1⟩
  · rw [mem_singleton.1 isBase]
    exact loads.full.elim (fun full => ⟨_, full⟩) fun full => ⟨_, full⟩

private theorem mem_activeRelationChain (positive : ∀ e ∈ store.relations.manifests.keys, 0 < e)
    (active : store.relations.activeRelationEpoch = some epoch) {chain : List Int}
    (chained : store.activeRelationChain = some chain)
    (loads : store.relations.LoadsAlong epoch links base) :
    ∀ x ∈ links ++ [base], x ∈ chain := by
  have follows : ∀ x next, store.relations.baseStep x = .inr next →
      store.relations.linkBelow x = .inr next := by
    intro x next link
    obtain ⟨_, delta, found, rfl, other, _⟩ := RelationTables.baseStep_eq_inr.1 link
    have above := positive _ (store.relations.baseEpoch_stored x delta found)
    simp only [RelationTables.linkBelow, found]
    rw [if_neg (not_or.2 ⟨not_le_of_gt above, other⟩)]
  have proper : 0 < epoch := positive _ (mem_keys_of_loadsAlong loads epoch loads.path.start_mem)
  obtain ⟨_, last, rfl, path, leaves⟩ := exists_path_of_activeRelationChain active proper chained
  obtain ⟨further, rfl, rest⟩ :=
    (loads.path.imp fun x _ next _ => follows x next).rest path leaves
  intro x mem
  rcases mem_append.1 mem with inLinks | isBase
  · exact mem_append_left _ (mem_append_left _ inLinks)
  · rw [mem_singleton.1 isBase, append_assoc]
    exact mem_append_right _ rest.start_mem

private theorem deletes_applyGenerationGc
    (planned : store.generationGcPlan keep stale = some plan) :
    store.relations.Deletes (fun epoch _ => decide (epoch ∈ plan.staleRelationEpochs)) epoch ↔
      epoch ∈ store.relations.manifests.keys ∧
        store.CollectsRelation keep stale epoch := by
  rw [RelationTables.Deletes, HashMap.mem_keys_iff, ← (mem_generationGcPlan planned).2.2.2.1]
  simp only [decide_eq_true_eq, exists_and_right]

private theorem staysLoadable_generationGc_iff
    (planned : store.generationGcPlan keep stale = some plan)
    (needed : 0 < epoch → store.NeedsRelation keep stale epoch) :
    StaysLoadable store.relations (store.applyGenerationGc plan).relations epoch ↔
      ∀ links base, store.relations.LoadsAlong epoch links base →
        ∀ x ∈ links ++ [base], ¬ store.CollectsRelation keep stale x := by
  have own : ¬ store.relations.Deletes
      (fun epoch _ => decide (epoch ∈ plan.staleRelationEpochs)) epoch := fun deleted => by
    obtain ⟨proper, _, free⟩ := ((deletes_applyGenerationGc planned).1 deleted).2
    exact free (needed proper)
  refine RelationTables.staysLoadable_deleteManifests_iff.trans ((and_iff_right own).trans ?_)
  refine forall_congr' fun links => forall_congr' fun base => forall_congr' fun loads =>
    forall₂_congr fun x mem => not_congr ?_
  rw [deletes_applyGenerationGc planned, and_iff_right (mem_keys_of_loadsAlong loads x mem)]

private theorem keepsSnapshots_generationGc_iff
    (positive : ∀ e ∈ store.relations.manifests.keys, 0 < e)
    (planned : store.generationGcPlan keep stale = some plan) :
    KeepsSnapshots store (store.applyGenerationGc plan) ↔
      store.SparesChains keep stale := by
  have ofRow : ∀ row, store.KeptRow keep stale row → 0 < row.relationEpoch →
      store.NeedsRelation keep stale row.relationEpoch :=
    fun row kept proper => Or.inl ⟨row, kept, proper, rfl⟩
  obtain ⟨chain, chained, _⟩ := Option.map_eq_some_iff.1 planned
  constructor
  · intro keeps row kept
    have stays := keeps.kept row ((mem_rows_applyGenerationGc planned).2 kept)
    exact (staysLoadable_generationGc_iff planned (ofRow row kept)).1 stays
  · intro spares
    refine ⟨fun row mem => ?_, fun epoch active => ?_⟩
    · have kept := (mem_rows_applyGenerationGc planned).1 mem
      exact (staysLoadable_generationGc_iff planned (ofRow row kept)).2 (spares row kept)
    · refine (staysLoadable_generationGc_iff planned fun proper => ?_).2
        fun links base loads x mem collected => ?_
      · obtain ⟨_, _, rfl, path, _⟩ := exists_path_of_activeRelationChain active proper chained
        exact Or.inr ⟨_, chained, path.start_mem⟩
      · exact collected.2.2 (Or.inr ⟨chain, chained,
          mem_activeRelationChain positive active chained loads x mem⟩)

end GenerationGc

section CollectGarbage

/-- Among the epochs of a base chain only the base can be garbage. -/
private theorem keepsSnapshots_collectGarbage_iff :
    KeepsSnapshots store (store.collectGarbage stale) ↔ store.SparesBases stale := by
  have notDeleted : ∀ x, ¬ store.relations.Deletes
      (store.relations.isGarbage store.unfinished stale) x ↔
      ∀ manifest, store.relations.manifests.lookup x = some manifest →
        store.relations.isGarbage store.unfinished stale x manifest = false := fun x => by
    rw [RelationTables.Deletes, not_exists]
    exact forall_congr' fun manifest => by rw [not_and, Bool.not_eq_true]
  have stays_iff : ∀ epoch, StaysLoadable store.relations
      (store.collectGarbage stale).relations epoch ↔
      ∀ spared, (spared = epoch ∨ ∃ links, store.relations.LoadsAlong epoch links spared) →
        ∀ manifest, store.relations.manifests.lookup spared = some manifest →
          store.relations.isGarbage store.unfinished stale spared manifest = false := by
    intro epoch
    refine RelationTables.staysLoadable_deleteManifests_iff.trans ⟨?_, fun spares => ⟨?_, ?_⟩⟩
    · rintro ⟨own, chains⟩ spared (rfl | ⟨links, loads⟩)
      · exact (notDeleted _).1 own
      · exact (notDeleted _).1 (chains links spared loads spared (mem_append_right _ mem_cons_self))
    · exact (notDeleted _).2 (spares epoch (Or.inl rfl))
    · intro links base loads x mem
      rcases mem_append.1 mem with inLinks | isBase
      · obtain ⟨_, _, _, entered⟩ := loads.path.enter inLinks
        cases entered with
        | next link _ =>
          obtain ⟨isDelta, _⟩ := RelationTables.baseStep_eq_inr.1 link
          refine (notDeleted x).2 fun manifest found => ?_
          rw [RelationTables.stateOf, found] at isDelta
          simp only [RelationTables.isGarbage, Option.some.inj isDelta]
          simp
      · rw [mem_singleton.1 isBase]
        exact (notDeleted base).2 (spares base (Or.inr ⟨links, loads⟩))
  constructor
  · rintro keeps epoch (⟨row, mem, rfl⟩ | active)
    · exact (stays_iff _).1 (keeps.kept row mem)
    · exact (stays_iff epoch).1 (keeps.active epoch active)
  · intro spares
    exact ⟨fun row mem => (stays_iff _).2 (spares _ (Or.inl ⟨row, mem, rfl⟩)),
      fun epoch active => (stays_iff epoch).2 (spares epoch (Or.inr active))⟩

end CollectGarbage

section Run

section

variable (positive : ∀ e ∈ store.relations.manifests.keys, 0 < e)

include positive

private theorem positive_of_step
    (next : StoreStep) : ∀ e ∈ (store.step next).relations.manifests.keys, 0 < e := by
  cases next with
  | relation next => exact RelationTables.positive_step positive next
  | setParentDataEpoch operationId parentDataEpoch => exact positive
  | markFailed operationId => exact positive
  | setCheckpoints inProgress unfinished => exact positive
  | beginBuilding dataEpoch operationId now =>
    rw [step, attempt, beginBuilding]
    cases store.manifests.beginBuilding dataEpoch operationId now <;> exact positive
  | activate dataEpoch relationEpoch operationId now =>
    rw [step, attempt]
    cases done : store.activate dataEpoch relationEpoch operationId now with
    | error message => exact positive
    | ok published =>
      rw [activate, Runs.bind_eq_ok] at done
      obtain ⟨relations, activated, done⟩ := done
      have kept := (RelationTables.quiet_activateRelation activated).positive positive
      rw [Runs.bind_eq_ok] at done
      obtain ⟨⟨building, manifests⟩, _, done⟩ := done
      simp only at done
      split_ifs at done
      · cases done; exact kept
      · cases done; exact kept

private theorem positive_of_deletion {gone : Int → RelationSnapshotManifest → Bool} :
    ∀ e ∈ (store.relations.deleteManifests gone).manifests.keys, 0 < e := fun e mem =>
  positive e (RelationTables.mem_keys_deleteManifests.1 mem).1

private theorem positive_maintain
    (next : MaintenanceStep) : ∀ e ∈ (store.maintain next).relations.manifests.keys, 0 < e := by
  cases next with
  | store next => exact positive_of_step positive next
  | collectGarbage stale => exact positive_of_deletion positive
  | generationGc keep stale =>
    rw [maintain]
    cases store.generationGcPlan keep stale with
    | none => exact positive
    | some plan => exact positive_of_deletion positive

private theorem cleansUpSafely_iff
    (next : MaintenanceStep) : store.CleansUpSafely next ↔ store.SparesSnapshots next := by
  cases next with
  | store next => exact Iff.rfl
  | collectGarbage stale => exact keepsSnapshots_collectGarbage_iff
  | generationGc keep stale =>
    show KeepsSnapshots store (store.maintain _) ↔ _
    rw [maintain, SparesSnapshots]
    cases planned : store.generationGcPlan keep stale with
    | none =>
      refine iff_of_true ⟨fun row _ => ?_, fun epoch _ => ?_⟩ fun absent => by cases absent
      · exact RelationTables.StaysLoadable.refl _ _
      · exact RelationTables.StaysLoadable.refl _ _
    | some plan =>
      refine (keepsSnapshots_generationGc_iff positive planned).trans ?_
      exact ⟨fun spares _ => spares, fun spares => spares rfl⟩

end

/-- In every run, each cleanup keeps the snapshots of kept publications loadable if and only if it
spares their chains of bases. -/
theorem cleansUpSafely_run_iff (steps : List MaintenanceStep) :
    Runs.EveryStep maintain CleansUpSafely empty steps ↔
      Runs.EveryStep maintain SparesSnapshots empty steps := by
  have kept : ∀ (store : GenerationStore) (next : MaintenanceStep),
      (∀ e ∈ store.relations.manifests.keys, 0 < e) →
        ∀ e ∈ (maintain store next).relations.manifests.keys, 0 < e :=
    fun _ next positive => positive_maintain positive next
  have same : ∀ (store : GenerationStore) (next : MaintenanceStep),
      (∀ e ∈ store.relations.manifests.keys, 0 < e) →
        (CleansUpSafely store next ↔ SparesSnapshots store next) :=
    fun _ next positive => cleansUpSafely_iff positive next
  exact Runs.EveryStep.congr kept same (fun e mem => by cases mem) steps

/-- A publication on a delta, then two on full snapshots of their own. -/
def supersededBase : List MaintenanceStep :=
  [StoreStep.relation (.allocateBuilding "full-1" "config" 0), .relation (.writeSnapshot 1),
    .activate 1 1 "publication-1" 0,
    .relation (.publishDelta "delta-2"
      { epoch := 2, baseEpoch := 1, configFingerprint := "config" } 0),
    .activate 2 2 "publication-2" 0,
    .relation (.allocateBuilding "full-3" "config" 0), .relation (.writeSnapshot 3),
    .activate 3 3 "publication-3" 0,
    .relation (.allocateBuilding "full-4" "config" 0), .relation (.writeSnapshot 4),
    .activate 4 4 "publication-4" 0].map .store

def secondPublication : ProjectIndexManifestRow where
  publicationEpoch := 2
  dataEpoch := 2
  relationEpoch := 2
  operationId := "publication-2"
  state := .active
  createdAt := 0
  candidateReady := false
  parentDataEpoch := none

private theorem not_keepsSnapshots_of_lostBase {before after : GenerationStore}
    (row : ProjectIndexManifestRow) (kept : row ∈ after.manifests.rows)
    (loads : before.relations.LoadsAlong row.relationEpoch links base)
    (lost : after.relations.findBaseEpoch row.relationEpoch ≠ some (.ok (some base))) :
    ¬ KeepsSnapshots before after := fun keeps =>
  lost ((keeps.kept row kept).chain links base loads).found

/-- Both cleanups delete the base of the second publication, which is kept. -/
theorem supersededBase_loses :
    ¬ Runs.EveryStep maintain CleansUpSafely empty (supersededBase ++ [.generationGc 3 100]) ∧
    ¬ Runs.EveryStep maintain CleansUpSafely empty (supersededBase ++ [.collectGarbage 100]) := by
  have before : (supersededBase.foldl maintain empty).relations.LoadsAlong 2 [2] 1 :=
    ⟨by decide +kernel, .next (by decide +kernel) (.done 1), by decide +kernel⟩
  refine ⟨fun every => ?_, fun every => ?_⟩
  · exact not_keepsSnapshots_of_lostBase secondPublication (by decide +kernel) before
      (by decide +kernel) every.last
  · exact not_keepsSnapshots_of_lostBase secondPublication (by decide +kernel) before
      (by decide +kernel) every.last

end Run

end GenerationStore

end ContextEngine

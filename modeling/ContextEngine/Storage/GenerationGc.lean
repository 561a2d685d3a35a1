/- digest: The cleanup plan of old index generations, and what it keeps and deletes. -/

import ContextEngine.Storage.ProjectManifests

set_option autoImplicit false

namespace ContextEngine

open List

structure GenerationGcPlan where
  protectedDataEpochs : List Int
  staleDataEpochs : List Int
  protectedRelationEpochs : List Int
  staleRelationEpochs : List Int
  stalePublicationEpochs : List Int

def pushNew (epochs : List Int) (epoch : Int) : List Int :=
  if epoch ∈ epochs then epochs else epochs ++ [epoch]

def pushProper (epochs : List Int) (epoch : Int) : List Int :=
  if 0 < epoch then pushNew epochs epoch else epochs

variable {epochs : List Int}

theorem mem_pushNew {epoch x : Int} :
    x ∈ pushNew epochs epoch ↔ x ∈ epochs ∨ x = epoch := by
  rw [pushNew]
  split_ifs with listed
  · exact ⟨Or.inl, fun either => either.elim id fun same => same ▸ listed⟩
  · rw [mem_append, mem_singleton]

theorem mem_pushProper {epoch x : Int} :
    x ∈ pushProper epochs epoch ↔ x ∈ epochs ∨ 0 < x ∧ x = epoch := by
  rw [pushProper]
  split_ifs with proper
  · rw [mem_pushNew]
    exact or_congr_right ⟨fun same => ⟨same ▸ proper, same⟩, And.right⟩
  · refine ⟨Or.inl, fun either => either.elim id fun ⟨positive, same⟩ => ?_⟩
    exact absurd (same ▸ positive) proper

/-- The parents of a kept generation, as far as its view goes. -/
def protectAncestors (parentOf : Int → Option Int) : Nat → Option Int → List Int → List Int
  | 0, _, epochs => epochs
  | _ + 1, none, epochs => epochs
  | depth + 1, some epoch, epochs =>
    if epoch ≤ 0 then epochs
    else protectAncestors parentOf depth (parentOf epoch) (pushNew epochs epoch)

theorem mem_protectAncestors {parentOf : Int → Option Int} {depth : Nat} {parent : Option Int}
    {x : Int} :
    x ∈ protectAncestors parentOf depth parent epochs ↔
      x ∈ epochs ∨ x ∈ ancestorsFrom parentOf depth parent := by
  induction depth generalizing parent epochs with
  | zero => simp only [protectAncestors, ancestorsFrom, not_mem_nil, or_false]
  | succ depth ih =>
    cases parent with
    | none => simp only [protectAncestors, ancestorsFrom, not_mem_nil, or_false]
    | some epoch =>
      rw [protectAncestors, ancestorsFrom]
      by_cases proper : 0 < epoch
      · rw [if_neg (not_le_of_gt proper), if_pos proper, ih, mem_pushNew, mem_cons, or_assoc]
      · rw [if_pos (not_lt.1 proper), if_neg proper]
        simp only [not_mem_nil, or_false]

/-- The base link of a delta row, if it leads to another proper epoch. -/
def RelationTables.linkBelow (tables : RelationTables) (current : Int) : Int ⊕ Int :=
  match tables.deltas.lookup current with
  | none => .inl current
  | some delta =>
    if delta.baseEpoch ≤ 0 ∨ delta.baseEpoch = current then .inl current
    else .inr delta.baseEpoch

/-- An epoch and those its base links lead to. There is no answer if they lead in a circle. -/
def RelationTables.linkedEpochs (tables : RelationTables) (epoch : Int) : Option (List Int) :=
  (Loops.trace tables.linkBelow (tables.deltas.keys.length + 1) epoch).map fun visited =>
    visited.1 ++ [visited.2]

namespace GenerationStore

variable (store : GenerationStore) (keepActiveGenerations : Nat) (staleBefore : Int)

section Plan

/-- Retention of one manifest, given how many active ones were seen before it. -/
def keepsManifest (activeCount : Nat) (row : ProjectIndexManifestRow) : Bool :=
  match row.state with
  | .active => activeCount < max keepActiveGenerations 1
  | .building => row.operationId ∈ store.inProgress ∨ staleBefore ≤ row.createdAt
  | .failed => staleBefore ≤ row.createdAt

variable (plan : GenerationGcPlan)

def protectRow (row : ProjectIndexManifestRow) : GenerationGcPlan :=
  { plan with
    protectedDataEpochs := protectAncestors store.manifests.parentDataEpochOf 2
      row.parentDataEpoch (pushProper plan.protectedDataEpochs row.dataEpoch)
    protectedRelationEpochs := pushProper plan.protectedRelationEpochs row.relationEpoch }

def dropRow (row : ProjectIndexManifestRow) : GenerationGcPlan :=
  { plan with
    stalePublicationEpochs := plan.stalePublicationEpochs ++ [row.publicationEpoch]
    staleDataEpochs := pushProper plan.staleDataEpochs row.dataEpoch
    staleRelationEpochs := pushProper plan.staleRelationEpochs row.relationEpoch }

def planRow (state : GenerationGcPlan × Nat) (row : ProjectIndexManifestRow) :
    GenerationGcPlan × Nat :=
  (if store.keepsManifest keepActiveGenerations staleBefore state.2 row then
      store.protectRow state.1 row
    else dropRow state.1 row,
    if row.state = .active then state.2 + 1 else state.2)

def planRows : GenerationGcPlan :=
  (store.manifests.rows.foldl (store.planRow keepActiveGenerations staleBefore)
    (⟨[], [], [], [], []⟩, 0)).1

def activeRelationChain : Option (List Int) :=
  match store.relations.activeRelationEpoch with
  | some epoch => if 0 < epoch then store.relations.linkedEpochs epoch else some []
  | none => some []

def generationGcPlan : Option GenerationGcPlan :=
  store.activeRelationChain.map fun chain =>
    let plan := store.planRows keepActiveGenerations staleBefore
    let protectedData := (store.activeEpoch.toList ++ store.epoch.toList).foldl pushProper
      plan.protectedDataEpochs
    let protectedRelations := chain.foldl pushNew plan.protectedRelationEpochs
    let staleRelations := store.relations.manifests.toList.foldl (fun stale row =>
      if row.1 ∉ protectedRelations ∧ row.2.createdAt < staleBefore then pushProper stale row.1
      else stale) plan.staleRelationEpochs
    { protectedDataEpochs := protectedData
      staleDataEpochs := plan.staleDataEpochs.filter fun epoch => epoch ∉ protectedData
      protectedRelationEpochs := protectedRelations
      staleRelationEpochs := staleRelations.filter fun epoch => epoch ∉ protectedRelations
      stalePublicationEpochs := plan.stalePublicationEpochs }

def applyGenerationGc : GenerationStore :=
  { store with
    rows := fun epoch => if epoch ∈ plan.staleDataEpochs then .empty else store.rows epoch
    manifests := store.manifests.retain fun row =>
      row.publicationEpoch ∉ plan.stalePublicationEpochs
    relations := store.relations.deleteManifests fun epoch _ =>
      decide (epoch ∈ plan.staleRelationEpochs) }

end Plan

section Retention

variable (row : ProjectIndexManifestRow)

def newerActive : Nat :=
  (store.manifests.rows.filter fun other =>
    row.publicationEpoch < other.publicationEpoch ∧ other.state = .active).length

/-- Retention keeps the newest active manifests, and what is young or in progress. -/
def Keeps : Prop :=
  store.keepsManifest keepActiveGenerations staleBefore (store.newerActive row) row = true

instance (row : ProjectIndexManifestRow) :
    Decidable (store.Keeps keepActiveGenerations staleBefore row) := instDecidableEqBool _ _

/-- The manifests of the plan, kept or dropped as retention says. -/
def KeptRow : Prop :=
  row ∈ store.manifests.rows ∧ store.Keeps keepActiveGenerations staleBefore row

def DroppedRow : Prop :=
  row ∈ store.manifests.rows ∧ ¬ store.Keeps keepActiveGenerations staleBefore row

variable {store keepActiveGenerations staleBefore}

private theorem newerActive_eq {newer older : List ProjectIndexManifestRow}
    {row : ProjectIndexManifestRow} (rows : store.manifests.rows = newer ++ row :: older) :
    store.newerActive row = (newer.filter fun other => other.state = .active).length := by
  have descending := store.manifests.descending
  rw [rows, pairwise_append, pairwise_cons] at descending
  obtain ⟨_, ⟨below, _⟩, across⟩ := descending
  have kept : newer.filter (fun other => decide (row.publicationEpoch < other.publicationEpoch ∧
      other.state = .active)) = newer.filter fun other => other.state = .active := by
    refine filter_congr fun other mem => ?_
    have lt := across other mem row mem_cons_self
    simp only [lt, true_and]
  have none : (row :: older).filter (fun other => decide (row.publicationEpoch <
      other.publicationEpoch ∧ other.state = .active)) = [] := by
    refine filter_eq_nil_iff.2 fun other mem => ?_
    rcases mem_cons.1 mem with rfl | later
    · simp only [lt_irrefl, false_and, decide_false, Bool.false_eq_true, not_false_eq_true]
    · have lt := below other later
      simp only [not_lt_of_gt lt, false_and, decide_false, Bool.false_eq_true, not_false_eq_true]
  rw [newerActive, rows, filter_append, kept, none, append_nil]

private theorem foldl_planRow (newer older : List ProjectIndexManifestRow)
    (rows : store.manifests.rows = newer ++ older) (plan : GenerationGcPlan) :
    (older.foldl (store.planRow keepActiveGenerations staleBefore)
      (plan, (newer.filter fun other => other.state = .active).length)).1 =
      older.foldl (fun plan row => if store.Keeps keepActiveGenerations staleBefore row then
        store.protectRow plan row else dropRow plan row) plan := by
  induction older generalizing newer plan with
  | nil => rfl
  | cons row older ih =>
    have next := ih (newer ++ [row]) (by rw [rows, append_assoc, singleton_append])
    have count : ((newer ++ [row]).filter fun other => other.state = .active).length =
        if row.state = .active then (newer.filter fun other => other.state = .active).length + 1
        else (newer.filter fun other => other.state = .active).length := by
      rw [filter_append, length_append, filter_singleton]
      by_cases active : row.state = .active
      · simp only [active, decide_true, cond_true, length_singleton, if_true]
      · simp only [active, decide_false, cond_false, length_nil, Nat.add_zero, if_false]
    have retention : store.Keeps keepActiveGenerations staleBefore row ↔
        store.keepsManifest keepActiveGenerations staleBefore
          (newer.filter fun other => other.state = .active).length row = true := by
      show store.keepsManifest _ _ (store.newerActive row) row = true ↔ _
      rw [newerActive_eq rows]
    rw [count] at next
    rw [foldl_cons, foldl_cons, ← next, planRow]
    simp only [retention]

private theorem mem_foldl_rows (rows : List ProjectIndexManifestRow) (plan : GenerationGcPlan) :
    let result := rows.foldl (fun plan row =>
      if store.Keeps keepActiveGenerations staleBefore row then store.protectRow plan row
      else dropRow plan row) plan
    (∀ x, x ∈ result.protectedDataEpochs ↔ x ∈ plan.protectedDataEpochs ∨
      ∃ row ∈ rows, store.Keeps keepActiveGenerations staleBefore row ∧ (0 < x ∧ x = row.dataEpoch ∨
          x ∈ ancestorsFrom store.manifests.parentDataEpochOf 2 row.parentDataEpoch)) ∧
    (∀ x, x ∈ result.protectedRelationEpochs ↔ x ∈ plan.protectedRelationEpochs ∨
      ∃ row ∈ rows, store.Keeps keepActiveGenerations staleBefore row ∧
        0 < x ∧ x = row.relationEpoch) ∧
    (∀ x, x ∈ result.staleDataEpochs ↔ x ∈ plan.staleDataEpochs ∨
      ∃ row ∈ rows, ¬ store.Keeps keepActiveGenerations staleBefore row ∧
        0 < x ∧ x = row.dataEpoch) ∧
    (∀ x, x ∈ result.staleRelationEpochs ↔ x ∈ plan.staleRelationEpochs ∨
      ∃ row ∈ rows, ¬ store.Keeps keepActiveGenerations staleBefore row ∧
        0 < x ∧ x = row.relationEpoch) ∧
    (∀ x, x ∈ result.stalePublicationEpochs ↔ x ∈ plan.stalePublicationEpochs ∨
      ∃ row ∈ rows, ¬ store.Keeps keepActiveGenerations staleBefore row ∧
        x = row.publicationEpoch) := by
  induction rows generalizing plan with
  | nil => simp only [foldl_nil, not_mem_nil, false_and, exists_false, or_false,
      implies_true, and_self]
  | cons row rows ih =>
    rw [foldl_cons]
    obtain ⟨data, relation, staleData, staleRelation, publication⟩ := ih
      (if store.Keeps keepActiveGenerations staleBefore row then store.protectRow plan row
        else dropRow plan row)
    by_cases keep : store.Keeps keepActiveGenerations staleBefore row
    · simp only [if_pos keep, protectRow] at data relation staleData staleRelation publication ⊢
      simp only [data, relation, staleData, staleRelation, publication, mem_protectAncestors,
        mem_pushProper, exists_mem_cons_iff, keep, true_and, not_true_eq_false, false_and,
        false_or, or_assoc, implies_true, and_self]
    · simp only [if_neg keep, dropRow] at data relation staleData staleRelation publication ⊢
      simp only [data, relation, staleData, staleRelation, publication, mem_pushProper,
        exists_mem_cons_iff, keep, false_and, false_or, not_false_eq_true, true_and,
        mem_append, mem_singleton, or_assoc, implies_true, and_self]

end Retention

section Spec

variable (epoch : Int)

def NeedsData : Prop :=
  (∃ row, store.KeptRow keepActiveGenerations staleBefore row ∧
    (0 < epoch ∧ epoch = row.dataEpoch ∨
      epoch ∈ ancestorsFrom store.manifests.parentDataEpochOf 2 row.parentDataEpoch)) ∨
  0 < epoch ∧ (store.activeEpoch = some epoch ∨ store.epoch = some epoch)

/-- A data epoch that goes: a dropped manifest carries it and nothing needs it. -/
def CollectsData : Prop :=
  (∃ row, store.DroppedRow keepActiveGenerations staleBefore row ∧
    0 < epoch ∧ epoch = row.dataEpoch) ∧
  ¬ store.NeedsData keepActiveGenerations staleBefore epoch

def NeedsRelation : Prop :=
  (∃ row, store.KeptRow keepActiveGenerations staleBefore row ∧
    0 < epoch ∧ epoch = row.relationEpoch) ∨
  ∃ chain, store.activeRelationChain = some chain ∧ epoch ∈ chain

def CollectsRelation : Prop :=
  0 < epoch ∧
  ((∃ row, store.DroppedRow keepActiveGenerations staleBefore row ∧ epoch = row.relationEpoch) ∨
    ∃ manifest, store.relations.manifests.lookup epoch = some manifest ∧
      manifest.createdAt < staleBefore) ∧
  ¬ store.NeedsRelation keepActiveGenerations staleBefore epoch

variable {store keepActiveGenerations staleBefore} {plan : GenerationGcPlan}

private theorem mem_foldl_pushProper {epochs others : List Int} {x : Int} :
    x ∈ others.foldl pushProper epochs ↔ x ∈ epochs ∨ 0 < x ∧ x ∈ others := by
  induction others generalizing epochs with
  | nil => simp only [foldl_nil, not_mem_nil, and_false, or_false]
  | cons other others ih =>
    rw [foldl_cons, ih, mem_pushProper, mem_cons]
    tauto

private theorem mem_foldl_pushNew {epochs others : List Int} {x : Int} :
    x ∈ others.foldl pushNew epochs ↔ x ∈ epochs ∨ x ∈ others := by
  induction others generalizing epochs with
  | nil => simp only [foldl_nil, not_mem_nil, or_false]
  | cons other others ih => rw [foldl_cons, ih, mem_pushNew, mem_cons, or_assoc]

private theorem mem_foldl_old {rows : List (Int × RelationSnapshotManifest)}
    {protectedEpochs stale : List Int} {x : Int} :
    x ∈ rows.foldl (fun stale row =>
      if row.1 ∉ protectedEpochs ∧ row.2.createdAt < staleBefore then pushProper stale row.1
      else stale) stale ↔
    x ∈ stale ∨ 0 < x ∧ x ∉ protectedEpochs ∧
      ∃ manifest, (x, manifest) ∈ rows ∧ manifest.createdAt < staleBefore := by
  have one : ∀ (stale : List Int) (row : Int × RelationSnapshotManifest),
      x ∈ (if row.1 ∉ protectedEpochs ∧ row.2.createdAt < staleBefore then pushProper stale row.1
          else stale) ↔
        ((row.1 ∉ protectedEpochs ∧ row.2.createdAt < staleBefore) ∧ 0 < x ∧ x = row.1) ∨
          x ∈ stale := by
    intro stale row
    split_ifs with old
    · rw [mem_pushProper, or_comm, and_iff_right old]
    · exact (or_iff_right fun pushed => old pushed.1).symm
  rw [foldl_iff_or (x ∈ ·) one, or_comm]
  refine or_congr_right ⟨?_, ?_⟩
  · rintro ⟨row, mem, ⟨free, young⟩, positive, rfl⟩
    exact ⟨positive, free, row.2, mem, young⟩
  · rintro ⟨positive, free, manifest, mem, young⟩
    exact ⟨(x, manifest), mem, ⟨free, young⟩, positive, rfl⟩

section

variable (planned : store.generationGcPlan keepActiveGenerations staleBefore = some plan)

include planned

/-- The lists of a plan in terms of the tables. -/
theorem mem_generationGcPlan :
    (∀ x, x ∈ plan.protectedDataEpochs ↔ store.NeedsData keepActiveGenerations staleBefore x) ∧
    (∀ x, x ∈ plan.staleDataEpochs ↔ store.CollectsData keepActiveGenerations staleBefore x) ∧
    (∀ x, x ∈ plan.protectedRelationEpochs ↔
      store.NeedsRelation keepActiveGenerations staleBefore x) ∧
    (∀ x, x ∈ plan.staleRelationEpochs ↔
      store.CollectsRelation keepActiveGenerations staleBefore x) ∧
    ∀ x, x ∈ plan.stalePublicationEpochs ↔ ∃ row,
      store.DroppedRow keepActiveGenerations staleBefore row ∧ x = row.publicationEpoch := by
  rw [generationGcPlan, Option.map_eq_some_iff] at planned
  obtain ⟨chain, chained, rfl⟩ := planned
  have rows : store.planRows keepActiveGenerations staleBefore = _ :=
    foldl_planRow [] store.manifests.rows rfl _
  obtain ⟨data, relation, staleData, staleRelation, publication⟩ :=
    @mem_foldl_rows store keepActiveGenerations staleBefore store.manifests.rows
      ⟨[], [], [], [], []⟩
  simp only [← rows, not_mem_nil, false_or] at data relation staleData staleRelation publication
  have needsData : ∀ x, x ∈ (store.activeEpoch.toList ++ store.epoch.toList).foldl pushProper
      (store.planRows keepActiveGenerations staleBefore).protectedDataEpochs ↔
      store.NeedsData keepActiveGenerations staleBefore x := fun x => by
    rw [mem_foldl_pushProper, data, mem_append, Option.mem_toList, Option.mem_toList]
    simp only [NeedsData, KeptRow, and_assoc]
  have needsRelation : ∀ x, x ∈ chain.foldl pushNew
      (store.planRows keepActiveGenerations staleBefore).protectedRelationEpochs ↔
      store.NeedsRelation keepActiveGenerations staleBefore x := fun x => by
    rw [mem_foldl_pushNew, relation]
    simp only [NeedsRelation, KeptRow, and_assoc, chained, Option.some.injEq, exists_eq_left']
  refine ⟨needsData, fun x => ?_, needsRelation, fun x => ?_, fun x => ?_⟩
  · rw [mem_filter, decide_eq_true_iff, needsData, staleData]
    simp only [CollectsData, DroppedRow, and_assoc]
  · rw [mem_filter, decide_eq_true_iff, mem_foldl_old, needsRelation, staleRelation]
    simp only [CollectsRelation, DroppedRow, HashMap.mem_toList]
    constructor
    · rintro ⟨⟨row, mem, dropped, positive, same⟩ | ⟨positive, _, old⟩, free⟩
      · exact ⟨positive, Or.inl ⟨row, ⟨mem, dropped⟩, same⟩, free⟩
      · exact ⟨positive, Or.inr old, free⟩
    · rintro ⟨positive, ⟨row, ⟨mem, dropped⟩, same⟩ | old, free⟩
      · exact ⟨Or.inl ⟨row, mem, dropped, positive, same⟩, free⟩
      · exact ⟨Or.inr ⟨positive, free, old⟩, free⟩
  · rw [publication]
    simp only [DroppedRow, and_assoc]

theorem rows_applyGenerationGc :
    (store.applyGenerationGc plan).manifests.rows = store.manifests.rows.filter fun row =>
      store.Keeps keepActiveGenerations staleBefore row := by
  show store.manifests.rows.filter _ = _
  refine filter_congr fun row mem => ?_
  rw [decide_eq_decide, (mem_generationGcPlan planned).2.2.2.2]
  constructor
  · intro kept
    by_contra dropped
    exact kept ⟨row, ⟨mem, dropped⟩, rfl⟩
  · rintro keeps ⟨other, ⟨otherMem, dropped⟩, same⟩
    exact dropped (store.manifests.eq_of_publicationEpoch mem otherMem same ▸ keeps)

theorem mem_rows_applyGenerationGc {row : ProjectIndexManifestRow} :
    row ∈ (store.applyGenerationGc plan).manifests.rows ↔
      store.KeptRow keepActiveGenerations staleBefore row := by
  rw [rows_applyGenerationGc planned, mem_filter, decide_eq_true_iff, KeptRow]

end

theorem keptRow_getActive {row : ProjectIndexManifestRow}
    (active : store.manifests.getActive = some row) :
    store.KeptRow keepActiveGenerations staleBefore row := by
  obtain ⟨isActive, newer, older, rows, before⟩ := find?_eq_some_iff_append.1 active
  have isActive : row.state = .active := of_decide_eq_true isActive
  refine ⟨rows ▸ mem_append_right _ mem_cons_self, ?_⟩
  have none : newer.filter (fun other => decide (other.state = .active)) = [] :=
    filter_eq_nil_iff.2 fun other mem => by simpa using before other mem
  rw [Keeps, newerActive_eq rows, none, keepsManifest, isActive]
  simp

end Spec

end GenerationStore

structure SameGeneration (before after : FileHashTables) : Prop where
  view : GenerationView.resolve after = GenerationView.resolve before
  hashes : after.storedHashes = before.storedHashes
  paths : after.visiblePaths = before.visiblePaths

namespace GenerationStore

variable (store : GenerationStore) (keepActiveGenerations : Nat) (staleBefore : Int)

/-- A cleanup keeps the active generation and every other it leaves a manifest of, and no epoch is
both protected and stale. -/
structure PreservesGenerations (plan : GenerationGcPlan) : Prop where
  active : SameGeneration store.publishedTables (store.applyGenerationGc plan).publishedTables
  kept : ∀ row ∈ (store.applyGenerationGc plan).manifests.rows,
    SameGeneration (store.hashTables (some row))
      ((store.applyGenerationGc plan).hashTables (some row))
  dataEpochs : ∀ epoch ∈ plan.protectedDataEpochs, epoch ∉ plan.staleDataEpochs
  relationEpochs : ∀ epoch ∈ plan.protectedRelationEpochs, epoch ∉ plan.staleRelationEpochs

def properLink (rows : List ProjectIndexManifestRow) (dataEpoch : Int) : Option Int :=
  ((rows.find? fun row => row.dataEpoch = dataEpoch).bind
    ProjectIndexManifestRow.parentDataEpoch).filter fun parent => 0 < parent

def KeepsLinks : Prop :=
  ∀ row parent, store.KeptRow keepActiveGenerations staleBefore row →
    row.parentDataEpoch = some parent → 0 < parent →
      properLink (store.manifests.rows.filter fun row =>
        store.Keeps keepActiveGenerations staleBefore row) parent =
      properLink store.manifests.rows parent

variable {store keepActiveGenerations staleBefore} {plan : GenerationGcPlan}

private theorem ancestorsFrom_two (manifests : ProjectIndexManifests) (parent : Int)
    (proper : 0 < parent) : ancestorsFrom manifests.parentDataEpochOf 2 (some parent) =
      parent :: (properLink manifests.rows parent).toList := by
  rw [ancestorsFrom, if_pos proper]
  show parent :: ancestorsFrom manifests.parentDataEpochOf 1
    (manifests.parentDataEpochOf parent) = _
  rw [properLink, ← ProjectIndexManifests.parentDataEpochOf]
  cases manifests.parentDataEpochOf parent with
  | none => rfl
  | some epoch =>
    rw [ancestorsFrom, Option.filter_some]
    by_cases positive : 0 < epoch
    · rw [if_pos positive, if_pos (decide_eq_true positive)]
      rfl
    · rw [if_neg positive, if_neg (by simpa using positive)]
      rfl

private theorem rows_of_notCollected
    (planned : store.generationGcPlan keepActiveGenerations staleBefore = some plan) {epoch : Int}
    (needed : 0 < epoch → store.NeedsData keepActiveGenerations staleBefore epoch) :
    (store.applyGenerationGc plan).rows epoch = store.rows epoch := by
  show (if epoch ∈ plan.staleDataEpochs then _ else _) = _
  refine if_neg fun stale => ?_
  obtain ⟨⟨_, _, positive, _⟩, free⟩ := ((mem_generationGcPlan planned).2.1 epoch).1 stale
  exact free (needed positive)

private theorem sameGeneration_of_view
    (planned : store.generationGcPlan keepActiveGenerations staleBefore = some plan)
    {active : Option ProjectIndexManifestRow}
    (view : GenerationView.resolve ((store.applyGenerationGc plan).hashTables active) =
      GenerationView.resolve (store.hashTables active))
    (needed : ∀ epoch, epoch = (GenerationView.resolve (store.hashTables active)).ownEpoch ∨
      epoch ∈ (GenerationView.resolve (store.hashTables active)).ancestors → 0 < epoch →
        store.NeedsData keepActiveGenerations staleBefore epoch) :
    SameGeneration (store.hashTables active)
      ((store.applyGenerationGc plan).hashTables active) := by
  have files : ∀ epoch, epoch = (GenerationView.resolve (store.hashTables active)).ownEpoch ∨
      epoch ∈ (GenerationView.resolve (store.hashTables active)).ancestors →
        ((store.applyGenerationGc plan).hashTables active).files epoch =
          (store.hashTables active).files epoch := fun epoch mem =>
    congrArg GenerationRows.files (rows_of_notCollected planned (needed epoch mem))
  have own := files _ (Or.inl rfl)
  have inherited := fun epoch mem => files epoch (Or.inr mem)
  exact ⟨view, FileHashTables.storedHashes_congr view own inherited,
    FileHashTables.visiblePaths_congr view own inherited⟩

private theorem resolve_some (store : GenerationStore) (row : ProjectIndexManifestRow) :
    GenerationView.resolve (store.hashTables (some row)) =
      { ownEpoch := row.dataEpoch
        ancestors := ancestorsFrom store.manifests.parentDataEpochOf 2 row.parentDataEpoch
        excludedFiles := (store.rows row.dataEpoch).overrides.keys } := rfl

section

variable (planned : store.generationGcPlan keepActiveGenerations staleBefore = some plan)

include planned

private theorem ancestors_eq_iff {parent : Int} (proper : 0 < parent) :
    ancestorsFrom (store.applyGenerationGc plan).manifests.parentDataEpochOf 2 (some parent) =
        ancestorsFrom store.manifests.parentDataEpochOf 2 (some parent) ↔
      properLink (store.manifests.rows.filter fun row =>
        store.Keeps keepActiveGenerations staleBefore row) parent =
      properLink store.manifests.rows parent := by
  rw [ancestorsFrom_two _ _ proper, ancestorsFrom_two _ _ proper, rows_applyGenerationGc planned,
    cons.injEq, and_iff_right rfl]
  refine ⟨fun same => ?_, fun same => congrArg Option.toList same⟩
  have heads := congrArg head? same
  rwa [Option.head?_toList, Option.head?_toList] at heads

private theorem sameGeneration_iff
    {row : ProjectIndexManifestRow} (kept : store.KeptRow keepActiveGenerations staleBefore row) :
    SameGeneration (store.hashTables (some row))
        ((store.applyGenerationGc plan).hashTables (some row)) ↔
      ∀ parent, row.parentDataEpoch = some parent → 0 < parent →
        properLink (store.manifests.rows.filter fun row =>
          store.Keeps keepActiveGenerations staleBefore row) parent =
        properLink store.manifests.rows parent := by
  constructor
  · intro same parent link proper
    have ancestors := congrArg GenerationView.ancestors same.view
    rw [resolve_some, resolve_some, link] at ancestors
    exact (ancestors_eq_iff planned proper).1 ancestors
  · intro links
    have needed : ∀ epoch, epoch = row.dataEpoch ∨
        epoch ∈ ancestorsFrom store.manifests.parentDataEpochOf 2 row.parentDataEpoch → 0 < epoch →
          store.NeedsData keepActiveGenerations staleBefore epoch := fun epoch mem positive =>
      Or.inl ⟨row, kept, mem.imp_left fun same => ⟨positive, same⟩⟩
    refine sameGeneration_of_view planned ?_ needed
    have overrides : (store.applyGenerationGc plan).rows row.dataEpoch = store.rows row.dataEpoch :=
      rows_of_notCollected planned (needed _ (Or.inl rfl))
    rw [resolve_some, resolve_some, overrides]
    congr 1
    cases link : row.parentDataEpoch with
    | none => rfl
    | some parent =>
      by_cases proper : 0 < parent
      · exact (ancestors_eq_iff planned proper).2 (links parent link proper)
      · rw [ancestorsFrom, if_neg proper, ancestorsFrom, if_neg proper]

private theorem getActive_applyGenerationGc :
    (store.applyGenerationGc plan).manifests.getActive = store.manifests.getActive := by
  rw [ProjectIndexManifests.getActive, rows_applyGenerationGc planned, find?_filter]
  cases active : store.manifests.getActive with
  | none =>
    have noActive := find?_eq_none.1 active
    refine find?_eq_none.2 fun row mem both => noActive row mem ?_
    exact (of_decide_eq_true both).2
  | some row =>
    have kept : store.KeptRow keepActiveGenerations staleBefore row := keptRow_getActive active
    obtain ⟨isActive, newer, older, rows, before⟩ := find?_eq_some_iff_append.1 active
    refine find?_eq_some_iff_append.2 ⟨?_, newer, older, rows, fun other mem => ?_⟩
    · exact decide_eq_true ⟨decide_eq_true kept.2, isActive⟩
    · have inactive : decide (other.state = .active) = false := by simpa using before other mem
      simp [inactive]

end

/-- A cleanup preserves what it keeps if and only if retention keeps the links of the parents. -/
theorem preservesGenerations_iff (store : GenerationStore) (keepActiveGenerations : Nat)
    (staleBefore : Int) :
    (∀ plan, store.generationGcPlan keepActiveGenerations staleBefore = some plan →
      store.PreservesGenerations plan) ↔
    ((store.generationGcPlan keepActiveGenerations staleBefore).isSome = true →
      store.KeepsLinks keepActiveGenerations staleBefore) := by
  constructor
  · intro preserves returned row parent kept link proper
    obtain ⟨plan, planned⟩ := Option.isSome_iff_exists.1 returned
    have same := (preserves plan planned).kept row ((mem_rows_applyGenerationGc planned).2 kept)
    exact (sameGeneration_iff planned kept).1 same parent link proper
  · intro links plan planned
    have links := links (Option.isSome_iff_exists.2 ⟨plan, planned⟩)
    have keeps : ∀ row, store.KeptRow keepActiveGenerations staleBefore row →
        SameGeneration (store.hashTables (some row))
          ((store.applyGenerationGc plan).hashTables (some row)) := fun row kept =>
      (sameGeneration_iff planned kept).2 fun parent => links row parent kept
    obtain ⟨protectedData, staleData, protectedRelation, staleRelation, _⟩ :=
      mem_generationGcPlan planned
    refine ⟨?_, fun row mem => keeps row ((mem_rows_applyGenerationGc planned).1 mem), ?_, ?_⟩
    · rw [publishedTables, publishedTables, getActive_applyGenerationGc planned]
      cases active : store.manifests.getActive with
      | some row => exact keeps row (keptRow_getActive active)
      | none =>
        refine sameGeneration_of_view planned rfl fun epoch mem positive => ?_
        rcases mem with same | inherited
        · cases legacy : store.activeEpoch with
          | none =>
            have zero : epoch = 0 := by
              rw [same]
              show store.activeEpoch.getD 0 = 0
              rw [legacy]
              rfl
            omega
          | some own =>
            have this_epoch : epoch = own := by
              rw [same]; show store.activeEpoch.getD 0 = own; rw [legacy]; rfl
            exact Or.inr ⟨positive, Or.inl (this_epoch ▸ legacy)⟩
        · cases inherited
    · exact fun epoch isProtected stale =>
        ((staleData epoch).1 stale).2 ((protectedData epoch).1 isProtected)
    · exact fun epoch isProtected stale =>
        ((staleRelation epoch).1 stale).2.2 ((protectedRelation epoch).1 isProtected)

def inheritedChain : GenerationStore :=
  [StoreStep.activate 1 0 "operation-1" 0,
    .beginBuilding 2 "operation-2" 0, .setParentDataEpoch "operation-2" (some 1),
    .activate 2 0 "operation-2" 0,
    .beginBuilding 3 "operation-3" 0, .setParentDataEpoch "operation-3" (some 2),
    .activate 3 0 "operation-3" 0].foldl step empty

/-- Retention of the newest generation drops the manifest that holds the link of its parent. -/
theorem inheritedChain_losesGrandparent :
    (∀ row ∈ inheritedChain.manifests.rows,
      (ancestorsFrom inheritedChain.manifests.parentDataEpochOf 3 row.parentDataEpoch).length ≤ 2) ∧
    ¬ ∀ plan, inheritedChain.generationGcPlan 1 100 = some plan →
      inheritedChain.PreservesGenerations plan := by
  refine ⟨by decide +kernel, fun preserves => ?_⟩
  have returned : (inheritedChain.generationGcPlan 1 100).isSome = true := by decide +kernel
  obtain ⟨plan, planned⟩ := Option.isSome_iff_exists.1 returned
  have ancestors := congrArg GenerationView.ancestors (preserves plan planned).active.view
  have before : (GenerationView.resolve inheritedChain.publishedTables).ancestors = [2, 1] := by
    decide +kernel
  have after : (inheritedChain.generationGcPlan 1 100).map (fun plan =>
      (GenerationView.resolve (inheritedChain.applyGenerationGc plan).publishedTables).ancestors) =
      some [2] := by
    decide +kernel
  rw [planned, Option.map_some, ancestors, before] at after
  exact absurd after (by decide)

end GenerationStore

end ContextEngine

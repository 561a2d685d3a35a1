/- digest: Published snapshots with their stored file closures, and layered snapshots over them. -/

import ContextEngine.Index.Core

set_option autoImplicit false

namespace ContextEngine

/-- `str` order: by code point, which for UTF-8 is the order of the bytes. -/
def sortStrings (l : List String) : List String := l.mergeSort fun a b => decide (a ≤ b)

@[simp] theorem mem_sortStrings {l : List String} {a : String} : a ∈ sortStrings l ↔ a ∈ l :=
  List.mem_mergeSort

section Propagate

def withEntries (table : HashMap String (HashSet String)) (files : List String) :
    HashMap String (HashSet String) :=
  files.foldl (fun table file => table.alter file fun entry => some (entry.getD ∅)) table

def propagateRound (deps : HashMap String (HashSet String)) :
    HashMap String (HashSet String) × Bool :=
  deps.keys.foldl
    (fun state key =>
      let current := (state.1.lookup key).getD ∅
      let absorbed :=
        (current.toList.flatMap fun dep => state.1.members dep).foldl HashSet.insert current
      let newDeps := absorbed.erase key
      if current.toList.length < newDeps.toList.length then (state.1.insert key newDeps, true)
      else state)
    (deps, false)

/-- Repeat the pass until nothing changes, at most `maxDepth` times. -/
def propagate : Nat → HashMap String (HashSet String) → HashMap String (HashSet String)
  | 0, deps => deps
  | maxDepth + 1, deps =>
    let round := propagateRound deps
    if round.2 then propagate maxDepth round.1 else round.1

/-- No file is among its own dependencies. -/
def SelfFree (table : HashMap String (HashSet String)) : Prop :=
  ∀ file, file ∉ table.members file

namespace SelfFree

theorem empty : SelfFree ∅ := fun _ => List.not_mem_nil

theorem insertAt {table : HashMap String (HashSet String)} (free : SelfFree table)
    {source target : String} (distinct : source ≠ target) :
    SelfFree (table.insertAt source target) := by
  intro file mem
  rcases HashMap.mem_members_insertAt.1 mem with ⟨rfl, same⟩ | before
  · exact distinct same
  · exact free file before

theorem withEntries {table : HashMap String (HashSet String)} (free : SelfFree table)
    (files : List String) : SelfFree (withEntries table files) := by
  induction files generalizing table with
  | nil => exact free
  | cons file files ih =>
    refine ih fun other mem => free other ?_
    unfold HashMap.members at mem ⊢
    rw [HashMap.lookup_alter] at mem
    by_cases same : other = file
    · subst same
      rw [if_pos rfl] at mem
      cases found : table.lookup other with
      | none =>
        rw [found] at mem
        exact absurd mem List.not_mem_nil
      | some set =>
        rw [found] at mem
        exact mem
    · rw [if_neg same] at mem
      exact mem

theorem propagate {table : HashMap String (HashSet String)} (free : SelfFree table)
    (maxDepth : Nat) : SelfFree (propagate maxDepth table) := by
  have round : ∀ table, SelfFree table → SelfFree (propagateRound table).1 := by
    intro table free
    unfold propagateRound
    generalize table.keys = keys
    have pass : ∀ (keys : List String) (state : HashMap String (HashSet String) × Bool),
        SelfFree state.1 → SelfFree (keys.foldl (fun state key =>
            let current := (state.1.lookup key).getD ∅
            let absorbed :=
              (current.toList.flatMap fun dep => state.1.members dep).foldl HashSet.insert current
            let newDeps := absorbed.erase key
            if current.toList.length < newDeps.toList.length then
              (state.1.insert key newDeps, true)
            else state)
          state).1 := by
      intro keys
      induction keys with
      | nil => exact fun _ free => free
      | cons key keys ih =>
        intro state free
        refine ih _ ?_
        simp only
        split_ifs
        · intro file mem
          unfold HashMap.members at mem
          rw [HashMap.lookup_insert_eq] at mem
          by_cases same : file = key
          · rw [if_pos same] at mem
            exact (HashSet.mem_erase.1 (HashSet.mem_toList.1 mem)).1 same
          · rw [if_neg same] at mem
            exact free file mem
        · exact free
    exact pass keys (table, false) free
  induction maxDepth generalizing table with
  | zero => exact free
  | succ maxDepth ih =>
    unfold ContextEngine.propagate
    simp only
    split_ifs
    · exact ih (round table free)
    · exact round table free

end SelfFree

end Propagate

/-- For every file, the files before and after it in the file graph of the snapshot. -/
structure TransitiveFileDeps where
  transitiveDependents : HashMap String (HashSet String)
  transitiveDependencies : HashMap String (HashSet String)
  dependents_selfFree : SelfFree transitiveDependents
  dependencies_selfFree : SelfFree transitiveDependencies

namespace TransitiveFileDeps

variable (index : RelationIndex)

def fileEdges : List (String × String) :=
  (index.dependencyGraph.getAllFiles.flatMap fun file =>
    (index.dependencyGraph.getDependencies file).map fun dep => (file, dep)) ++
  (index.fileRelationIndex.toList.flatMap fun entry =>
    entry.2.edges.filterMap fun relation =>
      (relation.calleeId.bind index.entityFileIndex.lookup).map fun calleeFile =>
        (entry.1, calleeFile)) ++
  index.resolvedRelationIndex.toList.flatMap fun entry =>
    entry.2.edges.filterMap fun relation =>
      (index.entityFileIndex.lookup entry.1).bind fun callerFile =>
        (relation.calleeId.bind index.entityFileIndex.lookup).map fun calleeFile =>
          (callerFile, calleeFile)

/-- The files that get an entry even without an edge. -/
def knownFiles : List String :=
  index.fileRecords.keys ++ index.dependencyGraph.getAllFiles ++ index.fileRelationIndex.keys

/-- A table of direct neighbours; pairs of one file are skipped. -/
def directTable (files : List String) (edges : List (String × String)) :
    HashMap String (HashSet String) :=
  edges.foldl (fun table edge => if edge.1 = edge.2 then table else table.insertAt edge.1 edge.2)
    (withEntries ∅ files)

theorem selfFree_directTable (files : List String) (edges : List (String × String)) :
    SelfFree (directTable files edges) := by
  refine List.foldlRecOn _ _ (SelfFree.empty.withEntries files) fun table free edge _ => ?_
  split_ifs with same
  · exact free
  · exact free.insertAt same

def fromRelationIndex (maxDepth : Nat) : TransitiveFileDeps where
  transitiveDependents :=
    propagate maxDepth (directTable (knownFiles index) ((fileEdges index).map Prod.swap))
  transitiveDependencies := propagate maxDepth (directTable (knownFiles index) (fileEdges index))
  dependents_selfFree := (selfFree_directTable _ _).propagate maxDepth
  dependencies_selfFree := (selfFree_directTable _ _).propagate maxDepth

def transitiveDependentsOf (deps : TransitiveFileDeps) (filePath : String) : List String :=
  sortStrings (deps.transitiveDependents.members filePath)

def transitiveDependenciesOf (deps : TransitiveFileDeps) (filePath : String) : List String :=
  sortStrings (deps.transitiveDependencies.members filePath)

end TransitiveFileDeps

/-- An immutable published snapshot: the tables of an index and the stored closures. -/
structure RelationSnapshotIndex where
  index : RelationIndex
  transitiveDeps : TransitiveFileDeps

def RelationSnapshotIndex.fromIndexShared (index : RelationIndex) : RelationSnapshotIndex :=
  ⟨index, .fromRelationIndex index 10⟩

/-- A base snapshot overlaid with the deltas published since, oldest first. -/
structure LayeredSnapshotIndex where
  base : RelationSnapshotIndex
  deltas : List SnapshotDelta

namespace LayeredSnapshotIndex

section TransitiveFiles

def addedDependents (deltas : List SnapshotDelta) (file : String) : List String :=
  deltas.flatMap fun delta =>
    delta.dependencyDiffs.flatMap fun diff =>
      (diff.addedDependencies.filter fun added => added = file).map fun _ => diff.sourceFile

def addedDependencies (deltas : List SnapshotDelta) (file : String) : List String :=
  deltas.flatMap fun delta =>
    delta.dependencyDiffs.flatMap fun diff =>
      if diff.sourceFile = file then diff.addedDependencies else []

variable (layered : LayeredSnapshotIndex)

def overlayDependents (file : String) : List String :=
  addedDependents layered.deltas file ++ layered.base.index.dependencyGraph.getDependents file

def overlayDependencies (file : String) : List String :=
  addedDependencies layered.deltas file ++
    layered.base.index.dependencyGraph.getDependencies file

def extendClosure (overlay : String → List String) (stored : List String) (filePath : String) :
    List String :=
  sortStrings (Search.levelSearch overlay 10 stored (filePath :: stored) stored)

def transitiveDependentsOf (filePath : String) : List String :=
  extendClosure layered.overlayDependents
    (layered.base.transitiveDeps.transitiveDependentsOf filePath) filePath

def transitiveDependenciesOf (filePath : String) :
    List String :=
  extendClosure layered.overlayDependencies
    (layered.base.transitiveDeps.transitiveDependenciesOf filePath) filePath

end TransitiveFiles

end LayeredSnapshotIndex

end ContextEngine

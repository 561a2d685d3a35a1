/- digest: The bounded queue of pending watch changes and its overflow flag. -/

import Mathlib.Data.List.Basic
import ContextEngine.Types.SymbolKey

set_option autoImplicit false

namespace ContextEngine

open List

def defaultWatchChangeCapacity : Nat := 4096

structure WatchChangeQueue where
  entries : List (PathBuf × Bool)
  capacity : Nat
  needsFullRescan : Bool
  deriving DecidableEq

namespace WatchChangeQueue

def new (capacity : Nat) : WatchChangeQueue := ⟨[], capacity, false⟩

/-- The queued paths, in order. -/
def paths (queue : WatchChangeQueue) : List PathBuf := queue.entries.map Prod.fst

def setDeletion (path : PathBuf) (isDeletion : Bool) :
    List (PathBuf × Bool) → List (PathBuf × Bool)
  | [] => []
  | existing :: rest =>
    if existing.1 = path then (existing.1, isDeletion) :: rest
    else existing :: setDeletion path isDeletion rest

/-- A queued path takes the new deletion flag; at capacity a new path is dropped and the queue is
flagged for a full rescan. -/
def insertInner (queue : WatchChangeQueue) (path : PathBuf) (isDeletion : Bool) :
    WatchChangeQueue :=
  if path ∈ queue.paths then { queue with entries := setDeletion path isDeletion queue.entries }
  else if queue.capacity ≤ queue.entries.length then { queue with needsFullRescan := true }
  else { queue with entries := queue.entries ++ [(path, isDeletion)] }

def push (queue : WatchChangeQueue) (path : PathBuf) (isDeletion : Bool) : WatchChangeQueue :=
  if queue.needsFullRescan then queue else queue.insertInner path isDeletion

def extend (queue : WatchChangeQueue) (incoming : List (PathBuf × Bool)) : WatchChangeQueue :=
  if queue.needsFullRescan then queue
  else incoming.foldl (fun q entry => q.insertInner entry.1 entry.2) queue

def take (queue : WatchChangeQueue) : WatchChangeQueue :=
  { queue with entries := [], needsFullRescan := false }

def markFullRescan (queue : WatchChangeQueue) : WatchChangeQueue :=
  { queue with needsFullRescan := true }

def isEmpty (queue : WatchChangeQueue) : Bool := queue.entries.isEmpty

theorem isEmpty_iff (queue : WatchChangeQueue) : queue.isEmpty = true ↔ queue.paths = [] := by
  rw [isEmpty, List.isEmpty_iff, paths, List.map_eq_nil_iff]

private theorem fst_setDeletion (path : PathBuf) (isDeletion : Bool)
    (entries : List (PathBuf × Bool)) :
    (setDeletion path isDeletion entries).map Prod.fst = entries.map Prod.fst := by
  induction entries with
  | nil => rfl
  | cons existing rest ih =>
    rw [setDeletion]
    split_ifs
    · rfl
    · rw [map_cons, ih, map_cons]

theorem insertInner_cases (queue : WatchChangeQueue) (path : PathBuf) (isDeletion : Bool) :
    let after := queue.insertInner path isDeletion
    after.capacity = queue.capacity ∧ ((path ∈ queue.paths ∧ after.paths = queue.paths ∧
          after.needsFullRescan = queue.needsFullRescan) ∨
        (path ∉ queue.paths ∧ queue.capacity ≤ queue.paths.length ∧ after.paths = queue.paths ∧
          after.needsFullRescan = true) ∨
        (path ∉ queue.paths ∧ queue.paths.length < queue.capacity ∧
          after.paths = queue.paths ++ [path] ∧
          after.needsFullRescan = queue.needsFullRescan)) := by
  have lengths : queue.paths.length = queue.entries.length := length_map _
  rw [insertInner, lengths]
  split_ifs with queued full
  · exact ⟨rfl, Or.inl ⟨queued, fst_setDeletion _ _ _, rfl⟩⟩
  · exact ⟨rfl, Or.inr (Or.inl ⟨queued, full, rfl, rfl⟩)⟩
  · refine ⟨rfl, Or.inr (Or.inr ⟨queued, Nat.lt_of_not_le full, ?_, rfl⟩)⟩
    exact map_append

def Bounded (queue : WatchChangeQueue) : Prop := queue.paths.length ≤ queue.capacity

variable {queue : WatchChangeQueue}

private theorem Bounded.insertInner (bounded : queue.Bounded)
    (path : PathBuf) (isDeletion : Bool) : (queue.insertInner path isDeletion).Bounded := by
  obtain ⟨capacity, ⟨-, same, -⟩ | ⟨-, -, same, -⟩ | ⟨-, room, more, -⟩⟩ :=
    insertInner_cases queue path isDeletion
  · rw [Bounded, capacity, same]
    exact bounded
  · rw [Bounded, capacity, same]
    exact bounded
  · rw [Bounded, capacity, more, length_append, length_singleton]
    exact room

/-- What the insertions of a batch do: nothing queued is lost, nothing foreign is queued, and a
path of the batch that is not queued has set the flag; the flag is only set on a full queue. -/
structure Absorbs (before : WatchChangeQueue) (incoming : List PathBuf)
    (after : WatchChangeQueue) : Prop where
  capacity : after.capacity = before.capacity
  kept : ∀ path ∈ before.paths, path ∈ after.paths
  sound : ∀ path ∈ after.paths, path ∈ before.paths ∨ path ∈ incoming
  covered : ∀ path ∈ incoming, path ∈ after.paths ∨ after.needsFullRescan = true
  flagged : before.needsFullRescan = true → after.needsFullRescan = true
  dropped : after.needsFullRescan = true → before.needsFullRescan = true ∨
    ((∃ path ∈ incoming, path ∉ after.paths) ∧ after.capacity ≤ after.paths.length)

private theorem paths_foldl_insertInner_of_full
    (full : queue.capacity ≤ queue.paths.length) (incoming : List (PathBuf × Bool)) :
    (incoming.foldl (fun q entry => q.insertInner entry.1 entry.2) queue).paths = queue.paths ∧
      (incoming.foldl (fun q entry => q.insertInner entry.1 entry.2) queue).capacity =
        queue.capacity := by
  induction incoming generalizing queue with
  | nil => exact ⟨rfl, rfl⟩
  | cons entry rest ih =>
    have same : (queue.insertInner entry.1 entry.2).paths = queue.paths ∧
        (queue.insertInner entry.1 entry.2).capacity = queue.capacity := by
      obtain ⟨capacity, ⟨-, same, -⟩ | ⟨-, -, same, -⟩ | ⟨-, room, -, -⟩⟩ :=
        insertInner_cases queue entry.1 entry.2
      · exact ⟨same, capacity⟩
      · exact ⟨same, capacity⟩
      · omega
    have still : (queue.insertInner entry.1 entry.2).capacity ≤
        (queue.insertInner entry.1 entry.2).paths.length := by
      rw [same.1, same.2]
      exact full
    have rest := ih still
    exact ⟨rest.1.trans same.1, rest.2.trans same.2⟩

private theorem absorbs_foldl_insertInner (queue : WatchChangeQueue)
    (incoming : List (PathBuf × Bool)) :
    queue.Absorbs (incoming.map Prod.fst)
      (incoming.foldl (fun q entry => q.insertInner entry.1 entry.2) queue) := by
  induction incoming generalizing queue with
  | nil =>
    exact
      { capacity := rfl
        kept := fun _ mem => mem
        sound := fun _ mem => Or.inl mem
        covered := fun _ mem => absurd mem not_mem_nil
        flagged := id
        dropped := Or.inl }
  | cons entry rest ih =>
    have later := ih (queue.insertInner entry.1 entry.2)
    rw [foldl_cons, map_cons]
    obtain ⟨capacity, cases⟩ := insertInner_cases queue entry.1 entry.2
    have kept : ∀ path ∈ queue.paths, path ∈ (queue.insertInner entry.1 entry.2).paths := by
      intro path mem
      rcases cases with ⟨-, same, -⟩ | ⟨-, -, same, -⟩ | ⟨-, -, more, -⟩
      · rw [same]; exact mem
      · rw [same]; exact mem
      · rw [more]; exact mem_append_left _ mem
    have sound : ∀ path ∈ (queue.insertInner entry.1 entry.2).paths,
        path ∈ queue.paths ∨ path = entry.1 := by
      intro path mem
      rcases cases with ⟨-, same, -⟩ | ⟨-, -, same, -⟩ | ⟨-, -, more, -⟩
      · exact Or.inl (same ▸ mem)
      · exact Or.inl (same ▸ mem)
      · rw [more] at mem
        exact (mem_append.1 mem).imp_right mem_singleton.1
    exact
      { capacity := later.capacity.trans capacity
        kept := fun path mem => later.kept path (kept path mem)
        sound := by
          intro path mem
          rcases later.sound path mem with early | late
          · rcases sound path early with before | rfl
            · exact Or.inl before
            · exact Or.inr mem_cons_self
          · exact Or.inr (mem_cons_of_mem _ late)
        covered := by
          intro path mem
          rcases mem_cons.1 mem with rfl | late
          · rcases cases with ⟨queued, -, -⟩ | ⟨-, -, -, flag⟩ | ⟨-, -, more, -⟩
            · exact Or.inl (later.kept _ (kept _ queued))
            · exact Or.inr (later.flagged flag)
            · apply Or.inl
              apply later.kept
              rw [more]
              exact mem_append_right _ (mem_singleton_self _)
          · exact later.covered path late
        flagged := by
          intro flag
          apply later.flagged
          rcases cases with ⟨-, -, same⟩ | ⟨-, -, -, set⟩ | ⟨-, -, -, same⟩
          · rw [same]; exact flag
          · exact set
          · rw [same]; exact flag
        dropped := by
          intro flag
          rcases later.dropped flag with early | ⟨⟨path, mem, absent⟩, full⟩
          · rcases cases with ⟨-, -, same⟩ | ⟨fresh, full, same, -⟩ | ⟨-, -, -, same⟩
            · exact Or.inl (same ▸ early)
            · -- at capacity the rest of the batch queues nothing new either
              have still : (queue.insertInner entry.1 entry.2).capacity ≤
                  (queue.insertInner entry.1 entry.2).paths.length := by
                rw [capacity, same]
                exact full
              obtain ⟨samePaths, sameCapacity⟩ := paths_foldl_insertInner_of_full still rest
              rw [samePaths, sameCapacity]
              exact Or.inr ⟨⟨entry.1, mem_cons_self, same ▸ fresh⟩, still⟩
            · exact Or.inl (same ▸ early)
          · exact Or.inr ⟨⟨path, mem_cons_of_mem _ mem, absent⟩, full⟩ }

theorem absorbs_extend (unflagged : queue.needsFullRescan = false)
    (incoming : List (PathBuf × Bool)) :
    queue.Absorbs (incoming.map Prod.fst) (queue.extend incoming) := by
  rw [extend, unflagged]
  exact absorbs_foldl_insertInner queue incoming

theorem extend_of_flagged (flagged : queue.needsFullRescan = true)
    (incoming : List (PathBuf × Bool)) : queue.extend incoming = queue := by
  rw [extend, if_pos flagged]

private theorem Bounded.foldl_insertInner (bounded : queue.Bounded)
    (incoming : List (PathBuf × Bool)) :
    (incoming.foldl (fun q entry => q.insertInner entry.1 entry.2) queue).Bounded := by
  induction incoming generalizing queue with
  | nil => exact bounded
  | cons entry rest ih => exact ih (bounded.insertInner entry.1 entry.2)

theorem Bounded.extend (bounded : queue.Bounded)
    (incoming : List (PathBuf × Bool)) : (queue.extend incoming).Bounded := by
  rw [WatchChangeQueue.extend]
  split_ifs
  · exact bounded
  · exact bounded.foldl_insertInner incoming

end WatchChangeQueue

end ContextEngine

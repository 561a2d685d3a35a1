/- digest: When the stored hash of a file is the hash of what its rows come from. -/

import Mathlib.Logic.Function.Basic
import ContextEngine.Lib.Collections
import ContextEngine.Lib.Runs

set_option autoImplicit false

namespace ContextEngine.MarkerProtocol

open List Runs

/-- How the engine hashes files; one beyond the size limit, or that cannot be read, gets no hash. -/
structure FileHashing (Content Hash : Type) where
  calculateHash : Content → Hash
  unhashable : Content → Bool

/-- What an operation holds of a path: its parsed content, or that it was deleted. -/
abbrev Batch (Path Content : Type) := List (Path × Option Content)

/-- How far a process has come in an operation. -/
inductive Phase (Path Content Hash : Type)
  | idle
  | parsing (todo : List Path) (batch : Batch Path Content)
  | resuming (todo batch : Batch Path Content)
  | building (batch : Batch Path Content)
  | activated (batch : Batch Path Content)
  | hashing (todo : List Path) (entries : List (Path × Hash))
  | marked

/-- The parse checkpoints of an operation, and whether its manifest is active. -/
structure Checkpoint (Path Content : Type) where
  files : Batch Path Content
  manifestActive : Bool

structure HotUpdate (Path Content Hash : Type) where
  disk : Path → Option Content
  /-- the content the rows of a file in the active generation come from -/
  rows : Path → Option Content
  /-- the stored hash of a file, its publication marker -/
  stored : Path → Option Hash
  checkpoint : Option (Checkpoint Path Content)
  phase : Phase Path Content Hash

inductive Step (Path Content : Type)
  /-- an edit, a deletion or a re-creation of a file by somebody else -/
  | write (path : Path) (content : Option Content)
  /-- `run_operation` over the changed paths -/
  | start (changed : List Path)
  /-- read one changed path; a path that is gone counts as deleted -/
  | parseNext
  /-- take up a path that the scan found removed -/
  | deleteNext
  /-- drop a path that could not be read -/
  | skipNext
  /-- the parse checkpoints of the batch are written -/
  | persist
  /-- every processor has committed, and the manifest is active -/
  | activate
  /-- a stage failed and the candidate is retired, with or without its checkpoints -/
  | abort (keep : Bool)
  /-- `commit_file_hashes`, the removed files -/
  | removeHashes
  /-- `commit_file_hashes`, one published path -/
  | hashNext
  /-- `update_cache_with_hashes` -/
  | recordHashes
  /-- the operation is marked completed -/
  | complete
  | crash
  /-- `resume_operation`, one checkpoint of a file after another -/
  | resume
  | restoreNext
  | restored

variable {Path Content Hash : Type}

def paths {α : Type} (batch : List (Path × α)) : List Path := batch.map Prod.fst

/-- The paths of parsed files. -/
def publishedPaths (batch : Batch Path Content) : List Path :=
  (batch.filter fun entry => entry.2.isSome).map Prod.fst

def deletedPaths (batch : Batch Path Content) : List Path :=
  (batch.filter fun entry => entry.2.isNone).map Prod.fst

section Update

variable [DecidableEq Path]

def replaceRows (rows : Path → Option Content) (batch : Batch Path Content) :
    Path → Option Content :=
  batch.foldl (fun rows entry => Function.update rows entry.1 entry.2) rows

def removeMarkers (stored : Path → Option Hash) (deleted : List Path) : Path → Option Hash :=
  fun path => if path ∈ deleted then none else stored path

def recordMarkers (stored : Path → Option Hash) (entries : List (Path × Hash)) :
    Path → Option Hash :=
  entries.foldl (fun stored entry => Function.update stored entry.1 (some entry.2)) stored

end Update

def FileHashing.hashOnDisk (hashing : FileHashing Content Hash) : Option Content → Option Hash
  | some content =>
    if hashing.unhashable content then none else some (hashing.calculateHash content)
  | none => none

/-- What a checkpoint restores: the checkpoint itself while the file on disk has its hash, and else
    what is on disk now. -/
def restoredFile [DecidableEq Hash] (hashing : FileHashing Content Hash) (onDisk : Option Content) :
    Option Content → Option Content
  | none => none
  | some parsed =>
    if onDisk.map hashing.calculateHash = some (hashing.calculateHash parsed) then some parsed
    else onDisk

def hashedEntry (hashing : FileHashing Content Hash) (onDisk : Option Content) (path : Path) :
    List (Path × Hash) :=
  ((hashing.hashOnDisk onDisk).map fun hash => (path, hash)).toList

def restoredEntry [DecidableEq Hash] (hashing : FileHashing Content Hash)
    (onDisk : Option Content) (entry : Path × Option Content) : Path × Option Content :=
  (entry.1, restoredFile hashing onDisk entry.2)

section Transitions

variable [DecidableEq Path] [DecidableEq Hash] (hashing : FileHashing Content Hash)

def step (s : HotUpdate Path Content Hash) : Step Path Content → HotUpdate Path Content Hash
  | .write path content => { s with disk := Function.update s.disk path content }
  | .start changed =>
    match s.phase with
    | .idle => { s with phase := .parsing changed [] }
    | _ => s
  | .parseNext =>
    match s.phase with
    | .parsing (path :: todo) batch =>
      { s with phase := .parsing todo (batch ++ [(path, s.disk path)]) }
    | _ => s
  | .deleteNext =>
    match s.phase with
    | .parsing (path :: todo) batch => { s with phase := .parsing todo (batch ++ [(path, none)]) }
    | _ => s
  | .skipNext =>
    match s.phase with
    | .parsing (_ :: todo) batch => { s with phase := .parsing todo batch }
    | _ => s
  | .persist =>
    match s.phase with
    | .parsing [] batch =>
      { s with checkpoint := some ⟨batch, false⟩, phase := .building batch }
    | _ => s
  | .activate =>
    match s.phase with
    | .building batch =>
      { s with
        rows := replaceRows s.rows batch
        -- the candidate's rows have no hash yet, and its overrides hide the inherited ones
        stored := removeMarkers s.stored (paths batch)
        checkpoint := s.checkpoint.map fun kept => { kept with manifestActive := true }
        phase := .activated batch }
    | _ => s
  | .abort keep => { s with checkpoint := if keep then s.checkpoint else none, phase := .idle }
  | .removeHashes =>
    match s.phase with
    | .activated batch =>
      { s with
        stored := removeMarkers s.stored (deletedPaths batch)
        phase := .hashing (publishedPaths batch) [] }
    | _ => s
  | .hashNext =>
    match s.phase with
    | .hashing (path :: todo) entries =>
      { s with phase := .hashing todo (entries ++ hashedEntry hashing (s.disk path) path) }
    | _ => s
  | .recordHashes =>
    match s.phase with
    | .hashing [] entries => { s with stored := recordMarkers s.stored entries, phase := .marked }
    | _ => s
  | .complete =>
    match s.phase with
    | .marked => { s with checkpoint := none, phase := .idle }
    | _ => s
  | .crash => { s with phase := .idle }
  | .resume =>
    match s.phase, s.checkpoint with
    | .idle, some kept => { s with phase := .resuming kept.files [] }
    | _, _ => s
  | .restoreNext =>
    match s.phase with
    | .resuming (entry :: todo) batch =>
      { s with phase := .resuming todo (batch ++ [restoredEntry hashing (s.disk entry.1) entry]) }
    | _ => s
  | .restored =>
    match s.phase, s.checkpoint with
    -- a published generation is not prepared again, only its hashes are committed
    | .resuming [] batch, some ⟨_, true⟩ => { s with phase := .activated batch }
    | .resuming [] batch, some ⟨_, false⟩ => { s with phase := .building batch }
    | _, _ => s

def afterFullIndex (disk rows : Path → Option Content) : HotUpdate Path Content Hash where
  disk := disk
  rows := rows
  stored path := (rows path).map hashing.calculateHash
  checkpoint := none
  phase := .idle

def scanReports (s : HotUpdate Path Content Hash) (path : Path) : Bool :=
  match s.disk path with
  | some content =>
    if hashing.unhashable content then false
    else s.stored path ≠ some (hashing.calculateHash content)
  | none => (s.stored path).isSome

end Transitions

section Invariant

variable (hashing : FileHashing Content Hash) (s : HotUpdate Path Content Hash)

def Marks (path : Path) : Prop :=
  s.stored path = (s.rows path).map hashing.calculateHash

/-- The generation of an operation is active and the operation is not completed. -/
def Active : Prop := ∃ files, s.checkpoint = some ⟨files, true⟩

/-- The second read of a path finds what is indexed; a path without a hash keeps a true marker. -/
def FindsIndexed (path : Path) : Prop :=
  (∀ hash, hashing.hashOnDisk (s.disk path) = some hash →
    (s.rows path).map hashing.calculateHash = some hash) ∧
      (hashing.hashOnDisk (s.disk path) = none → Marks hashing s path)

/-- No edit falls between a file's rows and its marker, and an activated operation is resumed before
    another one starts. -/
def Undisturbed : Step Path Content → Prop
  | .start _ => ¬ Active s
  | .abort _ => ¬ Active s
  | .removeHashes => ∀ batch, s.phase = .activated batch →
    ∀ path ∈ deletedPaths batch, path ∉ publishedPaths batch → s.rows path = none
  | .hashNext => ∀ path todo entries, s.phase = .hashing (path :: todo) entries →
    FindsIndexed hashing s path
  | _ => True

def PhaseHolds : Phase Path Content Hash → Prop
  | .idle => True
  | .parsing _ _ => ¬ Active s
  | .resuming todo batch => ∃ files active, s.checkpoint = some ⟨files, active⟩ ∧
    ∀ path, path ∈ paths files ↔ path ∈ paths todo ∨ path ∈ paths batch
  | .building batch => ∃ files, s.checkpoint = some ⟨files, false⟩ ∧
    ∀ path, path ∈ paths files ↔ path ∈ paths batch
  | .activated batch => ∃ files, s.checkpoint = some ⟨files, true⟩ ∧
    ∀ path, path ∈ paths files ↔ path ∈ paths batch
  | .hashing todo entries => Active s ∧
    (∀ entry ∈ entries, (s.rows entry.1).map hashing.calculateHash = some entry.2) ∧
      ∀ path, path ∉ todo → path ∉ paths entries → Marks hashing s path
  | .marked => Active s ∧ ∀ path, Marks hashing s path

/-- Only the paths of an activated operation may carry another marker for a while. -/
structure MarkerInvariant (s : HotUpdate Path Content Hash) : Prop where
  settled : ¬ Active s → ∀ path, Marks hashing s path
  others : ∀ files active, s.checkpoint = some ⟨files, active⟩ →
    ∀ path, path ∉ paths files → Marks hashing s path
  phase : PhaseHolds hashing s s.phase

end Invariant

variable {hashing : FileHashing Content Hash} {s : HotUpdate Path Content Hash}

theorem markerInvariant_afterFullIndex (disk rows : Path → Option Content) :
    MarkerInvariant hashing (afterFullIndex hashing disk rows) where
  settled _ _ := rfl
  others _ _ _ _ _ := rfl
  phase := trivial

section Batches

variable {batch : Batch Path Content} {path : Path}

theorem mem_paths_of_mem_deletedPaths
    (mem : path ∈ deletedPaths batch) : path ∈ paths batch := by
  obtain ⟨entry, kept, rfl⟩ := mem_map.1 mem
  exact mem_map_of_mem (mem_of_mem_filter kept)

theorem published_or_deleted
    (mem : path ∈ paths batch) : path ∈ publishedPaths batch ∨ path ∈ deletedPaths batch := by
  obtain ⟨entry, listed, rfl⟩ := mem_map.1 mem
  cases content : entry.2 with
  | some parsed =>
    exact Or.inl (mem_map_of_mem (mem_filter.2 ⟨listed, by rw [content]; rfl⟩))
  | none =>
    exact Or.inr (mem_map_of_mem (mem_filter.2 ⟨listed, by rw [content]; rfl⟩))

variable [DecidableEq Path]

theorem replaceRows_of_notMem
    (rows : Path → Option Content) (absent : path ∉ paths batch) :
    replaceRows rows batch path = rows path := by
  induction batch generalizing rows with
  | nil => rfl
  | cons entry batch ih =>
    rw [paths, map_cons, mem_cons, not_or] at absent
    exact (ih _ absent.2).trans (Function.update_of_ne absent.1 _ _)

theorem recordMarkers_of_notMem {entries : List (Path × Hash)}
    (stored : Path → Option Hash) (absent : path ∉ paths entries) :
    recordMarkers stored entries path = stored path := by
  induction entries generalizing stored with
  | nil => rfl
  | cons entry entries ih =>
    rw [paths, map_cons, mem_cons, not_or] at absent
    exact (ih _ absent.2).trans (Function.update_of_ne absent.1 _ _)

theorem recordMarkers_of_mem {entries : List (Path × Hash)}
    (stored : Path → Option Hash) (mem : path ∈ paths entries) :
    ∃ hash, (path, hash) ∈ entries ∧ recordMarkers stored entries path = some hash := by
  induction entries generalizing stored with
  | nil => cases mem
  | cons entry entries ih =>
    by_cases later : path ∈ paths entries
    · obtain ⟨hash, listed, recorded⟩ := ih (Function.update stored entry.1 (some entry.2)) later
      exact ⟨hash, mem_cons_of_mem _ listed, recorded⟩
    · obtain rfl : path = entry.1 := (mem_cons.1 mem).resolve_right later
      refine ⟨entry.2, mem_cons_self, ?_⟩
      exact (recordMarkers_of_notMem _ later).trans (Function.update_self ..)

end Batches

section Steps

theorem MarkerInvariant.with_phase (inv : MarkerInvariant hashing s)
    {phase : Phase Path Content Hash} (holds : PhaseHolds hashing s phase) :
    MarkerInvariant hashing { s with phase := phase } where
  settled := inv.settled
  others := inv.others
  phase := by
    cases phase <;> exact holds

theorem MarkerInvariant.persist (inv : MarkerInvariant hashing s) {batch : Batch Path Content}
    (inactive : ¬ Active s) : MarkerInvariant hashing
      { s with checkpoint := some ⟨batch, false⟩, phase := .building batch } where
  settled _ := inv.settled inactive
  others _ _ _ path _ := inv.settled inactive path
  phase := ⟨batch, rfl, fun _ => Iff.rfl⟩

theorem MarkerInvariant.abort (inv : MarkerInvariant hashing s) (inactive : ¬ Active s)
    (keep : Bool) : MarkerInvariant hashing
      { s with checkpoint := if keep then s.checkpoint else none, phase := .idle } where
  settled _ := inv.settled inactive
  others _ _ _ path _ := inv.settled inactive path
  phase := trivial

theorem MarkerInvariant.complete (marks : ∀ path, Marks hashing s path) :
    MarkerInvariant hashing { s with checkpoint := none, phase := .idle } where
  settled _ := marks
  others _ _ _ path _ := marks path
  phase := trivial

theorem PhaseHolds.restored {batch files : Batch Path Content} {active : Bool}
    (holds : PhaseHolds hashing s (.resuming [] batch))
    (found : s.checkpoint = some ⟨files, active⟩) (path : Path) :
    path ∈ paths files ↔ path ∈ paths batch := by
  obtain ⟨files', active', kept, same⟩ := holds
  rw [found] at kept
  cases kept
  exact (same path).trans (by simp [paths])

variable [DecidableEq Path]

theorem MarkerInvariant.activate (inv : MarkerInvariant hashing s) {batch : Batch Path Content}
    {files : Batch Path Content} (kept : s.checkpoint = some ⟨files, false⟩)
    (same : ∀ path, path ∈ paths files ↔ path ∈ paths batch) : MarkerInvariant hashing
      { s with
        rows := replaceRows s.rows batch
        stored := removeMarkers s.stored (paths batch)
        checkpoint := s.checkpoint.map fun kept => { kept with manifestActive := true }
        phase := .activated batch } where
  settled inactive := absurd ⟨files, by rw [kept]; rfl⟩ inactive
  others files' active found path outside := by
    rw [kept] at found
    cases found
    have before := inv.others files false kept path outside
    have absent : path ∉ paths batch := fun mem => outside ((same path).2 mem)
    show removeMarkers s.stored (paths batch) path =
      (replaceRows s.rows batch path).map hashing.calculateHash
    rw [replaceRows_of_notMem s.rows absent, removeMarkers, if_neg absent]
    exact before
  phase := ⟨files, by rw [kept]; rfl, same⟩

theorem MarkerInvariant.removeHashes (inv : MarkerInvariant hashing s)
    {batch files : Batch Path Content} (kept : s.checkpoint = some ⟨files, true⟩)
    (same : ∀ path, path ∈ paths files ↔ path ∈ paths batch)
    (gone : ∀ path ∈ deletedPaths batch, path ∉ publishedPaths batch → s.rows path = none) :
    MarkerInvariant hashing
      { s with
        stored := removeMarkers s.stored (deletedPaths batch)
        phase := .hashing (publishedPaths batch) [] } := by
  have outside : ∀ path, path ∉ paths batch → removeMarkers s.stored (deletedPaths batch) path =
        (s.rows path).map hashing.calculateHash := by
    intro path absent
    rw [removeMarkers, if_neg fun mem => absent (mem_paths_of_mem_deletedPaths mem)]
    exact inv.others files true kept path fun mem => absent ((same path).1 mem)
  exact {
    settled := fun inactive => absurd ⟨files, kept⟩ inactive
    others := fun files' active found path absent => by
      have equal : files' = files := by
        rw [kept] at found
        cases found
        rfl
      rw [equal] at absent
      exact outside path fun mem => absent ((same path).2 mem)
    phase := ⟨⟨files, kept⟩, by simp, fun path unpublished _ => by
      by_cases deleted : path ∈ deletedPaths batch
      · show removeMarkers s.stored (deletedPaths batch) path =
          (s.rows path).map hashing.calculateHash
        rw [removeMarkers, if_pos deleted, gone path deleted unpublished]
        rfl
      · exact outside path fun mem => (published_or_deleted mem).elim unpublished deleted⟩ }

theorem PhaseHolds.hashNext {path : Path} {todo : List Path} {entries : List (Path × Hash)}
    (holds : PhaseHolds hashing s (.hashing (path :: todo) entries))
    (finds : FindsIndexed hashing s path) :
    PhaseHolds hashing s (.hashing todo (entries ++ hashedEntry hashing (s.disk path) path)) := by
  obtain ⟨active, collected, marks⟩ := holds
  refine ⟨active, fun entry mem => ?_, fun other ahead absent => ?_⟩
  · rcases mem_append.1 mem with before | new
    · exact collected entry before
    · obtain ⟨hash, found, rfl⟩ := Option.map_eq_some_iff.1 (Option.mem_toList.1 new)
      exact finds.1 hash found
  · rw [paths, map_append, mem_append, not_or] at absent
    by_cases here : other = path
    · subst here
      cases found : hashing.hashOnDisk (s.disk other) with
      | none => exact finds.2 found
      | some hash =>
        rw [hashedEntry, found] at absent
        exact absurd mem_cons_self absent.2
    · refine marks other (fun mem => ?_) absent.1
      rcases mem_cons.1 mem with same | later
      · exact here same
      · exact ahead later

theorem MarkerInvariant.recordHashes {entries : List (Path × Hash)}
    (holds : PhaseHolds hashing s (.hashing [] entries)) : MarkerInvariant hashing
      { s with stored := recordMarkers s.stored entries, phase := .marked } := by
  obtain ⟨active, collected, marks⟩ := holds
  have all : ∀ path, recordMarkers s.stored entries path =
      (s.rows path).map hashing.calculateHash := by
    intro path
    by_cases mem : path ∈ paths entries
    · obtain ⟨hash, listed, recorded⟩ := recordMarkers_of_mem s.stored mem
      rw [recorded]
      exact (collected (path, hash) listed).symm
    · rw [recordMarkers_of_notMem s.stored mem]
      exact marks path not_mem_nil mem
  exact { settled := fun _ => all, others := fun _ _ _ path _ => all path, phase := ⟨active, all⟩ }

variable [DecidableEq Hash]

theorem MarkerInvariant.step (inv : MarkerInvariant hashing s) (move : Step Path Content)
    (calm : Undisturbed hashing s move) : MarkerInvariant hashing (step hashing s move) := by
  have holds := inv.phase
  cases move with
  | write path content =>
    refine ⟨inv.settled, inv.others, ?_⟩
    show PhaseHolds hashing _ s.phase
    cases phase : s.phase <;> rw [phase] at holds <;> exact holds
  | start changed =>
    simp only [MarkerProtocol.step]
    split
    · exact inv.with_phase calm
    · exact inv
  | parseNext =>
    simp only [MarkerProtocol.step]
    split
    · next phase => rw [phase] at holds; exact inv.with_phase holds
    · exact inv
  | deleteNext =>
    simp only [MarkerProtocol.step]
    split
    · next phase => rw [phase] at holds; exact inv.with_phase holds
    · exact inv
  | skipNext =>
    simp only [MarkerProtocol.step]
    split
    · next phase => rw [phase] at holds; exact inv.with_phase holds
    · exact inv
  | persist =>
    simp only [MarkerProtocol.step]
    split
    · next phase => rw [phase] at holds; exact inv.persist holds
    · exact inv
  | activate =>
    simp only [MarkerProtocol.step]
    split
    · next phase =>
        rw [phase] at holds
        obtain ⟨files, kept, same⟩ := holds
        exact inv.activate kept same
    · exact inv
  | abort keep => exact inv.abort calm keep
  | removeHashes =>
    simp only [MarkerProtocol.step]
    split
    · next batch phase =>
        rw [phase] at holds
        obtain ⟨files, kept, same⟩ := holds
        exact inv.removeHashes kept same (calm batch phase)
    · exact inv
  | hashNext =>
    simp only [MarkerProtocol.step]
    split
    · next path todo entries phase =>
        rw [phase] at holds
        exact inv.with_phase (holds.hashNext (calm path todo entries phase))
    · exact inv
  | recordHashes =>
    simp only [MarkerProtocol.step]
    split
    · next phase => rw [phase] at holds; exact MarkerInvariant.recordHashes holds
    · exact inv
  | complete =>
    simp only [MarkerProtocol.step]
    split
    · next phase => rw [phase] at holds; exact MarkerInvariant.complete holds.2
    · exact inv
  | crash => exact inv.with_phase trivial
  | resume =>
    simp only [MarkerProtocol.step]
    split
    · next kept _ found =>
        exact inv.with_phase ⟨kept.files, kept.manifestActive, found, by simp [paths]⟩
    · exact inv
  | restoreNext =>
    simp only [MarkerProtocol.step]
    split
    · next entry todo batch phase =>
        rw [phase] at holds
        obtain ⟨files, active, kept, same⟩ := holds
        refine inv.with_phase ⟨files, active, kept, fun path => (same path).trans ?_⟩
        simp only [paths, map_cons, map_append, mem_cons, mem_append,
          map_nil, not_mem_nil, or_false, restoredEntry]
        tauto
    · exact inv
  | restored =>
    simp only [MarkerProtocol.step]
    split
    · next batch files phase found =>
        rw [phase] at holds
        exact inv.with_phase ⟨files, found, holds.restored found⟩
    · next batch files phase found =>
        rw [phase] at holds
        exact inv.with_phase ⟨files, found, holds.restored found⟩
    · exact inv

end Steps

section Run

/-- Every marker is true, and the next scan reports every file that is not as it is indexed; a file
    without a hash is not compared. -/
structure TruthfulMarkers (hashing : FileHashing Content Hash) [DecidableEq Hash]
    (s : HotUpdate Path Content Hash) : Prop where
  marks : ∀ path, Marks hashing s path
  reports : ∀ path, (∀ content, s.disk path = some content → hashing.unhashable content = false) →
    (s.disk path).map hashing.calculateHash ≠ (s.rows path).map hashing.calculateHash →
      scanReports hashing s path = true

theorem truthfulMarkers_of_marks [DecidableEq Hash] (marks : ∀ path, Marks hashing s path) :
    TruthfulMarkers hashing s where
  marks := marks
  reports path hashed differ := by
    rw [← marks path] at differ
    unfold scanReports
    cases onDisk : s.disk path with
    | none =>
      rw [onDisk] at differ
      exact Option.isSome_iff_ne_none.2 fun none => differ none.symm
    | some content =>
      rw [onDisk] at differ
      simp only [hashed content onDisk, Bool.false_eq_true, if_false, decide_eq_true_eq]
      exact fun same => differ same.symm

variable [DecidableEq Path] [DecidableEq Hash]

/-- Contents that are their own hashes. -/
def plainHashing : FileHashing String String := ⟨id, fun _ => false⟩

def newFile : HotUpdate String String String :=
  afterFullIndex plainHashing (fun path : String => if path = "a.rs" then some "v1" else none)
    fun _ => none

/-- One operation over the new file. -/
def quietOperation : List (Step String String) :=
  [.start ["a.rs"], .parseNext, .persist, .activate, .removeHashes, .hashNext, .recordHashes,
    .complete]

/-- The file is edited between its activation and its second read. -/
def editedOperation : List (Step String String) :=
  [.start ["a.rs"], .parseNext, .persist, .activate, .removeHashes, .write "a.rs" (some "v2"),
    .hashNext, .recordHashes, .complete]

end Run

end ContextEngine.MarkerProtocol

/- digest: The quick check for changed files, and the exclusion rules it reads, compiled ahead of
   time. -/

import ContextEngine.Glob.Tokens
import ContextEngine.HotUpdate.FileHashCache
import ContextEngine.Lib.Runs
import ContextEngine.Scan.Walker

set_option autoImplicit false

namespace ContextEngine

open Runs List

inductive ExcludeRuleType where
  | pathPattern (pattern : String)
  | fileSize (maxBytes : Nat)
  | language (languages : List String)
  /-- All conditions must match. -/
  | composite (conditions : List ExcludeRuleType)

structure ExcludeRules where
  enabled : Bool
  rules : List ExcludeRuleType
  compiledGlobs : List (String × Glob)

namespace ExcludeRules

mutual

def matchesRule (rules : ExcludeRules) (entry : FileEntry) : ExcludeRuleType → Bool
  | .pathPattern pattern =>
    rules.compiledGlobs.any fun compiled =>
      decide (compiled.1 = pattern) && compiled.2.isMatch entry.relativePath
  | .fileSize maxBytes => decide (maxBytes < entry.size)
  | .language languages => entry.languageInfo.any languages.contains
  | .composite conditions => matchesAll rules entry conditions

def matchesAll (rules : ExcludeRules) (entry : FileEntry) : List ExcludeRuleType → Bool
  | [] => true
  | condition :: conditions =>
    matchesRule rules entry condition && matchesAll rules entry conditions

end

def shouldExclude (rules : ExcludeRules) (entry : FileEntry) : Bool :=
  rules.enabled && rules.rules.any (rules.matchesRule entry)

end ExcludeRules

def fullScanInterval : Nat := 10

structure ScanReuseState where
  previousEntries : HashMap PathBuf FileEntry
  scansSinceFull : Nat

/-- The detector together with the tables of its project. -/
structure ChangeDetector where
  tables : FileHashTables
  scanOptions : ScanOptions
  excludeRules : Option ExcludeRules
  scanReuse : ScanReuseState

structure CacheUpdateResult where
  added : List PathBuf
  modified : List PathBuf
  unchanged : List PathBuf
  removed : List PathBuf

namespace CacheUpdateResult

def totalChanges (result : CacheUpdateResult) : Nat :=
  result.added.length + result.modified.length + result.removed.length

def hasChanges (result : CacheUpdateResult) : Bool := decide (0 < result.totalChanges)

end CacheUpdateResult

namespace ChangeDetector

variable (detector : ChangeDetector) (disk : Disk)

/-- Scan the project, reusing the previous hashes of unchanged files except in every
    `fullScanInterval`-th scan, and note the entries for the next scan. -/
def scanEntries : Except String (List FileEntry × ChangeDetector) :=
  let forceFull : Bool := decide (fullScanInterval ≤ detector.scanReuse.scansSinceFull)
  let reusePrevious : HashMap PathBuf FileEntry :=
    if forceFull then ∅ else detector.scanReuse.previousEntries
  let previous := if reusePrevious.entries.isEmpty then none else some reusePrevious
  (scan disk detector.scanOptions previous).map fun entries =>
    (entries, { detector with
      scanReuse :=
        { previousEntries := HashMap.extend ∅ (entries.map fun entry => (entry.relativePath, entry))
          scansSinceFull := if forceFull then 0 else detector.scanReuse.scansSinceFull + 1 } })

def excludes (entry : FileEntry) : Bool :=
  detector.excludeRules.any fun rules => rules.shouldExclude entry

/-- What the quick check has gathered from the entries so far. -/
structure CheckState where
  diskCount : Nat
  currentPaths : HashSet PathBuf
  sawUnhashable : Bool

/-- The loop over the entries; nothing is gathered once a difference is found. -/
def checkEntries : List FileEntry → CheckState → Except String (Option CheckState)
  | [], state => .ok (some state)
  | entry :: entries, state =>
    if detector.excludes entry then checkEntries entries state
    else
      let counted : CheckState :=
        { state with
          diskCount := state.diskCount + 1
          currentPaths := state.currentPaths.insert entry.relativePath }
      match entry.contentHash with
      | some hash => do
          let stored ← detector.tables.storedHash entry.relativePath
          if stored ≠ some hash then .ok none else checkEntries entries counted
      | none => checkEntries entries { counted with sawUnhashable := true }

/-- Whether there are changes, on the entries of a scan. -/
def check (entries : List FileEntry) : Except String Bool := do
  match ← detector.checkEntries entries ⟨0, ∅, false⟩ with
  | none => .ok true
  | some state =>
    let visible := detector.tables.visiblePaths
    if visible.toList.length = state.diskCount ∧ state.sawUnhashable = false then .ok false
    else .ok (visible.toList.any fun path => decide (path ∉ state.currentPaths))

/-- Which changes there are, on the entries of a scan. -/
def detect (entries : List FileEntry) : CacheUpdateResult :=
  let filtered := entries.filter fun entry => !detector.excludes entry
  let currentPaths := HashSet.ofList (filtered.map FileEntry.relativePath)
  let stored := detector.tables.storedHashes
  let hashed := filtered.filterMap fun entry =>
    entry.contentHash.map fun hash => (entry.relativePath, hash)
  { removed := detector.tables.visiblePaths.toList.filter fun path => path ∉ currentPaths
    added := (hashed.filter fun file => stored.lookup file.1 = none).map Prod.fst
    modified := (hashed.filter fun file =>
      (stored.lookup file.1).any fun old => old ≠ file.2).map Prod.fst
    unchanged := (hashed.filter fun file => stored.lookup file.1 = some file.2).map Prod.fst }

def scanAndCheck : Except String (Bool × ChangeDetector) := do
  let (entries, after) ← detector.scanEntries disk
  let changed ← detector.check entries
  .ok (changed, after)

def scanAndDetect : Except String (CacheUpdateResult × ChangeDetector) := do
  let (entries, after) ← detector.scanEntries disk
  .ok (detector.detect entries, after)

end ChangeDetector

namespace ChangeDetector

variable (detector : ChangeDetector)

/-- The entries that no exclude rule drops. -/
def kept (entries : List FileEntry) : List FileEntry :=
  entries.filter fun entry => !detector.excludes entry

def differs (entry : FileEntry) : Bool :=
  entry.contentHash.isSome &&
    decide (detector.tables.storedHash entry.relativePath ≠ .ok entry.contentHash)

/-- The file at which the quick check stops. -/
def firstDiffering (entries : List FileEntry) : Option FileEntry :=
  (detector.kept entries).find? detector.differs

/-- Every hashed file has its visible hash, and every visible path is on disk. -/
structure Unchanged (entries : List FileEntry) : Prop where
  hashes : ∀ entry ∈ detector.kept entries, ∀ hash, entry.contentHash = some hash →
    detector.tables.storedHashes.lookup entry.relativePath = some hash
  paths : ∀ path ∈ detector.tables.visiblePaths,
    path ∈ (detector.kept entries).map FileEntry.relativePath

/-- The lookup that ends the loop can be read unless nothing has changed, and where only the
    counts are compared no file is listed twice. -/
structure Dependable (entries : List FileEntry) : Prop where
  readable : ∀ entry, detector.firstDiffering entries = some entry →
    (∃ stored, detector.tables.storedHash entry.relativePath = .ok stored) ∨
      detector.Unchanged entries
  counted : detector.firstDiffering entries = none →
    (∀ entry ∈ detector.kept entries, entry.contentHash ≠ none) →
    detector.tables.visiblePaths.toList.length = (detector.kept entries).length →
    ((detector.kept entries).map FileEntry.relativePath).Nodup

variable {detector} {entries : List FileEntry}

variable {entry : FileEntry}

private theorem kept_cons_of_excluded (excluded : detector.excludes entry = true) :
    detector.kept (entry :: entries) = detector.kept entries := by
  rw [kept, filter_cons_of_neg]
  · rfl
  · rw [excluded]
    exact Bool.false_ne_true

private theorem kept_cons (included : detector.excludes entry = false) :
    detector.kept (entry :: entries) = entry :: detector.kept entries := by
  rw [kept, filter_cons_of_pos]
  · rfl
  · rw [included]
    rfl

private theorem differs_of_none (unhashed : entry.contentHash = none) :
    detector.differs entry = false := by
  rw [differs, unhashed]
  rfl

private theorem differs_of_some {hash : String} (hashed : entry.contentHash = some hash) :
    detector.differs entry =
      decide (detector.tables.storedHash entry.relativePath ≠ .ok (some hash)) := by
  rw [differs, hashed]
  rfl

variable (state : CheckState)

private theorem checkEntries_differing
    (included : detector.excludes entry = false) (differing : detector.differs entry = true) :
    detector.checkEntries (entry :: entries) state =
      (detector.tables.storedHash entry.relativePath).map fun _ => none := by
  rw [checkEntries, included, if_neg Bool.false_ne_true]
  cases hashed : entry.contentHash with
  | none => exact absurd ((differs_of_none hashed).symm.trans differing) Bool.false_ne_true
  | some hash =>
    rw [differs_of_some hashed, decide_eq_true_eq] at differing
    cases read : detector.tables.storedHash entry.relativePath with
    | error message => rfl
    | ok stored =>
      have other : stored ≠ some hash := fun same => differing (read.trans (congrArg _ same))
      exact if_pos other

private theorem checkEntries_agreeing
    (included : detector.excludes entry = false) (agreeing : detector.differs entry = false) :
    detector.checkEntries (entry :: entries) state = detector.checkEntries entries
        { diskCount := state.diskCount + 1
          currentPaths := state.currentPaths.insert entry.relativePath
          sawUnhashable := state.sawUnhashable || entry.contentHash.isNone } := by
  rw [checkEntries, included, if_neg Bool.false_ne_true]
  cases hashed : entry.contentHash with
  | none => rw [Option.isNone_none, Bool.or_true]
  | some hash =>
    rw [differs_of_some hashed, decide_eq_false_iff_not, not_not] at agreeing
    rw [Option.isNone_some, Bool.or_false]
    simp only [agreeing]
    exact if_neg fun other => other rfl

private theorem checkEntries_of_differing (found : detector.firstDiffering entries = some entry) :
    detector.checkEntries entries state =
      (detector.tables.storedHash entry.relativePath).map fun _ => none := by
  induction entries generalizing state with
  | nil => exact absurd found.symm (Option.some_ne_none entry)
  | cons first entries ih =>
    rw [firstDiffering] at found
    cases excluded : detector.excludes first with
    | true =>
      rw [kept_cons_of_excluded excluded] at found
      rw [checkEntries, excluded, if_pos rfl]
      exact ih state found
    | false =>
      rw [kept_cons excluded] at found
      cases differing : detector.differs first with
      | true =>
        rw [find?_cons_of_pos differing] at found
        rw [checkEntries_differing state excluded differing, Option.some.inj found]
      | false =>
        rw [find?_cons_of_neg (by rw [differing]; exact Bool.false_ne_true)] at found
        rw [checkEntries_agreeing state excluded differing]
        exact ih _ found

private theorem checkEntries_of_agreeing (none_differs : detector.firstDiffering entries = none) :
    detector.checkEntries entries state = .ok (some
      { diskCount := state.diskCount + (detector.kept entries).length
        currentPaths :=
          ((detector.kept entries).map FileEntry.relativePath).foldl HashSet.insert
            state.currentPaths
        sawUnhashable := state.sawUnhashable ||
          (detector.kept entries).any fun entry => entry.contentHash.isNone }) := by
  induction entries generalizing state with
  | nil =>
    show Except.ok (some state) = Except.ok (some ⟨_, _, state.sawUnhashable || false⟩)
    rw [Bool.or_false]
    rfl
  | cons first entries ih =>
    rw [firstDiffering] at none_differs
    cases excluded : detector.excludes first with
    | true =>
      rw [kept_cons_of_excluded excluded] at none_differs ⊢
      rw [checkEntries, excluded, if_pos rfl]
      exact ih state none_differs
    | false =>
      rw [kept_cons excluded, find?_cons] at none_differs
      cases differing : detector.differs first with
      | true =>
        rw [differing] at none_differs
        exact absurd none_differs (Option.some_ne_none first)
      | false =>
        rw [differing] at none_differs
        rw [checkEntries_agreeing state excluded differing, ih _ none_differs, kept_cons excluded]
        simp only [length_cons, map_cons, foldl_cons, any_cons,
          Bool.or_assoc, Nat.add_assoc, Nat.add_comm 1]

private theorem removed_eq_nil_iff :
    (detector.detect entries).removed = [] ↔ ∀ path ∈ detector.tables.visiblePaths,
        path ∈ (detector.kept entries).map FileEntry.relativePath := by
  show (detector.tables.visiblePaths.toList.filter fun path => decide (path ∉
    HashSet.ofList ((detector.kept entries).map FileEntry.relativePath))) = [] ↔ _
  rw [filter_eq_nil_iff]
  simp only [decide_eq_true_eq, not_not, HashSet.mem_ofList, HashSet.mem_toList]

private theorem added_modified_eq_nil_iff :
    (detector.detect entries).added = [] ∧ (detector.detect entries).modified = [] ↔
      ∀ entry ∈ detector.kept entries, ∀ hash, entry.contentHash = some hash →
        detector.tables.storedHashes.lookup entry.relativePath = some hash := by
  have mem_hashed : ∀ file, file ∈ ((detector.kept entries).filterMap fun entry =>
      entry.contentHash.map fun hash => (entry.relativePath, hash)) ↔
      ∃ entry ∈ detector.kept entries, entry.contentHash = some file.2 ∧
        entry.relativePath = file.1 := by
    intro file
    rw [mem_filterMap]
    constructor
    · intro ⟨entry, mem, same⟩
      obtain ⟨hash, hashed, rfl⟩ := Option.map_eq_some_iff.1 same
      exact ⟨entry, mem, hashed, rfl⟩
    · intro ⟨entry, mem, hashed, path⟩
      exact ⟨entry, mem, by rw [hashed, Option.map_some, path]⟩
  have lists : (detector.detect entries).added = [] ∧ (detector.detect entries).modified = [] ↔
      ∀ file ∈ ((detector.kept entries).filterMap fun entry =>
        entry.contentHash.map fun hash => (entry.relativePath, hash)),
        detector.tables.storedHashes.lookup file.1 = some file.2 := by
    show (filter _ _).map Prod.fst = [] ∧ (filter _ _).map Prod.fst = [] ↔ _
    rw [map_eq_nil_iff, map_eq_nil_iff, filter_eq_nil_iff, filter_eq_nil_iff, ← forall₂_and]
    refine forall₂_congr fun file _ => ?_
    cases detector.tables.storedHashes.lookup file.1 with
    | none => simp only [decide_true, not_true, false_and, reduceCtorEq]
    | some old =>
      simp only [reduceCtorEq, decide_false, Bool.false_eq_true, not_false_eq_true, true_and,
        Option.any_some, decide_eq_true_eq, not_not, Option.some.injEq]
  rw [lists]
  constructor
  · intro matched entry mem hash hashed
    exact matched (entry.relativePath, hash) ((mem_hashed _).2 ⟨entry, mem, hashed, rfl⟩)
  · intro matched file mem
    obtain ⟨entry, entry_mem, hashed, path⟩ := (mem_hashed file).1 mem
    rw [← path]
    exact matched entry entry_mem file.2 hashed

theorem hasChanges_iff :
    (detector.detect entries).hasChanges = true ↔ ¬detector.Unchanged entries := by
  have unchanged : detector.Unchanged entries ↔
      ((detector.detect entries).added = [] ∧ (detector.detect entries).modified = []) ∧
        (detector.detect entries).removed = [] := by
    rw [added_modified_eq_nil_iff, removed_eq_nil_iff]
    exact ⟨fun same => ⟨same.hashes, same.paths⟩, fun ⟨hashes, paths⟩ => ⟨hashes, paths⟩⟩
  rw [unchanged, CacheUpdateResult.hasChanges, CacheUpdateResult.totalChanges, decide_eq_true_eq,
    ← length_eq_zero_iff, ← length_eq_zero_iff, ← length_eq_zero_iff]
  omega

private theorem check_of_agreeing (none_differs : detector.firstDiffering entries = none) :
    detector.check entries = .ok true ↔
      ¬(detector.tables.visiblePaths.toList.length = (detector.kept entries).length ∧
        ∀ entry ∈ detector.kept entries, entry.contentHash ≠ none) ∧
      ∃ path ∈ detector.tables.visiblePaths,
        path ∉ (detector.kept entries).map FileEntry.relativePath := by
  have gathered := checkEntries_of_agreeing ⟨0, ∅, false⟩ none_differs
  rw [Nat.zero_add, Bool.false_or] at gathered
  have all_hashed : ((detector.kept entries).any fun entry => entry.contentHash.isNone) = false ↔
      ∀ entry ∈ detector.kept entries, entry.contentHash ≠ none := by
    rw [any_eq_false]
    simp only [Option.isNone_iff_eq_none, ne_eq]
  rw [check, gathered]
  show (if _ ∧ _ then Except.ok false else Except.ok _) = Except.ok true ↔ _
  rw [← all_hashed]
  split_ifs with counted
  · exact ⟨fun same => absurd (Except.ok.inj same) Bool.false_ne_true,
      fun ⟨uncounted, _⟩ => absurd counted uncounted⟩
  · rw [Except.ok.injEq, any_eq_true]
    simp only [decide_eq_true_eq, HashSet.mem_foldl_insert, HashSet.notMem_empty, or_false,
      HashSet.mem_toList, counted, not_false_eq_true, true_and]

private theorem paths_subset_visible (none_differs : detector.firstDiffering entries = none)
    (hashed : ∀ entry ∈ detector.kept entries, entry.contentHash ≠ none) :
    (detector.kept entries).map FileEntry.relativePath ⊆ detector.tables.visiblePaths.toList := by
  intro path mem
  obtain ⟨entry, entry_mem, rfl⟩ := mem_map.1 mem
  obtain ⟨hash, hash_eq⟩ := Option.ne_none_iff_exists'.1 (hashed entry entry_mem)
  have same := find?_eq_none.1 none_differs entry entry_mem
  rw [differs_of_some hash_eq, decide_eq_true_eq, not_not] at same
  exact FileHashTables.mem_visiblePaths_of_lookup (FileHashTables.storedHash_of_ok same).symm

private theorem none_removed_iff {listed : List PathBuf} {visible : HashSet PathBuf}
    (subset : listed ⊆ visible.toList) (counted : visible.toList.length = listed.length) :
    (∀ path ∈ visible, path ∈ listed) ↔ listed.Nodup := by
  constructor
  · intro covered
    have distinct : visible.toList ⊆ listed.dedup := fun path mem =>
      mem_dedup.2 (covered path mem)
    have bound := (subperm_of_subset visible.nodup distinct).length_le
    rw [← dedup_eq_self]
    apply (dedup_sublist listed).eq_of_length_le
    omega
  · intro nodup path mem
    have same := (subperm_of_subset nodup subset).perm_of_length_le counted.le
    exact same.mem_iff.2 mem

private theorem unchanged_of_agreeing (none_differs : detector.firstDiffering entries = none)
    (covered : ∀ path ∈ detector.tables.visiblePaths,
      path ∈ (detector.kept entries).map FileEntry.relativePath) :
    detector.Unchanged entries := by
  refine ⟨fun entry mem hash hashed => ?_, covered⟩
  have same := find?_eq_none.1 none_differs entry mem
  rw [differs_of_some hashed, decide_eq_true_eq, not_not] at same
  exact (FileHashTables.storedHash_of_ok same).symm

private theorem not_unchanged_of_differing {stored : Option String}
    (first : detector.firstDiffering entries = some entry)
    (read : detector.tables.storedHash entry.relativePath = .ok stored) :
    ¬detector.Unchanged entries := by
  intro unchanged
  have differing : detector.differs entry = true := find?_some first
  have mem : entry ∈ detector.kept entries := mem_of_find?_eq_some first
  cases hashed : entry.contentHash with
  | none => exact absurd ((differs_of_none hashed).symm.trans differing) Bool.false_ne_true
  | some hash =>
    rw [differs_of_some hashed, decide_eq_true_eq] at differing
    apply differing
    rw [read, FileHashTables.storedHash_of_ok read, unchanged.hashes entry mem hash hashed]

/-- On the entries of a scan the quick check finds changes when the detection does, exactly when
    the entries can be depended on. -/
theorem check_agrees_iff :
    (detector.check entries = .ok true ↔ (detector.detect entries).hasChanges = true) ↔
      detector.Dependable entries := by
  rw [hasChanges_iff]
  cases first : detector.firstDiffering entries with
  | some entry =>
    have looked := checkEntries_of_differing ⟨0, ∅, false⟩ first
    have dependable : detector.Dependable entries ↔
        (∃ stored, detector.tables.storedHash entry.relativePath = .ok stored) ∨
          detector.Unchanged entries := by
      constructor
      · intro dependable
        exact dependable.readable entry first
      · intro readable
        refine ⟨fun other found => ?_, fun none_differs => ?_⟩
        · rwa [← Option.some.inj (first.symm.trans found)]
        · exact absurd (first.symm.trans none_differs) (Option.some_ne_none entry)
    rw [dependable]
    cases read : detector.tables.storedHash entry.relativePath with
    | error message =>
      have failed : detector.check entries ≠ .ok true := by
        rw [check, looked, read]
        exact fun same => by cases same
      simp only [failed, false_iff, not_not, reduceCtorEq, exists_false, false_or]
    | ok stored =>
      have found : detector.check entries = .ok true := by
        rw [check, looked, read]
        rfl
      simp only [found, not_unchanged_of_differing first read, not_false_eq_true,
        Except.ok.injEq, exists_eq', true_or]
  | none =>
    have dependable : detector.Dependable entries ↔
        ((∀ entry ∈ detector.kept entries, entry.contentHash ≠ none) →
          detector.tables.visiblePaths.toList.length = (detector.kept entries).length →
          ((detector.kept entries).map FileEntry.relativePath).Nodup) := by
      constructor
      · intro dependable
        exact dependable.counted first
      · intro counted
        refine ⟨fun other found => ?_, fun _ => counted⟩
        exact absurd (found.symm.trans first) (Option.some_ne_none other)
    have unchanged : detector.Unchanged entries ↔ ∀ path ∈ detector.tables.visiblePaths,
        path ∈ (detector.kept entries).map FileEntry.relativePath :=
      ⟨Unchanged.paths, unchanged_of_agreeing first⟩
    have missing : (∃ path ∈ detector.tables.visiblePaths,
        path ∉ (detector.kept entries).map FileEntry.relativePath) ↔
          ¬detector.Unchanged entries := by
      rw [unchanged]
      simp only [not_forall, exists_prop]
    rw [dependable, check_of_agreeing first, missing]
    by_cases settled : detector.tables.visiblePaths.toList.length = (detector.kept entries).length ∧
      ∀ entry ∈ detector.kept entries, entry.contentHash ≠ none
    · -- the counts answer that nothing has changed
      have covered := none_removed_iff (paths_subset_visible first settled.2)
        (settled.1.trans (length_map FileEntry.relativePath).symm)
      rw [← unchanged] at covered
      constructor
      · intro agree _ _
        rw [← covered]
        by_contra changed
        exact (agree.2 changed).1 settled
      · intro distinct
        have same : detector.Unchanged entries := covered.2 (distinct settled.2 settled.1)
        exact ⟨fun counted => absurd settled counted.1, fun changed => absurd same changed⟩
    · -- the difference of the paths answers
      constructor
      · intro _ hashed length
        exact absurd ⟨length, hashed⟩ settled
      · intro _
        exact ⟨And.right, fun changed => ⟨settled, changed⟩⟩

private theorem scanAndCheck_iff {disk : Disk} :
    (∃ after, detector.scanAndCheck disk = .ok (true, after)) ↔
      ∃ entries after, detector.scanEntries disk = .ok (entries, after) ∧
        detector.check entries = .ok true := by
  constructor
  · rintro ⟨_, checked⟩
    obtain ⟨⟨entries, after⟩, scanned, checked⟩ := bind_eq_ok.1 checked
    obtain ⟨_, answer, same⟩ := bind_eq_ok.1 checked
    obtain ⟨rfl, _⟩ := Prod.mk.inj (Except.ok.inj same)
    exact ⟨entries, after, scanned, answer⟩
  · rintro ⟨entries, after, scanned, answer⟩
    exact ⟨after, bind_eq_ok.2 ⟨_, scanned, bind_eq_ok.2 ⟨true, answer, rfl⟩⟩⟩

private theorem scanAndDetect_iff {disk : Disk} :
    (∃ result after, detector.scanAndDetect disk = .ok (result, after) ∧ result.hasChanges = true) ↔
      ∃ entries after, detector.scanEntries disk = .ok (entries, after) ∧
        (detector.detect entries).hasChanges = true := by
  constructor
  · rintro ⟨_, _, detected, changed⟩
    obtain ⟨⟨entries, after⟩, scanned, same⟩ := bind_eq_ok.1 detected
    obtain ⟨rfl, _⟩ := Prod.mk.inj (Except.ok.inj same)
    exact ⟨entries, after, scanned, changed⟩
  · rintro ⟨entries, after, scanned, changed⟩
    exact ⟨_, after, bind_eq_ok.2 ⟨_, scanned, rfl⟩, changed⟩

/-- The quick check of a disk finds changes when the detection on the same disk and state does,
    exactly when the entries of the scan, if it succeeds, can be depended on. -/
theorem scanAndCheck_agrees_iff (detector : ChangeDetector) (disk : Disk) :
    ((∃ after, detector.scanAndCheck disk = .ok (true, after)) ↔
        ∃ result after, detector.scanAndDetect disk = .ok (result, after) ∧
          result.hasChanges = true) ↔
      ∀ entries after, detector.scanEntries disk = .ok (entries, after) →
        detector.Dependable entries := by
  rw [scanAndCheck_iff, scanAndDetect_iff]
  generalize detector.scanEntries disk = scanned
  cases scanned with
  | error message =>
    constructor
    · intro _ entries after scan_eq
      cases scan_eq
    · intro _
      constructor
      · intro ⟨_, _, scan_eq, _⟩
        cases scan_eq
      · intro ⟨_, _, scan_eq, _⟩
        cases scan_eq
  | ok pair =>
    obtain ⟨entries, after⟩ := pair
    have only : ∀ P : List FileEntry → Prop,
        (∃ listed later,
          Except.ok (entries, after) = (Except.ok (listed, later) : Except String _) ∧
            P listed) ↔ P entries := by
      intro P
      constructor
      · intro ⟨_, _, scan_eq, holds⟩
        obtain ⟨rfl, rfl⟩ := Prod.mk.inj (Except.ok.inj scan_eq)
        exact holds
      · intro holds
        exact ⟨entries, after, rfl, holds⟩
    rw [only fun listed => detector.check listed = .ok true,
      only fun listed => (detector.detect listed).hasChanges = true, check_agrees_iff]
    constructor
    · intro dependable _ _ scan_eq
      obtain ⟨rfl, rfl⟩ := Prod.mk.inj (Except.ok.inj scan_eq)
      exact dependable
    · intro all
      exact all entries after rfl

end ChangeDetector

def linkedDisk : Disk where
  canonicalize path := if path = "/p/link.rs" then some "/p/real.rs" else some path
  isDir path := decide (path = "/p")
  isFile path := decide (path = "/p/real.rs")
  readDir path := if path = "/p" then
    some [some ("/p/link.rs", some .symlink), some ("/p/real.rs", some .file)] else none
  metadata _ := some ⟨1, some 0⟩
  contents _ := some ⟨"hash", some "Rust"⟩
  directories := ["/p"]
  readable dir readable := by
    by_contra outside
    apply readable
    rw [List.mem_singleton] at outside
    exact if_neg outside

def linkedDetector : ChangeDetector where
  tables :=
    { activeManifest := none
      parentDataEpochOf := fun _ => none
      overrides := fun _ => []
      activeEpochMeta := none
      files := fun _ =>
        HashMap.extend ∅ [("real.rs", some "hash"), ("deleted.rs", some "other")] }
  scanOptions := ⟨"/p", fun _ => ⟨fun _ => true, fun _ => false⟩, true, none⟩
  excludeRules := none
  scanReuse := ⟨∅, 0⟩

/-- The file counts twice, which hides the deleted one from the quick check. -/
theorem linkedDetector_disagrees :
    (linkedDetector.scanAndCheck linkedDisk).map Prod.fst = .ok false ∧
      (linkedDetector.scanAndDetect linkedDisk).map (fun found => found.1.removed) =
        .ok ["deleted.rs"] := by
  decide +kernel

/-- The configuration of the engine. -/
structure ExcludeRulesConfig where
  enabled : Bool
  rules : List ExcludeRuleType

namespace ExcludeRuleType

def compilePattern (pattern : String) : Except String (List (String × Glob)) :=
  match Glob.new pattern with
  | .ok glob => .ok [(pattern, glob)]
  | .error e => .error s!"Failed to compile glob pattern '{pattern}': {e}"

def compileCondition : ExcludeRuleType → Except String (List (String × Glob))
  | .pathPattern pattern => compilePattern pattern
  | _ => .ok []

def compile : ExcludeRuleType → Except String (List (String × Glob))
  | .pathPattern pattern => compilePattern pattern
  | .composite conditions => (conditions.mapM compileCondition).map List.flatten
  | _ => .ok []

end ExcludeRuleType

namespace ExcludeRules

def new (config : ExcludeRulesConfig) : Except String ExcludeRules :=
  (config.rules.mapM ExcludeRuleType.compile).map fun globs =>
    ⟨config.enabled, config.rules, globs.flatten⟩

end ExcludeRules

namespace ExcludeRuleType

/-- The meaning of a rule, pattern by pattern and condition by condition. -/
inductive MatchesFile (entry : FileEntry) : ExcludeRuleType → Prop
  | pathPattern {pattern : String} {glob : Glob} (compiles : Glob.new pattern = .ok glob)
      (accepts : glob.isMatch entry.relativePath = true) : MatchesFile entry (.pathPattern pattern)
  | fileSize {maxBytes : Nat} (larger : maxBytes < entry.size) :
      MatchesFile entry (.fileSize maxBytes)
  | language {languages : List String} {name : String} (detected : entry.languageInfo = some name)
      (listed : name ∈ languages) : MatchesFile entry (.language languages)
  | composite {conditions : List ExcludeRuleType}
      (all : ∀ cond ∈ conditions, MatchesFile entry cond) :
      MatchesFile entry (.composite conditions)

inductive HasPattern (pattern : String) : ExcludeRuleType → Prop
  | here : HasPattern pattern (.pathPattern pattern)
  | inside {cond : ExcludeRuleType} {conditions : List ExcludeRuleType} (mem : cond ∈ conditions)
      (deeper : HasPattern pattern cond) : HasPattern pattern (.composite conditions)

def Shallow (rules : List ExcludeRuleType) (pattern : String) : Prop :=
  .pathPattern pattern ∈ rules ∨
    ∃ conditions, .composite conditions ∈ rules ∧ .pathPattern pattern ∈ conditions

section Compilation

variable {pattern : String} {glob : Glob} {globs : List (String × Glob)} {rule : ExcludeRuleType}

theorem mem_compilePattern {text : String} (compiled : compilePattern text = .ok globs) :
    (pattern, glob) ∈ globs ↔ text = pattern ∧ Glob.new pattern = .ok glob := by
  unfold compilePattern at compiled
  split at compiled
  · next parsed made =>
      cases compiled
      rw [mem_singleton, Prod.mk.injEq]
      constructor
      · rintro ⟨rfl, rfl⟩
        exact ⟨rfl, made⟩
      · rintro ⟨rfl, again⟩
        rw [made] at again
        cases again
        exact ⟨rfl, rfl⟩
  · cases compiled

theorem mem_compileCondition (compiled : rule.compileCondition = .ok globs) :
    (pattern, glob) ∈ globs ↔ rule = .pathPattern pattern ∧ Glob.new pattern = .ok glob := by
  cases rule with
  | pathPattern text =>
    rw [mem_compilePattern compiled, ExcludeRuleType.pathPattern.injEq]
  | fileSize | language | composite =>
    cases compiled
    simp

theorem mem_flatten_of_mapM {f : ExcludeRuleType → Except String (List (String × Glob))}
    {rules : List ExcludeRuleType} {all : List (List (String × Glob))}
    (compiled : rules.mapM f = .ok all)
    {P : ExcludeRuleType → Prop}
    (each : ∀ rule ∈ rules, ∀ globs, f rule = .ok globs → ((pattern, glob) ∈ globs ↔ P rule)) :
    (pattern, glob) ∈ all.flatten ↔ ∃ rule ∈ rules, P rule := by
  induction rules generalizing all with
  | nil =>
    cases compiled
    simp
  | cons rule rest ih =>
    rw [mapM_cons] at compiled
    cases first : f rule with
    | error e =>
      rw [first] at compiled
      cases compiled
    | ok globs =>
      cases others : rest.mapM f with
      | error e =>
        rw [first, others] at compiled
        cases compiled
      | ok later =>
        rw [first, others] at compiled
        cases compiled
        rw [flatten_cons, mem_append, each rule mem_cons_self globs first,
          ih others fun other mem => each other (mem_cons_of_mem _ mem),
          exists_mem_cons_iff]

theorem mem_compile (compiled : rule.compile = .ok globs) :
    (pattern, glob) ∈ globs ↔ Shallow [rule] pattern ∧ Glob.new pattern = .ok glob := by
  cases rule with
  | pathPattern text =>
    rw [mem_compilePattern compiled]
    simp [Shallow, eq_comm]
  | composite conditions =>
    change (conditions.mapM compileCondition).map flatten = .ok globs at compiled
    cases all : conditions.mapM compileCondition with
    | error e =>
      rw [all] at compiled
      cases compiled
    | ok lists =>
      rw [all] at compiled
      cases compiled
      rw [mem_flatten_of_mapM all fun cond _ globs made => mem_compileCondition made]
      simp only [Shallow, mem_singleton, reduceCtorEq, false_or,
        ExcludeRuleType.composite.injEq, exists_eq_left]
      constructor
      · rintro ⟨cond, mem, rfl, made⟩
        exact ⟨mem, made⟩
      · rintro ⟨mem, made⟩
        exact ⟨_, mem, rfl, made⟩
  | fileSize | language =>
    cases compiled
    simp [Shallow]

end Compilation

end ExcludeRuleType

namespace ExcludeRules

open ExcludeRuleType

variable {config : ExcludeRulesConfig} {rules : ExcludeRules} {entry : FileEntry}

theorem mem_compiledGlobs (built : ExcludeRules.new config = .ok rules) {pattern : String}
    {glob : Glob} : (pattern, glob) ∈ rules.compiledGlobs ↔
      Shallow config.rules pattern ∧ Glob.new pattern = .ok glob := by
  unfold ExcludeRules.new at built
  cases all : config.rules.mapM compile with
  | error e =>
    rw [all] at built
    cases built
  | ok globs =>
    rw [all] at built
    cases built
    show (pattern, glob) ∈ globs.flatten ↔ _
    rw [mem_flatten_of_mapM all fun rule _ globs made => mem_compile made]
    simp only [Shallow, mem_singleton]
    constructor
    · rintro ⟨rule, mem, rfl | ⟨conditions, rfl, inside⟩, made⟩
      · exact ⟨Or.inl mem, made⟩
      · exact ⟨Or.inr ⟨conditions, mem, inside⟩, made⟩
    · rintro ⟨mem | ⟨conditions, mem, inside⟩, made⟩
      · exact ⟨_, mem, Or.inl rfl, made⟩
      · exact ⟨_, mem, Or.inr ⟨conditions, rfl, inside⟩, made⟩

theorem fields_of_new (built : ExcludeRules.new config = .ok rules) :
    rules.enabled = config.enabled ∧ rules.rules = config.rules := by
  unfold ExcludeRules.new at built
  cases all : config.rules.mapM compile with
  | error e =>
    rw [all] at built
    cases built
  | ok globs =>
    rw [all] at built
    cases built
    exact ⟨rfl, rfl⟩

mutual

theorem matchesRule_iff (built : ExcludeRules.new config = .ok rules) (rule : ExcludeRuleType) :
    matchesRule rules entry rule = true ↔ MatchesFile entry rule ∧
        ∀ pattern, HasPattern pattern rule → Shallow config.rules pattern := by
  cases rule with
  | pathPattern text =>
    rw [matchesRule, any_eq_true]
    constructor
    · rintro ⟨⟨pattern, glob⟩, mem, accepts⟩
      rw [Bool.and_eq_true, decide_eq_true_eq] at accepts
      obtain ⟨rfl, accepts⟩ := accepts
      obtain ⟨shallow, made⟩ := (mem_compiledGlobs built).1 mem
      refine ⟨.pathPattern made accepts, fun other has => ?_⟩
      cases has
      exact shallow
    · rintro ⟨meaning, shallow⟩
      cases meaning with
      | @pathPattern _ glob made accepts =>
        refine ⟨(text, glob), (mem_compiledGlobs built).2 ⟨shallow text .here, made⟩, ?_⟩
        rw [Bool.and_eq_true, decide_eq_true_eq]
        exact ⟨rfl, accepts⟩
  | fileSize maxBytes =>
    rw [matchesRule, decide_eq_true_eq]
    constructor
    · exact fun larger => ⟨.fileSize larger, fun pattern has => by cases has⟩
    · rintro ⟨meaning, -⟩
      cases meaning with
      | fileSize larger => exact larger
  | language languages =>
    rw [matchesRule, Option.any_eq_true]
    constructor
    · rintro ⟨name, detected, listed⟩
      exact ⟨.language detected (contains_iff_mem.1 listed), fun pattern has => by cases has⟩
    · rintro ⟨meaning, -⟩
      cases meaning with
      | language detected listed => exact ⟨_, detected, contains_iff_mem.2 listed⟩
  | composite conditions =>
    rw [matchesRule, matchesAll_iff built conditions]
    constructor
    · intro all
      refine ⟨.composite fun cond mem => (all cond mem).1, fun pattern has => ?_⟩
      cases has with
      | inside mem deeper => exact (all _ mem).2 pattern deeper
    · rintro ⟨meaning, shallow⟩ cond mem
      cases meaning with
      | composite all =>
        exact ⟨all cond mem, fun pattern has => shallow pattern (.inside mem has)⟩

theorem matchesAll_iff (built : ExcludeRules.new config = .ok rules)
    (conditions : List ExcludeRuleType) :
    matchesAll rules entry conditions = true ↔ ∀ cond ∈ conditions, MatchesFile entry cond ∧
        ∀ pattern, HasPattern pattern cond → Shallow config.rules pattern := by
  cases conditions with
  | nil => simp [matchesAll]
  | cons cond rest =>
    rw [matchesAll, Bool.and_eq_true, matchesRule_iff built cond, matchesAll_iff built rest,
      forall_mem_cons]

end

theorem shouldExclude_iff (built : ExcludeRules.new config = .ok rules) :
    rules.shouldExclude entry = true ↔ config.enabled = true ∧ ∃ rule ∈ config.rules,
      MatchesFile entry rule ∧
        ∀ pattern, HasPattern pattern rule → Shallow config.rules pattern := by
  obtain ⟨sameFlag, sameRules⟩ := fields_of_new built
  unfold shouldExclude
  rw [sameFlag, sameRules, Bool.and_eq_true, any_eq_true]
  exact and_congr_right fun _ =>
    exists_congr fun rule => and_congr_right fun _ => matchesRule_iff built rule

/-- A file is excluded as the rules mean it exactly where, if a rule matches it at all, the rules
    are enabled and one that matches has no pattern out of reach. -/
theorem excludesByMeaning_iff (built : ExcludeRules.new config = .ok rules) (entry : FileEntry) :
    (rules.shouldExclude entry = true ↔ ∃ rule ∈ config.rules, MatchesFile entry rule) ↔
      ((∃ rule ∈ config.rules, MatchesFile entry rule) → config.enabled = true ∧
        ∃ rule ∈ config.rules, MatchesFile entry rule ∧
          ∀ pattern, HasPattern pattern rule → Shallow config.rules pattern) := by
  rw [shouldExclude_iff built]
  constructor
  · exact Iff.mpr
  · intro reached
    refine ⟨?_, reached⟩
    rintro ⟨-, rule, mem, meaning, -⟩
    exact ⟨rule, mem, meaning⟩

section Sample

private def generatedOnly : List ExcludeRuleType := [.composite [.pathPattern "*.pb.rs"]]

private def generatedFile : FileEntry :=
  ⟨"/project/test.pb.rs", "test.pb.rs", 1000, 0, none, some "Rust"⟩

private def generatedGlob : Glob := ⟨[.wildcard, .literal ".pb.rs".toList], false, false⟩

private theorem generatedGlob_compiled : Glob.new "*.pb.rs" = .ok generatedGlob := by decide +kernel

private theorem generatedFile_matches :
    MatchesFile generatedFile (.composite [.pathPattern "*.pb.rs"]) := by
  refine .composite fun cond mem => ?_
  obtain rfl := mem_singleton.1 mem
  exact .pathPattern generatedGlob_compiled (by decide +kernel)

private theorem generatedOnly_compiled : ExcludeRules.new ⟨true, generatedOnly⟩ =
    .ok ⟨true, generatedOnly, [("*.pb.rs", generatedGlob)]⟩ := by
  have compiled : compilePattern "*.pb.rs" = .ok [("*.pb.rs", generatedGlob)] := by
    rw [compilePattern, generatedGlob_compiled]
  unfold ExcludeRules.new generatedOnly
  simp only [mapM_cons, mapM_nil, compile, compileCondition, compiled]
  rfl

theorem excludesByMeaning_generated :
    ∃ rules, ExcludeRules.new ⟨true, generatedOnly⟩ = .ok rules ∧
      (rules.shouldExclude generatedFile = true ↔
        ∃ rule ∈ generatedOnly, MatchesFile generatedFile rule) := by
  refine ⟨_, generatedOnly_compiled,
    (excludesByMeaning_iff generatedOnly_compiled generatedFile).2 fun _ => ⟨rfl, _,
      mem_singleton_self _, generatedFile_matches, fun pattern has => ?_⟩⟩
  cases has with
  | inside mem deeper =>
    obtain rfl := mem_singleton.1 mem
    cases deeper
    exact Or.inr ⟨_, mem_singleton_self _, mem_singleton_self _⟩

/-- One composite rule around the same rule, and the pattern is never compiled. -/
theorem nestedPattern_not_excluded :
    ∃ rules, ExcludeRules.new ⟨true, [.composite generatedOnly]⟩ = .ok rules ∧
      ¬ (rules.shouldExclude generatedFile = true ↔
        ∃ rule ∈ [ExcludeRuleType.composite generatedOnly], MatchesFile generatedFile rule) := by
  refine ⟨_, rfl, fun same => ?_⟩
  have matched : MatchesFile generatedFile (.composite generatedOnly) := by
    refine .composite fun cond mem => ?_
    obtain rfl := mem_singleton.1 mem
    exact generatedFile_matches
  have excluded := same.2 ⟨_, mem_singleton_self _, matched⟩
  cases excluded

end Sample

end ExcludeRules

end ContextEngine

/- digest: The walk over a directory tree that lists its files. -/

import ContextEngine.Types.SymbolKey

set_option autoImplicit false

namespace ContextEngine

/-- A reading of the wall clock, in nanoseconds since the epoch. -/
abbrev SystemTime := Int

structure FileEntry where
  path : PathBuf
  relativePath : PathBuf
  size : Nat
  modified : SystemTime
  contentHash : Option String
  /-- The name of the language, for text files. -/
  languageInfo : Option String
  deriving DecidableEq

inductive FileType where
  | dir | file | symlink | other
  deriving DecidableEq

structure Metadata where
  size : Nat
  modified : Option SystemTime

/-- What the file processor computes from the bytes of a file. -/
structure FileContents where
  contentHash : String
  languageInfo : Option String

/-- An entry of a directory: nothing if it cannot be accessed or its path is not UTF-8, and no
    type if that cannot be read. -/
abbrev DirEntry := Option (PathBuf × Option FileType)

/-- The answers of the file system, and the directories that can be read. -/
structure Disk where
  canonicalize : PathBuf → Option PathBuf
  isDir : PathBuf → Bool
  isFile : PathBuf → Bool
  readDir : PathBuf → Option (List DirEntry)
  metadata : PathBuf → Option Metadata
  contents : PathBuf → Option FileContents
  directories : List PathBuf
  readable : ∀ dir, readDir dir ≠ none → dir ∈ directories

/-- The verdicts of the include, exclude and ignore patterns on root-relative paths. -/
structure PatternMatcher where
  shouldIncludeFile : PathBuf → Bool
  shouldExcludeDir : PathBuf → Bool

structure ScanOptions where
  rootPath : PathBuf
  /-- The patterns, compiled for a root. -/
  patterns : PathBuf → PatternMatcher
  followSymlinks : Bool
  maxFileSize : Option Nat

structure DirectoryWalker where
  disk : Disk
  opts : ScanOptions
  rootPath : PathBuf
  previousEntries : Option (HashMap PathBuf FileEntry)

def stripPrefix (root path : PathBuf) : Option PathBuf :=
  if path = root then some ""
  else if (root.toList ++ ['/']).isPrefixOf path.toList then
    some (String.ofList (path.toList.drop (root.toList.length + 1)))
  else none

/-- A path outside of the root keeps its raw form. -/
def relativize (root path : PathBuf) : PathBuf :=
  normalizeProjectPath ((stripPrefix root path).getD path)

namespace DirectoryWalker

variable (walker : DirectoryWalker)

def patternMatcher : PatternMatcher := walker.opts.patterns walker.rootPath

variable (path : PathBuf)

def patternPath : PathBuf := (stripPrefix walker.rootPath path).getD path

def reusable (metadata : Metadata) : Option FileEntry :=
  (walker.previousEntries.bind fun previous =>
    previous.lookup (relativize walker.rootPath path)).filter fun prev =>
      decide (prev.size = metadata.size ∧ some prev.modified = metadata.modified) &&
        prev.contentHash.isSome

def processFileWithMetadata (metadata : Metadata) : Option FileEntry :=
  match walker.reusable path metadata with
  | some prev => some prev
  | none =>
    metadata.modified.bind fun modified =>
      if walker.opts.maxFileSize.any (· < metadata.size) then
        some ⟨path, relativize walker.rootPath path, metadata.size, modified, none, none⟩
      else
        (walker.disk.contents path).map fun contents =>
          ⟨path, relativize walker.rootPath path, metadata.size, modified,
            some contents.contentHash, contents.languageInfo⟩

def processFile : Option FileEntry :=
  (walker.disk.metadata path).bind (walker.processFileWithMetadata path)

/-- A regular file, met in a directory. -/
def processFileEntry : Option FileEntry :=
  (walker.disk.metadata path).bind fun metadata =>
    if walker.patternMatcher.shouldIncludeFile (walker.patternPath path) then
      walker.processFileWithMetadata path metadata
    else none

end DirectoryWalker

/-- The directories visited and the entries emitted so far. -/
structure WalkState where
  visited : HashSet PathBuf
  entries : List FileEntry

namespace WalkState

def start : WalkState := ⟨∅, []⟩

variable (state : WalkState)

def emit (entry : Option FileEntry) : WalkState :=
  { state with entries := state.entries ++ entry.toList }

def markVisited (dir : PathBuf) : WalkState :=
  { state with visited := state.visited.insert dir }

@[simp] theorem visited_emit (entry : Option FileEntry) :
    (state.emit entry).visited = state.visited := rfl

@[simp] theorem visited_markVisited (dir : PathBuf) :
    (state.markVisited dir).visited = state.visited.insert dir := rfl

end WalkState

namespace DirectoryWalker

variable (walker : DirectoryWalker)

/-- A link is followed to its canonical target, whose pattern is matched on the absolute path. -/
def handleSymlink (walkDir : PathBuf → WalkState → WalkState) (path : PathBuf)
    (state : WalkState) : WalkState :=
  if walker.opts.followSymlinks then
    match walker.disk.canonicalize path with
    | none => state
    | some target =>
      if walker.disk.isDir target then
        if target ∈ state.visited then state else walkDir target state
      else if walker.disk.isFile target then
        if walker.patternMatcher.shouldIncludeFile target then
          state.emit (walker.processFile target)
        else state
      else state
  else state

def handleEntry (walkDir : PathBuf → WalkState → WalkState) (state : WalkState)
    (entry : DirEntry) : WalkState :=
  match entry with
  | some (path, some .dir) =>
    if walker.patternMatcher.shouldExcludeDir (walker.patternPath path) then state
    else walkDir path state
  | some (path, some .file) => state.emit (walker.processFileEntry path)
  | some (path, some .symlink) => walker.handleSymlink walkDir path state
  | _ => state

/-- The walk below a directory; the fuel bounds how deep it goes. -/
def walkDir : Nat → PathBuf → WalkState → WalkState
  | 0, _, state => state
  | fuel + 1, dir, state =>
    if dir ∈ state.visited then state
    else
      ((walker.disk.readDir dir).getD []).foldl (walker.handleEntry (walkDir fuel))
        (state.markVisited dir)

/-- One more than the directories that can be read is fuel enough: every directory on the way
    down is another one. -/
def fuel : Nat := walker.disk.directories.length + 1

def walk : WalkState := walker.walkDir walker.fuel walker.rootPath WalkState.start

end DirectoryWalker

def scan (disk : Disk) (opts : ScanOptions) (previous : Option (HashMap PathBuf FileEntry)) :
    Except String (List FileEntry) :=
  match disk.canonicalize opts.rootPath with
  | none => .error ("failed to canonicalize root path: " ++ opts.rootPath)
  | some root =>
    if disk.isDir root then
      .ok (DirectoryWalker.walk ⟨disk, opts, root, previous⟩).entries
    else .error ("path is not a directory: " ++ root)

namespace DirectoryWalker

variable {walker : DirectoryWalker}

/-- The visited directories stay visited. -/
private def Grows (walkDir : PathBuf → WalkState → WalkState) : Prop :=
  ∀ dir state, state.visited.toList ⊆ (walkDir dir state).visited.toList

private theorem visited_handleEntry {walkDir : PathBuf → WalkState → WalkState}
    (grows : Grows walkDir) (state : WalkState) (entry : DirEntry) :
    state.visited.toList ⊆ (walker.handleEntry walkDir state entry).visited.toList := by
  unfold handleEntry
  split
  · split_ifs
    · exact List.Subset.refl _
    · exact grows _ state
  · exact List.Subset.refl _
  · unfold handleSymlink
    split_ifs
    · split
      · exact List.Subset.refl _
      · split_ifs
        · exact List.Subset.refl _
        · exact grows _ state
        · exact List.Subset.refl _
        · exact List.Subset.refl _
        · exact List.Subset.refl _
    · exact List.Subset.refl _
  · exact List.Subset.refl _

private theorem visited_foldl {walkDir : PathBuf → WalkState → WalkState} (grows : Grows walkDir)
    (listing : List DirEntry) (state : WalkState) :
    state.visited.toList ⊆ (listing.foldl (walker.handleEntry walkDir) state).visited.toList := by
  induction listing generalizing state with
  | nil => exact List.Subset.refl _
  | cons entry listing ih =>
    exact List.Subset.trans (visited_handleEntry grows state entry) (ih _)

private theorem visited_walkDir (fuel : Nat) : Grows (walker.walkDir fuel) := by
  induction fuel with
  | zero => exact fun _ _ => List.Subset.refl _
  | succ fuel ih =>
    intro dir state
    rw [walkDir]
    split_ifs
    · exact List.Subset.refl _
    · apply List.Subset.trans _ (visited_foldl ih _ _)
      intro path mem
      exact HashSet.mem_insert.2 (Or.inr mem)

private def unvisited (walker : DirectoryWalker) (state : WalkState) : List PathBuf :=
  walker.disk.directories.filter (· ∉ state.visited)

private theorem length_unvisited_le {state later : WalkState}
    (grows : state.visited.toList ⊆ later.visited.toList) :
    (unvisited walker later).length ≤ (unvisited walker state).length := by
  apply List.Sublist.length_le
  apply List.monotone_filter_right
  intro path outside
  rw [decide_eq_true_eq] at outside ⊢
  exact fun mem => outside (grows mem)

variable {state : WalkState}

private theorem length_unvisited_lt {dir : PathBuf}
    (readable : dir ∈ walker.disk.directories) (fresh : dir ∉ state.visited) :
    (unvisited walker (state.markVisited dir)).length < (unvisited walker state).length := by
  have without : unvisited walker (state.markVisited dir) =
      (unvisited walker state).filter (· ≠ dir) := by
    rw [unvisited, unvisited, List.filter_filter]
    congr 1
    funext path
    rw [WalkState.visited_markVisited, Bool.eq_iff_iff, Bool.and_eq_true, decide_eq_true_eq,
      decide_eq_true_eq, decide_eq_true_eq, HashSet.mem_insert, not_or]
  rw [without, List.length_filter_lt_length_iff_exists]
  refine ⟨dir, List.mem_filter.2 ⟨readable, decide_eq_true fresh⟩, ?_⟩
  rw [decide_eq_true_eq]
  exact fun distinct => distinct rfl

private theorem handleEntry_congr {f g : PathBuf → WalkState → WalkState}
    (same : ∀ dir, f dir state = g dir state) (entry : DirEntry) :
    walker.handleEntry f state entry = walker.handleEntry g state entry := by
  unfold handleEntry handleSymlink
  simp only [same]

private theorem walkDir_stable {n m : Nat} {dir : PathBuf}
    (enough : (unvisited walker state).length < n) (more : n ≤ m) :
    walker.walkDir m dir state = walker.walkDir n dir state := by
  induction n generalizing m dir state with
  | zero => exact absurd enough (Nat.not_lt_zero _)
  | succ n ih =>
    obtain ⟨m, rfl⟩ : ∃ k, m = k + 1 := ⟨m - 1, by omega⟩
    rw [walkDir, walkDir]
    split_ifs with visited
    · rfl
    · cases listing : walker.disk.readDir dir with
      | none => rfl
      | some entries =>
        have readable := walker.disk.readable dir (by rw [listing]; exact Option.some_ne_none _)
        have fewer := length_unvisited_lt readable visited
        have below : (unvisited walker (state.markVisited dir)).length < n := by omega
        rw [Option.getD_some]
        clear listing
        generalize state.markVisited dir = inner at below
        induction entries generalizing inner with
        | nil => rfl
        | cons entry entries ih_entries =>
          have agree : ∀ sub, walker.walkDir m sub inner = walker.walkDir n sub inner :=
            fun sub => ih below (Nat.le_of_succ_le_succ more)
          rw [List.foldl_cons, List.foldl_cons, handleEntry_congr agree]
          apply ih_entries
          exact lt_of_le_of_lt
            (length_unvisited_le (visited_handleEntry (visited_walkDir n) inner entry)) below

theorem walk_complete {more : Nat} (le : walker.fuel ≤ more) :
    walker.walkDir more walker.rootPath WalkState.start = walker.walk := by
  apply walkDir_stable _ le
  exact Nat.lt_succ_of_le (List.length_filter_le _ _)

end DirectoryWalker

end ContextEngine

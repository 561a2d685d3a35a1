/- digest: The content hashes that are visible from the published generation. -/

import ContextEngine.Types.SymbolKey

set_option autoImplicit false

namespace ContextEngine

open Option List

def generationViewDepth : Nat := 2

structure ProjectIndexManifest where
  dataEpoch : Int
  parentDataEpoch : Option Int

/-- The rows of one project that the cache reads. -/
structure FileHashTables where
  activeManifest : Option ProjectIndexManifest
  parentDataEpochOf : Int → Option Int
  overrides : Int → List PathBuf
  /-- The `active_epoch` of a project that was never published. -/
  activeEpochMeta : Option Int
  /-- The files of an epoch, unique by path, with their content hash. -/
  files : Int → HashMap PathBuf (Option String)

structure GenerationView where
  ownEpoch : Int
  /-- Nearest first. -/
  ancestors : List Int
  excludedFiles : List PathBuf

/-- The chain of parents while they are proper epochs. -/
def ancestorsFrom (parentOf : Int → Option Int) : Nat → Option Int → List Int
  | 0, _ => []
  | _ + 1, none => []
  | depth + 1, some epoch =>
    if 0 < epoch then epoch :: ancestorsFrom parentOf depth (parentOf epoch) else []

def GenerationView.resolve (tables : FileHashTables) : GenerationView :=
  match tables.activeManifest with
  | none => ⟨tables.activeEpochMeta.getD 0, [], []⟩
  | some manifest =>
    { ownEpoch := manifest.dataEpoch
      ancestors :=
        ancestorsFrom tables.parentDataEpochOf generationViewDepth manifest.parentDataEpoch
      excludedFiles := tables.overrides manifest.dataEpoch }

namespace FileHashTables

variable (tables : FileHashTables)

def nullHashError : String :=
  "Failed to execute query: Invalid column type Null at index: 0, name: content_hash"

def contentHashAtEpoch (path : PathBuf) (epoch : Int) : Except String (Option String) :=
  match (tables.files epoch).lookup path with
  | none => .ok none
  | some (some hash) => .ok (some hash)
  | some none => .error nullHashError

/-- The nearest of the epochs with a row. -/
def inheritedHash (path : PathBuf) : List Int → Except String (Option String)
  | [] => .ok none
  | epoch :: epochs => do
      match ← tables.contentHashAtEpoch path epoch with
      | some hash => .ok (some hash)
      | none => inheritedHash path epochs

/-- Visible content hash of a path: own generation first, then the ancestors unless an override
    hides them. -/
def storedHash (path : PathBuf) : Except String (Option String) := do
  let view := GenerationView.resolve tables
  match ← tables.contentHashAtEpoch path view.ownEpoch with
  | some hash => .ok (some hash)
  | none =>
    if path ∈ view.excludedFiles then .ok none else tables.inheritedHash path view.ancestors

def hashedRows (epoch : Int) : List (PathBuf × String) :=
  (tables.files epoch).toList.filterMap fun row => row.2.map fun hash => (row.1, hash)

def loadHashes (stored : HashMap PathBuf String) (epoch : Int) : HashMap PathBuf String :=
  HashMap.extend stored (tables.hashedRows epoch)

def loadPaths (visible : HashSet PathBuf) (epoch : Int) : HashSet PathBuf :=
  (tables.files epoch).keys.foldl HashSet.insert visible

/-- Every visible path with its content hash: the ancestors, farthest first, without the
    overridden files, and the own generation on top. -/
def storedHashes : HashMap PathBuf String :=
  let view := GenerationView.resolve tables
  let inherited := view.ancestors.reverse.foldl tables.loadHashes ∅
  tables.loadHashes (HashMap.eraseAll inherited view.excludedFiles) view.ownEpoch

def visiblePaths : HashSet PathBuf :=
  let view := GenerationView.resolve tables
  let inherited := view.ancestors.reverse.foldl tables.loadPaths ∅
  tables.loadPaths (view.excludedFiles.foldl HashSet.erase inherited) view.ownEpoch

variable {tables}

def rowHash (tables : FileHashTables) (epoch : Int) (path : PathBuf) : Option String :=
  ((tables.files epoch).lookup path).join

variable {path : PathBuf} {hash : String}

private theorem mem_hashedRows {epoch : Int} :
    (path, hash) ∈ tables.hashedRows epoch ↔ tables.rowHash epoch path = some hash := by
  rw [hashedRows, mem_filterMap, rowHash, join_eq_some_iff]
  constructor
  · intro ⟨row, mem, same⟩
    obtain ⟨found, hashed, pair⟩ := map_eq_some_iff.1 same
    obtain ⟨rfl, rfl⟩ := Prod.mk.inj pair
    rw [← hashed]
    exact HashMap.mem_toList.1 mem
  · intro found
    exact ⟨(path, some hash), HashMap.mem_toList.2 found, rfl⟩

private theorem lookup_loadHashes (stored : HashMap PathBuf String) (epoch : Int) (path : PathBuf) :
    (tables.loadHashes stored epoch).lookup path =
      (tables.rowHash epoch path).or (stored.lookup path) := by
  rw [loadHashes]
  cases hashed : tables.rowHash epoch path with
  | some hash =>
    rw [some_or]
    apply HashMap.lookup_extend_of_mem (mem_hashedRows.2 hashed)
    intro other mem
    exact some.inj ((mem_hashedRows.1 mem).symm.trans hashed)
  | none =>
    rw [none_or]
    apply HashMap.lookup_extend_of_notMem
    intro mem
    obtain ⟨⟨key, hash⟩, row, rfl⟩ := mem_map.1 mem
    exact some_ne_none hash ((mem_hashedRows.1 row).symm.trans hashed)

private theorem lookup_inherited {K : Type} [DecidableEq K]
    {load : HashMap K String → Int → HashMap K String} {rowOf : Int → Option String} {key : K}
    (loaded : ∀ stored epoch, (load stored epoch).lookup key =
      (rowOf epoch).or (stored.lookup key)) (ancestors : List Int) :
    (ancestors.reverse.foldl load ∅).lookup key = ancestors.findSome? rowOf := by
  induction ancestors with
  | nil => rfl
  | cons epoch ancestors ih =>
    rw [reverse_cons, foldl_append, foldl_cons, foldl_nil, loaded, ih, findSome?_cons]
    cases rowOf epoch <;> rfl

theorem lookup_storedHashes (path : PathBuf) :
    tables.storedHashes.lookup path =
      (tables.rowHash (GenerationView.resolve tables).ownEpoch path).or
        (if path ∈ (GenerationView.resolve tables).excludedFiles then none
        else (GenerationView.resolve tables).ancestors.findSome? fun epoch =>
          tables.rowHash epoch path) := by
  rw [storedHashes]
  simp only [lookup_loadHashes, HashMap.lookup_eraseAll,
    lookup_inherited fun stored epoch => lookup_loadHashes stored epoch path]

private theorem mem_loadPaths (visible : HashSet PathBuf) (epoch : Int) (path : PathBuf) :
    path ∈ tables.loadPaths visible epoch ↔ path ∈ (tables.files epoch).keys ∨ path ∈ visible :=
  HashSet.mem_foldl_insert

private theorem mem_inherited {A : Type} [DecidableEq A] {load : HashSet A → Int → HashSet A}
    {rowsOf : Int → List A} {a : A}
    (loaded : ∀ visible epoch, a ∈ load visible epoch ↔ a ∈ rowsOf epoch ∨ a ∈ visible)
    (ancestors : List Int) :
    a ∈ ancestors.reverse.foldl load ∅ ↔ ∃ epoch ∈ ancestors, a ∈ rowsOf epoch := by
  induction ancestors with
  | nil => simp only [reverse_nil, foldl_nil, HashSet.notMem_empty, not_mem_nil,
      false_and, exists_false]
  | cons epoch ancestors ih =>
    rw [reverse_cons, foldl_append, foldl_cons, foldl_nil, loaded, ih, exists_mem_cons_iff]

theorem mem_visiblePaths :
    path ∈ tables.visiblePaths ↔
      path ∈ (tables.files (GenerationView.resolve tables).ownEpoch).keys ∨
        path ∉ (GenerationView.resolve tables).excludedFiles ∧
          ∃ epoch ∈ (GenerationView.resolve tables).ancestors,
            path ∈ (tables.files epoch).keys := by
  rw [visiblePaths]
  simp only [mem_loadPaths, HashSet.mem_foldl_erase,
    mem_inherited fun visible epoch => mem_loadPaths visible epoch path]

private theorem mem_keys_of_rowHash {epoch : Int}
    (hashed : tables.rowHash epoch path = some hash) : path ∈ (tables.files epoch).keys := by
  rw [rowHash, join_eq_some_iff] at hashed
  exact HashMap.mem_keys_iff.2 ⟨some hash, hashed⟩

theorem mem_visiblePaths_of_lookup
    (found : tables.storedHashes.lookup path = some hash) : path ∈ tables.visiblePaths := by
  rw [lookup_storedHashes, or_eq_some_iff] at found
  rw [mem_visiblePaths]
  rcases found with own | ⟨-, inherited⟩
  · exact Or.inl (mem_keys_of_rowHash own)
  · right
    split_ifs at inherited with hidden
    obtain ⟨epoch, mem, hashed⟩ := exists_of_findSome?_eq_some inherited
    exact ⟨hidden, epoch, mem, mem_keys_of_rowHash hashed⟩

section

variable {other : FileHashTables}
  (view : GenerationView.resolve other = GenerationView.resolve tables)
  (own : other.files (GenerationView.resolve tables).ownEpoch =
    tables.files (GenerationView.resolve tables).ownEpoch)
  (inherited : ∀ epoch ∈ (GenerationView.resolve tables).ancestors,
    other.files epoch = tables.files epoch)

include view own inherited

theorem storedHashes_congr : other.storedHashes = tables.storedHashes := by
  have load : ∀ stored epoch, other.files epoch = tables.files epoch →
      other.loadHashes stored epoch = tables.loadHashes stored epoch := fun stored epoch same => by
    rw [loadHashes, loadHashes, hashedRows, hashedRows, same]
  rw [storedHashes, storedHashes, view]
  rw [load _ _ own, foldl_ext _ _ _ fun stored epoch mem =>
    load stored epoch (inherited epoch (mem_reverse.1 mem))]

theorem visiblePaths_congr : other.visiblePaths = tables.visiblePaths := by
  have load : ∀ visible epoch, other.files epoch = tables.files epoch →
      other.loadPaths visible epoch = tables.loadPaths visible epoch := fun visible epoch same => by
    rw [loadPaths, loadPaths, same]
  rw [visiblePaths, visiblePaths, view]
  rw [load _ _ own, foldl_ext _ _ _ fun visible epoch mem =>
    load visible epoch (inherited epoch (mem_reverse.1 mem))]

end

variable (tables) in
def nearestRow (path : PathBuf) : Option (Option String) :=
  let view := GenerationView.resolve tables
  ((tables.files view.ownEpoch).lookup path).or
    (if path ∈ view.excludedFiles then none
    else view.ancestors.findSome? fun epoch => (tables.files epoch).lookup path)

private theorem inheritedHash_eq (path : PathBuf) (epochs : List Int) :
    tables.inheritedHash path epochs =
      match epochs.findSome? fun epoch => (tables.files epoch).lookup path with
      | some none => .error nullHashError
      | row => .ok row.join := by
  induction epochs with
  | nil => rfl
  | cons epoch epochs ih =>
    rw [inheritedHash, contentHashAtEpoch, findSome?_cons]
    rcases (tables.files epoch).lookup path with _ | _ | hash
    · exact ih
    · rfl
    · rfl

theorem storedHash_eq (path : PathBuf) :
    tables.storedHash path =
      match tables.nearestRow path with
      | some none => .error nullHashError
      | row => .ok row.join := by
  rw [storedHash, nearestRow, contentHashAtEpoch]
  rcases (tables.files (GenerationView.resolve tables).ownEpoch).lookup path with _ | _ | hash
  · change (if path ∈ _ then _ else _) = _
    split_ifs with hidden
    · rfl
    · exact inheritedHash_eq path _
  · rfl
  · rfl

private theorem findSome?_join {α : Type} {rowOf : Int → Option (Option α)} {epochs : List Int}
    (hashed : epochs.findSome? rowOf ≠ some none) :
    epochs.findSome? (fun epoch => (rowOf epoch).join) = (epochs.findSome? rowOf).join := by
  induction epochs with
  | nil => rfl
  | cons epoch epochs ih =>
    rw [findSome?_cons] at hashed ⊢
    rw [findSome?_cons]
    rcases row : rowOf epoch with _ | _ | hash
    · rw [row] at hashed
      exact ih hashed
    · rw [row] at hashed
      exact absurd rfl hashed
    · rfl

private theorem join_nearestRow {path : PathBuf} (hashed : tables.nearestRow path ≠ some none) :
    (tables.nearestRow path).join =
      (tables.rowHash (GenerationView.resolve tables).ownEpoch path).or
        (if path ∈ (GenerationView.resolve tables).excludedFiles then none
        else (GenerationView.resolve tables).ancestors.findSome? fun epoch =>
          tables.rowHash epoch path) := by
  rw [nearestRow] at hashed ⊢
  rw [rowHash]
  rcases row : (tables.files (GenerationView.resolve tables).ownEpoch).lookup path with _ | _ | hash
  · rw [row] at hashed
    split_ifs at hashed ⊢
    · rfl
    · exact (findSome?_join hashed).symm
  · rw [row] at hashed
    exact absurd rfl hashed
  · rfl

theorem storedHash_of_ok {path : PathBuf} {read : Option String}
    (ok : tables.storedHash path = .ok read) : read = tables.storedHashes.lookup path := by
  rw [storedHash_eq] at ok
  have hashed : tables.nearestRow path ≠ some none := by
    intro row
    rw [row] at ok
    cases ok
  rw [lookup_storedHashes, ← join_nearestRow hashed]
  rcases row : tables.nearestRow path with _ | _ | hash
  · rw [row] at ok
    exact (Except.ok.inj ok).symm
  · exact absurd row hashed
  · rw [row] at ok
    exact (Except.ok.inj ok).symm

section Spellings

/-- What `Path` compares: the names, without empty ones and without `.` behind the front, and
    the root as a name of its own. -/
def pathComponents (path : PathBuf) : List (List Char) :=
  let parts := path.toList.splitOn '/'
  let names := parts.filter fun part => part ≠ [] ∧ part ≠ ['.']
  if path.toList.head? = some '/' then ['/'] :: names
  else if parts.head? = some ['.'] then ['.'] :: names
  else names

variable (tables)

/-- The rows as `load_hashes` inserts them: maps and sets of paths compare components. -/
def loadByComponents (stored : HashMap (List (List Char)) String) (epoch : Int) :
    HashMap (List (List Char)) String :=
  HashMap.extend stored ((tables.hashedRows epoch).map fun row => (pathComponents row.1, row.2))

def storedHashesByComponents : HashMap (List (List Char)) String :=
  let view := GenerationView.resolve tables
  let inherited := view.ancestors.reverse.foldl tables.loadByComponents ∅
  tables.loadByComponents
    (HashMap.eraseAll inherited (view.excludedFiles.map pathComponents)) view.ownEpoch

def loadPathsByComponents (visible : HashSet (List (List Char))) (epoch : Int) :
    HashSet (List (List Char)) :=
  ((tables.files epoch).keys.map pathComponents).foldl HashSet.insert visible

def visiblePathsByComponents : HashSet (List (List Char)) :=
  let view := GenerationView.resolve tables
  let inherited := view.ancestors.reverse.foldl tables.loadPathsByComponents ∅
  tables.loadPathsByComponents
    ((view.excludedFiles.map pathComponents).foldl HashSet.erase inherited) view.ownEpoch

structure LookupsAgree (path : PathBuf) : Prop where
  point : tables.storedHash path =
    .ok (tables.storedHashesByComponents.lookup (pathComponents path))
  visible : ∀ hash, tables.storedHashesByComponents.lookup (pathComponents path) = some hash →
    pathComponents path ∈ tables.visiblePathsByComponents

def spelledHash (epoch : Int) (components : List (List Char)) : Option String :=
  ((tables.hashedRows epoch).reverse.find? fun row =>
    pathComponents row.1 = components).map Prod.snd

def nearestSpelling (path : PathBuf) : Option String :=
  let view := GenerationView.resolve tables
  (tables.spelledHash view.ownEpoch (pathComponents path)).or
    (if pathComponents path ∈ view.excludedFiles.map pathComponents then none
    else view.ancestors.findSome? fun epoch => tables.spelledHash epoch (pathComponents path))

/-- The spelling has no row without a hash in front, and no other spelling decides instead. -/
structure DecidedBySpelling (path : PathBuf) : Prop where
  hashed : tables.nearestRow path ≠ some none
  alone : tables.nearestSpelling path = (tables.nearestRow path).join

/-- No row and no override in view spells the path in another way. -/
def SpelledOnce (path : PathBuf) : Prop :=
  let view := GenerationView.resolve tables
  (∀ epoch ∈ view.ownEpoch :: view.ancestors, ∀ other ∈ (tables.files epoch).keys,
    pathComponents other = pathComponents path → other = path) ∧
  ∀ other ∈ view.excludedFiles, pathComponents other = pathComponents path → other = path

variable {tables}

private theorem lookup_loadByComponents (stored : HashMap (List (List Char)) String) (epoch : Int)
    (components : List (List Char)) :
    (tables.loadByComponents stored epoch).lookup components =
      (tables.spelledHash epoch components).or (stored.lookup components) := by
  rw [loadByComponents, spelledHash, HashMap.extend]
  induction tables.hashedRows epoch using reverseRecOn with
  | nil => rfl
  | append_singleton rows row ih =>
    rw [map_append, foldl_append, reverse_append, reverse_singleton,
      singleton_append, find?_cons, map_singleton, foldl_cons, foldl_nil,
      HashMap.lookup_insert_eq, ih]
    by_cases same : pathComponents row.1 = components
    · rw [if_pos same.symm, decide_eq_true same]
      rfl
    · rw [if_neg fun turned => same turned.symm, decide_eq_false same]

theorem lookup_storedHashesByComponents (path : PathBuf) :
    tables.storedHashesByComponents.lookup (pathComponents path) = tables.nearestSpelling path := by
  rw [storedHashesByComponents, nearestSpelling]
  simp only [lookup_loadByComponents, HashMap.lookup_eraseAll,
    lookup_inherited fun stored epoch => lookup_loadByComponents stored epoch (pathComponents path)]

private theorem mem_loadPathsByComponents (visible : HashSet (List (List Char))) (epoch : Int)
    (components : List (List Char)) :
    components ∈ tables.loadPathsByComponents visible epoch ↔
      components ∈ (tables.files epoch).keys.map pathComponents ∨ components ∈ visible :=
  HashSet.mem_foldl_insert

private theorem spelledHash_eq_some {epoch : Int} {components : List (List Char)} {hash : String}
    (hashed : tables.spelledHash epoch components = some hash) :
    ∃ path, tables.rowHash epoch path = some hash ∧ pathComponents path = components := by
  rw [spelledHash] at hashed
  obtain ⟨row, found, rfl⟩ := map_eq_some_iff.1 hashed
  have same := find?_some found
  have mem := mem_reverse.1 (mem_of_find?_eq_some found)
  exact ⟨row.1, mem_hashedRows.1 mem, of_decide_eq_true same⟩

variable {path : PathBuf}

theorem mem_visiblePathsByComponents_of_nearest {hash : String}
    (found : tables.nearestSpelling path = some hash) :
    pathComponents path ∈ tables.visiblePathsByComponents := by
  have row : ∀ epoch, tables.spelledHash epoch (pathComponents path) = some hash →
      pathComponents path ∈ (tables.files epoch).keys.map pathComponents := by
    intro epoch hashed
    obtain ⟨other, stored, same⟩ := spelledHash_eq_some hashed
    exact mem_map.2 ⟨other, mem_keys_of_rowHash stored, same⟩
  rw [visiblePathsByComponents]
  simp only [mem_loadPathsByComponents, HashSet.mem_foldl_erase, mem_inherited fun visible epoch =>
      mem_loadPathsByComponents visible epoch (pathComponents path)]
  rcases or_eq_some_iff.1 found with own | ⟨-, inherited⟩
  · exact Or.inl (row _ own)
  · right
    split_ifs at inherited with hidden
    obtain ⟨epoch, mem, hashed⟩ := exists_of_findSome?_eq_some inherited
    exact ⟨hidden, epoch, mem, row epoch hashed⟩

/-- Point and bulk lookup of a path agree exactly if the nearest row of its spelling has a hash
    and is the row that decides among all its spellings. -/
theorem lookupsAgree_iff (tables : FileHashTables) (path : PathBuf) :
    tables.LookupsAgree path ↔ tables.DecidedBySpelling path := by
  constructor
  · intro agree
    have point := agree.point
    rw [storedHash_eq, lookup_storedHashesByComponents] at point
    rcases row : tables.nearestRow path with _ | _ | hash
    · rw [row] at point
      exact ⟨by simp [row], by rw [row]; exact (Except.ok.inj point).symm⟩
    · rw [row] at point
      cases point
    · rw [row] at point
      exact ⟨by simp [row], by rw [row]; exact (Except.ok.inj point).symm⟩
  · intro decided
    refine ⟨?_, fun hash found => ?_⟩
    · rw [storedHash_eq, lookup_storedHashesByComponents, decided.alone]
      rcases row : tables.nearestRow path with _ | _ | hash
      · rfl
      · exact absurd row decided.hashed
      · rfl
    · rw [lookup_storedHashesByComponents] at found
      exact mem_visiblePathsByComponents_of_nearest found

private theorem spelledHash_of_once {epoch : Int}
    (once : ∀ other ∈ (tables.files epoch).keys,
      pathComponents other = pathComponents path → other = path) :
    tables.spelledHash epoch (pathComponents path) = tables.rowHash epoch path := by
  cases hashed : tables.spelledHash epoch (pathComponents path) with
  | some hash =>
    obtain ⟨other, stored, same⟩ := spelledHash_eq_some hashed
    rw [← once other (mem_keys_of_rowHash stored) same, stored]
  | none =>
    rw [spelledHash, map_eq_none_iff, find?_eq_none] at hashed
    cases stored : tables.rowHash epoch path with
    | none => rfl
    | some hash =>
      exact absurd (decide_eq_true rfl) (hashed _ (mem_reverse.2 (mem_hashedRows.2 stored)))

private theorem findSome?_congr {α : Type} {rowOf otherOf : Int → Option α} {epochs : List Int}
    (same : ∀ epoch ∈ epochs, rowOf epoch = otherOf epoch) :
    epochs.findSome? rowOf = epochs.findSome? otherOf := by
  rw [← head?_filterMap, ← head?_filterMap, filterMap_congr same]

/-- Where rows and overrides spell the path alike, only a row without a hash is in the way. -/
theorem decidedBySpelling_iff_of_spelledOnce (once : tables.SpelledOnce path) :
    tables.DecidedBySpelling path ↔ tables.nearestRow path ≠ some none := by
  refine ⟨DecidedBySpelling.hashed, fun hashed => ⟨hashed, ?_⟩⟩
  have hides : pathComponents path ∈
      (GenerationView.resolve tables).excludedFiles.map pathComponents ↔
        path ∈ (GenerationView.resolve tables).excludedFiles := by
    refine ⟨fun mem => ?_, mem_map_of_mem⟩
    obtain ⟨other, listed, same⟩ := mem_map.1 mem
    exact once.2 other listed same ▸ listed
  have own := spelledHash_of_once (once.1 _ mem_cons_self)
  have inherited : (GenerationView.resolve tables).ancestors.findSome?
      (fun epoch => tables.spelledHash epoch (pathComponents path)) =
      (GenerationView.resolve tables).ancestors.findSome? fun epoch => tables.rowHash epoch path :=
    findSome?_congr fun epoch mem =>
      spelledHash_of_once (once.1 epoch (mem_cons_of_mem _ mem))
  rw [nearestSpelling, own, inherited, join_nearestRow hashed]
  simp only [hides]

/-- A file whose row was written before its hash. -/
def unhashedTables : FileHashTables where
  activeManifest := some ⟨3, none⟩
  parentDataEpochOf _ := none
  overrides _ := []
  activeEpochMeta := none
  files epoch := if epoch = 3 then HashMap.extend ∅ [("lib.rs", none)] else ∅

theorem not_lookupsAgree_unhashedTables : ¬unhashedTables.LookupsAgree "lib.rs" := by
  intro agree
  have failed : unhashedTables.storedHash "lib.rs" =
      .error nullHashError := rfl
  have point := agree.point
  rw [failed] at point
  cases point

end Spellings

end FileHashTables

end ContextEngine

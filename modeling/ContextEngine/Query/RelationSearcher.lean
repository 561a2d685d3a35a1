/- digest: The path filters of a query, and callers and callees behind the filters of a relation
   query. -/

import ContextEngine.Layered.EdgeAnswers
import ContextEngine.Query.CacheKey
import ContextEngine.Query.CallChain
import ContextEngine.Types.SymbolIdentity
import ContextEngine.Vector.SearchFilter

set_option autoImplicit false

namespace ContextEngine

open List

open Requests (ExcludableContentType ExpansionPathFilter)

/-- What the filters read off a path: whether its language counts it as a test, and the category
of its file type. -/
class PathClassifier where
  isTestPath : String → Bool
  determineFromPath : String → FileCategory

/-- Patterns compiled into one matcher, none if one of them is malformed. -/
class GlobSets where
  buildGlobSet : List String → Option (String → Bool)

section ContentTypes

/-- `str::contains`. -/
def containsPart (text part : String) : Bool := part.toList <:+: text.toList

variable (path : String)

def isGeneratedPath : Bool :=
  (["target/", "build/", "dist/", "out/", "generated/", ".next/", "__pycache__/"].any
    (containsPart path)) ||
  ([".generated.", ".pb.", ".min.js", ".bundle.js", ".lock", ".rkyv"].any (containsPart path))

def isDependencyPath : Bool :=
  ["node_modules/", "vendor/", "third_party/", "third-party/", ".cargo/", ".venv/",
    "site-packages/"].any (containsPart path)

variable [PathClassifier]

def matchesPath (contentType : ExcludableContentType) (normalizedPath : String) : Bool :=
  match contentType with
  | .test => PathClassifier.isTestPath normalizedPath
  | .generated => isGeneratedPath normalizedPath
  | .dependency => isDependencyPath normalizedPath

def pathExcludedByTypes (types : List ExcludableContentType) : Bool :=
  types.any fun contentType => matchesPath contentType (normalizeProjectPath path)

end ContentTypes

section Filters

def trimSlashes (text : String) : String :=
  String.ofList ((text.toList.dropWhile (· = '/')).rdropWhile (· = '/'))

/-- The path is the directory, or begins with it and a slash. -/
def isOrBelow (directory path : String) : Bool :=
  path = directory || (directory.toList ++ ['/']).isPrefixOf path.toList

/-- Whether a result of the full-text search passes the prefix of the query. -/
def directoryPrefixAllows (filePath : String) (directory : Option String) : Bool :=
  match directory with
  | none => true
  | some directory =>
    let normalized := normalizeProjectPath filePath
    let trimmed := trimmedPrefix (trimSlashes directory)
    if trimmed.isEmpty then true else isOrBelow (String.ofList trimmed) normalized

def globKeeps [GlobSets] (includePatterns excludePatterns : List String) (path : String) : Bool :=
  let matcher (patterns : List String) : Option (Option (String → Bool)) :=
    if patterns.isEmpty then some none else (GlobSets.buildGlobSet patterns).map some
  match matcher includePatterns, matcher excludePatterns with
  | some included, some excluded => included.all (· path) && !excluded.any (· path)
  | _, _ => false

variable [PathClassifier]

/-- Whether a neighbour may be shown. -/
def ExpansionPathFilter.allows [GlobSets] (filter : ExpansionPathFilter) (filePath : String) :
    Bool :=
  let normalized := normalizeProjectPath filePath
  let category := PathClassifier.determineFromPath normalized
  (filter.directoryPrefix.all fun directory =>
    isOrBelow (normalizeProjectPath (trimSlashes directory)) normalized) &&
  !pathExcludedByTypes normalized filter.excludeContentTypes &&
  (filter.includeCategories.isEmpty || filter.includeCategories.contains category) &&
  !filter.excludeCategories.contains category &&
  ((filter.includePatterns.isEmpty && filter.excludePatterns.isEmpty) ||
    globKeeps filter.includePatterns filter.excludePatterns normalized)

structure RelationQueryOptions where
  directoryPrefix : Option String := none
  excludeContentTypes : List ExcludableContentType := []
  excludedFiles : List String := []
  relationDomains : List String := []
  includeExternal : Bool := true

/-- The filter of a relation query, with its paths normalized. -/
structure RelationFileFilter where
  directoryPrefix : Option String
  excludedTypes : List ExcludableContentType
  excludedFiles : List String
  relationDomains : List String
  includeExternal : Bool

namespace RelationFileFilter

def fromOptions (options : RelationQueryOptions) : RelationFileFilter where
  directoryPrefix :=
    options.directoryPrefix.map fun directory => normalizeProjectPath (trimSlashes directory)
  excludedTypes := options.excludeContentTypes
  excludedFiles := options.excludedFiles.map normalizeProjectPath
  relationDomains := options.relationDomains
  includeExternal := options.includeExternal

variable (filter : RelationFileFilter)

def isEmpty : Bool :=
  filter.directoryPrefix.isNone && filter.excludedTypes.isEmpty && filter.excludedFiles.isEmpty &&
    filter.relationDomains.isEmpty && filter.includeExternal

def matchesRelation (relation : ResolvedRelation) : Bool :=
  (filter.includeExternal || !relation.isExternal) &&
    (filter.relationDomains.isEmpty ||
      filter.relationDomains.contains relation.relationType.domain)

def matchesPath (path : Option String) : Bool :=
  match path with
  | none => filter.directoryPrefix.isNone
  | some path =>
    let normalized := normalizeProjectPath path
    (filter.directoryPrefix.all fun directory => isOrBelow directory normalized) &&
    (filter.excludedTypes.isEmpty || !pathExcludedByTypes normalized filter.excludedTypes) &&
    !filter.excludedFiles.contains normalized

end RelationFileFilter

end Filters

section Components

theorem normalComponents_ofList_cons_slash (l : List Char) :
    normalComponents (String.ofList ('/' :: l)) = normalComponents (String.ofList l) := by
  have spelled : pathComponents (String.ofList ('/' :: l)) =
      [] :: pathComponents (String.ofList l) := by
    simp [pathComponents, slashed, splitOn_cons_eq_if_modifyHead]
  rw [normalComponents, spelled]
  rfl

theorem normalComponents_ofList_concat_slash (l : List Char) :
    normalComponents (String.ofList (l ++ ['/'])) = normalComponents (String.ofList l) := by
  have spelled : pathComponents (String.ofList (l ++ ['/'])) =
      pathComponents (String.ofList l) ++ [[]] := by
    have joined := splitOn_append_cons_self (slashed (String.ofList l)) ([] : List Char)
      (a := '/')
    simpa [pathComponents, slashed] using joined
  rw [normalComponents, spelled, Cancellation.walk_concat]
  exact Cancellation.push_of_skipped (by decide)

theorem normalComponents_trimSlashes (text : String) :
    normalComponents (trimSlashes text) = normalComponents text := by
  have leading : ∀ l : List Char, normalComponents (String.ofList (l.dropWhile (· = '/'))) =
      normalComponents (String.ofList l) := by
    intro l
    induction l with
    | nil => rfl
    | cons c l ih =>
      by_cases slash : c = '/'
      · rw [dropWhile_cons_of_pos (by simpa using slash), ih, slash,
          normalComponents_ofList_cons_slash]
      · rw [dropWhile_cons_of_neg (by simpa using slash)]
  have trailing : ∀ l : List Char, normalComponents (String.ofList (l.rdropWhile (· = '/'))) =
      normalComponents (String.ofList l) := by
    intro l
    induction l using reverseRecOn with
    | nil => rfl
    | append_singleton l c ih =>
      by_cases slash : c = '/'
      · rw [rdropWhile_concat_pos _ _ _ (by simpa using slash), ih, slash,
          normalComponents_ofList_concat_slash]
      · rw [rdropWhile_concat_neg _ _ _ (by simpa using slash)]
  rw [trimSlashes, trailing, leading, String.ofList_toList]

variable {components path : List (List Char)}

theorem splitOn_intercalate_slash (nonempty : components ≠ [])
    (free : ∀ component ∈ components, '/' ∉ component) :
    (['/'].intercalate components).splitOn '/' = components :=
  splitOn_intercalate _ free nonempty

theorem below_iff_prefix (named : components ≠ [])
    (free : ∀ component ∈ components, '/' ∉ component)
    (full : ∀ component ∈ components, component ≠ [])
    (pathFree : ∀ component ∈ path, '/' ∉ component) :
    (['/'].intercalate path = ['/'].intercalate components ∨
      (['/'].intercalate components ++ ['/']) <+: ['/'].intercalate path) ↔
        components <+: path := by
  cases path with
  | nil =>
    have spelled : ['/'].intercalate components ≠ [] := by
      intro bare
      have split := splitOn_intercalate_slash named free
      rw [bare, splitOn_nil] at split
      exact full [] (split ▸ mem_singleton_self _) rfl
    simp [intercalate_nil, spelled.symm, named]
  | cons first rest =>
    have split := splitOn_intercalate_slash (cons_ne_nil first rest) pathFree
    constructor
    · rintro (same | ⟨tail, spelled⟩)
      · rw [same, splitOn_intercalate_slash named free] at split
        rw [split]
      · rw [← spelled, append_assoc, singleton_append, splitOn_append_cons_self,
          splitOn_intercalate_slash named free] at split
        exact ⟨_, split⟩
    · rintro ⟨tail, same⟩
      rw [← same]
      cases tail with
      | nil => exact Or.inl (by rw [append_nil])
      | cons next tail =>
        have tailFree : ∀ component ∈ next :: tail, '/' ∉ component := fun component mem =>
          pathFree component (same ▸ mem_append_right components mem)
        have spelled : ['/'].intercalate ((['/'].intercalate components ++
            '/' :: ['/'].intercalate (next :: tail)).splitOn '/') =
              ['/'].intercalate components ++ '/' :: ['/'].intercalate (next :: tail) :=
          intercalate_splitOn '/'
        rw [splitOn_append_cons_self, splitOn_intercalate_slash named free,
          splitOn_intercalate_slash (cons_ne_nil next tail) tailFree] at spelled
        refine Or.inr ⟨['/'].intercalate (next :: tail), ?_⟩
        rw [append_assoc, singleton_append, spelled]

theorem ne_nil_of_mem_normalComponents {text : String} {component : List Char}
    (mem : component ∈ normalComponents text) : component ≠ [] := by
  obtain ⟨ups, names, split, allUp, allProper⟩ :
      Cancellation.Reduced componentRole (normalComponents text) := Cancellation.reduced_walk _
  rw [split] at mem
  rcases mem_append.1 mem with up | name
  · rw [componentRole_eq_up.1 (allUp component up)]
    exact cons_ne_nil _ _
  · exact (componentRole_eq_proper.1 (allProper component name)).1

theorem slash_notMem_of_mem_normalComponents {text : String} {component : List Char}
    (mem : component ∈ normalComponents text) : '/' ∉ component :=
  (separatorFree_normalComponents text component mem).1

theorem intercalate_slash_concat (front : List (List Char)) (last : List Char) :
    ∃ letters, ['/'].intercalate (front ++ [last]) = letters ++ last := by
  induction front with
  | nil => exact ⟨[], intercalate_singleton⟩
  | cons first front ih =>
    obtain ⟨letters, spelled⟩ := ih
    refine ⟨first ++ '/' :: letters, ?_⟩
    rw [cons_append, intercalate_cons_of_ne_nil (by simp), spelled]
    simp

theorem trimmedPrefix_eq (dir : String) : trimmedPrefix dir =
    if normalComponents dir = [] then [] else (normalizeProjectPath dir).toList := by
  rw [trimmedPrefix]
  split_ifs with root
  · rw [toList_normalizeProjectPath, root]
    cases isAbsolutePath dir <;> rfl
  · obtain ⟨front, last, split⟩ :=
      (eq_nil_or_concat' (normalComponents dir)).resolve_left root
    have mem : last ∈ normalComponents dir := by simp [split]
    obtain ⟨before, c, named⟩ := (eq_nil_or_concat' last).resolve_left
      (ne_nil_of_mem_normalComponents mem)
    have ends : c ≠ '/' := by
      rintro rfl
      exact slash_notMem_of_mem_normalComponents mem (by simp [named])
    obtain ⟨letters, spelled⟩ := intercalate_slash_concat front last
    have whole : spellPath (isAbsolutePath dir) (normalComponents dir) =
        ((if isAbsolutePath dir then ['/'] else []) ++ letters ++ before) ++ [c] := by
      rw [spellPath, split, spelled, named]
      simp
    rw [toList_normalizeProjectPath, whole]
    exact rdropWhile_concat_neg _ _ _ (by simpa using ends)

/-- Slashes only go away at the ends, so what is absolute afterwards was so before. -/
theorem isAbsolutePath_of_trimSlashes {dir : String}
    (absolute : isAbsolutePath (trimSlashes dir) = true) :
    isAbsolutePath dir = true := by
  cases letters : dir.toList with
  | nil =>
    have bare : dir = "" := String.toList_eq_nil_iff.1 letters
    rw [bare] at absolute
    exact absurd absolute (by decide)
  | cons c rest =>
    by_cases slash : c = '/'
    · simp [isAbsolutePath, slashed, letters, slash]
    · obtain ⟨tail, kept⟩ := rdropWhile_prefix (· = '/') (c :: rest)
      have trimmed : (trimSlashes dir).toList = (c :: rest).rdropWhile (· = '/') := by
        rw [trimSlashes, String.toList_ofList, letters,
          dropWhile_cons_of_neg (by simpa using slash)]
      rw [isAbsolutePath, slashed, trimmed] at absolute
      rw [isAbsolutePath, slashed, letters]
      cases left : (c :: rest).rdropWhile (· = '/') with
      | nil => simp [left] at absolute
      | cons d front =>
        rw [left, cons_append] at kept
        obtain ⟨rfl, -⟩ := cons.inj kept
        simpa [left] using absolute

theorem normalizeProjectPath_ne_empty {dir : String}
    (named : normalComponents dir ≠ []) : (normalizeProjectPath dir).toList ≠ [] := by
  intro bare
  have letters := congrArg normalComponents (String.toList_eq_nil_iff.1 bare)
  rw [normalComponents_normalizeProjectPath] at letters
  exact named (letters.trans (by decide))

end Components

section Agreement

variable {path : String}

/-- The path is the directory that a prefix denotes, or lies below it; slashes in front say
nothing, and everything lies below the root. -/
def LiesBelow (directory path : String) : Prop :=
  normalComponents directory <+: normalComponents path

/-- A path as the index holds it: normalized, and relative to the project. -/
structure IsProjectPath (path : String) : Prop where
  normal : normalizeProjectPath path = path
  relative : isAbsolutePath path = false

theorem IsProjectPath.toList_eq (project : IsProjectPath path) :
    path.toList = ['/'].intercalate (normalComponents path) := by
  have spelled := toList_normalizeProjectPath path
  rwa [project.normal, project.relative] at spelled

theorem IsProjectPath.head_ne_slash (project : IsProjectPath path) (rest : List Char) :
    path.toList ≠ '/' :: rest := by
  intro leading
  have absolute : isAbsolutePath path = true := by simp [isAbsolutePath, slashed, leading]
  rw [project.relative] at absolute
  exact Bool.false_ne_true absolute

/-- A normalized prefix lets the paths below it through, unless it is absolute or the root. -/
theorem isOrBelow_normalizeProjectPath (project : IsProjectPath path) (dir : String) :
    isOrBelow (normalizeProjectPath dir) path = true ↔
      isAbsolutePath dir = false ∧ LiesBelow dir path ∧
        (normalComponents dir = [] → path = "") := by
  have spelled := toList_normalizeProjectPath dir
  rw [isOrBelow, Bool.or_eq_true, decide_eq_true_iff, isPrefixOf_iff_prefix, spelled]
  cases absolute : isAbsolutePath dir with
  | true =>
    rw [absolute] at spelled
    refine iff_of_false ?_ fun passes => Bool.noConfusion passes.1
    rintro (rfl | ⟨rest, same⟩)
    · exact project.head_ne_slash _ spelled
    · exact project.head_ne_slash _ same.symm
  | false =>
    rw [absolute] at spelled
    by_cases root : normalComponents dir = []
    · rw [root] at spelled
      have bare : normalizeProjectPath dir = "" := String.toList_eq_nil_iff.1 spelled
      rw [bare, LiesBelow, root]
      constructor
      · rintro (rfl | ⟨rest, same⟩)
        · exact ⟨rfl, nil_prefix, fun _ => rfl⟩
        · exact absurd same.symm (project.head_ne_slash _)
      · exact fun ⟨_, _, itself⟩ => Or.inl (itself rfl)
    · have below := below_iff_prefix root (fun _ => slash_notMem_of_mem_normalComponents)
        (fun _ => ne_nil_of_mem_normalComponents)
        fun _ (mem : _ ∈ normalComponents path) => slash_notMem_of_mem_normalComponents mem
      have same : path = normalizeProjectPath dir ↔ ['/'].intercalate (normalComponents path) =
            ['/'].intercalate (normalComponents dir) := by
        rw [← String.toList_inj, spelled, project.toList_eq]
        rfl
      rw [same, project.toList_eq]
      exact below.trans ⟨fun under => ⟨rfl, under, fun bare => absurd bare root⟩,
        fun passes => passes.2.1⟩

variable (payload : Payload) (directory : String)

theorem payloadMatchesFilter_prefix (project : IsProjectPath payload.filePath) :
    payloadMatchesFilter payload { directoryPrefix := some directory } = true ↔
      normalComponents directory = [] ∨
        isAbsolutePath directory = false ∧ LiesBelow directory payload.filePath := by
  have tested : payloadMatchesFilter payload { directoryPrefix := some directory } =
      underDirectory (trimmedPrefix directory) payload.filePath.toList := by
    simp [payloadMatchesFilter]
  rw [tested, trimmedPrefix_eq]
  split_ifs with root
  · simp [underDirectory, root]
  · have passes := isOrBelow_normalizeProjectPath project directory
    simp only [isOrBelow, Bool.or_eq_true, decide_eq_true_eq, ← String.toList_inj] at passes
    simp only [underDirectory, List.isEmpty_iff, normalizeProjectPath_ne_empty root,
      Bool.or_eq_true, decide_eq_true_eq, passes, root, false_or, false_implies, and_true]

theorem directoryPrefixAllows_prefix (project : IsProjectPath path) :
    directoryPrefixAllows path (some directory) = true ↔ normalComponents directory = [] ∨
        isAbsolutePath (trimSlashes directory) = false ∧ LiesBelow directory path := by
  rw [directoryPrefixAllows, project.normal, trimmedPrefix_eq, normalComponents_trimSlashes]
  by_cases root : normalComponents directory = []
  · simp [root]
  · have named : normalComponents (trimSlashes directory) ≠ [] := by
      rwa [normalComponents_trimSlashes]
    rw [if_neg root, isEmpty_eq_false_iff.2 (normalizeProjectPath_ne_empty named),
      if_neg Bool.false_ne_true, String.ofList_toList, isOrBelow_normalizeProjectPath project,
      LiesBelow, normalComponents_trimSlashes]
    simp [root, LiesBelow]

variable [PathClassifier]

theorem allows_prefix [GlobSets] (project : IsProjectPath path) :
    ExpansionPathFilter.allows { directoryPrefix := some directory } path = true ↔
      isAbsolutePath (trimSlashes directory) = false ∧ LiesBelow directory path ∧
        (normalComponents directory = [] → path = "") := by
  have tested : ExpansionPathFilter.allows { directoryPrefix := some directory } path =
      isOrBelow (normalizeProjectPath (trimSlashes directory)) path := by
    simp [ExpansionPathFilter.allows, project.normal, pathExcludedByTypes]
  rw [tested, isOrBelow_normalizeProjectPath project, LiesBelow, normalComponents_trimSlashes]
  rfl

theorem matchesPath_prefix (project : IsProjectPath path) :
    (RelationFileFilter.fromOptions { directoryPrefix := some directory }).matchesPath (some path) =
        true ↔
      isAbsolutePath (trimSlashes directory) = false ∧ LiesBelow directory path ∧
        (normalComponents directory = [] → path = "") := by
  have tested : (RelationFileFilter.fromOptions
      { directoryPrefix := some directory }).matchesPath (some path) =
        isOrBelow (normalizeProjectPath (trimSlashes directory)) path := by
    simp [RelationFileFilter.matchesPath, RelationFileFilter.fromOptions, project.normal]
  rw [tested, isOrBelow_normalizeProjectPath project, LiesBelow, normalComponents_trimSlashes]
  rfl

/-- All four filters let exactly the paths below the directory of the prefix through. -/
def PrefixFiltersAgree [GlobSets] : Prop :=
  (payloadMatchesFilter payload { directoryPrefix := some directory } = true ↔
    LiesBelow directory payload.filePath) ∧
  (directoryPrefixAllows payload.filePath (some directory) = true ↔
    LiesBelow directory payload.filePath) ∧
  (ExpansionPathFilter.allows { directoryPrefix := some directory } payload.filePath = true ↔
    LiesBelow directory payload.filePath) ∧
  ((RelationFileFilter.fromOptions { directoryPrefix := some directory }).matchesPath
    (some payload.filePath) = true ↔ LiesBelow directory payload.filePath)

variable {payload} {directory}

/-- The filters agree unless the prefix is absolute and has the path below it, or is the root of a
path with a name. -/
theorem prefixFiltersAgree_iff [GlobSets] (project : IsProjectPath payload.filePath) :
    PrefixFiltersAgree payload directory ↔
      if normalComponents directory = [] then
        payload.filePath = "" ∧ isAbsolutePath (trimSlashes directory) = false
      else isAbsolutePath directory = true → ¬LiesBelow directory payload.filePath := by
  rw [PrefixFiltersAgree, payloadMatchesFilter_prefix _ _ project,
    directoryPrefixAllows_prefix _ project, allows_prefix _ project, matchesPath_prefix _ project]
  split_ifs with root
  · have below : LiesBelow directory payload.filePath := by simp [LiesBelow, root]
    simp only [root, below, forall_true_left, true_or, iff_true, true_and, and_self]
    exact and_comm
  · simp only [root, false_or, false_implies, and_true, and_iff_right_iff_imp]
    have trimmed : isAbsolutePath (trimSlashes directory) = true →
        isAbsolutePath directory = true := isAbsolutePath_of_trimSlashes
    cases whole : isAbsolutePath directory <;>
      cases bare : isAbsolutePath (trimSlashes directory) <;> simp_all

end Agreement

section Samples

def sourcePayload : Payload where
  sourceId := "a"
  filePath := "src/a.rs"
  groupId := none
  type := none
  category := none
  test := none
  generated := none
  dependency := none
  epoch := none

@[reducible] def codeClassifier : PathClassifier := ⟨fun _ => false, fun _ => .code⟩

@[reducible] def noGlobSets : GlobSets := ⟨fun _ => none⟩

attribute [local instance] codeClassifier noGlobSets

theorem isProjectPath_sourcePayload : IsProjectPath sourcePayload.filePath := ⟨by decide, by decide⟩

theorem prefixFiltersAgree_source :
    IsProjectPath sourcePayload.filePath ∧ PrefixFiltersAgree sourcePayload "./src/" := by
  have relative : isAbsolutePath "./src/" = false := by decide
  have named : normalComponents "./src/" ≠ [] := by decide
  refine ⟨isProjectPath_sourcePayload,
    (prefixFiltersAgree_iff isProjectPath_sourcePayload).2 ?_⟩
  rw [if_neg named]
  intro absolute
  exact absurd (relative.symm.trans absolute) Bool.false_ne_true

/-- The full-text search finds the file under `/src` and under `/`; the vector search misses it
under the first prefix, and expansion under the second. -/
theorem prefixFiltersAgree_fails :
    IsProjectPath sourcePayload.filePath ∧
      (payloadMatchesFilter sourcePayload { directoryPrefix := some "/src" } = false ∧
        directoryPrefixAllows sourcePayload.filePath (some "/src") = true) ∧
      (ExpansionPathFilter.allows { directoryPrefix := some "/" } sourcePayload.filePath = false ∧
        directoryPrefixAllows sourcePayload.filePath (some "/") = true) ∧
      ¬PrefixFiltersAgree sourcePayload "/src" ∧ ¬PrefixFiltersAgree sourcePayload "/" := by
  have named : payloadMatchesFilter sourcePayload { directoryPrefix := some "/src" } = false := by
    decide
  have root : ExpansionPathFilter.allows { directoryPrefix := some "/" } sourcePayload.filePath =
      false := by
    decide
  refine ⟨isProjectPath_sourcePayload, ⟨named, by decide⟩, ⟨root, by decide⟩, fun agree => ?_,
    fun agree => ?_⟩
  · have below : LiesBelow "/src" sourcePayload.filePath := ⟨[['a', '.', 'r', 's']], by decide⟩
    exact Bool.false_ne_true (named.symm.trans (agree.1.2 below))
  · have below : LiesBelow "/" sourcePayload.filePath :=
      ⟨[['s', 'r', 'c'], ['a', '.', 'r', 's']], by decide⟩
    exact Bool.false_ne_true (root.symm.trans (agree.2.2.1.2 below))

end Samples

section Cache

variable {Key Value : Type} [DecidableEq Key]

/-- A map whose keys are listed from the least to the most recently used. -/
structure LruCache (Key Value : Type) [DecidableEq Key] where
  capacity : Nat
  map : HashMap Key Value
  order : List Key

namespace LruCache

def new (capacity : Nat) : LruCache Key Value := ⟨max capacity 1, ∅, []⟩

variable (cache : LruCache Key Value) (key : Key)

/-- Move a listed key to the end. -/
def promote : LruCache Key Value :=
  if key ∈ cache.order then { cache with order := cache.order.erase key ++ [key] } else cache

def get : Option Value × LruCache Key Value :=
  match cache.map.lookup key with
  | some value => (some value, cache.promote key)
  | none => (none, cache)

/-- Store a value; a full cache gives up its least recently used key. -/
def put (value : Value) : LruCache Key Value :=
  if (cache.map.lookup key).isSome then
    { cache.promote key with map := cache.map.insert key value }
  else
    let freed : LruCache Key Value :=
      if cache.capacity ≤ cache.map.toList.length then
        match cache.order with
        | oldest :: order => { cache with map := cache.map.erase oldest, order }
        | [] => cache
      else cache
    { freed with map := freed.map.insert key value, order := freed.order ++ [key] }

def Mirrors (query : Key → Value) : Prop :=
  ∀ key value, cache.map.lookup key = some value → value = query key

variable {cache} {query : Key → Value}

theorem mirrors_new (capacity : Nat) : (new capacity : LruCache Key Value).Mirrors query := by
  intro key value found
  cases found

@[simp] theorem map_promote : (cache.promote key).map = cache.map := by
  unfold promote
  split_ifs <;> rfl

theorem Mirrors.get (mirrors : cache.Mirrors query) (key : Key) :
    (cache.get key).2.Mirrors query := by
  unfold LruCache.get
  cases cache.map.lookup key with
  | none => exact mirrors
  | some value =>
    intro other stored found
    rw [map_promote] at found
    exact mirrors other stored found

theorem get_eq (mirrors : cache.Mirrors query) {key : Key} {value : Value}
    (hit : (cache.get key).1 = some value) : value = query key := by
  unfold LruCache.get at hit
  cases found : cache.map.lookup key with
  | none => simp [found] at hit
  | some stored =>
    rw [found] at hit
    exact mirrors key value (found.trans hit)

theorem Mirrors.put (mirrors : cache.Mirrors query) (key : Key) :
    (cache.put key (query key)).Mirrors query := by
  have stored : ∀ table : HashMap Key Value,
      (∀ other value, table.lookup other = some value → value = query other) →
        ∀ other value, (table.insert key (query key)).lookup other = some value →
          value = query other := by
    intro table held other value found
    rw [HashMap.lookup_insert_eq] at found
    split_ifs at found with same
    · rw [same]
      exact (Option.some.inj found).symm
    · exact held other value found
  unfold LruCache.put
  split_ifs
  · exact stored _ mirrors
  · refine stored _ ?_
    cases cache.order with
    | nil => exact mirrors
    | cons oldest order =>
      intro other value found
      rw [HashMap.lookup_erase_eq] at found
      split_ifs at found
      exact mirrors other value found
  · exact stored _ mirrors

end LruCache

end Cache

/-- A query with a cache of callers, which nothing but the query fills. -/
structure RelationSearcher where
  query : CallChainQuery
  callersCache : LruCache EntityId (List EntityId)
  cached : callersCache.Mirrors query.getCallersByEntity

namespace RelationSearcher

def new (query : CallChainQuery) : RelationSearcher := ⟨query, .new 128, LruCache.mirrors_new _⟩

variable (searcher : RelationSearcher) (entityId : EntityId)

/-- An unknown entity has no neighbours. -/
def getCallees : List ResolvedRelation :=
  match searcher.query.getCalleesByEntity entityId with
  | .ok callees => callees
  | .error _ => []

def getCallers : List EntityId × RelationSearcher :=
  match (searcher.callersCache.get entityId).1 with
  | some callers =>
    (callers, { searcher with
      callersCache := (searcher.callersCache.get entityId).2
      cached := searcher.cached.get entityId })
  | none =>
    (searcher.query.getCallersByEntity entityId, { searcher with
      callersCache := (searcher.callersCache.get entityId).2.put entityId
        (searcher.query.getCallersByEntity entityId)
      cached := (searcher.cached.get entityId).put entityId })

variable [PathClassifier] (options : RelationQueryOptions)

def filterCallees :
    List ResolvedRelation :=
  let filter := RelationFileFilter.fromOptions options
  let callees := searcher.getCallees entityId
  if filter.isEmpty then callees
  else callees.filter fun relation =>
    filter.matchesRelation relation &&
      filter.matchesPath (relation.calleeId.bind searcher.query.index.getFilePathByEntity)

def incomingEdge (caller callee : EntityId) : Option ResolvedRelation :=
  (searcher.query.index.getResolvedRelationsByCaller caller).bind fun relations =>
    relations.find? fun relation => relation.calleeId = some callee

/-- The callers whose path passes, each with its first edge, if that edge passes. -/
def filterCallers :
    List ResolvedRelation × RelationSearcher :=
  let filter := RelationFileFilter.fromOptions options
  let listed := searcher.getCallers entityId
  (((listed.1.filter fun callerId =>
      filter.matchesPath (searcher.query.index.getFilePathByEntity callerId)).filterMap
        fun callerId => searcher.incomingEdge callerId entityId).filter filter.matchesRelation,
    listed.2)

def storedEdges (caller : EntityId) : List ResolvedRelation :=
  (searcher.query.index.getResolvedRelationsByCaller caller).getD []

def FileAllowed (entityId : EntityId) : Prop :=
  (RelationFileFilter.fromOptions options).matchesPath
    (searcher.query.index.getFilePathByEntity entityId) = true

/-- A stored edge from one entity to another that the relation filter lets through. -/
structure PassingEdge (options : RelationQueryOptions) (caller callee : EntityId)
    (relation : ResolvedRelation) : Prop where
  stored : relation ∈ searcher.storedEdges caller
  target : relation.calleeId = some callee
  passes : (RelationFileFilter.fromOptions options).matchesRelation relation = true

end RelationSearcher

open RelationSearcher

section Answers

variable {searcher : RelationSearcher} {options : RelationQueryOptions}
  {caller callee entityId : EntityId} {relation : ResolvedRelation}

/-- The edges under a caller are its own, in the base and in what the deltas add. -/
theorem caller_eq_of_mem_storedEdges (mem : relation ∈ searcher.storedEdges caller) :
    relation.caller = caller := by
  let layered := searcher.query.index
  have one : ∀ (relations : List ResolvedRelation) (delta : SnapshotDelta),
      relation ∈ LayeredSnapshotIndex.overlayRelations caller relations delta →
        relation.caller = caller ∨ relation ∈ relations := by
    intro relations delta mem
    rcases mem_append.1 mem with kept | added
    · exact Or.inr (mem_filter.1 kept).1
    · exact Or.inl (by simpa using (mem_filter.1 added).2)
  have base : ∀ relation ∈ (layered.base.getResolvedRelationsByCaller caller).getD [],
      relation.caller = caller := by
    intro relation mem
    rw [RelationSnapshotIndex.getResolvedRelationsByCaller_eq,
      RelationIndex.getResolvedRelationsByCaller] at mem
    refine layered.base.index.edgesFiled.caller_eq ?_
    unfold edgesOf
    cases found : layered.base.index.resolvedRelationIndex.lookup caller with
    | none => simp [found] at mem
    | some set => simpa [found] using mem
  unfold storedEdges LayeredSnapshotIndex.getResolvedRelationsByCaller at mem
  simp only at mem
  split_ifs at mem
  · cases mem
  · cases mem
  · rcases foldl_or (relation ∈ ·) one mem with ⟨_, _, own⟩ | stored
    · exact own
    · exact base relation stored

@[simp] theorem getCallers_fst (entityId : EntityId) :
    (searcher.getCallers entityId).1 = searcher.query.getCallersByEntity entityId := by
  unfold getCallers
  cases hit : (searcher.callersCache.get entityId).1 with
  | none => rfl
  | some callers => exact LruCache.get_eq searcher.cached hit

theorem getCallees_eq (entityId : EntityId) :
    searcher.getCallees entityId =
      if searcher.query.index.containsFunction entityId then searcher.storedEdges entityId
      else [] := by
  unfold getCallees CallChainQuery.getCalleesByEntity storedEdges
  split_ifs <;> rfl

theorem incomingEdge_eq : searcher.incomingEdge caller callee =
    (searcher.storedEdges caller).find? fun relation => relation.calleeId = some callee := by
  unfold incomingEdge storedEdges
  cases searcher.query.index.getResolvedRelationsByCaller caller <;> rfl

variable [PathClassifier]

theorem mem_filterCallees : relation ∈ searcher.filterCallees entityId options ↔
    searcher.query.index.containsFunction entityId = true ∧
      relation ∈ searcher.storedEdges entityId ∧
      (RelationFileFilter.fromOptions options).matchesRelation relation = true ∧
      (RelationFileFilter.fromOptions options).matchesPath
        (relation.calleeId.bind searcher.query.index.getFilePathByEntity) = true := by
  have listed : relation ∈ searcher.getCallees entityId ↔
      searcher.query.index.containsFunction entityId = true ∧
        relation ∈ searcher.storedEdges entityId := by
    rw [getCallees_eq]
    split_ifs with known <;> simp [known]
  unfold filterCallees
  simp only
  split_ifs with bare
  · have relations : (RelationFileFilter.fromOptions options).matchesRelation relation = true := by
      simp_all [RelationFileFilter.isEmpty, RelationFileFilter.matchesRelation]
    have paths : ∀ path, (RelationFileFilter.fromOptions options).matchesPath path = true := by
      intro path
      cases path <;> simp_all [RelationFileFilter.isEmpty, RelationFileFilter.matchesPath]
    rw [listed]
    simp [relations, paths]
  · rw [mem_filter, listed, Bool.and_eq_true, and_assoc]

theorem mem_filterCallers : relation ∈ (searcher.filterCallers callee options).1 ↔
    relation.caller ∈ searcher.query.getCallersByEntity callee ∧
      searcher.FileAllowed options relation.caller ∧
      (searcher.storedEdges relation.caller).find?
        (fun edge => edge.calleeId = some callee) = some relation ∧
      (RelationFileFilter.fromOptions options).matchesRelation relation = true := by
  unfold filterCallers
  simp only [mem_filter, mem_filterMap, getCallers_fst, incomingEdge_eq]
  constructor
  · rintro ⟨⟨listed, ⟨mem, allowed⟩, first⟩, passes⟩
    have own := caller_eq_of_mem_storedEdges (mem_of_find?_eq_some first)
    rw [own]
    exact ⟨mem, allowed, first, passes⟩
  · rintro ⟨mem, allowed, first, passes⟩
    exact ⟨⟨relation.caller, ⟨mem, allowed⟩, first⟩, passes⟩

end Answers

section Symmetry

variable [PathClassifier] (searcher : RelationSearcher) (options : RelationQueryOptions)
  (caller callee : EntityId)

/-- A caller is reported if one of its edges passes, callees are reported edge by edge, and each
direction tells the other. -/
structure FilteredAlike : Prop where
  callers : (∃ relation ∈ (searcher.filterCallers callee options).1, relation.caller = caller) ↔
    (∃ relation, searcher.PassingEdge options caller callee relation) ∧
      searcher.FileAllowed options caller
  callerEdges : ∀ relation ∈ (searcher.filterCallers callee options).1,
    relation.caller = caller → searcher.PassingEdge options caller callee relation
  callees : ∀ relation, relation ∈ searcher.filterCallees caller options ↔
    relation ∈ searcher.storedEdges caller ∧
      (RelationFileFilter.fromOptions options).matchesRelation relation = true ∧
      (RelationFileFilter.fromOptions options).matchesPath
        (relation.calleeId.bind searcher.query.index.getFilePathByEntity) = true
  mirrored : searcher.FileAllowed options caller → searcher.FileAllowed options callee →
    ((∃ relation ∈ (searcher.filterCallers callee options).1, relation.caller = caller) ↔
      ∃ relation ∈ searcher.filterCallees caller options, relation.calleeId = some callee)

def FirstEdgePasses : Prop :=
  caller ∈ searcher.query.getCallersByEntity callee ∧
    ∃ first, (searcher.storedEdges caller).find?
        (fun edge => edge.calleeId = some callee) = some first ∧
      (RelationFileFilter.fromOptions options).matchesRelation first = true

variable {searcher options caller callee}

theorem exists_mem_filterCallers :
    (∃ relation ∈ (searcher.filterCallers callee options).1, relation.caller = caller) ↔
      searcher.FileAllowed options caller ∧ FirstEdgePasses searcher options caller callee := by
  simp only [mem_filterCallers]
  constructor
  · rintro ⟨relation, ⟨mem, allowed, first, passes⟩, rfl⟩
    exact ⟨allowed, mem, relation, first, passes⟩
  · rintro ⟨allowed, mem, relation, first, passes⟩
    obtain rfl := caller_eq_of_mem_storedEdges (mem_of_find?_eq_some first)
    exact ⟨relation, ⟨mem, allowed, first, passes⟩, rfl⟩

omit [PathClassifier] in
theorem FirstEdgePasses.passingEdge (found : FirstEdgePasses searcher options caller callee) :
    ∃ relation, searcher.PassingEdge options caller callee relation := by
  obtain ⟨-, relation, first, passes⟩ := found
  exact ⟨relation, mem_of_find?_eq_some first, by simpa using find?_some first, passes⟩

/-- The directions mirror if a passing edge of an allowed caller makes its first edge pass, and a
caller with an edge to report is known. -/
theorem filteredAlike_iff : FilteredAlike searcher options caller callee ↔
    ((∃ relation, searcher.PassingEdge options caller callee relation) →
      searcher.FileAllowed options caller → FirstEdgePasses searcher options caller callee) ∧
    (searcher.query.index.containsFunction caller = true ∨
      ∀ relation ∈ searcher.storedEdges caller,
        (RelationFileFilter.fromOptions options).matchesRelation relation = true →
        (RelationFileFilter.fromOptions options).matchesPath
          (relation.calleeId.bind searcher.query.index.getFilePathByEntity) = false) := by
  constructor
  · intro alike
    refine ⟨fun passing allowed => ?_, ?_⟩
    · exact (exists_mem_filterCallers.1 (alike.callers.2 ⟨passing, allowed⟩)).2
    · by_contra neither
      push Not at neither
      obtain ⟨unknown, relation, mem, passes, placed⟩ := neither
      have reported := (alike.callees relation).2 ⟨mem, passes, by simpa using placed⟩
      exact unknown (mem_filterCallees.1 reported).1
  · rintro ⟨first, known⟩
    have callees : ∀ relation, relation ∈ searcher.filterCallees caller options ↔
        relation ∈ searcher.storedEdges caller ∧
          (RelationFileFilter.fromOptions options).matchesRelation relation = true ∧
          (RelationFileFilter.fromOptions options).matchesPath
            (relation.calleeId.bind searcher.query.index.getFilePathByEntity) = true := by
      intro relation
      rw [mem_filterCallees, and_iff_right_iff_imp]
      rintro ⟨mem, passes, placed⟩
      refine known.resolve_right fun hidden => ?_
      exact Bool.false_ne_true ((hidden relation mem passes).symm.trans placed)
    refine ⟨?_, ?_, callees, fun allowed target => ?_⟩
    · rw [exists_mem_filterCallers, and_comm]
      refine and_congr_left fun allowed => ?_
      exact ⟨FirstEdgePasses.passingEdge, fun passing => first passing allowed⟩
    · rintro relation mem rfl
      obtain ⟨-, -, found, passes⟩ := mem_filterCallers.1 mem
      exact ⟨mem_of_find?_eq_some found, by simpa using find?_some found, passes⟩
    · rw [exists_mem_filterCallers, and_iff_right allowed]
      constructor
      · intro found
        obtain ⟨relation, mem, ends, passes⟩ := found.passingEdge
        refine ⟨relation, (callees relation).2 ⟨mem, passes, ?_⟩, ends⟩
        rw [ends]
        exact target
      · rintro ⟨relation, reported, ends⟩
        obtain ⟨mem, passes, -⟩ := (callees relation).1 reported
        exact first ⟨relation, mem, ends, passes⟩ allowed

end Symmetry

section Sample

attribute [local instance] codeClassifier

/-- The first function names the second as a type and calls it as well. -/
def typedCaller : RelationSearcher :=
  .new ⟨⟨.fromIndexShared (indexOf [1, 2] [{ callOf 1 2 with relationType := .typeReference },
    callOf 1 2]), []⟩⟩

def callsOnly : RelationQueryOptions := { relationDomains := ["call"] }

/-- The call is among the callees and is missed among the callers. -/
theorem filteredAlike_fails :
    typedCaller.filterCallees 1 callsOnly = [callOf 1 2] ∧
      (typedCaller.filterCallers 2 callsOnly).1 = [] ∧
      ¬FilteredAlike typedCaller callsOnly 1 2 := by
  have callees : typedCaller.filterCallees 1 callsOnly = [callOf 1 2] := by decide
  have callers : (typedCaller.filterCallers 2 callsOnly).1 = [] := by decide
  have allowed : ∀ entityId ∈ [1, 2], typedCaller.FileAllowed callsOnly entityId := by
    unfold FileAllowed
    decide
  refine ⟨callees, callers, fun alike => ?_⟩
  obtain ⟨relation, mem, -⟩ := (alike.mirrored (allowed 1 (by decide)) (allowed 2 (by decide))).2
    ⟨callOf 1 2, callees ▸ mem_singleton_self _, rfl⟩
  rw [callers] at mem
  cases mem

end Sample

end ContextEngine

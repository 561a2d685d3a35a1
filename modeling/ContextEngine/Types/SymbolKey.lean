/- digest: Project paths, stable symbol keys with their identifiers, and grouping ids. -/

import ContextEngine.Lib.Cancellation
import ContextEngine.Lib.WeightedText
import ContextEngine.Types.Source

set_option autoImplicit false

namespace ContextEngine

open List

/-- The digest in lower-case hexadecimal. -/
class Sha256 where
  hexDigest : List UInt8 → String

def asBytes (text : String) : List UInt8 := text.toList.flatMap String.utf8EncodeChar

def toLeBytes (width value : Nat) : List UInt8 :=
  (List.range width).map fun index => UInt8.ofNat (value / 256 ^ index)

section Path

/-- One step of the lexical walk: `.` and empty segments vanish, `..` pops a proper one. -/
def pushComponent (components : List (List Char)) (component : List Char) : List (List Char) :=
  if component = [] ∨ component = ['.'] then components
  else if component = ['.', '.'] then
    match components.getLast? with
    | some part => if part ≠ ['.', '.'] then components.dropLast else components ++ [component]
    | none => components ++ [component]
  else components ++ [component]

/-- A path as the operating system spells it. -/
abbrev PathBuf := String

variable (path : String)

def normalizeProjectPath : String :=
  let replaced := path.toList.map fun c => if c = '\\' then '/' else c
  let components := (replaced.splitOn '/').foldl pushComponent []
  let normalized := (['/'].intercalate components)
  if replaced.head? = some '/' then String.ofList ('/' :: normalized)
  else String.ofList normalized

example : normalizeProjectPath ".\\src\\module\\..\\lib.rs" = "src/lib.rs" := by decide

/-- What a component does to a lexical walk. -/
def componentRole (component : List Char) : Cancellation.Role :=
  if component = [] ∨ component = ['.'] then .skipped
  else if component = ['.', '.'] then .up
  else .proper

theorem pushComponent_eq : pushComponent = Cancellation.push componentRole := by
  funext components component
  unfold pushComponent Cancellation.push componentRole
  split_ifs with skipped up
  · rfl
  · cases components.getLast? with
    | none => rfl
    | some part =>
      simp only
      by_cases same : part = ['.', '.']
      · simp [same]
      · by_cases skips : part = [] ∨ part = ['.'] <;> simp [same, skips]
  · rfl

def slashed : List Char := path.toList.map fun c => if c = '\\' then '/' else c

def pathComponents : List (List Char) := (slashed path).splitOn '/'

def isAbsolutePath : Bool := (slashed path).head? = some '/'

/-- The components that normalization leaves. -/
def normalComponents : List (List Char) :=
  Cancellation.walk componentRole (pathComponents path)

/-- Components joined, behind a leading slash or not. -/
def spellPath (absolute : Bool) (components : List (List Char)) : List Char :=
  (if absolute then ['/'] else []) ++ ['/'].intercalate components

variable (path : String)

theorem toList_normalizeProjectPath :
    (normalizeProjectPath path).toList =
      spellPath (isAbsolutePath path) (normalComponents path) := by
  have walked : (pathComponents path).foldl pushComponent [] = normalComponents path := by
    rw [pushComponent_eq]
    rfl
  unfold normalizeProjectPath
  change (if (slashed path).head? = some '/' then
    String.ofList ('/' :: ['/'].intercalate ((pathComponents path).foldl pushComponent []))
    else String.ofList
      (['/'].intercalate ((pathComponents path).foldl pushComponent []))).toList = _
  rw [walked, spellPath, isAbsolutePath]
  split_ifs <;> simp_all

theorem mem_of_mem_splitOn {l component : List Char} {sep c : Char}
    (mem : component ∈ l.splitOn sep) (inComponent : c ∈ component) : c ∈ l ∧ c ≠ sep := by
  induction l generalizing component with
  | nil =>
    rw [splitOn_nil, mem_singleton] at mem
    rw [mem] at inComponent
    cases inComponent
  | cons a l ih =>
    rw [splitOn_cons_eq_if_modifyHead] at mem
    split_ifs at mem with isSep
    · rcases mem_cons.1 mem with rfl | later
      · cases inComponent
      · exact (ih later inComponent).imp_left (mem_cons_of_mem _)
    · obtain ⟨head, tail, split⟩ := exists_cons_of_ne_nil (splitOn_ne_nil sep l)
      rw [split, modifyHead_cons] at mem
      rw [split] at ih
      rcases mem_cons.1 mem with rfl | later
      · rcases mem_cons.1 inComponent with rfl | before
        · exact ⟨mem_cons_self, fun same => isSep (beq_iff_eq.2 same)⟩
        · exact (ih mem_cons_self before).imp_left (mem_cons_of_mem _)
      · exact (ih (mem_cons_of_mem _ later) inComponent).imp_left (mem_cons_of_mem _)

theorem mem_intercalate {components : List (List Char)} {sep c : Char}
    (mem : c ∈ [sep].intercalate components) : c = sep ∨ ∃ part ∈ components, c ∈ part := by
  induction components with
  | nil => cases mem
  | cons first rest ih =>
    cases rest with
    | nil =>
      rw [intercalate_singleton] at mem
      exact Or.inr ⟨first, mem_cons_self, mem⟩
    | cons second rest =>
      rw [intercalate_cons_cons] at mem
      rcases mem_append.1 mem with early | late
      · rcases mem_append.1 early with inFirst | isSep
        · exact Or.inr ⟨first, mem_cons_self, inFirst⟩
        · exact Or.inl (mem_singleton.1 isSep)
      · exact (ih late).imp_right fun ⟨part, partMem, inPart⟩ =>
          ⟨part, mem_cons_of_mem _ partMem, inPart⟩

theorem separatorFree_of_mem {path : String} {component : List Char}
    (mem : component ∈ pathComponents path) : '/' ∉ component ∧ '\\' ∉ component := by
  refine ⟨fun inside => (mem_of_mem_splitOn mem inside).2 rfl, fun inside => ?_⟩
  obtain ⟨c, -, replacedTo⟩ := mem_map.1 (mem_of_mem_splitOn mem inside).1
  split_ifs at replacedTo with backslash
  · cases replacedTo
  · exact backslash replacedTo

theorem mem_normalizeProjectPath {path : String} {c : Char}
    (mem : c ∈ (normalizeProjectPath path).toList) : c = '/' ∨ c ∈ path.toList := by
  rw [toList_normalizeProjectPath, spellPath] at mem
  rcases mem_append.1 mem with leading | joined
  · split_ifs at leading
    · exact Or.inl (mem_singleton.1 leading)
    · cases leading
  · rcases mem_intercalate joined with separator | ⟨part, partMem, inPart⟩
    · exact Or.inl separator
    · have split := Cancellation.mem_of_mem_walk partMem
      obtain ⟨source, sourceMem, same⟩ := mem_map.1 (mem_of_mem_splitOn split inPart).1
      split_ifs at same
      · exact Or.inl same.symm
      · exact Or.inr (same ▸ sourceMem)

section Spelled

variable {components : List (List Char)}

theorem slashed_eq_self {l : List Char} (free : '\\' ∉ l) : slashed (String.ofList l) = l := by
  rw [slashed, String.toList_ofList]
  refine (map_congr_left fun c mem => ?_).trans (map_id l)
  have other : c ≠ '\\' := fun same => free (same ▸ mem)
  rw [if_neg other]
  rfl

section

variable (absolute : Bool) (free : ∀ part ∈ components, '/' ∉ part ∧ '\\' ∉ part)

include absolute free

theorem slashed_spellPath :
    slashed (String.ofList (spellPath absolute components)) = spellPath absolute components := by
  refine slashed_eq_self fun mem => ?_
  rcases mem_append.1 mem with leading | joined
  · split_ifs at leading
    · cases mem_singleton.1 leading
    · cases leading
  · rcases mem_intercalate joined with isSep | ⟨part, partMem, inPart⟩
    · cases isSep
    · exact (free part partMem).2 inPart

theorem normalComponents_spellPath (reduced : Cancellation.Reduced componentRole components) :
    normalComponents (String.ofList (spellPath absolute components)) = components := by
  have walked : Cancellation.walk componentRole ((['/'].intercalate components).splitOn '/') =
      components := by
    by_cases empty : components = []
    · rw [empty]
      rfl
    · rw [splitOn_intercalate '/' (fun part mem => (free part mem).1) empty]
      exact reduced.walk_eq
  rw [normalComponents, pathComponents, slashed_spellPath absolute free, spellPath]
  cases absolute with
  | false => exact walked
  | true =>
    rw [if_pos rfl, singleton_append, splitOn_cons_eq_if_modifyHead, if_pos (beq_self_eq_true _)]
    exact walked

theorem isAbsolutePath_spellPath (reduced : Cancellation.Reduced componentRole components) :
    isAbsolutePath (String.ofList (spellPath absolute components)) = absolute := by
  rw [isAbsolutePath, slashed_spellPath absolute free, spellPath]
  cases absolute with
  | true => rfl
  | false =>
    rw [if_neg Bool.false_ne_true, nil_append, decide_eq_false_iff_not]
    cases components with
    | nil => exact fun h => nomatch h
    | cons first rest =>
      have nonempty : first ≠ [] := by
        rintro rfl
        obtain ⟨ups, propers, split, allUp, allProper⟩ := reduced
        rcases mem_append.1 (split ▸ mem_cons_self) with up | proper
        · cases allUp [] up
        · cases allProper [] proper
      obtain ⟨c, l, rfl⟩ := exists_cons_of_ne_nil nonempty
      have head : (['/'].intercalate ((c :: l) :: rest)).head? = some c := by
        cases rest with
        | nil => rfl
        | cons second rest => rw [intercalate_cons_cons]; rfl
      rw [head]
      intro same
      have separator := (free (c :: l) mem_cons_self).1
      rw [Option.some.inj same] at separator
      exact separator mem_cons_self

end

end Spelled

theorem separatorFree_normalComponents :
    ∀ part ∈ normalComponents path, '/' ∉ part ∧ '\\' ∉ part :=
  fun _ mem => separatorFree_of_mem (Cancellation.mem_of_mem_walk mem)

theorem normalizeProjectPath_eq : normalizeProjectPath path =
    String.ofList (spellPath (isAbsolutePath path) (normalComponents path)) := by
  rw [← toList_normalizeProjectPath, String.ofList_toList]

@[simp] theorem normalComponents_normalizeProjectPath :
    normalComponents (normalizeProjectPath path) = normalComponents path := by
  rw [normalizeProjectPath_eq]
  exact normalComponents_spellPath _ (separatorFree_normalComponents path)
    (Cancellation.reduced_walk _)

@[simp] theorem isAbsolutePath_normalizeProjectPath :
    isAbsolutePath (normalizeProjectPath path) = isAbsolutePath path := by
  rw [normalizeProjectPath_eq]
  exact isAbsolutePath_spellPath _ (separatorFree_normalComponents path)
    (Cancellation.reduced_walk _)

theorem normalizeProjectPath_idem :
    normalizeProjectPath (normalizeProjectPath path) = normalizeProjectPath path := by
  rw [normalizeProjectPath_eq, normalComponents_normalizeProjectPath,
    isAbsolutePath_normalizeProjectPath, ← normalizeProjectPath_eq]

end Path

structure StableSymbolKey where
  filePath : String
  scopedName : String
  kind : EntityKind
  overloadDiscriminator : String
  deriving DecidableEq

abbrev SymbolKey := StableSymbolKey

namespace StableSymbolKey

variable [Sha256]

/-- The hash that separates symbols of one file, name and kind. -/
def discriminator (kind : EntityKind) (cfgPredicate ordinal : String) (spanStart spanEnd : Nat)
    (foldSpan : Bool) : String :=
  Sha256.hexDigest <|
    asBytes kind.display ++ asBytes cfgPredicate ++ asBytes ordinal ++
      if foldSpan then toLeBytes 8 spanStart ++ toLeBytes 8 spanEnd else []

def new (filePath scopedName : String) (kind : EntityKind) : StableSymbolKey where
  filePath := normalizeProjectPath filePath
  scopedName := scopedName
  kind := kind
  overloadDiscriminator := discriminator kind "" "" 0 0 false

def forEntity (filePath scopedName : String) (entity : Entity) : StableSymbolKey :=
  let cfgPredicate := (entity.metadata.lookup MetaKeys.cfgPredicate).getD ""
  let siblingOrdinal := (entity.metadata.lookup MetaKeys.duplicateSiblingOrdinal).getD ""
  { filePath := normalizeProjectPath filePath
    scopedName := scopedName
    kind := entity.kind
    overloadDiscriminator :=
      discriminator entity.kind cfgPredicate siblingOrdinal entity.span.startByte
        entity.span.endByte entity.kind.isPositionScoped }

/-- The fields joined by NUL. -/
def sortKey (key : StableSymbolKey) : String :=
  key.filePath ++ "\x00" ++ key.scopedName ++ "\x00" ++ key.kind.display ++ "\x00" ++
    key.overloadDiscriminator

def schemaVersion : Nat := 1

/-- The opaque identifier exposed across process boundaries. -/
def stableId (key : StableSymbolKey) : String :=
  let component (text : String) := toLeBytes 8 (asBytes text).length ++ asBytes text
  "sym_" ++ Sha256.hexDigest
    (toLeBytes 4 schemaVersion ++ component key.filePath ++ component key.scopedName ++
      component key.kind.display ++ component key.overloadDiscriminator)

end StableSymbolKey

open WeightedText

/-- The group-id base of a path: underscores are doubled, then separators become underscores. -/
def groupIdBase (path : String) : String :=
  let escaped := path.toList.flatMap fun c => if c = '_' then ['_', '_'] else [c]
  String.ofList (escaped.map fun c => if c = '/' ∨ c = '\\' then '_' else c)

example : groupIdBase "my_dir/file_name.rs" = "my__dir_file__name.rs" := by decide

/-- A path in the canonical form that is not absolute. -/
def ProjectRelative (path : String) : Prop :=
  normalizeProjectPath path = path ∧ path.toList.head? ≠ some '/'

instance (path : String) : Decidable (ProjectRelative path) :=
  inferInstanceAs (Decidable (_ ∧ _))

/-- The underscores a character of a path contributes to the group id. -/
def underscoreWeight (c : Char) : Nat :=
  if c = '_' then 2 else if c = '/' ∨ c = '\\' then 1 else 0

theorem groupIdBase_eq_render (path : String) :
    groupIdBase path = String.ofList (render underscoreWeight '_' path.toList) := by
  have perChar : ∀ c : Char,
      ((if c = '_' then ['_', '_'] else [c]).map fun d => if d = '/' ∨ d = '\\' then '_' else d) =
        if underscoreWeight c = 0 then [c] else replicate (underscoreWeight c) '_' := by
    intro c
    by_cases underscore : c = '_'
    · rw [underscore]
      decide
    · by_cases separator : c = '/' ∨ c = '\\'
      · simp only [underscoreWeight, if_neg underscore, if_pos separator, map_cons,
          map_nil, Nat.one_ne_zero, if_false, replicate_one]
      · simp only [underscoreWeight, if_neg underscore, if_neg separator, map_cons,
          map_nil, if_true]
  apply congrArg String.ofList
  rw [map_flatMap]
  exact flatMap_congr fun c _ => perChar c

/-- Two paths keep distinct group ids exactly when they differ in a character that is neither an
underscore nor a separator, or in the weight of the gap before, between or after such
characters. -/
theorem groupIdBase_ne_iff (left right : String) :
    groupIdBase left ≠ groupIdBase right ↔
      letters underscoreWeight left.toList ≠ letters underscoreWeight right.toList ∨
        gaps underscoreWeight left.toList ≠ gaps underscoreWeight right.toList := by
  have weighted : underscoreWeight '_' ≠ 0 := by decide
  rw [groupIdBase_eq_render, groupIdBase_eq_render, ne_eq, String.ofList_inj,
    render_eq_iff weighted, not_and_or]

/-- An underscore on the other side of a separator gives the same group id. -/
theorem groupIdBase_collides :
    ¬ ∀ left right : String, ProjectRelative left → ProjectRelative right → left ≠ right →
      groupIdBase left ≠ groupIdBase right := by
  intro injective
  exact injective "a_/b.rs" "a/_b.rs" (by decide) (by decide) (by decide) (by decide)

end ContextEngine

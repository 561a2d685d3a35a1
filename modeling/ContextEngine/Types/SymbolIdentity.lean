/- digest: Normalized project paths, and when two live entities have one stable symbol key. -/

import ContextEngine.Lib.FieldEncoding
import ContextEngine.Types.SymbolKey

set_option autoImplicit false

namespace ContextEngine

open List

def trimStartSlashes (path : String) : String := String.ofList (path.toList.dropWhile (· = '/'))

/-- Path equality after normalization, with or without a leading slash. -/
def normalizedEquals (left right : String) : Bool :=
  let normalizedLeft := normalizeProjectPath left
  let normalizedRight := normalizeProjectPath right
  normalizedLeft = normalizedRight || trimStartSlashes normalizedLeft = normalizedRight ||
    normalizedLeft = trimStartSlashes normalizedRight

/-- A component that names something. -/
def IsOrdinary (component : List Char) : Prop :=
  component ≠ [] ∧ component ≠ ['.'] ∧ component ≠ ['.', '.'] ∧ '/' ∉ component ∧ '\\' ∉ component

/-- An optional leading slash, then `..` components, then ordinary ones. -/
def IsNormalPath (path : String) : Prop :=
  ∃ absolute ups names, path.toList = spellPath absolute (ups ++ names) ∧
    (∀ component ∈ ups, component = ['.', '.']) ∧ ∀ component ∈ names, IsOrdinary component

/-- Drop a `.` or empty component, or cancel an ordinary one against the `..` behind it. -/
abbrev ComponentStep : List (List Char) → List (List Char) → Prop :=
  Cancellation.Step componentRole

section Roles

variable {component : List Char}

theorem componentRole_eq_up : componentRole component = .up ↔ component = ['.', '.'] := by
  unfold componentRole
  split_ifs with skipped up
  · constructor
    · intro h
      cases h
    · rintro rfl
      simp at skipped
  · simp [up]
  · simp [up]

theorem componentRole_eq_proper : componentRole component = .proper ↔
    component ≠ [] ∧ component ≠ ['.'] ∧ component ≠ ['.', '.'] := by
  unfold componentRole
  split_ifs with skipped up
  · simp only [false_iff]
    tauto
  · simp [up]
  · push Not at skipped
    simp [skipped, up]

end Roles

theorem isNormalPath_normalizeProjectPath (path : String) :
    IsNormalPath (normalizeProjectPath path) := by
  obtain ⟨ups, names, split, allUp, allProper⟩ :
      Cancellation.Reduced componentRole (Cancellation.walk componentRole (pathComponents path)) :=
    Cancellation.reduced_walk _
  refine ⟨isAbsolutePath path, ups, names, ?_, fun part mem => ?_, fun part mem => ?_⟩
  · rw [toList_normalizeProjectPath, normalComponents, split]
  · exact componentRole_eq_up.1 (allUp part mem)
  · obtain ⟨nonempty, notDot, notUp⟩ := componentRole_eq_proper.1 (allProper part mem)
    have inside : part ∈ normalComponents path := by
      rw [normalComponents, split]
      exact List.mem_append_right ups mem
    obtain ⟨slashFree, backslashFree⟩ := separatorFree_normalComponents path part inside
    exact ⟨nonempty, notDot, notUp, slashFree, backslashFree⟩

theorem normalizeProjectPath_eq_iff (path other : String) :
    normalizeProjectPath path = normalizeProjectPath other ↔
      isAbsolutePath path = isAbsolutePath other ∧
        normalComponents path = normalComponents other := by
  constructor
  · intro same
    have absolute := congrArg isAbsolutePath same
    have components := congrArg normalComponents same
    simp only [isAbsolutePath_normalizeProjectPath] at absolute
    simp only [normalComponents_normalizeProjectPath] at components
    exact ⟨absolute, components⟩
  · rintro ⟨absolute, components⟩
    rw [normalizeProjectPath_eq, normalizeProjectPath_eq other, absolute, components]

section Joined

theorem pathComponents_join (dir path : String) :
    pathComponents (dir ++ "/" ++ path) = pathComponents dir ++ pathComponents path := by
  have spelled : slashed (dir ++ "/" ++ path) = slashed dir ++ '/' :: slashed path := by
    simp [slashed]
  rw [pathComponents, spelled]
  exact List.splitOn_append_cons_self _ _

theorem isAbsolutePath_join {dir : String} (nonempty : dir ≠ "") (path : String) :
    isAbsolutePath (dir ++ "/" ++ path) = isAbsolutePath dir := by
  have spelled : slashed (dir ++ "/" ++ path) = slashed dir ++ '/' :: slashed path := by
    simp [slashed]
  rw [isAbsolutePath, isAbsolutePath, spelled]
  cases letters : slashed dir with
  | nil =>
    have bare : dir.toList = [] := List.map_eq_nil_iff.1 letters
    exact absurd (String.toList_eq_nil_iff.1 bare) nonempty
  | cons c rest => rfl

theorem normalizeProjectPath_join {dir : String}
    (nonempty : normalizeProjectPath dir ≠ "") (path : String) :
    normalizeProjectPath (dir ++ "/" ++ path) =
      normalizeProjectPath (normalizeProjectPath dir ++ "/" ++ path) := by
  have named : dir ≠ "" := by
    rintro rfl
    exact nonempty (by decide)
  rw [normalizeProjectPath_eq_iff, isAbsolutePath_join named, isAbsolutePath_join nonempty,
    isAbsolutePath_normalizeProjectPath]
  refine ⟨rfl, ?_⟩
  have components := normalComponents_normalizeProjectPath dir
  unfold normalComponents at components ⊢
  rw [pathComponents_join, pathComponents_join, Cancellation.walk_append, Cancellation.walk_append,
    components]

end Joined

section Equality

theorem trimStartSlashes_normalizeProjectPath (path : String) :
    trimStartSlashes (normalizeProjectPath path) =
      String.ofList (spellPath false (normalComponents path)) := by
  have relative := isAbsolutePath_spellPath false (separatorFree_normalComponents path)
    (Cancellation.reduced_walk _)
  rw [isAbsolutePath, slashed_spellPath false (separatorFree_normalComponents path),
    decide_eq_false_iff_not] at relative
  have bare : (spellPath false (normalComponents path)).dropWhile (· = '/') =
      spellPath false (normalComponents path) := by
    cases letters : spellPath false (normalComponents path) with
    | nil => rfl
    | cons c rest =>
      rw [letters, List.head?_cons, Option.some.injEq] at relative
      simp [relative]
  rw [trimStartSlashes, toList_normalizeProjectPath]
  congr 1
  cases isAbsolutePath path with
  | false => exact bare
  | true =>
    have leading : spellPath true (normalComponents path) =
        '/' :: spellPath false (normalComponents path) := rfl
    rw [leading, List.dropWhile_cons_of_pos (by simp), bare]

theorem normalizedEquals_iff (left right : String) :
    normalizedEquals left right = true ↔ normalComponents left = normalComponents right := by
  have trimmed : ∀ path, normalComponents (trimStartSlashes (normalizeProjectPath path)) =
      normalComponents path := fun path => by
    rw [trimStartSlashes_normalizeProjectPath]
    exact normalComponents_spellPath _ (separatorFree_normalComponents path)
      (Cancellation.reduced_walk _)
  simp only [normalizedEquals, Bool.or_eq_true, decide_eq_true_eq]
  constructor
  · rintro ((same | same) | same)
    · exact ((normalizeProjectPath_eq_iff left right).1 same).2
    · have components := congrArg normalComponents same
      rwa [trimmed, normalComponents_normalizeProjectPath] at components
    · have components := congrArg normalComponents same
      rwa [trimmed, normalComponents_normalizeProjectPath] at components
  · intro same
    rw [trimStartSlashes_normalizeProjectPath, trimStartSlashes_normalizeProjectPath,
      normalizeProjectPath_eq left, normalizeProjectPath_eq right, same]
    cases isAbsolutePath left <;> cases isAbsolutePath right <;> simp

end Equality

/-- Normalization is idempotent and gives a normal path; it tells exactly the paths apart that are
not both absolute or both relative or whose components do not rewrite into each other; a directory
can be normalized before something is joined to it; and equality after normalization is an
equivalence that looks at the components alone. -/
theorem normalizeProjectPath_canonical (path other : String) :
    normalizeProjectPath (normalizeProjectPath path) = normalizeProjectPath path ∧
    IsNormalPath (normalizeProjectPath path) ∧
    (normalizeProjectPath path = normalizeProjectPath other ↔
      isAbsolutePath path = isAbsolutePath other ∧
        Relation.EqvGen ComponentStep (pathComponents path) (pathComponents other)) ∧
    (normalizeProjectPath path ≠ "" → normalizeProjectPath (path ++ "/" ++ other) =
      normalizeProjectPath (normalizeProjectPath path ++ "/" ++ other)) ∧
    Equivalence (fun left right => normalizedEquals left right = true) ∧
    (normalizedEquals path other = true ↔
      Relation.EqvGen ComponentStep (pathComponents path) (pathComponents other)) := by
  refine ⟨normalizeProjectPath_idem path, isNormalPath_normalizeProjectPath path, ?_,
    fun nonempty => normalizeProjectPath_join nonempty other, ⟨?_, ?_, ?_⟩, ?_⟩
  · rw [normalizeProjectPath_eq_iff, normalComponents, normalComponents, Cancellation.walk_eq_iff]
  · exact fun path => (normalizedEquals_iff path path).2 rfl
  · intro left right same
    rw [normalizedEquals_iff] at same ⊢
    exact same.symm
  · intro left middle right first second
    rw [normalizedEquals_iff] at first second ⊢
    exact first.trans second
  · rw [normalizedEquals_iff, normalComponents, normalComponents, Cancellation.walk_eq_iff]

example : normalizedEquals "/a/./b" "a//c/..\\b" = true := by decide

section Bytes

theorem asBytes_append (a b : String) : asBytes (a ++ b) = asBytes a ++ asBytes b := by
  unfold asBytes
  rw [String.toList_append, flatMap_append]

theorem asBytes_injective : Function.Injective asBytes := by
  intro a b same
  have encoded : a.toList.utf8Encode = b.toList.utf8Encode := congrArg toByteArray same
  rw [String.utf8Encode_toList, String.utf8Encode_toList] at encoded
  exact String.toByteArray_inj.1 encoded

theorem length_toLeBytes (width value : Nat) : (toLeBytes width value).length = width := by
  unfold toLeBytes
  rw [length_map, length_range]

theorem toLeBytes_succ (width value : Nat) :
    toLeBytes (width + 1) value = UInt8.ofNat value :: toLeBytes width (value / 256) := by
  have shifted : ∀ index, value / 256 ^ (index + 1) = value / 256 / 256 ^ index := by
    intro index
    rw [Nat.div_div_eq_div_mul, Nat.pow_succ, Nat.mul_comm]
  unfold toLeBytes
  rw [range_succ_eq_map, map_cons, map_map, Nat.pow_zero, Nat.div_one]
  simp only [Function.comp_def, shifted]

theorem toLeBytes_separates (width : Nat) :
    ∀ m < 256 ^ width, ∀ n < 256 ^ width, toLeBytes width m = toLeBytes width n → m = n := by
  induction width with
  | zero =>
    intro m smallM n smallN _
    omega
  | succ width ih =>
    intro m smallM n smallN same
    rw [toLeBytes_succ, toLeBytes_succ, cons.injEq] at same
    rw [Nat.pow_succ] at smallM smallN
    have low : m % 256 = n % 256 := by
      have values := congrArg UInt8.toNat same.1
      rwa [UInt8.toNat_ofNat', UInt8.toNat_ofNat'] at values
    have high : m / 256 = n / 256 :=
      ih _ (Nat.div_lt_of_lt_mul (by omega)) _ (Nat.div_lt_of_lt_mul (by omega)) same.2
    omega

end Bytes

namespace EntityKind

/-- Every kind, in declaration order. -/
def all : List EntityKind :=
  [unknown, classKind, structKind, enumKind, interface, trait, traitImpl, inherentImpl, typeAlias,
    union, enumVariant, annotationKind, macroKind, function, method, constructor, accessor,
    destructor, operator, field, property, variableKind, constant, moduleKind, namespaceKind,
    package, importKind, require, includeKind, exportKind, styleRule, styleSelector,
    styleProperty, keyframe, element, attributeKind, expression, component, template, directive,
    controlFlow, animation, binding, action, atRule, eventHandler, scriptContent, styleContent,
    embeddedBlock, testSuite, testCase, testHook, assertion, mock]

variable (kind : EntityKind)

theorem mem_all : kind ∈ all := by
  cases kind <;> decide

theorem display_injective : Function.Injective display := by
  have distinct : (all.map display).Nodup := by decide +kernel
  intro a b same
  exact inj_on_of_nodup_map distinct (mem_all a) (mem_all b) same

theorem nulFree_display : '\x00' ∉ kind.display.toList := by
  have free : ∀ kind ∈ all, '\x00' ∉ kind.display.toList := by decide +kernel
  exact free kind (mem_all kind)

theorem length_asBytes_display : (asBytes kind.display).length ≤ 14 := by
  have short : ∀ kind ∈ all, (asBytes kind.display).length ≤ 14 := by decide +kernel
  exact short kind (mem_all kind)

end EntityKind

namespace StableSymbolKey

variable [Sha256]

omit [Sha256] in
theorem sortKey_inj {a b : StableSymbolKey} (pathA : '\x00' ∉ a.filePath.toList)
    (nameA : '\x00' ∉ a.scopedName.toList) (pathB : '\x00' ∉ b.filePath.toList)
    (nameB : '\x00' ∉ b.scopedName.toList) : a.sortKey = b.sortKey ↔ a = b := by
  constructor
  · intro same
    have letters := congrArg String.toList same
    have nul : ("\x00" : String).toList = ['\x00'] := rfl
    simp only [sortKey, String.toList_append, nul, append_assoc, singleton_append]
      at letters
    obtain ⟨paths, afterPath⟩ := (FieldEncoding.separated_inj pathA pathB).1 letters
    obtain ⟨names, afterName⟩ := (FieldEncoding.separated_inj nameA nameB).1 afterPath
    obtain ⟨kinds, discriminators⟩ := (FieldEncoding.separated_inj
      (EntityKind.nulFree_display _) (EntityKind.nulFree_display _)).1 afterName
    cases a
    cases b
    simp only [mk.injEq]
    exact ⟨String.toList_injective paths, String.toList_injective names,
      EntityKind.display_injective (String.toList_injective kinds),
      String.toList_injective discriminators⟩
  · rintro rfl
    rfl

theorem stableId_inj (injective : Function.Injective Sha256.hexDigest) {a b : StableSymbolKey}
    (pathA : (asBytes a.filePath).length < 256 ^ 8)
    (nameA : (asBytes a.scopedName).length < 256 ^ 8)
    (pathB : (asBytes b.filePath).length < 256 ^ 8)
    (nameB : (asBytes b.scopedName).length < 256 ^ 8) : a.stableId = b.stableId ↔ a = b := by
  constructor
  · intro same
    have letters := congrArg String.toList same
    simp only [stableId, String.toList_append] at letters
    have hashed := injective (String.toList_injective (append_cancel_left letters))
    simp only [append_assoc] at hashed
    have counted := append_cancel_left hashed
    simp only [← append_assoc (toLeBytes 8 _)] at counted
    have short : ∀ kind : EntityKind, (asBytes kind.display).length < 256 ^ 8 := fun kind =>
      Nat.lt_of_le_of_lt kind.length_asBytes_display (by decide)
    obtain ⟨paths, afterPath⟩ := (FieldEncoding.counted_inj (length_toLeBytes 8)
      (toLeBytes_separates 8) pathA pathB).1 counted
    obtain ⟨names, afterName⟩ := (FieldEncoding.counted_inj (length_toLeBytes 8)
      (toLeBytes_separates 8) nameA nameB).1 afterPath
    obtain ⟨kinds, afterKind⟩ := (FieldEncoding.counted_inj (length_toLeBytes 8)
      (toLeBytes_separates 8) (short a.kind) (short b.kind)).1 afterName
    have discriminators := (FieldEncoding.counted_last_inj (length_toLeBytes 8)).1 afterKind
    cases a
    cases b
    simp only [mk.injEq]
    exact ⟨asBytes_injective paths, asBytes_injective names,
      EntityKind.display_injective (asBytes_injective kinds), asBytes_injective discriminators⟩
  · rintro rfl
    rfl

theorem discriminator_inj (injective : Function.Injective Sha256.hexDigest) {kind : EntityKind}
    {cfgA cfgB ordinalA ordinalB : String} {startA startB endA endB : Nat} {foldSpan : Bool}
    (startsA : startA < 256 ^ 8) (endsA : endA < 256 ^ 8) (startsB : startB < 256 ^ 8)
    (endsB : endB < 256 ^ 8) :
    discriminator kind cfgA ordinalA startA endA foldSpan =
        discriminator kind cfgB ordinalB startB endB foldSpan ↔
      cfgA ++ ordinalA = cfgB ++ ordinalB ∧ (foldSpan = true → startA = startB ∧ endA = endB) := by
  have joined : ∀ (cfg ordinal : String) (span : List UInt8),
      asBytes kind.display ++ asBytes cfg ++ asBytes ordinal ++ span =
        asBytes kind.display ++ (asBytes (cfg ++ ordinal) ++ span) := by
    intro cfg ordinal span
    rw [asBytes_append, append_assoc, append_assoc, append_assoc]
  unfold discriminator
  rw [injective.eq_iff, joined, joined, append_cancel_left_eq]
  cases foldSpan with
  | false =>
    simp only [Bool.false_eq_true, if_false, append_nil, asBytes_injective.eq_iff,
      false_imp_iff, and_true]
  | true =>
    simp only [if_true, true_imp_iff]
    constructor
    · intro same
      obtain ⟨tags, spans⟩ := append_inj' same
        (by simp only [length_append, length_toLeBytes])
      obtain ⟨starts, ends⟩ := append_inj spans
        ((length_toLeBytes 8 _).trans (length_toLeBytes 8 _).symm)
      exact ⟨asBytes_injective tags, toLeBytes_separates 8 _ startsA _ startsB starts,
        toLeBytes_separates 8 _ endsA _ endsB ends⟩
    · rintro ⟨tags, rfl, rfl⟩
      rw [tags]

end StableSymbolKey

/-- What a live entity's stable key is built from. -/
structure SymbolSource where
  filePath : String
  scopedName : String
  entity : Entity

namespace SymbolSource

variable (source : SymbolSource)

def cfgPredicate : Option String :=
  source.entity.metadata.lookup MetaKeys.cfgPredicate

def siblingOrdinal : Option String :=
  source.entity.metadata.lookup MetaKeys.duplicateSiblingOrdinal

/-- Path and name are free of NUL, and byte counts and offsets are machine words. -/
structure Representable (source : SymbolSource) : Prop where
  path_nulFree : '\x00' ∉ source.filePath.toList
  name_nulFree : '\x00' ∉ source.scopedName.toList
  path_length : (asBytes (normalizeProjectPath source.filePath)).length < 2 ^ 64
  name_length : (asBytes source.scopedName).length < 2 ^ 64
  start_lt : source.entity.span.startByte < 2 ^ 64
  end_lt : source.entity.span.endByte < 2 ^ 64

/-- The two symbols differ in something that makes up a stable identity. -/
def Differs (a b : SymbolSource) : Prop :=
  normalizeProjectPath a.filePath ≠ normalizeProjectPath b.filePath ∨
    a.scopedName ≠ b.scopedName ∨ a.entity.kind ≠ b.entity.kind ∨
    a.cfgPredicate ≠ b.cfgPredicate ∨ a.siblingOrdinal ≠ b.siblingOrdinal ∨
    (a.entity.kind.isPositionScoped = true ∧
      (a.entity.span.startByte ≠ b.entity.span.startByte ∨
        a.entity.span.endByte ≠ b.entity.span.endByte))

/-- One place, name, kind and position, with tags that are different but run together into one
text. -/
structure TagsRunTogether (a b : SymbolSource) : Prop where
  path : normalizeProjectPath a.filePath = normalizeProjectPath b.filePath
  name : a.scopedName = b.scopedName
  kind : a.entity.kind = b.entity.kind
  span : a.entity.kind.isPositionScoped = true →
    a.entity.span.startByte = b.entity.span.startByte ∧
      a.entity.span.endByte = b.entity.span.endByte
  tags : a.cfgPredicate ≠ b.cfgPredicate ∨ a.siblingOrdinal ≠ b.siblingOrdinal
  joined : a.cfgPredicate.getD "" ++ a.siblingOrdinal.getD "" =
    b.cfgPredicate.getD "" ++ b.siblingOrdinal.getD ""

variable [Sha256]

def key : StableSymbolKey :=
  StableSymbolKey.forEntity source.filePath source.scopedName source.entity

theorem nulFree_key_filePath {source : SymbolSource} (ok : source.Representable) :
    '\x00' ∉ source.key.filePath.toList := by
  intro mem
  rcases mem_normalizeProjectPath mem with separator | inPath
  · exact absurd separator (by decide)
  · exact ok.path_nulFree inPath

theorem key_eq_iff (injective : Function.Injective Sha256.hexDigest) {a b : SymbolSource}
    (okA : a.Representable) (okB : b.Representable) :
    a.key = b.key ↔ normalizeProjectPath a.filePath = normalizeProjectPath b.filePath ∧
        a.scopedName = b.scopedName ∧ a.entity.kind = b.entity.kind ∧
        a.cfgPredicate.getD "" ++ a.siblingOrdinal.getD "" =
          b.cfgPredicate.getD "" ++ b.siblingOrdinal.getD "" ∧
        (a.entity.kind.isPositionScoped = true → a.entity.span.startByte = b.entity.span.startByte ∧
            a.entity.span.endByte = b.entity.span.endByte) := by
  have bounds : (2 : Nat) ^ 64 = 256 ^ 8 := by decide
  have startA := bounds ▸ okA.start_lt
  have endA := bounds ▸ okA.end_lt
  have startB := bounds ▸ okB.start_lt
  have endB := bounds ▸ okB.end_lt
  simp only [key, StableSymbolKey.forEntity, StableSymbolKey.mk.injEq]
  refine and_congr_right fun _ => and_congr_right fun _ => and_congr_right fun kinds => ?_
  rw [← kinds]
  exact StableSymbolKey.discriminator_inj injective startA endA startB endB

/-- Symbols that differ have different keys, and different keys different renderings, except
when their tags run together. -/
theorem keys_separate_iff (injective : Function.Injective Sha256.hexDigest) {a b : SymbolSource}
    (okA : a.Representable) (okB : b.Representable) :
    ((a.Differs b → a.key ≠ b.key) ∧
        (a.key ≠ b.key → a.key.sortKey ≠ b.key.sortKey ∧ a.key.stableId ≠ b.key.stableId)) ↔
      ¬ a.TagsRunTogether b := by
  have bounds : (2 : Nat) ^ 64 = 256 ^ 8 := by decide
  have sortKeys := StableSymbolKey.sortKey_inj (nulFree_key_filePath okA) okA.name_nulFree
    (nulFree_key_filePath okB) okB.name_nulFree
  have stableIds := StableSymbolKey.stableId_inj injective (a := a.key) (b := b.key)
    (bounds ▸ okA.path_length) (bounds ▸ okA.name_length) (bounds ▸ okB.path_length)
    (bounds ▸ okB.name_length)
  have keys := key_eq_iff injective okA okB
  constructor
  · rintro ⟨separated, -⟩ together
    refine separated (together.tags.elim (fun cfg => ?_) fun ordinal => ?_)
      (keys.2 ⟨together.path, together.name, together.kind, together.joined, together.span⟩)
    · exact Or.inr (Or.inr (Or.inr (Or.inl cfg)))
    · exact Or.inr (Or.inr (Or.inr (Or.inr (Or.inl ordinal))))
  · intro apart
    refine ⟨fun differs same => ?_, fun keysDiffer =>
      ⟨mt sortKeys.1 keysDiffer, mt stableIds.1 keysDiffer⟩⟩
    obtain ⟨path, name, kind, joined, span⟩ := keys.1 same
    have together : a.cfgPredicate ≠ b.cfgPredicate ∨ a.siblingOrdinal ≠ b.siblingOrdinal →
        False := fun tags => apart ⟨path, name, kind, span, tags, joined⟩
    rcases differs with pathNe | nameNe | kindNe | cfgNe | ordinalNe | ⟨positional, startNe | endNe⟩
    · exact pathNe path
    · exact nameNe name
    · exact kindNe kind
    · exact together (Or.inl cfgNe)
    · exact together (Or.inr ordinalNe)
    · exact startNe (span positional).1
    · exact endNe (span positional).2

end SymbolSource

/-- A digest that keeps its input, for evaluation. -/
@[reducible] def keptDigest : Sha256 where
  hexDigest bytes := String.ofList (bytes.map Char.ofUInt8)

theorem keptDigest_injective : Function.Injective keptDigest.hexDigest := by
  have letters : Function.Injective Char.ofUInt8 := fun a b same =>
    UInt8.toUInt32_inj.1 (congrArg Char.val same)
  intro a b same
  exact map_injective_iff.2 letters (String.ofList_injective same)

def taggedFunction (cfgPredicate ordinal : String) : SymbolSource where
  filePath := "lib.rs"
  scopedName := "f"
  entity :=
    { Entity.new 1 EntityKind.function "f" default with
      metadata := ((∅ : HashMap String String).insert MetaKeys.cfgPredicate cfgPredicate).insert
        MetaKeys.duplicateSiblingOrdinal ordinal }

theorem representable_taggedFunction (cfgPredicate ordinal : String) :
    (taggedFunction cfgPredicate ordinal).Representable where
  path_nulFree := by show '\x00' ∉ ("lib.rs" : String).toList; decide
  name_nulFree := by show '\x00' ∉ ("f" : String).toList; decide
  path_length := by
    show (asBytes (normalizeProjectPath "lib.rs")).length < 2 ^ 64
    decide +kernel
  name_length := by show (asBytes "f").length < 2 ^ 64; decide
  start_lt := by show 0 < 2 ^ 64; decide
  end_lt := by show 0 < 2 ^ 64; decide

section Evaluation

attribute [local instance] keptDigest

/-- The first and the eleventh `f` of a file, under predicates that differ in a comment. -/
theorem commentedPredicates_shareKey :
    Function.Injective Sha256.hexDigest ∧
      (taggedFunction "cfg(unix) // v1" "0").Representable ∧
      (taggedFunction "cfg(unix) // v" "10").Representable ∧
      (taggedFunction "cfg(unix) // v1" "0").Differs (taggedFunction "cfg(unix) // v" "10") ∧
      (taggedFunction "cfg(unix) // v1" "0").key = (taggedFunction "cfg(unix) // v" "10").key := by
  refine ⟨keptDigest_injective, representable_taggedFunction _ _,
    representable_taggedFunction _ _, ?_, ?_⟩
  · exact Or.inr (Or.inr (Or.inr (Or.inl (by decide))))
  · decide +kernel

theorem plainPredicates_separated :
    ((taggedFunction "cfg(unix)" "0").Differs (taggedFunction "cfg(windows)" "1") →
        (taggedFunction "cfg(unix)" "0").key ≠ (taggedFunction "cfg(windows)" "1").key) ∧
      ((taggedFunction "cfg(unix)" "0").key ≠ (taggedFunction "cfg(windows)" "1").key →
        (taggedFunction "cfg(unix)" "0").key.sortKey ≠
            (taggedFunction "cfg(windows)" "1").key.sortKey ∧
          (taggedFunction "cfg(unix)" "0").key.stableId ≠
            (taggedFunction "cfg(windows)" "1").key.stableId) := by
  have apart : ¬ (taggedFunction "cfg(unix)" "0").TagsRunTogether
      (taggedFunction "cfg(windows)" "1") := fun together =>
    absurd together.joined (by decide +kernel)
  exact (SymbolSource.keys_separate_iff keptDigest_injective (representable_taggedFunction _ _)
    (representable_taggedFunction _ _)).2 apart

end Evaluation

end ContextEngine

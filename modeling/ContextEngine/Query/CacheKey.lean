/- digest: Which search requests the keys of the result cache tell apart. -/

import Mathlib.Data.Nat.Digits.Defs
import Mathlib.Tactic.Cases
import ContextEngine.Chunking.ChunkedResult
import ContextEngine.Lib.Encoding
import ContextEngine.Types.Canonical

set_option autoImplicit false

namespace ContextEngine.DebugForm

open List Encoding

def backslash : Char := Char.ofNat 92

def quotationMark : Char := Char.ofNat 34

def closingBrace : Char := Char.ofNat 125

def shortEscape (c : Char) : Option Char :=
  if c = Char.ofNat 0 then some '0'
  else if c = Char.ofNat 9 then some 't'
  else if c = Char.ofNat 13 then some 'r'
  else if c = Char.ofNat 10 then some 'n'
  else if c = quotationMark then some quotationMark
  else if c = backslash then some backslash
  else none

def hexDigits (c : Char) : List Char := (Nat.digits 16 c.toNat).reverse.map Nat.digitChar

/-- `escape_debug` of a character of a string. -/
def escapeDebug (printable : Char → Bool) (c : Char) : List Char :=
  match shortEscape c with
  | some letter => [backslash, letter]
  | none =>
    if printable c then [c]
    else [backslash, 'u', Char.ofNat 123] ++ (hexDigits c ++ [closingBrace])

/-- The characters of a string and the closing quote. -/
def escapedChars (printable : Char → Bool) : List Char → List Char
  | [] => [quotationMark]
  | c :: rest => escapeDebug printable c ++ escapedChars printable rest

def debugStr (printable : Char → Bool) (text : String) : List Char :=
  quotationMark :: escapedChars printable text.toList

/-- The character a short escape stands for. -/
def ofLetter (letter : Char) : Char :=
  if letter = '0' then Char.ofNat 0
  else if letter = 't' then Char.ofNat 9
  else if letter = 'r' then Char.ofNat 13
  else if letter = 'n' then Char.ofNat 10
  else letter

theorem ofLetter_of_shortEscape {c letter : Char} (escaped : shortEscape c = some letter) :
    ofLetter letter = c := by
  unfold shortEscape at escaped
  split_ifs at escaped with h h h h h h
  all_goals
    cases escaped
    subst h
    decide

theorem shortEscape_injective {a b letter : Char} (first : shortEscape a = some letter)
    (second : shortEscape b = some letter) : a = b :=
  (ofLetter_of_shortEscape first).symm.trans (ofLetter_of_shortEscape second)

theorem shortEscape_ne_u {c : Char} : shortEscape c ≠ some 'u' := by
  unfold shortEscape
  split_ifs <;> decide

theorem plain_of_shortEscape {c : Char} (plain : shortEscape c = none) :
    c ≠ backslash ∧ c ≠ quotationMark := by
  unfold shortEscape at plain
  split_ifs at plain with _ _ _ _ quote_ slash
  exact ⟨slash, quote_⟩

def hexValue (c : Char) : Nat := if c.toNat < 58 then c.toNat - 48 else c.toNat - 87

theorem hexValue_hexDigits (c : Char) :
    (hexDigits c).map hexValue = (Nat.digits 16 c.toNat).reverse := by
  have value : ∀ d < 16, hexValue (Nat.digitChar d) = d := by decide
  have small : ∀ d ∈ (Nat.digits 16 c.toNat).reverse, d < 16 := fun d mem =>
    Nat.digits_lt_base (by decide) (mem_reverse.1 mem)
  rw [hexDigits, map_map]
  exact (map_congr_left fun d mem => value d (small d mem)).trans (map_id _)

theorem hexDigits_injective : Function.Injective hexDigits := by
  intro a b same
  have digits := congrArg (map hexValue) same
  rw [hexValue_hexDigits, hexValue_hexDigits] at digits
  have codes := Nat.digits_inj_iff.1 (reverse_injective digits)
  exact Char.toNat_inj.1 codes

theorem closingBrace_notMem_hexDigits (c : Char) : closingBrace ∉ hexDigits c := by
  intro mem
  obtain ⟨d, listed, same⟩ := mem_map.1 mem
  have small : d < 16 := Nat.digits_lt_base (by decide) (mem_reverse.1 listed)
  have check : ∀ d < 16, Nat.digitChar d ≠ closingBrace := by decide
  exact check d small same

variable (printable : Char → Bool)

theorem selfDelimiting_escapeDebug :
    SelfDelimiting (escapeDebug printable) := by
  have hex : SelfDelimiting fun c => hexDigits c ++ [closingBrace] :=
    selfDelimiting_until hexDigits_injective closingBrace_notMem_hexDigits
  intro a b s t same
  unfold escapeDebug at same
  cases first : shortEscape a with
  | some letter =>
    rw [first] at same
    cases second : shortEscape b with
    | some other =>
      rw [second] at same
      obtain ⟨-, tail⟩ := cons.inj same
      obtain ⟨rfl, rest⟩ := cons.inj tail
      exact ⟨shortEscape_injective first second, rest⟩
    | none =>
      rw [second] at same
      simp only at same
      split_ifs at same
      · exact absurd (cons.inj same).1.symm (plain_of_shortEscape second).1
      · obtain ⟨-, tail⟩ := cons.inj same
        exact absurd (first.trans (congrArg some (cons.inj tail).1)) shortEscape_ne_u
  | none =>
    rw [first] at same
    cases second : shortEscape b with
    | some other =>
      rw [second] at same
      simp only at same
      split_ifs at same
      · exact absurd (cons.inj same).1 (plain_of_shortEscape first).1
      · obtain ⟨-, tail⟩ := cons.inj same
        exact absurd (second.trans (congrArg some (cons.inj tail).1.symm)) shortEscape_ne_u
    | none =>
      rw [second] at same
      simp only at same
      split_ifs at same
      · exact ⟨(cons.inj same).1, (cons.inj same).2⟩
      · exact absurd (cons.inj same).1 (plain_of_shortEscape first).1
      · exact absurd (cons.inj same).1.symm (plain_of_shortEscape second).1
      · exact hex a b s t (append_cancel_left
          ((append_assoc _ _ s).symm.trans (same.trans (append_assoc _ _ t))))

theorem escapeDebug_ne_quotationMark (c : Char) (s t : List Char) :
    escapeDebug printable c ++ s ≠ quotationMark :: t := by
  intro same
  unfold escapeDebug at same
  cases short : shortEscape c with
  | some letter =>
    rw [short] at same
    exact absurd (cons.inj same).1 (by decide)
  | none =>
    rw [short] at same
    simp only at same
    split_ifs at same
    · exact (plain_of_shortEscape short).2 (cons.inj same).1
    · exact absurd (cons.inj same).1 (by decide)

theorem selfDelimiting_escapedChars :
    SelfDelimiting (escapedChars printable) := by
  intro l
  induction l with
  | nil =>
    rintro (_ | ⟨d, r⟩) s t same
    · exact ⟨rfl, (cons.inj same).2⟩
    · have same : [quotationMark] ++ s =
          (escapeDebug printable d ++ escapedChars printable r) ++ t := same
      rw [append_assoc] at same
      exact absurd same.symm (escapeDebug_ne_quotationMark printable d _ _)
  | cons c l ih =>
    rintro (_ | ⟨d, r⟩) s t same
    · have same : (escapeDebug printable c ++ escapedChars printable l) ++ s =
          [quotationMark] ++ t := same
      rw [append_assoc] at same
      exact absurd same (escapeDebug_ne_quotationMark printable c _ _)
    · have same : (escapeDebug printable c ++ escapedChars printable l) ++ s =
          (escapeDebug printable d ++ escapedChars printable r) ++ t := same
      rw [append_assoc, append_assoc] at same
      obtain ⟨rfl, later⟩ := selfDelimiting_escapeDebug printable c d _ _ same
      obtain ⟨rfl, rest⟩ := ih r s t later
      exact ⟨rfl, rest⟩

theorem selfDelimiting_debugStr : SelfDelimiting (debugStr printable) :=
  ((selfDelimiting_escapedChars printable).comp fun _ _ same => String.toList_inj.1 same).literal
    [quotationMark]

section Compound

variable {α : Type} {f : α → List Char}

def debugOption (f : α → List Char) : Option α → List Char :=
  optional (fun a => "ome(".toList ++ (f a ++ [')'])) ('N' :: "one".toList) 'S'

theorem selfDelimiting_debugOption (delimits : SelfDelimiting f) :
    SelfDelimiting (debugOption f) :=
  ((delimits.closed [')']).literal "ome(".toList).optional "one".toList (by decide)

/-- `<[T] as Debug>::fmt`. -/
def debugList (f : α → List Char) : List α → List Char
  | [] => ['[', ']']
  | a :: rest => '[' :: (f a ++ marked (fun b => ' ' :: f b) ',' ']' rest)

theorem selfDelimiting_debugList (delimits : SelfDelimiting f)
    (opens : ∀ a s t, f a ++ s ≠ ']' :: t) : SelfDelimiting (debugList f) := by
  have items : SelfDelimiting fun p : α × List α =>
      f p.1 ++ marked (fun b => [' '] ++ f b) ',' ']' p.2 :=
    delimits.pair ((delimits.literal [' ']).marked (by decide))
  rintro (_ | ⟨a, l⟩) (_ | ⟨b, r⟩) s t same
  · exact ⟨rfl, List.append_cancel_left same⟩
  · have tail : [']'] ++ s = (f b ++ marked (fun b => ' ' :: f b) ',' ']' r) ++ t :=
      (List.cons.inj same).2
    rw [List.append_assoc] at tail
    exact absurd tail.symm (opens b _ _)
  · have tail : (f a ++ marked (fun b => ' ' :: f b) ',' ']' l) ++ s = [']'] ++ t :=
      (List.cons.inj same).2
    rw [List.append_assoc] at tail
    exact absurd tail (opens a _ _)
  · obtain ⟨equal, rest⟩ := items (a, l) (b, r) s t (List.cons.inj same).2
    cases equal
    exact ⟨rfl, rest⟩

end Compound

end ContextEngine.DebugForm

namespace ContextEngine.Requests

open List Encoding DebugForm

section Request

inductive QueryIntent
  | semantic | keyword | hybrid | entity
  deriving DecidableEq

inductive ExcludableContentType
  | test | generated | dependency
  deriving DecidableEq

structure SearchSources where
  vector : Bool := true
  bm25 : Bool := true
  deriving DecidableEq

/-- A setting; `absent` is an optional one that is not given. -/
inductive ConfigLeaf
  | flag (value : Bool)
  | whole (value : Int)
  | text (value : String)
  | float (bits : UInt32)
  | absent
  deriving DecidableEq

/-- The result limit and the other settings, each under its path. The root that annotation checks
files under is set at run time and is never written. -/
structure SearchConfig where
  resultLimit : Nat
  settings : List (String × ConfigLeaf) := []
  workspaceRoot : Option String := none
  deriving DecidableEq

structure QueryFilter where
  ownEpoch : Int
  parentEpoch : Option Int := none
  excludedFiles : List String := []
  deriving DecidableEq

structure ExpansionPathFilter where
  directoryPrefix : Option String := none
  excludeContentTypes : List ExcludableContentType := []
  includeCategories : List FileCategory := []
  excludeCategories : List FileCategory := []
  includePatterns : List String := []
  excludePatterns : List String := []
  deriving DecidableEq

structure ExpansionScoring where
  enable : Bool := true
  queryBonus : Bool := true
  faninBonus : Bool := true
  deriving DecidableEq

structure ExpansionShaping where
  maxSeeds : Nat := 4
  contextLines : Nat := 1
  maxUnitTokens : Nat := 512
  deriving DecidableEq

/-- What the expansion of a hit reads; the searcher answers from one relation snapshot. -/
structure NeighbourResolver (Snapshot : Type) where
  searcher : Snapshot
  projectRoot : String
  pathFilter : ExpansionPathFilter := {}
  domains : List String := ["call"]
  queryTerms : List String := []
  scoring : ExpansionScoring := {}
  shaping : ExpansionShaping := {}
  deriving DecidableEq

structure QueryOptions (Snapshot : Type) where
  query : String
  projectId : Int
  sources : SearchSources := {}
  config : SearchConfig
  queryIntent : Option QueryIntent := none
  directoryPrefix : Option String := none
  excludeContentTypes : List ExcludableContentType := []
  includeCategories : List FileCategory := []
  excludeCategories : List FileCategory := []
  excludePatterns : List String := []
  includePatterns : List String := []
  withSource : Bool := false
  enableRerank : Option Bool := none
  enableResultFilter : Option Bool := none
  neighbourResolver : Option (NeighbourResolver Snapshot) := none
  deriving DecidableEq

structure SubQuery where
  text : String
  sources : SearchSources := {}
  weight : UInt32
  deriving DecidableEq

structure FilterOptions where
  directoryPrefix : Option String := none
  excludeContentTypes : List ExcludableContentType := []
  includeCategories : List FileCategory := []
  excludeCategories : List FileCategory := []
  deriving DecidableEq

structure AggregatedQueryOptions (Snapshot : Type) where
  projectId : Int
  subQueries : List SubQuery := []
  globalConfig : SearchConfig
  filters : Option FilterOptions := none
  excludePatterns : List String := []
  includePatterns : List String := []
  enableRerank : Option Bool := none
  enableResultFilter : Option Bool := none
  queryIntent : Option QueryIntent := none
  neighbourResolver : Option (NeighbourResolver Snapshot) := none
  deriving DecidableEq

/-- What a search coordinator is asked, with the epoch view it is answered under. -/
inductive SearchRequest (Snapshot : Type)
  | single (options : QueryOptions Snapshot) (view : QueryFilter)
  | aggregated (agg : AggregatedQueryOptions Snapshot) (view : QueryFilter)
  deriving DecidableEq

end Request

section Configuration

/-- A number without an infinity or a NaN, as its bits show. -/
def finiteBits (bits : UInt32) : Bool := bits.toNat / 8388608 % 256 ≠ 255

inductive JsonLeaf
  | null
  | flag (value : Bool)
  | whole (value : Int)
  | text (value : String)
  | float (bits : UInt32)
  deriving DecidableEq

def ConfigLeaf.toJson : ConfigLeaf → JsonLeaf
  | .flag value => .flag value
  | .whole value => .whole value
  | .text value => .text value
  -- JSON has no number for it
  | .float bits => if finiteBits bits then .float bits else .null
  | .absent => .null

/-- A setting that JSON shows as null. -/
def ConfigLeaf.nullLike : ConfigLeaf → Bool
  | .float bits => !finiteBits bits
  | .absent => true
  | _ => false

/-- Equal, or both without a JSON value. -/
def ConfigLeaf.Alike (a b : ConfigLeaf) : Prop := a = b ∨ (a.nullLike ∧ b.nullLike)

theorem ConfigLeaf.toJson_of_nullLike {a : ConfigLeaf} (null : a.nullLike) : a.toJson = .null := by
  cases a with
  | float bits =>
    show (if finiteBits bits then JsonLeaf.float bits else .null) = .null
    cases finite : finiteBits bits with
    | true =>
      have nonfinite : (!finiteBits bits) = true := null
      rw [finite] at nonfinite
      cases nonfinite
    | false => rfl
  | absent => rfl
  | flag | whole | text => cases null

def JsonLeaf.toConfig : JsonLeaf → ConfigLeaf
  | .null => .absent
  | .flag value => .flag value
  | .whole value => .whole value
  | .text value => .text value
  | .float bits => .float bits

theorem ConfigLeaf.toConfig_toJson {a : ConfigLeaf} (value : ¬ a.nullLike) :
    a.toJson.toConfig = a ∧ a.toJson ≠ .null := by
  cases a with
  | float bits =>
    show (if finiteBits bits then JsonLeaf.float bits else .null).toConfig = .float bits ∧
      (if finiteBits bits then JsonLeaf.float bits else .null) ≠ .null
    cases finite : finiteBits bits with
    | true => exact ⟨rfl, nofun⟩
    | false =>
      have solid : ¬ (!finiteBits bits) = true := value
      rw [finite] at solid
      exact absurd rfl solid
  | absent => exact absurd rfl value
  | flag | whole | text => exact ⟨rfl, nofun⟩

theorem ConfigLeaf.toJson_eq_iff (a b : ConfigLeaf) : a.toJson = b.toJson ↔ a.Alike b := by
  constructor
  · intro same
    by_cases first : a.nullLike <;> by_cases second : b.nullLike
    · exact Or.inr ⟨first, second⟩
    · exact absurd (same.symm.trans (toJson_of_nullLike first)) (toConfig_toJson second).2
    · exact absurd (same.trans (toJson_of_nullLike second)) (toConfig_toJson first).2
    · left
      rw [← (toConfig_toJson first).1, same, (toConfig_toJson second).1]
  · rintro (rfl | ⟨first, second⟩)
    · rfl
    · rw [toJson_of_nullLike first, toJson_of_nullLike second]

def SearchConfig.json (config : SearchConfig) : List (String × JsonLeaf) :=
  ("result.limit", .whole config.resultLimit) :: config.settings.map (Prod.map id ConfigLeaf.toJson)

/-- The same settings, up to those without a JSON value and the workspace root. -/
def SearchConfig.Alike (a b : SearchConfig) : Prop :=
  a.resultLimit = b.resultLimit ∧
    List.Forall₂ (fun x y => x.1 = y.1 ∧ x.2.Alike y.2) a.settings b.settings

theorem SearchConfig.json_eq_iff (a b : SearchConfig) : a.json = b.json ↔ a.Alike b := by
  have leaves : ∀ l r : List (String × ConfigLeaf),
      l.map (Prod.map id ConfigLeaf.toJson) = r.map (Prod.map id ConfigLeaf.toJson) ↔
        List.Forall₂ (fun x y => x.1 = y.1 ∧ x.2.Alike y.2) l r := by
    intro l
    induction l with
    | nil => intro r; cases r <;> simp
    | cons x l ih =>
      rintro (_ | ⟨y, r⟩)
      · simp
      · rw [map_cons, map_cons, cons.injEq, forall₂_cons, ih,
          Prod.ext_iff, Prod.map_fst, Prod.map_fst, Prod.map_snd, Prod.map_snd,
          ConfigLeaf.toJson_eq_iff]
        exact Iff.rfl
  unfold SearchConfig.json SearchConfig.Alike
  rw [cons.injEq, leaves, Prod.mk.injEq, JsonLeaf.whole.injEq, Int.natCast_inj]
  simp

end Configuration

section Hashing

/-- One value written to a hasher. -/
inductive Fed
  | int (value : Int)
  | size (value : Nat)
  | text (value : String)
  | variant (discriminant : Nat)
  | flag (value : Bool)
  | bits (value : UInt32)
  | json (value : List (String × JsonLeaf))
  | digest (fed : List Fed)

/-- The result of a hasher: what was fed to it. -/
abbrev Digest := List Fed

def QueryIntent.discriminant : QueryIntent → Nat
  | .semantic => 0
  | .keyword => 1
  | .hybrid => 2
  | .entity => 3

def ExcludableContentType.discriminant : ExcludableContentType → Nat
  | .test => 0
  | .generated => 1
  | .dependency => 2

def categoryDiscriminant : FileCategory → Nat
  | .code => 0
  | .config => 1
  | .documentation => 2
  | .schema => 3
  | .other => 4

def hashInt (value : Int) : List Fed := [.int value]

def hashText (value : String) : List Fed := [.text value]

def hashFlag (value : Bool) : List Fed := [.flag value]

def hashIntent (value : QueryIntent) : List Fed := [.variant value.discriminant]

def hashContentType (value : ExcludableContentType) : List Fed := [.variant value.discriminant]

def hashCategory (value : FileCategory) : List Fed := [.variant (categoryDiscriminant value)]

def hashOption {α : Type} (f : α → List Fed) : Option α → List Fed :=
  optional f [.variant 0] (.variant 1)

def hashVec {α : Type} (f : α → List Fed) : List α → List Fed := counted f .size

theorem selfDelimiting_hashInt : SelfDelimiting hashInt :=
  selfDelimiting_single fun _ _ same => Fed.int.inj same

theorem selfDelimiting_hashText : SelfDelimiting hashText :=
  selfDelimiting_single fun _ _ same => Fed.text.inj same

theorem selfDelimiting_hashFlag : SelfDelimiting hashFlag :=
  selfDelimiting_single fun _ _ same => Fed.flag.inj same

theorem selfDelimiting_hashIntent : SelfDelimiting hashIntent :=
  selfDelimiting_single fun a b same => by
    revert same
    cases a <;> cases b <;> simp [QueryIntent.discriminant]

theorem selfDelimiting_hashContentType : SelfDelimiting hashContentType :=
  selfDelimiting_single fun a b same => by
    revert same
    cases a <;> cases b <;> simp [ExcludableContentType.discriminant]

theorem selfDelimiting_hashCategory : SelfDelimiting hashCategory :=
  selfDelimiting_single fun a b same => by
    revert same
    cases a <;> cases b <;> simp [categoryDiscriminant]

theorem selfDelimiting_hashOption {α : Type} {f : α → List Fed} (delimits : SelfDelimiting f) :
    SelfDelimiting (hashOption f) :=
  delimits.optional [] (by simp)

theorem selfDelimiting_hashVec {α : Type} {f : α → List Fed} (delimits : SelfDelimiting f) :
    SelfDelimiting (hashVec f) :=
  delimits.counted fun _ _ same => Fed.size.inj same

end Hashing

section FilterText

variable (printable : Char → Bool)

def debugContentType : ExcludableContentType → List Char
  | .test => "Test".toList
  | .generated => "Generated".toList
  | .dependency => "Dependency".toList

def debugCategory : FileCategory → List Char
  | .code => "Code".toList
  | .config => "Config".toList
  | .documentation => "Documentation".toList
  | .schema => "Schema".toList
  | .other => "Other".toList

def debugFilterOptions (filters : FilterOptions) : List Char :=
  (openingText ++ debugOption (debugStr printable) filters.directoryPrefix) ++
    ((", exclude_content_types: ".toList ++
        debugList debugContentType filters.excludeContentTypes) ++
      ((", include_categories: ".toList ++ debugList debugCategory filters.includeCategories) ++
        ((", exclude_categories: ".toList ++ debugList debugCategory filters.excludeCategories) ++
          [' ', closingBrace])))
where
  openingText := "FilterOptions ".toList ++ Char.ofNat 123 :: " directory_prefix: ".toList

theorem selfDelimiting_debugContentType : SelfDelimiting debugContentType :=
  selfDelimiting_of_prefixFree fun a b => by cases a <;> cases b <;> decide

theorem selfDelimiting_debugCategory : SelfDelimiting debugCategory :=
  selfDelimiting_of_prefixFree fun a b => by cases a <;> cases b <;> decide

theorem debugContentType_opens (a : ExcludableContentType) (s t : List Char) :
    debugContentType a ++ s ≠ ']' :: t := by
  intro same
  cases a <;> exact absurd (List.cons.inj same).1 (by decide)

theorem debugCategory_opens (a : FileCategory) (s t : List Char) :
    debugCategory a ++ s ≠ ']' :: t := by
  intro same
  cases a <;> exact absurd (List.cons.inj same).1 (by decide)

theorem selfDelimiting_debugFilterOptions : SelfDelimiting (debugFilterOptions printable) := by
  have types := selfDelimiting_debugList selfDelimiting_debugContentType debugContentType_opens
  have categories := selfDelimiting_debugList selfDelimiting_debugCategory debugCategory_opens
  have directory := selfDelimiting_debugOption (selfDelimiting_debugStr printable)
  have fields := (directory.literal debugFilterOptions.openingText).pair
    ((types.literal ", exclude_content_types: ".toList).pair
      ((categories.literal ", include_categories: ".toList).pair
        ((categories.literal ", exclude_categories: ".toList).closed [' ', closingBrace])))
  have record : Function.Injective fun filters : FilterOptions =>
      (filters.directoryPrefix, filters.excludeContentTypes, filters.includeCategories,
        filters.excludeCategories) := by
    rintro ⟨_, _, _, _⟩ ⟨_, _, _, _⟩ same
    simpa using same
  exact fields.comp record

def filtersText (filters : Option FilterOptions) : String :=
  String.ofList (debugOption (debugFilterOptions printable) filters)

theorem filtersText_injective : Function.Injective (filtersText printable) := by
  intro a b same
  have chars := congrArg String.toList same
  rw [filtersText, filtersText, String.toList_ofList, String.toList_ofList] at chars
  exact (selfDelimiting_debugOption (selfDelimiting_debugFilterOptions printable)).injective chars

end FilterText

section Keys

variable {Snapshot : Type}

structure CacheKey where
  projectId : Int
  epoch : Int
  parentEpoch : Int
  excludedHash : Digest
  queryHash : Digest
  sourcesHash : Digest
  /-- `none` is the constant of the aggregated keys. -/
  filtersHash : Option Digest
  expansion : Bool
  limit : Nat
  configHash : Digest

def configFingerprint (config : SearchConfig) : Digest := [.json config.json]

def hashSources (sources : SearchSources) : List Fed :=
  hashFlag sources.vector ++ hashFlag sources.bm25

/-- The epoch view as both key builders feed it. -/
def hashView (projectId : Int) (view : QueryFilter) : List Fed :=
  hashInt projectId ++ (hashInt view.ownEpoch ++
    (hashOption hashInt view.parentEpoch ++ hashVec hashText view.excludedFiles))

variable (options : QueryOptions Snapshot)

def hashFilters : List Fed :=
  hashOption hashText options.directoryPrefix ++
    (hashVec hashContentType options.excludeContentTypes ++
      (hashVec hashCategory options.includeCategories ++
        (hashVec hashCategory options.excludeCategories ++
          (hashVec hashText options.excludePatterns ++ hashVec hashText options.includePatterns))))

def hashToggles : List Fed :=
  hashOption hashIntent options.queryIntent ++ (hashOption hashFlag options.enableRerank ++
    (hashOption hashFlag options.enableResultFilter ++ hashFlag options.withSource))

def CacheKey.fromOptionsWithView (view : QueryFilter) :
    CacheKey where
  projectId := options.projectId
  epoch := view.ownEpoch
  parentEpoch := view.parentEpoch.getD (-1)
  excludedHash := hashView options.projectId view
  queryHash := hashText options.query
  sourcesHash := [.digest (hashSources options.sources), .digest (hashToggles options)]
  filtersHash := some (hashFilters options)
  expansion := options.neighbourResolver.isSome
  limit := options.config.resultLimit
  configHash := configFingerprint options.config

def hashSubQuery (sub : SubQuery) : List Fed :=
  hashText sub.text ++ (hashSources sub.sources ++ [.bits sub.weight])

def hashAggregatedQuery (printable : Char → Bool) (agg : AggregatedQueryOptions Snapshot) :
    List Fed :=
  agg.subQueries.flatMap hashSubQuery ++ (hashText (filtersText printable agg.filters) ++
    (hashVec hashText agg.excludePatterns ++ hashVec hashText agg.includePatterns))

def hashAggregatedToggles (agg : AggregatedQueryOptions Snapshot) : List Fed :=
  hashOption hashFlag agg.enableRerank ++ (hashOption hashFlag agg.enableResultFilter ++
    (hashOption hashIntent agg.queryIntent ++ hashFlag agg.neighbourResolver.isSome))

/-- `CacheKey::for_aggregated`, for the project of the options. -/
def CacheKey.forAggregated (printable : Char → Bool) (agg : AggregatedQueryOptions Snapshot)
    (view : QueryFilter) : CacheKey where
  projectId := agg.projectId
  epoch := view.ownEpoch
  parentEpoch := view.parentEpoch.getD (-1)
  excludedHash := hashView agg.projectId view
  queryHash := hashAggregatedQuery printable agg
  sourcesHash := hashAggregatedToggles agg
  filtersHash := none
  expansion := agg.neighbourResolver.isSome
  limit := agg.globalConfig.resultLimit
  configHash := configFingerprint agg.globalConfig

/-- The key under which a search coordinator looks a request up. -/
def SearchRequest.key (printable : Char → Bool) : SearchRequest Snapshot → CacheKey
  | .single options view => .fromOptionsWithView options view
  | .aggregated agg view => .forAggregated printable agg view

end Keys

section Separation

variable {Snapshot : Type}

/-- Two resolvers, or none twice. -/
def SamePresence (a b : Option (NeighbourResolver Snapshot)) : Prop := a.isSome = b.isSome

/-- The options differ in nothing but the settings without a JSON value, the workspace root and what
    is inside the neighbour resolver. -/
def QueryOptions.Alike (a b : QueryOptions Snapshot) : Prop :=
  { a with config := b.config, neighbourResolver := b.neighbourResolver } = b ∧
    a.config.Alike b.config ∧ SamePresence a.neighbourResolver b.neighbourResolver

@[inherit_doc QueryOptions.Alike]
def AggregatedQueryOptions.Alike (a b : AggregatedQueryOptions Snapshot) : Prop :=
  { a with globalConfig := b.globalConfig, neighbourResolver := b.neighbourResolver } = b ∧
    a.globalConfig.Alike b.globalConfig ∧ SamePresence a.neighbourResolver b.neighbourResolver

/-- Two requests of one kind and view whose options are alike. -/
inductive SearchRequest.Alike : SearchRequest Snapshot → SearchRequest Snapshot → Prop
  | single {a b : QueryOptions Snapshot} (options : a.Alike b) (view : QueryFilter) :
      Alike (.single a view) (.single b view)
  | aggregated {a b : AggregatedQueryOptions Snapshot} (options : a.Alike b)
      (view : QueryFilter) : Alike (.aggregated a view) (.aggregated b view)

theorem configFingerprint_eq_iff (a b : SearchConfig) :
    configFingerprint a = configFingerprint b ↔ a.Alike b := by
  rw [← SearchConfig.json_eq_iff, configFingerprint, configFingerprint, cons.injEq, Fed.json.injEq]
  exact and_iff_left rfl

variable {v w : QueryFilter}

theorem hashView_inj {p q : Int} (same : hashView p v = hashView q w) :
    p = q ∧ v = w := by
  have fields := (selfDelimiting_hashInt.pair (selfDelimiting_hashInt.pair
    ((selfDelimiting_hashOption selfDelimiting_hashInt).pair
      (selfDelimiting_hashVec selfDelimiting_hashText)))).injective
  have equal : (p, v.ownEpoch, v.parentEpoch, v.excludedFiles) =
      (q, w.ownEpoch, w.parentEpoch, w.excludedFiles) := fields same
  cases v
  cases w
  simpa using equal

theorem selfDelimiting_hashSources : SelfDelimiting hashSources := by
  have record : Function.Injective fun sources : SearchSources =>
      (sources.vector, sources.bm25) := by
    rintro ⟨_, _⟩ ⟨_, _⟩ same
    simpa using same
  exact (selfDelimiting_hashFlag.pair selfDelimiting_hashFlag).comp record

theorem selfDelimiting_hashSubQuery : SelfDelimiting hashSubQuery := by
  have weight : SelfDelimiting fun bits : UInt32 => [Fed.bits bits] :=
    selfDelimiting_single fun _ _ same => Fed.bits.inj same
  have record : Function.Injective fun sub : SubQuery => (sub.text, sub.sources, sub.weight) := by
    rintro ⟨_, _, _⟩ ⟨_, _, _⟩ same
    simpa using same
  exact (selfDelimiting_hashText.pair (selfDelimiting_hashSources.pair weight)).comp record

/-- A sub-query is told from the filters behind the last one by its second value, a flag. -/
theorem subQueries_inj {subs subs' : List SubQuery} {text text' : String} {m n : Nat}
    {s t : List Fed}
    (same : subs.flatMap hashSubQuery ++ (.text text :: .size m :: s) =
      subs'.flatMap hashSubQuery ++ (.text text' :: .size n :: t)) :
    subs = subs' ∧ text = text' ∧ m = n ∧ s = t := by
  induction subs generalizing subs' with
  | nil =>
    cases subs' with
    | nil =>
      obtain ⟨first, tail⟩ := cons.inj same
      obtain ⟨second, rest⟩ := cons.inj tail
      exact ⟨rfl, Fed.text.inj first, Fed.size.inj second, rest⟩
    | cons => cases (cons.inj (cons.inj same).2).1
  | cons a l ih =>
    cases subs' with
    | nil => cases (cons.inj (cons.inj same).2).1
    | cons b r =>
      rw [flatMap_cons, flatMap_cons, append_assoc, append_assoc] at same
      obtain ⟨rfl, rest⟩ := selfDelimiting_hashSubQuery a b _ _ same
      obtain ⟨rfl, others⟩ := ih rest
      exact ⟨rfl, others⟩

theorem hashAggregatedQuery_inj {printable : Char → Bool} {a b : AggregatedQueryOptions Snapshot}
    (same : hashAggregatedQuery printable a = hashAggregatedQuery printable b) :
    a.subQueries = b.subQueries ∧ a.filters = b.filters ∧
      a.excludePatterns = b.excludePatterns ∧ a.includePatterns = b.includePatterns := by
  have patterns := (selfDelimiting_hashVec selfDelimiting_hashText).pair
    (selfDelimiting_hashVec selfDelimiting_hashText)
  obtain ⟨subs, text, count, rest⟩ := subQueries_inj same
  have counts : Fed.size a.excludePatterns.length = Fed.size b.excludePatterns.length :=
    congrArg Fed.size count
  have fed : hashVec hashText a.excludePatterns ++ hashVec hashText a.includePatterns =
      hashVec hashText b.excludePatterns ++ hashVec hashText b.includePatterns :=
    cons_eq_cons.2 ⟨counts, rest⟩
  have equal : (a.excludePatterns, a.includePatterns) = (b.excludePatterns, b.includePatterns) :=
    patterns.injective fed
  obtain ⟨exclude, include_⟩ := Prod.mk.inj equal
  exact ⟨subs, filtersText_injective printable text, exclude, include_⟩

theorem QueryOptions.alike_of_key {a b : QueryOptions Snapshot}
    (same : CacheKey.fromOptionsWithView a v = CacheKey.fromOptionsWithView b w) :
    a.Alike b ∧ v = w := by
  unfold CacheKey.fromOptionsWithView at same
  obtain ⟨-, -, -, viewHash, query, sources, filters, resolver, -, config⟩ := CacheKey.mk.inj same
  obtain ⟨project, rfl⟩ := hashView_inj viewHash
  obtain ⟨sources, toggles⟩ := cons.inj sources
  have vec := selfDelimiting_hashVec selfDelimiting_hashText
  have categories := selfDelimiting_hashVec selfDelimiting_hashCategory
  have flag := selfDelimiting_hashOption selfDelimiting_hashFlag
  have filterFields := ((selfDelimiting_hashOption selfDelimiting_hashText).pair
    ((selfDelimiting_hashVec selfDelimiting_hashContentType).pair
      (categories.pair (categories.pair (vec.pair vec))))).injective
  have toggleFields := ((selfDelimiting_hashOption selfDelimiting_hashIntent).pair
    (flag.pair (flag.pair selfDelimiting_hashFlag))).injective
  have filterEqual : (a.directoryPrefix, a.excludeContentTypes, a.includeCategories,
      a.excludeCategories, a.excludePatterns, a.includePatterns) = (b.directoryPrefix,
      b.excludeContentTypes, b.includeCategories, b.excludeCategories, b.excludePatterns,
      b.includePatterns) := filterFields (Option.some.inj filters)
  have toggleEqual : (a.queryIntent, a.enableRerank, a.enableResultFilter, a.withSource) =
      (b.queryIntent, b.enableRerank, b.enableResultFilter, b.withSource) :=
    toggleFields (Fed.digest.inj (cons.inj toggles).1)
  have queryEqual : a.query = b.query := Fed.text.inj (cons.inj query).1
  have sourcesEqual : a.sources = b.sources :=
    selfDelimiting_hashSources.injective (Fed.digest.inj sources)
  have configs := (configFingerprint_eq_iff a.config b.config).1 config
  refine ⟨⟨?_, configs, resolver⟩, rfl⟩
  cases a
  cases b
  simp_all

theorem AggregatedQueryOptions.alike_of_key {printable : Char → Bool}
    {a b : AggregatedQueryOptions Snapshot}
    (same : CacheKey.forAggregated printable a v = CacheKey.forAggregated printable b w) :
    a.Alike b ∧ v = w := by
  unfold CacheKey.forAggregated at same
  obtain ⟨-, -, -, viewHash, query, toggles, -, resolver, -, config⟩ := CacheKey.mk.inj same
  obtain ⟨project, rfl⟩ := hashView_inj viewHash
  obtain ⟨subs, filters, exclude, include_⟩ := hashAggregatedQuery_inj query
  have flag := selfDelimiting_hashOption selfDelimiting_hashFlag
  have toggleFields := (flag.pair (flag.pair ((selfDelimiting_hashOption
    selfDelimiting_hashIntent).pair selfDelimiting_hashFlag))).injective
  have toggleEqual : (a.enableRerank, a.enableResultFilter, a.queryIntent,
      a.neighbourResolver.isSome) = (b.enableRerank, b.enableResultFilter, b.queryIntent,
      b.neighbourResolver.isSome) := toggleFields toggles
  have configs := (configFingerprint_eq_iff a.globalConfig b.globalConfig).1 config
  refine ⟨⟨?_, configs, resolver⟩, rfl⟩
  cases a
  cases b
  simp_all

/-- The filters of an aggregated request are hashed with its query, and stand alone only in the key
of a single one. -/
theorem single_key_ne_aggregated_key (printable : Char → Bool) (a : QueryOptions Snapshot)
    (b : AggregatedQueryOptions Snapshot) (v w : QueryFilter) :
    CacheKey.fromOptionsWithView a v ≠ CacheKey.forAggregated printable b w := by
  intro same
  cases congrArg CacheKey.filtersHash same

theorem SearchRequest.key_eq_iff_alike (printable : Char → Bool) (r s : SearchRequest Snapshot) :
    r.key printable = s.key printable ↔ r.Alike s := by
  constructor
  · intro same
    cases r with
    | single a v =>
      cases s with
      | single b w =>
        obtain ⟨alike, rfl⟩ := QueryOptions.alike_of_key same
        exact .single alike v
      | aggregated b w => exact absurd same (single_key_ne_aggregated_key printable a b v w)
    | aggregated a v =>
      cases s with
      | single b w => exact absurd same.symm (single_key_ne_aggregated_key printable b a w v)
      | aggregated b w =>
        obtain ⟨alike, rfl⟩ := AggregatedQueryOptions.alike_of_key same
        exact .aggregated alike v
  · rintro (⟨⟨equal, configs, presence⟩, view⟩ | ⟨⟨equal, configs, presence⟩, view⟩)
    · have config := (configFingerprint_eq_iff _ _).2 configs
      have limit := configs.1
      unfold SamePresence at presence
      rw [← equal]
      simp [SearchRequest.key, CacheKey.fromOptionsWithView, config, limit, presence,
        hashFilters, hashToggles]
    · have config := (configFingerprint_eq_iff _ _).2 configs
      have limit := configs.1
      unfold SamePresence at presence
      rw [← equal]
      simp [SearchRequest.key, CacheKey.forAggregated, config, limit, presence,
        hashAggregatedQuery, hashAggregatedToggles]

end Separation

section Distinct

variable {Snapshot : Type}

def SearchRequest.config : SearchRequest Snapshot → SearchConfig
  | .single options _ => options.config
  | .aggregated agg _ => agg.globalConfig

def SearchRequest.neighbourResolver :
    SearchRequest Snapshot → Option (NeighbourResolver Snapshot)
  | .single options _ => options.neighbourResolver
  | .aggregated agg _ => agg.neighbourResolver

theorem SearchRequest.eq_of_alike {r s : SearchRequest Snapshot} (alike : r.Alike s)
    (config : r.config = s.config) (resolver : r.neighbourResolver = s.neighbourResolver) :
    r = s := by
  cases alike with
  | @single a b options view =>
    have config : a.config = b.config := config
    have resolver : a.neighbourResolver = b.neighbourResolver := resolver
    have equal : a = b := by rw [← options.1, ← config, ← resolver]
    rw [equal]
  | @aggregated a b options view =>
    have config : a.globalConfig = b.globalConfig := config
    have resolver : a.neighbourResolver = b.neighbourResolver := resolver
    have equal : a = b := by rw [← options.1, ← config, ← resolver]
    rw [equal]

def expandedSearch (snapshot : CanonicalRelationSnapshot) :
    SearchRequest CanonicalRelationSnapshot :=
  .single
    { query := "parse",
      projectId := 1,
      config := { resultLimit := 10 },
      neighbourResolver := some { searcher := snapshot, projectRoot := "/p" } }
    { ownEpoch := 3 }

def emptyRelations : CanonicalRelationSnapshot where
  configFingerprint := ""
  files := []
  entities := []
  relations := []
  dependencies := []

/-- The snapshot published next, with one dependency more. -/
def republishedRelations : CanonicalRelationSnapshot :=
  { emptyRelations with dependencies := [⟨"a.rs", "b.rs", "import"⟩] }

end Distinct

end ContextEngine.Requests

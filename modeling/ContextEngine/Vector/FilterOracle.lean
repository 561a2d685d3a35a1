/- digest: Where the translated filters of the vector backends agree with the filter they translate.
   -/

import ContextEngine.Vector.SearchFilter

set_option autoImplicit false

namespace ContextEngine

open List

open Wildcard (matchesWord)

section Patterns

@[simp] theorem wildcardPieces_nil : wildcardPieces [] = [] := rfl

@[simp] theorem wildcardPieces_star (pattern : List Char) :
    wildcardPieces ('*' :: pattern) = .star :: wildcardPieces pattern := rfl

theorem wildcardPieces_letter {c : Char} (plain : c ≠ '*') (pattern : List Char) :
    wildcardPieces (c :: pattern) = .letter c :: wildcardPieces pattern := by
  rw [wildcardPieces, map_cons, if_neg plain]
  rfl

/-- A run wildcard takes whatever suffix the rest of the pattern leaves. -/
theorem matchesWord_star_append {pieces : List (Wildcard.Piece Char)} {word : List Char}
    (taken : matchesWord pieces word = true) (front : List Char) :
    matchesWord (.star :: pieces) (front ++ word) = true := by
  rw [matchesWord, any_eq_true]
  exact ⟨word, (mem_tails _ _).2 (suffix_append front word), taken⟩

theorem matchesWord_append_star (pattern rest : List Char) :
    matchesWord (wildcardPieces (pattern ++ ['*'])) (pattern ++ rest) = true := by
  induction pattern with
  | nil =>
    have taken := @matchesWord_star_append [] [] rfl rest
    rwa [append_nil] at taken
  | cons c pattern ih =>
    by_cases plain : c = '*'
    · subst plain
      exact matchesWord_star_append ih ['*']
    · rw [cons_append, cons_append, wildcardPieces_letter plain, matchesWord]
      simpa using ih

theorem count_le_of_matchesWord {letter : Char} (plain : letter ≠ '*') {pattern word : List Char}
    (taken : matchesWord (wildcardPieces pattern) word = true) :
    pattern.count letter ≤ word.count letter := by
  induction pattern generalizing word with
  | nil => exact Nat.zero_le _
  | cons c pattern ih =>
    by_cases star : c = '*'
    · subst star
      rw [wildcardPieces_star, matchesWord, any_eq_true] at taken
      obtain ⟨suffix, mem, taken⟩ := taken
      have bound : suffix.count letter ≤ word.count letter :=
        ((mem_tails _ _).1 mem).sublist.count_le letter
      have kept : ('*' :: pattern).count letter = pattern.count letter :=
        count_cons_of_ne (Ne.symm plain)
      have inner := ih taken
      omega
    · rw [wildcardPieces_letter star] at taken
      cases word with
      | nil => cases taken
      | cons d word =>
        rw [matchesWord, Bool.and_eq_true, decide_eq_true_eq] at taken
        have inner := ih taken.2
        rw [taken.1, count_cons, count_cons]
        omega

theorem not_matches_directoryPattern {trimmed : List Char} (named : trimmed ≠ []) :
    matchesWord (wildcardPieces (directoryPattern trimmed)) trimmed = false := by
  have shape : directoryPattern trimmed = trimmed ++ ['/', '*'] := by
    rw [directoryPattern, if_neg (by simpa using named)]
  cases taken : matchesWord (wildcardPieces (directoryPattern trimmed)) trimmed with
  | false => rfl
  | true =>
    have bound := @count_le_of_matchesWord '/' (by decide) _ _ taken
    rw [shape, count_append] at bound
    have extra : count '/' ['/', '*'] = 1 := by decide
    omega

theorem matches_rootPattern (path : List Char) :
    matchesWord (wildcardPieces (directoryPattern [])) path = true :=
  matchesWord_append_star [] path

theorem matches_directoryPattern {trimmed path : List Char}
    (below : (trimmed ++ ['/']).isPrefixOf path = true) :
    matchesWord (wildcardPieces (directoryPattern trimmed)) path = true := by
  by_cases root : trimmed = []
  · subst root
    exact matches_rootPattern path
  · obtain ⟨rest, rfl⟩ := isPrefixOf_iff_prefix.1 below
    have shape : directoryPattern trimmed = (trimmed ++ ['/']) ++ ['*'] := by
      rw [directoryPattern, if_neg (by simpa using root), append_assoc]
      rfl
    rw [shape]
    exact matchesWord_append_star _ _

end Patterns

section Criteria

variable (filter : SearchFilter) (payload : Payload)

def generationShown : Bool :=
  filter.epochs.isEmpty || epochVisible filter (payload.epoch.getD i64Min) payload.filePath

def directoryShown : Bool :=
  filter.directoryPrefix.all fun directory =>
    underDirectory (trimmedPrefix directory) payload.filePath.toList

def directoryMatched : Bool :=
  filter.directoryPrefix.all fun directory =>
    matchesWord (wildcardPieces (directoryPattern (trimmedPrefix directory)))
      payload.filePath.toList

/-- Whether every criterion besides the generations and the directory shows a payload. -/
def otherwiseShown : Bool :=
  filter.groupId.all (fun groupId => payload.groupId = some groupId) &&
  filter.pointType.all (fun pointType => payload.type = some pointType) &&
  filter.filePath.all (fun path => payload.filePath = normalizeProjectPath path) &&
  filter.includeCategories.all (fun categories =>
    categories.isEmpty || payload.category.any categories.contains) &&
  filter.excludeCategories.all (fun categories => !payload.category.any categories.contains) &&
  !(filter.excludeTest && payload.test = some true) &&
  !(filter.excludeGenerated && payload.generated = some true) &&
  !(filter.excludeDependency && payload.dependency = some true)

def Undated : Prop :=
  filter.epochs ≠ [] ∧ payload.epoch = none

/-- The payload's file is the directory itself, or lies elsewhere and matches its pattern. -/
def DirectoryMisread : Prop :=
  ∃ directory ∈ filter.directoryPrefix, trimmedPrefix directory ≠ [] ∧
    (payload.filePath.toList = trimmedPrefix directory ∨
      underDirectory (trimmedPrefix directory) payload.filePath.toList = false ∧
        matchesWord (wildcardPieces (trimmedPrefix directory ++ ['/', '*']))
          payload.filePath.toList = true)

/-- A payload without an epoch that the list shows as `i64::MIN`, or with a misread directory,
    while no other criterion hides it. -/
def Misread : Prop :=
  otherwiseShown filter payload = true ∧ generationShown filter payload = true ∧
    (Undated filter payload ∧ directoryShown filter payload = true ∨
      ¬Undated filter payload ∧ DirectoryMisread filter payload)

theorem payloadMatchesFilter_eq :
    payloadMatchesFilter payload filter =
      (otherwiseShown filter payload && generationShown filter payload &&
        directoryShown filter payload) := by
  simp only [payloadMatchesFilter, otherwiseShown, generationShown, directoryShown]
  ac_rfl

theorem directoryMatched_ne_iff :
    directoryMatched filter payload ≠ directoryShown filter payload ↔
      DirectoryMisread filter payload := by
  rw [directoryMatched, directoryShown, DirectoryMisread]
  cases filter.directoryPrefix with
  | none => simp
  | some directory =>
    simp only [Option.all_some, Option.mem_def, Option.some.injEq, exists_eq_left']
    by_cases root : trimmedPrefix directory = []
    · simp [root, matches_rootPattern, underDirectory]
    · have shape : directoryPattern (trimmedPrefix directory) =
          trimmedPrefix directory ++ ['/', '*'] := by
        rw [directoryPattern, if_neg (by simpa using root)]
      by_cases itself : payload.filePath.toList = trimmedPrefix directory
      · have missed := not_matches_directoryPattern root
        simp [itself, missed, underDirectory, root]
      · by_cases below :
          (trimmedPrefix directory ++ ['/']).isPrefixOf payload.filePath.toList = true
        · have taken := matches_directoryPattern below
          have shown : underDirectory (trimmedPrefix directory) payload.filePath.toList =
              true := by
            rw [underDirectory, below, Bool.or_true]
          simp [taken, shown, itself]
        · have hidden : underDirectory (trimmedPrefix directory) payload.filePath.toList =
              false := by
            simp [underDirectory, root, itself, below]
          simp [hidden, root, itself, shape]

end Criteria

section Backends

theorem all_toList {α : Type} (o : Option α) (p : α → Bool) : o.toList.all p = o.all p := by
  cases o <;> simp

variable (filter : SearchFilter)

theorem qdrantShows_buildFilter (object : String → Option JsonScalar) :
    qdrantShows (buildFilter filter) object = ((mustConditions filter).all (·.holds object) &&
        !(mustNotConditions filter).any (·.holds object)) := by
  rw [buildFilter]
  split_ifs with bare
  · rw [Bool.and_eq_true, List.isEmpty_iff, List.isEmpty_iff] at bare
    rw [bare.1, bare.2]
    rfl
  · rfl

section Fields

variable (payload : Payload)

@[simp] theorem matchEpoch_holds (epoch : Int) :
    (FieldCondition.matchValue "epoch" (.number epoch)).holds (payloadToMap payload) =
      decide (payload.epoch = some epoch) := by
  cases dated : payload.epoch <;> simp [FieldCondition.holds, payloadToMap, dated]

@[simp] theorem matchGroup_holds (groupId : String) :
    (FieldCondition.matchValue "group_id" (.text groupId)).holds (payloadToMap payload) =
      decide (payload.groupId = some groupId) := by
  cases grouped : payload.groupId <;> simp [FieldCondition.holds, payloadToMap, grouped]

@[simp] theorem matchType_holds (kind : PointKind) :
    (FieldCondition.matchValue "type" (.number kind.asU8)).holds (payloadToMap payload) =
      decide (payload.type = some kind) := by
  cases typed : payload.type with
  | none => simp [FieldCondition.holds, payloadToMap, typed]
  | some stored => cases stored <;> cases kind <;>
      simp [FieldCondition.holds, payloadToMap, typed, PointKind.asU8]

@[simp] theorem matchPath_holds (path : String) :
    (FieldCondition.matchValue "file_path" (.text path)).holds (payloadToMap payload) =
      decide (payload.filePath = path) := by
  simp [FieldCondition.holds, payloadToMap]

@[simp] theorem matchCategory_holds (category : FileCategory) :
    (FieldCondition.matchValue "category" (.number category.asU8)).holds (payloadToMap payload) =
      decide (payload.category = some category) := by
  cases sorted : payload.category with
  | none => simp [FieldCondition.holds, payloadToMap, sorted]
  | some stored => cases stored <;> cases category <;>
      simp [FieldCondition.holds, payloadToMap, sorted, FileCategory.asU8]

@[simp] theorem matchTest_holds :
    (FieldCondition.matchValue "test" (.flag true)).holds (payloadToMap payload) =
      decide (payload.test = some true) := by
  cases marked : payload.test <;> simp [FieldCondition.holds, payloadToMap, marked]

@[simp] theorem matchGenerated_holds :
    (FieldCondition.matchValue "generated" (.flag true)).holds (payloadToMap payload) =
      decide (payload.generated = some true) := by
  cases marked : payload.generated <;> simp [FieldCondition.holds, payloadToMap, marked]

@[simp] theorem matchDependency_holds :
    (FieldCondition.matchValue "dependency" (.flag true)).holds (payloadToMap payload) =
      decide (payload.dependency = some true) := by
  cases marked : payload.dependency <;> simp [FieldCondition.holds, payloadToMap, marked]

@[simp] theorem wildcardPath_holds (pattern : List Char) :
    (FieldCondition.wildcard "file_path" pattern).holds (payloadToMap payload) =
      matchesWord (wildcardPieces pattern) payload.filePath.toList := rfl

end Fields

theorem any_decide_eq_some {α : Type} [DecidableEq α] (l : List α) (o : Option α) :
    (l.any fun a => decide (o = some a)) = o.any l.contains := by
  rw [Bool.eq_iff_iff]
  cases o <;> simp

theorem buildEpochCondition_holds {epochs : List Int} (listed : epochs ≠ []) (payload : Payload) :
    (buildEpochCondition epochs).holds (payloadToMap payload) =
      payload.epoch.any epochs.contains := by
  rw [← any_decide_eq_some]
  match epochs with
  | [] => exact absurd rfl listed
  | [epoch] => simp [buildEpochCondition, QdrantCondition.holds]
  | first :: second :: rest =>
    simp [buildEpochCondition, QdrantCondition.holds, NestedCondition.holds, any_map,
      Function.comp_def]

theorem buildParentExclusionCondition_holds (parent : Int) (files : List String)
    (payload : Payload) :
    (buildParentExclusionCondition parent files).holds (payloadToMap payload) =
      (decide (payload.epoch = some parent) && files.contains payload.filePath) := by
  have listed : (files.any fun path => decide (payload.filePath = path)) =
      files.contains payload.filePath := by
    rw [Bool.eq_iff_iff]
    simp
  simp [buildParentExclusionCondition, QdrantCondition.holds, NestedCondition.holds, any_map,
    Function.comp_def, listed]

theorem includedConditions_hold (included : Option (List FileCategory)) (payload : Payload) :
    ((included.filter fun categories => !categories.isEmpty).all fun categories =>
      NestedCondition.holds (payloadToMap payload)
        ⟨[], categories.map fun category => .matchValue "category" (.number category.asU8)⟩) =
      included.all fun categories =>
        categories.isEmpty || payload.category.any categories.contains := by
  cases included with
  | none => rfl
  | some categories =>
    cases categories with
    | nil => rfl
    | cons first rest =>
      rw [Option.all_some, ← any_decide_eq_some, isEmpty_cons, Bool.false_or]
      simp only [Option.filter, isEmpty_cons, Bool.not_false, if_true, Option.all_some,
        NestedCondition.holds, all_nil, Bool.true_and, any_map, Function.comp_def,
        matchCategory_holds]

variable (payload : Payload)

theorem mustConditions_all :
    (mustConditions filter).all (·.holds (payloadToMap payload)) =
      ((filter.epochs.isEmpty || payload.epoch.any filter.epochs.contains) &&
      filter.groupId.all (fun groupId => payload.groupId = some groupId) &&
      filter.pointType.all (fun pointType => payload.type = some pointType) &&
      filter.filePath.all (fun path => payload.filePath = normalizeProjectPath path) &&
      directoryMatched filter payload &&
      filter.includeCategories.all (fun categories =>
        categories.isEmpty || payload.category.any categories.contains)) := by
  have epochs : (if filter.epochs.isEmpty then [] else [buildEpochCondition filter.epochs]).all
      (·.holds (payloadToMap payload)) =
        (filter.epochs.isEmpty || payload.epoch.any filter.epochs.contains) := by
    by_cases listed : filter.epochs = []
    · simp [listed]
    · simp [listed, buildEpochCondition_holds listed]
  rw [mustConditions]
  rw [all_append, all_append, all_append, all_append, all_append, epochs]
  simp only [all_toList, Option.all_map, QdrantCondition.holds,
    matchGroup_holds, matchType_holds, matchPath_holds, wildcardPath_holds, directoryMatched,
    includedConditions_hold]

/-- Whether the payload is a parent row that the Qdrant condition hides. -/
def parentHidden (filter : SearchFilter) (payload : Payload) : Bool :=
  filter.excludedFiles.any fun excluded => payload.epoch.any fun epoch =>
    decide (1 < filter.epochs.length) && decide (filter.epochs.head? = some epoch) &&
      excluded.contains payload.filePath

theorem parentExclusions_any :
    (parentExclusions filter).any (·.holds (payloadToMap payload)) =
      parentHidden filter payload := by
  rw [parentExclusions, parentHidden]
  cases filter.excludedFiles with
  | none => rfl
  | some files =>
    cases files with
    | nil => cases payload.epoch <;> simp [Option.filter]
    | cons path paths =>
      rcases filter.epochs with _ | ⟨parent, _ | ⟨second, rest⟩⟩
      · cases payload.epoch <;> simp [Option.filter]
      · cases payload.epoch <;> simp [Option.filter]
      · simp only [Option.filter, isEmpty_cons, Bool.not_false, if_true, any_cons,
          any_nil, Bool.or_false, buildParentExclusionCondition_holds, Option.any_some]
        cases payload.epoch with
        | none => simp
        | some epoch =>
          have same : decide (some epoch = some parent) =
              decide ((parent :: second :: rest).head? = some epoch) := by
            rw [decide_eq_decide, head?_cons]
            exact eq_comm
          rw [same]
          simp

theorem mustNotConditions_any :
    (mustNotConditions filter).any (·.holds (payloadToMap payload)) =
      (parentHidden filter payload ||
      !(filter.excludeCategories.all fun categories =>
        !payload.category.any categories.contains) ||
      (filter.excludeTest && payload.test = some true) ||
      (filter.excludeGenerated && payload.generated = some true) ||
      (filter.excludeDependency && payload.dependency = some true)) := by
  have categories : ((filter.excludeCategories.getD []).map fun category =>
      QdrantCondition.field (.matchValue "category" (.number category.asU8))).any
        (·.holds (payloadToMap payload)) =
      !(filter.excludeCategories.all fun categories =>
        !payload.category.any categories.contains) := by
    simp only [any_map, Function.comp_def, QdrantCondition.holds, matchCategory_holds,
      any_decide_eq_some]
    cases filter.excludeCategories <;> cases payload.category <;> simp
  have marker : ∀ (on : Bool) (condition : FieldCondition),
      (if on then [QdrantCondition.field condition] else []).any
        (·.holds (payloadToMap payload)) = (on && condition.holds (payloadToMap payload)) := by
    intro on condition
    cases on <;> simp [QdrantCondition.holds]
  rw [mustNotConditions, any_append, any_append, any_append, any_append,
    parentExclusions_any, categories, marker, marker, marker, matchTest_holds,
    matchGenerated_holds, matchDependency_holds]

/-- A dated payload passes the two generation conditions of Qdrant where the list shows it. -/
theorem generationMatched_eq :
    ((filter.epochs.isEmpty || payload.epoch.any filter.epochs.contains) &&
        !parentHidden filter payload) =
      (decide ¬(filter.epochs ≠ [] ∧ payload.epoch = none) && generationShown filter payload) := by
  rw [generationShown, parentHidden, epochVisible]
  cases epochs : filter.epochs with
  | nil => cases filter.excludedFiles <;> cases payload.epoch <;> simp
  | cons first rest =>
    cases payload.epoch with
    | none => simp
    | some epoch => simp

theorem qdrantShows_eq :
    qdrantShows (buildFilter filter) (payloadToMap payload) = (otherwiseShown filter payload &&
        (decide ¬(filter.epochs ≠ [] ∧ payload.epoch = none) && generationShown filter payload) &&
        directoryMatched filter payload) := by
  rw [qdrantShows_buildFilter, mustConditions_all, mustNotConditions_any,
    ← generationMatched_eq, otherwiseShown]
  simp only [Bool.not_or, Bool.not_not]
  ac_rfl

section LocalEngine

variable {filter : SearchFilter} {payload : Payload}

theorem holds_of_value {key value : String} {scalar : JsonScalar}
    (stored : payloadToMap payload key = some scalar) (same : scalar.render = value) :
    SimvecCondition.holds (payloadToMap payload) ⟨key, value⟩ = true := by
  rw [SimvecCondition.holds, stored, Option.any_some, same]
  exact decide_eq_true rfl

theorem epochCondition_holds {epoch : Int} (dated : payload.epoch = some epoch) :
    SimvecCondition.holds (payloadToMap payload) ⟨"epoch", toString epoch⟩ = true := by
  have stored : payloadToMap payload "epoch" = some (.number epoch) := by
    simp [payloadToMap, dated]
  exact holds_of_value stored rfl

theorem categoryCondition_holds_iff (category : FileCategory) :
    SimvecCondition.holds (payloadToMap payload) ⟨"category", toString category.asU8⟩ =
      decide (payload.category = some category) := by
  cases sorted : payload.category with
  | none => simp [SimvecCondition.holds, payloadToMap, sorted]
  | some stored =>
    have object : payloadToMap payload "category" = some (.number stored.asU8) := by
      simp [payloadToMap, sorted]
    rw [SimvecCondition.holds, object, Option.any_some]
    cases stored <;> cases category <;> decide

theorem markerCondition_holds_iff {key : String} {marker : Option Bool}
    (object : payloadToMap payload key = marker.map .flag) :
    SimvecCondition.holds (payloadToMap payload) ⟨key, "true"⟩ = decide (marker = some true) := by
  rw [SimvecCondition.holds, object]
  rcases marker with _ | (_ | _) <;> simp [JsonScalar.render]

section

variable (shown : payloadMatchesFilter payload filter = true)

include shown

theorem simvec_must (dated : ¬Undated filter payload) :
    ∀ condition ∈ (simvecConditions filter).must,
      condition.holds (payloadToMap payload) = true := by
  simp only [payloadMatchesFilter, Bool.and_eq_true, Option.all_eq_true, decide_eq_true_eq]
    at shown
  obtain ⟨⟨⟨⟨⟨⟨⟨⟨⟨group, path⟩, generation⟩, kind⟩, -⟩, -⟩, -⟩, -⟩, -⟩, -⟩ := shown
  intro condition mem
  simp only [simvecConditions, mem_append, Option.mem_toList, Option.map_eq_some_iff] at mem
  rcases mem with ((⟨groupId, asked, rfl⟩ | ⟨file, asked, rfl⟩) | ⟨pointType, asked, rfl⟩) | mem
  · have stored : payloadToMap payload "group_id" = some (.text groupId) := by
      simp [payloadToMap, group groupId asked]
    exact holds_of_value stored rfl
  · have stored : payloadToMap payload "file_path" = some (.text payload.filePath) := by
      simp [payloadToMap]
    exact holds_of_value stored (path file asked)
  · have stored : payloadToMap payload "type" = some (.number pointType.asU8) := by
      simp [payloadToMap, kind pointType asked]
    exact holds_of_value stored (by cases pointType <;> rfl)
  · split_ifs at mem with single
    · obtain ⟨epoch, listed⟩ := length_eq_one_iff.1 single
      rw [listed, map_singleton, mem_singleton] at mem
      subst mem
      cases known : payload.epoch with
      | none => exact absurd ⟨by simp [listed], known⟩ dated
      | some stored =>
        have same : stored = epoch := by
          simpa [listed, known, epochVisible] using generation
        exact epochCondition_holds (same ▸ known)
    · exact absurd mem not_mem_nil

theorem simvec_mustNot :
    ∀ condition ∈ (simvecConditions filter).mustNot,
      condition.holds (payloadToMap payload) = false := by
  simp only [payloadMatchesFilter, Bool.and_eq_true, Option.all_eq_true, Bool.not_eq_true',
    Bool.and_eq_false_imp, decide_eq_false_iff_not] at shown
  obtain ⟨⟨⟨⟨-, excluded⟩, test⟩, generated⟩, dependency⟩ := shown
  intro condition mem
  simp only [simvecConditions, mem_append, mem_map] at mem
  rcases mem with ((⟨category, listed, rfl⟩ | mem) | mem) | mem
  · rw [categoryCondition_holds_iff, decide_eq_false_iff_not]
    intro sorted
    cases asked : filter.excludeCategories with
    | none => simp [asked] at listed
    | some categories =>
      have hidden := excluded categories asked
      rw [sorted, Option.any_some] at hidden
      rw [asked, Option.getD_some] at listed
      simp [listed] at hidden
  · split_ifs at mem with on
    · have object : payloadToMap payload "test" = payload.test.map .flag := by
        simp [payloadToMap]
      rw [mem_singleton.1 mem, markerCondition_holds_iff object, decide_eq_false_iff_not]
      exact test on
    · exact absurd mem not_mem_nil
  · split_ifs at mem with on
    · have object : payloadToMap payload "generated" = payload.generated.map .flag := by
        simp [payloadToMap]
      rw [mem_singleton.1 mem, markerCondition_holds_iff object, decide_eq_false_iff_not]
      exact generated on
    · exact absurd mem not_mem_nil
  · split_ifs at mem with on
    · have object : payloadToMap payload "dependency" = payload.dependency.map .flag := by
        simp [payloadToMap]
      rw [mem_singleton.1 mem, markerCondition_holds_iff object, decide_eq_false_iff_not]
      exact dependency on
    · exact absurd mem not_mem_nil

theorem simvec_should (dated : ¬Undated filter payload) :
    (simvecConditions filter).should = [] ∨ ∃ condition ∈ (simvecConditions filter).should,
      condition.holds (payloadToMap payload) = true := by
  simp only [payloadMatchesFilter, Bool.and_eq_true, Option.all_eq_true] at shown
  obtain ⟨⟨⟨⟨⟨⟨⟨⟨-, generation⟩, -⟩, -⟩, included⟩, -⟩, -⟩, -⟩, -⟩ := shown
  by_cases listed : filter.epochs.length = 1 ∨ filter.epochs = []
  · have plain : (simvecConditions filter).should =
        (filter.includeCategories.getD []).map fun category =>
          ⟨"category", toString category.asU8⟩ := by
      rcases listed with single | none_listed
      · simp [simvecConditions, single]
      · simp [simvecConditions, none_listed]
    rw [plain]
    cases asked : filter.includeCategories with
    | none => exact Or.inl rfl
    | some categories =>
      have held := included categories asked
      cases sorted : payload.category with
      | none =>
        have bare : categories = [] := by simpa [sorted] using held
        exact Or.inl (by simp [bare])
      | some category =>
        by_cases bare : categories = []
        · exact Or.inl (by simp [bare])
        · have mem : category ∈ categories := by simpa [sorted, bare] using held
          refine Or.inr ⟨_, mem_map_of_mem mem, ?_⟩
          rw [categoryCondition_holds_iff, sorted]
          exact decide_eq_true rfl
  · have several : filter.epochs.length ≠ 1 ∧ filter.epochs ≠ [] := not_or.1 listed
    cases known : payload.epoch with
    | none => exact absurd ⟨several.2, known⟩ dated
    | some epoch =>
      have mem : epoch ∈ filter.epochs := by
        have visible : epochVisible filter epoch payload.filePath = true := by
          simpa [known, several.2] using generation
        rw [epochVisible, Bool.and_eq_true] at visible
        simpa using visible.1
      refine Or.inr ⟨⟨"epoch", toString epoch⟩, mem_append_left _ ?_, epochCondition_holds known⟩
      rw [if_neg several.1]
      exact mem_map_of_mem mem

end

theorem accepts_simvecFilter {accepts : SimvecFilter → (String → Option JsonScalar) → Bool}
    (reads : ReadsFilters accepts) (shown : payloadMatchesFilter payload filter = true)
    (dated : ¬Undated filter payload) {sim : SimvecFilter}
    (pushed : sim ∈ simvecFilter filter) : accepts sim (payloadToMap payload) = true := by
  have same : simvecConditions filter = sim := by
    rw [simvecFilter, Option.mem_def] at pushed
    split_ifs at pushed
    exact Option.some.inj pushed
  rw [← same, reads, simvecAccepts, Bool.and_eq_true, Bool.and_eq_true, Bool.or_eq_true,
    List.all_eq_true, Bool.not_eq_true', List.any_eq_false, List.isEmpty_iff, List.any_eq_true]
  exact ⟨⟨simvec_must shown dated, fun condition mem =>
    Bool.not_eq_true _ ▸ simvec_mustNot shown condition mem⟩, simvec_should shown dated⟩

end LocalEngine

/-- Both backends agree with a filter on a payload, unless the payload is misread. -/
theorem filtersAgree_iff {accepts : SimvecFilter → (String → Option JsonScalar) → Bool}
    (reads : ReadsFilters accepts) (filter : SearchFilter) (payload : Payload) :
    ((qdrantShows (buildFilter filter) (payloadToMap payload) = true ↔
        payloadMatchesFilter payload filter = true) ∧
      (payloadMatchesFilter payload filter = true →
        ∀ sim ∈ simvecFilter filter, accepts sim (payloadToMap payload) = true)) ↔
      ¬Misread filter payload := by
  have misread := directoryMatched_ne_iff filter payload
  have same := payloadMatchesFilter_eq filter payload
  have dated : (decide ¬(filter.epochs ≠ [] ∧ payload.epoch = none)) = true ↔
      ¬Undated filter payload := decide_eq_true_iff
  constructor
  · rintro ⟨agree, -⟩ ⟨otherwise, generation, undated | directory⟩
    · have shown : payloadMatchesFilter payload filter = true := by
        rw [same, otherwise, generation, undated.2]
        rfl
      have seen := agree.2 shown
      rw [qdrantShows_eq, Bool.and_eq_true, Bool.and_eq_true, Bool.and_eq_true, dated] at seen
      exact seen.1.2.1 undated.1
    · have both : directoryMatched filter payload = directoryShown filter payload := by
        rw [Bool.eq_iff_iff]
        rw [qdrantShows_eq, same, otherwise, generation, dated.2 directory.1] at agree
        simpa using agree
      exact misread.2 directory.2 both
  · intro ok
    refine ⟨?_, fun shown sim pushed => accepts_simvecFilter reads shown ?_ pushed⟩
    · rw [qdrantShows_eq, same]
      cases otherwise : otherwiseShown filter payload with
      | false => simp
      | true =>
        cases generation : generationShown filter payload with
        | false => simp
        | true =>
          by_cases undated : Undated filter payload
          · have hidden : directoryShown filter payload ≠ true := fun held =>
              ok ⟨otherwise, generation, Or.inl ⟨undated, held⟩⟩
            rw [Bool.eq_false_of_not_eq_true (mt dated.1 (not_not_intro undated))]
            simp [hidden]
          · have both : directoryMatched filter payload = directoryShown filter payload := by
              by_contra differ
              exact ok ⟨otherwise, generation, Or.inr ⟨undated, misread.1 differ⟩⟩
            rw [dated.2 undated, both, Bool.true_and]
    · intro undated
      rw [same, Bool.and_eq_true, Bool.and_eq_true] at shown
      exact ok ⟨shown.1.1, shown.1.2, Or.inl ⟨undated, shown.2⟩⟩

def indexedFile : Payload where
  sourceId := "group_1_emb_0"
  filePath := "src/lib.rs"
  groupId := some "proj_1"
  type := some .chunk
  category := some .code
  test := some false
  generated := some false
  dependency := some false
  epoch := some 2

/-- A search below the directory of a file, in a generation with a parent. -/
theorem filtersAgree_indexedFile :
    ((qdrantShows (buildFilter
        { epochs := [1, 2], directoryPrefix := some "src/", excludeTest := true })
          (payloadToMap indexedFile) = true ↔
        payloadMatchesFilter indexedFile
          { epochs := [1, 2], directoryPrefix := some "src/", excludeTest := true } = true) ∧
      (payloadMatchesFilter indexedFile
          { epochs := [1, 2], directoryPrefix := some "src/", excludeTest := true } = true →
        ∀ sim ∈ simvecFilter
          { epochs := [1, 2], directoryPrefix := some "src/", excludeTest := true },
          simvecAccepts sim (payloadToMap indexedFile) = true)) ∧
      ¬Misread { epochs := [1, 2], directoryPrefix := some "src/", excludeTest := true }
        indexedFile := by
  have fine : ¬Misread { epochs := [1, 2], directoryPrefix := some "src/", excludeTest := true }
      indexedFile := by
    rintro ⟨-, -, undated | misread⟩
    · exact absurd undated.1.2 (by decide)
    · rw [← directoryMatched_ne_iff] at misread
      exact misread.2 (by decide +kernel)
  exact ⟨(@filtersAgree_iff simvecAccepts (fun _ _ => rfl) _ _).2 fine, fine⟩

/-- A file asked for as its own directory is shown by the filter and missed by Qdrant. -/
theorem filters_disagree : ¬∀ (filter : SearchFilter) (payload : Payload),
    (qdrantShows (buildFilter filter) (payloadToMap payload) = true ↔
        payloadMatchesFilter payload filter = true) ∧
      (payloadMatchesFilter payload filter = true →
        ∀ sim ∈ simvecFilter filter, simvecAccepts sim (payloadToMap payload) = true) := by
  intro agree
  have same := (agree { directoryPrefix := some "src/lib.rs" } indexedFile).1
  have shown : payloadMatchesFilter indexedFile { directoryPrefix := some "src/lib.rs" } =
      true := by
    decide +kernel
  have missed : qdrantShows (buildFilter { directoryPrefix := some "src/lib.rs" })
      (payloadToMap indexedFile) = false := by
    decide +kernel
  rw [same.2 shown] at missed
  cases missed

end Backends

end ContextEngine

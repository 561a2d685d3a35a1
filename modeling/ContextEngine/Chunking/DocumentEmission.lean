/- digest: Every group of a document is emitted once, as long as no small group is merged away. -/

import ContextEngine.Chunking.DocumentChunker
import ContextEngine.Lib.FieldEncoding
import ContextEngine.Lib.Sorting

set_option autoImplicit false

namespace ContextEngine

open List Offsets

section ChunkId

private theorem toList_chunkIdOf (groupId : String) (path : ChunkPath) (index : Nat) :
    (chunkIdOf groupId path index).toList =
      (groupId.toList ++ '_' :: path.asStr.toList) ++ '_' :: Nat.toDigits 10 index := by
  have mark : ("_" : String).toList = ['_'] := rfl
  have digits : (toString index).toList = Nat.toDigits 10 index := Nat.toList_repr
  simp only [chunkIdOf, String.toList_append, mark, digits, append_assoc, cons_append, nil_append]

private theorem underscore_notMem_asStr (path : ChunkPath) : '_' ∉ path.asStr.toList := by
  cases path <;> decide

private theorem asStr_inj {path path' : ChunkPath}
    (same : path.asStr.toList = path'.asStr.toList) : path = path' := by
  revert same
  cases path <;> cases path' <;> decide

theorem chunkIdOf_inj {groupId groupId' : String} {path path' : ChunkPath} {index index' : Nat}
    (same : chunkIdOf groupId path index = chunkIdOf groupId' path' index') :
    groupId = groupId' ∧ path = path' ∧ index = index' := by
  have lists := congrArg String.toList same
  rw [toList_chunkIdOf, toList_chunkIdOf] at lists
  obtain ⟨front, digits⟩ := (FieldEncoding.separated_last_inj Nat.underscore_not_in_toDigits
    Nat.underscore_not_in_toDigits).1 lists
  obtain ⟨groups, paths⟩ := (FieldEncoding.separated_last_inj (underscore_notMem_asStr path)
    (underscore_notMem_asStr path')).1 front
  refine ⟨String.toList_injective groups, asStr_inj paths, ?_⟩
  rw [← Nat.ofDigitChars_ten_toDigits (n := index), digits, Nat.ofDigitChars_ten_toDigits]

end ChunkId

section TwoTier

variable [CostModel] {p : TwoTierParams}

/-- What is known of the overlap of the segments of a path. -/
def mayOverlap (config : ChunkingConfig) : ChunkPath → Prop
  | .embedding => False
  | .bm25 => config.overlapBm25Terms ≠ 0

def TwoTierParams.textOf (p : TwoTierParams) : ChunkPath → Text
  | .embedding => p.embeddingText
  | .bm25 => p.bm25Text

theorem spreads_segmentsOf (p : TwoTierParams) (path : ChunkPath) :
    Spreads (mayOverlap p.config path) (p.textOf path) (segmentsOf p path) := by
  cases path with
  | embedding => exact DocumentSplit.spreads_embeddingSegments p.embeddingText p.config
  | bm25 => exact DocumentSplit.spreads_splitBm25ByTerms p.bm25Text _ _

theorem ids_pathChunks (p : TwoTierParams) (path : ChunkPath) :
    (pathChunks p path).map ChunkedResult.chunkId = if p.outputMode.produces path then
        (List.range (segmentsOf p path).length).map (chunkIdOf p.sourceGroupId path)
      else [] := by
  rw [pathChunks]
  split
  · apply ext_getElem
    · simp
    · intro i inside inside'
      simp [segmentChunk]
  · rfl

theorem texts_pathChunks (p : TwoTierParams) (path : ChunkPath) :
    (pathChunks p path).map ChunkedResult.text =
      if p.outputMode.produces path then segmentsOf p path else [] := by
  rw [pathChunks]
  split
  · apply ext_getElem
    · simp
    · intro i inside inside'
      simp [segmentChunk]
  · rfl

variable {path : ChunkPath}

theorem mem_pathChunks {chunk : ChunkedResult}
    (isMem : chunk ∈ pathChunks p path) :
    chunk.path = path ∧ chunk.sourceGroupId = p.sourceGroupId := by
  rw [pathChunks] at isMem
  split at isMem
  · obtain ⟨i, inside, rfl⟩ := mem_mapIdx.1 isMem
    exact ⟨rfl, rfl⟩
  · cases isMem

theorem mem_twoTierChunking {chunk : ChunkedResult} (isMem : chunk ∈ twoTierChunking p) :
    chunk.sourceGroupId = p.sourceGroupId := by
  rcases mem_append.1 isMem with isMem | isMem
  · exact (mem_pathChunks isMem).2
  · exact (mem_pathChunks isMem).2

private theorem exists_index {id : String}
    (isMem : id ∈ (pathChunks p path).map ChunkedResult.chunkId) :
    ∃ index, id = chunkIdOf p.sourceGroupId path index := by
  rw [ids_pathChunks] at isMem
  split at isMem
  · obtain ⟨index, _, same⟩ := mem_map.1 isMem
    exact ⟨index, same.symm⟩
  · cases isMem

theorem exists_chunkId {id : String} (isMem : id ∈ (twoTierChunking p).map ChunkedResult.chunkId) :
    ∃ path index, id = chunkIdOf p.sourceGroupId path index := by
  rw [twoTierChunking, map_append] at isMem
  rcases mem_append.1 isMem with isMem | isMem
  · exact ⟨_, exists_index isMem⟩
  · exact ⟨_, exists_index isMem⟩

theorem firstId_mem (produced : p.outputMode.produces path = true) :
    chunkIdOf p.sourceGroupId path 0 ∈ (twoTierChunking p).map ChunkedResult.chunkId := by
  have first : chunkIdOf p.sourceGroupId path 0 ∈
      (pathChunks p path).map ChunkedResult.chunkId := by
    rw [ids_pathChunks, if_pos produced]
    have room := length_pos_of_ne_nil (spreads_segmentsOf p path).ne_nil
    exact mem_map_of_mem (mem_range.2 room)
  rw [twoTierChunking, map_append]
  cases path with
  | embedding => exact mem_append_left _ first
  | bm25 => exact mem_append_right _ first

theorem filter_path_twoTierChunking (p : TwoTierParams) (path : ChunkPath) :
    (twoTierChunking p).filter (fun chunk => chunk.path = path) = pathChunks p path := by
  have own : ∀ path, (pathChunks p path).filter (fun chunk => chunk.path = path) =
      pathChunks p path := by
    intro path
    apply filter_eq_self.2
    intro chunk isMem
    exact decide_eq_true (mem_pathChunks isMem).1
  have other : ∀ path path', path' ≠ path →
      (pathChunks p path').filter (fun chunk => chunk.path = path) = [] := by
    intro path path' ne
    apply filter_eq_nil_iff.2
    intro chunk isMem same
    exact ne ((mem_pathChunks isMem).1.symm.trans (of_decide_eq_true same))
  rw [twoTierChunking, filter_append]
  cases path with
  | embedding => rw [own, other .embedding .bm25 (by decide), append_nil]
  | bm25 => rw [own, other .bm25 .embedding (by decide), nil_append]

theorem nodup_ids_twoTierChunking (p : TwoTierParams) :
    ((twoTierChunking p).map ChunkedResult.chunkId).Nodup := by
  have each : ∀ path, ((pathChunks p path).map ChunkedResult.chunkId).Nodup := by
    intro path
    rw [ids_pathChunks]
    split
    · apply nodup_range.map
      intro i j same
      exact (chunkIdOf_inj same).2.2
    · exact nodup_nil
  rw [twoTierChunking, map_append, nodup_append]
  refine ⟨each _, each _, ?_⟩
  intro id isMem id' isMem' same
  obtain ⟨i, rfl⟩ := exists_index isMem
  obtain ⟨j, rfl⟩ := exists_index isMem'
  exact absurd (chunkIdOf_inj same).2.1 (by decide)

end TwoTier

private theorem index_eq_of_groupId {groups : List DocGroup}
    (distinct : (groups.map DocGroup.groupId).Nodup) {i j : Nat} {group group' : DocGroup}
    (here : groups[i]? = some group)
    (there : groups[j]? = some group') (same : group.groupId = group'.groupId) : i = j := by
  obtain ⟨inside, rfl⟩ := List.getElem?_eq_some_iff.1 here
  obtain ⟨inside', rfl⟩ := List.getElem?_eq_some_iff.1 there
  have inj := @List.Nodup.getElem_inj_iff _ (groups.map DocGroup.groupId) distinct i
    (by simpa using inside) j (by simpa using inside')
  exact inj.1 (by simpa using same)

private theorem filter_range_eq {n index : Nat} (lt : index < n) :
    (List.range n).filter (· = index) = [index] := by
  have once : (range n).count index = 1 :=
    count_eq_one_of_mem nodup_range (mem_range.2 lt)
  rw [filter_eq, once]
  rfl

private theorem filterMap_indices (front small rest : List DocGroup) :
    (List.range' front.length small.length).filterMap ((front ++ (small ++ rest))[·]?) = small := by
  induction small generalizing front with
  | nil => rfl
  | cons group small ih =>
    have here : (front ++ (group :: small ++ rest))[front.length]? = some group := by simp
    have shifted := ih (front ++ [group])
    rw [length_append, length_singleton] at shifted
    rw [length_cons, range'_succ, filterMap_cons_some here]
    have same : front ++ (group :: small ++ rest) = front ++ [group] ++ (small ++ rest) := by simp
    rw [same, shifted]

def textsUnder (chunks : List ChunkedResult) (path : ChunkPath) (groupId : String) : List Text :=
  (chunks.filter fun chunk => chunk.path = path ∧ chunk.sourceGroupId = groupId).map
    ChunkedResult.text

def filedText (groups members : List DocGroup) (index : Nat) (context : DocGroup) :
    ChunkPath → Text
  | .bm25 => joinBlank (members.map DocGroup.bm25Text)
  | .embedding => DocChunker.toEmbeddingText (joinBlank (members.map DocGroup.embeddingText))
      context.groupType (buildContextPath groups index)

def filedUnder (groups : List DocGroup) (home : Nat → Nat) (index : Nat) : List DocGroup :=
  ((List.range groups.length).filter (home · = index)).filterMap (groups[·]?)

def FiledAt (config : ChunkingConfig) (groups : List DocGroup) (outputMode : OutputMode)
    (chunks : List ChunkedResult) (home : Nat → Nat) (index : Nat) (context : DocGroup) : Prop :=
  ∀ path, outputMode.produces path = true →
    if filedUnder groups home index = [] then textsUnder chunks path context.groupId = []
    else Spreads (mayOverlap config path)
      (filedText groups (filedUnder groups home index) index context path)
      (textsUnder chunks path context.groupId)

/-- Distinct chunk identifiers, no chunk under an identifier that no group has, and every group
filed under one group of the list. -/
structure EmitsEachGroupOnce (config : ChunkingConfig) (groups : List DocGroup)
    (outputMode : OutputMode) (chunks : List ChunkedResult) : Prop where
  ids : (chunks.map ChunkedResult.chunkId).Nodup
  owned : ∀ chunk ∈ chunks, ∃ group ∈ groups, chunk.sourceGroupId = group.groupId
  once : ∃ home : Nat → Nat, (∀ i < groups.length, home i < groups.length) ∧
    ∀ index context, groups[index]? = some context →
      FiledAt config groups outputMode chunks home index context

namespace DocChunker

variable [CostModel] (chunker : DocChunker) (filePath : String) (outputMode : OutputMode)
  (classification : DocumentClassification)

/-- Whether the two checks let small groups be merged into the group behind them. -/
def mayMerge (smallGroups : List DocGroup) (contextGroup : DocGroup) : Bool :=
  !chunker.exceedsMergeBudget smallGroups contextGroup &&
    areSemanticallyCompatible smallGroups contextGroup

def NeverMerges (groups : List DocGroup) : Prop :=
  chunker.mergingConfig.enableSmartMerging = true →
    ∀ (front small : List DocGroup) (context : DocGroup) (back : List DocGroup),
      groups = front ++ (small ++ context :: back) → small ≠ [] →
      (∀ group ∈ small, chunker.isSmall group = true) → chunker.isSmall context = false →
      (∀ group ∈ front.getLast?, chunker.isSmall group = false) →
      chunker.mayMerge small context = false

section Loop

variable {chunker filePath outputMode classification} {groups : List DocGroup} {group : DocGroup}
  {state : SmartState} {index : Nat}

private theorem smartStep_small (small : chunker.isSmall group = true) :
    chunker.smartStep filePath outputMode classification groups state (group, index) =
      { state with pendingIndices := state.pendingIndices ++ [index] } := by
  rw [smartStep, if_pos small]

private theorem smartStep_alone (large : chunker.isSmall group = false)
    (none : state.pendingIndices = []) :
    chunker.smartStep filePath outputMode classification groups state (group, index) =
      ⟨state.chunks ++ chunker.chunkAt filePath outputMode classification groups index, []⟩ := by
  rw [smartStep, if_neg (by simp [large])]
  simp [none]

private theorem smartStep_refused (large : chunker.isSmall group = false)
    (refused : chunker.mayMerge (state.pendingIndices.filterMap (groups[·]?)) group = false) :
    chunker.smartStep filePath outputMode classification groups state (group, index) =
      ⟨state.chunks ++ state.pendingIndices.flatMap
          (chunker.chunkAt filePath outputMode classification groups) ++
        chunker.chunkAt filePath outputMode classification groups index, []⟩ := by
  have unmerged : chunker.tryMergeWithContext filePath outputMode classification
      state.pendingIndices index group groups = none := by
    rw [mayMerge, Bool.and_eq_false_iff] at refused
    rw [tryMergeWithContext]
    rcases refused with exceeds | incompatible
    · rw [if_pos (by simpa using exceeds)]
    · split
      · rfl
      · rw [if_pos (by simp [incompatible])]
  rw [smartStep, if_neg (by simp [large])]
  by_cases none : state.pendingIndices = []
  · simp [none]
  · simp [none, unmerged]

private theorem smartStep_merged (large : chunker.isSmall group = false)
    (some : state.pendingIndices ≠ [])
    (allowed : chunker.mayMerge (state.pendingIndices.filterMap (groups[·]?)) group = true) :
    chunker.smartStep filePath outputMode classification groups state (group, index) =
      ⟨state.chunks ++ chunker.createMergedChunk filePath outputMode classification
          state.pendingIndices index group groups ++
        chunker.chunkAt filePath outputMode classification groups index, []⟩ := by
  obtain ⟨within, compatible⟩ := Bool.and_eq_true_iff.1 allowed
  have merged : chunker.tryMergeWithContext filePath outputMode classification
      state.pendingIndices index group groups =
        Option.some (chunker.createMergedChunk filePath outputMode classification
          state.pendingIndices index group groups) := by
    rw [tryMergeWithContext]
    rw [if_neg (by simpa using within), if_neg (by simp [compatible])]
  rw [smartStep, if_neg (by simp [large])]
  simp [some, merged]

private theorem chunks_kept (groups : List DocGroup) (entries : List (DocGroup × Nat))
    (state : SmartState) : state.chunks <+:
      (entries.foldl (chunker.smartStep filePath outputMode classification groups)
        state).chunks := by
  induction entries generalizing state with
  | nil => exact prefix_rfl
  | cons entry entries ih =>
    have first : state.chunks <+:
        (chunker.smartStep filePath outputMode classification groups state entry).chunks := by
      rw [smartStep]
      split
      · exact prefix_rfl
      · simp only
        split
        · exact prefix_append _ _
        · split
          · rw [append_assoc]
            exact prefix_append _ _
          · rw [append_assoc]
            exact prefix_append _ _
    exact first.trans (ih _)

private theorem foldl_small (groups small : List DocGroup) (index : Nat) (state : SmartState)
    (allSmall : ∀ group ∈ small, chunker.isSmall group = true) :
    (small.zipIdx index).foldl (chunker.smartStep filePath outputMode classification groups) state =
      { state with
        pendingIndices := state.pendingIndices ++ List.range' index small.length } := by
  induction small generalizing index state with
  | nil => simp
  | cons group small ih =>
    rw [zipIdx_cons, foldl_cons, smartStep_small (allSmall group mem_cons_self),
      ih _ _ fun g isMem => allSmall g (mem_cons_of_mem _ isMem), length_cons,
      range'_succ, append_assoc]
    rfl

private theorem pendingIndices_of_large (groups front : List DocGroup)
    (large : ∀ group ∈ front.getLast?, chunker.isSmall group = false) :
    (front.zipIdx.foldl (chunker.smartStep filePath outputMode classification groups)
      ⟨[], []⟩).pendingIndices = [] := by
  induction front using reverseRecOn with
  | nil => rfl
  | append_singleton front group _ =>
    have last := large group (by simp)
    rw [zipIdx_append, foldl_append, zipIdx_singleton, foldl_cons,
      foldl_nil, smartStep, if_neg (by simp [last])]

private theorem foldl_of_neverMerges
    (never : chunker.NeverMerges groups) (smart : chunker.mergingConfig.enableSmartMerging = true)
    (rest front small : List DocGroup) (state : SmartState)
    (whole : groups = front ++ (small ++ rest))
    (allSmall : ∀ group ∈ small, chunker.isSmall group = true)
    (large : ∀ group ∈ front.getLast?, chunker.isSmall group = false)
    (pending : state.pendingIndices = List.range' front.length small.length)
    (chunks : state.chunks = (List.range front.length).flatMap
      (chunker.chunkAt filePath outputMode classification groups)) :
    let final := (rest.zipIdx (front.length + small.length)).foldl
      (chunker.smartStep filePath outputMode classification groups) state
    final.chunks ++ final.pendingIndices.flatMap
        (chunker.chunkAt filePath outputMode classification groups) =
      (range groups.length).flatMap
        (chunker.chunkAt filePath outputMode classification groups) := by
  have upTo : ∀ n k, range n ++ range' n k = range (n + k) := by
    intro n k
    rw [range_eq_range', range_eq_range']
    have joined := @List.range'_append_1 0 n k
    rwa [Nat.zero_add] at joined
  induction rest generalizing front small state with
  | nil =>
    have total : groups.length = front.length + small.length := by rw [whole]; simp
    simp only [zipIdx_nil, foldl_nil]
    rw [chunks, pending, ← flatMap_append, upTo, total]
  | cons group rest ih =>
    simp only [zipIdx_cons, foldl_cons]
    by_cases isSmall : chunker.isSmall group = true
    · rw [smartStep_small isSmall]
      have next := ih front (small ++ [group])
        { state with pendingIndices := state.pendingIndices ++ [front.length + small.length] }
        (by rw [whole]; simp) (by simpa [or_imp, forall_and] using ⟨allSmall, isSmall⟩) large
        (by simp [pending, range'_concat]) chunks
      rw [length_append, length_singleton, ← Nat.add_assoc] at next
      exact next
    · have isLarge : chunker.isSmall group = false := by simpa using isSmall
      have smallGroups : state.pendingIndices.filterMap (groups[·]?) = small := by
        rw [pending, whole, filterMap_indices]
      have alone : chunker.smartStep filePath outputMode classification groups state
          (group, front.length + small.length) =
          ⟨(range (front.length + small.length + 1)).flatMap
            (chunker.chunkAt filePath outputMode classification groups), []⟩ := by
        by_cases none : small = []
        · subst none
          rw [smartStep_alone isLarge (by simp [pending]), chunks, range_succ,
            flatMap_append, flatMap_singleton]
          rfl
        · have refused := never smart front small group rest whole none allSmall isLarge large
          rw [smartStep_refused isLarge (by rw [smallGroups]; exact refused), chunks, pending,
            ← flatMap_append, upTo, range_succ, flatMap_append,
            flatMap_singleton]
      have counted : (front ++ small ++ [group]).length = front.length + small.length + 1 := by
        simp only [length_append, length_singleton]
      have next := ih (front ++ small ++ [group]) []
        ⟨(range (front.length + small.length + 1)).flatMap
          (chunker.chunkAt filePath outputMode classification groups), []⟩
        (by rw [whole]; simp) (by simp) (by simp [isLarge]) rfl (by rw [counted])
      rw [counted] at next
      rw [alone]
      exact next

theorem chunkGroups_of_neverMerges (never : chunker.NeverMerges groups) :
    chunker.chunkGroups filePath outputMode classification groups =
      (List.range groups.length).flatMap
        (chunker.chunkAt filePath outputMode classification groups) := by
  rw [chunkGroups]
  by_cases none : groups.isEmpty = true
  · rw [if_pos none, isEmpty_iff.1 none]
    rfl
  · rw [if_neg none]
    cases smart : chunker.mergingConfig.enableSmartMerging with
    | false => rfl
    | true =>
      exact foldl_of_neverMerges never smart groups [] [] ⟨[], []⟩ rfl (by simp) (by simp) rfl rfl

theorem exists_merged {groups front small back : List DocGroup} {context : DocGroup}
    (smart : chunker.mergingConfig.enableSmartMerging = true)
    (whole : groups = front ++ (small ++ context :: back)) (some : small ≠ [])
    (allSmall : ∀ group ∈ small, chunker.isSmall group = true)
    (isLarge : chunker.isSmall context = false)
    (large : ∀ group ∈ front.getLast?, chunker.isSmall group = false)
    (allowed : chunker.mayMerge small context = true) :
    ∃ earlier later, chunker.chunkGroups filePath outputMode classification groups =
      earlier ++ (chunker.createMergedChunk filePath outputMode classification
          (List.range' front.length small.length) (front.length + small.length) context groups ++
        chunker.chunkAt filePath outputMode classification groups
          (front.length + small.length)) ++ later := by
  obtain ⟨before, ran⟩ : ∃ before, before = front.zipIdx.foldl
      (chunker.smartStep filePath outputMode classification groups) ⟨[], []⟩ := ⟨_, rfl⟩
  have nothing : before.pendingIndices = [] := by
    rw [ran]
    exact pendingIndices_of_large groups front large
  have waiting : (small.zipIdx front.length).foldl
      (chunker.smartStep filePath outputMode classification groups) before =
        ⟨before.chunks, range' front.length small.length⟩ := by
    rw [foldl_small groups small front.length before allSmall, nothing, nil_append]
  have smallGroups : (range' front.length small.length).filterMap (groups[·]?) = small := by
    rw [whole, filterMap_indices]
  have merged : chunker.smartStep filePath outputMode classification groups
      ⟨before.chunks, range' front.length small.length⟩
      (context, front.length + small.length) = _ :=
    smartStep_merged isLarge (by simpa using some) (by rw [smallGroups]; exact allowed)
  have indexed : groups.zipIdx = front.zipIdx ++ (small.zipIdx front.length ++
      (context, front.length + small.length) :: back.zipIdx (front.length + small.length + 1)) := by
    rw [whole, zipIdx_append, zipIdx_append, zipIdx_cons, Nat.zero_add]
  have ne : groups.isEmpty = false := by
    rw [whole]
    cases front <;> cases small <;> rfl
  obtain ⟨later, kept⟩ := chunks_kept groups (back.zipIdx (front.length + small.length + 1))
    (chunker.smartStep filePath outputMode classification groups
      ⟨before.chunks, range' front.length small.length⟩
      (context, front.length + small.length))
  rw [chunkGroups, ne, smart, if_neg (by simp), if_neg (by simp), chunkGroupsSmart]
  simp only [indexed, foldl_append, foldl_cons, ← ran, waiting]
  rw [← kept, merged]
  simp only [append_assoc]
  exact ⟨_, _, rfl⟩

private theorem chunkAt_of_getElem?
    (here : groups[index]? = some group) :
    chunker.chunkAt filePath outputMode classification groups index =
      twoTierChunking (chunker.paramsFor filePath outputMode classification group
        (toEmbeddingText group.embeddingText group.groupType (buildContextPath groups index))
        group.bm25Text) := by
  rw [chunkAt, here]
  rfl

theorem not_nodup_of_merged {groups front small back : List DocGroup} {context : DocGroup}
    (smart : chunker.mergingConfig.enableSmartMerging = true)
    (whole : groups = front ++ (small ++ context :: back)) (some : small ≠ [])
    (allSmall : ∀ group ∈ small, chunker.isSmall group = true)
    (isLarge : chunker.isSmall context = false)
    (large : ∀ group ∈ front.getLast?, chunker.isSmall group = false)
    (allowed : chunker.mayMerge small context = true) :
    ¬((chunker.chunkGroups filePath outputMode classification groups).map
      ChunkedResult.chunkId).Nodup := by
  intro nodup
  obtain ⟨path, produced⟩ := outputMode.exists_produces
  obtain ⟨earlier, later, emitted⟩ := @exists_merged _ chunker filePath outputMode classification
    groups front small back context smart whole some allSmall isLarge large allowed
  have here : groups[front.length + small.length]? = Option.some context := by
    rw [whole, getElem?_append_right (by omega), getElem?_append_right (by omega)]
    simp
  have inMerged : chunkIdOf context.groupId path 0 ∈
      (chunker.createMergedChunk filePath outputMode classification
        (range' front.length small.length) (front.length + small.length) context groups).map
          ChunkedResult.chunkId := by
    rw [createMergedChunk, map_map]
    exact firstId_mem produced
  have inOwn : chunkIdOf context.groupId path 0 ∈
      (chunker.chunkAt filePath outputMode classification groups
        (front.length + small.length)).map ChunkedResult.chunkId := by
    rw [chunkAt_of_getElem? here]
    exact firstId_mem produced
  rw [emitted, map_append, map_append, map_append] at nodup
  have middle := (nodup_append.1 (nodup_append.1 nodup).1).2.1
  exact (nodup_append.1 middle).2.2 _ inMerged _ inOwn rfl

end Loop

section Once

variable {chunker filePath outputMode classification} {groups : List DocGroup}

private theorem mem_chunkAt {index : Nat} {chunk : ChunkedResult}
    (isMem : chunk ∈ chunker.chunkAt filePath outputMode classification groups index) :
    ∃ group, groups[index]? = some group ∧ chunk.sourceGroupId = group.groupId := by
  cases here : groups[index]? with
  | none =>
    rw [chunkAt, here] at isMem
    cases isMem
  | some group =>
    rw [chunkAt_of_getElem? here] at isMem
    exact ⟨group, rfl, mem_twoTierChunking isMem⟩

private theorem exists_chunkId_chunkAt {index : Nat} {id : String}
    (isMem : id ∈ (chunker.chunkAt filePath outputMode classification groups index).map
      ChunkedResult.chunkId) :
    ∃ group, groups[index]? = some group ∧ ∃ path i, id = chunkIdOf group.groupId path i := by
  cases here : groups[index]? with
  | none =>
    rw [chunkAt, here] at isMem
    cases isMem
  | some group =>
    rw [chunkAt_of_getElem? here] at isMem
    have ids := exists_chunkId isMem
    exact ⟨group, rfl, ids⟩

theorem emitsEachGroupOnce_of_flatMap (distinct : (groups.map DocGroup.groupId).Nodup) :
    EmitsEachGroupOnce chunker.config groups outputMode ((List.range groups.length).flatMap
        (chunker.chunkAt filePath outputMode classification groups)) := by
  refine ⟨?_, ?_, id, fun i lt => lt, ?_⟩
  · rw [map_flatMap, nodup_flatMap]
    constructor
    · intro index _
      cases here : groups[index]? with
      | none => simp [chunkAt, here]
      | some group =>
        rw [chunkAt_of_getElem? here]
        exact nodup_ids_twoTierChunking _
    · apply nodup_range.imp
      intro i j ne id isMem isMem'
      obtain ⟨group, here, path, index, same⟩ := exists_chunkId_chunkAt isMem
      obtain ⟨group', there, path', index', same'⟩ := exists_chunkId_chunkAt isMem'
      have groupIds := (chunkIdOf_inj (same.symm.trans same')).1
      exact ne (index_eq_of_groupId distinct here there groupIds)
  · intro chunk isMem
    obtain ⟨index, _, isMem⟩ := mem_flatMap.1 isMem
    obtain ⟨group, here, same⟩ := mem_chunkAt isMem
    exact ⟨group, mem_of_getElem? here, same⟩
  · intro index context here path produced
    have lt : index < groups.length := (List.getElem?_eq_some_iff.1 here).1
    have alone : filedUnder groups id index = [context] := by
      rw [filedUnder]
      simp only [id, filter_range_eq lt, filterMap_cons_some here, filterMap_nil]
    have texts : textsUnder ((range groups.length).flatMap
        (chunker.chunkAt filePath outputMode classification groups)) path context.groupId =
        segmentsOf (chunker.paramsFor filePath outputMode classification context
          (toEmbeddingText context.embeddingText context.groupType (buildContextPath groups index))
          context.bm25Text) path := by
      have blocks : ∀ i ∈ range groups.length, ∀ chunk ∈
          chunker.chunkAt filePath outputMode classification groups i,
          decide (chunk.sourceGroupId = context.groupId) = decide (i = index) := by
        intro i _ chunk isMem
        obtain ⟨group, there, same⟩ := mem_chunkAt isMem
        rw [same, decide_eq_decide]
        constructor
        · exact index_eq_of_groupId distinct there here
        · rintro rfl
          rw [here] at there
          rw [Option.some.inj there]
      rw [textsUnder]
      simp only [Bool.decide_and]
      rw [← filter_filter, filter_flatMap_of_blocks blocks, filter_range_eq lt,
        flatMap_singleton, chunkAt_of_getElem? here, filter_path_twoTierChunking,
        texts_pathChunks]
      exact if_pos produced
    have joined : filedText groups [context] index context path =
        (chunker.paramsFor filePath outputMode classification context
          (toEmbeddingText context.embeddingText context.groupType (buildContextPath groups index))
          context.bm25Text).textOf path := by
      cases path <;> simp [filedText, joinBlank, TwoTierParams.textOf, paramsFor]
    rw [if_neg (by simp [alone]), alone, texts, joined]
    exact spreads_segmentsOf (chunker.paramsFor filePath outputMode classification context
      (toEmbeddingText context.embeddingText context.groupType (buildContextPath groups index))
      context.bm25Text) path

end Once

/-- Chunking emits every group once exactly when no merge takes place. -/
theorem chunkGroups_emitsEachGroupOnce_iff (groups : List DocGroup)
    (distinct : (groups.map DocGroup.groupId).Nodup) :
    EmitsEachGroupOnce chunker.config groups outputMode
        (chunker.chunkGroups filePath outputMode classification groups) ↔
      chunker.NeverMerges groups := by
  constructor
  · intro emits smart front small context back whole some allSmall isLarge large
    by_contra allowed
    exact not_nodup_of_merged smart whole some allSmall isLarge large (by simpa using allowed)
      emits.ids
  · intro never
    rw [chunkGroups_of_neverMerges never]
    exact emitsEachGroupOnce_of_flatMap distinct

end DocChunker

section Example

def defaultDocChunker : DocChunker where
  config := ⟨512, 150, 5, 150, 45, 0, fun limit => (limit * 6 + 99) / 100⟩
  mergingConfig := ⟨true, 20, fun maxTokens => maxTokens * 3 / 2⟩

def paragraphAndSection : List DocGroup :=
  let intro := "See below.".toList
  let body :=
    "The walker visits every directory once and skips what the patterns exclude.".toList ++
    " Links are followed when asked.".toList
  [⟨"guide_0", .paragraphGroup, none, intro, intro, .unavailable⟩,
    ⟨"guide_1", .sectionGroup, some ⟨"Walking".toList⟩, body, body, .unavailable⟩]

def documentationFile : DocumentClassification := ⟨.document, .documentation⟩

/-- With the defaults, a short paragraph is merged into the section behind it, and the section is
chunked once more under the same identifier. -/
theorem paragraphAndSection_repeated :
    (paragraphAndSection.map DocGroup.groupId).Nodup ∧
      ¬@EmitsEachGroupOnce defaultDocChunker.config paragraphAndSection .bm25
        (@DocChunker.chunkGroups quarterTokens defaultDocChunker "docs/guide.md" .bm25
          documentationFile paragraphAndSection) := by
  refine ⟨by decide +kernel, fun emits => ?_⟩
  have repeated : ¬((@DocChunker.chunkGroups quarterTokens defaultDocChunker "docs/guide.md" .bm25
      documentationFile paragraphAndSection).map ChunkedResult.chunkId).Nodup := by decide +kernel
  exact repeated emits.ids

/-- Without the merge, the two groups of the example are emitted once each. -/
theorem paragraphAndSection_emitted_iff :
    @EmitsEachGroupOnce defaultDocChunker.config paragraphAndSection .both
        (@DocChunker.chunkGroups quarterTokens defaultDocChunker "docs/guide.md" .both
          documentationFile paragraphAndSection) ↔
      @DocChunker.NeverMerges quarterTokens defaultDocChunker paragraphAndSection :=
  @DocChunker.chunkGroups_emitsEachGroupOnce_iff quarterTokens defaultDocChunker "docs/guide.md"
    .both documentationFile paragraphAndSection (by decide +kernel)

end Example

end ContextEngine

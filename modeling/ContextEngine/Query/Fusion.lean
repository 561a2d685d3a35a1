/- digest: The fused ranking of two recall paths, and when an empty path is fused like any other. -/

import Mathlib.Algebra.Order.Field.Rat
import Mathlib.Data.Prod.Lex
import Mathlib.Data.String.Basic
import Mathlib.Tactic.NormNum
import ContextEngine.Lib.NumberedRows
import ContextEngine.Lib.RankedSlots
import ContextEngine.Lib.Sorting
import ContextEngine.Types.Source

set_option autoImplicit false

namespace ContextEngine

open List HashMap RankedSlots

/-- A hit. Scores are exact; the payload is handed on unread. -/
structure SearchResult (Payload : Type) where
  id : String
  entityIds : List EntityId
  segmentId : Option String
  kind : String
  name : String
  filePath : String
  score : ℚ
  originalScore : ℚ
  vectorScore : ℚ
  bm25Score : Option ℚ
  sources : List String
  startLine : Nat
  endLine : Nat
  payload : Payload

structure HybridFusionConfig where
  vectorWeight : ℚ
  bm25Weight : ℚ
  includeSinglePath : Bool
  requireStrictIntersection : Bool
  minScore : ℚ
  dedupByChunk : Bool

variable {Payload : Type} (hit : SearchResult Payload)

/-- Ties are broken by content coordinates and at last by the chunk id. -/
def SearchResult.stableKey :
    String ×ₗ Nat ×ₗ Nat ×ₗ String ×ₗ String ×ₗ String :=
  toLex (hit.filePath, toLex (hit.startLine, toLex (hit.endLine, toLex (hit.kind,
    toLex (hit.name, hit.id)))))

/-- `alignment_key`: the first entity, else the segment, else the chunk. -/
def SearchResult.alignmentKey : Option String :=
  match hit.entityIds.head? with
  | some entityId => some ("e:" ++ toString entityId)
  | none =>
    match hit.segmentId.filter (· ≠ "") with
    | some segment => some ("s:" ++ segment)
    | none => if hit.id = "" then none else some ("c:" ++ hit.id)

def bm25Raw : ℚ := hit.bm25Score.getD 0

variable (results : List (SearchResult Payload))

/-- The first best hit of every key with its raw score; the hit stands for its index. -/
def bestPerKey (rawScore : SearchResult Payload → ℚ) :
    HashMap String (SearchResult Payload × ℚ) :=
  results.foldl (fun best hit =>
    match hit.alignmentKey with
    | none => best
    | some key => offer (fun new held => decide (held.2 < new.2)) best key (hit, rawScore hit)) ∅

def epsilon : ℚ := 1 / 2 ^ 23

def minmaxNormalize (scores : List ℚ) : List ℚ :=
  match scores.min?, scores.max? with
  | some min, some max =>
    if max - min ≤ epsilon then scores.map fun _ => 1
    else scores.map fun score => (score - min) / (max - min)
  | _, _ => []

def normalizeByKey (best : HashMap String (SearchResult Payload × ℚ)) :
    HashMap String (SearchResult Payload × ℚ) :=
  let entries := sortByKey Prod.fst best.toList
  HashMap.extend ∅ ((entries.zip (minmaxNormalize (entries.map fun entry => entry.2.2))).map
    fun scored => (scored.1.1, (scored.1.2.1, scored.2)))

/-- The keys of a map are distinct, so only those of the other path can have been seen. -/
def unionKeys {V W : Type} (vectorByKey : HashMap String V) (bm25ByKey : HashMap String W)
    (config : HybridFusionConfig) : List String :=
  sortByKey id <|
    if config.requireStrictIntersection then
      vectorByKey.keys.filter fun key => key ∈ bm25ByKey.keys
    else vectorByKey.keys ++ if config.includeSinglePath then
      bm25ByKey.keys.filter fun key => key ∉ vectorByKey.keys else []

def bestByChunk : HashMap String (SearchResult Payload) :=
  results.foldl (fun best hit =>
    offer (fun new held => decide (held.score < new.score)) best hit.id hit) ∅

def dedupByChunkId (enabled : Bool) :
    List (SearchResult Payload) :=
  if enabled then (bestByChunk results).values else results

def SearchResult.rankKey :
    ℚᵒᵈ ×ₗ String ×ₗ Nat ×ₗ Nat ×ₗ String ×ₗ String ×ₗ String :=
  toLex (OrderDual.toDual hit.score, hit.stableKey)

def finishFused (fused : List (SearchResult Payload)) (dedupByChunk : Bool) :
    List (SearchResult Payload) :=
  sortByKey SearchResult.rankKey (dedupByChunkId fused dedupByChunk)

def SearchResult.fused (score : ℚ) : SearchResult Payload :=
  { hit with score := score, originalScore := score, sources := ["hybrid"] }

/-- The end of every algorithm: the score filter, the fused score, dedup and sort. -/
def fuse (config : HybridFusionConfig) (scored : List (SearchResult Payload × ℚ)) :
    List (SearchResult Payload) :=
  finishFused ((scored.filter fun s => ¬ s.2 < config.minScore).map fun s => s.1.fused s.2)
    config.dedupByChunk

def storePath (fromVector : Bool) (hit : SearchResult Payload) (norm : ℚ) : SearchResult Payload :=
  if fromVector then { hit with vectorScore := norm }
  else { hit with vectorScore := 0, bm25Score := some norm }

def singlePathScored (surviving : List (SearchResult Payload))
    (rawScore : SearchResult Payload → ℚ) (fromVector : Bool) (config : HybridFusionConfig)
    (normalize : Bool) : List (SearchResult Payload × ℚ) :=
  if config.requireStrictIntersection then []
  else if !config.includeSinglePath && !fromVector then []
  else
    let best := bestPerKey surviving rawScore
    let byKey := if normalize then normalizeByKey best else best
    (sortByKey id byKey.keys).filterMap fun key => (byKey.lookup key).map fun entry =>
      (storePath fromVector entry.1 entry.2, entry.2)

section Algorithms

variable (vector bm25 : List (SearchResult Payload)) (config : HybridFusionConfig)

/-- The loop of `fuse_weighted_minmax` over the keys of both paths, up to its score filter. -/
def dualPathScored : List (SearchResult Payload × ℚ) :=
  let vectorByKey := normalizeByKey (bestPerKey vector SearchResult.vectorScore)
  let bm25ByKey := normalizeByKey (bestPerKey bm25 bm25Raw)
  let fusedScore (vNorm bNorm : ℚ) :=
    (config.vectorWeight * vNorm + config.bm25Weight * bNorm) /
      (config.vectorWeight + config.bm25Weight)
  (unionKeys vectorByKey bm25ByKey config).filterMap fun key =>
    match vectorByKey.lookup key, bm25ByKey.lookup key with
    | some (v, vn), some (b, bn) =>
      let base := if config.bm25Weight * bn ≤ config.vectorWeight * vn then v else b
      some ({ base with vectorScore := vn, bm25Score := some bn }, fusedScore vn bn)
    | some (v, vn), none =>
      if config.includeSinglePath then some (storePath true v vn, fusedScore vn 0) else none
    | none, some (b, bn) =>
      if config.includeSinglePath then some (storePath false b bn, fusedScore 0 bn) else none
    | none, none => none

def weightedScored : List (SearchResult Payload × ℚ) :=
  if vector.isEmpty then singlePathScored bm25 bm25Raw false config true
  else if bm25.isEmpty then singlePathScored vector SearchResult.vectorScore true config true
  else dualPathScored vector bm25 config

def fuseWeightedMinmax : List (SearchResult Payload) :=
  fuse config (weightedScored vector bm25 config)

/-- What the loop would return, whichever path is empty. -/
def fuseDualPath : List (SearchResult Payload) := fuse config (dualPathScored vector bm25 config)

end Algorithms

section Laws

variable {results vector bm25 : List (SearchResult Payload)} {config : HybridFusionConfig}
  {rawScore : SearchResult Payload → ℚ} {fromVector : Bool} {weight : ℚ}
  {scored : List (SearchResult Payload × ℚ)}

def Keyed (results : List (SearchResult Payload)) (key : String) : Prop :=
  ∃ hit ∈ results, hit.alignmentKey = some key

theorem isSome_bestPerKey {key : String} :
    ((bestPerKey results rawScore).lookup key).isSome ↔ Keyed results key := by
  unfold bestPerKey
  refine (foldl_iff_or (fun best : HashMap String (SearchResult Payload × ℚ) =>
    (best.lookup key).isSome = true) (fun best hit =>
      (?_ : _ ↔ hit.alignmentKey = some key ∨ _)) results ∅).trans (or_iff_left (by simp))
  cases hit.alignmentKey with
  | none => simp
  | some other =>
    rw [lookup_offer]
    split_ifs with same
    · simp [same]
    · simp [Ne.symm same]

theorem exists_minmaxNormalize (scores : List ℚ) : ∃ norm : ℚ → ℚ,
    minmaxNormalize scores = scores.map norm ∧
      ∀ score ∈ scores, norm score ≤ 1 ∧ ∃ top ∈ scores, norm top = 1 := by
  unfold minmaxNormalize
  cases greatest : scores.max? with
  | none =>
    rw [max?_eq_none_iff.1 greatest]
    exact ⟨id, rfl, by simp⟩
  | some high =>
    obtain ⟨highMem, le_high⟩ := max?_eq_some_iff.1 greatest
    cases least : scores.min? with
    | none =>
      rw [min?_eq_none_iff.1 least] at highMem
      cases highMem
    | some low =>
      dsimp only
      split_ifs with narrow
      · exact ⟨fun _ => 1, rfl, fun _ _ => ⟨le_refl _, high, highMem, rfl⟩⟩
      · have wide : 0 < high - low := lt_trans (by norm_num [epsilon]) (not_le.1 narrow)
        refine ⟨_, rfl, fun score mem => ⟨?_, high, highMem, div_self wide.ne'⟩⟩
        exact div_le_one_of_le₀ (sub_le_sub_right (le_high score mem) low) wide.le

theorem exists_normalizeByKey (best : HashMap String (SearchResult Payload × ℚ)) :
    ∃ norm : ℚ → ℚ,
      (∀ key, (normalizeByKey best).lookup key =
        (best.lookup key).map fun entry => (entry.1, norm entry.2)) ∧
      ∀ key entry, best.lookup key = some entry → norm entry.2 ≤ 1 ∧
        ∃ top topEntry, best.lookup top = some topEntry ∧ norm topEntry.2 = 1 := by
  obtain ⟨norm, mapped, bounds⟩ := exists_minmaxNormalize
    ((sortByKey Prod.fst best.toList).map fun entry => entry.2.2)
  have listed : ∀ {entry}, entry ∈ sortByKey Prod.fst best.toList ↔
      best.lookup entry.1 = some entry.2 := mem_sortByKey.trans mem_toList
  refine ⟨norm, fun key => ?_, fun key entry found => ?_⟩
  · unfold normalizeByKey
    simp only [mapped, map_map, NumberedRows.zip_map_self]
    cases found : best.lookup key with
    | none =>
      refine lookup_extend_of_notMem fun mem => ?_
      obtain ⟨_, scored, rfl⟩ := mem_map.1 mem
      obtain ⟨entry, held, rfl⟩ := mem_map.1 scored
      cases found.symm.trans (@listed entry |>.1 held)
    | some entry =>
      refine lookup_extend_of_mem (mem_map.2 ⟨(key, entry), listed.2 found, rfl⟩) fun _ mem => ?_
      obtain ⟨entry', held, same⟩ := mem_map.1 mem
      cases same
      cases found.symm.trans (@listed entry' |>.1 held)
      rfl
  · obtain ⟨le, _, mem, one⟩ := bounds _ (mem_map.2 ⟨(key, entry), listed.2 found, rfl⟩)
    obtain ⟨top, held, rfl⟩ := mem_map.1 mem
    exact ⟨le, top.1, top.2, listed.1 held, one⟩

theorem holdsBest_bestByChunk : HoldsBest SearchResult.score (bestByChunk results)
    (fun id hit => ∃ hit' ∈ results, id = hit'.id ∧ hit = hit') :=
  HoldsBest.foldl _ (fun hit' id hit => id = hit'.id ∧ hit = hit') (fun _ _ _ hit' best more =>
    best.offer _ hit' (fun v w => by simpa using le_of_lt) more)
    (holdsBest_empty fun _ _ => id) results (by simp)

theorem mem_dedupByChunkId (enabled : Bool) :
    (∀ hit ∈ dedupByChunkId results enabled, hit ∈ results) ∧
      ∀ hit ∈ results, ∃ best ∈ dedupByChunkId results enabled, hit.score ≤ best.score := by
  have best := @holdsBest_bestByChunk _ results
  cases enabled with
  | false => exact ⟨fun _ => id, fun hit mem => ⟨hit, mem, le_refl _⟩⟩
  | true =>
    refine ⟨fun hit mem => ?_, fun hit mem => ?_⟩
    · obtain ⟨id, held⟩ := mem_values.1 mem
      obtain ⟨⟨_, mem, _, rfl⟩, _⟩ := best.held id hit held
      exact mem
    · cases held : AList.lookup hit.id (bestByChunk results) with
      | none => exact (best.empty hit.id held hit ⟨hit, mem, rfl, rfl⟩).elim
      | some top =>
        exact ⟨top, mem_values.2 ⟨_, held⟩, (best.held _ _ held).2 hit ⟨hit, mem, rfl, rfl⟩⟩

theorem mem_fuse :
    (∀ hit ∈ fuse config scored, ∃ s ∈ scored, hit.score = s.2) ∧
      ∀ s ∈ scored, config.minScore ≤ s.2 → ∃ hit ∈ fuse config scored, s.2 ≤ hit.score := by
  obtain ⟨sound, complete⟩ := @mem_dedupByChunkId _
    ((scored.filter fun s => ¬ s.2 < config.minScore).map fun s => s.1.fused s.2)
    config.dedupByChunk
  refine ⟨fun hit mem => ?_, fun s mem above => ?_⟩
  · obtain ⟨s, kept, rfl⟩ := mem_map.1 (sound hit (mem_sortByKey.1 mem))
    exact ⟨s, (mem_filter.1 kept).1, rfl⟩
  · obtain ⟨hit, found, le⟩ := complete _
      (mem_map.2 ⟨s, mem_filter.2 ⟨mem, by simpa using above⟩, rfl⟩)
    exact ⟨hit, mem_sortByKey.2 found, le⟩

theorem fuse_eq_nil (below : ∀ s ∈ scored, s.2 < config.minScore) :
    fuse config scored = fuse config [] := by
  have none : (scored.filter fun s => ¬ s.2 < config.minScore) = [] :=
    filter_eq_nil_iff.2 fun s mem => by simpa using below s mem
  rw [fuse, none, fuse, filter_nil]

def singleScored (results : List (SearchResult Payload)) (rawScore : SearchResult Payload → ℚ)
    (fromVector : Bool) (weight : ℚ) : List (SearchResult Payload × ℚ) :=
  let byKey := normalizeByKey (bestPerKey results rawScore)
  (sortByKey id byKey.keys).filterMap fun key => (byKey.lookup key).map fun entry =>
    (storePath fromVector entry.1 entry.2, weight * entry.2)

theorem score_singleScored :
    (∀ s ∈ singleScored results rawScore fromVector weight,
        (∃ key, Keyed results key) ∧ ∃ norm ≤ 1, s.2 = weight * norm) ∧
      ((∃ key, Keyed results key) →
        ∃ s ∈ singleScored results rawScore fromVector weight, s.2 = weight) := by
  obtain ⟨norm, lookup, bounds⟩ := exists_normalizeByKey (bestPerKey results rawScore)
  refine ⟨fun s mem => ?_, fun ⟨key, keyed⟩ => ?_⟩
  · obtain ⟨key, _, made⟩ := mem_filterMap.1 mem
    obtain ⟨_, scored, rfl⟩ := Option.map_eq_some_iff.1 made
    rw [lookup] at scored
    obtain ⟨entry, found, rfl⟩ := Option.map_eq_some_iff.1 scored
    have keyed := (@isSome_bestPerKey _ results rawScore key).1 (Option.isSome_of_eq_some found)
    exact ⟨⟨key, keyed⟩, _, (bounds key entry found).1, rfl⟩
  · obtain ⟨entry, found⟩ := Option.isSome_iff_exists.1 (isSome_bestPerKey.2 keyed)
    obtain ⟨_, top, topEntry, held, one⟩ := bounds key entry found
    have scored := lookup top
    rw [held, Option.map_some, one] at scored
    refine ⟨_, mem_filterMap.2 ⟨top, mem_sortByKey.2 (mem_keys_iff.2 ⟨_, scored⟩),
      congrArg (Option.map _) scored⟩, mul_one weight⟩

/-- Full weight shows in the ranking unless every score is below the least one. -/
theorem fuse_singleScored_eq_iff (keyed : ∃ key, Keyed results key) (below : weight < 1)
    (atMost : ∀ s ∈ scored, s.2 ≤ weight) :
    fuse config (singleScored results rawScore fromVector 1) = fuse config scored ↔
      1 < config.minScore := by
  constructor
  · intro same
    by_contra! within
    obtain ⟨top, mem, one⟩ := (@score_singleScored _ results rawScore fromVector 1).2 keyed
    obtain ⟨hit, mem, above⟩ := mem_fuse.2 top mem (one ▸ within)
    obtain ⟨s, mem, score⟩ := mem_fuse.1 hit (same ▸ mem)
    rw [one, score] at above
    exact absurd ((above.trans (atMost s mem)).trans_lt below) (lt_irrefl 1)
  · intro above
    have full : ∀ s ∈ singleScored results rawScore fromVector 1, s.2 < config.minScore := by
      intro s mem
      obtain ⟨-, norm, norm_le, score⟩ := score_singleScored.1 s mem
      rw [score, one_mul]
      exact norm_le.trans_lt above
    rw [fuse_eq_nil full, fuse_eq_nil fun s mem => ((atMost s mem).trans_lt below).trans above]

/-- One path alone: the fast path against the loop, which weighs the path. -/
theorem fuse_single_eq_iff (nonneg : 0 ≤ weight) (le_one : weight ≤ 1) :
    fuse config (singlePathScored results rawScore fromVector config true) =
        fuse config (if config.requireStrictIntersection = false ∧ config.includeSinglePath = true
          then singleScored results rawScore fromVector weight else []) ↔
      config.requireStrictIntersection = true ∨ (∀ key, ¬ Keyed results key) ∨ 1 < config.minScore ∨
        if config.includeSinglePath = true then weight = 1 else fromVector = false := by
  have fast : singlePathScored results rawScore fromVector config true =
      if config.requireStrictIntersection = false ∧
        (config.includeSinglePath = true ∨ fromVector = true)
      then singleScored results rawScore fromVector 1 else [] := by
    unfold singlePathScored singleScored
    cases config.requireStrictIntersection <;> cases config.includeSinglePath <;>
      cases fromVector <;> simp
  rw [fast]
  by_cases keyed : ∃ key, Keyed results key
  · have some := not_forall_not.2 keyed
    have unweighted := @fuse_singleScored_eq_iff _ _ config rawScore fromVector 0 [] keyed
      zero_lt_one (by simp)
    have weighted (below : weight < 1) := @fuse_singleScored_eq_iff _ _ config rawScore fromVector
      weight (singleScored results rawScore fromVector weight) keyed below fun s mem => by
        obtain ⟨-, norm, norm_le, score⟩ := score_singleScored.1 s mem
        exact score.trans_le (mul_le_of_le_one_right nonneg norm_le)
    rcases le_one.eq_or_lt with rfl | below
    · cases config.requireStrictIntersection <;> cases config.includeSinglePath <;>
        cases fromVector <;> simp [unweighted, some]
    · cases config.requireStrictIntersection <;> cases config.includeSinglePath <;>
        cases fromVector <;> simp [unweighted, weighted below, below.ne, some]
  · have none : ∀ weight, singleScored results rawScore fromVector weight = [] := fun weight =>
      eq_nil_iff_forall_not_mem.2 fun s mem => keyed (score_singleScored.1 s mem).1
    simp [none, not_exists.1 keyed]

theorem normalizeByKey_nil :
    normalizeByKey (bestPerKey ([] : List (SearchResult Payload)) rawScore) = ∅ := by
  simp [normalizeByKey, bestPerKey, sortByKey, HashMap.extend, HashMap.toList]

theorem weight_share {own other : ℚ} (nonneg : 0 ≤ own) (other_nonneg : 0 ≤ other)
    (positive : 0 < own + other) :
    0 ≤ own / (own + other) ∧ own / (own + other) ≤ 1 ∧ (own / (own + other) = 1 ↔ other = 0) := by
  refine ⟨div_nonneg nonneg positive.le, ?_, ?_⟩
  · exact div_le_one_of_le₀ (le_add_of_nonneg_right other_nonneg) positive.le
  · rw [div_eq_one_iff_eq positive.ne', left_eq_add]

theorem dualPathScored_single :
    dualPathScored [] bm25 config =
        (if config.requireStrictIntersection = false ∧ config.includeSinglePath = true
          then singleScored bm25 bm25Raw false
            (config.bm25Weight / (config.bm25Weight + config.vectorWeight)) else []) ∧
      dualPathScored vector [] config =
        if config.requireStrictIntersection = false ∧ config.includeSinglePath = true
          then singleScored vector SearchResult.vectorScore true
            (config.vectorWeight / (config.vectorWeight + config.bm25Weight)) else [] := by
  constructor
  · unfold dualPathScored singleScored unionKeys
    cases config.requireStrictIntersection <;> cases config.includeSinglePath <;>
      simp [normalizeByKey_nil]
    refine filterMap_congr fun key _ => ?_
    cases AList.lookup key _ with
    | none => rfl
    | some entry => simp [mul_div_right_comm, add_comm]
  · unfold dualPathScored singleScored unionKeys
    cases config.requireStrictIntersection <;> cases config.includeSinglePath <;>
      simp [normalizeByKey_nil]
    · intro key _
      cases AList.lookup key _ <;> rfl
    refine filterMap_congr fun key _ => ?_
    cases AList.lookup key _ with
    | none => rfl
    | some entry => simp [mul_div_right_comm]

/-- The fast path is the loop where it gives the path its full weight, drops every hit, or has
none to give; the loop also drops a lone vector path that is not to be included. -/
theorem fuseWeightedMinmax_eq_fuseDualPath_iff (vector bm25 : List (SearchResult Payload))
    (config : HybridFusionConfig) (vectorNonneg : 0 ≤ config.vectorWeight)
    (bm25Nonneg : 0 ≤ config.bm25Weight)
    (positive : 0 < config.vectorWeight + config.bm25Weight) :
    fuseWeightedMinmax vector bm25 config = fuseDualPath vector bm25 config ↔
      (vector ≠ [] ∧ bm25 ≠ []) ∨ config.requireStrictIntersection = true ∨
      (∀ hit ∈ vector ++ bm25, hit.alignmentKey = none) ∨ 1 < config.minScore ∨
      if config.includeSinglePath = true then
        (if vector = [] then config.vectorWeight else config.bm25Weight) = 0
      else vector = [] := by
  have unkeyed : ∀ results : List (SearchResult Payload), (∀ key, ¬ Keyed results key) ↔
      ∀ hit ∈ results, hit.alignmentKey = none := by
    intro results
    simp only [Keyed, not_exists, not_and, Option.eq_none_iff_forall_ne_some]
    exact ⟨fun none hit mem key => none key hit mem, fun none key hit mem => none hit mem key⟩
  unfold fuseWeightedMinmax fuseDualPath
  by_cases vectorNil : vector = []
  · subst vectorNil
    obtain ⟨nonneg, le_one, one⟩ := weight_share bm25Nonneg vectorNonneg (by rwa [add_comm])
    rw [(@dualPathScored_single _ [] _ _).1, weightedScored, isEmpty_nil, if_pos rfl,
      fuse_single_eq_iff nonneg le_one, unkeyed, one]
    simp
  · by_cases bm25Nil : bm25 = []
    · subst bm25Nil
      obtain ⟨nonneg, le_one, one⟩ := weight_share vectorNonneg bm25Nonneg positive
      rw [(@dualPathScored_single _ _ [] _).2, weightedScored, isEmpty_nil, if_pos rfl, if_neg
        (by simpa using vectorNil), fuse_single_eq_iff nonneg le_one, unkeyed, one]
      simp [vectorNil]
    · simp [weightedScored, vectorNil, bm25Nil]

end Laws

section Sample

def HybridFusionConfig.default : HybridFusionConfig := ⟨1 / 2, 1 / 2, true, false, 0, true⟩

def loneHit : SearchResult Unit :=
  ⟨"a", [1], none, "function", "run", "src/a.rs", 1, 1, 1, none, ["vector"], 1, 3, ()⟩

/-- A vector hit that comes alone is ranked with the score 1, and by the loop with 1 / 2. -/
theorem fuseWeightedMinmax_ne_fuseDualPath_loneHit :
    fuseWeightedMinmax [loneHit] [] .default ≠ fuseDualPath [loneHit] [] .default := by
  have nonneg : (0 : ℚ) ≤ 1 / 2 := by norm_num
  have positive : (0 : ℚ) < 1 / 2 + 1 / 2 := by norm_num
  rw [Ne, fuseWeightedMinmax_eq_fuseDualPath_iff _ _ .default nonneg nonneg positive]
  have keyed : loneHit.alignmentKey ≠ none := Option.some_ne_none _
  norm_num [HybridFusionConfig.default, keyed]

end Sample

end ContextEngine

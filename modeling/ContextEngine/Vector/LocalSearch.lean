/- digest: The filtered search of the local vector store, which fetches more than it returns. -/

import ContextEngine.Lib.BestFirst
import ContextEngine.Vector.SearchFilter

set_option autoImplicit false

namespace ContextEngine

open List

variable {κ : Type}

/-- A stored point with its exact score against the query vector. -/
structure RatedPoint (κ : Type) where
  id : String
  score : κ
  payload : Payload

structure ScoredPoint (κ : Type) where
  id : String
  score : κ
  payload : Payload

/-- A search, less the query vector that the scores stand for. -/
structure DenseSearchQuery (κ : Type) where
  limit : Nat
  scoreThreshold : Option κ := none
  filter : Option SearchFilter := none

namespace LocalVectorStore

/-- The fetch window of a filtered search, in the arithmetic of `usize`. -/
def overfetchLimit (limit excludedLen : Nat) : Nat :=
  max (min (((limit * 5 % 2 ^ 64 + excludedLen) % 2 ^ 64 + 20) % 2 ^ 64)
    ((10000 + excludedLen) % 2 ^ 64)) limit

def window (limit excludedLen : Nat) : Nat :=
  max (min (limit * 5 + excludedLen + 20) (10000 + excludedLen)) limit

/-- No step of the window computation leaves `usize`. -/
def WindowFits (limit excludedLen : Nat) : Prop :=
  limit * 5 + excludedLen + 20 < 2 ^ 64 ∧ 10000 + excludedLen < 2 ^ 64

theorem overfetchLimit_eq {limit excludedLen : Nat} (fits : WindowFits limit excludedLen) :
    overfetchLimit limit excludedLen = window limit excludedLen := by
  obtain ⟨product, ceiling⟩ := fits
  rw [overfetchLimit, window, Nat.mod_eq_of_lt ceiling,
    Nat.mod_eq_of_lt (a := limit * 5) (by omega),
    Nat.mod_eq_of_lt (a := limit * 5 + excludedLen) (by omega), Nat.mod_eq_of_lt product]

/-- The number of points to return. -/
def limitOf (query : DenseSearchQuery κ) : Nat := max query.limit 1

def excludedLen (query : DenseSearchQuery κ) : Nat :=
  ((query.filter.bind (·.excludedFiles)).map List.length).getD 0

variable [LinearOrder κ] (accepts : SimvecFilter → (String → Option JsonScalar) → Bool)

def pushedDown
    (query : DenseSearchQuery κ) (point : RatedPoint κ) : Bool :=
  (query.filter.bind simvecFilter).all (fun sim => accepts sim (payloadToMap point.payload)) &&
    query.scoreThreshold.all fun threshold => threshold ≤ point.score

def visible (query : DenseSearchQuery κ) (point : RatedPoint κ) : Bool :=
  query.filter.all (payloadMatchesFilter point.payload) &&
    query.scoreThreshold.all fun threshold => threshold ≤ point.score

def scoredPoint (point : RatedPoint κ) : ScoredPoint κ where
  id := if point.payload.sourceId = "" then point.id else point.payload.sourceId
  score := point.score
  payload := point.payload

/-- What `search_dense` makes of the engine's answer. -/
def searchDense (query : DenseSearchQuery κ) (results : List (RatedPoint κ)) :
    List (ScoredPoint κ) :=
  (sortDescending ScoredPoint.score ((results.filter (visible query)).map scoredPoint)).take
    (limitOf query)

variable (points : List (RatedPoint κ))

/-- The points the engine may return. -/
def candidates (query : DenseSearchQuery κ) : List (RatedPoint κ) :=
  points.filter (pushedDown accepts query)

def visiblePoints (query : DenseSearchQuery κ) :
    List (ScoredPoint κ) :=
  (points.filter (visible query)).map scoredPoint

def Exact (query : DenseSearchQuery κ)
    (answer : List (ScoredPoint κ)) : Prop :=
  Best ScoredPoint.score (visiblePoints points query) query.limit answer ∧
    answer.Pairwise fun a b => b.score ≤ a.score

/-- The search is exact however the engine breaks ties, and its window does not overflow. -/
def SearchExact (query : DenseSearchQuery κ) : Prop :=
  WindowFits (limitOf query) (excludedLen query) ∧
    ∀ results, Best RatedPoint.score (candidates accepts points query)
      (overfetchLimit (limitOf query) (excludedLen query)) results →
      Exact points query (searchDense query results)

/-- The number of points an exact answer has. -/
def wanted (query : DenseSearchQuery κ) : Nat :=
  min query.limit (points.countP (visible query))

def windowOf (query : DenseSearchQuery κ) : Nat := window (limitOf query) (excludedLen query)

/-- Enough visible candidates fit into the window beside the hidden ones scored before them, and
    the visible points lost to the pushed-down filter are no better than as many visible ones.
    A limit of nothing is kept only where the hidden candidates fill the whole window. -/
def WindowSuffices (query : DenseSearchQuery κ) : Prop :=
  WindowFits (limitOf query) (excludedLen query) ∧
    (query.limit = 0 → ∀ point ∈ candidates accepts points query, visible query point = true →
      windowOf query ≤ (candidates accepts points query).countP fun other =>
        decide (point.score < other.score)) ∧
    (query.limit ≠ 0 →
      wanted points query ≤ (candidates accepts points query).countP
          (fits RatedPoint.score (visible query) (candidates accepts points query)
            (windowOf query) (wanted points query)) ∧
        ∀ lost ∈ points, visible query lost = true → pushedDown accepts query lost = false →
          wanted points query ≤ (candidates accepts points query).countP fun other =>
            visible query other && decide (lost.score ≤ other.score))

section Answers

variable {accepts : SimvecFilter → (String → Option JsonScalar) → Bool}
  {points results : List (RatedPoint κ)} {query : DenseSearchQuery κ}

theorem best_searchDense (query : DenseSearchQuery κ) (results : List (RatedPoint κ)) :
    Best ScoredPoint.score ((results.filter (visible query)).map scoredPoint) (limitOf query)
      (searchDense query results) :=
  best_take_sortDescending _ _ _

theorem searchDense_descends (query : DenseSearchQuery κ) (results : List (RatedPoint κ)) :
    (searchDense query results).Pairwise fun a b => b.score ≤ a.score :=
  (pairwise_sortDescending _ _).sublist (take_sublist _ _)

theorem length_searchDense (query : DenseSearchQuery κ) (results : List (RatedPoint κ)) :
    (searchDense query results).length = min (limitOf query) (results.countP (visible query)) := by
  obtain ⟨-, -, length, -⟩ := best_searchDense query results
  rw [length, length_map, countP_eq_length_filter]

theorem pushedDown_congr {a b : RatedPoint κ} (same : scoredPoint a = scoredPoint b) :
    pushedDown accepts query a = pushedDown accepts query b := by
  have payload : a.payload = b.payload := congrArg ScoredPoint.payload same
  have score : a.score = b.score := congrArg ScoredPoint.score same
  rw [pushedDown, pushedDown, payload, score]

theorem visiblePoints_perm {rest : List (RatedPoint κ)}
    (split : (results ++ rest).Perm (candidates accepts points query)) :
    (((results.filter (visible query)).map scoredPoint) ++
      ((rest.filter (visible query)).map scoredPoint ++
        (((points.filter fun point => !pushedDown accepts query point).filter
          (visible query)).map scoredPoint))).Perm (visiblePoints points query) := by
  rw [← map_append, ← map_append, visiblePoints]
  refine List.Perm.map _ ?_
  rw [← append_assoc, ← filter_append, ← filter_append]
  refine List.Perm.filter _ ?_
  exact (split.append_right _).trans (filter_append_perm _ _)

theorem exact_of_full (positive : query.limit ≠ 0)
    (answered : Best RatedPoint.score (candidates accepts points query) (windowOf query) results)
    (full : wanted points query ≤ results.countP (visible query))
    (lost : ∀ lost ∈ points, visible query lost = true → pushedDown accepts query lost = false →
      wanted points query ≤ (candidates accepts points query).countP fun other =>
        visible query other && decide (lost.score ≤ other.score)) :
    Exact points query (searchDense query results) := by
  refine ⟨?_, searchDense_descends query results⟩
  have limit : limitOf query = query.limit := by
    rw [limitOf]
    omega
  have length := length_searchDense query results
  have best := best_searchDense query results
  rw [limit] at length best
  have answeredWhole := answered
  obtain ⟨rest, split, -, order⟩ := answered
  obtain ⟨others, chosen, -, above⟩ := best
  have total := (visiblePoints_perm split).length_eq
  have inside : results.countP (visible query) ≤ points.countP (visible query) := by
    have parts : (visiblePoints points query).length = points.countP (visible query) := by
      rw [visiblePoints, length_map, countP_eq_length_filter]
    rw [length_append, length_map, ← countP_eq_length_filter] at total
    omega
  have size : (searchDense query results).length = wanted points query := by
    rw [length, wanted]
    rw [wanted] at full
    omega
  refine ⟨others ++ ((rest.filter (visible query)).map scoredPoint ++
      (((points.filter fun point => !pushedDown accepts query point).filter
        (visible query)).map scoredPoint)), ?_, ?_, ?_⟩
  · rw [← append_assoc]
    exact (chosen.append_right _).trans (visiblePoints_perm split)
  · rw [size, wanted, visiblePoints, length_map, countP_eq_length_filter]
  · have source : ∀ a ∈ searchDense query results, ∃ r ∈ results, a.score = r.score := by
      intro a aMem
      obtain ⟨r, rMem, rfl⟩ := mem_map.1 (chosen.mem_iff.1 (mem_append_left _ aMem))
      exact ⟨r, mem_of_mem_filter rMem, rfl⟩
    intro a aMem b bMem
    obtain ⟨r, rMem, same⟩ := source a aMem
    rcases mem_append.1 bMem with other | bMem
    · exact above a aMem b other
    · rcases mem_append.1 bMem with left | missed
      · obtain ⟨o, oMem, rfl⟩ := mem_map.1 left
        rw [same]
        exact order r rMem o (mem_of_mem_filter oMem)
      · obtain ⟨l, lMem, rfl⟩ := mem_map.1 missed
        obtain ⟨outside, seen⟩ := mem_filter.1 lMem
        obtain ⟨stored, unpushed⟩ := mem_filter.1 outside
        have many := lost l stored seen (by simpa using unpushed)
        by_contra worse
        have worse : r.score < l.score := same ▸ lt_of_not_ge worse
        -- as many visible points as are wanted would be better than one that was chosen
        rw [answeredWhole.countP_le rMem worse] at many
        have counted : results.countP (fun other => visible query other &&
            decide (l.score ≤ other.score)) =
            ((results.filter (visible query)).map scoredPoint).countP
              fun other => decide (l.score ≤ other.score) := by
          rw [countP_map, countP_filter]
          refine countP_congr fun other _ => ?_
          rw [Bool.and_eq_true, Bool.and_eq_true]
          exact and_comm
        have outside : others.countP (fun other => decide (l.score ≤ other.score)) = 0 := by
          rw [countP_eq_zero]
          intro other otherMem held
          have bound := (of_decide_eq_true held).trans (above a aMem other otherMem)
          rw [same] at bound
          exact absurd bound (not_le_of_gt worse)
        rw [counted, ← chosen.countP_eq, countP_append, outside, Nat.add_zero] at many
        have proper : (searchDense query results).countP
            (fun other => decide (l.score ≤ other.score)) < (searchDense query results).length := by
          refine lt_of_le_of_ne countP_le_length fun all => ?_
          have bound := of_decide_eq_true (countP_eq_length.1 all a aMem)
          rw [same] at bound
          exact absurd bound (not_le_of_gt worse)
        omega

theorem length_of_exact (exact : Exact points query (searchDense query results)) :
    (searchDense query results).length = wanted points query := by
  obtain ⟨⟨-, -, length, -⟩, -⟩ := exact
  rw [length, wanted, visiblePoints, length_map, countP_eq_length_filter]

theorem lost_le_of_exact (exact : Exact points query (searchDense query results))
    (answered : Best RatedPoint.score (candidates accepts points query) (windowOf query) results)
    {lost : RatedPoint κ} (stored : lost ∈ points) (seen : visible query lost = true)
    (unpushed : pushedDown accepts query lost = false) :
    ∀ a ∈ searchDense query results, lost.score ≤ a.score := by
  obtain ⟨⟨rest, split, -, order⟩, -⟩ := exact
  obtain ⟨left, returned, -, -⟩ := answered
  obtain ⟨others, chosen, -, -⟩ := best_searchDense query results
  have mem : scoredPoint lost ∈ visiblePoints points query :=
    mem_map_of_mem (mem_filter.2 ⟨stored, seen⟩)
  intro a aMem
  rcases mem_append.1 (split.mem_iff.2 mem) with answer | outside
  · obtain ⟨r, rMem, same⟩ :=
      mem_map.1 (chosen.mem_iff.1 (mem_append_left _ answer))
    have candidate := returned.mem_iff.1 (mem_append_left _ (mem_of_mem_filter rMem))
    have pushed := (mem_filter.1 candidate).2
    rw [pushedDown_congr same, unpushed] at pushed
    cases pushed
  · exact order a aMem _ outside

theorem length_le_countP {bound : κ}
    (answered : Best RatedPoint.score (candidates accepts points query) (windowOf query) results)
    (above : ∀ a ∈ searchDense query results, bound ≤ a.score) :
    (searchDense query results).length ≤ (candidates accepts points query).countP fun other =>
      visible query other && decide (bound ≤ other.score) := by
  obtain ⟨left, returned, -, -⟩ := answered
  obtain ⟨others, chosen, -, -⟩ := best_searchDense query results
  have all : (searchDense query results).countP (fun a => decide (bound ≤ a.score)) =
      (searchDense query results).length :=
    countP_eq_length.2 fun a mem => decide_eq_true (above a mem)
  have fewer : (searchDense query results).countP (fun a => decide (bound ≤ a.score)) ≤
      ((results.filter (visible query)).map scoredPoint).countP
        fun a => decide (bound ≤ a.score) := by
    rw [← chosen.countP_eq, countP_append]
    exact Nat.le_add_right _ _
  have counted : ((results.filter (visible query)).map scoredPoint).countP
      (fun a => decide (bound ≤ a.score)) =
      results.countP fun other => visible query other && decide (bound ≤ other.score) := by
    rw [countP_map, countP_filter]
    refine countP_congr fun other _ => ?_
    rw [Bool.and_eq_true, Bool.and_eq_true]
    exact and_comm
  have inside : results.countP (fun other => visible query other &&
      decide (bound ≤ other.score)) ≤ (candidates accepts points query).countP fun other =>
        visible query other && decide (bound ≤ other.score) := by
    rw [← returned.countP_eq, countP_append]
    exact Nat.le_add_right _ _
  omega

theorem exact_zero_iff (zero : query.limit = 0) :
    Exact points query (searchDense query results) ↔
      ∀ point ∈ results, visible query point = false := by
  have length := length_searchDense query results
  have one : limitOf query = 1 := by
    rw [limitOf, zero]
    rfl
  rw [one] at length
  constructor
  · intro exact point mem
    by_contra seen
    have shown : 0 < results.countP (visible query) :=
      countP_pos_iff.2 ⟨point, mem, Bool.eq_true_of_not_eq_false seen⟩
    have nothing := length_of_exact exact
    rw [wanted, zero] at nothing
    omega
  · intro dark
    have none_shown : results.countP (visible query) = 0 :=
      countP_eq_zero.2 fun point mem => by simp [dark point mem]
    have nothing : searchDense query results = [] := by
      apply eq_nil_of_length_eq_zero
      omega
    rw [nothing, Exact, zero]
    exact ⟨⟨visiblePoints points query, List.Perm.refl _, by simp, by simp⟩, List.Pairwise.nil⟩

/-- A filtered search is exact exactly where its window suffices. -/
theorem searchExact_iff (accepts : SimvecFilter → (String → Option JsonScalar) → Bool)
    (points : List (RatedPoint κ)) (query : DenseSearchQuery κ) :
    SearchExact accepts points query ↔ WindowSuffices accepts points query := by
  rw [SearchExact, WindowSuffices]
  refine and_congr_right fun fits => ?_
  rw [overfetchLimit_eq fits]
  show (∀ results, Best RatedPoint.score (candidates accepts points query) (windowOf query)
    results → Exact points query (searchDense query results)) ↔ _
  by_cases zero : query.limit = 0
  · constructor
    · intro exact
      refine ⟨fun _ point mem seen => ?_, fun positive => absurd zero positive⟩
      by_contra room
      obtain ⟨best, answered, b, bMem, shown⟩ :=
        exists_best_visible mem seen (lt_of_not_ge room)
      have dark := (exact_zero_iff zero).1 (exact best answered) b bMem
      rw [shown] at dark
      cases dark
    · intro suffices_ results answered
      exact (exact_zero_iff zero).2 (answered.visible_eq_false (suffices_.1 zero))
  · constructor
    · intro exact
      refine ⟨fun none_ => absurd none_ zero, fun _ => ⟨?_, fun lost stored seen unpushed => ?_⟩⟩
      · by_contra short
        obtain ⟨best, answered, few⟩ := exists_best_countP_lt (lt_of_not_ge short)
        have length := length_searchDense query best
        rw [length_of_exact (exact best answered)] at length
        omega
      · obtain ⟨best, rest, split, length, order⟩ := exists_best_preferring RatedPoint.score
          (fun _ => true) (candidates accepts points query) (windowOf query)
        have answered := Best.of_preferring split length order
        have sound := exact best answered
        rw [← length_of_exact sound]
        exact length_le_countP answered (lost_le_of_exact sound answered stored seen unpushed)
    · intro suffices_ results answered
      obtain ⟨enough, lost⟩ := suffices_.2 zero
      exact exact_of_full zero answered (answered.le_countP_visible enough) lost

end Answers

def pointOf (filePath : String) (score : Nat) : RatedPoint Nat where
  id := filePath
  score := score
  payload :=
    { sourceId := filePath, filePath := filePath, groupId := none, type := none, category := none,
      test := none, generated := none, dependency := none, epoch := none }

/-- One hit is asked for below a directory, and a sibling directory fills the window. -/
theorem search_inexact : ¬∀ (accepts : SimvecFilter → (String → Option JsonScalar) → Bool)
    (points : List (RatedPoint Nat)) (query : DenseSearchQuery Nat),
    SearchExact accepts points query := by
  intro exact
  let query : DenseSearchQuery Nat :=
    { limit := 1, filter := some { directoryPrefix := some "src" } }
  let hidden := replicate 25 (pointOf "docs/a.md" 2)
  let points := hidden ++ [pointOf "src/lib.rs" 1]
  have answered : Best RatedPoint.score (candidates simvecAccepts points query)
      (overfetchLimit (limitOf query) (excludedLen query)) hidden := by
    refine ⟨[pointOf "src/lib.rs" 1], ?_, by decide, ?_⟩
    · have all : candidates simvecAccepts points query = points :=
        filter_eq_self.2 fun _ _ => rfl
      rw [all]
    · intro a aMem b bMem
      rw [(mem_replicate.1 aMem).2, mem_singleton.1 bMem]
      decide
  have sound := (exact simvecAccepts points query).2 hidden answered
  have wantedOne : wanted points query = 1 := by decide +kernel
  have none_shown : hidden.countP (visible query) = 0 := by decide +kernel
  have length := length_searchDense query hidden
  rw [length_of_exact sound, wantedOne, none_shown] at length
  cases length

end LocalVectorStore

end ContextEngine

/- digest: What the merge of two chunks keeps of their ids, labels, keywords and source ranges. -/

import ContextEngine.Chunking.MergeFixpoint

set_option autoImplicit false

namespace ContextEngine

open List

section FirstOccurrence

variable {α : Type} [DecidableEq α]

theorem idxOf_lt_of_filter {l : List α} {p : α → Bool} {x y : α} (passes : p y = true)
    (lt : (l.filter p).idxOf x < (l.filter p).idxOf y) : l.idxOf x < l.idxOf y := by
  induction l with
  | nil => exact absurd lt (Nat.lt_irrefl _)
  | cons a l ih =>
    by_cases first : a = x
    · subst first
      have other : a ≠ y := by
        rintro rfl
        exact Nat.lt_irrefl _ lt
      rw [idxOf_cons_self, idxOf_cons_ne l other]
      exact Nat.succ_pos _
    · by_cases second : a = y
      · subst second
        rw [filter_cons_of_pos passes, idxOf_cons_self] at lt
        exact absurd lt (Nat.not_lt_zero _)
      · rw [idxOf_cons_ne l first, idxOf_cons_ne l second]
        refine Nat.succ_lt_succ (ih ?_)
        cases kept : p a with
        | true =>
          rw [filter_cons_of_pos kept, idxOf_cons_ne _ first, idxOf_cons_ne _ second] at lt
          exact Nat.lt_of_succ_lt_succ lt
        | false => rwa [filter_cons_of_neg (by simp [kept])] at lt

theorem pairwise_idxOf_eraseDups (l : List α) :
    l.eraseDups.Pairwise fun x y => l.idxOf x < l.idxOf y := by
  induction size : l.length using Nat.strong_induction_on generalizing l with
  | _ n ih =>
    cases l with
    | nil => simp
    | cons a l =>
      rw [eraseDups_cons, pairwise_cons]
      have other : ∀ x ∈ (l.filter fun b => !b == a).eraseDups, a ≠ x := by
        rintro x mem rfl
        have passes := (mem_filter.1 (mem_eraseDups.1 mem)).2
        simp at passes
      constructor
      · intro x mem
        rw [idxOf_cons_self, idxOf_cons_ne l (other x mem)]
        exact Nat.succ_pos _
      · have shorter := length_filter_le (fun b => !b == a) l
        have rest := ih _ (by rw [← size, length_cons]; omega)
          (l.filter fun b => !b == a) rfl
        refine rest.imp_of_mem fun {x y} xMem yMem lt => ?_
        rw [idxOf_cons_ne l (other x xMem), idxOf_cons_ne l (other y yMem)]
        exact Nat.succ_lt_succ (idxOf_lt_of_filter (mem_filter.1 (mem_eraseDups.1 yMem)).2 lt)

/-- Behind its run, an element does not occur again. -/
def RunsTogether : List α → Prop
  | [] => True
  | a :: l => a ∉ l.dropWhile (· = a) ∧ RunsTogether l

theorem mem_dedupRuns_go {kept x : α} {l : List α} :
    x ∈ kept :: dedupRuns.go (fun x y => x = y) kept l ↔ x ∈ kept :: l := by
  induction l generalizing kept with
  | nil => rfl
  | cons b l ih =>
    rw [dedupRuns.go]
    by_cases same : b = kept
    · subst same
      rw [if_pos (by simp), ih]
      simp
    · rw [if_neg (by simp [same]), mem_cons, ih, ← mem_cons]

/-- One of each run is left; these differ where every element has one run. -/
theorem nodup_dedupRuns_iff (l : List α) :
    (dedupRuns (fun x y => x = y) l).Nodup ↔ RunsTogether l := by
  have behind : ∀ (l : List α) (kept : α),
      (kept :: dedupRuns.go (fun x y => x = y) kept l).Nodup ↔ RunsTogether (kept :: l) := by
    intro l
    induction l with
    | nil => simp [dedupRuns.go, RunsTogether]
    | cons b l ih =>
      intro kept
      rw [dedupRuns.go]
      by_cases same : b = kept
      · subst same
        rw [if_pos (by simp), ih]
        show _ ↔ b ∉ (b :: l).dropWhile (· = b) ∧ RunsTogether (b :: l)
        rw [dropWhile_cons_of_pos (by simp)]
        exact ⟨fun together => ⟨together.1, together⟩, And.right⟩
      · rw [if_neg (by simp [same]), nodup_cons, ih, mem_dedupRuns_go]
        show _ ↔ kept ∉ (b :: l).dropWhile (· = kept) ∧ RunsTogether (b :: l)
        rw [dropWhile_cons_of_neg (by simp [same])]
  cases l with
  | nil => simp [dedupRuns, RunsTogether]
  | cons a l => exact behind l a

theorem find?_dedupRuns {β : Type} (l : List (α × β)) (key : α) :
    (dedupRuns (fun x y => x.1 = y.1) l).find? (fun entry => entry.1 = key) =
      l.find? fun entry => entry.1 = key := by
  have behind : ∀ (l : List (α × β)) (kept : α × β),
      (kept :: dedupRuns.go (fun x y => x.1 = y.1) kept l).find? (fun entry => entry.1 = key) =
        (kept :: l).find? fun entry => entry.1 = key := by
    intro l
    induction l with
    | nil => exact fun _ => rfl
    | cons b l ih =>
      intro kept
      rw [dedupRuns.go]
      by_cases here : kept.1 = key
      · split
        · rw [ih, find?_cons_of_pos (by simp [here]), find?_cons_of_pos
            (by simp [here])]
        · rw [find?_cons_of_pos (by simp [here]), find?_cons_of_pos (by simp [here])]
      · by_cases same : b.1 = kept.1
        · rw [if_pos (by simp [same]), ih]
          simp only [find?_cons, same, here, decide_false]
        · rw [if_neg (by simp [same])]
          have later := ih b
          simp only [find?_cons, here, decide_false] at later ⊢
          exact later
  cases l with
  | nil => rfl
  | cons a l => exact behind l a

end FirstOccurrence

section Ranges

variable (ranges : List Span)

def InRanges (byte : Nat) : Prop :=
  ∃ range ∈ ranges, range.startByte ≤ byte ∧ byte < range.endByte

/-- The ranges made of the given ones: in order and apart, over the same bytes and those between
two that are one byte apart. -/
structure MergedRanges (given merged : List Span) : Prop where
  sorted : merged.Pairwise fun x y => x.startByte ≤ y.startByte
  separated : merged.Pairwise fun x y => x.endByte + 1 < y.startByte
  kept : ∀ byte, InRanges given byte → InRanges merged byte
  joined : ∀ byte, InRanges merged byte → InRanges given byte ∨
    ∃ before ∈ given, ∃ behind ∈ given, before.endByte = byte ∧ behind.startByte = byte + 1
  starts : ∀ range ∈ merged, ∃ source ∈ given, source.startByte = range.startByte
  ends : ∀ range ∈ merged, ∃ source ∈ given, source.endByte = range.endByte

theorem mergeRanges_append_singleton (span : Span) :
    mergeRanges (ranges ++ [span]) = match (mergeRanges ranges).getLast? with
      | some last =>
        if span.startByte ≤ last.endByte + 1 then
          if last.endByte < span.endByte then
            (mergeRanges ranges).dropLast ++ [{ last with endByte := span.endByte
                                                          endPosition := span.endPosition }]
          else mergeRanges ranges
        else mergeRanges ranges ++ [span]
      | none => mergeRanges ranges ++ [span] := by
  rw [mergeRanges, foldl_append]
  rfl

variable {given given' merged init : List Span} {span last : Span}

theorem InRanges.append_left {ranges others : List Span} {byte : Nat}
    (inside : InRanges ranges byte) :
    InRanges (ranges ++ others) byte := by
  obtain ⟨range, mem, bounds⟩ := inside
  exact ⟨range, mem_append_left _ mem, bounds⟩

theorem inRanges_append_singleton {ranges : List Span} {byte : Nat} :
    InRanges (ranges ++ [span]) byte ↔
      InRanges ranges byte ∨ (span.startByte ≤ byte ∧ byte < span.endByte) := by
  simp only [InRanges, mem_append, mem_singleton, or_and_right, exists_or, exists_eq_left]

theorem MergedRanges.push (ranges : MergedRanges given merged)
    (behind : ∀ range ∈ given, range.startByte ≤ span.startByte)
    (apart : ∀ range ∈ merged, range.endByte + 1 < span.startByte) :
    MergedRanges (given ++ [span]) (merged ++ [span]) where
  sorted := by
    refine pairwise_append.2 ⟨ranges.sorted, pairwise_singleton .., fun x mem y single => ?_⟩
    obtain ⟨source, given, starts⟩ := ranges.starts x mem
    rw [mem_singleton.1 single, ← starts]
    exact behind source given
  separated := by
    refine pairwise_append.2 ⟨ranges.separated, pairwise_singleton .., fun x mem y single => ?_⟩
    rw [mem_singleton.1 single]
    exact apart x mem
  kept byte inside := by
    rw [inRanges_append_singleton] at inside ⊢
    exact inside.imp_left (ranges.kept byte)
  joined byte inside := by
    rw [inRanges_append_singleton] at inside ⊢
    rcases inside with old | new
    · rcases ranges.joined byte old with covered | ⟨x, xMem, y, yMem, gap⟩
      · exact Or.inl (Or.inl covered)
      · exact Or.inr ⟨x, mem_append_left _ xMem, y, mem_append_left _ yMem, gap⟩
    · exact Or.inl (Or.inr new)
  starts range mem := by
    rcases mem_append.1 mem with old | single
    · obtain ⟨source, given, starts⟩ := ranges.starts range old
      exact ⟨source, mem_append_left _ given, starts⟩
    · exact ⟨span, by simp, by rw [mem_singleton.1 single]⟩
  ends range mem := by
    rcases mem_append.1 mem with old | single
    · obtain ⟨source, given, ends⟩ := ranges.ends range old
      exact ⟨source, mem_append_left _ given, ends⟩
    · exact ⟨span, by simp, by rw [mem_singleton.1 single]⟩

theorem MergedRanges.extend (ranges : MergedRanges given (init ++ [last]))
    (behind : ∀ range ∈ given, range.startByte ≤ span.startByte)
    (touches : span.startByte ≤ last.endByte + 1) {drawn : Span}
    (start : drawn.startByte = last.startByte)
    (stop : drawn.endByte = max last.endByte span.endByte) :
    MergedRanges (given ++ [span]) (init ++ [drawn]) := by
  obtain ⟨first, firstGiven, starts⟩ := ranges.starts last (by simp)
  obtain ⟨final, finalGiven, ends⟩ := ranges.ends last (by simp)
  have before : last.startByte ≤ span.startByte := starts ▸ behind first firstGiven
  have drawnOut : ∀ byte, InRanges (init ++ [last]) byte → InRanges (init ++ [drawn]) byte := by
    intro byte inside
    rw [inRanges_append_singleton] at inside ⊢
    exact inside.imp_right fun bounds => by omega
  have sorted := ranges.sorted
  have separated := ranges.separated
  rw [pairwise_append] at sorted separated
  exact {
    sorted := by
      refine pairwise_append.2 ⟨sorted.1, pairwise_singleton .., fun x mem y single => ?_⟩
      rw [mem_singleton.1 single, start]
      exact sorted.2.2 x mem last (mem_singleton_self _)
    separated := by
      refine pairwise_append.2 ⟨separated.1, pairwise_singleton .., fun x mem y single => ?_⟩
      rw [mem_singleton.1 single, start]
      exact separated.2.2 x mem last (mem_singleton_self _)
    kept := fun byte inside => by
      rw [inRanges_append_singleton] at inside
      rcases inside with old | new
      · exact drawnOut byte (ranges.kept byte old)
      · rw [inRanges_append_singleton]
        right
        omega
    joined := fun byte inside => by
      rw [inRanges_append_singleton] at inside
      by_cases old : InRanges (init ++ [last]) byte
      · rcases ranges.joined byte old with covered | ⟨x, xMem, y, yMem, gap⟩
        · exact Or.inl covered.append_left
        · exact Or.inr ⟨x, mem_append_left _ xMem, y, mem_append_left _ yMem, gap⟩
      · rw [inRanges_append_singleton, not_or] at old
        have bounds := inside.resolve_left old.1
        rw [inRanges_append_singleton]
        by_cases reached : span.startByte ≤ byte
        · exact Or.inl (Or.inr ⟨reached, by omega⟩)
        · exact Or.inr ⟨final, mem_append_left _ finalGiven, span, by simp, by omega, by omega⟩
    starts := fun range mem => by
      rcases mem_append.1 mem with old | single
      · obtain ⟨source, isGiven, starts⟩ := ranges.starts range (mem_append_left _ old)
        exact ⟨source, mem_append_left _ isGiven, starts⟩
      · rw [mem_singleton.1 single, start]
        exact ⟨first, mem_append_left _ firstGiven, starts⟩
    ends := fun range mem => by
      rcases mem_append.1 mem with old | single
      · obtain ⟨source, isGiven, ends⟩ := ranges.ends range (mem_append_left _ old)
        exact ⟨source, mem_append_left _ isGiven, ends⟩
      · rw [mem_singleton.1 single, stop]
        rcases Nat.le_total last.endByte span.endByte with longer | shorter
        · exact ⟨span, by simp, (Nat.max_eq_right longer).symm⟩
        · exact ⟨final, mem_append_left _ finalGiven, by rw [ends, Nat.max_eq_left shorter]⟩ }

theorem mergedRanges_mergeRanges
    (sorted : ranges.Pairwise fun x y => x.startByte ≤ y.startByte) :
    MergedRanges ranges (mergeRanges ranges) := by
  induction ranges using reverseRecOn with
  | nil =>
    refine ⟨List.Pairwise.nil, List.Pairwise.nil, fun byte none => none,
      fun byte none => Or.inl none,
      fun range mem => absurd mem not_mem_nil, fun range mem => absurd mem not_mem_nil⟩
  | append_singleton front span ih =>
    rw [pairwise_append] at sorted
    have merged := ih sorted.1
    have behind : ∀ range ∈ front, range.startByte ≤ span.startByte := fun range mem =>
      sorted.2.2 range mem span (mem_singleton_self _)
    rw [mergeRanges_append_singleton]
    rcases eq_nil_or_concat (mergeRanges front) with none | ⟨init, last, whole⟩
    · rw [none] at merged ⊢
      exact merged.push behind fun range mem => absurd mem not_mem_nil
    · rw [concat_eq_append] at whole
      rw [whole] at merged ⊢
      rw [getLast?_concat]
      simp only [dropLast_concat]
      split_ifs with touches longer
      · exact merged.extend behind touches rfl (Nat.max_eq_right (Nat.le_of_lt longer)).symm
      · exact merged.extend behind touches rfl (Nat.max_eq_left (Nat.le_of_not_lt longer)).symm
      · refine merged.push behind fun range mem => ?_
        have separated := pairwise_append.1 merged.separated
        obtain ⟨source, isGiven, starts⟩ := merged.starts last (by simp)
        have before := behind source isGiven
        rcases mem_append.1 mem with earlier | single
        · have gap := separated.2.2 range earlier last (mem_singleton_self _)
          omega
        · rw [mem_singleton.1 single]
          omega

theorem MergedRanges.congr (ranges : MergedRanges given merged)
    (same : ∀ range, range ∈ given ↔ range ∈ given') : MergedRanges given' merged := by
  have covered : ∀ byte, InRanges given byte ↔ InRanges given' byte := fun byte =>
    exists_congr fun range => and_congr_left fun _ => same range
  exact {
    sorted := ranges.sorted
    separated := ranges.separated
    kept := fun byte inside => ranges.kept byte ((covered byte).2 inside)
    joined := fun byte inside => by
      rcases ranges.joined byte inside with old | ⟨x, xMem, y, yMem, gap⟩
      · exact Or.inl ((covered byte).1 old)
      · exact Or.inr ⟨x, (same x).1 xMem, y, (same y).1 yMem, gap⟩
    starts := fun range mem => by
      obtain ⟨source, isGiven, starts⟩ := ranges.starts range mem
      exact ⟨source, (same source).1 isGiven, starts⟩
    ends := fun range mem => by
      obtain ⟨source, isGiven, ends⟩ := ranges.ends range mem
      exact ⟨source, (same source).1 isGiven, ends⟩ }

theorem encloses_foldl_enclosing (rest : List Span) (first : Span) :
    ∀ range ∈ first :: rest, (rest.foldl enclosing first).startByte ≤ range.startByte ∧
      range.endByte ≤ (rest.foldl enclosing first).endByte := by
  have kept : ∀ (rest : List Span) (first : Span),
      (rest.foldl enclosing first).startByte ≤ first.startByte ∧
        first.endByte ≤ (rest.foldl enclosing first).endByte ∧
        ∀ range ∈ rest, (rest.foldl enclosing first).startByte ≤ range.startByte ∧
          range.endByte ≤ (rest.foldl enclosing first).endByte := by
    intro rest
    induction rest with
    | nil =>
      exact fun first => ⟨Nat.le_refl _, Nat.le_refl _,
        fun range mem => absurd mem not_mem_nil⟩
    | cons span rest ih =>
      intro first
      obtain ⟨low, high, all⟩ := ih (enclosing first span)
      have wider : (enclosing first span).startByte ≤ first.startByte ∧
          (enclosing first span).startByte ≤ span.startByte ∧
          first.endByte ≤ (enclosing first span).endByte ∧
          span.endByte ≤ (enclosing first span).endByte := by
        unfold enclosing
        split_ifs <;> simp only <;> omega
      refine ⟨by rw [foldl_cons]; omega, by rw [foldl_cons]; omega, fun range mem => ?_⟩
      rw [foldl_cons]
      rcases mem_cons.1 mem with rfl | later
      · omega
      · exact all range later
  intro range mem
  obtain ⟨low, high, all⟩ := kept rest first
  rcases mem_cons.1 mem with rfl | later
  · exact ⟨low, high⟩
  · exact all range later

theorem mergeSourceCoverage_spec (a b : ChunkMetadata) :
    MergedRanges (a.sourceRanges ++ b.sourceRanges) (mergeSourceCoverage a b).2.1 ∧
      ∀ range ∈ (mergeSourceCoverage a b).2.1,
        (mergeSourceCoverage a b).1.startByte ≤ range.startByte ∧
          range.endByte ≤ (mergeSourceCoverage a b).1.endByte := by
  let le := fun x y : Span =>
    decide (x.startByte < y.startByte ∨ (x.startByte = y.startByte ∧ x.endByte ≤ y.endByte))
  have ordered : ((a.sourceRanges ++ b.sourceRanges).mergeSort le).Pairwise fun x y =>
      le x y = true :=
    pairwise_mergeSort (fun x y z first second => by simp only [le, decide_eq_true_eq] at *; omega)
      (fun x y => by simp only [le, Bool.or_eq_true, decide_eq_true_eq]; omega) _
  have merged := (mergedRanges_mergeRanges _ (ordered.imp fun {x y} ordered => by
    simp only [le, decide_eq_true_eq] at ordered
    omega)).congr fun range => (mergeSort_perm (a.sourceRanges ++ b.sourceRanges) le).mem_iff
  unfold mergeSourceCoverage
  cases joined : mergeRanges ((a.sourceRanges ++ b.sourceRanges).mergeSort le) with
  | nil =>
    rw [joined] at merged
    simp only [le] at joined
    simp only [joined]
    exact ⟨merged, fun range mem => absurd mem not_mem_nil⟩
  | cons first rest =>
    rw [joined] at merged
    simp only [le] at joined
    simp only [joined]
    exact ⟨merged, encloses_foldl_enclosing rest first⟩

end Ranges

section Labels

variable {labels : CodeSpecificMetadata → List String} {a b : ChunkMetadata}

/-- The labels that both sides give to their ids, in order. -/
def givenLabels (labels : CodeSpecificMetadata → List String) (a b : ChunkMetadata) :
    List (EntityId × String) := aligned labels a ++ aligned labels b

/-- An id has a label for each id, and where an id was given a label, it has this one. -/
structure LabelsKept (labels : CodeSpecificMetadata → List String) (a b : ChunkMetadata)
    (ids : List EntityId) (merged : List String) : Prop where
  aligned : merged.length = ids.length
  kept : ∀ (i : Nat) (id : EntityId) (label : String), ids[i]? = some id →
    (id, label) ∈ givenLabels labels a b → label ≠ "" →
    merged[i]? = some label

def LabelledAtFirst (labels : CodeSpecificMetadata → List String) (a b : ChunkMetadata) : Prop :=
  ∀ id label first, (id, label) ∈ givenLabels labels a b → label ≠ "" →
    (givenLabels labels a b).find? (fun entry => entry.1 = id) = some first → first.2 = label

theorem map_fst_aligned (labels : CodeSpecificMetadata → List String) (metadata : ChunkMetadata) :
    (aligned labels metadata).map Prod.fst = metadata.contentEntityIds := by
  simp only [aligned]
  exact ext_getElem (by simp) fun i _ _ => by simp

theorem mem_unionOf_contentEntityIds {id : EntityId} :
    id ∈ unionOf CodeSpecificMetadata.contentEntityIds a b ↔
      ∃ label, (id, label) ∈ givenLabels labels a b := by
  have listed : id ∈ a.contentEntityIds ++ b.contentEntityIds ↔
      id ∈ (givenLabels labels a b).map Prod.fst := by
    rw [givenLabels, map_append, map_fst_aligned, map_fst_aligned]
  rw [unionOf, mem_eraseDups]
  refine listed.trans ?_
  rw [mem_map]
  constructor
  · rintro ⟨⟨id, label⟩, mem, rfl⟩
    exact ⟨label, mem⟩
  · rintro ⟨label, mem⟩
    exact ⟨(id, label), mem, rfl⟩

theorem getElem?_mergedLabels {ids : List EntityId} {i : Nat} {id : EntityId}
    (here : ids[i]? = some id) : (mergedLabels labels a b ids)[i]? =
      some (((givenLabels labels a b).find? fun entry => entry.1 = id).map Prod.snd |>.getD
        "") := by
  unfold mergedLabels
  simp only [getElem?_map, here, Option.map_some, find?_dedupRuns]
  rfl

theorem labelsKept_iff : LabelsKept labels a b (unionOf CodeSpecificMetadata.contentEntityIds a b)
    (mergedLabels labels a b (unionOf CodeSpecificMetadata.contentEntityIds a b)) ↔
      LabelledAtFirst labels a b := by
  constructor
  · intro keeps id label first mem solid found
    obtain ⟨i, here⟩ := mem_iff_getElem?.1 (mem_unionOf_contentEntityIds.2 ⟨label, mem⟩)
    have merged := keeps.kept i id label here mem solid
    rw [getElem?_mergedLabels here, found] at merged
    exact Option.some.inj merged
  · intro atFirst
    refine ⟨by simp [mergedLabels], fun i id label here mem solid => ?_⟩
    rw [getElem?_mergedLabels here]
    cases found : (givenLabels labels a b).find? fun entry => entry.1 = id with
    | none =>
      rw [find?_eq_none] at found
      exact absurd (by simp) (found (id, label) mem)
    | some first => exact congrArg some (atFirst id label first mem solid found)

end Labels

section Faithful

variable [CostModel] (a b : ChunkedResult)

/-- The merge of two chunks unites what it is said to unite. -/
structure UnitesMetadata (merged : ChunkedResult) : Prop where
  ids : ∀ id, id ∈ merged.metadata.contentEntityIds ↔
    id ∈ a.metadata.contentEntityIds ∨ id ∈ b.metadata.contentEntityIds
  order : merged.metadata.contentEntityIds.Pairwise fun x y =>
    (a.metadata.contentEntityIds ++ b.metadata.contentEntityIds).idxOf x <
      (a.metadata.contentEntityIds ++ b.metadata.contentEntityIds).idxOf y
  names : ∀ code, merged.metadata.codeMetadata = some code →
    LabelsKept CodeSpecificMetadata.contentEntityNames a.metadata b.metadata
      merged.metadata.contentEntityIds code.contentEntityNames
  kinds : ∀ code, merged.metadata.codeMetadata = some code →
    LabelsKept CodeSpecificMetadata.contentEntityKinds a.metadata b.metadata
      merged.metadata.contentEntityIds code.contentEntityKinds
  keywords : merged.bm25Keywords.Nodup
  ranges : MergedRanges (a.metadata.sourceRanges ++ b.metadata.sourceRanges)
    merged.metadata.sourceRanges
  enclosed : ∀ range ∈ merged.metadata.sourceRanges,
    merged.metadata.sourceSpan.startByte ≤ range.startByte ∧
      range.endByte ≤ merged.metadata.sourceSpan.endByte

/-- The merge unites the metadata exactly where no id is given a name or kind that is not at its
first occurrence, and the keywords of both sides repeat only next to each other. -/
theorem unitesMetadata_mergeTwoChunks_iff (combinedCost : Nat) :
    UnitesMetadata a b (mergeTwoChunks a b combinedCost) ↔
      LabelledAtFirst CodeSpecificMetadata.contentEntityNames a.metadata b.metadata ∧
        LabelledAtFirst CodeSpecificMetadata.contentEntityKinds a.metadata b.metadata ∧
        RunsTogether (a.bm25Keywords ++ b.bm25Keywords) := by
  have ids : (mergeTwoChunks a b combinedCost).metadata.contentEntityIds =
      (a.metadata.contentEntityIds ++ b.metadata.contentEntityIds).eraseDups := rfl
  have coverage := mergeSourceCoverage_spec a.metadata b.metadata
  constructor
  · intro unites
    exact ⟨labelsKept_iff.1 (unites.names _ rfl), labelsKept_iff.1 (unites.kinds _ rfl),
      (nodup_dedupRuns_iff _).1 unites.keywords⟩
  · rintro ⟨names, kinds, keywords⟩
    exact {
      ids := fun id => by rw [ids, mem_eraseDups, mem_append]
      order := by
        rw [ids]
        exact pairwise_idxOf_eraseDups _
      names := fun code same => by
        cases same
        exact labelsKept_iff.2 names
      kinds := fun code same => by
        cases same
        exact labelsKept_iff.2 kinds
      keywords := (nodup_dedupRuns_iff _).2 keywords
      ranges := coverage.1
      enclosed := coverage.2 }

end Faithful

section Sample

private def chunkOf (names keywords : List String) : ChunkedResult where
  chunkId := "group_embedding_0"
  sourceGroupId := "group"
  path := .bm25
  groupType := .standalone
  chunkIndex := 0
  totalChunks := 1
  text := "enter (function).".toList
  bm25Title := none
  bm25Keywords := keywords
  tokenCount := 2
  startByte := 0
  endByte := 17
  prevOverlap := none
  nextOverlap := none
  relatedGroups := []
  selfContained := false
  truncated := false
  metadata := ChunkMetadata.forCode "src/walk.rs" default .rust
    { (default : CodeSpecificMetadata) with contentEntityIds := [1], contentEntityNames := names }

/-- A fragment without names in front of one with them loses the name, and keywords of the file on
both sides come twice. -/
theorem mergedFragments_not_united :
    ¬ @UnitesMetadata (chunkOf [] ["enter"]) (chunkOf ["enter"] [])
        (@mergeTwoChunks quarterTokens (chunkOf [] ["enter"]) (chunkOf ["enter"] []) 4) ∧
      ¬ @UnitesMetadata (chunkOf ["enter"] ["walk", "enter"]) (chunkOf ["enter"] ["walk"])
        (@mergeTwoChunks quarterTokens (chunkOf ["enter"] ["walk", "enter"])
          (chunkOf ["enter"] ["walk"]) 4) := by
  constructor
  · intro unites
    have named := (unites.names _ rfl).kept 0 1 "enter" rfl (by decide +kernel) (by decide)
    revert named
    decide +kernel
  · intro unites
    have once := unites.keywords
    revert once
    decide +kernel

end Sample

end ContextEngine

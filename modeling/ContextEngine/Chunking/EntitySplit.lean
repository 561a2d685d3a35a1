/- digest: Cutting a range where its entities and its nested groups begin. -/

import ContextEngine.Chunking.ChunkedResult
import ContextEngine.Chunking.NameSearch
import ContextEngine.Chunking.TokenSplit

set_option autoImplicit false

namespace ContextEngine

open List Offsets

section Spans

variable {β : Type} (start stop : β → Nat)

def disjointSpans (spans : List β) : List β :=
  dropOverlaps start stop (spans.mergeSort fun a b =>
    decide (start a < start b ∨ (start a = start b ∧ stop a ≤ stop b)))

/-- Where the next span begins within the range, or else where the range ends. -/
def nextStart (low high : Nat) (spans : List β) : Nat :=
  (spans.head?.map fun span => clamp (start span) low high).getD high

variable {start stop} {low high : Nat}

theorem mem_of_mem_disjointSpans {b : β} {spans : List β}
    (isMem : b ∈ disjointSpans start stop spans) : b ∈ spans :=
  mem_mergeSort.1 (mem_of_mem_dropOverlaps isMem)

theorem isChain_disjointSpans (spans : List β) :
    (disjointSpans start stop spans).IsChain fun a b => stop a ≤ start b :=
  isChain_dropOverlaps _

theorem clamp_le (position : Nat) (low high : Nat) : clamp position low high ≤ high :=
  Nat.min_le_right _ _

theorem le_clamp (position : Nat) (le : low ≤ high) : low ≤ clamp position low high :=
  Nat.le_min.2 ⟨Nat.le_max_right _ _, le⟩

theorem clamp_mono {position later : Nat} (le : position ≤ later) (low high : Nat) :
    clamp position low high ≤ clamp later low high := by
  simp only [clamp]
  omega

theorem cut_clamp {text : Text} {position : Nat} (cut : Cut text position)
    (cutLow : Cut text low) (cutHigh : Cut text high) : Cut text (clamp position low high) := by
  have one : clamp position low high = position ∨ clamp position low high = low ∨
      clamp position low high = high := by
    simp only [clamp]
    omega
  rcases one with same | same | same <;> rw [same] <;> assumption

theorem clamp_le_nextStart {span : β} {rest : List β}
    (apart : (span :: rest).IsChain fun a b => stop a ≤ start b) (low high : Nat) :
    clamp (stop span) low high ≤ nextStart start low high rest := by
  cases rest with
  | nil => exact clamp_le _ _ _
  | cons next rest => exact clamp_mono (isChain_cons_cons.1 apart).1 _ _

theorem le_nextStart (start : β → Nat) (le : low ≤ high) (spans : List β) :
    low ≤ nextStart start low high spans := by
  cases spans with
  | nil => exact le
  | cons span rest => exact le_clamp _ le

theorem nextStart_le (start : β → Nat) (low high : Nat) (spans : List β) :
    nextStart start low high spans ≤ high := by
  cases spans with
  | nil => exact Nat.le_refl _
  | cons span rest => exact clamp_le _ _ _

theorem cut_nextStart {text : Text} {spans : List β} (cuts : ∀ span ∈ spans, Cut text (start span))
    (cutLow : Cut text low) (cutHigh : Cut text high) :
    Cut text (nextStart start low high spans) := by
  cases spans with
  | nil => exact cutHigh
  | cons span rest => exact cut_clamp (cuts span mem_cons_self) cutLow cutHigh

end Spans

section Members

variable [CostModel] (text : Text) (config : ChunkingConfig) (path : ChunkPath) (low high : Nat)

/-- The accumulators of `split_by_members_with_nl`. -/
structure MemberState where
  boundaries : List ChunkBoundary
  chunkStart : Nat
  chunkCost : Nat
  chunkEntities : List EntityId

def ChunkingConfig.minCost : ChunkPath → Nat
  | .bm25 => config.minChunkBm25Terms
  | .embedding => config.minChunkTokens

def MemberState.step (st : MemberState) (span : NlEntityBoundary) (next : Nat) : MemberState :=
  let startByte := clamp span.startByte low high
  let endByte := clamp span.endByte low high
  if endByte ≤ startByte then st
  else
    let limit := config.limit path
    let entityCost := ChunkingConfig.cost (slice text startByte endByte) path
    if limit < entityCost then
      let flushed :=
        if st.chunkEntities ≠ [] then
          st.boundaries ++ [ChunkBoundary.of st.chunkStart startByte .memberBoundary st.chunkCost
            st.chunkEntities none]
        else st.boundaries
      -- a gap in front of the first piece costs nothing and was never flushed
      let pieceStart := if flushed.isEmpty then st.chunkStart else startByte
      ⟨flushed ++ [ChunkBoundary.of pieceStart next .memberBoundary
        (ChunkingConfig.cost (slice text pieceStart next) path) [span.entityId] none], next, 0, []⟩
    else if limit < st.chunkCost + entityCost ∧ st.chunkEntities ≠ [] then
      if st.chunkCost < config.minCost path ∧ st.chunkCost + entityCost ≤ limit then
        { st with chunkCost := st.chunkCost + entityCost
                  chunkEntities := st.chunkEntities ++ [span.entityId] }
      else
        ⟨st.boundaries ++ [ChunkBoundary.of st.chunkStart startByte .memberBoundary st.chunkCost
          st.chunkEntities none], startByte, entityCost, [span.entityId]⟩
    else
      { st with chunkCost := st.chunkCost + entityCost
                chunkEntities := st.chunkEntities ++ [span.entityId] }

def MemberState.steps (st : MemberState) : List NlEntityBoundary → MemberState
  | [] => st
  | span :: rest =>
    (st.step text config path low high span
      (nextStart NlEntityBoundary.startByte low high rest)).steps rest

def splitByMembersWithNl (nlBoundaries : List NlEntityBoundary) : List ChunkBoundary :=
  let spans := disjointSpans NlEntityBoundary.startByte NlEntityBoundary.endByte
    (nlBoundaries.filter fun b => b.startByte < high && low < b.endByte)
  if spans.isEmpty then []
  else
    let st := MemberState.steps text config path low high ⟨[], low, 0, []⟩ spans
    if st.chunkEntities ≠ [] then
      st.boundaries ++ [ChunkBoundary.of st.chunkStart high .memberBoundary st.chunkCost
        st.chunkEntities none]
    else extendOrPushTrailing st.boundaries text st.chunkStart high path .memberBoundary

variable {text low high}

/-- In front of the next entity: what was emitted reaches to the open chunk, which is empty only
at the start or right in front of that entity. -/
structure MemberState.Sound (text : Text) (low next : Nat) (st : MemberState) : Prop where
  front : SplitPartition text low st.chunkStart st.boundaries
  cut : Cut text st.chunkStart
  le : st.chunkStart ≤ next
  held : st.chunkEntities ≠ [] → st.chunkStart < next
  free : st.chunkEntities = [] → st.boundaries ≠ [] → st.chunkStart = next

theorem MemberState.Sound.step {st : MemberState} {span : NlEntityBoundary} {next : Nat}
    (sound : st.Sound text low (clamp span.startByte low high))
    (cutStart : Cut text (clamp span.startByte low high)) (cutNext : Cut text next)
    (inside : clamp span.endByte low high ≤ next)
    (none : clamp span.endByte low high ≤ clamp span.startByte low high →
      next = clamp span.startByte low high) :
    (st.step text config path low high span next).Sound text low next := by
  have le := sound.le
  simp only [MemberState.step]
  generalize clamp span.startByte low high = startByte at *
  generalize clamp span.endByte low high = endByte at *
  by_cases empty : endByte ≤ startByte
  · rw [if_pos empty, none empty]
    exact sound
  · have proper : startByte < next := by omega
    have opens : st.chunkStart < next := by omega
    rw [if_neg empty]
    split
    · by_cases held : st.chunkEntities = []
      · rw [if_neg (not_not.2 held)]
        by_cases first : st.boundaries = []
        · simp only [first, isEmpty_nil, if_true]
          have front := sound.front
          rw [first] at front
          exact ⟨front.push rfl rfl opens sound.cut cutNext, cutNext, Nat.le_refl _, by simp,
            fun _ _ => rfl⟩
        · have reached := sound.free held first
          have front := sound.front
          rw [reached] at front
          rw [if_neg (by simpa using first)]
          exact ⟨front.push rfl rfl proper cutStart cutNext, cutNext, Nat.le_refl _, by simp,
            fun _ _ => rfl⟩
      · rw [if_pos held, if_neg (by simp)]
        have flushed := sound.front.push (b := ChunkBoundary.of st.chunkStart startByte
          .memberBoundary st.chunkCost st.chunkEntities Option.none) rfl rfl (sound.held held)
          sound.cut cutStart
        exact ⟨flushed.push rfl rfl proper cutStart cutNext, cutNext, Nat.le_refl _, by simp,
          fun _ _ => rfl⟩
    · split
      · rename_i overflows
        have lt := sound.held overflows.2
        split
        · exact ⟨sound.front, sound.cut, by simp only; omega, fun _ => by simp only; omega, by simp⟩
        · exact ⟨sound.front.push rfl rfl lt sound.cut cutStart, cutStart,
            Nat.le_of_lt proper, fun _ => proper, by simp⟩
      · exact ⟨sound.front, sound.cut, by simp only; omega, fun _ => by simp only; omega, by simp⟩

theorem MemberState.Sound.steps {spans : List NlEntityBoundary}
    (apart : spans.IsChain fun a b => a.endByte ≤ b.startByte)
    (cuts : ∀ span ∈ spans, Cut text span.startByte) (cutLow : Cut text low)
    (cutHigh : Cut text high) (le : low ≤ high)
    (reach : ∀ span ∈ spans, span.startByte < high ∧ low < span.endByte ∧
      span.startByte < span.endByte) {st : MemberState}
    (sound : st.Sound text low (nextStart NlEntityBoundary.startByte low high spans)) :
    (st.steps text config path low high spans).Sound text low high := by
  induction spans generalizing st with
  | nil => exact sound
  | cons span rest ih =>
    obtain ⟨starts, ends, proper⟩ := reach span mem_cons_self
    have cutsRest : ∀ span ∈ rest, Cut text span.startByte :=
      fun other isMem => cuts other (mem_cons_of_mem _ isMem)
    have inside := clamp_le_nextStart apart low high
    rw [MemberState.steps]
    apply ih apart.tail cutsRest fun other isMem => reach other (mem_cons_of_mem _ isMem)
    apply MemberState.Sound.step config path sound
      (cut_clamp (cuts span mem_cons_self) cutLow cutHigh)
      (cut_nextStart cutsRest cutLow cutHigh) inside
    intro none
    -- only an empty range leaves nothing of a span that meets it
    have empty : low = high := by
      simp only [clamp] at none
      omega
    have lower := le_nextStart NlEntityBoundary.startByte le rest
    have upper := nextStart_le NlEntityBoundary.startByte low high rest
    have first := le_clamp span.startByte le
    have last := clamp_le span.startByte low high
    omega

/-- The entities cut the range in a partition, if one of them meets it. -/
theorem splitByMembersWithNl_partition {nlBoundaries : List NlEntityBoundary}
    (aligned : ∀ b ∈ nlBoundaries, Cut text b.startByte ∧ b.startByte < b.endByte)
    (cutLow : Cut text low) (cutHigh : Cut text high) (le : low ≤ high) :
    splitByMembersWithNl text config path low high nlBoundaries = [] ∨ SplitPartition text low high
        (splitByMembersWithNl text config path low high nlBoundaries) := by
  simp only [splitByMembersWithNl]
  generalize spansEq : disjointSpans NlEntityBoundary.startByte NlEntityBoundary.endByte
    (nlBoundaries.filter fun b => b.startByte < high && low < b.endByte) = spans
  have reach : ∀ span ∈ spans, Cut text span.startByte ∧ span.startByte < high ∧
      low < span.endByte ∧ span.startByte < span.endByte := by
    intro span isMem
    rw [← spansEq] at isMem
    obtain ⟨given, meets⟩ := mem_filter.1 (mem_of_mem_disjointSpans isMem)
    simp only [Bool.and_eq_true, decide_eq_true_eq] at meets
    exact ⟨(aligned span given).1, meets.1, meets.2, (aligned span given).2⟩
  have apart : spans.IsChain fun a b => a.endByte ≤ b.startByte := by
    rw [← spansEq]
    exact isChain_disjointSpans _
  by_cases none : spans.isEmpty
  · rw [if_pos none]
    exact Or.inl rfl
  · have start : MemberState.Sound text low
        (nextStart NlEntityBoundary.startByte low high spans) ⟨[], low, 0, []⟩ :=
      ⟨SplitPartition.nil _ _, cutLow, le_nextStart _ le _, by simp, by simp⟩
    have sound := MemberState.Sound.steps config path apart (fun span isMem => (reach span isMem).1)
      cutLow cutHigh le (fun span isMem => (reach span isMem).2) start
    rw [if_neg none]
    right
    split
    · rename_i held
      exact sound.front.push rfl rfl (sound.held held) sound.cut cutHigh
    · exact sound.front.extendOrPushTrailing sound.le sound.cut cutHigh path _

end Members

section NestedGroups

structure NestedSpan where
  groupId : String
  startByte : Nat
  endByte : Nat

def locateName [UnicodeTables] (sub name : Text) : Option (Nat × Nat) :=
  match findCaseInsensitive sub name with
  | some found => some found
  | none =>
    let semantic := splitCamelCase name
    if semantic ≠ [] ∧ semantic ≠ name then findCaseInsensitive sub semantic
    else
      let last := lastPathSegment name
      if last ≠ name then findCaseInsensitive sub last else none

def locateNestedSpansInNlText [UnicodeTables] (text : Text) (group : EntityGroup)
    (low high : Nat) : List NestedSpan :=
  disjointSpans NestedSpan.startByte NestedSpan.endByte (group.nestedGroups.filterMap fun nested =>
    (locateName (slice text low high) nested.name.toList).map fun found =>
      ⟨nested.groupId, low + found.1, low + found.1 + found.2⟩)

theorem cut_locateName [UnicodeTables] {sub name : Text} {found : Nat × Nat}
    (located : locateName sub name = some found) :
    Cut sub found.1 ∧ Cut sub (found.1 + found.2) := by
  rw [locateName] at located
  split at located
  · rename_i direct
    cases located
    exact cut_findCaseInsensitive direct
  · simp only at located
    split at located
    · exact cut_findCaseInsensitive located
    · split at located
      · exact cut_findCaseInsensitive located
      · cases located

theorem cut_locateNestedSpans [UnicodeTables] {text : Text} {group : EntityGroup}
    {low high : Nat} (cutLow : Cut text low)
    (cutHigh : Cut text high) (le : low ≤ high) :
    ∀ span ∈ locateNestedSpansInNlText text group low high,
      Cut text span.startByte ∧ Cut text span.endByte ∧ span.startByte ≤ span.endByte := by
  intro span isMem
  obtain ⟨nested, -, named⟩ := mem_filterMap.1 (mem_of_mem_disjointSpans isMem)
  obtain ⟨found, located, rfl⟩ := Option.map_eq_some_iff.1 named
  obtain ⟨cutStart, cutStop⟩ := cut_locateName located
  refine ⟨(Cut.of_slice cutLow cutHigh le cutStart).1, ?_, Nat.le_add_right _ _⟩
  simp only [Nat.add_assoc]
  exact (Cut.of_slice cutLow cutHigh le cutStop).1

variable [CostModel] (text : Text) (path : ChunkPath) (low high : Nat)

/-- The accumulators of `split_by_nested_groups`. -/
structure NestedState where
  boundaries : List ChunkBoundary
  currentStart : Nat

def NestedState.step (st : NestedState) (span : NestedSpan) : NestedState :=
  let startByte := clamp span.startByte low high
  let endByte := clamp span.endByte low high
  if endByte ≤ startByte then st
  else
    let gapped :=
      if st.currentStart < startByte then
        let gap := slice text st.currentStart startByte
        if trim gap = [] then extendLast st.boundaries startByte
        else
          st.boundaries ++ [ChunkBoundary.of st.currentStart startByte .memberBoundary
            (ChunkingConfig.cost gap path) [] none]
      else st.boundaries
    let pieceStart := (gapped.getLast?.map ChunkBoundary.endByte).getD low
    ⟨gapped ++ [ChunkBoundary.of pieceStart endByte .memberBoundary
      (ChunkingConfig.cost (slice text pieceStart endByte) path) [] (some span.groupId)], endByte⟩

def splitByNestedGroups [UnicodeTables] (group : EntityGroup) : List ChunkBoundary :=
  let spans := locateNestedSpansInNlText text group low high
  if spans.isEmpty then []
  else
    let st := spans.foldl (NestedState.step text path low high) ⟨[], low⟩
    extendOrPushTrailing st.boundaries text st.currentStart high path .memberBoundary

variable {text low high}

/-- In front of the next group: what was emitted reaches to where the last group ends. -/
structure NestedState.Sound (text : Text) (low next : Nat) (st : NestedState) : Prop where
  front : SplitPartition text low st.currentStart st.boundaries
  cut : Cut text st.currentStart
  le : st.currentStart ≤ next

theorem NestedState.Sound.step {st : NestedState} {span : NestedSpan} {next : Nat}
    (sound : st.Sound text low (clamp span.startByte low high))
    (cutStart : Cut text (clamp span.startByte low high))
    (cutStop : Cut text (clamp span.endByte low high))
    (proper : clamp span.startByte low high ≤ clamp span.endByte low high)
    (inside : clamp span.endByte low high ≤ next) :
    (st.step text path low high span).Sound text low next := by
  have le := sound.le
  simp only [NestedState.step]
  generalize clamp span.startByte low high = startByte at *
  generalize clamp span.endByte low high = endByte at *
  by_cases empty : endByte ≤ startByte
  · rw [if_pos empty]
    exact ⟨sound.front, sound.cut, by omega⟩
  · rw [if_neg empty]
    generalize gappedEq : (if st.currentStart < startByte then
      if trim (slice text st.currentStart startByte) = [] then extendLast st.boundaries startByte
      else st.boundaries ++ [ChunkBoundary.of st.currentStart startByte .memberBoundary
        (ChunkingConfig.cost (slice text st.currentStart startByte) path) [] none]
      else st.boundaries) = gapped
    have gap : ∃ reached, SplitPartition text low reached gapped ∧ reached ≤ startByte ∧
        Cut text reached := by
      rw [← gappedEq]
      by_cases apart : st.currentStart < startByte
      · rw [if_pos apart]
        by_cases none : st.boundaries = []
        · split
          · have kept : extendLast st.boundaries startByte = st.boundaries := by
              rw [none]
              rfl
            rw [kept]
            exact ⟨st.currentStart, sound.front, le, sound.cut⟩
          · exact ⟨startByte, sound.front.push rfl rfl apart sound.cut cutStart, Nat.le_refl _,
              cutStart⟩
        · split
          · exact ⟨startByte, sound.front.extend none le cutStart, Nat.le_refl _, cutStart⟩
          · exact ⟨startByte, sound.front.push rfl rfl apart sound.cut cutStart, Nat.le_refl _,
              cutStart⟩
      · rw [if_neg apart]
        exact ⟨st.currentStart, sound.front, le, sound.cut⟩
    obtain ⟨reached, front, upTo, cut⟩ := gap
    have opens : reached < endByte := by omega
    rw [front.lastEnd_eq]
    exact ⟨front.push rfl rfl opens cut cutStop, cutStop, inside⟩

theorem NestedState.Sound.steps {spans : List NestedSpan}
    (apart : spans.IsChain fun a b => a.endByte ≤ b.startByte)
    (cuts : ∀ span ∈ spans, Cut text span.startByte ∧ Cut text span.endByte ∧
      span.startByte ≤ span.endByte)
    (cutLow : Cut text low) (cutHigh : Cut text high) {st : NestedState}
    (sound : st.Sound text low (nextStart NestedSpan.startByte low high spans)) :
    (spans.foldl (NestedState.step text path low high) st).Sound text low high := by
  induction spans generalizing st with
  | nil => exact sound
  | cons span rest ih =>
    obtain ⟨cutStart, cutStop, proper⟩ := cuts span mem_cons_self
    rw [foldl_cons]
    apply ih apart.tail fun other isMem => cuts other (mem_cons_of_mem _ isMem)
    exact NestedState.Sound.step path sound (cut_clamp cutStart cutLow cutHigh)
      (cut_clamp cutStop cutLow cutHigh) (clamp_mono proper _ _) (clamp_le_nextStart apart low high)

theorem splitByNestedGroups_partition [UnicodeTables] (group : EntityGroup) (cutLow : Cut text low)
    (cutHigh : Cut text high) (le : low ≤ high) :
    splitByNestedGroups text path low high group = [] ∨
      SplitPartition text low high (splitByNestedGroups text path low high group) := by
  have cuts : ∀ span ∈ locateNestedSpansInNlText text group low high, Cut text span.startByte ∧
      Cut text span.endByte ∧ span.startByte ≤ span.endByte :=
        cut_locateNestedSpans cutLow cutHigh le
  have apart : (locateNestedSpansInNlText text group low high).IsChain
      fun a b => a.endByte ≤ b.startByte := isChain_disjointSpans _
  simp only [splitByNestedGroups]
  generalize locateNestedSpansInNlText text group low high = spans at cuts apart ⊢
  by_cases none : spans.isEmpty
  · rw [if_pos none]
    exact Or.inl rfl
  · have start : NestedState.Sound text low (nextStart NestedSpan.startByte low high spans)
        ⟨[], low⟩ := ⟨SplitPartition.nil _ _, cutLow, le_nextStart _ le _⟩
    have sound := NestedState.Sound.steps path apart cuts cutLow cutHigh start
    rw [if_neg none]
    exact Or.inr (sound.front.extendOrPushTrailing sound.le sound.cut cutHigh path _)

end NestedGroups

end ContextEngine

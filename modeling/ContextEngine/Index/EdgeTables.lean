/- digest: Forward and reverse edge tables, and the two invariants every edge operation keeps. -/

import ContextEngine.Types.Relation

set_option autoImplicit false

namespace ContextEngine

open HashMap

abbrev ResolvedTable := HashMap EntityId RelationEdgeSet

abbrev FileRelationTable := HashMap String RelationEdgeSet

abbrev ReverseTable := HashMap EntityId (SortedVec EntityId)

section Tables

variable {K : Type} [DecidableEq K] (table : HashMap K RelationEdgeSet)

/-- The edges filed under a caller. -/
def edgesOf (key : K) : List ResolvedRelation :=
  ((table.lookup key).getD ∅).edges

def hasEdge (key : K) (relation : ResolvedRelation) : Bool :=
  ((table.lookup key).getD ∅).containsIdentity (relationIdentity relation)

/-- File an edge under an owner unless its identity is already there. -/
def addEdge (key : K) (relation : ResolvedRelation) :
    HashMap K RelationEdgeSet :=
  if hasEdge table key relation then table
  else table.insert key (((table.lookup key).getD ∅).insert relation)

def callersAt (table : ReverseTable) (callee : EntityId) : List EntityId :=
  ((table.lookup callee).getD ∅).toList

def trackReverseCaller (table : ReverseTable) (callee caller : EntityId) : ReverseTable :=
  table.alter callee fun entry => some ((entry.getD ∅).insert caller)

def untrackReverseCaller (table : ReverseTable) (callee caller : EntityId) : ReverseTable :=
  table.alter callee fun entry =>
    match entry with
    | none => none
    | some callers =>
      if caller ∈ callers then
        if (callers.erase caller).isEmpty then none else some (callers.erase caller)
      else some callers

def stillCalls (caller : K) (callee : EntityId) : Bool :=
  (edgesOf table caller).any fun relation => relation.calleeId = some callee

def maybeUntrackReverseCaller (resolved : ResolvedTable) (table : ReverseTable)
    (callee caller : EntityId) : ReverseTable :=
  if stillCalls resolved caller callee then table else untrackReverseCaller table callee caller

def trackFileCaller (table : HashMap EntityId (HashSet String)) (callee : Option EntityId)
    (filePath : String) : HashMap EntityId (HashSet String) :=
  match callee with
  | some callee => table.insertAt callee filePath
  | none => table

def untrackFileCaller (table : HashMap EntityId (HashSet String)) (callee : Option EntityId)
    (filePath : String) : HashMap EntityId (HashSet String) :=
  match callee with
  | some callee => table.eraseAt callee filePath
  | none => table

end Tables

section ForwardLaws

variable {K : Type} [DecidableEq K]

@[simp] theorem edgesOf_empty (key : K) : edgesOf (∅ : HashMap K RelationEdgeSet) key = [] := rfl

variable (table : HashMap K RelationEdgeSet) (key key' : K)

theorem edgesOf_erase :
    edgesOf (table.erase key) key' = if key' = key then [] else edgesOf table key' := by
  unfold edgesOf
  rw [lookup_erase_eq]
  split_ifs <;> rfl

theorem edgesOf_insert (set : RelationEdgeSet) :
    edgesOf (table.insert key set) key' = if key' = key then set.edges else edgesOf table key' := by
  unfold edgesOf
  rw [lookup_insert_eq]
  split_ifs <;> rfl

theorem edgesOf_alter (f : Option RelationEdgeSet → Option RelationEdgeSet) :
    edgesOf (table.alter key f) key' =
      if key' = key then ((f (table.lookup key)).getD ∅).edges else edgesOf table key' := by
  unfold edgesOf
  rw [lookup_alter]
  split_ifs <;> rfl

variable {table : HashMap K RelationEdgeSet}

theorem mem_toList_edges {key : K} {set : RelationEdgeSet}
    (mem : (key, set) ∈ table.toList) : edgesOf table key = set.edges := by
  unfold edgesOf
  rw [mem_toList.1 mem]
  rfl

theorem mem_edgesOf {key : K} {edge : ResolvedRelation} :
    edge ∈ edgesOf table key ↔ ∃ set, table.lookup key = some set ∧ edge ∈ set.edges := by
  unfold edgesOf
  cases table.lookup key with
  | none => exact iff_of_false List.not_mem_nil fun ⟨_, found, _⟩ => by cases found
  | some set => exact ⟨fun mem => ⟨set, rfl, mem⟩, fun ⟨_, found, mem⟩ => by cases found; exact mem⟩

theorem nodup_edgesOf (table : HashMap K RelationEdgeSet) (key : K) :
    ((edgesOf table key).map relationIdentity).Nodup :=
  ((table.lookup key).getD ∅).nodup

theorem hasEdge_iff {key : K}
    {relation : ResolvedRelation} :
    hasEdge table key relation = true ↔
      relationIdentity relation ∈ (edgesOf table key).map relationIdentity := by
  rw [hasEdge, RelationEdgeSet.containsIdentity, decide_eq_true_eq]
  rfl

theorem edgesOf_addEdge (relation : ResolvedRelation) :
    edgesOf (addEdge table key relation) key' =
      if key' = key ∧ hasEdge table key relation = false then edgesOf table key ++ [relation]
      else edgesOf table key' := by
  unfold addEdge
  by_cases present : hasEdge table key relation = true
  · simp [present]
  · have fresh : ¬relationIdentity relation ∈
        (((table.lookup key).getD ∅).edges.map relationIdentity) := fun mem =>
      present (hasEdge_iff.2 mem)
    rw [if_neg present, edgesOf_insert, RelationEdgeSet.edges_insert, if_neg fresh]
    simp only [Bool.eq_false_iff.2 present, and_true]
    rfl

theorem stillCalls_iff {caller : K} {callee : EntityId} :
    stillCalls table caller callee = true ↔
      ∃ relation ∈ edgesOf table caller, relation.calleeId = some callee := by
  simp only [stillCalls, List.any_eq_true, decide_eq_true_eq]

theorem stillCalls_iff_entry {caller : K} {callee : EntityId} :
    stillCalls table caller callee = true ↔ ∃ entry ∈ table.toList, caller = entry.1 ∧
      ∃ relation ∈ entry.2.edges, relation.calleeId = some callee := by
  simp only [stillCalls_iff, mem_edgesOf]
  constructor
  · rintro ⟨relation, ⟨set, found, mem⟩, hit⟩
    exact ⟨(caller, set), mem_toList.2 found, rfl, relation, mem, hit⟩
  · rintro ⟨⟨_, set⟩, entry, rfl, relation, mem, hit⟩
    exact ⟨relation, ⟨set, mem_toList.1 entry, mem⟩, hit⟩

end ForwardLaws

section Filed

/-- An entry of the forward table: not bare, every edge starts at the key, and only the key
itself can be listed among the embedded callers. -/
structure RelationEdgeSet.FiledUnder (set : RelationEdgeSet) (key : EntityId) : Prop where
  nonempty : set.edges ≠ []
  caller_eq : ∀ relation ∈ set.edges, relation.caller = key
  callers_eq : ∀ caller ∈ set.callers, caller = key

def EdgesFiled (table : ResolvedTable) : Prop :=
  ∀ key set, table.lookup key = some set → set.FiledUnder key

namespace EdgesFiled

theorem empty : EdgesFiled ∅ := by
  intro key set found
  cases found

variable {table : ResolvedTable}

theorem erase (filed : EdgesFiled table) (key : EntityId) :
    EdgesFiled (table.erase key) := by
  intro key' set found
  rw [lookup_erase_eq] at found
  split_ifs at found
  exact filed key' set found

variable {key : EntityId}

theorem alter (filed : EdgesFiled table)
    {f : Option RelationEdgeSet → Option RelationEdgeSet}
    (kept : ∀ set, f (table.lookup key) = some set → set.FiledUnder key) :
    EdgesFiled (table.alter key f) := by
  intro key' set found
  rw [lookup_alter] at found
  split_ifs at found with same
  · rw [same]
    exact kept set found
  · exact filed key' set found

theorem foldl {α : Type} (step : ResolvedTable → α → ResolvedTable)
    (kept : ∀ table a, EdgesFiled table → EdgesFiled (step table a)) (l : List α)
    {table : ResolvedTable} (filed : EdgesFiled table) : EdgesFiled (l.foldl step table) :=
  List.foldlRecOn l step filed fun table filed a _ => kept table a filed

theorem caller_eq (filed : EdgesFiled table)
    {relation : ResolvedRelation} (mem : relation ∈ edgesOf table key) :
    relation.caller = key := by
  obtain ⟨set, found, inSet⟩ := mem_edgesOf.1 mem
  exact (filed key set found).caller_eq relation inSet

theorem edgesOf_ne_nil (filed : EdgesFiled table)
    {set : RelationEdgeSet} (found : table.lookup key = some set) : edgesOf table key ≠ [] := by
  unfold edgesOf
  rw [found]
  exact (filed key set found).nonempty

theorem addEdge (filed : EdgesFiled table)
    (relation : ResolvedRelation) : EdgesFiled (addEdge table relation.caller relation) := by
  unfold ContextEngine.addEdge
  split_ifs with present
  · exact filed
  intro key set found
  rw [lookup_insert_eq] at found
  split_ifs at found with same
  · obtain rfl := Option.some.inj found
    rw [same]
    have fresh : ¬relationIdentity relation ∈
        ((table.lookup relation.caller).getD ∅).edges.map relationIdentity := fun mem =>
      present (hasEdge_iff.2 mem)
    have callers : ∀ x ∈ ((table.lookup relation.caller).getD ∅).callers, x = relation.caller := by
      cases entry : table.lookup relation.caller with
      | none => exact fun x mem => absurd mem (SortedVec.notMem_empty x)
      | some set => exact (filed _ set entry).callers_eq
    refine ⟨?_, ?_, ?_⟩
    · rw [RelationEdgeSet.edges_insert, if_neg fresh]
      simp
    · intro r mem
      rw [RelationEdgeSet.edges_insert, if_neg fresh, List.mem_append, List.mem_singleton] at mem
      rcases mem with mem | rfl
      · exact filed.caller_eq mem
      · rfl
    · rw [RelationEdgeSet.callers_insert]
      exact callers
  · exact filed key set found

end EdgesFiled

end Filed

section FileCallers

/-- No path has a bare entry, and the reverse table lists exactly the paths with an edge to
the callee. -/
structure FileCallersTransposed (table : FileRelationTable)
    (callers : HashMap EntityId (HashSet String)) : Prop where
  nonempty : ∀ path set, table.lookup path = some set → set.edges ≠ []
  mem_iff : ∀ callee path,
    path ∈ callers.members callee ↔ stillCalls table path callee = true

theorem mem_trackFileCaller {callers : HashMap EntityId (HashSet String)}
    {callee : Option EntityId} {path path' : String} {callee' : EntityId} :
    path' ∈ (trackFileCaller callers callee path).members callee' ↔
      (callee = some callee' ∧ path' = path) ∨ path' ∈ callers.members callee' := by
  cases callee with
  | none => simp [trackFileCaller]
  | some callee =>
    simp only [trackFileCaller, mem_members_insertAt, Option.some.injEq]
    rw [eq_comm (a := callee')]

theorem mem_untrackFileCaller {callers : HashMap EntityId (HashSet String)}
    {callee : Option EntityId} {path path' : String} {callee' : EntityId} :
    path' ∈ (untrackFileCaller callers callee path).members callee' ↔
      ¬(callee = some callee' ∧ path' = path) ∧ path' ∈ callers.members callee' := by
  cases callee with
  | none => simp [untrackFileCaller]
  | some callee =>
    simp only [untrackFileCaller, mem_members_eraseAt, Option.some.injEq]
    rw [eq_comm (a := callee')]

theorem mem_foldl_untrackFileCaller {callers : HashMap EntityId (HashSet String)}
    {l : List ResolvedRelation} {path path' : String} {callee : EntityId} :
    path' ∈ (l.foldl (fun table r => untrackFileCaller table r.calleeId path) callers).members
        callee ↔
      ¬((∃ r ∈ l, r.calleeId = some callee) ∧ path' = path) ∧ path' ∈ callers.members callee := by
  refine Iff.trans (foldl_iff_and (fun table => path' ∈ HashMap.members table callee)
    (fun table r => @mem_untrackFileCaller table r.calleeId path path' callee) l callers) ?_
  simp only [← and_assoc, exists_and_right]

namespace FileCallersTransposed

theorem empty : FileCallersTransposed ∅ ∅ where
  nonempty path set found := by cases found
  mem_iff callee path := by simp [stillCalls]

theorem addEdge {table : FileRelationTable} {callers : HashMap EntityId (HashSet String)}
    (transposed : FileCallersTransposed table callers) (path : String)
    (relation : ResolvedRelation) :
    FileCallersTransposed (addEdge table path relation) (if hasEdge table path relation then callers
        else trackFileCaller callers relation.calleeId path) := by
  by_cases present : hasEdge table path relation = true
  · unfold ContextEngine.addEdge
    rw [if_pos present, if_pos present]
    exact transposed
  rw [if_neg present]
  refine ⟨?_, ?_⟩
  · intro path' set found
    rw [ContextEngine.addEdge, if_neg present, lookup_insert_eq] at found
    split_ifs at found with same
    · obtain rfl := Option.some.inj found
      have fresh : ¬relationIdentity relation ∈
          ((table.lookup path).getD ∅).edges.map relationIdentity := fun mem =>
        present (hasEdge_iff.2 mem)
      rw [RelationEdgeSet.edges_insert, if_neg fresh]
      simp
    · exact transposed.nonempty path' set found
  · intro callee path'
    rw [mem_trackFileCaller, transposed.mem_iff, stillCalls_iff, stillCalls_iff, edgesOf_addEdge]
    by_cases same : path' = path
    · subst same
      simp only [Bool.eq_false_iff.2 present, and_self, if_true, List.mem_append,
        List.mem_singleton, and_true]
      constructor
      · rintro (hit | ⟨r, mem, hit⟩)
        · exact ⟨relation, Or.inr rfl, hit⟩
        · exact ⟨r, Or.inl mem, hit⟩
      · rintro ⟨r, mem | rfl, hit⟩
        · exact Or.inr ⟨r, mem, hit⟩
        · exact Or.inl hit
    · simp [same]

theorem takeFile {table : FileRelationTable} {callers : HashMap EntityId (HashSet String)}
    (transposed : FileCallersTransposed table callers) (path : String) :
    FileCallersTransposed (table.erase path)
      ((edgesOf table path).foldl (fun table r => untrackFileCaller table r.calleeId path)
        callers) := by
  refine ⟨?_, ?_⟩
  · intro path' set found
    rw [lookup_erase_eq] at found
    split_ifs at found
    exact transposed.nonempty path' set found
  · intro callee path'
    rw [mem_foldl_untrackFileCaller, transposed.mem_iff, stillCalls_iff, stillCalls_iff,
      edgesOf_erase]
    by_cases same : path' = path
    · subst same
      simp
    · simp [same]

end FileCallersTransposed

end FileCallers

end ContextEngine

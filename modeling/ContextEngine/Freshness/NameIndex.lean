/- digest: The name table against the stored entities, and the least number above all of them. -/

import ContextEngine.Index.Core

set_option autoImplicit false

namespace ContextEngine

open List

theorem foldl_max_le_iff {l : List Nat} {start bound : Nat} :
    l.foldl max start ≤ bound ↔ start ≤ bound ∧ ∀ a ∈ l, a ≤ bound := by
  induction l generalizing start with
  | nil => simp
  | cons a l ih =>
    rw [foldl_cons, ih, Nat.max_le, forall_mem_cons, and_assoc]

namespace HashMap

variable {K V : Type} [DecidableEq K]

theorem mem_keys_congr {left right : HashMap K V}
    (same : ∀ k, left.lookup k = right.lookup k) (k : K) : k ∈ left.keys ↔ k ∈ right.keys := by
  rw [mem_keys_iff, mem_keys_iff, same]

end HashMap

namespace RelationIndex

section Names

/-- The name table lists exactly the stored entities under their names, each once. -/
structure NamesExact (index : RelationIndex) : Prop where
  nodup : ∀ name, (index.nameIndex.bucket name).Nodup
  mem_iff : ∀ name id, id ∈ index.nameIndex.bucket name ↔
    ∃ entity, index.functionIndex.lookup id = some entity ∧ entity.name = name

theorem NamesExact.new : NamesExact new where
  nodup _ := nodup_nil
  mem_iff name id := by
    refine iff_of_false not_mem_nil ?_
    rintro ⟨entity, found, -⟩
    cases found

theorem bucket_nameIndex_insertFunction {index : RelationIndex} (exact : index.NamesExact)
    (entityId : EntityId) (entity : Entity) (name : String) :
    ((index.insertFunction entityId entity).nameIndex.bucket name).Nodup ∧
      ∀ id, id ∈ (index.insertFunction entityId entity).nameIndex.bucket name ↔
        if id = entityId then entity.name = name else id ∈ index.nameIndex.bucket name := by
  have moved : ∃ names : HashMap String (List EntityId),
      (index.insertFunction entityId entity).nameIndex = names.bucketPushNew entity.name entityId ∧
        (∀ name, (names.bucket name).Nodup) ∧
        (∀ name id, id ≠ entityId → (id ∈ names.bucket name ↔ id ∈ index.nameIndex.bucket name)) ∧
        ∀ name, entityId ∈ names.bucket name → name = entity.name := by
    unfold insertFunction
    cases found : index.functionIndex.lookup entityId with
    | none =>
      refine ⟨index.nameIndex, rfl, exact.nodup, fun _ _ _ => Iff.rfl, fun name mem => ?_⟩
      obtain ⟨stored, here, -⟩ := (exact.mem_iff name entityId).1 mem
      rw [found] at here
      cases here
    | some existing =>
      have own : ∀ name, entityId ∈ index.nameIndex.bucket name → existing.name = name := by
        intro name mem
        obtain ⟨stored, here, named⟩ := (exact.mem_iff name entityId).1 mem
        rw [found] at here
        exact Option.some.inj here ▸ named
      by_cases kept : existing.name = entity.name
      · refine ⟨index.nameIndex, ?_, exact.nodup, fun _ _ _ => Iff.rfl, fun name mem => ?_⟩
        · simp only [kept, ne_eq, not_true_eq_false, if_false]
        · exact (own name mem).symm.trans kept
      · refine ⟨index.nameIndex.bucketErase existing.name entityId, ?_, fun name => ?_,
          fun name id other => ?_, fun name mem => ?_⟩
        · simp only [ne_eq, kept, not_false_eq_true, if_true]
        · rw [HashMap.bucket_bucketErase]
          split_ifs
          · exact (exact.nodup _).filter _
          · exact exact.nodup name
        · rw [HashMap.bucket_bucketErase]
          split_ifs with same
          · rw [same, mem_filter, decide_eq_true_eq]
            exact and_iff_left other
          · exact Iff.rfl
        · rw [HashMap.bucket_bucketErase] at mem
          split_ifs at mem with same
          · exact absurd rfl (of_decide_eq_true (mem_filter.1 mem).2)
          · exact absurd (own name mem).symm same
  obtain ⟨names, pushed, nodup, others, owned⟩ := moved
  rw [pushed, HashMap.bucket_bucketPushNew]
  by_cases here : name = entity.name
  · subst here
    rw [if_pos rfl]
    by_cases listed : entityId ∈ names.bucket entity.name
    · rw [if_pos listed]
      refine ⟨nodup _, fun id => ?_⟩
      by_cases same : id = entityId
      · rw [if_pos same, same]
        exact iff_of_true listed rfl
      · rw [if_neg same]
        exact others _ id same
    · rw [if_neg listed]
      refine ⟨?_, fun id => ?_⟩
      · rw [nodup_append]
        refine ⟨nodup _, nodup_singleton _, fun a mem b single => ?_⟩
        rw [mem_singleton.1 single]
        exact fun same => listed (same ▸ mem)
      · rw [mem_append, mem_singleton]
        by_cases same : id = entityId
        · rw [if_pos same]
          exact iff_of_true (Or.inr same) rfl
        · rw [if_neg same, or_iff_left same]
          exact others _ id same
  · rw [if_neg here]
    refine ⟨nodup name, fun id => ?_⟩
    by_cases same : id = entityId
    · rw [if_pos same, same]
      exact iff_of_false (fun mem => here (owned name mem)) fun named => here named.symm
    · rw [if_neg same]
      exact others name id same

theorem NamesExact.insertFunction {index : RelationIndex} (exact : index.NamesExact)
    (entityId : EntityId) (entity : Entity) :
    NamesExact (index.insertFunction entityId entity) where
  nodup name := (bucket_nameIndex_insertFunction exact entityId entity name).1
  mem_iff name id := by
    rw [(bucket_nameIndex_insertFunction exact entityId entity name).2, exact.mem_iff]
    change _ ↔ ∃ stored, (index.functionIndex.insert entityId entity).lookup id = some stored ∧
      stored.name = name
    rw [HashMap.lookup_insert_eq]
    by_cases same : id = entityId
    · simp [same]
    · simp [same]

end Names

section Counter

/-- One above the largest stored number, as a 64-bit number, or zero when nothing is stored. -/
def nextFreeId (functions : HashMap EntityId Entity) : Nat :=
  (functions.keys.map fun id => asU64 (id + 1)).foldl max 0

theorem nextFreeId_le_iff {functions : HashMap EntityId Entity} {bound : Nat} :
    nextFreeId functions ≤ bound ↔ ∀ id ∈ functions.keys, asU64 (id + 1) ≤ bound := by
  unfold nextFreeId
  rw [foldl_max_le_iff]
  simp only [Nat.zero_le, true_and, forall_mem_map]

theorem nextFreeId_congr {left right : HashMap EntityId Entity}
    (same : ∀ id, left.lookup id = right.lookup id) : nextFreeId left = nextFreeId right := by
  have keys := HashMap.mem_keys_congr same
  apply Nat.le_antisymm
  · exact nextFreeId_le_iff.2 fun id mem =>
      nextFreeId_le_iff.1 (Nat.le_refl _) id ((keys id).1 mem)
  · exact nextFreeId_le_iff.2 fun id mem =>
      nextFreeId_le_iff.1 (Nat.le_refl _) id ((keys id).2 mem)

theorem maxEntityId_congr {left right : RelationIndex}
    (functions : ∀ id, left.functionIndex.lookup id = right.functionIndex.lookup id)
    (counter : left.entityIdCounter = right.entityIdCounter) :
    left.maxEntityId = right.maxEntityId := by
  have keys := HashMap.mem_keys_congr functions
  have empty : left.functionIndex.keys.isEmpty = right.functionIndex.keys.isEmpty := by
    rw [Bool.eq_iff_iff, List.isEmpty_iff, List.isEmpty_iff, List.eq_nil_iff_forall_not_mem,
      eq_nil_iff_forall_not_mem]
    simp only [keys]
  have largest : left.functionIndex.keys.foldl max 0 = right.functionIndex.keys.foldl max 0 := by
    apply Nat.le_antisymm
    · exact foldl_max_le_iff.2 ⟨Nat.zero_le _, fun id mem =>
        (foldl_max_le_iff.1 (Nat.le_refl _)).2 id ((keys id).1 mem)⟩
    · exact foldl_max_le_iff.2 ⟨Nat.zero_le _, fun id mem =>
        (foldl_max_le_iff.1 (Nat.le_refl _)).2 id ((keys id).2 mem)⟩
  unfold maxEntityId
  rw [empty, largest, counter]

end Counter

end RelationIndex

end ContextEngine

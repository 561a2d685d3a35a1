/- digest: Exactly when replaying a full delta reproduces the entity tables of the new index. -/

import ContextEngine.Delta.NoDangling

set_option autoImplicit false

namespace ContextEngine

open List RelationIndex

/-- The derived entity tables say what the stored entities and their keys say. -/
structure TablesConsistent [Sha256] (index : RelationIndex) : Prop where
  mem_names : ∀ name id, id ∈ index.nameIndex.bucket name ↔
    ∃ entity, index.functionIndex.lookup id = some entity ∧ entity.name = name
  mem_rows : ∀ path item, item ∈ rowsAt index.fileEntitiesByStart path ↔
    ∃ entity, index.functionIndex.lookup (ofLex item).2 = some entity ∧
      index.entityFileIndex.lookup (ofLex item).2 = some path ∧
      (ofLex item).1 = asU32 entity.span.startPosition.row
  member_live : ∀ id, (index.entityFileIndex.lookup id).isSome → index.Live id
  keyed_live : ∀ id, (index.entityToSymbolKey.lookup id).isSome → index.Live id
  keyed_iff : ∀ key id, index.symbolKeyToEntity.lookup key = some id ↔
    index.entityToSymbolKey.lookup id = some key
  stable_iff : ∀ stableId id, index.stableIdToEntity.lookup stableId = some id ↔
    ∃ key, index.symbolKeyToEntity.lookup key = some id ∧ key.stableId = stableId

/-- Reparsed files store their entities under numbers the old index does not use; every other
entity is untouched. -/
structure FreshlyAllocated (old new : RelationIndex) : Prop where
  own : StoredUnderOwnIds new
  entity : ∀ id, old.Live id → new.Live id →
    old.functionIndex.lookup id = new.functionIndex.lookup id
  member : ∀ id, old.Live id → new.Live id →
    old.entityFileIndex.lookup id = new.entityFileIndex.lookup id
  keyed : ∀ id, old.Live id → new.Live id →
    old.entityToSymbolKey.lookup id = new.entityToSymbolKey.lookup id

/-- The same entities under the same numbers, names, files, lines and keys. -/
structure EntitiesAgree (left right : RelationIndex) : Prop where
  entity : ∀ id, left.functionIndex.lookup id = right.functionIndex.lookup id
  member : ∀ id, left.entityFileIndex.lookup id = right.entityFileIndex.lookup id
  names : ∀ name id, id ∈ left.nameIndex.bucket name ↔ id ∈ right.nameIndex.bucket name
  rows : ∀ path, rowsAt left.fileEntitiesByStart path = rowsAt right.fileEntitiesByStart path
  keyed : ∀ id, left.entityToSymbolKey.lookup id = right.entityToSymbolKey.lookup id
  key : ∀ key, left.symbolKeyToEntity.lookup key = right.symbolKeyToEntity.lookup key
  stable : ∀ stableId,
    left.stableIdToEntity.lookup stableId = right.stableIdToEntity.lookup stableId
  listed : ∀ path key, key ∈ left.fileSymbolKeys.bucket path ↔
    key ∈ right.fileSymbolKeys.bucket path

section Registration

variable [Sha256]

namespace AddedEntity

variable (added : AddedEntity)

/-- The key a replay asks for first. -/
def baseKey : SymbolKey :=
  .forEntity added.symbolKey.filePath added.symbolKey.scopedName added.entity

/-- The key a replay falls back to when the first one has another owner. -/
def spanKey : SymbolKey :=
  .forEntity added.symbolKey.filePath
    (added.symbolKey.scopedName ++ "#" ++ toString added.entity.span.startByte ++ "-" ++
      toString added.entity.span.endByte) added.entity

theorem spanKey_ne : added.spanKey ≠ added.symbolKey := by
  intro same
  have lengths := congrArg (fun key : SymbolKey => key.scopedName.length) same
  simp only [spanKey, StableSymbolKey.forEntity, String.length_append] at lengths
  have mark : "#".length = 1 := rfl
  omega

end AddedEntity

variable (old new : RelationIndex)

def OwnedBefore (ids : List EntityId) (key : SymbolKey) (owner : EntityId) : Prop :=
  new.entityToSymbolKey.lookup owner = some key ∧ (old.Live owner ∨ owner ∈ ids)

def RegistersAlike (earlier : List AddedEntity) (added : AddedEntity) : Prop :=
  match new.entityToSymbolKey.lookup added.entity.id with
  | some key => added.baseKey = key
  | none => ∃ owner, OwnedBefore old new (addedIds earlier) added.baseKey owner ∧
      ((∀ entity, new.functionIndex.lookup owner = some entity →
          entity.span.startByte = added.entity.span.startByte ∧
            entity.span.endByte = added.entity.span.endByte) ∨
        ∃ other, OwnedBefore old new (addedIds earlier) added.spanKey other)

/-- The replay has stored the listed entities as the new index stores them. -/
structure Matches (earlier : List AddedEntity) (index : RelationIndex) : Prop where
  key_iff : ∀ key id, index.symbolKeyToEntity.lookup key = some id ↔
    OwnedBefore old new (addedIds earlier) key id
  entity : ∀ id, (old.Live id ∧ new.Live id) ∨ id ∈ addedIds earlier →
    index.functionIndex.lookup id = new.functionIndex.lookup id

variable {old new}

/-- What the replay needs to know of an entity it is about to add. -/
structure AboutToAdd (old new : RelationIndex) (earlier : List AddedEntity)
    (added : AddedEntity) : Prop where
  stored : new.functionIndex.lookup added.entity.id = some added.entity
  fresh : ¬old.Live added.entity.id
  unlisted : added.entity.id ∉ addedIds earlier
  requested : ∀ key, new.entityToSymbolKey.lookup added.entity.id = some key →
    added.symbolKey = key

def OutcomeAgrees (new : RelationIndex) (added : AddedEntity) : SymbolRegistration → Prop
  | .placed key => new.entityToSymbolKey.lookup added.entity.id = some key
  | _ => new.entityToSymbolKey.lookup added.entity.id = none

def AddedEntity.spanKeyTaken (added : AddedEntity) (index : RelationIndex) : Bool :=
  match index.symbolKeyToEntity.lookup added.spanKey with
  | some other => decide (other ≠ added.entity.id)
  | none => false

theorem AddedEntity.registration_eq (added : AddedEntity) (index : RelationIndex) :
    added.registration index =
      match index.symbolKeyToEntity.lookup added.baseKey with
      | none => .placed added.baseKey
      | some existing =>
        if existing = added.entity.id then .kept
        else
          let ownerDiffers :=
            match (index.insertFunction added.entity.id added.entity).functionIndex.lookup
              existing with
            | some owner =>
              decide (owner.span.startByte ≠ added.entity.span.startByte ∨
                owner.span.endByte ≠ added.entity.span.endByte)
            | none => false
          if !ownerDiffers || added.spanKeyTaken index then .conflict added.baseKey existing
          else .placed added.spanKey := rfl

variable {earlier : List AddedEntity} {index : RelationIndex} {added : AddedEntity}

theorem registersAlike_iff (newSound : TablesConsistent new)
    (matched : Matches old new earlier index)
    (about : AboutToAdd old new earlier added) :
    OutcomeAgrees new added (added.registration index) ↔
      RegistersAlike old new earlier added := by
  have other : ∀ {key owner}, OwnedBefore old new (addedIds earlier) key owner →
      owner ≠ added.entity.id := by
    rintro key owner ⟨-, live | listed⟩ same
    · exact about.fresh (same ▸ live)
    · exact about.unlisted (same ▸ listed)
  -- a key with an earlier owner is not the key of the added entity
  have distinct : ∀ {key owner}, OwnedBefore old new (addedIds earlier) key owner →
      new.entityToSymbolKey.lookup added.entity.id ≠ some key := by
    intro key owner owned keyed
    have first := (newSound.keyed_iff key owner).2 owned.1
    have second := (newSound.keyed_iff key added.entity.id).2 keyed
    exact other owned (Option.some.inj (first.symm.trans second))
  have functions : ∀ {key owner}, OwnedBefore old new (addedIds earlier) key owner →
      (index.insertFunction added.entity.id added.entity).functionIndex.lookup owner =
        new.functionIndex.lookup owner := by
    intro key owner owned
    change (index.functionIndex.insert _ _).lookup owner = _
    rw [AList.lookup_insert_ne (other owned)]
    refine matched.entity owner (owned.2.imp_left fun live => ⟨live, ?_⟩)
    exact newSound.keyed_live owner (Option.isSome_of_eq_some owned.1)
  rw [added.registration_eq index]
  cases base : index.symbolKeyToEntity.lookup added.baseKey with
  | none =>
    have free : ∀ owner, ¬OwnedBefore old new (addedIds earlier) added.baseKey owner := by
      intro owner owned
      have taken := (matched.key_iff _ _).2 owned
      rw [base] at taken
      cases taken
    unfold RegistersAlike OutcomeAgrees
    cases new.entityToSymbolKey.lookup added.entity.id with
    | none =>
      constructor
      · exact fun absurdity => nomatch absurdity
      · rintro ⟨owner, owned, -⟩
        exact absurd owned (free owner)
    | some key => exact ⟨fun same => (Option.some.inj same).symm,
        fun same => congrArg some same.symm⟩
  | some owner =>
    have owned := (matched.key_iff _ _).1 base
    have stored := functions owned
    obtain ⟨entity, found⟩ := Option.isSome_iff_exists.1
      (newSound.keyed_live owner (Option.isSome_of_eq_some owned.1))
    have sole : ∀ {w}, OwnedBefore old new (addedIds earlier) added.baseKey w → w = owner :=
      fun owned' => Option.some.inj (((matched.key_iff _ _).2 owned').symm.trans base)
    simp only [other owned, if_false, stored, found]
    have spanTaken : added.spanKeyTaken index = true ↔
          ∃ w, OwnedBefore old new (addedIds earlier) added.spanKey w := by
      unfold AddedEntity.spanKeyTaken
      cases span : index.symbolKeyToEntity.lookup added.spanKey with
      | none =>
        simp only [Bool.false_eq_true, false_iff, not_exists]
        intro w owned'
        have taken := (matched.key_iff _ _).2 owned'
        rw [span] at taken
        cases taken
      | some w =>
        have owned' := (matched.key_iff _ _).1 span
        simp only [other owned', ne_eq, not_false_eq_true, decide_true, true_iff]
        exact ⟨w, owned'⟩
    have refused : (!decide (entity.span.startByte ≠ added.entity.span.startByte ∨
        entity.span.endByte ≠ added.entity.span.endByte) ||
        added.spanKeyTaken index) = true ↔ (entity.span.startByte = added.entity.span.startByte ∧
            entity.span.endByte = added.entity.span.endByte) ∨
          ∃ w, OwnedBefore old new (addedIds earlier) added.spanKey w := by
      rw [Bool.or_eq_true, spanTaken, Bool.not_eq_true', decide_eq_false_iff_not, not_or,
        not_ne_iff, not_ne_iff]
    cases keyed : new.entityToSymbolKey.lookup added.entity.id with
    | some key =>
      have differs : added.baseKey ≠ key := fun same => distinct owned (same ▸ keyed)
      have span : some key ≠ some added.spanKey := fun same =>
        added.spanKey_ne (by rw [about.requested key keyed, Option.some.inj same])
      unfold RegistersAlike
      rw [keyed]
      refine iff_of_false ?_ differs
      split_ifs
      · exact fun absurdity => nomatch keyed.symm.trans absurdity
      · exact fun same => span (keyed.symm.trans same)
    | none =>
      unfold RegistersAlike
      rw [keyed]
      have outcome : OutcomeAgrees new added
          (if (!decide (entity.span.startByte ≠ added.entity.span.startByte ∨
              entity.span.endByte ≠ added.entity.span.endByte) ||
              added.spanKeyTaken index) = true then .conflict added.baseKey owner
            else .placed added.spanKey) ↔
          (entity.span.startByte = added.entity.span.startByte ∧
            entity.span.endByte = added.entity.span.endByte) ∨
          ∃ w, OwnedBefore old new (addedIds earlier) added.spanKey w := by
        rw [← refused]
        split_ifs with clash
        · exact iff_of_true keyed clash
        · exact iff_of_false (fun same => nomatch keyed.symm.trans same) clash
      refine outcome.trans ?_
      constructor
      · intro reason
        refine ⟨owner, owned, reason.imp_left fun same twin twinFound => ?_⟩
        rw [found] at twinFound
        rw [← Option.some.inj twinFound]
        exact same
      · rintro ⟨w, owned', reason⟩
        obtain rfl := sole owned'
        exact reason.imp_left fun same => same entity found

omit [Sha256] in
theorem ownedBefore_append {key : SymbolKey}
    {owner : EntityId} :
    OwnedBefore old new (addedIds (earlier ++ [added])) key owner ↔
      OwnedBefore old new (addedIds earlier) key owner ∨
        (owner = added.entity.id ∧ new.entityToSymbolKey.lookup added.entity.id = some key) := by
  unfold OwnedBefore addedIds
  rw [map_append, mem_append, map_singleton, mem_singleton]
  constructor
  · rintro ⟨keyed, live | listed | rfl⟩
    · exact Or.inl ⟨keyed, Or.inl live⟩
    · exact Or.inl ⟨keyed, Or.inr listed⟩
    · exact Or.inr ⟨rfl, keyed⟩
  · rintro (⟨keyed, live | listed⟩ | ⟨rfl, keyed⟩)
    · exact ⟨keyed, Or.inl live⟩
    · exact ⟨keyed, Or.inr (Or.inl listed)⟩
    · exact ⟨keyed, Or.inr (Or.inr rfl)⟩

theorem lookup_entityToSymbolKey_applyAddedEntity (index : RelationIndex) (added : AddedEntity)
    (id : EntityId) :
    (applyAddedEntity index added).entityToSymbolKey.lookup id =
      match added.registration index with
      | .placed key =>
        if id = added.entity.id then some key else index.entityToSymbolKey.lookup id
      | _ => index.entityToSymbolKey.lookup id := by
  change (match added.registration index with
    | .placed key => index.entityToSymbolKey.insert added.entity.id key
    | _ => index.entityToSymbolKey).lookup id = _
  cases added.registration index with
  | placed key => exact HashMap.lookup_insert_eq _ _ _ _
  | kept => rfl
  | conflict key existing => rfl

theorem lookup_entityToSymbolKey_applyAddedEntities (index : RelationIndex)
    {added : List AddedEntity} {id : EntityId} (unlisted : id ∉ addedIds added) :
    (applyAddedEntities index added).entityToSymbolKey.lookup id =
      index.entityToSymbolKey.lookup id := by
  induction added generalizing index with
  | nil => rfl
  | cons a l ih =>
    have distinct : id ≠ a.entity.id := fun same => unlisted (same ▸ mem_cons_self)
    refine (ih (applyAddedEntity index a) fun mem =>
      unlisted (mem_cons_of_mem _ mem)).trans ?_
    rw [lookup_entityToSymbolKey_applyAddedEntity]
    cases a.registration index with
    | placed key => exact if_neg distinct
    | kept => rfl
    | conflict key existing => rfl

theorem Matches.step (newSound : TablesConsistent new) (matched : Matches old new earlier index)
    (about : AboutToAdd old new earlier added)
    (agrees : OutcomeAgrees new added (added.registration index)) :
    Matches old new (earlier ++ [added]) (applyAddedEntity index added) := by
  have keys : (applyAddedEntity index added).symbolKeyToEntity =
      match added.registration index with
      | .placed key => index.symbolKeyToEntity.insert key added.entity.id
      | _ => index.symbolKeyToEntity := rfl
  refine ⟨fun key id => ?_, fun id known => ?_⟩
  · rw [keys, ownedBefore_append, ← matched.key_iff]
    cases outcome : added.registration index with
    | placed own =>
      rw [outcome] at agrees
      simp only
      rw [HashMap.lookup_insert_eq]
      split_ifs with same
      · subst same
        constructor
        · rintro ⟨rfl⟩
          exact Or.inr ⟨rfl, agrees⟩
        · rintro (taken | ⟨rfl, -⟩)
          · -- the placed key had no earlier owner
            have owned := (matched.key_iff _ _).1 taken
            have first := (newSound.keyed_iff _ _).2 owned.1
            have second := (newSound.keyed_iff _ _).2 agrees
            exact second.symm.trans first
          · rfl
      · refine ⟨Or.inl, fun reason => reason.resolve_right ?_⟩
        rintro ⟨-, keyed⟩
        exact same (Option.some.inj (keyed.symm.trans agrees))
    | kept =>
      rw [outcome] at agrees
      exact ⟨Or.inl, fun reason => reason.resolve_right fun both =>
        nomatch agrees.symm.trans both.2⟩
    | conflict base existing =>
      rw [outcome] at agrees
      exact ⟨Or.inl, fun reason => reason.resolve_right fun both =>
        nomatch agrees.symm.trans both.2⟩
  · change (index.functionIndex.insert added.entity.id added.entity).lookup id = _
    rw [HashMap.lookup_insert_eq]
    split_ifs with same
    · rw [same]
      exact about.stored.symm
    · refine matched.entity id (known.imp_right fun listed => ?_)
      have split := mem_append.1 (map_append ▸ listed : id ∈
        earlier.map (fun a => a.entity.id) ++ [added].map fun a => a.entity.id)
      exact split.resolve_right fun last => same (mem_singleton.1 last)

def RegisterAllAlike (old new : RelationIndex) : List AddedEntity → List AddedEntity → Prop
  | _, [] => True
  | earlier, added :: rest =>
    RegistersAlike old new earlier added ∧ RegisterAllAlike old new (earlier ++ [added]) rest

theorem Matches.run (newSound : TablesConsistent new) {earlier rest : List AddedEntity}
    (matched : Matches old new earlier index)
    (distinct : (addedIds (earlier ++ rest)).Nodup)
    (about : ∀ a ∈ rest, ∀ before, a.entity.id ∉ addedIds before → AboutToAdd old new before a)
    (unkeyed : ∀ a ∈ rest, index.entityToSymbolKey.lookup a.entity.id = none) :
    (RegisterAllAlike old new earlier rest →
      Matches old new (earlier ++ rest) (applyAddedEntities index rest)) ∧
    ((∀ a ∈ rest, (applyAddedEntities index rest).entityToSymbolKey.lookup a.entity.id =
        new.entityToSymbolKey.lookup a.entity.id) ↔ RegisterAllAlike old new earlier rest) := by
  induction rest generalizing earlier index with
  | nil =>
    rw [append_nil]
    exact ⟨fun _ => matched, iff_of_true (fun a mem => absurd mem not_mem_nil) trivial⟩
  | cons a l ih =>
    have shift : earlier ++ a :: l = (earlier ++ [a]) ++ l := by simp
    rw [shift] at distinct
    have parts : (addedIds (earlier ++ [a]) ++ addedIds l).Nodup := by
      rw [addedIds, map_append] at distinct
      exact distinct
    have front : (addedIds earlier ++ [a.entity.id]).Nodup := by
      have nodup := (nodup_append.1 parts).1
      rw [addedIds, map_append] at nodup
      exact nodup
    have unlisted : a.entity.id ∉ addedIds earlier := fun mem =>
      (nodup_append.1 front).2.2 _ mem _ (mem_singleton_self _) rfl
    have own : a.entity.id ∈ addedIds (earlier ++ [a]) :=
      mem_map_of_mem (mem_append_right _ (mem_singleton_self a))
    have later : a.entity.id ∉ addedIds l := fun mem =>
      (nodup_append.1 parts).2.2 _ own _ mem rfl
    have ready := about a mem_cons_self earlier unlisted
    have alike := registersAlike_iff newSound matched ready
    have still : ∀ b ∈ l, (applyAddedEntity index a).entityToSymbolKey.lookup b.entity.id =
        none := by
      intro b mem
      have other : b.entity.id ≠ a.entity.id := fun same =>
        later (same ▸ mem_map_of_mem mem)
      rw [lookup_entityToSymbolKey_applyAddedEntity]
      have before := unkeyed b (mem_cons_of_mem _ mem)
      cases a.registration index with
      | placed key => exact (if_neg other).trans before
      | kept => exact before
      | conflict key existing => exact before
    have tail : OutcomeAgrees new a (a.registration index) → _ := fun agrees =>
      ih (matched.step newSound ready agrees) distinct
        (fun b mem => about b (mem_cons_of_mem _ mem)) still
    have head : (applyAddedEntities index (a :: l)).entityToSymbolKey.lookup a.entity.id =
        new.entityToSymbolKey.lookup a.entity.id ↔ OutcomeAgrees new a (a.registration index) := by
      change (applyAddedEntities (applyAddedEntity index a) l).entityToSymbolKey.lookup _ = _ ↔ _
      rw [lookup_entityToSymbolKey_applyAddedEntities _ later,
        lookup_entityToSymbolKey_applyAddedEntity]
      have before := unkeyed a mem_cons_self
      cases a.registration index with
      | placed key =>
        simp only [if_true]
        exact eq_comm
      | kept =>
        rw [before]
        exact eq_comm
      | conflict key existing =>
        rw [before]
        exact eq_comm
    constructor
    · rintro ⟨first, rest⟩
      rw [shift]
      exact (tail (alike.2 first)).1 rest
    · rw [forall_mem_cons, head]
      constructor
      · rintro ⟨agrees, rest⟩
        exact ⟨alike.1 agrees, (tail agrees).2.1 rest⟩
      · rintro ⟨first, rest⟩
        exact ⟨alike.2 first, (tail (alike.2 first)).2.2 rest⟩

end Registration

/-- When the replay of a full delta rebuilds the entity tables. -/
structure ReplayRebuilds [Sha256] (old new : RelationIndex) : Prop where
  noRename : NoRenameCandidate new old none
  recordKept : ∀ id path, old.Live id → new.Live id →
    old.entityFileIndex.lookup id = some path → ¬FileRemoved new old none path
  keyRecordKept : ∀ id key, old.Live id → new.Live id →
    old.entityToSymbolKey.lookup id = some key → ¬FileRemoved new old none key.filePath
  registered : RegisterAllAlike old new [] (addedEntityCandidates new old none)

section Replay

variable [Sha256] {old new : RelationIndex} {epoch baseEpoch : Int} {config : String}

omit [Sha256] in
private theorem lost_iff_none {id : EntityId} :
    LostEntity new old none id ↔ old.Live id ∧ ¬new.Live id := by
  unfold LostEntity Live
  rw [Option.isNone_iff_eq_none, ← Option.not_isSome_iff_eq_none]
  exact and_congr_right fun _ => and_iff_right rfl

section

variable (oldSound : TablesConsistent old) (newValid : new.SnapshotValid)
  (newSound : TablesConsistent new) (fresh : FreshlyAllocated old new)

include fresh

private theorem lookup_extend_candidates {V : Type} (table : HashMap EntityId V)
    (column : AddedEntity → V) {id : EntityId} {v : Option V}
    (listed : ∀ entity, new.functionIndex.lookup id = some entity → ¬old.Live id →
      v = some (column (addedEntity new id entity)))
    (unlisted : (new.Live id → old.Live id) → table.lookup id = v) :
    (table.extend ((addedEntityCandidates new old none).map
      fun a => (a.entity.id, column a))).lookup id = v := by
  have ids : (((addedEntityCandidates new old none).map
      fun a => (a.entity.id, column a)).map Prod.fst) =
        addedIds (addedEntityCandidates new old none) := by
    rw [map_map]
    rfl
  by_cases mem : id ∈ addedIds (addedEntityCandidates new old none)
  · obtain ⟨a, aMem, rfl⟩ := mem_map.1 mem
    obtain ⟨live, -, unstored⟩ := (mem_addedIds_candidates fresh.own).1 mem
    obtain ⟨id, entity, found, -, -, rfl⟩ := (mem_addedEntityCandidates new old none).1 aMem
    have own : (addedEntity new id entity).entity.id = id := by
      rw [addedEntity_entity, fresh.own id entity found]
    rw [own] at unstored listed ⊢
    rw [listed entity found unstored]
    refine HashMap.lookup_extend_of_mem ?_ ?_
    · exact mem_map.2 ⟨_, aMem, by rw [own]⟩
    · intro w inList
      obtain ⟨b, bMem, pair⟩ := mem_map.1 inList
      obtain ⟨same, rfl⟩ := Prod.mk.inj pair
      have distinct : ((addedEntityCandidates new old none).map fun a => a.entity.id).Nodup :=
        nodup_addedIds_candidates fresh.own
      rw [inj_on_of_nodup_map distinct bMem aMem (same.trans own.symm)]
  · rw [HashMap.lookup_extend_of_notMem (by rw [ids]; exact mem)]
    refine unlisted fun live => ?_
    by_contra unstored
    exact mem ((mem_addedIds_candidates fresh.own).2 ⟨live, rfl, unstored⟩)

include newValid in
private theorem aboutToAdd_candidate {a : AddedEntity}
    (mem : a ∈ addedEntityCandidates new old none) {before : List AddedEntity}
    (unlisted : a.entity.id ∉ addedIds before) : AboutToAdd old new before a := by
  obtain ⟨id, entity, found, -, absent, rfl⟩ := (mem_addedEntityCandidates new old none).1 mem
  obtain ⟨path, member⟩ := Option.isSome_iff_exists.1
    (newValid.member id (Option.isSome_of_eq_some found))
  have own := fresh.own id entity found
  rw [addedEntity_entity, own] at unlisted
  refine ⟨?_, ?_, ?_, ?_⟩
  · rw [addedEntity_entity, own, found]
  · rw [addedEntity_entity, own]
    unfold Live
    rw [Option.isNone_iff_eq_none.1 absent]
    exact Bool.false_ne_true
  · rw [addedEntity_entity, own]
    exact unlisted
  · intro key keyed
    rw [addedEntity_entity, own] at keyed
    exact addedEntity_symbolKey member keyed

variable (none : NoRenameCandidate new old .none)

include none

private theorem functions_replayed (id : EntityId) :
    (replayed new old epoch baseEpoch config .none).functionIndex.lookup id =
      new.functionIndex.lookup id := by
  classical
  have table : (replayed new old epoch baseEpoch config .none).functionIndex = _ :=
    (congrArg EntityTables.functionIndex (entityTables_replayed none)).trans
      (functionIndex_applyAddedEntities _ _)
  rw [table]
  refine lookup_extend_candidates fresh _ AddedEntity.entity ?_ ?_
  · intro entity found _
    rw [addedEntity_entity]
    exact found
  · intro stored
    rw [lookup_functionIndex_lossesReplayed none]
    split_ifs with lost
    · exact (Option.not_isSome_iff_eq_none.1 (lost_iff_none.1 lost).2).symm
    · by_cases live : old.Live id
      · have kept : new.Live id := by
          by_contra dead
          exact lost (lost_iff_none.2 ⟨live, dead⟩)
        exact fresh.entity id live kept
      · rw [Option.not_isSome_iff_eq_none.1 live, Option.not_isSome_iff_eq_none.1 (mt stored live)]

include newSound

private theorem names_replayed {name : String} {id : EntityId} :
    id ∈ (replayed new old epoch baseEpoch config .none).nameIndex.bucket name ↔
      id ∈ new.nameIndex.bucket name := by
  classical
  have table : (replayed new old epoch baseEpoch config .none).nameIndex = _ :=
    congrArg EntityTables.nameIndex (entityTables_replayed none)
  have unstored : ∀ a ∈ addedEntityCandidates new old .none,
      (lossesReplayed new old epoch baseEpoch config .none).functionIndex.lookup a.entity.id =
        .none := by
    intro a mem
    have gone := ((mem_addedIds_candidates fresh.own).1 (mem_map_of_mem mem)).2.2
    rw [lookup_functionIndex_lossesReplayed none]
    split_ifs
    · rfl
    · exact Option.not_isSome_iff_eq_none.1 gone
  rw [table, newSound.mem_names]
  refine (mem_nameIndex_applyAddedEntities _ _ (nodup_addedIds_candidates fresh.own)
    unstored).trans ?_
  rw [mem_nameIndex_lossesReplayed none]
  constructor
  · rintro (⟨kept, entity, stored, named⟩ | ⟨a, mem, rfl, named⟩)
    · have live : old.Live id := Option.isSome_of_eq_some stored
      have survives : new.Live id := by
        by_contra dead
        exact kept (lost_iff_none.2 ⟨live, dead⟩)
      exact ⟨entity, (fresh.entity id live survives).symm.trans stored, named⟩
    · obtain ⟨id, entity, found, -, -, rfl⟩ := (mem_addedEntityCandidates new old .none).1 mem
      rw [addedEntity_entity] at named ⊢
      exact ⟨entity, by rw [fresh.own id entity found]; exact found, named⟩
  · rintro ⟨entity, stored, named⟩
    have live : new.Live id := Option.isSome_of_eq_some stored
    by_cases before : old.Live id
    · refine Or.inl ⟨not_lost_of_live_new live, entity, ?_, named⟩
      exact (fresh.entity id before live).trans stored
    · refine Or.inr ⟨addedEntity new id entity, ?_, ?_, ?_⟩
      · refine (mem_addedEntityCandidates new old .none).2 ⟨id, entity, stored, rfl, ?_, rfl⟩
        exact Option.isNone_iff_eq_none.2 (Option.not_isSome_iff_eq_none.1 before)
      · rw [addedEntity_entity, fresh.own id entity stored]
      · rw [addedEntity_entity]
        exact named

include oldSound

private theorem matches_losses :
    Matches old new [] (lossesReplayed new old epoch baseEpoch config .none) := by
  classical
  refine ⟨fun key id => ?_, fun id known => ?_⟩
  · rw [lookup_symbolKeyToEntity_lossesReplayed none]
    constructor
    · intro found
      split_ifs at found with lost
      have keyed := (oldSound.keyed_iff key id).1 found
      have live := oldSound.keyed_live id (Option.isSome_of_eq_some keyed)
      have kept : new.Live id := by
        by_contra dead
        exact lost ⟨id, lost_iff_none.2 ⟨live, dead⟩, keyed⟩
      exact ⟨(fresh.keyed id live kept).symm.trans keyed, Or.inl live⟩
    · rintro ⟨keyed, live | listed⟩
      · have kept := newSound.keyed_live id (Option.isSome_of_eq_some keyed)
        have found := (oldSound.keyed_iff key id).2 ((fresh.keyed id live kept).trans keyed)
        have stays : ¬LostKey new old .none key := by
          rintro ⟨gone, lost, goneKeyed⟩
          have other := (oldSound.keyed_iff key gone).2 goneKeyed
          obtain rfl : gone = id := Option.some.inj (other.symm.trans found)
          exact (lost_iff_none.1 lost).2 kept
        rw [if_neg stays]
        exact found
      · exact absurd listed not_mem_nil
  · rcases known with ⟨live, kept⟩ | listed
    · rw [lookup_functionIndex_lossesReplayed none, if_neg (not_lost_of_live_new kept)]
      exact fresh.entity id live kept
    · exact absurd listed not_mem_nil

omit fresh in
private theorem stable_replayed
    (keys : ∀ key, (replayed new old epoch baseEpoch config .none).symbolKeyToEntity.lookup key =
      new.symbolKeyToEntity.lookup key) (stableId : String) :
    (replayed new old epoch baseEpoch config .none).stableIdToEntity.lookup stableId =
      new.stableIdToEntity.lookup stableId := by
  classical
  have tables : (replayed new old epoch baseEpoch config .none).entityTables = _ :=
    entityTables_replayed none
  have symbols := congrArg EntityTables.symbolKeyToEntity tables
  have stables := congrArg EntityTables.stableIdToEntity tables
  simp only [entityTables] at symbols stables
  have grown : SymbolsGrow _ _ (replayed new old epoch baseEpoch config .none) :=
    symbolsGrow_replayed none
  have separate : ∀ key other id, new.symbolKeyToEntity.lookup key = some id →
      (new.symbolKeyToEntity.lookup other).isSome → key.stableId = other.stableId →
        key = other := by
    intro key other id found registered shared
    obtain ⟨otherId, otherFound⟩ := Option.isSome_iff_exists.1 registered
    have first := (newSound.stable_iff key.stableId id).2 ⟨key, found, rfl⟩
    have second := (newSound.stable_iff key.stableId otherId).2 ⟨other, otherFound, shared.symm⟩
    obtain rfl : id = otherId := Option.some.inj (first.symm.trans second)
    have named := (newSound.keyed_iff key id).1 found
    exact Option.some.inj (named.symm.trans ((newSound.keyed_iff other id).1 otherFound))
  have start : ∀ key id, (lossesReplayed new old epoch baseEpoch config
      .none).symbolKeyToEntity.lookup key = some id →
        (lossesReplayed new old epoch baseEpoch config .none).stableIdToEntity.lookup
          key.stableId = some id := by
    intro key id found
    rw [lookup_symbolKeyToEntity_lossesReplayed none] at found
    split_ifs at found with lost
    have stable := (oldSound.stable_iff key.stableId id).2 ⟨key, found, rfl⟩
    rw [lookup_stableIdToEntity_lossesReplayed none, if_neg]
    · exact stable
    · rintro ⟨other, ⟨gone, goneLost, goneKeyed⟩, shared⟩
      have other' := (oldSound.keyed_iff other gone).2 goneKeyed
      have second := (oldSound.stable_iff key.stableId gone).2 ⟨other, other', shared⟩
      obtain rfl : id = gone := Option.some.inj (stable.symm.trans second)
      exact lost ⟨id, goneLost, (oldSound.keyed_iff key id).1 found⟩
  refine Option.ext fun id => ?_
  rw [newSound.stable_iff]
  constructor
  · intro found
    rcases grown.stable_new stableId id found with early | ⟨key, registered, named⟩
    · rw [lookup_stableIdToEntity_lossesReplayed none] at early
      split_ifs at early with lost
      obtain ⟨key, registered, named⟩ := (oldSound.stable_iff stableId id).1 early
      refine ⟨key, ?_, named⟩
      rw [← keys]
      refine grown.key_kept key id ?_
      rw [lookup_symbolKeyToEntity_lossesReplayed none, if_neg fun gone => lost ⟨key, gone, named⟩]
      exact registered
    · exact ⟨key, (keys key).symm.trans registered, named⟩
  · rintro ⟨key, registered, rfl⟩
    rw [stables]
    refine stableId_applyAddedEntities _ _ start ?_ ?_
    · intro key other id found registered shared
      rw [← symbols, keys] at found registered
      exact separate key other id found registered shared
    · rw [← symbols, keys]
      exact registered

include newValid

/-- The replay stores the keys of the new index exactly when every registration agrees. -/
private theorem keys_replayed :
    (RegisterAllAlike old new [] (addedEntityCandidates new old .none) →
      ∀ key, (replayed new old epoch baseEpoch config .none).symbolKeyToEntity.lookup key =
        new.symbolKeyToEntity.lookup key) ∧
    ((∀ id, (replayed new old epoch baseEpoch config .none).entityToSymbolKey.lookup id =
        new.entityToSymbolKey.lookup id) ↔
      RegisterAllAlike old new [] (addedEntityCandidates new old .none)) := by
  classical
  have keys : (replayed new old epoch baseEpoch config .none).symbolKeyToEntity = _ :=
    congrArg EntityTables.symbolKeyToEntity (entityTables_replayed none)
  have keyed : (replayed new old epoch baseEpoch config .none).entityToSymbolKey = _ :=
    congrArg EntityTables.entityToSymbolKey (entityTables_replayed none)
  have candidates : ∀ {id}, id ∈ addedIds (addedEntityCandidates new old .none) ↔
      new.Live id ∧ ¬old.Live id := by
    intro id
    rw [mem_addedIds_candidates fresh.own]
    exact and_congr_right fun _ => and_iff_right rfl
  have unkeyed : ∀ a ∈ addedEntityCandidates new old .none,
      (lossesReplayed new old epoch baseEpoch config .none).entityToSymbolKey.lookup a.entity.id =
        .none := by
    intro a mem
    have unused := (candidates.1 (mem_map_of_mem mem)).2
    rw [lookup_entityToSymbolKey_lossesReplayed none]
    split_ifs
    · rfl
    · exact Option.not_isSome_iff_eq_none.1 (mt (oldSound.keyed_live _) unused)
  have start : Matches old new [] (lossesReplayed new old epoch baseEpoch config .none) :=
    matches_losses oldSound newSound fresh none
  obtain ⟨run, alike⟩ := start.run newSound
    (by rw [nil_append]; exact nodup_addedIds_candidates fresh.own)
    (fun a mem before unlisted => aboutToAdd_candidate newValid fresh mem unlisted) unkeyed
  refine ⟨fun all key => ?_, ?_⟩
  · have matched := run all
    rw [nil_append] at matched
    change _ = _
    rw [keys]
    refine Option.ext fun id => ?_
    rw [newSound.keyed_iff]
    refine (matched.key_iff key id).trans (and_iff_left_of_imp fun named => ?_)
    have live := newSound.keyed_live id (Option.isSome_of_eq_some named)
    by_cases before : old.Live id
    · exact Or.inl before
    · exact Or.inr (candidates.2 ⟨live, before⟩)
  · rw [← alike, keyed]
    constructor
    · exact fun agree a _ => agree a.entity.id
    · intro agree id
      by_cases listed : id ∈ addedIds (addedEntityCandidates new old .none)
      · obtain ⟨a, mem, rfl⟩ := mem_map.1 listed
        exact agree a mem
      · refine (lookup_entityToSymbolKey_applyAddedEntities _ listed).trans ?_
        rw [lookup_entityToSymbolKey_lossesReplayed none]
        have gone : ¬new.Live id → new.entityToSymbolKey.lookup id = .none := fun dead =>
          Option.not_isSome_iff_eq_none.1 (mt (newSound.keyed_live id) dead)
        split_ifs with lost
        · exact (gone (lost_iff_none.1 lost).2).symm
        · by_cases live : old.Live id
          · have kept : new.Live id := by
              by_contra dead
              exact lost (lost_iff_none.2 ⟨live, dead⟩)
            exact fresh.keyed id live kept
          · have dead : ¬new.Live id := fun kept => listed (candidates.2 ⟨kept, live⟩)
            rw [gone dead]
            exact Option.not_isSome_iff_eq_none.1 (mt (oldSound.keyed_live id) live)

private theorem members_replayed (id : EntityId) :
    (replayed new old epoch baseEpoch config .none).entityFileIndex.lookup id =
      new.entityFileIndex.lookup id := by
  classical
  have table : (replayed new old epoch baseEpoch config .none).entityFileIndex = _ :=
    (congrArg EntityTables.entityFileIndex (entityTables_replayed none)).trans
      (entityFileIndex_applyAddedEntities _ _)
  have dead : ∀ {index : RelationIndex}, TablesConsistent index → ¬index.Live id →
      index.entityFileIndex.lookup id = .none := fun sound gone =>
    Option.not_isSome_iff_eq_none.1 (mt (sound.member_live id) gone)
  rw [table]
  refine lookup_extend_candidates fresh _ AddedEntity.filePath ?_ ?_
  · intro entity found _
    obtain ⟨path, member⟩ := Option.isSome_iff_exists.1
      (newValid.member id (Option.isSome_of_eq_some found))
    rw [addedEntity_filePath member]
    exact member
  · intro stored
    rw [lookup_entityFileIndex_lossesReplayed none]
    split_ifs with lost
    · exact (dead newSound (lost_iff_none.1 lost).2).symm
    · by_cases live : old.Live id
      · have kept : new.Live id := by
          by_contra gone
          exact lost (lost_iff_none.2 ⟨live, gone⟩)
        exact fresh.member id live kept
      · rw [dead oldSound live, dead newSound (mt stored live)]

private theorem rows_replayed {path : String} {item : Nat ×ₗ EntityId} :
    item ∈ rowsAt (replayed new old epoch baseEpoch config .none).fileEntitiesByStart path ↔
      item ∈ rowsAt new.fileEntitiesByStart path ∧
        (old.Live (ofLex item).2 → ¬FileRemoved new old .none path) := by
  have table : (replayed new old epoch baseEpoch config .none).fileEntitiesByStart = _ :=
    congrArg EntityTables.fileEntitiesByStart (entityTables_replayed none)
  have oldRow : ∀ {path item}, item ∈ rowsAt old.fileEntitiesByStart path →
      old.Live (ofLex item).2 := by
    intro path item mem
    obtain ⟨entity, stored, -⟩ := (oldSound.mem_rows path item).1 mem
    exact Option.isSome_of_eq_some stored
  have unlisted : ∀ a ∈ addedEntityCandidates new old .none, ∀ path,
      ∀ item ∈ rowsAt (lossesReplayed new old epoch baseEpoch config
        .none).fileEntitiesByStart path, (ofLex item).2 ≠ a.entity.id := by
    intro a mem path item listed same
    have gone := ((mem_addedIds_candidates fresh.own).1 (mem_map_of_mem mem)).2.2
    exact gone (same ▸ oldRow ((mem_rowsAt_lossesReplayed none).1 listed).2.1)
  have ownRow : item ∈ rowsAt old.fileEntitiesByStart path → OwnFirstRow old path item := by
    intro mem
    obtain ⟨entity, stored, member, row⟩ := (oldSound.mem_rows path item).1 mem
    refine ⟨member, ?_⟩
    cases first : (rowsAt old.fileEntitiesByStart path).find?
        fun other => (ofLex other).2 = (ofLex item).2 with
    | none => exact absurd (decide_eq_true rfl) (find?_eq_none.1 first item mem)
    | some other =>
      have same : (ofLex other).2 = (ofLex item).2 := by simpa using find?_some first
      obtain ⟨twin, twinStored, -, twinRow⟩ :=
        (oldSound.mem_rows path other).1 (mem_of_find?_eq_some first)
      rw [same, stored] at twinStored
      obtain rfl := Option.some.inj twinStored
      exact congrArg some (ofLex.injective (Prod.ext (twinRow.trans row.symm) same))
  rw [table]
  refine (mem_rowsAt_applyAddedEntities _ _ (nodup_addedIds_candidates fresh.own) unlisted).trans ?_
  rw [mem_rowsAt_lossesReplayed none]
  constructor
  · rintro (⟨kept, mem, stays⟩ | ⟨a, mem, rfl, rfl⟩)
    · refine ⟨?_, fun _ => kept⟩
      have live := oldRow mem
      have survives : new.Live (ofLex item).2 := by
        by_contra dead
        exact stays ⟨lost_iff_none.2 ⟨live, dead⟩, ownRow mem⟩
      obtain ⟨entity, stored, member, row⟩ := (oldSound.mem_rows path item).1 mem
      exact (newSound.mem_rows path item).2 ⟨entity,
        (fresh.entity _ live survives).symm.trans stored,
        (fresh.member _ live survives).symm.trans member, row⟩
    · have gone := ((mem_addedIds_candidates fresh.own).1 (mem_map_of_mem mem)).2.2
      obtain ⟨id, entity, found, -, -, rfl⟩ := (mem_addedEntityCandidates new old .none).1 mem
      obtain ⟨path, member⟩ := Option.isSome_iff_exists.1
        (newValid.member id (Option.isSome_of_eq_some found))
      refine ⟨?_, fun live => absurd live gone⟩
      rw [newSound.mem_rows, addedEntity_filePath member]
      refine ⟨entity, ?_, ?_, ?_⟩
      · change new.functionIndex.lookup (addedEntity new id entity).entity.id = some entity
        rw [addedEntity_entity, fresh.own id entity found, found]
      · change new.entityFileIndex.lookup (addedEntity new id entity).entity.id = some path
        rw [addedEntity_entity, fresh.own id entity found, member]
      · change asU32 (addedEntity new id entity).entity.span.startPosition.row = _
        rw [addedEntity_entity]
  · rintro ⟨mem, keeps⟩
    obtain ⟨entity, stored, member, row⟩ := (newSound.mem_rows path item).1 mem
    have live : new.Live (ofLex item).2 := Option.isSome_of_eq_some stored
    by_cases before : old.Live (ofLex item).2
    · refine Or.inl ⟨keeps before, ?_, fun both => not_lost_of_live_new live both.1⟩
      exact (oldSound.mem_rows path item).2 ⟨entity,
        (fresh.entity _ before live).trans stored, (fresh.member _ before live).trans member, row⟩
    · refine Or.inr ⟨addedEntity new (ofLex item).2 entity, ?_, addedEntity_filePath member, ?_⟩
      · refine (mem_addedEntityCandidates new old .none).2 ⟨_, entity, stored, rfl, ?_, rfl⟩
        exact Option.isNone_iff_eq_none.2 (Option.not_isSome_iff_eq_none.1 before)
      · rw [addedEntity_entity, fresh.own _ entity stored, ← row]
        rfl

private theorem listed_replayed (oldValid : old.SnapshotValid)
    (keys : ∀ key, (replayed new old epoch baseEpoch config .none).symbolKeyToEntity.lookup key =
      new.symbolKeyToEntity.lookup key) {path : String} {key : SymbolKey} :
    key ∈ (replayed new old epoch baseEpoch config .none).fileSymbolKeys.bucket path ↔
      key ∈ new.fileSymbolKeys.bucket path ∧
        ∀ id, old.Live id → new.entityToSymbolKey.lookup id = some key →
          ¬FileRemoved new old .none path := by
  classical
  have grown : SymbolsGrow _ _ (replayed new old epoch baseEpoch config .none) :=
    symbolsGrow_replayed none
  constructor
  · intro listed
    rcases grown.listed_new path key listed with early | ⟨⟨id, added, found⟩, own⟩
    · obtain ⟨kept, before, stays⟩ := (mem_fileSymbolKeys_lossesReplayed none).1 early
      have own := oldValid.listed_path path key before
      obtain ⟨id, found⟩ := Option.isSome_iff_exists.1 (oldValid.listed_live path key before)
      have after := grown.key_kept key id (by
        rw [lookup_symbolKeyToEntity_lossesReplayed none, if_neg fun lost => stays ⟨lost, own⟩]
        exact found)
      rw [keys] at after
      refine ⟨?_, fun _ _ _ => kept⟩
      rw [← own]
      exact newValid.key_listed key (Option.isSome_of_eq_some after)
    · rw [keys] at found
      refine ⟨?_, fun other live keyed => ?_⟩
      · rw [← own]
        exact newValid.key_listed key (Option.isSome_of_eq_some found)
      · have same := (newSound.keyed_iff key other).2 keyed
        obtain rfl : other = id := Option.some.inj (same.symm.trans found)
        exact absurd live ((mem_addedIds_candidates fresh.own).1 added).2.2
  · rintro ⟨listed, keeps⟩
    have own := newValid.listed_path path key listed
    obtain ⟨id, found⟩ := Option.isSome_iff_exists.1 (newValid.listed_live path key listed)
    have keyed := (newSound.keyed_iff key id).1 found
    rcases grown.key_new key id ((keys key).trans found) with early | ⟨-, here⟩
    · rw [lookup_symbolKeyToEntity_lossesReplayed none] at early
      split_ifs at early with lost
      have live := oldSound.keyed_live id
        (Option.isSome_of_eq_some ((oldSound.keyed_iff key id).1 early))
      have before := oldValid.key_listed key (Option.isSome_of_eq_some early)
      rw [own] at before
      exact grown.listed_kept path key ((mem_fileSymbolKeys_lossesReplayed none).2
        ⟨keeps id live keyed, before, fun both => lost both.1⟩)
    · rw [own] at here
      exact here

end

theorem entitiesAgree_replayed_iff (old new : RelationIndex) (epoch baseEpoch : Int)
    (config : String) (oldValid : old.validateSnapshot = .ok ())
    (newValid : new.validateSnapshot = .ok ()) (oldSound : TablesConsistent old)
    (newSound : TablesConsistent new) (fresh : FreshlyAllocated old new) :
    EntitiesAgree (replayed new old epoch baseEpoch config none) new ↔
      ReplayRebuilds old new := by
  have oldValid := (validateSnapshot_iff old).1 oldValid
  have newValid := (validateSnapshot_iff new).1 newValid
  constructor
  · intro agree
    have unpaired : NoRenameCandidate new old none := by
      rw [← renamedEntities_eq_nil_iff]
      by_contra some
      obtain ⟨pair, paired⟩ := exists_mem_of_ne_nil _ some
      have stale : ∃ name, pair.oldId ∈
          (replayed new old epoch baseEpoch config none).nameIndex.bucket name ∧
            ¬(replayed new old epoch baseEpoch config none).Live pair.oldId :=
        stale_name_of_rename fresh.own paired
      obtain ⟨name, listed, dead⟩ := stale
      obtain ⟨entity, stored, -⟩ :=
        (newSound.mem_names name pair.oldId).1 ((agree.names name pair.oldId).1 listed)
      refine dead ?_
      unfold Live
      rw [agree.entity, stored]
      rfl
    refine ⟨unpaired, ?_, ?_, ?_⟩
    · intro id path live kept member removed
      obtain ⟨entity, stored⟩ := Option.isSome_iff_exists.1 kept
      have row : toLex (asU32 entity.span.startPosition.row, id) ∈
          rowsAt new.fileEntitiesByStart path :=
        (newSound.mem_rows path _).2
          ⟨entity, stored, (fresh.member id live kept).symm.trans member, rfl⟩
      rw [← agree.rows, rows_replayed oldSound newValid newSound fresh unpaired] at row
      exact row.2 live removed
    · intro id key live kept keyed removed
      have named := (fresh.keyed id live kept).symm.trans keyed
      have found := (newSound.keyed_iff key id).2 named
      have listed := newValid.key_listed key (Option.isSome_of_eq_some found)
      rw [← agree.listed, listed_replayed oldSound newValid newSound fresh unpaired
        oldValid agree.key] at listed
      exact listed.2 id live named removed
    · exact (keys_replayed oldSound newValid newSound fresh unpaired).2.1 agree.keyed
  · intro rebuilds
    have none := rebuilds.noRename
    have symbols : (RegisterAllAlike old new [] (addedEntityCandidates new old .none) →
        ∀ key, (replayed new old epoch baseEpoch config .none).symbolKeyToEntity.lookup key =
          new.symbolKeyToEntity.lookup key) ∧
      ((∀ id, (replayed new old epoch baseEpoch config .none).entityToSymbolKey.lookup id =
          new.entityToSymbolKey.lookup id) ↔
        RegisterAllAlike old new [] (addedEntityCandidates new old .none)) :=
      keys_replayed oldSound newValid newSound fresh none
    obtain ⟨keys, keyed⟩ := symbols
    have keys := keys rebuilds.registered
    refine ⟨functions_replayed fresh none, members_replayed oldSound newValid newSound fresh none,
      fun name id => names_replayed newSound fresh none, ?_, keyed.2 rebuilds.registered, keys,
      stable_replayed oldSound newSound none keys, ?_⟩
    · intro path
      refine List.Pairwise.eq_of_mem_iff (SortedVec.sorted _) (SortedVec.sorted _) fun item => ?_
      refine (rows_replayed oldSound newValid newSound fresh none).trans
        (and_iff_left_of_imp fun mem live => ?_)
      obtain ⟨entity, stored, member, -⟩ := (newSound.mem_rows path item).1 mem
      have kept : new.Live (ofLex item).2 := Option.isSome_of_eq_some stored
      exact rebuilds.recordKept _ path live kept ((fresh.member _ live kept).trans member)
    · intro path key
      rw [listed_replayed oldSound newValid newSound fresh none oldValid keys]
      refine and_iff_left_of_imp fun listed id live named => ?_
      have kept := newSound.keyed_live id (Option.isSome_of_eq_some named)
      rw [← newValid.listed_path path key listed]
      exact rebuilds.keyRecordKept id key live kept ((fresh.keyed id live kept).trans named)

end Replay

section Registration

variable [Sha256] {index : RelationIndex}

theorem tablesConsistent_new : TablesConsistent RelationIndex.new where
  mem_names _ _ := iff_of_false not_mem_nil fun ⟨_, found, _⟩ => nomatch found
  mem_rows _ _ := iff_of_false not_mem_nil fun ⟨_, found, _⟩ => nomatch found
  member_live _ some := nomatch some
  keyed_live _ some := nomatch some
  keyed_iff _ _ := iff_of_false (fun found => nomatch found) fun found => nomatch found
  stable_iff _ _ := iff_of_false (fun found => nomatch found) fun ⟨_, found, _⟩ => nomatch found

theorem TablesConsistent.addFunctionWithPath (sound : TablesConsistent index)
    {entityId : EntityId} (unused : ¬index.Live entityId) (entity : Entity) (path : String) :
    TablesConsistent (index.addFunctionWithPath entityId entity path) := by
  have unstored : index.functionIndex.lookup entityId = none :=
    Option.not_isSome_iff_eq_none.1 unused
  have functions : ∀ id, (index.addFunctionWithPath entityId entity path).functionIndex.lookup id =
      if id = entityId then some entity else index.functionIndex.lookup id :=
    fun id => HashMap.lookup_insert_eq _ _ _ _
  have members : ∀ id, (index.addFunctionWithPath entityId entity path).entityFileIndex.lookup id =
      if id = entityId then some path else index.entityFileIndex.lookup id :=
    fun id => HashMap.lookup_insert_eq _ _ _ _
  have grows : ∀ {id}, index.Live id →
      (index.addFunctionWithPath entityId entity path).Live id := fun live =>
    live_addFunctionWithPath.2 (Or.inr live)
  refine ⟨fun name id => ?_, fun file item => ?_, fun id member => ?_,
    fun id keyed => grows (sound.keyed_live id keyed), sound.keyed_iff, sound.stable_iff⟩
  · refine (mem_bucket_nameIndex_insertFunction index).trans ?_
    rw [functions, sound.mem_names, unstored]
    by_cases same : id = entityId
    · subst same
      simp [unstored, eq_comm]
    · simp [same]
  · have rows : (index.addFunctionWithPath entityId entity path).fileEntitiesByStart =
        trackFileEntity index.fileEntitiesByStart path (asU32 entity.span.startPosition.row)
          entityId := by
      unfold RelationIndex.addFunctionWithPath
      rw [unstored]
    have stands : rowStands index.fileEntitiesByStart path
        (asU32 entity.span.startPosition.row) entityId = false := by
      unfold rowStands
      cases first : (rowsAt index.fileEntitiesByStart path).find? fun item =>
          toLex (asU32 entity.span.startPosition.row, entityId) ≤ item with
      | none => rfl
      | some standing =>
        obtain ⟨other, stored, -⟩ :=
          (sound.mem_rows path standing).1 (mem_of_find?_eq_some first)
        refine decide_eq_false fun same => ?_
        rw [same, unstored] at stored
        cases stored
    rw [rows, mem_rowsAt_trackFileEntity, functions, members, sound.mem_rows, stands]
    by_cases same : (ofLex item).2 = entityId
    · rw [if_pos same, if_pos same, same, unstored]
      constructor
      · rintro (⟨rfl, -, rfl⟩ | ⟨_, found, -⟩)
        · exact ⟨entity, rfl, rfl, rfl⟩
        · cases found
      · rintro ⟨_, ⟨rfl⟩, ⟨rfl⟩, row⟩
        exact Or.inl ⟨rfl, rfl, ofLex.injective (Prod.ext row same)⟩
    · rw [if_neg same, if_neg same]
      refine ⟨fun reason => reason.resolve_left ?_, Or.inr⟩
      rintro ⟨-, -, rfl⟩
      exact same rfl
  · rw [members] at member
    split_ifs at member with same
    · exact live_addFunctionWithPath.2 (Or.inl same)
    · exact grows (sound.member_live id member)

end Registration

section Sample

private theorem live_pairIndex {second : Entity} {id : EntityId} :
    (pairIndex second).Live id ↔ id = second.id ∨ id = 1 := by
  unfold pairIndex
  rw [live_addFunctionWithPath, live_addFunctionWithPath]
  exact or_congr_right (or_iff_left Bool.false_ne_true)

private theorem tablesConsistent_pairIndex [Sha256] {second : Entity} (other : second.id ≠ 1) :
    TablesConsistent (pairIndex second) := by
  refine (tablesConsistent_new.addFunctionWithPath Bool.false_ne_true _ _).addFunctionWithPath ?_
    _ _
  rw [live_addFunctionWithPath]
  exact not_or_intro other Bool.false_ne_true

private theorem freshlyAllocated_pairIndex {before after : Entity} (distinct : before.id ≠ after.id)
    (beforeOther : before.id ≠ 1) (afterOther : after.id ≠ 1) :
    FreshlyAllocated (pairIndex before) (pairIndex after) := by
  have empty : StoredUnderOwnIds RelationIndex.new := fun _ _ found => nomatch found
  have shared : ∀ {id}, (pairIndex before).Live id → (pairIndex after).Live id → id = 1 := by
    intro id old new
    rcases live_pairIndex.1 old with rfl | first
    · exact (live_pairIndex.1 new).resolve_left distinct
    · exact first
  have functions : ∀ {second : Entity}, second.id ≠ 1 →
      (pairIndex second).functionIndex.lookup 1 = some (functionAt 1 "main" 1) := by
    intro second other
    exact (AList.lookup_insert_ne other.symm).trans (AList.lookup_insert _)
  have members : ∀ {second : Entity}, second.id ≠ 1 →
      (pairIndex second).entityFileIndex.lookup 1 = some "src/main.rs" := by
    intro second other
    exact (AList.lookup_insert_ne other.symm).trans (AList.lookup_insert _)
  refine ⟨?_, ?_, ?_, fun _ _ _ => rfl⟩
  · exact storedUnderOwnIds_addFunctionWithPath
      (storedUnderOwnIds_addFunctionWithPath empty (functionAt 1 "main" 1) _) _ _
  · intro id old new
    rw [shared old new, functions beforeOther, functions afterOther]
  · intro id old new
    rw [shared old new, members beforeOther, members afterOther]

end Sample

end ContextEngine

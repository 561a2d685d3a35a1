/- digest: What holds of every index that a canonical snapshot is loaded to. -/

import ContextEngine.Delta.NoDangling
import ContextEngine.Freshness.FreshIds
import ContextEngine.Index.Canonical
import ContextEngine.Reverse.Transposition

set_option autoImplicit false

namespace ContextEngine

open List HashMap RelationIndex Runs

variable [Sha256] {index index' : RelationIndex}

theorem NoDangling.registerSymbolKey (sound : NoDangling index) (filePath scopedName : String)
    (entity : Entity) {entityId : EntityId} (live : index.Live entityId) :
    NoDangling (index.registerSymbolKey filePath scopedName entity entityId) := by
  have valid := (validateSnapshot_iff index).1 sound.valid
  unfold RelationIndex.registerSymbolKey
  cases outcome : index.resolveSymbolKey filePath scopedName entity entityId with
  | kept => exact { sound with }
  | conflict key existing => exact { sound with }
  | placed own =>
    have free := lookup_of_resolveSymbolKey_placed index outcome
    have listed := valid.key_listed
    have registered := valid.listed_live
    have paths := valid.listed_path
    have keyLive := sound.key_live
    have keyedLive := sound.keyed_live
    refine { sound with
      valid := (validateSnapshot_iff _).2 { valid with
        key_listed := fun key found => ?_
        listed_live := fun path key mem => ?_
        listed_path := fun path key mem => ?_ }
      key_live := fun key id found => ?_
      keyed_live := fun id keyed => ?_
      stable_keyed := fun stableId id found => ?_ }
    · simp only [bucket_bucketPush, lookup_insert_eq] at found ⊢
      grind
    · simp only [bucket_bucketPush, lookup_insert_eq] at mem ⊢
      grind
    · simp only [bucket_bucketPush] at mem
      grind
    · simp only [lookup_insert_eq] at found
      change index.Live id
      grind
    · simp only [lookup_insert_eq] at keyed
      change index.Live id
      grind
    · simp only [lookup_insert_eq] at found ⊢
      split_ifs at found with same
      · exact ⟨own, (if_pos rfl).trans found, same.symm⟩
      · obtain ⟨key, held, stable⟩ := sound.stable_keyed stableId id found
        refine ⟨key, ?_, stable⟩
        grind

omit [Sha256] in
theorem mem_edgesOf_of_addEdge {K : Type} [DecidableEq K] {table : HashMap K RelationEdgeSet}
    {key owner : K} {relation edge : ResolvedRelation}
    (mem : edge ∈ edgesOf (addEdge table key relation) owner) :
    edge ∈ edgesOf table owner ∨ edge = relation := by
  rw [edgesOf_addEdge] at mem
  split_ifs at mem with fresh
  · exact (mem_append.1 mem).imp (fresh.1 ▸ id) mem_singleton.1
  · exact Or.inl mem

theorem NoDangling.addResolvedRelation (sound : NoDangling index) {relation : ResolvedRelation}
    (caller : index.Live relation.caller)
    (callee : ∀ id, relation.calleeId = some id → index.Live id) :
    NoDangling (index.addResolvedRelation relation) := by
  have valid := (validateSnapshot_iff index).1 sound.valid
  refine { sound with valid := (validateSnapshot_iff _).2 { valid with
    caller_live := fun owner set found => ?_
    callee_live := fun owner edge mem id hit => ?_ } }
  · change (addEdge index.resolvedRelationIndex relation.caller relation).lookup owner = _ at found
    unfold addEdge at found
    rw [apply_ite (AList.lookup owner), lookup_insert_eq] at found
    split_ifs at found with _ own
    · exact valid.caller_live owner set found
    · exact own ▸ caller
    · exact valid.caller_live owner set found
  · rcases mem_edgesOf_of_addEdge mem with old | rfl
    · exact valid.callee_live owner edge old id hit
    · exact callee id hit

theorem NoDangling.addFileRelation (sound : NoDangling index) (path : String)
    {relation : ResolvedRelation} (callee : ∀ id, relation.calleeId = some id → index.Live id) :
    NoDangling (index.addFileRelation path relation) := by
  have valid := (validateSnapshot_iff index).1 sound.valid
  refine { sound with valid := (validateSnapshot_iff _).2 { valid with
    file_callee_live := fun file edge mem id hit => ?_ } }
  rcases mem_edgesOf_of_addEdge mem with old | rfl
  · exact valid.file_callee_live file edge old id hit
  · exact callee id hit

namespace RelationSnapshotLoader

variable {snapshot : CanonicalRelationSnapshot} {symbolIds : HashMap SymbolKey EntityId}

/-- What every step of a load keeps. -/
def Consistent (index : RelationIndex) : Prop := NoDangling index ∧ ReverseTransposed index

theorem Consistent.loadEntity (sound : Consistent index) {entity : CanonicalEntity}
    (done : loadEntity snapshot symbolIds index entity = .ok index') : Consistent index' := by
  obtain ⟨entityId, stored, -, -, rfl⟩ := loadEntity_eq_ok done
  refine ⟨(sound.1.addFunctionWithPath entityId stored entity.key.filePath).registerSymbolKey
    _ _ _ (live_addFunctionWithPath.2 (Or.inl rfl)), ?_⟩
  have filed := (reverseTransposed_applyOp_iff sound.2 (.addFunctionWithPath entityId stored
    entity.key.filePath)).2 trivial
  exact (reverseTransposed_applyOp_iff filed (.registerSymbolKey _ _ stored entityId)).2 trivial

theorem Consistent.loadRelation (sound : Consistent index)
    (live : ∀ id, Given symbolIds id → index.Live id) {relation : CanonicalRelation}
    (done : loadRelation symbolIds index relation = .ok index') :
    Consistent index' ∧ index'.functionIndex = index.functionIndex := by
  unfold RelationSnapshotLoader.loadRelation at done
  obtain ⟨calleeId, target, done⟩ := bind_eq_ok.1 done
  have callees : ∀ id, calleeId = some id → index.Live id := fun id same =>
    live id (given_of_requiredIdOf target id same)
  split_ifs at done
  · obtain rfl := Except.ok.inj done
    exact ⟨⟨sound.1.addFileRelation _ callees, sound.2⟩, rfl⟩
  · obtain ⟨caller, own, done⟩ := bind_eq_ok.1 done
    obtain rfl := Except.ok.inj done
    refine ⟨⟨?_, ?_⟩, rfl⟩
    · exact sound.1.addResolvedRelation (live caller ⟨_, requiredId_eq_ok.1 own⟩) callees
    · exact (reverseTransposed_applyOp_iff sound.2 (.addResolvedRelation _)).2 trivial

/-- Whatever snapshot is loaded, the index validates, no table mentions an entity that is not
stored and the reverse table is the transpose of the forward one; the next number is free where the
snapshot's numbers leave room for it. -/
theorem consistent_of_loadCanonical (snapshot : CanonicalRelationSnapshot)
    (done : loadCanonical snapshot = .ok index) :
    NoDangling index ∧ ReverseTransposed index ∧ (NumbersFit snapshot → IdsExact index) := by
  have loaded : NumbersFit snapshot → IdsExact index := fun fits =>
    IdsExact.of_fresh (loadCanonical_eq_ok fits done).1 (loadCanonical_eq_ok fits done).2
  unfold loadCanonical buildIndex at done
  obtain ⟨-, -, done⟩ := bind_eq_ok.1 done
  obtain ⟨ids, assigned, done⟩ := bind_eq_ok.1 done
  obtain ⟨entities, stored, done⟩ := bind_eq_ok.1 done
  obtain ⟨exports, exported, done⟩ := bind_eq_ok.1 done
  obtain ⟨relations, related, done⟩ := bind_eq_ok.1 done
  have transposed : ReverseTransposed RelationIndex.new := fun callee caller =>
    iff_of_false (SortedVec.notMem_empty caller) fun calls => by cases calls
  have files : Consistent (snapshot.files.foldl (loadFile snapshot)
      (RelationIndex.new, dependenciesByFile snapshot)).1 :=
    List.foldlRecOn snapshot.files (loadFile snapshot)
      (motive := fun state : RelationIndex × HashMap String (List String) => Consistent state.1)
      ⟨noDangling_new, transposed⟩ fun _ sound _ _ => ⟨{ sound.1 with }, sound.2⟩
  have filed : Consistent entities :=
    invariant_of_ok (fun _ _ _ _ first sound => sound.loadEntity first) stored files
  have live : ∀ id, Given ids.symbolIds id → entities.Live id := by
    rintro id ⟨key, given⟩
    obtain ⟨entity, mem, rfl⟩ := mem_entities_of_given assigned given
    exact live_loadEntities stored mem given
  let Late (index : RelationIndex) : Prop :=
    Consistent index ∧ index.functionIndex = entities.functionIndex
  have afterExports : Late exports := by
    refine invariant_of_ok (fun file _ index index' first late => ?_) exported ⟨filed, rfl⟩
    unfold loadExports at first
    obtain ⟨items, -, first⟩ := bind_eq_ok.1 first
    obtain rfl := Except.ok.inj first
    split_ifs
    · exact late
    · exact ⟨⟨{ late.1.1 with }, late.1.2⟩, late.2⟩
  have afterRelations : Late relations := by
    refine invariant_of_ok (fun relation _ index index' first late => ?_) related afterExports
    have stillLive : ∀ id, Given ids.symbolIds id → index.Live id := fun id given => by
      unfold Live
      rw [late.2]
      exact live id given
    obtain ⟨sound, functions⟩ := late.1.loadRelation stillLive first
    exact ⟨sound, functions.trans late.2⟩
  obtain rfl := Except.ok.inj done
  exact ⟨{ afterRelations.1.1 with }, afterRelations.1.2, loaded⟩

/-- The export of two functions of which one calls the other. -/
def callSnapshot : CanonicalRelationSnapshot :=
  @canonicalComponents sampleSha256 (methodCallIndex none) ""

omit [Sha256] in
theorem consistent_callSnapshot : ∃ index, @loadCanonical sampleSha256 callSnapshot = .ok index ∧
    @NoDangling sampleSha256 index ∧ ReverseTransposed index ∧ IdsExact index := by
  let _ := sampleSha256
  have loads : (loadCanonical callSnapshot).isOk = true := by decide
  cases outcome : loadCanonical callSnapshot with
  | error message =>
    rw [outcome] at loads
    cases loads
  | ok index =>
    obtain ⟨sound, transposed, exact'⟩ := consistent_of_loadCanonical callSnapshot outcome
    exact ⟨index, rfl, sound, transposed, exact' (by unfold NumbersFit; decide)⟩

end RelationSnapshotLoader

end ContextEngine

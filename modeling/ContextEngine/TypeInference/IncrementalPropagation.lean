/- digest: When patching the propagator file by file is as good as rebuilding it. -/

import ContextEngine.TypeInference.CrossFilePropagator

set_option autoImplicit false

namespace ContextEngine

open Function HashMap List RankedSlots TypeTable

variable {Shape : Type}

section Contexts

/-- The ids a file speaks of. -/
def FileContext.Mentions (file : FileContext Shape) (id : EntityId) : Prop :=
  (∃ entity ∈ file.entities, entity.id = id) ∨ (file.ctx.paramArity.lookup id).isSome

/-- A function with an arity record and no typed parameter. -/
def FileContext.Stray (file : FileContext Shape) (id : EntityId) : Prop :=
  (file.ctx.paramArity.lookup id).isSome ∧ ∀ e ∈ file.paramEntries, e.id ≠ id

def RenewsRecords (old new : Option (FileContext Shape)) : Prop :=
  ∀ c, old = some c → ∀ id, c.Stray id →
    ∃ d, new = some d ∧ (d.ctx.paramArity.lookup id).isSome

/-- The latest contexts of the files that are present, by normalized path. -/
abbrev Present (Shape : Type) := String → Option (FileContext Shape)

/-- An id belongs to one file and has one name there. -/
structure Present.Disjoint (present : Present Shape) : Prop where
  files : ∀ f g c d id, present f = some c → present g = some d → c.Mentions id → d.Mentions id →
    f = g
  names : ∀ f c, present f = some c → ∀ e ∈ c.entities, ∀ e' ∈ c.entities, e.id = e'.id →
    e.name = e'.name

/-- What the files contribute to one of the tables. -/
def Present.contributed {V : Type} (present : Present Shape)
    (entries : FileContext Shape → List (NamedType V)) (f : String) : List (NamedType V) :=
  ((present f).map entries).getD []

variable {present : Present Shape} {V : Type} {entries : FileContext Shape → List (NamedType V)}

theorem Present.mem_contributed {f : String} {e : NamedType V} :
    e ∈ present.contributed entries f ↔ ∃ c, present f = some c ∧ e ∈ entries c := by
  unfold Present.contributed
  cases present f <;> simp

theorem Present.contributed_update (f : String) (file : Option (FileContext Shape)) :
    Present.contributed (Function.update present f file) entries =
      Function.update (present.contributed entries) f ((file.map entries).getD []) := by
  funext g
  by_cases here : g = f
  · subst here
    rw [update_self, Present.contributed, update_self]
  · rw [update_of_ne here, Present.contributed, update_of_ne here]
    rfl

/-- The entries of a file belong to entities of the file and are told apart by their ids. -/
structure EntriesOfFile (entries : FileContext Shape → List (NamedType V)) : Prop where
  mentioned : ∀ c, ∀ e ∈ entries c, c.Mentions e.id
  once : ∀ c : FileContext Shape,
    (∀ e ∈ c.entities, ∀ e' ∈ c.entities, e.id = e'.id → e.name = e'.name) →
      ∀ e ∈ entries c, ∀ e' ∈ entries c, e.id = e'.id → e = e'

theorem EntriesOfFile.separate (ofFile : EntriesOfFile entries) (disjoint : present.Disjoint) :
    Separate (present.contributed entries) := by
  intro f g e mem e' mem' same
  obtain ⟨c, found, mem⟩ := Present.mem_contributed.1 mem
  obtain ⟨d, found', mem'⟩ := Present.mem_contributed.1 mem'
  have file : f = g := disjoint.files f g c d e.id found found' (ofFile.mentioned c e mem)
    (same ▸ ofFile.mentioned d e' mem')
  subst file
  rw [found] at found'
  cases found'
  exact ⟨rfl, ofFile.once c (disjoint.names f c found) e mem e' mem' same⟩

variable {file : FileContext Shape}

theorem FileContext.mem_functionEntries {types : HashMap EntityId V}
    {e : NamedType V} : e ∈ file.functionEntries types ↔
      types.lookup e.id = some e.value ∧ file.nameMap.lookup e.id = some e.name := by
  unfold FileContext.functionEntries
  rw [mem_filterMap]
  constructor
  · rintro ⟨⟨id, v⟩, mem, made⟩
    obtain ⟨name, named, rfl⟩ := Option.map_eq_some_iff.1 made
    exact ⟨mem_toList.1 mem, named⟩
  · rintro ⟨typed, named⟩
    exact ⟨(e.id, e.value), mem_toList.2 typed, by rw [named]; rfl⟩

theorem FileContext.mentions_of_named {id : EntityId} {name : String}
    (named : file.nameMap.lookup id = some name) : file.Mentions id := by
  by_cases listed : id ∈ (file.entities.map fun entity => (entity.id, entity.name)).map Prod.fst
  · obtain ⟨pair, paired, rfl⟩ := mem_map.1 listed
    obtain ⟨entity, mem, rfl⟩ := mem_map.1 paired
    exact Or.inl ⟨entity, mem, rfl⟩
  · rw [FileContext.nameMap, lookup_extend_of_notMem listed] at named
    cases named

theorem entriesOfFile_functionEntries (types : FileContext Shape → HashMap EntityId V) :
    EntriesOfFile fun c => c.functionEntries (types c) where
  mentioned c e mem := FileContext.mentions_of_named (FileContext.mem_functionEntries.1 mem).2
  once c _ := by
    rintro ⟨id, name, value⟩ mem ⟨id', name', value'⟩ mem' rfl
    obtain ⟨typed, named⟩ := FileContext.mem_functionEntries.1 mem
    obtain ⟨typed', named'⟩ := FileContext.mem_functionEntries.1 mem'
    have names : name = name' := Option.some.inj (named.symm.trans named')
    have values : value = value' := Option.some.inj (typed.symm.trans typed')
    subst names values
    rfl

theorem FileContext.mem_fieldEntries
    {e : NamedType (TypeBinding Shape)} : e ∈ file.fieldEntries ↔
      ∃ entity ∈ file.entities, (entity.kind = .field ∨ entity.kind = .property) ∧
        entity.id = e.id ∧ entity.name = e.name ∧
          file.ctx.getVariableType e.name = some e.value := by
  unfold FileContext.fieldEntries
  rw [mem_filterMap]
  constructor
  · rintro ⟨entity, mem, made⟩
    split_ifs at made with kind
    obtain ⟨binding, typed, rfl⟩ := Option.map_eq_some_iff.1 made
    exact ⟨entity, mem, kind, rfl, rfl, typed⟩
  · rintro ⟨entity, mem, kind, sameId, sameName, typed⟩
    refine ⟨entity, mem, ?_⟩
    rw [if_pos kind, sameName, typed, sameId]
    rfl

theorem entriesOfFile_fieldEntries :
    EntriesOfFile fun c : FileContext Shape => c.fieldEntries where
  mentioned c e mem := by
    obtain ⟨entity, mem, -, same, -⟩ := FileContext.mem_fieldEntries.1 mem
    exact Or.inl ⟨entity, mem, same⟩
  once c names := by
    rintro ⟨id, name, value⟩ mem ⟨id', name', value'⟩ mem' rfl
    obtain ⟨entity, listed, -, sameId, sameName, typed⟩ := FileContext.mem_fieldEntries.1 mem
    obtain ⟨entity', listed', -, sameId', sameName', typed'⟩ := FileContext.mem_fieldEntries.1 mem'
    have equal : name = name' := sameName.symm.trans
      ((names entity listed entity' listed' (sameId.trans sameId'.symm)).trans sameName')
    subst equal
    have values : value = value' := Option.some.inj (typed.symm.trans typed')
    subst values
    rfl

theorem Present.Disjoint.of_le {present fewer : Present Shape} (disjoint : present.Disjoint)
    (mentioned : ∀ f c, fewer f = some c → ∃ d, present f = some d ∧ d.entities = c.entities ∧
      ∀ id, c.Mentions id → d.Mentions id) : fewer.Disjoint where
  files f g c d id found found' mentions mentions' := by
    obtain ⟨c', present_, -, mentioned_⟩ := mentioned f c found
    obtain ⟨d', present', -, mentioned'⟩ := mentioned g d found'
    exact disjoint.files f g c' d' id present_ present' (mentioned_ id mentions)
      (mentioned' id mentions')
  names f c found := by
    obtain ⟨d, present_, same, -⟩ := mentioned f c found
    rw [← same]
    exact disjoint.names f d present_

theorem disjoint_removed (disjoint : present.Disjoint) (f : String) :
    Present.Disjoint (Function.update present f none) := by
  refine disjoint.of_le fun g c found => ⟨c, ?_, rfl, fun _ mentions => mentions⟩
  by_cases here : g = f
  · subst here
    rw [update_self] at found
    cases found
  · rwa [update_of_ne here] at found

end Contexts

namespace CrossFilePropagator

section Invariant

variable {propagator : CrossFilePropagator Shape} {present : Present Shape}

/-- The overload members under a name are the functions of this name, each once. -/
structure OverloadsExact (nameToIds : HashMap String (List EntityId))
    (contributed : String → List (NamedType (TypeBinding Shape))) : Prop where
  once : ∀ name, (nameToIds.bucket name).Nodup
  mem : ∀ name id, id ∈ nameToIds.bucket name ↔ ∃ f, ∃ e ∈ contributed f, e.id = id ∧ e.name = name

/-- What the tables hold when the files present have these contexts, the arity records apart. -/
structure TablesHold (propagator : CrossFilePropagator Shape) (present : Present Shape) :
    Prop where
  returns : Tabulates bindingRank propagator.returns
    (present.contributed FileContext.returnEntries)
  overloads : OverloadsExact propagator.nameToIds (present.contributed FileContext.returnEntries)
  params : Tabulates bestPriority propagator.params (present.contributed FileContext.paramEntries)
  fields : Tabulates bindingRank propagator.fields (present.contributed FileContext.fieldEntries)

/-- The arity records are those of the files present. -/
structure Holds (propagator : CrossFilePropagator Shape) (present : Present Shape) : Prop
    extends TablesHold propagator present where
  arity : ∀ id a, propagator.paramArityCache.lookup id = some a ↔
    ∃ f c, present f = some c ∧ c.ctx.paramArity.lookup id = some a

theorem holds_empty : Holds ({} : CrossFilePropagator Shape) fun _ => none where
  returns := tabulates_empty
  overloads := {
    once := fun _ => nodup_nil
    mem := fun name id => by simp [bucket, Present.contributed] }
  params := tabulates_empty
  arity id a := by simp
  fields := tabulates_empty

theorem bucket_foldl_dropOverload (idToName : HashMap EntityId String)
    (nameToIds : HashMap String (List EntityId)) (ids : List EntityId) (name : String) :
    (ids.foldl (dropOverload idToName) nameToIds).bucket name =
      (nameToIds.bucket name).filter fun id => ¬ (id ∈ ids ∧ idToName.lookup id = some name) := by
  induction ids generalizing nameToIds with
  | nil => simp
  | cons a ids ih =>
    rw [foldl_cons, ih, dropOverload]
    cases named : idToName.lookup a with
    | none =>
      refine filter_congr fun id _ => ?_
      have other : id = a → idToName.lookup id ≠ some name := by
        rintro rfl
        simp [named]
      simp only [mem_cons]
      grind
    | some n =>
      simp only
      rw [bucket_bucketErase]
      by_cases here : name = n
      · subst here
        rw [if_pos rfl, filter_filter]
        refine filter_congr fun id _ => ?_
        simp only [mem_cons]
        grind
      · rw [if_neg here]
        refine filter_congr fun id _ => ?_
        simp only [mem_cons]
        grind

theorem overloads_pushed {nameToIds : HashMap String (List EntityId)} {V : Type}
    (entries : List (NamedType V)) (once : ∀ name, (nameToIds.bucket name).Nodup) :
    (∀ name, ((entries.foldl (fun ids entry => ids.bucketPushNew entry.name entry.id)
        nameToIds).bucket name).Nodup) ∧
      ∀ name id, id ∈ (entries.foldl (fun ids entry => ids.bucketPushNew entry.name entry.id)
        nameToIds).bucket name ↔
          id ∈ nameToIds.bucket name ∨ ∃ e ∈ entries, e.id = id ∧ e.name = name := by
  induction entries generalizing nameToIds with
  | nil => exact ⟨once, by simp⟩
  | cons e rest ih =>
    have pushed : ∀ name, ((nameToIds.bucketPushNew e.name e.id).bucket name).Nodup ∧
        ∀ id, id ∈ (nameToIds.bucketPushNew e.name e.id).bucket name ↔
          id ∈ nameToIds.bucket name ∨ (e.id = id ∧ e.name = name) := by
      intro name
      rw [bucket_bucketPushNew]
      by_cases here : name = e.name
      · subst here
        rw [if_pos rfl]
        by_cases held : e.id ∈ nameToIds.bucket e.name
        · rw [if_pos held]
          exact ⟨once _, fun id => ⟨Or.inl, by rintro (mem | ⟨rfl, -⟩) <;> assumption⟩⟩
        · rw [if_neg held]
          refine ⟨?_, fun id => by simp [eq_comm]⟩
          exact nodup_append.2 ⟨once _, nodup_singleton _, by
            intro a mem b mem' same
            rw [mem_singleton] at mem'
            exact held (mem' ▸ same ▸ mem)⟩
      · rw [if_neg here]
        exact ⟨once _, fun id => ⟨Or.inl, by
          rintro (mem | ⟨-, same⟩)
          · exact mem
          · exact absurd same.symm here⟩⟩
    obtain ⟨nodup, members⟩ := ih fun name => (pushed name).1
    refine ⟨nodup, fun name id => ?_⟩
    rw [foldl_cons, members, (pushed name).2, or_assoc]
    simp only [mem_cons, exists_eq_or_imp]

theorem EntriesOfFile.returns : EntriesOfFile fun c : FileContext Shape => c.returnEntries :=
  entriesOfFile_functionEntries fun c => c.ctx.returnTypes

theorem EntriesOfFile.params : EntriesOfFile fun c : FileContext Shape => c.paramEntries :=
  entriesOfFile_functionEntries fun c => c.ctx.parameterTypes

theorem mem_listedIds {V : Type} {rank : V → Nat} {table : TypeTable V}
    {contributed : String → List (NamedType V)} (tabulates : Tabulates rank table contributed)
    (f : String) (id : EntityId) :
    id ∈ ((table.fileIndex.lookup f).getD []).map Prod.fst ↔ ∃ e ∈ contributed f, e.id = id := by
  have ids : ((table.fileIndex.lookup f).getD []).map Prod.fst =
      (contributed f).map NamedType.id := by
    rw [tabulates.listed]
    split_ifs with empty
    · rw [isEmpty_iff.1 empty]
      rfl
    · rw [Option.getD_some, map_map]
      rfl
  rw [ids, mem_map]

theorem OverloadsExact.removeFile {nameToIds : HashMap String (List EntityId)}
    {table : TypeTable (TypeBinding Shape)}
    {contributed : String → List (NamedType (TypeBinding Shape))}
    (exact_ : OverloadsExact nameToIds contributed)
    (tabulates : Tabulates bindingRank table contributed) (separate : Separate contributed)
    (f : String) : OverloadsExact ((((table.fileIndex.lookup f).getD []).map Prod.fst).foldl
      (dropOverload table.idToName) nameToIds) (Function.update contributed f []) where
  once name := by
    rw [bucket_foldl_dropOverload]
    exact (exact_.once name).filter _
  mem name id := by
    rw [bucket_foldl_dropOverload, mem_filter, exact_.mem, decide_eq_true_eq,
      mem_listedIds tabulates, tabulates.named]
    constructor
    · rintro ⟨⟨g, e, mem, rfl, rfl⟩, kept⟩
      have other : g ≠ f := by
        rintro rfl
        exact kept ⟨⟨e, mem, rfl⟩, g, e, mem, rfl, rfl⟩
      exact ⟨g, e, by rwa [update_of_ne other], rfl, rfl⟩
    · rintro ⟨g, e, mem, rfl, rfl⟩
      have before := mem_of_mem_update_nil mem
      refine ⟨⟨g, e, before, rfl, rfl⟩, ?_⟩
      rintro ⟨⟨e', mem', same⟩, -⟩
      obtain ⟨rfl, rfl⟩ := separate f g e' mem' e before same
      rw [update_self] at mem
      cases mem

theorem OverloadsExact.pushEntries {nameToIds : HashMap String (List EntityId)}
    {contributed : String → List (NamedType (TypeBinding Shape))}
    (exact_ : OverloadsExact nameToIds contributed) {f : String} (absent : contributed f = [])
    (entries : List (NamedType (TypeBinding Shape))) :
    OverloadsExact (entries.foldl (fun ids entry => ids.bucketPushNew entry.name entry.id)
      nameToIds) (Function.update contributed f entries) where
  once := (overloads_pushed entries exact_.once).1
  mem name id := by
    rw [(overloads_pushed entries exact_.once).2, exact_.mem, exists_mem_update absent]

theorem TablesHold.removeFile (holds : TablesHold propagator present) (disjoint : present.Disjoint)
    (filePath : String) : TablesHold (propagator.removeFile filePath)
      (Function.update present (normalizeProjectPath filePath) none) where
  returns := by
    rw [Present.contributed_update]
    exact holds.returns.removeFile rankedBy_supersedesBinding
      (EntriesOfFile.returns.separate disjoint) _
  overloads := by
    rw [Present.contributed_update]
    exact holds.overloads.removeFile holds.returns (EntriesOfFile.returns.separate disjoint) _
  params := by
    rw [Present.contributed_update]
    exact holds.params.removeFile rankedBy_bindingsSupersede
      (EntriesOfFile.params.separate disjoint) _
  fields := by
    rw [Present.contributed_update]
    exact holds.fields.removeFile rankedBy_supersedesBinding
      (entriesOfFile_fieldEntries.separate disjoint) _

theorem TablesHold.addEntries (holds : TablesHold propagator present) {f : String}
    (absent : present f = none) {file : FileContext Shape}
    (disjoint : Present.Disjoint (Function.update present f (some file))) :
    TablesHold (propagator.addEntries f file) (Function.update present f (some file)) where
  returns := by
    have separate := EntriesOfFile.returns.separate disjoint
    rw [Present.contributed_update] at separate ⊢
    exact holds.returns.insertEntries rankedBy_supersedesBinding
      (by simp [Present.contributed, absent]) separate
  overloads := by
    rw [Present.contributed_update]
    exact holds.overloads.pushEntries (by simp [Present.contributed, absent]) _
  params := by
    have separate := EntriesOfFile.params.separate disjoint
    rw [Present.contributed_update] at separate ⊢
    exact holds.params.insertEntries rankedBy_bindingsSupersede
      (by simp [Present.contributed, absent]) separate
  fields := by
    have separate := entriesOfFile_fieldEntries.separate disjoint
    rw [Present.contributed_update] at separate ⊢
    exact holds.fields.insertEntries rankedBy_supersedesBinding
      (by simp [Present.contributed, absent]) separate

end Invariant

section Runs

variable {propagator : CrossFilePropagator Shape} {present : Present Shape} {a : ParamArity}
  {id : EntityId}

theorem mentions_of_arity {file : FileContext Shape}
    (recorded : file.ctx.paramArity.lookup id = some a) : file.Mentions id :=
  Or.inr (by rw [recorded]; rfl)

theorem Holds.arity_removeFile (holds : Holds propagator present) (filePath : String)
    (id : EntityId) (a : ParamArity) :
    (propagator.removeFile filePath).paramArityCache.lookup id = some a ↔
      (∃ f c, present f = some c ∧ c.ctx.paramArity.lookup id = some a) ∧
        ¬ ∃ e ∈ present.contributed FileContext.paramEntries (normalizeProjectPath filePath),
          e.id = id := by
  show (propagator.paramArityCache.eraseAll _).lookup id = some a ↔ _
  rw [lookup_eraseAll, ← mem_listedIds holds.params, ← holds.arity]
  split_ifs with erased
  · simp [erased]
  · simp only [erased, not_false_eq_true, and_true]

theorem not_contributed_of_other (disjoint : present.Disjoint) {f g : String}
    {c : FileContext Shape} (found : present g = some c)
    (recorded : c.ctx.paramArity.lookup id = some a) (other : g ≠ f) :
    ¬ ∃ e ∈ present.contributed FileContext.paramEntries f, e.id = id := by
  rintro ⟨e, mem, rfl⟩
  obtain ⟨d, found', mem'⟩ := Present.mem_contributed.1 mem
  exact other (disjoint.files g f c d e.id found found' (mentions_of_arity recorded)
    (EntriesOfFile.params.mentioned d e mem'))

theorem stray_of_not_contributed {f : String} {c : FileContext Shape} (found : present f = some c)
    (recorded : c.ctx.paramArity.lookup id = some a)
    (kept : ¬ ∃ e ∈ present.contributed FileContext.paramEntries f, e.id = id) : c.Stray id :=
  ⟨by rw [recorded]; rfl, fun e mem same =>
    kept ⟨e, Present.mem_contributed.2 ⟨c, found, mem⟩, same⟩⟩

section

variable (holds : Holds propagator present) (disjoint : present.Disjoint) (filePath : String)

include holds disjoint filePath

theorem Holds.arity_removeFile_of_clean {id : EntityId} (a : ParamArity)
    (clean : ∀ c, present (normalizeProjectPath filePath) = some c → ¬ c.Stray id) :
    (propagator.removeFile filePath).paramArityCache.lookup id = some a ↔
      ∃ f c, f ≠ normalizeProjectPath filePath ∧ present f = some c ∧
        c.ctx.paramArity.lookup id = some a := by
  rw [holds.arity_removeFile]
  constructor
  · rintro ⟨⟨f, c, found, recorded⟩, kept⟩
    refine ⟨f, c, ?_, found, recorded⟩
    rintro rfl
    exact clean c found (stray_of_not_contributed found recorded kept)
  · rintro ⟨f, c, other, found, recorded⟩
    exact ⟨⟨f, c, found, recorded⟩, not_contributed_of_other disjoint found recorded other⟩

theorem Holds.removeFile (renews : RenewsRecords (present (normalizeProjectPath filePath)) none) :
    Holds (propagator.removeFile filePath)
      (Function.update present (normalizeProjectPath filePath) none) where
  toTablesHold := holds.toTablesHold.removeFile disjoint filePath
  arity id a := by
    have clean : ∀ c, present (normalizeProjectPath filePath) = some c → ¬ c.Stray id := by
      intro c found stray
      obtain ⟨d, none_, -⟩ := renews c found id stray
      cases none_
    rw [holds.arity_removeFile_of_clean disjoint filePath a clean]
    refine exists_congr fun f => exists_congr fun c => ?_
    by_cases here : f = normalizeProjectPath filePath
    · subst here
      simp
    · rw [update_of_ne here]
      simp [here]

theorem Holds.insertFile (file : FileContext Shape)
    (renews : RenewsRecords (present (normalizeProjectPath filePath)) (some file))
    (disjoint' : Present.Disjoint
      (Function.update present (normalizeProjectPath filePath) (some file))) :
    Holds (propagator.insertFile filePath file)
      (Function.update present (normalizeProjectPath filePath) (some file)) where
  toTablesHold := by
    have removed := holds.toTablesHold.removeFile disjoint (normalizeProjectPath filePath)
    rw [normalizeProjectPath_idem] at removed
    have again : Present.Disjoint (update (update present
        (normalizeProjectPath filePath) none) (normalizeProjectPath filePath) (some file)) := by
      rwa [update_idem]
    have added := removed.addEntries (update_self ..) again
    rwa [update_idem] at added
  arity id a := by
    have added : (propagator.insertFile filePath file).paramArityCache =
        (propagator.removeFile (normalizeProjectPath filePath)).paramArityCache.extend
          file.ctx.paramArity.toList := rfl
    rw [added]
    cases new : file.ctx.paramArity.lookup id with
    | some b =>
      have unique : ∀ w, (id, w) ∈ file.ctx.paramArity.toList → w = b := fun w mem =>
        Option.some.inj ((mem_toList.1 mem).symm.trans new)
      rw [lookup_extend_of_mem (mem_toList.2 new) unique]
      constructor
      · intro same
        exact ⟨_, file, update_self .., new.trans same⟩
      · rintro ⟨f, c, found, recorded⟩
        have here := disjoint'.files f _ c file id found (update_self ..)
          (mentions_of_arity recorded) (mentions_of_arity new)
        subst here
        rw [update_self] at found
        cases found
        exact new.symm.trans recorded
    | none =>
      have fresh : id ∉ file.ctx.paramArity.toList.map Prod.fst := by
        intro mem
        obtain ⟨⟨id', b⟩, listed, rfl⟩ := mem_map.1 mem
        rw [mem_toList.1 listed] at new
        cases new
      have clean : ∀ c, present (normalizeProjectPath (normalizeProjectPath filePath)) = some c →
          ¬ c.Stray id := by
        intro c found stray
        rw [normalizeProjectPath_idem] at found
        obtain ⟨d, same, again⟩ := renews c found id stray
        cases same
        rw [new] at again
        cases again
      rw [lookup_extend_of_notMem fresh,
        holds.arity_removeFile_of_clean disjoint (normalizeProjectPath filePath) a clean,
        normalizeProjectPath_idem]
      refine exists_congr fun f => exists_congr fun c => ?_
      by_cases here : f = normalizeProjectPath filePath
      · subst here
        rw [update_self]
        constructor
        · rintro ⟨other, -⟩
          exact absurd rfl other
        · rintro ⟨same, recorded⟩
          cases same
          rw [new] at recorded
          cases recorded
      · rw [update_of_ne here]
        simp [here]

end

/-- The same propagator, with the lists of the files iterated in another order. -/
structure Reordered (propagator reordered : CrossFilePropagator Shape) : Prop where
  returns : propagator.returns.fileIndex.entries.Perm reordered.returns.fileIndex.entries
  params : propagator.params.fileIndex.entries.Perm reordered.params.fileIndex.entries
  fields : propagator.fields.fileIndex.entries.Perm reordered.fields.fileIndex.entries
  rest : { propagator with
    returns := { propagator.returns with fileIndex := reordered.returns.fileIndex }
    params := { propagator.params with fileIndex := reordered.params.fileIndex }
    fields := { propagator.fields with fileIndex := reordered.fields.fileIndex } } = reordered

theorem tabulates_reordered {V : Type} {rank : V → Nat} {table : TypeTable V}
    {contributed : String → List (NamedType V)} (tabulates : Tabulates rank table contributed)
    {fileIndex : HashMap String (List (EntityId × V))}
    (perm : table.fileIndex.entries.Perm fileIndex.entries) :
    Tabulates rank { table with fileIndex := fileIndex } contributed :=
  { tabulates with
    listed := fun f => (AList.perm_lookup perm).symm.trans (tabulates.listed f) }

theorem Holds.reordered {reordered : CrossFilePropagator Shape}
    (holds : Holds propagator present) (same : Reordered propagator reordered) :
    Holds reordered present := by
  rw [← same.rest]
  exact {
    returns := tabulates_reordered holds.returns same.returns
    overloads := holds.overloads
    params := tabulates_reordered holds.params same.params
    fields := tabulates_reordered holds.fields same.fields
    arity := holds.arity }

/-- Calls of `insert_file` and `remove_file`, with the latest contexts of the files present. No
    call leaves an arity record behind, and the files present never share an entity id. -/
inductive Reached : CrossFilePropagator Shape → Present Shape → Prop
  | new : Reached {} fun _ => none
  | insertFile {propagator : CrossFilePropagator Shape} {present : Present Shape}
      (reached : Reached propagator present) (filePath : String) (file : FileContext Shape)
      (renews : RenewsRecords (present (normalizeProjectPath filePath)) (some file))
      (disjoint : Present.Disjoint
        (Function.update present (normalizeProjectPath filePath) (some file))) :
      Reached (propagator.insertFile filePath file)
        (Function.update present (normalizeProjectPath filePath) (some file))
  | removeFile {propagator : CrossFilePropagator Shape} {present : Present Shape}
      (reached : Reached propagator present) (filePath : String)
      (renews : RenewsRecords (present (normalizeProjectPath filePath)) none) :
      Reached (propagator.removeFile filePath)
        (Function.update present (normalizeProjectPath filePath) none)
  | reorder {propagator reordered : CrossFilePropagator Shape} {present : Present Shape}
      (reached : Reached propagator present) (same : Reordered propagator reordered) :
      Reached reordered present

theorem Reached.holds (reached : Reached propagator present) :
    Holds propagator present ∧ present.Disjoint := by
  induction reached with
  | new =>
    exact ⟨holds_empty, ⟨by simp, by simp⟩⟩
  | insertFile _ filePath file renews disjoint ih =>
    exact ⟨ih.1.insertFile ih.2 filePath file renews disjoint, disjoint⟩
  | removeFile _ filePath renews ih =>
    exact ⟨ih.1.removeFile ih.2 filePath renews, disjoint_removed ih.2 _⟩
  | reorder _ same ih => exact ⟨ih.1.reordered same, ih.2⟩

end Runs

section Answers

/-- Two propagators answer alike; the list of a file and the overload members come in any order. -/
structure AnswersAlike (left right : CrossFilePropagator Shape) : Prop where
  returnType : ∀ id, left.getReturnType id = right.getReturnType id
  returnTypeByName : ∀ name, left.getReturnTypeByName name = right.getReturnTypeByName name
  overloads : ∀ name, (left.overloadIds name).Perm (right.overloadIds name)
  fileReturns : ∀ path, Option.Rel List.Perm (left.getFileReturns path) (right.getFileReturns path)
  parameterTypes : ∀ id, left.getParameterTypes id = right.getParameterTypes id
  parameterTypesByName : ∀ name,
    left.getParameterTypesByName name = right.getParameterTypesByName name
  fileParams : ∀ path, Option.Rel List.Perm (left.getFileParams path) (right.getFileParams path)
  arityRecord : ∀ id, left.paramArityCache.lookup id = right.paramArityCache.lookup id
  candidateArity : ∀ id, left.candidateArity id = right.candidateArity id
  fieldType : ∀ id, left.getFieldType id = right.getFieldType id
  fieldTypeByName : ∀ name, left.getFieldTypeByName name = right.getFieldTypeByName name
  fileFields : ∀ path, Option.Rel List.Perm (left.getFileFields path) (right.getFileFields path)
  memberType : ∀ typeName member,
    left.lookupMemberType typeName member = right.lookupMemberType typeName member
  isEmpty : left.isEmpty = right.isEmpty

/-- The same context, with its tables iterated in another order. -/
structure FileContext.Alike (left right : FileContext Shape) : Prop where
  entities : left.entities = right.entities
  frames : left.ctx.frames = right.ctx.frames
  returnTypes : left.ctx.returnTypes.entries.Perm right.ctx.returnTypes.entries
  parameterTypes : left.ctx.parameterTypes.entries.Perm right.ctx.parameterTypes.entries
  paramArity : left.ctx.paramArity.entries.Perm right.ctx.paramArity.entries

/-- The best-ranked types of one name are equal. -/
def ClearNames {V : Type} (rank : V → Nat) (contributed : String → List (NamedType V)) : Prop :=
  ∀ f g, ∀ e ∈ contributed f, ∀ e' ∈ contributed g, e.name = e'.name →
    (∀ h, ∀ e'' ∈ contributed h, e''.name = e.name → rank e''.value ≤ rank e.value) →
    (∀ h, ∀ e'' ∈ contributed h, e''.name = e.name → rank e''.value ≤ rank e'.value) →
      e.value = e'.value

/-- No two bindings of one name tie at the highest priority among the files present. -/
structure Unambiguous (present : Present Shape) : Prop where
  returns : ClearNames bindingRank (present.contributed FileContext.returnEntries)
  params : ClearNames bestPriority (present.contributed FileContext.paramEntries)
  fields : ClearNames bindingRank (present.contributed FileContext.fieldEntries)

section Tables

variable {V : Type} {rank : V → Nat} {left right : TypeTable V}
  {contributed contributed' : String → List (NamedType V)}

theorem mem_of_perm (alike : ∀ f, (contributed f).Perm (contributed' f)) (P : NamedType V → Prop) :
    (∃ f, ∃ e ∈ contributed f, P e) ↔ ∃ f, ∃ e ∈ contributed' f, P e :=
  exists_congr fun f => exists_congr fun _ => and_congr_left fun _ => (alike f).mem_iff

section

variable (first : Tabulates rank left contributed)
  (second : Tabulates rank right contributed')
  (alike : ∀ f, (contributed f).Perm (contributed' f))

include first second alike

theorem cache_eq (id : EntityId) :
    left.cache.lookup id = right.cache.lookup id := by
  ext v
  rw [first.cached, second.cached, mem_of_perm alike]

theorem fileIndex_rel (f : String) :
    Option.Rel List.Perm (left.fileIndex.lookup f) (right.fileIndex.lookup f) := by
  have empty : (contributed f).isEmpty = (contributed' f).isEmpty := by
    rw [Bool.eq_iff_iff, List.isEmpty_iff, List.isEmpty_iff]
    constructor
    · intro none
      exact nil_perm.1 (none ▸ alike f)
    · intro none
      exact perm_nil.1 (none ▸ alike f)
  rw [first.listed, second.listed, empty]
  split_ifs
  · exact .none
  · exact .some ((alike f).map _)

theorem nameIndex_eq (clear : ClearNames rank contributed)
    (name : String) : left.nameIndex.lookup name = right.nameIndex.lookup name := by
  have best := second.best.congr fun n v => mem_of_perm alike fun e => e.name = n ∧ e.value = v
  refine first.best.lookup_eq best name ?_
  rintro v w ⟨f, e, mem, rfl, rfl⟩ ⟨g, e', mem', same, rfl⟩ highest highest'
  exact clear f g e mem e' mem' same.symm
    (fun h e'' mem'' named => highest _ ⟨h, e'', mem'', named, rfl⟩)
    fun h e'' mem'' named => highest' _ ⟨h, e'', mem'', named, rfl⟩

end

end Tables

theorem isEmpty_eq_of_lookup {K V : Type} [DecidableEq K] {m n : HashMap K V}
    (same : ∀ k, m.lookup k = n.lookup k) : m.entries.isEmpty = n.entries.isEmpty := by
  have empty : ∀ m : HashMap K V, m.entries.isEmpty = true ↔ ∀ k, m.lookup k = none := by
    intro m
    rw [List.isEmpty_iff]
    constructor
    · intro none k
      rw [show m = ∅ from AList.ext none, AList.lookup_empty]
    · intro none
      rw [eq_nil_iff_forall_not_mem]
      intro entry mem
      have found := AList.mem_lookup_iff.2 mem
      rw [none] at found
      cases found
  rw [Bool.eq_iff_iff, empty, empty]
  exact forall_congr' fun k => by rw [same]

variable {left right : CrossFilePropagator Shape} {present present' : Present Shape}
  {c d : FileContext Shape}

theorem FileContext.Alike.nameMap (alike : FileContext.Alike c d) :
    c.nameMap = d.nameMap := by
  unfold ContextEngine.FileContext.nameMap
  rw [alike.entities]

theorem functionEntries_perm {V : Type} (alike : FileContext.Alike c d)
    {types types' : HashMap EntityId V} (perm : types.entries.Perm types'.entries) :
    (c.functionEntries types).Perm (d.functionEntries types') := by
  unfold ContextEngine.FileContext.functionEntries toList
  rw [alike.nameMap]
  exact (perm.map _).filterMap _

theorem fieldEntries_eq (alike : FileContext.Alike c d) :
    c.fieldEntries = d.fieldEntries := by
  unfold ContextEngine.FileContext.fieldEntries ScopedTypeContext.getVariableType
  rw [alike.entities, alike.frames]

theorem contributed_perm {V : Type} {entries : FileContext Shape → List (NamedType V)}
    (alike : ∀ f, Option.Rel FileContext.Alike (present f) (present' f))
    (perm : ∀ c d, FileContext.Alike c d → (entries c).Perm (entries d)) (f : String) :
    (present.contributed entries f).Perm (present'.contributed entries f) := by
  unfold Present.contributed
  have same := alike f
  generalize present f = c at same ⊢
  generalize present' f = d at same ⊢
  cases same with
  | none => exact List.Perm.nil
  | some same => exact perm _ _ same

theorem arity_eq (first : Holds left present) (second : Holds right present')
    (alike : ∀ f, Option.Rel FileContext.Alike (present f) (present' f)) (id : EntityId) :
    left.paramArityCache.lookup id = right.paramArityCache.lookup id := by
  ext a
  rw [first.arity, second.arity]
  refine exists_congr fun f => ?_
  have same := alike f
  generalize present f = c at same ⊢
  generalize present' f = d at same ⊢
  cases same with
  | none => simp
  | some same => simp [AList.perm_lookup same.paramArity]

theorem answersAlike_of_holds (first : Holds left present) (second : Holds right present')
    (alike : ∀ f, Option.Rel FileContext.Alike (present f) (present' f))
    (clear : Unambiguous present) : AnswersAlike left right := by
  have returns : ∀ f, (present.contributed FileContext.returnEntries f).Perm
      (present'.contributed FileContext.returnEntries f) := contributed_perm alike
    fun c d same => functionEntries_perm same same.returnTypes
  have params : ∀ f, (present.contributed FileContext.paramEntries f).Perm
      (present'.contributed FileContext.paramEntries f) := contributed_perm alike
    fun c d same => functionEntries_perm same same.parameterTypes
  have fields : ∀ f, (present.contributed FileContext.fieldEntries f).Perm
      (present'.contributed FileContext.fieldEntries f) := contributed_perm alike
    fun c d same => List.Perm.of_eq (fieldEntries_eq same)
  have arity := arity_eq first second alike
  have fieldNames := nameIndex_eq first.fields second.fields fields clear.fields
  exact {
    returnType := cache_eq first.returns second.returns returns
    returnTypeByName := nameIndex_eq first.returns second.returns returns clear.returns
    overloads := fun name => (perm_ext_iff_of_nodup (first.overloads.once name)
      (second.overloads.once name)).2 fun id => by
        rw [first.overloads.mem, second.overloads.mem, mem_of_perm returns]
    fileReturns := fun path => fileIndex_rel first.returns second.returns returns _
    parameterTypes := cache_eq first.params second.params params
    parameterTypesByName := nameIndex_eq first.params second.params params clear.params
    fileParams := fun path => fileIndex_rel first.params second.params params _
    arityRecord := arity
    candidateArity := fun id => by
      unfold CrossFilePropagator.candidateArity
      rw [arity]
    fieldType := cache_eq first.fields second.fields fields
    fieldTypeByName := fieldNames
    fileFields := fun path => fileIndex_rel first.fields second.fields fields _
    memberType := fun typeName member => by
      unfold lookupMemberType getFieldTypeByName
      rw [fieldNames, fieldNames]
    isEmpty := by
      unfold isEmpty
      rw [isEmpty_eq_of_lookup (cache_eq first.returns second.returns returns),
        isEmpty_eq_of_lookup (cache_eq first.params second.params params),
        isEmpty_eq_of_lookup arity,
        isEmpty_eq_of_lookup (cache_eq first.fields second.fields fields)] }

end Answers

section Rebuild

variable {propagator : CrossFilePropagator Shape} {present : Present Shape}

/-- The contexts a rebuild is given are those of the files present, each once and in any order. -/
structure RebuildsFrom (present : Present Shape) (contexts : List (String × FileContext Shape)) :
    Prop where
  once : (contexts.map fun entry => normalizeProjectPath entry.1).Nodup
  latest : ∀ entry ∈ contexts, ∃ c, present (normalizeProjectPath entry.1) = some c ∧
    FileContext.Alike c entry.2
  all : ∀ f c, present f = some c → ∃ entry ∈ contexts, normalizeProjectPath entry.1 = f

theorem FileContext.Alike.mentions {c d : FileContext Shape} (alike : FileContext.Alike c d)
    {id : EntityId} (mentions : d.Mentions id) : c.Mentions id := by
  unfold ContextEngine.FileContext.Mentions at mentions ⊢
  rwa [alike.entities, AList.perm_lookup alike.paramArity]

theorem reached_rebuild (disjoint : present.Disjoint) (contexts : List (String × FileContext Shape))
    (latest : ∀ entry ∈ contexts, ∃ c, present (normalizeProjectPath entry.1) = some c ∧
      FileContext.Alike c entry.2)
    (once : (contexts.map fun entry => normalizeProjectPath entry.1).Nodup)
    {start : CrossFilePropagator Shape} {done : Present Shape} (reached : Reached start done)
    (fewer : ∀ f c, done f = some c → ∃ d, present f = some d ∧ FileContext.Alike d c)
    (ahead : ∀ entry ∈ contexts, done (normalizeProjectPath entry.1) = none) :
    ∃ final, Reached (contexts.foldl (fun propagator entry =>
        propagator.insertFile entry.1 entry.2) start) final ∧
      (∀ f c, final f = some c → ∃ d, present f = some d ∧ FileContext.Alike d c) ∧
      (∀ f, (done f).isSome → (final f).isSome) ∧
      ∀ entry ∈ contexts, (final (normalizeProjectPath entry.1)).isSome := by
  induction contexts generalizing start done with
  | nil => exact ⟨done, reached, fewer, fun _ some => some, by simp⟩
  | cons entry rest ih =>
    rw [map_cons, nodup_cons] at once
    have absent := ahead entry mem_cons_self
    have fewer' : ∀ f c, update done (normalizeProjectPath entry.1) (some entry.2) f =
        some c → ∃ d, present f = some d ∧ FileContext.Alike d c := by
      intro f c found
      by_cases here : f = normalizeProjectPath entry.1
      · subst here
        rw [update_self] at found
        cases found
        exact latest entry mem_cons_self
      · rw [update_of_ne here] at found
        exact fewer f c found
    have disjoint' : Present.Disjoint
        (update done (normalizeProjectPath entry.1) (some entry.2)) := by
      refine disjoint.of_le fun f c found => ?_
      obtain ⟨d, present_, alike⟩ := fewer' f c found
      exact ⟨d, present_, alike.entities, fun _ mentions => alike.mentions mentions⟩
    have inserted := reached.insertFile entry.1 entry.2
      (fun c found => by rw [absent] at found; cases found) disjoint'
    obtain ⟨final, run, few, kept, reachedAll⟩ := ih
      (fun other mem => latest other (mem_cons_of_mem _ mem)) once.2 inserted fewer'
      fun other mem => by
        rw [update_of_ne]
        · exact ahead other (mem_cons_of_mem _ mem)
        · intro same
          exact once.1 (same ▸ mem_map_of_mem (f := fun entry : String × FileContext Shape =>
            normalizeProjectPath entry.1) mem)
    refine ⟨final, run, few, fun f some_ => kept f ?_, fun other mem => ?_⟩
    · by_cases here : f = normalizeProjectPath entry.1
      · subst here
        rw [update_self]
        rfl
      · rwa [update_of_ne here]
    · rcases mem_cons.1 mem with rfl | mem
      · exact kept _ (by rw [update_self]; rfl)
      · exact reachedAll other mem

/-- In a run that leaves no arity record behind, a propagator whose files do not tie for a name
    answers as one rebuilt from the latest contexts. -/
theorem answersAlike_rebuildFromContexts (reached : Reached propagator present)
    (clear : Unambiguous present) {contexts : List (String × FileContext Shape)}
    (latest : RebuildsFrom present contexts) :
    AnswersAlike propagator (propagator.rebuildFromContexts contexts) := by
  obtain ⟨holds, disjoint⟩ := reached.holds
  obtain ⟨final, run, few, -, all⟩ := reached_rebuild disjoint contexts latest.latest latest.once
    .new (fun _ _ found => by cases found) fun _ _ => rfl
  refine answersAlike_of_holds holds run.holds.1 (fun f => ?_) clear
  cases found : final f with
  | some c =>
    obtain ⟨d, present_, alike⟩ := few f c found
    rw [present_]
    exact .some alike
  | none =>
    cases present_ : present f with
    | none => exact .none
    | some d =>
      obtain ⟨entry, mem, rfl⟩ := latest.all f d present_
      have some_ := all entry mem
      rw [found] at some_
      cases some_

def typedFile : FileContext Unit where
  ctx := {
    returnTypes := (∅ : HashMap _ _).insert 1 annotated
    parameterTypes := (∅ : HashMap _ _).insert 1 [annotated]
    paramArity := (∅ : HashMap _ _).insert 1 { total := 1, required := 1, known := true } }
  entities := [Entity.new 1 .function "parse" Span.unavailable]
where
  annotated : TypeBinding Unit :=
    { typeName := "int", span := Span.unavailable, origin := some InferenceOrigin.typeAnnotation }

theorem typedFile_answersAlike :
    AnswersAlike (((({} : CrossFilePropagator Unit).insertFile "a.py" typedFile).insertFile "a.py"
        typedFile))
      (((({} : CrossFilePropagator Unit).insertFile "a.py" typedFile).insertFile "a.py"
        typedFile).rebuildFromContexts [("a.py", typedFile)]) := by
  have notStray : ∀ id, ¬ typedFile.Stray id := by
    rintro id ⟨recorded, untyped⟩
    have here : id = 1 := by
      by_contra other
      have absent : typedFile.ctx.paramArity.lookup id = none := AList.lookup_insert_ne other
      rw [absent] at recorded
      cases recorded
    exact untyped ⟨1, "parse", [typedFile.annotated]⟩ (by decide) here.symm
  have renews : ∀ old, (∀ c, old = some c → c = typedFile) →
      RenewsRecords old (some typedFile) := by
    intro old only c found id stray
    rw [only c found] at stray
    exact absurd stray (notStray id)
  have disjoint : Present.Disjoint
      (update (fun _ => none) (normalizeProjectPath "a.py") (some typedFile)) := by
    have only : ∀ f c, update (fun _ => none) (normalizeProjectPath "a.py")
        (some typedFile) f = some c → f = normalizeProjectPath "a.py" ∧ c = typedFile := by
      intro f c found
      by_cases here : f = normalizeProjectPath "a.py"
      · subst here
        rw [update_self] at found
        exact ⟨rfl, (Option.some.inj found).symm⟩
      · rw [update_of_ne here] at found
        cases found
    refine ⟨fun f g c d id found found' _ _ => (only f c found).1.trans (only g d found').1.symm,
      fun f c found e mem e' mem' _ => ?_⟩
    obtain ⟨-, rfl⟩ := only f c found
    rw [mem_singleton.1 mem, mem_singleton.1 mem']
  have once := Reached.new.insertFile "a.py" typedFile (renews _ fun _ found => by cases found)
    disjoint
  have twice := once.insertFile "a.py" typedFile
    (renews _ fun c found => by
      rw [update_self] at found
      exact (Option.some.inj found).symm)
    (by rwa [update_idem])
  rw [update_idem] at twice
  have single : ∀ {V : Type} {rank : V → Nat} (entries : FileContext Unit → List (NamedType V))
      (entry : NamedType V), (∀ e ∈ entries typedFile, e = entry) →
      ClearNames rank (Present.contributed (update (fun _ => none)
        (normalizeProjectPath "a.py") (some typedFile)) entries) := by
    intro V rank entries entry all
    have equal : ∀ f, ∀ e ∈ Present.contributed (update (fun _ => none)
        (normalizeProjectPath "a.py") (some typedFile)) entries f, e = entry := by
      intro f e mem
      rw [Present.contributed_update] at mem
      by_cases here : f = normalizeProjectPath "a.py"
      · subst here
        rw [update_self] at mem
        exact all e mem
      · rw [update_of_ne here] at mem
        cases mem
    intro f g e mem e' mem' _ _ _
    rw [equal f e mem, equal g e' mem']
  refine answersAlike_rebuildFromContexts twice ⟨single _ ⟨1, "parse", typedFile.annotated⟩ ?_,
    single _ ⟨1, "parse", [typedFile.annotated]⟩ ?_,
    single _ ⟨1, "parse", typedFile.annotated⟩ ?_⟩ ⟨?_, ?_, ?_⟩
  · decide
  · decide
  · decide
  · exact nodup_singleton _
  · intro entry mem
    obtain rfl := mem_singleton.1 mem
    exact ⟨typedFile, update_self .., ⟨rfl, rfl, List.Perm.refl _, List.Perm.refl _,
      List.Perm.refl _⟩⟩
  · intro f c found
    refine ⟨("a.py", typedFile), mem_cons_self, ?_⟩
    by_contra other
    rw [update_of_ne (Ne.symm other)] at found
    cases found

def untypedFile : FileContext Unit where
  ctx := {
    paramArity := (∅ : HashMap _ _).insert 1 { total := 1, required := 1, known := true } }
  entities := [Entity.new 1 .function "main" Span.unavailable]

/-- The arity record of an untyped function outlives its file. -/
theorem untypedFile_not_removed :
    ¬ AnswersAlike ((({} : CrossFilePropagator Unit).insertFile "a.py" untypedFile).removeFile
        "a.py")
      (((({} : CrossFilePropagator Unit).insertFile "a.py" untypedFile).removeFile
        "a.py").rebuildFromContexts []) := by
  intro alike
  have empty := alike.isEmpty
  revert empty
  decide +kernel

end Rebuild

end CrossFilePropagator

end ContextEngine

/- digest: The types a file makes known to the others, table by table and file by file. -/

import Mathlib.Logic.Function.Basic
import ContextEngine.Lib.RankedSlots
import ContextEngine.Types.SymbolKey

set_option autoImplicit false

namespace ContextEngine

open Function List RankedSlots

structure NamedType (V : Type) where
  id : EntityId
  name : String
  value : V
  deriving DecidableEq

structure TypeTable (V : Type) where
  cache : HashMap EntityId V := ∅
  fileIndex : HashMap String (List (EntityId × V)) := ∅
  nameIndex : HashMap String V := ∅
  idToName : HashMap EntityId String := ∅
  deriving DecidableEq

namespace TypeTable

variable {V : Type} (supersedes : V → V → Bool) (table : TypeTable V)

/-- One turn of an insertion loop. -/
def record (entry : NamedType V) : TypeTable V :=
  { table with
    cache := table.cache.insert entry.id entry.value
    nameIndex := offer supersedes table.nameIndex entry.name entry.value
    idToName := table.idToName.insert entry.id entry.name }

variable (file : String) (entries : List (NamedType V))

def insertEntries :
    TypeTable V :=
  let recorded := entries.foldl (record supersedes) table
  if entries.isEmpty then recorded
  else { recorded with
    fileIndex := recorded.fileIndex.insert file (entries.map fun entry => (entry.id, entry.value)) }

/-- One turn of the loop that fills the name index from the lists of the files. -/
def offerNamed (idToName : HashMap EntityId String) (names : HashMap String V)
    (entry : EntityId × V) : HashMap String V :=
  match idToName.lookup entry.1 with
  | none => names
  | some name => offer supersedes names name entry.2

def rebuildNames : HashMap String V :=
  (table.fileIndex.toList.flatMap Prod.snd).foldl (offerNamed supersedes table.idToName) ∅

def removeFile : TypeTable V :=
  match table.fileIndex.lookup file with
  | none => table
  | some entries =>
    let removed : TypeTable V := { table with
      cache := table.cache.eraseAll (entries.map Prod.fst)
      fileIndex := table.fileIndex.erase file
      idToName := table.idToName.eraseAll (entries.map Prod.fst) }
    { removed with nameIndex := rebuildNames supersedes removed }

variable {supersedes : V → V → Bool} {rank : V → Nat}

/-- An entity has one entry, of one file. -/
def Separate (contributed : String → List (NamedType V)) : Prop :=
  ∀ f g, ∀ e ∈ contributed f, ∀ e' ∈ contributed g, e.id = e'.id → f = g ∧ e = e'

structure Tabulates (rank : V → Nat) (table : TypeTable V)
    (contributed : String → List (NamedType V)) : Prop where
  cached : ∀ id v, table.cache.lookup id = some v ↔
    ∃ f, ∃ e ∈ contributed f, e.id = id ∧ e.value = v
  named : ∀ id n, table.idToName.lookup id = some n ↔
    ∃ f, ∃ e ∈ contributed f, e.id = id ∧ e.name = n
  listed : ∀ f, table.fileIndex.lookup f = if (contributed f).isEmpty then none
    else some ((contributed f).map fun entry => (entry.id, entry.value))
  best : HoldsBest rank table.nameIndex fun n v =>
    ∃ f, ∃ e ∈ contributed f, e.name = n ∧ e.value = v

theorem tabulates_empty : Tabulates rank ({} : TypeTable V) fun _ => [] where
  cached id v := by simp
  named id n := by simp
  listed f := by simp
  best := holdsBest_empty fun n v => by simp

variable {table : TypeTable V} {contributed : String → List (NamedType V)}

theorem mem_listed (listed : ∀ f, table.fileIndex.lookup f = if (contributed f).isEmpty then none
      else some ((contributed f).map fun entry => (entry.id, entry.value)))
    {entry : EntityId × V} : entry ∈ table.fileIndex.toList.flatMap Prod.snd ↔
      ∃ f, ∃ e ∈ contributed f, (e.id, e.value) = entry := by
  rw [mem_flatMap]
  constructor
  · rintro ⟨⟨f, l⟩, found, mem⟩
    have found : table.fileIndex.lookup f = some l := HashMap.mem_toList.1 found
    rw [listed] at found
    split_ifs at found
    cases found
    obtain ⟨e, mem, same⟩ := mem_map.1 mem
    exact ⟨f, e, mem, same⟩
  · rintro ⟨f, e, mem, rfl⟩
    refine ⟨(f, (contributed f).map fun entry => (entry.id, entry.value)), ?_,
      mem_map.2 ⟨e, mem, rfl⟩⟩
    rw [HashMap.mem_toList, listed, if_neg]
    exact fun none => not_mem_nil (isEmpty_iff.1 none ▸ mem)

theorem holdsBest_rebuildNames (ranked : RankedBy supersedes rank) (separate : Separate contributed)
    (named : ∀ id n, table.idToName.lookup id = some n ↔
      ∃ f, ∃ e ∈ contributed f, e.id = id ∧ e.name = n)
    (listed : ∀ f, table.fileIndex.lookup f = if (contributed f).isEmpty then none
      else some ((contributed f).map fun entry => (entry.id, entry.value))) :
    HoldsBest rank (table.rebuildNames supersedes)
      fun n v => ∃ f, ∃ e ∈ contributed f, e.name = n ∧ e.value = v := by
  refine HoldsBest.foldl (offerNamed supersedes table.idToName)
    (fun entry n v => table.idToName.lookup entry.1 = some n ∧ v = entry.2) ?_
    (holdsBest_empty fun _ _ none => none) _ fun n v => ?_
  · intro names offered offered' entry best more
    unfold offerNamed
    cases name : table.idToName.lookup entry.1 with
    | none => exact best.congr fun k v => by simp [more, name]
    | some n => exact best.offer n entry.2 ranked.ordered fun k v => by simp [more, name, eq_comm]
  · rw [false_or]
    constructor
    · rintro ⟨f, e, mem, rfl, rfl⟩
      exact ⟨(e.id, e.value), (mem_listed listed).2 ⟨f, e, mem, rfl⟩,
        (named e.id e.name).2 ⟨f, e, mem, rfl, rfl⟩, rfl⟩
    · rintro ⟨entry, inList, name, rfl⟩
      obtain ⟨f, e, mem, rfl⟩ := (mem_listed listed).1 inList
      obtain ⟨g, e', mem', same, rfl⟩ := (named e.id n).1 name
      obtain ⟨-, rfl⟩ := separate g f e' mem' e mem same
      exact ⟨f, e', mem, rfl, rfl⟩

theorem mem_of_mem_update_nil {file f : String} {e : NamedType V}
    (mem : e ∈ Function.update contributed file [] f) : e ∈ contributed f := by
  by_cases here : f = file
  · subst here
    simp at mem
  · rwa [update_of_ne here] at mem

theorem Separate.remove (separate : Separate contributed) (file : String) :
    Separate (Function.update contributed file []) := fun f g e mem e' mem' same =>
  separate f g e (mem_of_mem_update_nil mem) e' (mem_of_mem_update_nil mem') same

variable {file : String}

theorem exists_mem_removed (P : NamedType V → Prop) :
    (∃ f, ∃ e ∈ Function.update contributed file [] f, P e) ↔
      ∃ f, ∃ e ∈ contributed f, f ≠ file ∧ P e := by
  refine exists_congr fun f => exists_congr fun e => ?_
  by_cases here : f = file
  · subst here
    simp
  · rw [update_of_ne here]
    simp [here]

theorem lookup_eraseAll_removed {β : Type} {m : HashMap EntityId β} {value : NamedType V → β}
    (separate : Separate contributed) (values : ∀ id v, m.lookup id = some v ↔
      ∃ f, ∃ e ∈ contributed f, e.id = id ∧ value e = v) (file : String) (id : EntityId) (v : β) :
    (m.eraseAll ((contributed file).map NamedType.id)).lookup id = some v ↔
      ∃ f, ∃ e ∈ Function.update contributed file [] f, e.id = id ∧ value e = v := by
  -- an entry is erased if and only if it is of the file
  have erased : ∀ f, ∀ e ∈ contributed f,
      e.id ∈ (contributed file).map NamedType.id ↔ f = file := by
    intro f e mem
    rw [mem_map]
    constructor
    · rintro ⟨e', mem', same⟩
      exact (separate f file e mem e' mem' same.symm).1
    · rintro rfl
      exact ⟨e, mem, rfl⟩
  rw [HashMap.lookup_eraseAll, exists_mem_removed]
  constructor
  · intro found
    split_ifs at found with gone
    obtain ⟨f, e, mem, rfl, same⟩ := (values id v).1 found
    exact ⟨f, e, mem, fun here => gone ((erased f e mem).2 here), rfl, same⟩
  · rintro ⟨f, e, mem, other, rfl, same⟩
    rw [if_neg fun gone => other ((erased f e mem).1 gone)]
    exact (values e.id v).2 ⟨f, e, mem, rfl, same⟩

/-- Removing the list of a file leaves the entries of the others, whatever the order in which the
    remaining lists refill the name index. -/
theorem Tabulates.removeFile (ranked : RankedBy supersedes rank)
    (tabulates : Tabulates rank table contributed)
    (separate : Separate contributed) (file : String) :
    Tabulates rank (table.removeFile supersedes file) (Function.update contributed file []) := by
  have recorded := tabulates.listed file
  unfold TypeTable.removeFile
  cases found : table.fileIndex.lookup file with
  | none =>
    rw [found] at recorded
    split_ifs at recorded with empty
    have same : update contributed file [] = contributed := by
      rw [← isEmpty_iff.1 empty, update_eq_self]
    rw [same]
    exact tabulates
  | some entries =>
    have ids : entries.map Prod.fst = (contributed file).map NamedType.id := by
      rw [found] at recorded
      split_ifs at recorded
      rw [Option.some.inj recorded, map_map]
      rfl
    have named : ∀ id n, (table.idToName.eraseAll (entries.map Prod.fst)).lookup id = some n ↔
        ∃ f, ∃ e ∈ update contributed file [] f, e.id = id ∧ e.name = n := by
      rw [ids]
      exact lookup_eraseAll_removed separate tabulates.named file
    have listed : ∀ f, (table.fileIndex.erase file).lookup f =
        if (update contributed file [] f).isEmpty then none
        else some ((update contributed file [] f).map fun entry => (entry.id, entry.value)) := by
      intro f
      rw [HashMap.lookup_erase_eq]
      by_cases here : f = file
      · subst here
        simp
      · rw [if_neg here, update_of_ne here]
        exact tabulates.listed f
    exact {
      cached := by
        show ∀ id v, (table.cache.eraseAll (entries.map Prod.fst)).lookup id = some v ↔ _
        rw [ids]
        exact lookup_eraseAll_removed separate tabulates.cached file
      named := named
      listed := listed
      best := holdsBest_rebuildNames ranked (separate.remove file) named listed }

theorem exists_mem_update (absent : contributed file = [])
    {entries : List (NamedType V)} (P : NamedType V → Prop) :
    (∃ f, ∃ e ∈ Function.update contributed file entries f, P e) ↔
      (∃ f, ∃ e ∈ contributed f, P e) ∨ ∃ e ∈ entries, P e := by
  constructor
  · rintro ⟨f, e, mem, holds⟩
    by_cases here : f = file
    · subst here
      rw [update_self] at mem
      exact Or.inr ⟨e, mem, holds⟩
    · rw [update_of_ne here] at mem
      exact Or.inl ⟨f, e, mem, holds⟩
  · rintro (⟨f, e, mem, holds⟩ | ⟨e, mem, holds⟩)
    · have other : f ≠ file := by
        rintro rfl
        rw [absent] at mem
        cases mem
      exact ⟨f, e, by rwa [update_of_ne other], holds⟩
    · exact ⟨file, e, by rwa [update_self], holds⟩

theorem foldl_record :
    entries.foldl (record supersedes) table = { table with
      cache := table.cache.extend (entries.map fun e => (e.id, e.value))
      nameIndex := entries.foldl (fun names e => offer supersedes names e.name e.value)
        table.nameIndex
      idToName := table.idToName.extend (entries.map fun e => (e.id, e.name)) } := by
  induction entries generalizing table with
  | nil => rfl
  | cons e rest ih =>
    rw [foldl_cons, ih]
    rfl

theorem cache_insertEntries :
    (table.insertEntries supersedes file entries).cache =
      table.cache.extend (entries.map fun e => (e.id, e.value)) := by
  unfold insertEntries
  rw [foldl_record]
  split <;> rfl

theorem idToName_insertEntries : (table.insertEntries supersedes file entries).idToName =
      table.idToName.extend (entries.map fun e => (e.id, e.name)) := by
  unfold insertEntries
  rw [foldl_record]
  split <;> rfl

theorem nameIndex_insertEntries : (table.insertEntries supersedes file entries).nameIndex =
      entries.foldl (fun names e => offer supersedes names e.name e.value) table.nameIndex := by
  unfold insertEntries
  rw [foldl_record]
  split <;> rfl

theorem lookup_fileIndex_insertEntries (file f : String)
    (entries : List (NamedType V)) :
    (table.insertEntries supersedes file entries).fileIndex.lookup f =
      if f = file ∧ ¬ entries.isEmpty then some (entries.map fun e => (e.id, e.value))
      else table.fileIndex.lookup f := by
  unfold insertEntries
  rw [foldl_record]
  by_cases none : entries.isEmpty
  · simp [none]
  · simp only [none, Bool.false_eq_true, if_false]
    rw [HashMap.lookup_insert_eq]
    simp

theorem lookup_extend_added {β : Type} {m : HashMap EntityId β} {value : NamedType V → β}
    {entries : List (NamedType V)} (absent : contributed file = [])
    (separate : Separate (Function.update contributed file entries))
    (values : ∀ id v, m.lookup id = some v ↔ ∃ f, ∃ e ∈ contributed f, e.id = id ∧ value e = v)
    (id : EntityId) (v : β) :
    (m.extend (entries.map fun e => (e.id, value e))).lookup id = some v ↔
      ∃ f, ∃ e ∈ Function.update contributed file entries f, e.id = id ∧ value e = v := by
  have fresh : ∀ f, ∀ e ∈ contributed f, ∀ e' ∈ entries, e.id ≠ e'.id := by
    intro f e mem e' mem' same
    have other : f ≠ file := by
      rintro rfl
      rw [absent] at mem
      cases mem
    exact other (separate f file e (by rwa [update_of_ne other]) e'
      (by rwa [update_self]) same).1
  have once : ∀ e ∈ entries, ∀ e' ∈ entries, e.id = e'.id → e = e' := fun e mem e' mem' same =>
    (separate file file e (by rwa [update_self]) e' (by rwa [update_self])
      same).2
  rw [exists_mem_update absent]
  by_cases new : ∃ e ∈ entries, e.id = id
  · obtain ⟨e, mem, rfl⟩ := new
    rw [HashMap.lookup_extend_of_mem (v := value e) (mem_map.2 ⟨e, mem, rfl⟩)]
    · constructor
      · intro found
        exact Or.inr ⟨e, mem, rfl, Option.some.inj found⟩
      · rintro (⟨f, e', mem', same, -⟩ | ⟨e', mem', same, rfl⟩)
        · exact absurd same (fresh f e' mem' e mem)
        · rw [once e' mem' e mem same]
    · intro w mem'
      obtain ⟨e', listed, same⟩ := mem_map.1 mem'
      obtain ⟨sameId, rfl⟩ := Prod.mk.inj same
      rw [once e' listed e mem sameId]
  · rw [HashMap.lookup_extend_of_notMem]
    · rw [values]
      constructor
      · exact Or.inl
      · rintro (old | ⟨e, mem, same, -⟩)
        · exact old
        · exact absurd ⟨e, mem, same⟩ new
    · intro mem
      obtain ⟨p, listed, rfl⟩ := mem_map.1 mem
      obtain ⟨e, recorded, rfl⟩ := mem_map.1 listed
      exact new ⟨e, recorded, rfl⟩

theorem Tabulates.insertEntries (ranked : RankedBy supersedes rank)
    (tabulates : Tabulates rank table contributed)
    (absent : contributed file = []) {entries : List (NamedType V)}
    (separate : Separate (Function.update contributed file entries)) :
    Tabulates rank (table.insertEntries supersedes file entries)
      (Function.update contributed file entries) := by
  have listed : ∀ f, (table.insertEntries supersedes file entries).fileIndex.lookup f =
      if (update contributed file entries f).isEmpty then none
      else some ((update contributed file entries f).map fun entry => (entry.id, entry.value)) := by
    intro f
    rw [lookup_fileIndex_insertEntries]
    by_cases here : f = file
    · subst here
      rw [update_self, tabulates.listed, absent]
      cases entries <;> simp
    · rw [if_neg fun both => here both.1, update_of_ne here]
      exact tabulates.listed f
  exact {
    cached := by
      rw [cache_insertEntries]
      exact lookup_extend_added absent separate tabulates.cached
    named := by
      rw [idToName_insertEntries]
      exact lookup_extend_added absent separate tabulates.named
    listed := listed
    best := by
      rw [nameIndex_insertEntries]
      refine HoldsBest.foldl _ (fun e n v => e.name = n ∧ e.value = v) ?_ tabulates.best entries
        fun n v => exists_mem_update absent _
      intro names offered offered' e best more
      exact best.offer e.name e.value ranked.ordered fun k v => by simp [more, eq_comm] }

end TypeTable

inductive InferenceOrigin
  | typeAnnotation | constructorCall | literalType | functionReturn | genericInference
  | overloadResolution | crossFilePropagation | controlFlowNarrowing | patternMatching
  | destructuringAssignment
  deriving DecidableEq

/-- What is inferred of a variable or a function; the structured form of the type is opaque. -/
structure TypeBinding (Shape : Type) where
  typeName : String
  typeEntityId : Option EntityId := none
  span : Span
  origin : Option InferenceOrigin
  shape : Option Shape := none
  deriving DecidableEq

structure ParamArity where
  total : Nat := 0
  required : Nat := 0
  isVarargs : Bool := false
  known : Bool := false
  deriving DecidableEq

section Supersession

variable {Shape : Type}

def originPriority : Option InferenceOrigin → Nat
  | some InferenceOrigin.typeAnnotation => 8
  | some .controlFlowNarrowing => 7
  | some .functionReturn => 6
  | some .patternMatching => 6
  | some .overloadResolution => 5
  | some .destructuringAssignment => 5
  | some .crossFilePropagation => 4
  | some .genericInference => 3
  | some .constructorCall => 2
  | some .literalType => 1
  | none => 0

def originSupersedes (candidate : InferenceOrigin) (existing : Option InferenceOrigin) : Bool :=
  originPriority existing ≤ originPriority (some candidate)

def bindingSupersedes (candidate existing : Option InferenceOrigin) : Bool :=
  match candidate with
  | some origin => originSupersedes origin existing
  | none => existing.isNone

def bestPriority (bindings : List (TypeBinding Shape)) : Nat :=
  ((bindings.map fun binding => originPriority binding.origin).max?).getD 0

def bindingsSupersede (candidate existing : List (TypeBinding Shape)) : Bool :=
  bestPriority existing ≤ bestPriority candidate

/-- The test under which one binding replaces another in a name index. -/
def supersedesBinding (candidate existing : TypeBinding Shape) : Bool :=
  bindingSupersedes candidate.origin existing.origin

def bindingRank (binding : TypeBinding Shape) : Nat := originPriority binding.origin

theorem rankedBy_supersedesBinding :
    RankedSlots.RankedBy (supersedesBinding : TypeBinding Shape → TypeBinding Shape → Bool)
      bindingRank := by
  intro v w
  unfold supersedesBinding bindingSupersedes bindingRank
  cases v.origin with
  | some origin => simp [originSupersedes]
  | none =>
    cases w.origin with
    | none => simp
    | some origin => cases origin <;> simp [originPriority]

theorem rankedBy_bindingsSupersede :
    RankedSlots.RankedBy
      (bindingsSupersede : List (TypeBinding Shape) → List (TypeBinding Shape) → Bool)
      bestPriority := by
  intro v w
  simp [bindingsSupersede]

end Supersession

section Context

variable (Shape : Type)

structure ScopeFrame where
  bindings : HashMap String (TypeBinding Shape) := ∅
  narrowed : HashMap String (List (TypeBinding Shape)) := ∅
  deriving DecidableEq

/-- The types inferred in one file; the outermost scope comes first. -/
structure ScopedTypeContext where
  frames : List (ScopeFrame Shape) := [{}]
  returnTypes : HashMap EntityId (TypeBinding Shape) := ∅
  parameterTypes : HashMap EntityId (List (TypeBinding Shape)) := ∅
  paramArity : HashMap EntityId ParamArity := ∅
  deriving DecidableEq

structure FileContext where
  ctx : ScopedTypeContext Shape
  entities : List Entity
  deriving DecidableEq

end Context

namespace ScopedTypeContext

variable {Shape : Type}

/-- `Iterator::max_by_key` with the priority, where the last of several maxima wins. -/
def maxByPriority (bindings : List (TypeBinding Shape)) : Option (TypeBinding Shape) :=
  bindings.foldl (fun best binding =>
    match best with
    | none => some binding
    | some held => some (if originPriority held.origin ≤ originPriority binding.origin then binding
        else held)) none

def getVariableTypeIn (name : String) : List (ScopeFrame Shape) → Option (TypeBinding Shape)
  | [] => none
  | frame :: outer =>
    match (frame.narrowed.lookup name).bind maxByPriority with
    | some narrowed => some narrowed
    | none =>
      match frame.bindings.lookup name with
      | some binding => some binding
      | none => getVariableTypeIn name outer

def getVariableType (ctx : ScopedTypeContext Shape) (name : String) : Option (TypeBinding Shape) :=
  getVariableTypeIn name ctx.frames.reverse

end ScopedTypeContext

namespace FileContext

variable {Shape : Type} (file : FileContext Shape)

/-- The name of an entity; of several records of one id the last counts. -/
def nameMap : HashMap EntityId String :=
  (∅ : HashMap EntityId String).extend (file.entities.map fun entity => (entity.id, entity.name))

def functionEntries {V : Type} (types : HashMap EntityId V) : List (NamedType V) :=
  types.toList.filterMap fun entry =>
    (file.nameMap.lookup entry.1).map fun name => ⟨entry.1, name, entry.2⟩

def returnEntries : List (NamedType (TypeBinding Shape)) :=
  file.functionEntries file.ctx.returnTypes

def paramEntries : List (NamedType (List (TypeBinding Shape))) :=
  file.functionEntries file.ctx.parameterTypes

def fieldEntries : List (NamedType (TypeBinding Shape)) :=
  file.entities.filterMap fun entity =>
    if entity.kind = .field ∨ entity.kind = .property then
      (file.ctx.getVariableType entity.name).map fun binding => ⟨entity.id, entity.name, binding⟩
    else none

end FileContext

/-- `name_index` and the overload members belong to the return types, the arity records to the
    parameter types. -/
structure CrossFilePropagator (Shape : Type) where
  returns : TypeTable (TypeBinding Shape) := {}
  nameToIds : HashMap String (List EntityId) := ∅
  params : TypeTable (List (TypeBinding Shape)) := {}
  paramArityCache : HashMap EntityId ParamArity := ∅
  fields : TypeTable (TypeBinding Shape) := {}
  deriving DecidableEq

namespace CrossFilePropagator

variable {Shape : Type}

/-- One turn of the removal loop over the return types of a file. -/
def dropOverload (idToName : HashMap EntityId String) (nameToIds : HashMap String (List EntityId))
    (id : EntityId) : HashMap String (List EntityId) :=
  match idToName.lookup id with
  | none => nameToIds
  | some name => nameToIds.bucketErase name id

variable (propagator : CrossFilePropagator Shape)

/-- Remove all cached entries contributed by a file. The arity records go with the parameter list
    of the file alone. -/
def removeFile (filePath : String) :
    CrossFilePropagator Shape :=
  let normalized := normalizeProjectPath filePath
  let returnIds := ((propagator.returns.fileIndex.lookup normalized).getD []).map Prod.fst
  let paramIds := ((propagator.params.fileIndex.lookup normalized).getD []).map Prod.fst
  { returns := propagator.returns.removeFile supersedesBinding normalized
    nameToIds := returnIds.foldl (dropOverload propagator.returns.idToName) propagator.nameToIds
    params := propagator.params.removeFile bindingsSupersede normalized
    paramArityCache := propagator.paramArityCache.eraseAll paramIds
    fields := propagator.fields.removeFile supersedesBinding normalized }

def addEntries (normalized : String)
    (file : FileContext Shape) : CrossFilePropagator Shape where
  returns := propagator.returns.insertEntries supersedesBinding normalized file.returnEntries
  nameToIds := file.returnEntries.foldl (fun ids entry => ids.bucketPushNew entry.name entry.id)
    propagator.nameToIds
  params := propagator.params.insertEntries bindingsSupersede normalized file.paramEntries
  paramArityCache := propagator.paramArityCache.extend file.ctx.paramArity.toList
  fields := propagator.fields.insertEntries supersedesBinding normalized file.fieldEntries

/-- Insert the types of a file; its previous entries are removed first. -/
def insertFile (filePath : String)
    (file : FileContext Shape) : CrossFilePropagator Shape :=
  let normalized := normalizeProjectPath filePath
  (propagator.removeFile normalized).addEntries normalized file

def rebuildFromContexts (_ : CrossFilePropagator Shape)
    (fileContexts : List (String × FileContext Shape)) : CrossFilePropagator Shape :=
  fileContexts.foldl (fun propagator entry => propagator.insertFile entry.1 entry.2) {}

section Lookups

variable (propagator : CrossFilePropagator Shape) (id : EntityId)

def getReturnType : Option (TypeBinding Shape) := propagator.returns.cache.lookup id

variable (name : String)

def getReturnTypeByName : Option (TypeBinding Shape) :=
  propagator.returns.nameIndex.lookup name

/-- The overload members under a name, of which a resolution needs at least two. -/
def overloadIds : List EntityId := propagator.nameToIds.bucket name

variable (filePath : String)

def getFileReturns : Option (List (EntityId × TypeBinding Shape)) :=
  propagator.returns.fileIndex.lookup (normalizeProjectPath filePath)

def getParameterTypes : Option (List (TypeBinding Shape)) :=
  propagator.params.cache.lookup id

def getParameterTypesByName : Option (List (TypeBinding Shape)) :=
  propagator.params.nameIndex.lookup name

def getFileParams : Option (List (EntityId × List (TypeBinding Shape))) :=
  propagator.params.fileIndex.lookup (normalizeProjectPath filePath)

def candidateArity : ParamArity := (propagator.paramArityCache.lookup id).getD {}

def getFieldType : Option (TypeBinding Shape) := propagator.fields.cache.lookup id

def getFieldTypeByName : Option (TypeBinding Shape) :=
  propagator.fields.nameIndex.lookup name

def getFileFields : Option (List (EntityId × TypeBinding Shape)) :=
  propagator.fields.fileIndex.lookup (normalizeProjectPath filePath)

def lookupMemberType (typeName member : String) : Option (TypeBinding Shape) :=
  match propagator.getFieldTypeByName (typeName ++ "::" ++ member) with
  | some binding => some binding
  | none => propagator.getFieldTypeByName member

def isEmpty : Bool :=
  propagator.returns.cache.entries.isEmpty && propagator.params.cache.entries.isEmpty &&
    propagator.paramArityCache.entries.isEmpty && propagator.fields.cache.entries.isEmpty

end Lookups

end CrossFilePropagator

end ContextEngine

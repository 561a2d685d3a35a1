/- digest: The relation snapshot tables, and which deltas the loader applies to which base. -/

import ContextEngine.Index.SnapshotLoader
import ContextEngine.Lib.Loops
import ContextEngine.Lib.Runs
import ContextEngine.Types.Relation

set_option autoImplicit false

namespace ContextEngine

open Option

inductive RelationSnapshotState
  | building | ready | active | failed | delta
  deriving DecidableEq

def RelationSnapshotState.asStr : RelationSnapshotState → String
  | building => "building" | ready => "ready" | active => "active" | failed => "failed"
  | delta => "delta"

def debugState : Option RelationSnapshotState → String
  | none => "None"
  | some state => "Some(\"" ++ state.asStr ++ "\")"

/-- A row of `relation_snapshot_manifest`. -/
structure RelationSnapshotManifest where
  operationId : String
  state : RelationSnapshotState
  configFingerprint : String
  createdAt : Int
  deriving DecidableEq

/-- The manifests by relation epoch, the deltas by delta epoch, and the `active_relation_epoch`
of the project. -/
structure RelationTables where
  manifests : HashMap Int RelationSnapshotManifest
  deltas : HashMap Int SnapshotDelta
  activeRelationEpoch : Option Int
  deltaEpoch_stored : ∀ epoch delta, deltas.lookup epoch = some delta → epoch ∈ manifests.keys
  baseEpoch_stored :
    ∀ epoch delta, deltas.lookup epoch = some delta → delta.baseEpoch ∈ manifests.keys

namespace RelationTables

/-- The tables of a new project. -/
def empty : RelationTables where
  manifests := ∅
  deltas := ∅
  activeRelationEpoch := none
  deltaEpoch_stored := fun _ _ found => by cases found
  baseEpoch_stored := fun _ _ found => by cases found

variable (tables : RelationTables)

def stateOf (epoch : Int) : Option RelationSnapshotState :=
  (tables.manifests.lookup epoch).map RelationSnapshotManifest.state

section Rows

/-- `UPDATE` of the manifests. -/
def updateManifests (f : Int → RelationSnapshotManifest → RelationSnapshotManifest) :
    RelationTables :=
  { tables with
    manifests := tables.manifests.mapEntries f
    deltaEpoch_stored := fun epoch delta found => by
      rw [HashMap.keys_mapEntries]
      exact tables.deltaEpoch_stored epoch delta found
    baseEpoch_stored := fun epoch delta found => by
      rw [HashMap.keys_mapEntries]
      exact tables.baseEpoch_stored epoch delta found }

variable (epoch : Int)

def setState (state : RelationSnapshotState) : RelationTables :=
  tables.updateManifests fun e manifest =>
    if e = epoch then { manifest with state := state } else manifest

variable (manifest : RelationSnapshotManifest)

/-- `INSERT` of a manifest. -/
def insertManifest : RelationTables :=
  { tables with
    manifests := tables.manifests.insert epoch manifest
    deltaEpoch_stored := fun e delta found =>
      AList.mem_keys.1 (AList.mem_insert _ |>.2 (Or.inr (AList.mem_keys.2
        (tables.deltaEpoch_stored e delta found))))
    baseEpoch_stored := fun e delta found =>
      AList.mem_keys.1 (AList.mem_insert _ |>.2 (Or.inr (AList.mem_keys.2
        (tables.baseEpoch_stored e delta found)))) }

def deleteManifests (gone : Int → RelationSnapshotManifest → Bool) : RelationTables :=
  let kept := tables.manifests.retain fun epoch manifest => !gone epoch manifest
  { manifests := kept
    deltas := tables.deltas.retain fun epoch delta =>
      decide (epoch ∈ kept.keys ∧ delta.baseEpoch ∈ kept.keys)
    activeRelationEpoch := tables.activeRelationEpoch
    deltaEpoch_stored := fun _ _ found =>
      (of_decide_eq_true (HashMap.lookup_retain_eq_some.1 found).2).1
    baseEpoch_stored := fun _ _ found =>
      (of_decide_eq_true (HashMap.lookup_retain_eq_some.1 found).2).2 }

def setActiveRelationEpoch : RelationTables :=
  { tables with activeRelationEpoch := some epoch }

variable {tables}

theorem mem_keys_iff_stateOf {epoch : Int} :
    epoch ∈ tables.manifests.keys ↔ ∃ state, tables.stateOf epoch = some state := by
  simp only [HashMap.mem_keys_iff, stateOf, Option.map_eq_some_iff]
  constructor
  · exact fun ⟨manifest, found⟩ => ⟨manifest.state, manifest, found, rfl⟩
  · exact fun ⟨_, manifest, found, _⟩ => ⟨manifest, found⟩

variable (epoch e : Int) (state : RelationSnapshotState)

@[simp] theorem stateOf_setState :
    (tables.setState epoch state).stateOf e =
      if e = epoch then (tables.stateOf e).map fun _ => state else tables.stateOf e := by
  simp only [stateOf, setState, updateManifests, HashMap.lookup_mapEntries, Option.map_map]
  split_ifs with same
  · cases tables.manifests.lookup e <;> simp
  · cases tables.manifests.lookup e <;> simp

variable (epoch : Int)

@[simp] theorem keys_setState :
    (tables.setState epoch state).manifests.keys = tables.manifests.keys :=
  HashMap.keys_mapEntries _ _

@[simp] theorem deltas_setState :
    (tables.setState epoch state).deltas = tables.deltas := rfl

@[simp] theorem stateOf_insertManifest :
    (tables.insertManifest epoch manifest).stateOf e =
      if e = epoch then some manifest.state else tables.stateOf e := by
  simp only [stateOf, insertManifest, HashMap.lookup_insert_eq]
  split_ifs <;> rfl

@[simp] theorem deltas_insertManifest :
    (tables.insertManifest epoch manifest).deltas = tables.deltas := rfl

@[simp] theorem stateOf_setActiveRelationEpoch :
    (tables.setActiveRelationEpoch epoch).stateOf e = tables.stateOf e := rfl

@[simp] theorem deltas_setActiveRelationEpoch :
    (tables.setActiveRelationEpoch epoch).deltas = tables.deltas := rfl

theorem stateOf_deleteManifests {gone : Int → RelationSnapshotManifest → Bool} {e : Int}
    {state : RelationSnapshotState} :
    (tables.deleteManifests gone).stateOf e = some state ↔
      ∃ manifest, tables.manifests.lookup e = some manifest ∧ manifest.state = state ∧
        gone e manifest = false := by
  simp only [stateOf, deleteManifests, Option.map_eq_some_iff, HashMap.lookup_retain_eq_some,
    Bool.not_eq_true']
  constructor
  · exact fun ⟨manifest, ⟨found, kept⟩, same⟩ => ⟨manifest, found, same, kept⟩
  · exact fun ⟨manifest, found, same, kept⟩ => ⟨manifest, ⟨found, kept⟩, same⟩

theorem lookup_deltas_deleteManifests {gone : Int → RelationSnapshotManifest → Bool} {e : Int}
    {delta : SnapshotDelta} :
    (tables.deleteManifests gone).deltas.lookup e = some delta ↔
      tables.deltas.lookup e = some delta ∧ e ∈ (tables.deleteManifests gone).manifests.keys ∧
        delta.baseEpoch ∈ (tables.deleteManifests gone).manifests.keys := by
  simp only [deleteManifests, HashMap.lookup_retain_eq_some, decide_eq_true_eq]

end Rows

section Repository

def getManifestByOperation (operationId : String) : Option (Int × RelationSnapshotManifest) :=
  tables.manifests.toList.find? fun row => row.2.operationId = operationId

def nextEpoch : Int :=
  max (tables.manifests.keys.max?.getD 0) (tables.activeRelationEpoch.getD 0) + 1

def allocateBuilding (operationId configFingerprint : String) (now : Int) :
    Int × RelationTables :=
  match tables.getManifestByOperation operationId with
  | some (epoch, manifest) =>
    (epoch, if manifest.state = .failed then tables.setState epoch .building else tables)
  | none =>
    (tables.nextEpoch, tables.insertManifest tables.nextEpoch
      { operationId := operationId
        state := .building
        configFingerprint := configFingerprint
        createdAt := now })

def requireState (epoch : Int) (expected : RelationSnapshotState) : Except String Unit :=
  match tables.stateOf epoch with
  | none => .error "Query returned no rows"
  | some state =>
    if state = expected then .ok ()
    else .error s!"epoch {epoch} is {state.asStr}, expected {expected.asStr}"

def writeSnapshotAndMarkReady (epoch : Int) : Except String RelationTables := do
  tables.requireState epoch .building
  return tables.setState epoch .ready

/-- The delta row of a building epoch. A second row of the epoch and a base without manifest are
refused by the keys of the table. -/
def writeDelta (epoch : Int) (delta : SnapshotDelta) : Except String RelationTables := do
  tables.requireState epoch .building
  if stored : epoch ∈ tables.manifests.keys ∧ delta.baseEpoch ∈ tables.manifests.keys then
    if epoch ∈ tables.deltas.keys then .error "UNIQUE constraint failed"
    else
      let written : RelationTables :=
        { tables with
          deltas := tables.deltas.insert epoch delta
          deltaEpoch_stored := fun e d found => by
            rw [HashMap.lookup_insert_eq] at found
            split_ifs at found with same
            · exact same ▸ stored.1
            · exact tables.deltaEpoch_stored e d found
          baseEpoch_stored := fun e d found => by
            rw [HashMap.lookup_insert_eq] at found
            split_ifs at found with same
            · exact Option.some.inj found ▸ stored.2
            · exact tables.baseEpoch_stored e d found }
      return written.setState epoch .delta
  else .error "FOREIGN KEY constraint failed"

/-- Point the project at an epoch. A full snapshot becomes the active one and the former one
ready; a delta keeps its state, and an active epoch is left alone. -/
def activate (epoch : Int) : Except String RelationTables :=
  match tables.stateOf epoch with
  | some .active => .ok tables
  | some .delta => .ok (tables.setActiveRelationEpoch epoch)
  | some .ready =>
    let demoted := (tables.setState epoch .active).updateManifests fun e manifest =>
      if e ≠ epoch ∧ manifest.state = .active then { manifest with state := .ready }
      else manifest
    .ok (demoted.setActiveRelationEpoch epoch)
  | state => .error s!"epoch {epoch} is not activatable (state: {debugState state})"

def markFailed (epoch : Int) : RelationTables :=
  if tables.stateOf epoch = some .active then tables else tables.setState epoch .failed

def retryFailed (epoch : Int) : Except String RelationTables :=
  if tables.stateOf epoch = some .failed then .ok (tables.setState epoch .building)
  else .error s!"epoch {epoch} is not retryable"

/-- What `collect_garbage` deletes: stale unfinished candidates, and ready epochs but the newest. -/
def isGarbage (unfinished : List String) (staleBefore : Int) (epoch : Int)
    (manifest : RelationSnapshotManifest) : Bool :=
  manifest.state ≠ .active ∧ manifest.operationId ∉ unfinished ∧
    ((manifest.state = .failed ∨ manifest.state = .building) ∧ manifest.createdAt < staleBefore ∨
      manifest.state = .ready ∧
        ((tables.manifests.keys.filter fun e => tables.stateOf e = some .ready).max? ≠ some epoch))

def collectGarbage (unfinished : List String) (staleBefore : Int) : RelationTables :=
  tables.deleteManifests (tables.isGarbage unfinished staleBefore)

def deleteManifestsExcept (keepEpoch : Int) : RelationTables :=
  tables.deleteManifests fun epoch _ => decide (epoch ≠ keepEpoch)

def deltaRows (afterEpoch upToEpoch : Int) : List (Int × SnapshotDelta) :=
  sortByKey Prod.fst
    (tables.deltas.toList.filter fun row => afterEpoch < row.1 ∧ row.1 ≤ upToEpoch)

def getDeltaChain (afterEpoch upToEpoch : Int) : List SnapshotDelta :=
  (tables.deltaRows afterEpoch upToEpoch).map Prod.snd

/-- One round of `find_base_epoch`: stop at a snapshot or a missing manifest, or follow the link
of a delta. -/
def baseStep (current : Int) : Except String (Option Int) ⊕ Int :=
  match tables.stateOf current with
  | none => .inl (.ok none)
  | some .delta =>
    match tables.deltas.lookup current with
    | none => .inl (.error s!"delta chain broken at epoch {current}: missing base_epoch reference")
    | some delta =>
      if delta.baseEpoch = current ∨ delta.baseEpoch < 0 then
        .inl (.error
          s!"delta chain broken at epoch {current}: invalid base_epoch {delta.baseEpoch}")
      else .inr delta.baseEpoch
  | some _ => .inl (.ok (some current))

/-- The loop goes on from stored epochs only, so more rounds than manifests would mean going round
in a circle; there is no answer then. -/
def findBaseEpoch (deltaEpoch : Int) : Option (Except String (Option Int)) :=
  Loops.run tables.baseStep (tables.manifests.keys.length + 1) deltaEpoch

end Repository

end RelationTables

/-- The read port of the loader. A search that goes round in a circle has no answer. -/
structure RelationSnapshotStore where
  getManifest : Int → Option RelationSnapshotManifest
  readSnapshot : Int → Except String CanonicalRelationSnapshot
  findBaseEpoch : Int → Option (Except String (Option Int))
  getDeltaChain : Int → Int → List SnapshotDelta

def RelationTables.snapshotStore (tables : RelationTables)
    (readSnapshot : Int → Except String CanonicalRelationSnapshot) : RelationSnapshotStore where
  getManifest := tables.manifests.lookup
  readSnapshot := readSnapshot
  findBaseEpoch := tables.findBaseEpoch
  getDeltaChain := tables.getDeltaChain

namespace RelationSnapshotLoader

variable [Sha256] (store : RelationSnapshotStore)
  (validateManifest : RelationSnapshotManifest → CanonicalRelationSnapshot → Except String Unit)
  (relationEpoch : Int)

def loadFull (manifest : RelationSnapshotManifest) :
    Except String RelationIndex := do
  let snapshot ← store.readSnapshot relationEpoch
  validateManifest manifest snapshot
  buildIndex snapshot

def loadBase (baseEpoch : Int) : Except String RelationIndex := do
  if (store.getManifest baseEpoch).isNone then
    .error s!"base epoch {baseEpoch} referenced by delta chain is missing"
  let snapshot ← store.readSnapshot baseEpoch
  buildIndex snapshot

def replay (relationEpoch baseEpoch : Int) : Except String RelationIndex := do
  let index ← loadBase store baseEpoch
  return (store.getDeltaChain baseEpoch relationEpoch).foldl applyDelta index

def loadDelta : Option Int → Except String RelationIndex
  | none => .error s!"no base epoch found for delta chain at epoch {relationEpoch}"
  | some baseEpoch =>
    if baseEpoch = relationEpoch then
      .error s!"epoch {relationEpoch} is marked Delta but has no delta row"
    else replay store relationEpoch baseEpoch

def load : Option (Except String RelationIndex) :=
  match store.getManifest relationEpoch with
  | none => some (.error s!"relation epoch {relationEpoch} has no manifest")
  | some manifest =>
    match manifest.state with
    | .ready | .active => some (loadFull store validateManifest relationEpoch manifest)
    | .delta => (store.findBaseEpoch relationEpoch).map fun found => do
        loadDelta store relationEpoch (← found)
    | .building | .failed => some (.error s!"relation epoch {relationEpoch} is not loadable")

end RelationSnapshotLoader

namespace RelationTables

variable (tables : RelationTables)

section Publication

/-- The relation half of the activation of a project manifest. -/
def activateRelation (relationEpoch : Int) : Except String RelationTables :=
  if 0 < relationEpoch then
    match tables.stateOf relationEpoch with
    | none => .error s!"relation epoch {relationEpoch} does not exist"
    | some .building | some .failed => .error s!"relation epoch {relationEpoch} is not publishable"
    | some _ => tables.activate relationEpoch
  else .ok tables

/-- A delta against the active epoch, written under the epoch of its operation in one
transaction. -/
def publishDelta (operationId : String) (delta : SnapshotDelta) (now : Int) :
    Except String RelationTables :=
  match tables.activeRelationEpoch with
  | none => .error "cannot read active epoch for CAS"
  | some activeEpoch =>
    if activeEpoch ≠ delta.baseEpoch then
      .error s!"epoch conflict: {activeEpoch} {delta.baseEpoch}"
    else
      let (epoch, allocated) := tables.allocateBuilding operationId delta.configFingerprint now
      allocated.writeDelta epoch delta

/-- The end of a compaction: the epoch just written is activated and everything else goes. -/
def compactInto (epoch : Int) : Except String RelationTables :=
  if tables.stateOf epoch = some .ready ∨ tables.stateOf epoch = some .active then do
    let activated ← tables.activateRelation epoch
    return (activated.setActiveRelationEpoch epoch).deleteManifestsExcept epoch
  else .error "no compacted snapshot was written"

/-- The transactions of relation publications. A full publication allocates or reopens an epoch,
writes it, and is activated at once or with its project manifest; each transaction may be the
last one of an operation that fails. -/
inductive RelationStep
  | allocateBuilding (operationId configFingerprint : String) (now : Int)
  | retryFailed (epoch : Int)
  | writeSnapshot (epoch : Int)
  | publishDelta (operationId : String) (delta : SnapshotDelta) (now : Int)
  | activate (epoch : Int)
  | setActiveRelationEpoch (epoch : Int)
  | markFailed (epoch : Int)
  | compactInto (epoch : Int)

def attempt : RelationStep → Except String RelationTables
  | .allocateBuilding operationId configFingerprint now =>
    .ok (tables.allocateBuilding operationId configFingerprint now).2
  | .retryFailed epoch => tables.retryFailed epoch
  | .writeSnapshot epoch => tables.writeSnapshotAndMarkReady epoch
  | .publishDelta operationId delta now => tables.publishDelta operationId delta now
  | .activate epoch => tables.activateRelation epoch
  | .setActiveRelationEpoch epoch => .ok (tables.setActiveRelationEpoch epoch)
  | .markFailed epoch => .ok (tables.markFailed epoch)
  | .compactInto epoch => tables.compactInto epoch

/-- A failed transaction is rolled back. -/
def step (tables : RelationTables) (next : RelationStep) : RelationTables :=
  (tables.attempt next).toOption.getD tables

end Publication

section Chains

variable {tables}

/-- What a load of a delta epoch should do: find a base along the base links, and apply the deltas
of the links between, each once and in their order. -/
def ReplaysOwnHistory [Sha256] (tables : RelationTables) (epoch : Int) : Prop :=
  ∃ baseEpoch links,
    tables.findBaseEpoch epoch = some (.ok (some baseEpoch)) ∧
    Loops.Path tables.baseStep epoch links baseEpoch ∧
    (tables.deltaRows baseEpoch epoch).map Prod.fst = links.reverse ∧
    ∀ readSnapshot validateManifest,
      RelationSnapshotLoader.load (tables.snapshotStore readSnapshot) validateManifest epoch =
        some (RelationSnapshotLoader.replay (tables.snapshotStore readSnapshot) epoch baseEpoch)

variable {k next : Int}

theorem baseStep_eq_inr :
    tables.baseStep k = .inr next ↔ tables.stateOf k = some .delta ∧
      ∃ delta, tables.deltas.lookup k = some delta ∧ delta.baseEpoch = next ∧ next ≠ k ∧
        0 ≤ next := by
  rw [baseStep]
  constructor
  · intro link
    split at link
    · cases link
    · next isDelta =>
        split at link
        · cases link
        · next delta found =>
            split_ifs at link with invalid
            rw [not_or, not_lt] at invalid
            cases link
            exact ⟨isDelta, delta, found, rfl, invalid.1, invalid.2⟩
    · cases link
  · rintro ⟨isDelta, delta, found, rfl, other, nonneg⟩
    simp only [isDelta, found]
    rw [if_neg (not_or.2 ⟨other, not_lt.2 nonneg⟩)]

theorem baseStep_of_stop {k : Int} {state : RelationSnapshotState}
    (stored : tables.stateOf k = some state) (stop : state ≠ .delta) :
    tables.baseStep k = .inl (.ok (some k)) := by
  rw [baseStep, stored]
  cases state <;> first | rfl | exact absurd rfl stop

theorem stop_of_baseStep {k base : Int} (stopped : tables.baseStep k = .inl (.ok (some base))) :
    base = k ∧ tables.stateOf k ≠ some .delta := by
  cases stored : tables.stateOf k with
  | none =>
    rw [baseStep, stored] at stopped
    cases stopped
  | some state =>
    by_cases isDelta : state = .delta
    · subst isDelta
      rw [baseStep, stored] at stopped
      cases found : tables.deltas.lookup k with
      | none => simp only [found] at stopped; cases stopped
      | some delta =>
        simp only [found] at stopped
        split_ifs at stopped
        cases stopped
    · rw [baseStep_of_stop stored isDelta] at stopped
      cases stopped
      exact ⟨rfl, fun same => isDelta (some.inj same)⟩

theorem map_fst_deltaRows (low high : Int) :
    (tables.deltaRows low high).map Prod.fst = Loops.window tables.deltas.keys low high := by
  have sorted : (tables.deltaRows low high).map Prod.fst = sortByKey id
      ((tables.deltas.toList.filter fun row => low < row.1 ∧ row.1 ≤ high).map Prod.fst) :=
    map_sortByKey fun _ _ => rfl
  rw [sorted, Loops.window, ← HashMap.map_fst_toList, List.filter_map]
  rfl

/-- Every delta epoch has a link, links descend, and no delta row lies beside one. -/
structure ChainsSpaced (tables : RelationTables) : Prop where
  linked : ∀ epoch, tables.stateOf epoch = some .delta → ∃ next, tables.baseStep epoch = .inr next
  spaced : Loops.Spaced tables.baseStep tables.deltas.keys

private theorem mem_deltas_of_link (link : tables.baseStep k = .inr next) :
    k ∈ tables.deltas.keys := by
  obtain ⟨_, delta, found, _⟩ := baseStep_eq_inr.1 link
  exact HashMap.mem_keys_iff.2 ⟨delta, found⟩

private theorem stored_of_link (link : tables.baseStep k = .inr next) :
    k ∈ tables.manifests.keys ∧ next ∈ tables.manifests.keys := by
  obtain ⟨_, delta, found, rfl, _⟩ := baseStep_eq_inr.1 link
  exact ⟨tables.deltaEpoch_stored k delta found, tables.baseEpoch_stored k delta found⟩

theorem load_of_base [Sha256] {epoch base : Int} (isDelta : tables.stateOf epoch = some .delta)
    (found : tables.findBaseEpoch epoch = some (.ok (some base))) (other : base ≠ epoch)
    (readSnapshot : Int → Except String CanonicalRelationSnapshot)
    (validateManifest : RelationSnapshotManifest → CanonicalRelationSnapshot → Except String Unit) :
    RelationSnapshotLoader.load (tables.snapshotStore readSnapshot) validateManifest epoch =
      some (RelationSnapshotLoader.replay (tables.snapshotStore readSnapshot) epoch base) := by
  obtain ⟨manifest, stored, state⟩ := map_eq_some_iff.1 isDelta
  rw [RelationSnapshotLoader.load]
  simp only [snapshotStore, stored, state, found, map_some]
  show some (RelationSnapshotLoader.loadDelta _ epoch (some base)) = _
  rw [RelationSnapshotLoader.loadDelta, if_neg other]

private theorem replaysOwnHistory_of_spaced [Sha256] (chains : tables.ChainsSpaced) {epoch : Int}
    (isDelta : tables.stateOf epoch = some .delta) : tables.ReplaysOwnHistory epoch := by
  have lowers : ∀ k next, tables.baseStep k = .inr next →
      Loops.rankIn tables.manifests.keys next < Loops.rankIn tables.manifests.keys k :=
    fun k next link => Loops.rankIn_lt (stored_of_link link).1 (chains.spaced.descends k next link)
  have enough : Loops.rankIn tables.manifests.keys epoch < tables.manifests.keys.length + 1 :=
    Nat.lt_succ_of_le (Loops.rankIn_le _ _)
  obtain ⟨result, returned⟩ := Loops.exists_run _ lowers enough
  obtain ⟨links, base, path, leaves, _⟩ := Loops.exists_path returned
  have stored : base ∈ tables.manifests.keys :=
    (path.invariant (mem_keys_iff_stateOf.2 ⟨_, isDelta⟩)
      fun _ _ _ link => (stored_of_link link).2).1
  obtain ⟨state, baseState⟩ := mem_keys_iff_stateOf.1 stored
  have stop : state ≠ .delta := by
    rintro rfl
    obtain ⟨next, link⟩ := chains.linked base baseState
    rw [leaves] at link
    cases link
  have other : base ≠ epoch := fun same => stop (some.inj (baseState.symm.trans
    (same ▸ isDelta)))
  rw [baseStep_of_stop baseState stop] at leaves
  cases leaves
  refine ⟨base, links, returned, path, ?_, load_of_base isDelta returned other⟩
  rw [map_fst_deltaRows]
  exact path.window_eq chains.spaced (fun _ _ => mem_deltas_of_link) tables.deltas.keys_nodup

theorem forall_replaysOwnHistory_iff [Sha256] :
    (∀ epoch, tables.stateOf epoch = some .delta → tables.ReplaysOwnHistory epoch) ↔
      tables.ChainsSpaced := by
  refine ⟨fun replays => ?_, fun chains epoch => replaysOwnHistory_of_spaced chains⟩
  have first : ∀ epoch, tables.stateOf epoch = some .delta → ∃ next,
      tables.baseStep epoch = .inr next ∧ next < epoch ∧
        ∀ x ∈ tables.deltas.keys, next < x → ¬ x < epoch := by
    intro epoch isDelta
    obtain ⟨base, links, found, path, window, _⟩ := replays epoch isDelta
    rw [map_fst_deltaRows] at window
    cases path with
    | done =>
      obtain ⟨_, _, _, leaves, _⟩ := Loops.exists_path found
      obtain ⟨rfl, notDelta⟩ := stop_of_baseStep leaves
      exact absurd isDelta notDelta
    | next link rest =>
      exact ⟨_, link, (Loops.Path.next link rest).spaced_of_window link tables.deltas.keys_nodup
        window⟩
  constructor
  · exact fun epoch isDelta => (first epoch isDelta).imp fun _ => And.left
  · constructor
    · intro k next link
      obtain ⟨next', link', below, _⟩ := first k (baseStep_eq_inr.1 link).1
      rw [link] at link'
      cases link'
      exact below
    · intro k next link
      obtain ⟨next', link', _, clear⟩ := first k (baseStep_eq_inr.1 link).1
      rw [link] at link'
      cases link'
      exact clear

end Chains

section Steps

variable {tables} {published : RelationTables}

/-- A transaction that writes no delta row and makes no epoch a delta. -/
structure Quiet (tables published : RelationTables) : Prop where
  deltas : published.deltas = tables.deltas
  states : ∀ epoch, published.stateOf epoch = some .delta → tables.stateOf epoch = some .delta
  positive : (∀ epoch ∈ tables.manifests.keys, 0 < epoch) →
    ∀ epoch ∈ published.manifests.keys, 0 < epoch

namespace Quiet

theorem refl (tables : RelationTables) : Quiet tables tables := ⟨rfl, fun _ => id, id⟩

theorem trans {middle : RelationTables} (first : Quiet tables middle)
    (second : Quiet middle published) : Quiet tables published :=
  ⟨second.deltas.trans first.deltas, fun epoch isDelta => first.states epoch (second.states epoch
    isDelta), fun positive => second.positive (first.positive positive)⟩

theorem setActiveRelationEpoch (tables : RelationTables) (epoch : Int) :
    Quiet tables (tables.setActiveRelationEpoch epoch) := ⟨rfl, fun _ => id, id⟩

theorem setState (tables : RelationTables) (epoch : Int) {state : RelationSnapshotState}
    (notDelta : state ≠ .delta) : Quiet tables (tables.setState epoch state) := by
  refine ⟨rfl, fun e isDelta => ?_, fun positive e mem => positive e (by simpa using mem)⟩
  rw [stateOf_setState] at isDelta
  split_ifs at isDelta
  · obtain ⟨_, _, same⟩ := map_eq_some_iff.1 isDelta
    exact absurd same notDelta
  · exact isDelta

theorem updateManifests (tables : RelationTables)
    {f : Int → RelationSnapshotManifest → RelationSnapshotManifest}
    (kept : ∀ e manifest, (f e manifest).state = .delta → manifest.state = .delta) :
    Quiet tables (tables.updateManifests f) := by
  refine ⟨rfl, fun e isDelta => ?_, fun positive e mem => positive e ?_⟩
  · simp only [stateOf, RelationTables.updateManifests, HashMap.lookup_mapEntries,
      map_map, map_eq_some_iff] at isDelta ⊢
    obtain ⟨manifest, found, isDelta⟩ := isDelta
    exact ⟨manifest, found, kept e manifest isDelta⟩
  · rwa [RelationTables.updateManifests, HashMap.keys_mapEntries] at mem

end Quiet

variable {epoch : Int}

theorem nextEpoch_gt (stored : epoch ∈ tables.manifests.keys) :
    epoch < tables.nextEpoch := by
  rw [nextEpoch]
  cases largest : tables.manifests.keys.max? with
  | none => rw [List.max?_eq_none_iff.1 largest] at stored; cases stored
  | some top =>
    have le : epoch ≤ top := (List.max?_eq_some_iff.1 largest).2 epoch stored
    rw [getD_some]
    omega

theorem nextEpoch_pos (positive : ∀ epoch ∈ tables.manifests.keys, 0 < epoch) :
    0 < tables.nextEpoch := by
  rw [nextEpoch]
  cases largest : tables.manifests.keys.max? with
  | none => rw [getD_none]; omega
  | some top =>
    have pos : 0 < top := positive top (List.max?_eq_some_iff.1 largest).1
    rw [getD_some]
    omega

variable {op : String}

theorem stateOf_of_getManifestByOperation
    {manifest : RelationSnapshotManifest}
    (found : tables.getManifestByOperation op = some (epoch, manifest)) :
    tables.stateOf epoch = some manifest.state := by
  have mem := List.mem_of_find?_eq_some found
  exact map_eq_some_iff.2 ⟨manifest, HashMap.mem_toList.1 mem, rfl⟩

private theorem quiet_allocateBuilding (tables : RelationTables) (op config : String) (now : Int) :
    Quiet tables (tables.allocateBuilding op config now).2 := by
  rw [allocateBuilding]
  cases found : tables.getManifestByOperation op with
  | some row =>
    obtain ⟨epoch, manifest⟩ := row
    by_cases failed : manifest.state = .failed
    · simp only [if_pos failed]
      exact Quiet.setState tables epoch (by decide)
    · simp only [if_neg failed]
      exact Quiet.refl tables
  | none =>
    refine ⟨rfl, fun e isDelta => ?_, fun positive e mem => ?_⟩
    · rw [stateOf_insertManifest] at isDelta
      split_ifs at isDelta
      · cases isDelta
      · exact isDelta
    · obtain ⟨state, stored⟩ := mem_keys_iff_stateOf.1 mem
      rw [stateOf_insertManifest] at stored
      split_ifs at stored with same
      · exact same ▸ nextEpoch_pos positive
      · exact positive e (mem_keys_iff_stateOf.2 ⟨state, stored⟩)

private theorem stateOf_allocateBuilding (op config : String) (now : Int) :
    let allocation := tables.allocateBuilding op config now
    (∀ e, e ≠ allocation.1 → allocation.2.stateOf e = tables.stateOf e) ∧
    (tables.stateOf allocation.1 = some .delta →
      allocation.2.stateOf allocation.1 = some .delta) := by
  rw [allocateBuilding]
  cases found : tables.getManifestByOperation op with
  | some row =>
    obtain ⟨epoch, manifest⟩ := row
    have stored := stateOf_of_getManifestByOperation found
    by_cases failed : manifest.state = .failed
    · simp only [if_pos failed]
      refine ⟨fun e other => by rw [stateOf_setState, if_neg other], fun isDelta => ?_⟩
      rw [stored, failed] at isDelta
      cases isDelta
    · simp only [if_neg failed]
      exact ⟨fun _ _ => trivial, id⟩
  | none =>
    refine ⟨fun e other => by rw [stateOf_insertManifest, if_neg other], fun isDelta => ?_⟩
    exact absurd (nextEpoch_gt (mem_keys_iff_stateOf.2 ⟨_, isDelta⟩)) (lt_irrefl _)

private theorem quiet_activate (done : tables.activate epoch = .ok published) :
    Quiet tables published := by
  rw [activate] at done
  split at done
  · cases done
    exact Quiet.refl tables
  · cases done
    exact Quiet.setActiveRelationEpoch tables epoch
  · cases done
    have promoted : Quiet tables (tables.setState epoch .active) :=
      Quiet.setState tables epoch (by decide)
    refine (promoted.trans ?_).trans (Quiet.setActiveRelationEpoch _ epoch)
    refine Quiet.updateManifests _ fun e manifest isDelta => ?_
    split_ifs at isDelta
    exact isDelta
  · cases done

theorem quiet_activateRelation
    (done : tables.activateRelation epoch = .ok published) : Quiet tables published := by
  rw [activateRelation] at done
  split_ifs at done
  · split at done
    · cases done
    · cases done
    · cases done
    · exact quiet_activate done
  · cases done
    exact Quiet.refl tables

private theorem quiet_markFailed (tables : RelationTables) (epoch : Int) :
    Quiet tables (tables.markFailed epoch) := by
  rw [markFailed]
  split_ifs
  · exact Quiet.refl tables
  · exact Quiet.setState tables epoch (by decide)

private theorem quiet_retryFailed (done : tables.retryFailed epoch = .ok published) :
    Quiet tables published := by
  rw [retryFailed] at done
  split_ifs at done
  cases done
  exact Quiet.setState tables epoch (by decide)

private theorem quiet_writeSnapshot
    (done : tables.writeSnapshotAndMarkReady epoch = .ok published) : Quiet tables published := by
  rw [writeSnapshotAndMarkReady, Runs.bind_eq_ok] at done
  obtain ⟨_, _, done⟩ := done
  cases done
  exact Quiet.setState tables epoch fun same => by cases same

variable {delta : SnapshotDelta}

private theorem writeDelta_cases
    (done : tables.writeDelta epoch delta = .ok published) :
    tables.stateOf epoch = some .building ∧ epoch ∉ tables.deltas.keys ∧
    published.deltas = tables.deltas.insert epoch delta ∧
    published.manifests.keys = tables.manifests.keys ∧
    ∀ e, published.stateOf e = if e = epoch then some .delta else tables.stateOf e := by
  rw [writeDelta, Runs.bind_eq_ok] at done
  obtain ⟨_, building, done⟩ := done
  have state : tables.stateOf epoch = some .building := by
    rw [requireState] at building
    cases stored : tables.stateOf epoch with
    | none => rw [stored] at building; cases building
    | some state =>
      simp only [stored] at building
      split_ifs at building with same
      rw [same]
  split_ifs at done with stored fresh
  cases done
  refine ⟨state, fresh, rfl, keys_setState _ _, fun e => ?_⟩
  rw [stateOf_setState]
  split_ifs with same
  · subst same
    show (tables.stateOf e).map _ = _
    rw [state]
    rfl
  · rfl

theorem publishDelta_cases {now : Int}
    (done : tables.publishDelta op delta now = .ok published) :
    let epoch := (tables.allocateBuilding op delta.configFingerprint now).1
    tables.activeRelationEpoch = some delta.baseEpoch ∧
    tables.stateOf epoch ≠ some .delta ∧ epoch ∉ tables.deltas.keys ∧
    published.deltas = tables.deltas.insert epoch delta ∧
    (∀ e, published.stateOf e = some .delta ↔ e = epoch ∨ tables.stateOf e = some .delta) ∧
    ((∀ e ∈ tables.manifests.keys, 0 < e) → ∀ e ∈ published.manifests.keys, 0 < e) := by
  intro epoch
  rw [publishDelta] at done
  cases active : tables.activeRelationEpoch with
  | none => rw [active] at done; cases done
  | some activeEpoch =>
    simp only [active, ne_eq, ite_not] at done
    split_ifs at done with same
    · obtain ⟨building, fresh, deltas, keys, states⟩ := writeDelta_cases done
      have quiet := quiet_allocateBuilding tables op delta.configFingerprint now
      obtain ⟨others, kept⟩ := @stateOf_allocateBuilding tables op
        delta.configFingerprint now
      refine ⟨congrArg some same, fun isDelta => ?_, quiet.deltas ▸ fresh,
        quiet.deltas ▸ deltas, fun e => ?_, ?_⟩
      · rw [kept isDelta] at building
        cases building
      · rw [states]
        by_cases this_epoch : e = epoch
        · rw [if_pos this_epoch]
          exact ⟨fun _ => Or.inl this_epoch, fun _ => rfl⟩
        · rw [if_neg this_epoch, others e this_epoch, or_iff_right this_epoch]
      · intro positive e mem
        exact quiet.positive positive e (keys ▸ mem)

theorem ChainsSpaced.of_frame (chains : tables.ChainsSpaced)
    (deltas : published.deltas = tables.deltas)
    (states : ∀ epoch, published.stateOf epoch = some .delta → tables.stateOf epoch = some .delta) :
    published.ChainsSpaced := by
  have same : ∀ k next, published.stateOf k = some .delta →
      (published.baseStep k = .inr next ↔ tables.baseStep k = .inr next) := fun k next isDelta => by
    rw [baseStep_eq_inr, baseStep_eq_inr, deltas, and_iff_right isDelta,
      and_iff_right (states k isDelta)]
  constructor
  · intro epoch isDelta
    obtain ⟨next, link⟩ := chains.linked epoch (states epoch isDelta)
    exact ⟨next, (same epoch next isDelta).2 link⟩
  · constructor
    · exact fun k next link =>
        chains.spaced.descends k next ((same k next (baseStep_eq_inr.1 link).1).1 link)
    · intro k next link
      rw [deltas]
      exact chains.spaced.clear k next ((same k next (baseStep_eq_inr.1 link).1).1 link)

/-- The new epoch lies above its base with no delta row between, and below no delta whose base is
lower. -/
def LinksApart (tables : RelationTables) (baseEpoch epoch : Int) : Prop :=
  baseEpoch < epoch ∧ (∀ x ∈ tables.deltas.keys, baseEpoch < x → ¬ x < epoch) ∧
    ∀ e delta, tables.stateOf e = some .delta → tables.deltas.lookup e = some delta →
      delta.baseEpoch < epoch → ¬ epoch < e

structure ChainsHold (tables : RelationTables) : Prop where
  chains : tables.ChainsSpaced
  positive : ∀ epoch ∈ tables.manifests.keys, 0 < epoch

private theorem chainsHold_publishDelta_iff
    {now : Int} (hold : tables.ChainsHold)
    (done : tables.publishDelta op delta now = .ok published) :
    published.ChainsHold ↔ tables.LinksApart delta.baseEpoch
      (tables.allocateBuilding op delta.configFingerprint now).1 := by
  obtain ⟨_, wasNot, fresh, deltas, states, positive⟩ := publishDelta_cases done
  generalize (tables.allocateBuilding op delta.configFingerprint now).1 = epoch at *
  have own : published.deltas.lookup epoch = some delta := by rw [deltas, AList.lookup_insert]
  have basePos : 0 < delta.baseEpoch :=
    positive hold.positive _ (published.baseEpoch_stored epoch delta own)
  have link : ∀ k next, published.baseStep k = .inr next ↔
      (k = epoch ∧ next = delta.baseEpoch ∧ next ≠ epoch) ∨ tables.baseStep k = .inr next := by
    intro k next
    rw [baseStep_eq_inr, baseStep_eq_inr, states, deltas]
    by_cases isNew : k = epoch
    · subst isNew
      simp only [AList.lookup_insert, some.injEq, true_and, wasNot, false_and, or_false,
        exists_eq_left']
      constructor
      · exact fun ⟨same, other, _⟩ => ⟨same.symm, other⟩
      · exact fun ⟨same, other⟩ => ⟨same.symm, other, by omega⟩
    · simp only [AList.lookup_insert_ne isNew, isNew, false_or, false_and]
  have keys : ∀ x, x ∈ published.deltas.keys ↔ x = epoch ∨ x ∈ tables.deltas.keys := by
    intro x
    rw [deltas, ← AList.mem_keys, AList.mem_insert, AList.mem_keys]
  constructor
  · intro after
    obtain ⟨next, first⟩ := after.chains.linked epoch ((states epoch).2 (Or.inl rfl))
    have same : next = delta.baseEpoch := by
      rcases (link epoch next).1 first with ⟨_, same, _⟩ | old
      · exact same
      · exact absurd (baseStep_eq_inr.1 old).1 wasNot
    subst same
    refine ⟨after.chains.spaced.descends _ _ first, fun x mem => ?_, fun e d isDelta found => ?_⟩
    · exact after.chains.spaced.clear _ _ first x ((keys x).2 (Or.inr mem))
    · obtain ⟨next, old⟩ := hold.chains.linked e isDelta
      have base : next = d.baseEpoch := by
        obtain ⟨_, d', found', same, _⟩ := baseStep_eq_inr.1 old
        rw [found] at found'
        cases found'
        exact same.symm
      subst base
      exact after.chains.spaced.clear e _ ((link e _).2 (Or.inr old)) epoch
        ((keys epoch).2 (Or.inl rfl))
  · intro ⟨below, clear, outside⟩
    refine ⟨⟨fun e isDelta => ?_, ⟨fun k next first => ?_, fun k next first x mem => ?_⟩⟩,
      positive hold.positive⟩
    · rcases (states e).1 isDelta with rfl | old
      · exact ⟨delta.baseEpoch, (link e _).2 (Or.inl ⟨rfl, rfl, below.ne⟩)⟩
      · exact (hold.chains.linked e old).imp fun _ old => (link e _).2 (Or.inr old)
    · rcases (link k next).1 first with ⟨rfl, rfl, _⟩ | old
      · exact below
      · exact hold.chains.spaced.descends k next old
    · rcases (link k next).1 first with ⟨rfl, rfl, _⟩ | old
      · rcases (keys x).1 mem with rfl | stored
        · exact fun _ => lt_irrefl _
        · exact clear x stored
      · rcases (keys x).1 mem with rfl | stored
        · obtain ⟨isDelta, d, found, rfl, _⟩ := baseStep_eq_inr.1 old
          exact outside k d isDelta found
        · exact hold.chains.spaced.clear k next old x stored

private theorem chainsHold_of_quiet (hold : tables.ChainsHold) (quiet : Quiet tables published) :
    published.ChainsHold :=
  ⟨hold.chains.of_frame quiet.deltas quiet.states, quiet.positive hold.positive⟩

private theorem compactInto_cases (done : tables.compactInto epoch = .ok published) :
    (∀ e, published.stateOf e ≠ some .delta) ∧
      ((∀ e ∈ tables.manifests.keys, 0 < e) → ∀ e ∈ published.manifests.keys, 0 < e) := by
  rw [compactInto] at done
  split_ifs at done with full
  rw [Runs.bind_eq_ok] at done
  obtain ⟨activated, activation, done⟩ := done
  cases done
  have quiet := quiet_activateRelation activation
  have noDelta : ∀ e, ((activated.setActiveRelationEpoch epoch).deleteManifestsExcept epoch).stateOf
      e ≠ some .delta := by
    intro e isDelta
    obtain ⟨manifest, found, state, kept⟩ := stateOf_deleteManifests.1 isDelta
    have same : e = epoch := by simpa using kept
    subst same
    have before : tables.stateOf e = some .delta :=
      quiet.states e (map_eq_some_iff.2 ⟨manifest, found, state⟩)
    rcases full with ready | active
    · rw [before] at ready; cases ready
    · rw [before] at active; cases active
  refine ⟨noDelta, fun positive e mem => ?_⟩
  obtain ⟨state, stored⟩ := mem_keys_iff_stateOf.1 mem
  obtain ⟨manifest, found, _⟩ := stateOf_deleteManifests.1 stored
  exact quiet.positive positive e (HashMap.mem_keys_iff.2 ⟨manifest, found⟩)

private theorem chainsSpaced_of_noDelta (noDelta : ∀ e, tables.stateOf e ≠ some .delta) :
    tables.ChainsSpaced := by
  have noLink : ∀ k next, tables.baseStep k ≠ .inr next := fun k next link =>
    noDelta k (baseStep_eq_inr.1 link).1
  exact ⟨fun e isDelta => absurd isDelta (noDelta e),
    ⟨fun k next link => absurd link (noLink k next),
      fun k next link => absurd link (noLink k next)⟩⟩

/-- A delta publication that goes through must keep its link apart from the others. -/
def KeepsLinksApart (tables : RelationTables) : RelationStep → Prop
  | .publishDelta operationId delta now =>
    (tables.publishDelta operationId delta now).isOk = true →
      tables.LinksApart delta.baseEpoch
        (tables.allocateBuilding operationId delta.configFingerprint now).1
  | _ => True

/-- A transaction is quiet, or the end of a compaction, or a delta publication that goes through;
only the last has a condition. -/
private theorem step_cases (tables : RelationTables) (next : RelationStep) :
    tables.KeepsLinksApart next ∧ Quiet tables (tables.step next) ∨
    tables.KeepsLinksApart next ∧ (∃ epoch, tables.compactInto epoch = .ok (tables.step next)) ∨
    ∃ operationId delta now, next = .publishDelta operationId delta now ∧
      tables.publishDelta operationId delta now = .ok (tables.step next) := by
  have rollback : ∀ {attempted : Except String RelationTables},
      (∀ done, attempted = .ok done → Quiet tables done) →
      Quiet tables (attempted.toOption.getD tables) := by
    intro attempted quiet
    cases attempted with
    | error message => exact Quiet.refl tables
    | ok done => exact quiet done rfl
  cases next with
  | allocateBuilding operationId configFingerprint now =>
    exact Or.inl ⟨trivial, quiet_allocateBuilding tables operationId configFingerprint now⟩
  | retryFailed epoch => exact Or.inl ⟨trivial, rollback fun _ => quiet_retryFailed⟩
  | writeSnapshot epoch => exact Or.inl ⟨trivial, rollback fun _ => quiet_writeSnapshot⟩
  | activate epoch => exact Or.inl ⟨trivial, rollback fun _ => quiet_activateRelation⟩
  | setActiveRelationEpoch epoch =>
    exact Or.inl ⟨trivial, Quiet.setActiveRelationEpoch tables epoch⟩
  | markFailed epoch => exact Or.inl ⟨trivial, quiet_markFailed tables epoch⟩
  | compactInto epoch =>
    simp only [step, attempt]
    cases done : tables.compactInto epoch with
    | error message => exact Or.inl ⟨trivial, Quiet.refl tables⟩
    | ok compacted => exact Or.inr (Or.inl ⟨trivial, epoch, done⟩)
  | publishDelta operationId delta now =>
    simp only [step, attempt, KeepsLinksApart]
    cases done : tables.publishDelta operationId delta now with
    | error message => exact Or.inl ⟨(fun ok => by cases ok), Quiet.refl tables⟩
    | ok published => exact Or.inr (Or.inr ⟨operationId, delta, now, rfl, done⟩)

private theorem chainsHold_step_iff (hold : tables.ChainsHold) (next : RelationStep) :
    (tables.step next).ChainsHold ↔ tables.KeepsLinksApart next := by
  obtain ⟨admitted, quiet⟩ | ⟨admitted, epoch, done⟩ | ⟨operationId, delta, now, rfl, done⟩ :=
    step_cases tables next
  · exact iff_of_true (chainsHold_of_quiet hold quiet) admitted
  · obtain ⟨noDelta, positive⟩ := compactInto_cases done
    exact iff_of_true ⟨chainsSpaced_of_noDelta noDelta, positive hold.positive⟩ admitted
  · rw [chainsHold_publishDelta_iff hold done, KeepsLinksApart, done]
    exact ⟨fun apart _ => apart, fun apart => apart rfl⟩

theorem positive_step (positive : ∀ e ∈ tables.manifests.keys, 0 < e)
    (next : RelationStep) : ∀ e ∈ (tables.step next).manifests.keys, 0 < e := by
  obtain ⟨_, quiet⟩ | ⟨_, _, done⟩ | ⟨_, _, _, _, done⟩ := step_cases tables next
  · exact quiet.positive positive
  · exact (compactInto_cases done).2 positive
  · exact (publishDelta_cases done).2.2.2.2.2 positive

private theorem chainsHold_empty : empty.ChainsHold :=
  ⟨chainsSpaced_of_noDelta (fun e stored => by cases stored), fun e mem => by cases mem⟩

/-- In every state a run of publications reaches, every delta epoch replays exactly its own
history, if and only if every delta that is published keeps its link apart: above its base and
above every delta row, unless its epoch was allocated before, with no row between and no chain
across. -/
theorem replaysOwnHistory_run_iff [Sha256] (steps : List RelationStep) :
    (∀ reached, reached <+: steps → ∀ epoch,
      (reached.foldl step empty).stateOf epoch = some .delta →
        (reached.foldl step empty).ReplaysOwnHistory epoch) ↔
      Runs.EveryStep step KeepsLinksApart empty steps := by
  have step_iff : ∀ tables next, ChainsHold tables →
      (ChainsHold (step tables next) ↔ KeepsLinksApart tables next) :=
    fun _ next hold => chainsHold_step_iff hold next
  rw [← Runs.invariant_iff step_iff chainsHold_empty]
  have step_positive : ∀ (tables : RelationTables) (next : RelationStep), True →
      (∀ epoch ∈ tables.manifests.keys, 0 < epoch) →
        ∀ epoch ∈ (step tables next).manifests.keys, 0 < epoch :=
    fun _ next _ positive => positive_step positive next
  have positive : ∀ reached : List RelationStep,
      ∀ epoch ∈ (reached.foldl step empty).manifests.keys, 0 < epoch := fun reached =>
    Runs.invariant step_positive chainsHold_empty.positive
      (Runs.EveryStep.of_always (fun _ _ => trivial) empty reached)
  exact forall_congr' fun reached => forall_congr' fun _ => forall_replaysOwnHistory_iff.trans
    ⟨fun chains => ⟨chains, positive reached⟩, ChainsHold.chains⟩

def abandonedDelta : List RelationStep :=
  [.allocateBuilding "full" "config" 0, .writeSnapshot 1, .activate 1,
    .publishDelta "abandoned" { epoch := 2, baseEpoch := 1, configFingerprint := "config" } 0,
    .markFailed 2,
    .publishDelta "next" { epoch := 3, baseEpoch := 1, configFingerprint := "config" } 0]

/-- The delta of the failed operation is applied with the next one. -/
theorem abandonedDelta_applied :
    (abandonedDelta.foldl step empty).stateOf 3 = some .delta ∧
      ¬ @ReplaysOwnHistory ⟨fun _ => ""⟩ (abandonedDelta.foldl step empty) 3 := by
  refine ⟨by decide +kernel, fun ⟨base, links, found, path, window, _⟩ => ?_⟩
  have search : (abandonedDelta.foldl step empty).findBaseEpoch 3 = some (.ok (some 1)) := by
    decide +kernel
  have stored : 2 ∈ (abandonedDelta.foldl step empty).deltas.keys := by decide +kernel
  have link : (abandonedDelta.foldl step empty).baseStep 3 = .inr 1 := by decide +kernel
  have leaves : (abandonedDelta.foldl step empty).baseStep 1 = .inl (.ok (some 1)) := by
    decide +kernel
  rw [search] at found
  cases found
  obtain ⟨rfl, _⟩ := path.unique (.next link (.done 1)) leaves leaves
  rw [map_fst_deltaRows] at window
  have applied := Loops.mem_window.2 ⟨stored, (by decide : (1 : Int) < 2),
      (by decide : (2 : Int) ≤ 3)⟩
  rw [window] at applied
  exact absurd applied (by decide)

end Steps

end RelationTables

end ContextEngine

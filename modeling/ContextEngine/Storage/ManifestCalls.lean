/- digest: The answers of the manifest repository, and the meta rows beside the active manifest. -/

import ContextEngine.Storage.ManifestFrames

set_option autoImplicit false

namespace ContextEngine

open List Runs

structure ManifestAnswer where
  publicationEpoch : Int
  dataEpoch : Int
  relationEpoch : Int
  operationId : String
  state : ProjectIndexManifestState
  inputFingerprint : Option String
  candidateReady : Bool
  parentDataEpoch : Option Int
  deriving DecidableEq

def ManifestAnswer.fromRow (row : ProjectIndexManifestRow) (inputFingerprint : Option String) :
    ManifestAnswer where
  publicationEpoch := row.publicationEpoch
  dataEpoch := row.dataEpoch
  relationEpoch := row.relationEpoch
  operationId := row.operationId
  state := row.state
  inputFingerprint := inputFingerprint
  candidateReady := row.candidateReady
  parentDataEpoch := row.parentDataEpoch

/-- The index tables, with the fingerprint column of the manifest of every operation. -/
structure ManifestStore where
  tables : GenerationStore
  inputFingerprint : String → Option String

inductive ManifestCall
  | beginBuilding (dataEpoch : Int) (operationId : String) (inputFingerprint : Option String)
      (now : Int)
  | setParentDataEpoch (operationId : String) (parentDataEpoch : Option Int)
  | activate (dataEpoch relationEpoch : Int) (operationId : String)
      (inputFingerprint : Option String) (now : Int)
  | markFailed (operationId : String)

def ManifestCall.operationId : ManifestCall → String
  | .beginBuilding _ operationId _ _ => operationId
  | .setParentDataEpoch operationId _ => operationId
  | .activate _ _ operationId _ _ => operationId
  | .markFailed operationId => operationId

def ProjectIndexManifests.carriedParent (manifests : ProjectIndexManifests) (dataEpoch : Int) :
    Option Int :=
  (manifests.getActive.filter fun active => active.dataEpoch = dataEpoch).bind
    fun active => active.parentDataEpoch.filter fun parent => 0 < parent

namespace ManifestStore

variable (s : ManifestStore)

/-- Only a new row takes the fingerprint. -/
def beginBuilding (dataEpoch : Int) (operationId : String) (inputFingerprint : Option String)
    (now : Int) : Except String (ManifestAnswer × ManifestStore) := do
  let (building, manifests) ← s.tables.manifests.beginBuilding dataEpoch operationId now
  let fingerprints :=
    if (s.tables.manifests.findOperation operationId).isSome then s.inputFingerprint
    else Function.update s.inputFingerprint operationId inputFingerprint
  return (.fromRow building (fingerprints operationId),
    { tables := { s.tables with manifests := manifests }, inputFingerprint := fingerprints })

/-- The tables change as an activation changes them. A manifest that was active before is answered
as it is; otherwise the answer is put together from the arguments and the building manifest. -/
def activate (dataEpoch relationEpoch : Int) (operationId : String)
    (inputFingerprint : Option String) (now : Int) :
    Except String (ManifestAnswer × ManifestStore) := do
  let tables ← s.tables.activate dataEpoch relationEpoch operationId now
  let (building, started) ← s.beginBuilding dataEpoch operationId inputFingerprint now
  if building.state = .active then return (building, { started with tables := tables })
  else
    return ({ building with
        relationEpoch := relationEpoch
        state := .active
        inputFingerprint := inputFingerprint
        parentDataEpoch := building.parentDataEpoch <|>
          started.tables.manifests.carriedParent dataEpoch },
      { tables := tables
        inputFingerprint := Function.update started.inputFingerprint operationId
          (inputFingerprint <|> started.inputFingerprint operationId) })

def attempt : ManifestCall → Except String (Option ManifestAnswer × ManifestStore)
  | .beginBuilding dataEpoch operationId inputFingerprint now => do
      let (answer, next) ← s.beginBuilding dataEpoch operationId inputFingerprint now
      return (some answer, next)
  | .setParentDataEpoch operationId parentDataEpoch =>
    .ok (none, { s with tables := s.tables.setParentDataEpoch operationId parentDataEpoch })
  | .activate dataEpoch relationEpoch operationId inputFingerprint now => do
      let (answer, next) ← s.activate dataEpoch relationEpoch operationId inputFingerprint now
      return (some answer, next)
  | .markFailed operationId => .ok (none, { s with tables := s.tables.markFailed operationId })

/-- A failed call is rolled back. -/
def step (s : ManifestStore) (call : ManifestCall) : ManifestStore :=
  ((s.attempt call).toOption.map Prod.snd).getD s

def start (relations : RelationTables) : ManifestStore where
  tables := { GenerationStore.empty with
    relations := { relations with activeRelationEpoch := none } }
  inputFingerprint := fun _ => none

def MetaAgrees : Prop :=
  s.tables.manifests.getActive.map ProjectIndexManifestRow.dataEpoch = s.tables.activeEpoch ∧
    s.tables.manifests.getActive.map ProjectIndexManifestRow.relationEpoch =
      s.tables.relations.activeRelationEpoch

def Stored (manifest : ManifestAnswer) (operationId : String) : Prop :=
  ∃ row, s.tables.manifests.findOperation operationId = some row ∧
    manifest = .fromRow row (s.inputFingerprint operationId)

def Publishes (dataEpoch relationEpoch : Int) (operationId : String) : Prop :=
  ∃ row, s.tables.manifests.getActive = some row ∧ row.operationId = operationId ∧
    row.dataEpoch = dataEpoch ∧ row.relationEpoch = relationEpoch

def Promises (next : ManifestStore) : ManifestCall → Prop
  | .activate dataEpoch relationEpoch operationId _ _ =>
    next.Publishes dataEpoch relationEpoch operationId
  | _ => True

/-- A successful call answers with what it stored, and an activation is the one that counts. -/
def Honest (call : ManifestCall) : Prop :=
  ∀ answer next, s.attempt call = .ok (answer, next) →
    (∀ manifest, answer = some manifest → next.Stored manifest call.operationId) ∧
      Promises next call

/-- A relation epoch that can be activated with its project manifest, if there is one to
activate. -/
def Publishable (relationEpoch : Int) : Prop :=
  0 < relationEpoch → s.tables.relations.stateOf relationEpoch ∈
    [some .ready, some .active, some .delta]

/-- The conditions on a call. A begin finds no failed manifest that has a parent link. An
activation finds its own manifest the active one that counts; or finds it idle and newer than every
active one, states a fingerprint if the manifest has one, and finds a link that begin would drop
replaced by that of the active manifest. -/
def Admits : ManifestCall → Prop
  | .beginBuilding dataEpoch operationId _ _ =>
    ∀ row, s.tables.manifests.findOperation operationId = some row →
      row.dataEpoch = dataEpoch → row.state = .failed → row.parentDataEpoch = none
  | .activate dataEpoch relationEpoch operationId inputFingerprint _ =>
    ∀ row, s.tables.manifests.findOperation operationId = some row →
      row.dataEpoch = dataEpoch → s.Publishable relationEpoch →
        (row.state = .active → row.relationEpoch = relationEpoch →
          s.tables.manifests.getActive = some row) ∧
        (row.state ≠ .active →
          (∀ other ∈ s.tables.manifests.rows, other.state = .active →
            other.publicationEpoch < row.publicationEpoch) ∧
          (inputFingerprint = none → s.inputFingerprint operationId = none) ∧
          (row.state = .failed → row.parentDataEpoch = none ∨
            s.tables.manifests.carriedParent dataEpoch ≠ none))
  | _ => True

end ManifestStore

namespace ProjectIndexManifests

variable {manifests begun : ProjectIndexManifests} {building row : ProjectIndexManifestRow}
  {op : String} {dataEpoch now : Int}

def Distinct (manifests : ProjectIndexManifests) : Prop :=
  (manifests.rows.map ProjectIndexManifestRow.operationId).Nodup

def activeRows (manifests : ProjectIndexManifests) : List ProjectIndexManifestRow :=
  manifests.rows.filter fun row => row.state = .active

theorem getActive_eq_head : manifests.getActive = manifests.activeRows.head? :=
  head?_filter.symm

theorem mem_activeRows :
    row ∈ manifests.activeRows ↔ row ∈ manifests.rows ∧ row.state = .active := by
  rw [activeRows, mem_filter, decide_eq_true_iff]

theorem operationId_of_found (found : manifests.findOperation op = some row) :
    row.operationId = op := by
  simpa using find?_some found

theorem Distinct.eq_of_found (distinct : manifests.Distinct)
    (found : manifests.findOperation op = some row) {other : ProjectIndexManifestRow}
    (mem : other ∈ manifests.rows) (own : other.operationId = op) : other = row :=
  inj_on_of_nodup_map distinct mem (mem_of_find?_eq_some found)
    (own.trans (operationId_of_found found).symm)

section Update

variable {p : ProjectIndexManifestRow → Bool}
  {f : ProjectIndexManifestRow → ProjectIndexManifestRow}

theorem operationId_updated (ids : ∀ row, (f row).operationId = row.operationId)
    (row : ProjectIndexManifestRow) : (updated p f row).operationId = row.operationId := by
  rw [updated]
  split_ifs
  · exact ids row
  · rfl

theorem Distinct.update (distinct : manifests.Distinct)
    (ids : ∀ row, (f row).operationId = row.operationId) : (manifests.update p f).Distinct := by
  have same : (manifests.update p f).rows.map ProjectIndexManifestRow.operationId =
      manifests.rows.map ProjectIndexManifestRow.operationId := by
    rw [rows_update, map_map]
    exact map_congr_left fun row _ => operationId_updated ids row
  rw [Distinct, same]
  exact distinct

theorem findOperation_update (ids : ∀ row, (f row).operationId = row.operationId) :
    (manifests.update p f).findOperation op = (manifests.findOperation op).map (updated p f) := by
  have sought : ((fun row : ProjectIndexManifestRow => decide (row.operationId = op)) ∘
      updated p f) = fun row => decide (row.operationId = op) := by
    funext row
    rw [Function.comp_apply, operationId_updated ids]
  rw [findOperation, rows_update, find?_map, sought]
  rfl

theorem activeRows_update (idle : ∀ row ∈ manifests.rows, p row = true →
    row.state ≠ .active ∧ (f row).state ≠ .active) :
    (manifests.update p f).activeRows = manifests.activeRows := by
  rw [activeRows, activeRows, rows_update]
  generalize manifests.rows = rows at idle
  induction rows with
  | nil => rfl
  | cons row rows ih =>
    rw [map_cons, filter_cons, filter_cons, ih fun other mem => idle other (mem_cons_of_mem _ mem)]
    cases changed : p row with
    | false => rw [updated_of_not changed]
    | true =>
      obtain ⟨before, after⟩ := idle row mem_cons_self changed
      have stays : (updated p f row).state ≠ .active := by
        rw [updated, if_pos changed]
        exact after
      rw [if_neg (by simpa using stays), if_neg (by simpa using before)]

end Update

theorem Distinct.insert (distinct : manifests.Distinct)
    (fresh : manifests.findOperation row.operationId = none) : (manifests.insert row).Distinct := by
  refine nodup_cons.2 ⟨fun again => ?_, distinct⟩
  obtain ⟨old, mem, same⟩ := mem_map.1 again
  exact find?_eq_none.1 fresh old mem (decide_eq_true same)

/-- A begin answers with the row it leaves, but for the link of a failed one and its age. It leaves
the active rows alone. -/
structure Begins (manifests begun : ProjectIndexManifests) (operationId : String) (dataEpoch : Int)
    (building row : ProjectIndexManifestRow) : Prop where
  distinct : begun.Distinct
  active : begun.activeRows = manifests.activeRows
  found : begun.findOperation operationId = some row
  answers : building = { row with
    createdAt := building.createdAt
    parentDataEpoch := building.parentDataEpoch }
  ofEpoch : building.dataEpoch = dataEpoch
  notFailed : building.state ≠ .failed
  ofActive : building.state = .active →
    manifests.findOperation operationId = some building ∧ begun = manifests
  ofOld : ∀ old, manifests.findOperation operationId = some old → old.dataEpoch = dataEpoch ∧
    old.publicationEpoch = building.publicationEpoch ∧
    (old.state = .active → building.state = .active) ∧
    (old.state ≠ .failed → building.parentDataEpoch = row.parentDataEpoch) ∧
    (old.parentDataEpoch = none → building.parentDataEpoch = row.parentDataEpoch) ∧
    (old.state = .failed → building.parentDataEpoch = none)
  ofNew : manifests.findOperation operationId = none →
    building.parentDataEpoch = row.parentDataEpoch ∧
      ∀ other ∈ manifests.rows, other.publicationEpoch < building.publicationEpoch

theorem Distinct.begins (distinct : manifests.Distinct)
    (done : manifests.beginBuilding dataEpoch op now = .ok (building, begun)) :
    ∃ row, manifests.Begins begun op dataEpoch building row := by
  rw [beginBuilding] at done
  cases found : manifests.findOperation op with
  | none =>
    simp only [found] at done
    obtain ⟨same, inserted⟩ := Prod.mk.inj (Except.ok.inj done)
    subst inserted
    refine ⟨building, ?_⟩
    cases same
    constructor
    · exact distinct.insert found
    · show filter _ (_ :: _) = _
      rw [filter_cons, if_neg (by simp)]
      rfl
    · show find? _ (_ :: _) = _
      rw [find?_cons, decide_eq_true rfl]
    · rfl
    · rfl
    · exact fun isFailed => by cases isFailed
    · exact fun isActive => by cases isActive
    · exact fun old isOld => by cases found.symm.trans isOld
    · exact fun _ => ⟨rfl, fun other mem => manifests.lt_nextPublicationEpoch mem⟩
  | some existing =>
    simp only [found] at done
    have own := operationId_of_found found
    split_ifs at done with other isFailed
    · cases done
      refine ⟨{ existing with
        state := .building
        relationEpoch := 0
        candidateReady := false
        createdAt := now }, ?_⟩
      constructor
      · exact distinct.update fun _ => rfl
      · refine activeRows_update fun row mem changed => ?_
        rw [distinct.eq_of_found found mem (of_decide_eq_true changed), isFailed]
        exact ⟨by decide, fun isActive => by cases isActive⟩
      · refine (findOperation_update ?_).trans ?_
        · exact fun _ => rfl
        · rw [found, Option.map_some, updated, if_pos (decide_eq_true own)]
      · rfl
      · exact not_not.1 other
      · exact fun isFailed => by cases isFailed
      · exact fun isActive => by cases isActive
      · intro old isOld
        cases found.symm.trans isOld
        refine ⟨not_not.1 other, rfl, ?_, ?_, ?_, fun _ => rfl⟩
        · exact fun isActive => by rw [isFailed] at isActive; cases isActive
        · exact fun notFailed => absurd isFailed notFailed
        · exact fun unlinked => unlinked.symm
      · exact fun isNew => by cases found.symm.trans isNew
    · cases done
      refine ⟨_, distinct, rfl, found, rfl, not_not.1 other, isFailed,
        fun _ => ⟨found, rfl⟩, fun old isOld => ?_, fun isNew => ?_⟩
      · cases found.symm.trans isOld
        exact ⟨not_not.1 other, rfl, id, fun _ => rfl, fun _ => rfl,
          fun again => absurd again isFailed⟩
      · cases found.symm.trans isNew

section Publication

variable {relationEpoch : Int}

theorem carryParent_of_none
    (none : building.parentDataEpoch = none → manifests.carriedParent building.dataEpoch = none) :
    manifests.carryParent building = manifests := by
  rw [carryParent]
  cases linked : building.parentDataEpoch with
  | some parent => rfl
  | none =>
    have absent := none linked
    cases found : manifests.getActive with
    | none => rfl
    | some active =>
      rw [carriedParent, found] at absent
      cases link : active.parentDataEpoch with
      | none => simp only [link]
      | some parent =>
        simp only [link]
        rw [if_neg]
        rintro ⟨proper, same⟩
        simp [Option.filter, link, proper, same] at absent

theorem carryParent_of_some {parent : Int} (unlinked : building.parentDataEpoch = none)
    (carried : manifests.carriedParent building.dataEpoch = some parent) :
    manifests.carryParent building =
      manifests.update (fun row => row.publicationEpoch = building.publicationEpoch)
        fun row => { row with parentDataEpoch := some parent } := by
  rw [carriedParent, Option.bind_eq_some_iff] at carried
  obtain ⟨active, isActive, link⟩ := carried
  obtain ⟨found, same⟩ := Option.filter_eq_some_iff.1 isActive
  obtain ⟨linked, proper⟩ := Option.filter_eq_some_iff.1 link
  rw [carryParent, unlinked, found]
  simp only [linked]
  rw [if_pos ⟨of_decide_eq_true proper, of_decide_eq_true same⟩]

theorem Begins.carryParent (begins : manifests.Begins begun op dataEpoch building row)
    (idle : building.state ≠ .active) :
    (begun.carryParent building).Distinct ∧
    (begun.carryParent building).activeRows = manifests.activeRows ∧
    (begun.carryParent building).findOperation op = some { row with
      parentDataEpoch := if building.parentDataEpoch = none then
        begun.carriedParent dataEpoch <|> row.parentDataEpoch else row.parentDataEpoch } := by
  have answers := begins.answers
  by_cases kept : building.parentDataEpoch = none → begun.carriedParent building.dataEpoch = none
  · rw [carryParent_of_none kept]
    refine ⟨begins.distinct, begins.active, ?_⟩
    rw [begins.found]
    split_ifs with unlinked
    · rw [← begins.ofEpoch, kept unlinked]
      rfl
    · rfl
  · obtain ⟨unlinked, carries⟩ := Classical.not_imp.1 kept
    obtain ⟨parent, carried⟩ := Option.ne_none_iff_exists'.1 carries
    have own : row.publicationEpoch = building.publicationEpoch := by rw [answers]
    have stored := mem_of_find?_eq_some begins.found
    rw [carryParent_of_some unlinked carried]
    refine ⟨begins.distinct.update fun _ => rfl, ?_, ?_⟩
    · refine (activeRows_update fun other mem changed => ?_).trans begins.active
      have same := begun.eq_of_publicationEpoch mem stored
        ((of_decide_eq_true changed).trans own.symm)
      have state : row.state = building.state := by rw [answers]
      rw [same, state]
      exact ⟨idle, idle⟩
    · refine (findOperation_update ?_).trans ?_
      · exact fun _ => rfl
      · rw [begins.found, Option.map_some, updated, if_pos (decide_eq_true own), if_pos unlinked,
          ← begins.ofEpoch, carried]
        rfl

theorem findOperation_promote (found : manifests.findOperation op = some row)
    (isBuilding : row.state = .building) :
    (manifests.promote row.publicationEpoch relationEpoch).findOperation op =
      some (activated row relationEpoch) := by
  refine (findOperation_update ?_).trans ?_
  · exact fun _ => rfl
  · rw [found, Option.map_some, updated, if_pos (decide_eq_true ⟨rfl, isBuilding⟩)]
    rfl

theorem getActive_promote (mem : row ∈ manifests.rows) (isBuilding : row.state = .building)
    (newest : ∀ other ∈ manifests.activeRows, other.publicationEpoch < row.publicationEpoch) :
    (manifests.promote row.publicationEpoch relationEpoch).getActive =
      some (activated row relationEpoch) := by
  refine getActive_eq_some_iff.2 ⟨(mem_promote mem isBuilding).2 (Or.inl rfl), rfl, ?_⟩
  intro other otherMem newer isActive
  rcases (mem_promote mem isBuilding).1 otherMem with rfl | ⟨old, _⟩
  · exact absurd newer (lt_irrefl _)
  · have older := newest other (mem_activeRows.2 ⟨old, isActive⟩)
    exact absurd newer (not_lt_of_gt older)

theorem getActive_update_of_state {p : ProjectIndexManifestRow → Bool}
    {f : ProjectIndexManifestRow → ProjectIndexManifestRow}
    (states : ∀ row, (f row).state = row.state) :
    (manifests.update p f).getActive = manifests.getActive.map (updated p f) := by
  have sought : ((fun row : ProjectIndexManifestRow => decide (row.state = .active)) ∘
      updated p f) = fun row => decide (row.state = .active) := by
    funext row
    have same : (updated p f row).state = row.state := by
      rw [updated]
      split_ifs
      · exact states row
      · rfl
    rw [Function.comp_apply, same]
  rw [getActive, rows_update, find?_map, sought]
  rfl

end Publication

section Publications

def publicationOf (row : ProjectIndexManifestRow) : String × Int × Int :=
  (row.operationId, row.dataEpoch, row.relationEpoch)

def publications (manifests : ProjectIndexManifests) : List (String × Int × Int) :=
  manifests.activeRows.map publicationOf

theorem Begins.publications {begun : ProjectIndexManifests}
    (begins : Begins manifests begun op dataEpoch building row) :
    begun.publications = manifests.publications :=
  congrArg (map publicationOf) begins.active

theorem publications_update {p : ProjectIndexManifestRow → Bool}
    {f : ProjectIndexManifestRow → ProjectIndexManifestRow}
    (kept : ∀ row, row.state = .active → p row = true →
      (f row).state = .active ∧ publicationOf (f row) = publicationOf row) :
    manifests.publications ⊆ (manifests.update p f).publications := by
  intro publication mem
  obtain ⟨row, rowMem, rfl⟩ := mem_map.1 mem
  obtain ⟨listed, isActive⟩ := mem_activeRows.1 rowMem
  have stays : (updated p f row).state = .active ∧
      publicationOf (updated p f row) = publicationOf row := by
    rw [updated]
    split_ifs with changed
    · exact kept row isActive changed
    · exact ⟨isActive, rfl⟩
  exact mem_map.2
    ⟨_, mem_activeRows.2 ⟨mem_update.2 ⟨row, listed, rfl⟩, stays.1⟩, stays.2⟩

theorem publications_carryParent :
    (manifests.Distinct → (manifests.carryParent building).Distinct) ∧
      manifests.publications ⊆ (manifests.carryParent building).publications := by
  rw [carryParent]
  split
  · split
    · split_ifs
      · exact ⟨fun distinct => distinct.update fun _ => rfl,
          publications_update fun _ isActive _ => ⟨isActive, rfl⟩⟩
      · exact ⟨id, Subset.refl _⟩
    · exact ⟨id, Subset.refl _⟩
  · exact ⟨id, Subset.refl _⟩

theorem publications_update_building {p : ProjectIndexManifestRow → Prop} [DecidablePred p]
    {f : ProjectIndexManifestRow → ProjectIndexManifestRow} :
    manifests.publications ⊆
      (manifests.update (fun row => p row ∧ row.state = .building) f).publications := by
  refine publications_update fun row isActive changed => ?_
  have isBuilding := (of_decide_eq_true changed).2
  rw [isActive] at isBuilding
  cases isBuilding

end Publications

end ProjectIndexManifests

theorem activeRelationEpoch_activateRelation {tables activated : RelationTables}
    {relationEpoch : Int} (done : tables.activateRelation relationEpoch = .ok activated) :
    activated.activeRelationEpoch = tables.activeRelationEpoch ∨
      activated.activeRelationEpoch = some relationEpoch := by
  rw [RelationTables.activateRelation] at done
  split_ifs at done with proper
  · cases state : tables.stateOf relationEpoch with
    | none => simp only [state] at done; cases done
    | some kind =>
      cases kind <;> simp only [state, RelationTables.activate] at done <;> cases done
      · exact Or.inr rfl
      · exact Or.inl rfl
      · exact Or.inr rfl
  · cases done
    exact Or.inl rfl

theorem publishable_of_activateRelation {s : ManifestStore} {activated : RelationTables}
    {relationEpoch : Int}
    (done : s.tables.relations.activateRelation relationEpoch = .ok activated) :
    s.Publishable relationEpoch := by
  intro proper
  rw [RelationTables.activateRelation, if_pos proper] at done
  cases state : s.tables.relations.stateOf relationEpoch with
  | none => simp only [state] at done; cases done
  | some kind => cases kind <;> simp [state] at done ⊢

theorem ManifestAnswer.fromRow_eq {building row : ProjectIndexManifestRow}
    {fingerprint : Option String} {createdAt : Int} {parent : Option Int}
    (answers : building = { row with createdAt := createdAt, parentDataEpoch := parent })
    (same : parent = row.parentDataEpoch) :
    fromRow building fingerprint = fromRow row fingerprint := by
  rw [answers, same]
  rfl

namespace ManifestStore

variable {s next : ManifestStore} {answer : ManifestAnswer} {op : String}
  {dataEpoch relationEpoch now : Int} {input : Option String}

/-- Operations have one manifest each, and the meta rows agree with the active one. -/
structure Sound (s : ManifestStore) : Prop where
  distinct : s.tables.manifests.Distinct
  agrees : s.MetaAgrees

theorem sound_start (relations : RelationTables) : (start relations).Sound :=
  ⟨nodup_nil, rfl, rfl⟩

/-- The fingerprints that a begin leaves. -/
def fingerprintsOf (s : ManifestStore) (operationId : String) (inputFingerprint : Option String) :
    String → Option String :=
  if (s.tables.manifests.findOperation operationId).isSome then s.inputFingerprint
  else Function.update s.inputFingerprint operationId inputFingerprint

theorem beginBuilding_cases (done : s.beginBuilding dataEpoch op input now = .ok (answer, next)) :
    ∃ building begun, s.tables.manifests.beginBuilding dataEpoch op now = .ok (building, begun) ∧
      answer = .fromRow building (s.fingerprintsOf op input op) ∧
      next = { tables := { s.tables with manifests := begun }
               inputFingerprint := s.fingerprintsOf op input } := by
  rw [beginBuilding, bind_eq_ok] at done
  obtain ⟨⟨building, begun⟩, begins, done⟩ := done
  cases done
  exact ⟨building, begun, begins, rfl, rfl⟩

theorem Sound.of_activeRows (sound : s.Sound) {manifests : ProjectIndexManifests}
    (distinct : manifests.Distinct) (active : manifests.activeRows = s.tables.manifests.activeRows)
    (fingerprints : String → Option String) :
    ({ tables := { s.tables with manifests := manifests }
       inputFingerprint := fingerprints } : ManifestStore).Sound := by
  have same : manifests.getActive = s.tables.manifests.getActive := by
    rw [ProjectIndexManifests.getActive_eq_head, active, ProjectIndexManifests.getActive_eq_head]
  refine ⟨distinct, ?_, ?_⟩
  · show manifests.getActive.map _ = _
    rw [same]
    exact sound.agrees.1
  · show manifests.getActive.map _ = _
    rw [same]
    exact sound.agrees.2

theorem Sound.beginBuilding (sound : s.Sound)
    (done : s.beginBuilding dataEpoch op input now = .ok (answer, next)) :
    next.Sound := by
  obtain ⟨building, begun, begins, _, rfl⟩ := beginBuilding_cases done
  obtain ⟨row, spec⟩ := sound.distinct.begins begins
  exact sound.of_activeRows spec.distinct spec.active _

theorem Sound.beginBuilding_stored (sound : s.Sound)
    (admits : s.Admits (.beginBuilding dataEpoch op input now))
    (done : s.beginBuilding dataEpoch op input now = .ok (answer, next)) :
    next.Stored answer op := by
  obtain ⟨building, begun, begins, rfl, rfl⟩ := beginBuilding_cases done
  obtain ⟨row, spec⟩ := sound.distinct.begins begins
  refine ⟨row, spec.found, ManifestAnswer.fromRow_eq spec.answers ?_⟩
  cases found : s.tables.manifests.findOperation op with
  | none => exact (spec.ofNew found).1
  | some old =>
    obtain ⟨ofEpoch, _, _, ofKept, ofUnlinked, _⟩ := spec.ofOld old found
    by_cases isFailed : old.state = .failed
    · exact ofUnlinked (admits old found ofEpoch isFailed)
    · exact ofKept isFailed

/-- An activation that repeats itself, and one that publishes. -/
theorem activate_cases (done : s.activate dataEpoch relationEpoch op input now =
      .ok (answer, next)) :
    ∃ relations building begun, s.tables.relations.activateRelation relationEpoch = .ok relations ∧
      s.tables.manifests.beginBuilding dataEpoch op now = .ok (building, begun) ∧
      (building.state = .active ∧ building.relationEpoch = relationEpoch ∧
        answer = .fromRow building (s.fingerprintsOf op input op) ∧
        next = { tables := { s.tables with relations := relations }
                 inputFingerprint := s.fingerprintsOf op input } ∨
      building.state ≠ .active ∧ answer = .fromRow { building with
            relationEpoch := relationEpoch
            state := .active
            parentDataEpoch := building.parentDataEpoch <|> begun.carriedParent dataEpoch }
          input ∧
        next = {
          tables := { s.tables with
            manifests := (begun.carryParent building).promote building.publicationEpoch
              relationEpoch
            relations := relations.setActiveRelationEpoch relationEpoch
            epoch := some dataEpoch
            activeEpoch := some dataEpoch }
          inputFingerprint := Function.update (s.fingerprintsOf op input)
            op (input <|>
              s.fingerprintsOf op input op) }) := by
  rw [activate, bind_eq_ok] at done
  obtain ⟨tables, activates, done⟩ := done
  rw [bind_eq_ok] at done
  obtain ⟨⟨started, store⟩, opens, done⟩ := done
  obtain ⟨building, begun, begins, rfl, rfl⟩ := beginBuilding_cases opens
  rw [GenerationStore.activate, bind_eq_ok] at activates
  obtain ⟨relations, activated, activates⟩ := activates
  rw [begins, bind_eq_ok] at activates
  obtain ⟨_, same, activates⟩ := activates
  cases same
  refine ⟨relations, building, begun, activated, begins, ?_⟩
  have state : (ManifestAnswer.fromRow building
      (s.fingerprintsOf op input op)).state = building.state := rfl
  by_cases isActive : building.state = .active
  · left
    simp only [if_pos isActive] at activates
    simp only [state, if_pos isActive] at done
    split_ifs at activates with relation
    cases activates
    cases done
    exact ⟨isActive, relation, rfl, rfl⟩
  · right
    simp only [if_neg isActive] at activates
    simp only [state, if_neg isActive] at done
    cases activates
    cases done
    exact ⟨isActive, rfl, rfl⟩

/-- An activation by an operation that finds its manifest active, where that one counts. -/
theorem Sound.activate_again (sound : s.Sound) {building : ProjectIndexManifestRow}
    (isActive : s.tables.manifests.getActive = some building) {relations : RelationTables}
    (activated : s.tables.relations.activateRelation building.relationEpoch = .ok relations)
    (fingerprints : String → Option String) :
    ({ tables := { s.tables with relations := relations }
       inputFingerprint := fingerprints } : ManifestStore).Sound := by
  obtain ⟨epochs, relationEpochs⟩ := sound.agrees
  refine ⟨sound.distinct, epochs, ?_⟩
  show s.tables.manifests.getActive.map _ = relations.activeRelationEpoch
  rcases activeRelationEpoch_activateRelation activated with same | changed
  · rw [same]
    exact relationEpochs
  · rw [changed, isActive]
    rfl

theorem publishes_of_newest {begun : ProjectIndexManifests}
    {building row : ProjectIndexManifestRow} {relations : RelationTables}
    {fingerprints : String → Option String} (inactive : building.state ≠ .active)
    (spec : s.tables.manifests.Begins begun op dataEpoch building row)
    (newest : ∀ other ∈ s.tables.manifests.activeRows,
      other.publicationEpoch < building.publicationEpoch) :
    let next : ManifestStore := {
      tables := { s.tables with
        manifests := (begun.carryParent building).promote building.publicationEpoch relationEpoch
        relations := relations.setActiveRelationEpoch relationEpoch
        epoch := some dataEpoch
        activeEpoch := some dataEpoch }
      inputFingerprint := fingerprints }
    let published := { row with
      relationEpoch := relationEpoch
      state := .active
      parentDataEpoch := if building.parentDataEpoch = none then
        begun.carriedParent dataEpoch <|> row.parentDataEpoch else row.parentDataEpoch }
    next.Sound ∧ next.Publishes dataEpoch relationEpoch op ∧
      next.tables.manifests.findOperation op = some published := by
  intro next published
  obtain ⟨distinct, activeRows, found⟩ := spec.carryParent inactive
  have answers := spec.answers
  have isBuilding : row.state = .building := by
    have state : building.state = row.state := by rw [answers]
    rw [← state]
    cases kind : building.state with
    | building => rfl
    | active => exact absurd kind inactive
    | failed => exact absurd kind spec.notFailed
  have number : building.publicationEpoch = row.publicationEpoch := by rw [answers]
  have ofEpoch : row.dataEpoch = dataEpoch := by rw [← spec.ofEpoch, answers]
  have own : row.operationId = op :=
    ProjectIndexManifests.operationId_of_found spec.found
  have promoted : next.tables.manifests.getActive = some published := by
    show ((begun.carryParent building).promote building.publicationEpoch _).getActive = _
    rw [number]
    refine ProjectIndexManifests.getActive_promote (mem_of_find?_eq_some found) isBuilding ?_
    intro other mem
    rw [activeRows] at mem
    rw [← number]
    exact newest other mem
  refine ⟨⟨distinct.update fun _ => rfl, ?_, ?_⟩, ⟨published, promoted, own, ofEpoch, rfl⟩, ?_⟩
  · rw [promoted]
    exact congrArg some ofEpoch
  · rw [promoted]
    rfl
  · show ((begun.carryParent building).promote building.publicationEpoch _).findOperation _ = _
    rw [number]
    exact ProjectIndexManifests.findOperation_promote found isBuilding

theorem link_of_admitted {begun : ProjectIndexManifests} {building row : ProjectIndexManifestRow}
    (admits : s.Admits (.activate dataEpoch relationEpoch op input now))
    (publishable : s.Publishable relationEpoch) (inactive : building.state ≠ .active)
    (spec : s.tables.manifests.Begins begun op dataEpoch building row) :
    (building.parentDataEpoch <|> begun.carriedParent dataEpoch) =
      if building.parentDataEpoch = none then
        begun.carriedParent dataEpoch <|> row.parentDataEpoch else row.parentDataEpoch := by
  have carried : begun.carriedParent dataEpoch = s.tables.manifests.carriedParent dataEpoch := by
    rw [ProjectIndexManifests.carriedParent, ProjectIndexManifests.getActive_eq_head, spec.active,
      ← ProjectIndexManifests.getActive_eq_head]
    rfl
  -- The row keeps a link that the answer dropped only where the active one takes its place.
  have link : building.parentDataEpoch = row.parentDataEpoch ∨ building.parentDataEpoch = none ∧
      begun.carriedParent dataEpoch ≠ none := by
    cases found : s.tables.manifests.findOperation op with
    | none => exact Or.inl (spec.ofNew found).1
    | some old =>
      obtain ⟨ofEpoch, _, ofActive, ofKept, ofUnlinked, ofFailed⟩ := spec.ofOld old found
      by_cases isFailed : old.state = .failed
      · have idle : old.state ≠ .active := fun isActive => inactive (ofActive isActive)
        rcases ((admits old found ofEpoch publishable).2 idle).2.2 isFailed with unlinked | some
        · exact Or.inl (ofUnlinked unlinked)
        · exact Or.inr ⟨ofFailed isFailed, carried ▸ some⟩
      · exact Or.inl (ofKept isFailed)
  cases linked : building.parentDataEpoch with
  | some parent =>
    rcases link with same | ⟨unlinked, _⟩
    · rw [← same, linked, if_neg (by simp)]
      rfl
    · cases linked.symm.trans unlinked
  | none =>
    rw [if_pos rfl]
    rcases link with same | ⟨_, some⟩
    · rw [← same, linked]
      cases begun.carriedParent dataEpoch <;> rfl
    · obtain ⟨parent, carries⟩ := Option.ne_none_iff_exists'.1 some
      rw [carries]
      rfl

theorem fingerprint_of_admitted (admits : s.Admits (.activate dataEpoch relationEpoch op input now))
    (publishable : s.Publishable relationEpoch)
    (idle : ∀ old, s.tables.manifests.findOperation op = some old →
      old.dataEpoch = dataEpoch ∧ old.state ≠ .active) :
    input = (input <|> s.fingerprintsOf op input op) := by
  cases stated : input with
  | some fingerprint => rfl
  | none =>
    rw [fingerprintsOf]
    cases found : s.tables.manifests.findOperation op with
    | none =>
      rw [if_neg (by simp), Function.update_self]
      rfl
    | some old =>
      obtain ⟨ofEpoch, isIdle⟩ := idle old found
      have absent := ((admits old found ofEpoch publishable).2 isIdle).2.1 stated
      rw [if_pos Option.isSome_some, absent]
      rfl

theorem Sound.activate (sound : s.Sound)
    (admits : s.Admits (.activate dataEpoch relationEpoch op input now))
    (done : s.activate dataEpoch relationEpoch op input now = .ok (answer, next)) :
    next.Sound ∧ next.Stored answer op ∧
      next.Publishes dataEpoch relationEpoch op := by
  obtain ⟨relations, building, begun, activated, begins, outcome⟩ := activate_cases done
  obtain ⟨row, spec⟩ := sound.distinct.begins begins
  have publishable := publishable_of_activateRelation activated
  rcases outcome with ⟨isActive, rfl, rfl, rfl⟩ | ⟨inactive, rfl, rfl⟩
  · obtain ⟨found, _⟩ := spec.ofActive isActive
    have counts := (admits building found spec.ofEpoch publishable).1 isActive rfl
    have own := ProjectIndexManifests.operationId_of_found found
    exact ⟨sound.activate_again counts activated _, ⟨building, found, rfl⟩,
      building, counts, own, spec.ofEpoch, rfl⟩
  · have idle : ∀ old, s.tables.manifests.findOperation op = some old →
        old.dataEpoch = dataEpoch ∧ old.state ≠ .active := fun old found =>
      ⟨(spec.ofOld old found).1, fun isActive => inactive ((spec.ofOld old found).2.2.1 isActive)⟩
    have newest : ∀ other ∈ s.tables.manifests.activeRows,
        other.publicationEpoch < building.publicationEpoch := by
      intro other mem
      obtain ⟨listed, isActive⟩ := ProjectIndexManifests.mem_activeRows.1 mem
      cases found : s.tables.manifests.findOperation op with
      | none => exact (spec.ofNew found).2 other listed
      | some old =>
        obtain ⟨ofEpoch, isIdle⟩ := idle old found
        rw [← (spec.ofOld old found).2.1]
        exact ((admits old found ofEpoch publishable).2 isIdle).1 other listed isActive
    obtain ⟨soundNext, publishes, found⟩ := publishes_of_newest inactive spec newest
    refine ⟨soundNext, ⟨_, found, ?_⟩, publishes⟩
    have answers := spec.answers
    have link := link_of_admitted admits publishable inactive spec
    have fingerprint := fingerprint_of_admitted admits publishable idle
    show _ = ManifestAnswer.fromRow _ (Function.update (s.fingerprintsOf op input) op _ op)
    rw [Function.update_self, ← fingerprint, ← link]
    exact ManifestAnswer.fromRow_eq (by rw [answers]) rfl

theorem Sound.setParentDataEpoch (sound : s.Sound) (parentDataEpoch : Option Int) :
    (s.step (.setParentDataEpoch op parentDataEpoch)).Sound := by
  have active : (s.tables.manifests.setParentDataEpoch op parentDataEpoch).getActive =
      _ := ProjectIndexManifests.getActive_update_of_state fun _ => rfl
  have kept : ∀ row : ProjectIndexManifestRow, ∀ p,
      (ProjectIndexManifests.updated p (fun row => { row with
        parentDataEpoch := parentDataEpoch }) row).dataEpoch = row.dataEpoch ∧
      (ProjectIndexManifests.updated p (fun row => { row with
        parentDataEpoch := parentDataEpoch }) row).relationEpoch = row.relationEpoch := by
    intro row p
    rw [ProjectIndexManifests.updated]
    split_ifs <;> exact ⟨rfl, rfl⟩
  refine ⟨sound.distinct.update fun _ => rfl, ?_, ?_⟩
  · show (s.tables.manifests.setParentDataEpoch op parentDataEpoch).getActive.map _ = _
    rw [active, Option.map_map]
    refine Eq.trans ?_ sound.agrees.1
    exact congrArg (fun f => s.tables.manifests.getActive.map f) (funext fun row => (kept row _).1)
  · show (s.tables.manifests.setParentDataEpoch op parentDataEpoch).getActive.map _ = _
    rw [active, Option.map_map]
    refine Eq.trans ?_ sound.agrees.2
    exact congrArg (fun f => s.tables.manifests.getActive.map f) (funext fun row => (kept row _).2)

theorem Sound.markFailed (sound : s.Sound) : (s.step (.markFailed op)).Sound := by
  have distinct : (s.tables.manifests.markFailed op).Distinct :=
    sound.distinct.update fun _ => rfl
  refine sound.of_activeRows distinct ?_ s.inputFingerprint
  refine ProjectIndexManifests.activeRows_update fun row _ changed => ?_
  rw [(of_decide_eq_true changed).2]
  exact ⟨by decide, fun isActive => by cases isActive⟩

theorem Sound.step (sound : s.Sound) {call : ManifestCall} (admits : s.Admits call) :
    (s.step call).Sound ∧ s.Honest call := by
  cases call with
  | beginBuilding dataEpoch op input now =>
    cases done : s.beginBuilding dataEpoch op input now with
    | error message =>
      have failed : s.attempt (.beginBuilding dataEpoch op input now) =
          .error message := by rw [attempt, done]; rfl
      rw [ManifestStore.step, Honest, failed]
      exact ⟨sound, fun _ _ ok => by cases ok⟩
    | ok result =>
      obtain ⟨answer, next⟩ := result
      have succeeded : s.attempt (.beginBuilding dataEpoch op input now) =
          .ok (some answer, next) := by rw [attempt, done]; rfl
      rw [ManifestStore.step, Honest, succeeded]
      refine ⟨sound.beginBuilding done, fun _ _ ok => ?_⟩
      cases ok
      refine ⟨fun manifest same => ?_, trivial⟩
      cases same
      exact sound.beginBuilding_stored admits done
  | setParentDataEpoch op parentDataEpoch =>
    refine ⟨sound.setParentDataEpoch parentDataEpoch, fun answer next ok => ?_⟩
    cases ok
    exact ⟨(fun _ none => by cases none), trivial⟩
  | activate dataEpoch relationEpoch op input now =>
    cases done : s.activate dataEpoch relationEpoch op input now with
    | error message =>
      have failed : s.attempt (.activate dataEpoch relationEpoch op input
          now) = .error message := by rw [attempt, done]; rfl
      rw [ManifestStore.step, Honest, failed]
      exact ⟨sound, fun _ _ ok => by cases ok⟩
    | ok result =>
      obtain ⟨answer, next⟩ := result
      have succeeded : s.attempt (.activate dataEpoch relationEpoch op
          input now) = .ok (some answer, next) := by rw [attempt, done]; rfl
      obtain ⟨soundNext, stored, publishes⟩ := sound.activate admits done
      rw [ManifestStore.step, Honest, succeeded]
      refine ⟨soundNext, fun _ _ ok => ?_⟩
      cases ok
      refine ⟨fun manifest same => ?_, publishes⟩
      cases same
      exact stored
  | markFailed op =>
    refine ⟨sound.markFailed, fun answer next ok => ?_⟩
    cases ok
    exact ⟨(fun _ none => by cases none), trivial⟩

/-- A run of admitted calls: the meta rows agree with the active manifest in every state, every
call answers with what it stored, and every activation is the one that counts. -/
theorem calls_agree (relations : RelationTables) (calls : List ManifestCall)
    (admitted : EveryStep step Admits (start relations) calls) :
    (∀ reached, reached <+: calls → (reached.foldl step (start relations)).MetaAgrees) ∧
      EveryStep step Honest (start relations) calls := by
  have kept : ∀ s call, Admits s call → Sound s → Sound (step s call) :=
    fun s call admits sound => (sound.step admits).1
  have honest : ∀ s call, Admits s call → Sound s → Honest s call :=
    fun s call admits sound => (sound.step admits).2
  constructor
  · intro reached initial
    have sound := invariant kept (sound_start relations) (admitted.of_prefix initial)
    exact sound.agrees
  · exact admitted.with_invariant kept honest (sound_start relations)

private def publishTwice : List ManifestCall :=
  [.beginBuilding 1 "full" (some "sources") 0, .activate 1 0 "full" (some "sources") 1,
    .activate 1 0 "full" (some "sources") 2]

/-- A run in which every call is admitted. -/
theorem calls_agree_publishTwice :
    ((publishTwice.foldl step (start .empty)).MetaAgrees ∧
      EveryStep step Honest (start .empty) publishTwice) := by
  have admitted : EveryStep step Admits (start .empty) publishTwice := by
    refine ⟨fun row found => ?_, fun row found => ?_, fun row found => ?_, trivial⟩
    · cases found
    · have same : some row = some _ := found.symm
      cases same
      refine fun _ _ => ⟨fun isActive => (by cases isActive), fun _ =>
        ⟨fun other mem isActive => ?_, fun absent => (by cases absent),
          fun isFailed => (by cases isFailed)⟩⟩
      obtain rfl := mem_singleton.1 mem
      cases isActive
    · have same : some row = some _ := found.symm
      cases same
      exact fun _ _ => ⟨fun _ _ => rfl, fun idle => absurd rfl idle⟩
  have agree := calls_agree .empty publishTwice admitted
  exact ⟨agree.1 publishTwice (prefix_refl _), agree.2⟩

/-- An operation that failed publishes after a newer one: the meta rows follow it, the active
manifest stays. -/
private def lateRetry : List ManifestCall :=
  [.beginBuilding 1 "first" none 0, .markFailed "first", .activate 2 0 "second" none 1,
    .activate 1 0 "first" none 2]

theorem calls_disagree :
    ¬ (lateRetry.foldl step (start .empty)).MetaAgrees := by
  rintro ⟨epochs, _⟩
  revert epochs
  decide

theorem publications_step (s : ManifestStore) (call : ManifestCall)
    (distinct : s.tables.manifests.Distinct) : (s.step call).tables.manifests.Distinct ∧
      s.tables.manifests.publications ⊆ (s.step call).tables.manifests.publications := by
  cases call with
  | beginBuilding dataEpoch op input now =>
    rw [ManifestStore.step, attempt]
    cases done : s.beginBuilding dataEpoch op input now with
    | error message => exact ⟨distinct, Subset.refl _⟩
    | ok result =>
      obtain ⟨answer, next⟩ := result
      obtain ⟨building, begun, begins, -, rfl⟩ := beginBuilding_cases done
      obtain ⟨row, spec⟩ := distinct.begins begins
      refine ⟨spec.distinct, ?_⟩
      rw [← spec.publications]
      exact Subset.refl _
  | setParentDataEpoch op parentDataEpoch =>
    exact ⟨distinct.update fun _ => rfl,
      ProjectIndexManifests.publications_update fun _ isActive _ => ⟨isActive, rfl⟩⟩
  | activate dataEpoch relationEpoch op input now =>
    rw [ManifestStore.step, attempt]
    cases done : s.activate dataEpoch relationEpoch op input now with
    | error message => exact ⟨distinct, Subset.refl _⟩
    | ok result =>
      obtain ⟨answer, next⟩ := result
      obtain ⟨_, building, begun, -, begins, outcome⟩ := activate_cases done
      obtain ⟨row, spec⟩ := distinct.begins begins
      rcases outcome with ⟨-, -, -, rfl⟩ | ⟨-, -, rfl⟩
      · exact ⟨distinct, Subset.refl _⟩
      · obtain ⟨carried, kept⟩ :=
          @ProjectIndexManifests.publications_carryParent begun building
        refine ⟨(carried spec.distinct).update fun _ => rfl, fun publication mem => ?_⟩
        rw [← spec.publications] at mem
        exact ProjectIndexManifests.publications_update_building (kept mem)
  | markFailed op =>
    exact ⟨distinct.update fun _ => rfl, ProjectIndexManifests.publications_update_building⟩

/-- In every run, an operation has one manifest, and what it has published stays published at the
same epochs, whatever is called afterwards. -/
theorem publications_stay (relations : RelationTables) (calls later : List ManifestCall) :
    (calls.foldl step (start relations)).tables.manifests.Distinct ∧
      (calls.foldl step (start relations)).tables.manifests.publications ⊆
        ((calls ++ later).foldl step (start relations)).tables.manifests.publications := by
  have distinct : ∀ calls : List ManifestCall,
      (calls.foldl step (start relations)).tables.manifests.Distinct := fun calls =>
    foldlRecOn calls step (motive := fun s => s.tables.manifests.Distinct) nodup_nil
      fun s distinct call _ => (publications_step s call distinct).1
  refine ⟨distinct calls, ?_⟩
  induction later using reverseRecOn with
  | nil =>
    rw [append_nil]
    exact Subset.refl _
  | append_singleton later call ih =>
    rw [← append_assoc, foldl_append]
    exact fun _ mem => (publications_step _ call (distinct _)).2 (ih mem)

end ManifestStore

end ContextEngine

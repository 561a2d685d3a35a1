/- digest: The published generation among the manifests, and what the transactions do to it. -/

import ContextEngine.Storage.ProjectManifests

set_option autoImplicit false

namespace ContextEngine

open List

namespace ProjectIndexManifests

variable {manifests : ProjectIndexManifests} {active row : ProjectIndexManifestRow}
  {op : String}

section Lists

variable {α : Type} {l : List α} {g : α → α} {p : α → Bool}

theorem find?_map_of_fixes (same : ∀ x ∈ l, p (g x) = p x)
    (fixes : ∀ x ∈ l, p x = true → g x = x) : (l.map g).find? p = l.find? p := by
  induction l with
  | nil => rfl
  | cons x l ih =>
    rw [map_cons, find?_cons, find?_cons, same x mem_cons_self]
    cases found : p x with
    | true => rw [fixes x mem_cons_self found]
    | false =>
      exact ih (fun y mem => same y (mem_cons_of_mem _ mem))
        fun y mem => fixes y (mem_cons_of_mem _ mem)

end Lists

section Rows

variable {p : ProjectIndexManifestRow → Bool}
  {f : ProjectIndexManifestRow → ProjectIndexManifestRow}

def updated (p : ProjectIndexManifestRow → Bool)
    (f : ProjectIndexManifestRow → ProjectIndexManifestRow) (row : ProjectIndexManifestRow) :
    ProjectIndexManifestRow :=
  if p row then { f row with publicationEpoch := row.publicationEpoch } else row

theorem rows_update : (manifests.update p f).rows = manifests.rows.map (updated p f) := rfl

theorem updated_of_not (kept : p row = false) : updated p f row = row := by
  rw [updated, kept]
  rfl

theorem mem_update : row ∈ (manifests.update p f).rows ↔
    ∃ old ∈ manifests.rows, updated p f old = row := by
  rw [rows_update, mem_map]

theorem mem_update_of_ne (own : ∀ row, p row = true → row.operationId = op)
    (ids : ∀ row, (f row).operationId = row.operationId) (other : row.operationId ≠ op) :
    row ∈ (manifests.update p f).rows ↔ row ∈ manifests.rows := by
  rw [mem_update]
  constructor
  · rintro ⟨old, mem, rfl⟩
    cases changed : p old with
    | false => rwa [updated_of_not changed]
    | true =>
      refine absurd ?_ other
      rw [updated, changed, if_pos rfl]
      exact (ids old).trans (own old changed)
  · intro mem
    refine ⟨row, mem, updated_of_not ?_⟩
    exact Bool.eq_false_iff.2 fun changed => other (own row changed)

section Single

variable {old : ProjectIndexManifestRow} (mem : old ∈ manifests.rows) (own : p old = true)
  (only : ∀ other ∈ manifests.rows, p other = true → other = old)

include mem own only

theorem mem_update_single : row ∈ (manifests.update p f).rows ↔
    row = { f old with publicationEpoch := old.publicationEpoch } ∨
      row ∈ manifests.rows ∧ row ≠ old := by
  rw [mem_update]
  constructor
  · rintro ⟨other, otherMem, rfl⟩
    by_cases same : other = old
    · subst same
      exact Or.inl (if_pos own)
    · rw [updated_of_not (Bool.eq_false_iff.2 fun changed => same (only other otherMem changed))]
      exact Or.inr ⟨otherMem, same⟩
  · rintro (rfl | ⟨kept, different⟩)
    · exact ⟨old, mem, if_pos own⟩
    · exact ⟨row, kept, updated_of_not (Bool.eq_false_iff.2 fun changed =>
        different (only row kept changed))⟩

theorem mem_update_single_of_ne (epoch : (f old).dataEpoch = old.dataEpoch)
    (away : row.dataEpoch ≠ old.dataEpoch) :
    row ∈ (manifests.update p f).rows ↔ row ∈ manifests.rows := by
  rw [mem_update_single mem own only, or_iff_right]
  · exact and_iff_left fun same => away (same ▸ rfl)
  · rintro rfl
    exact away epoch

end Single

theorem parentDataEpochOf_update (epochs : ∀ row, (f row).dataEpoch = row.dataEpoch)
    {dataEpoch : Int} (links : ∀ row ∈ manifests.rows, p row = true → row.dataEpoch = dataEpoch →
      (f row).parentDataEpoch = row.parentDataEpoch) :
    (manifests.update p f).parentDataEpochOf dataEpoch = manifests.parentDataEpochOf dataEpoch := by
  have kept : ∀ row, (updated p f row).dataEpoch = row.dataEpoch := by
    intro row
    rw [updated]
    split_ifs
    · exact epochs row
    · rfl
  have sought : ((fun row : ProjectIndexManifestRow => decide (row.dataEpoch = dataEpoch)) ∘
      updated p f) = fun row => decide (row.dataEpoch = dataEpoch) :=
    funext fun row => by rw [Function.comp_apply, kept]
  rw [parentDataEpochOf, parentDataEpochOf, rows_update, find?_map, sought]
  cases found : manifests.rows.find? fun row => decide (row.dataEpoch = dataEpoch) with
  | none => rfl
  | some row =>
    show (updated p f row).parentDataEpoch = row.parentDataEpoch
    have ofEpoch : row.dataEpoch = dataEpoch := by simpa using find?_some found
    cases changed : p row with
    | false => rw [updated_of_not changed]
    | true =>
      rw [updated, if_pos changed]
      exact links row (mem_of_find?_eq_some found) changed ofEpoch

end Rows

/-- The published generation of a project: the newest active manifest. Operations have one manifest
each, links go down to proper epochs, and the parent of the published generation is a full one. -/
structure Published (manifests : ProjectIndexManifests) (active : ProjectIndexManifestRow) :
    Prop where
  distinct : (manifests.rows.map ProjectIndexManifestRow.operationId).Nodup
  isActive : manifests.getActive = some active
  proper : 0 < active.dataEpoch
  below : ∀ row ∈ manifests.rows, row.state = .active → row.dataEpoch ≤ active.dataEpoch
  links : ∀ row ∈ manifests.rows, ∀ parent, row.parentDataEpoch = some parent →
    0 < parent ∧ parent < row.dataEpoch
  shallow : ∀ parent, active.parentDataEpoch = some parent →
    manifests.parentDataEpochOf parent = none

namespace Published

section

variable (published : manifests.Published active)

include published

theorem mem : active ∈ manifests.rows :=
  mem_of_find?_eq_some published.isActive

theorem state : active.state = .active :=
  by simpa using find?_some published.isActive

theorem eq_of_operationId {other : ProjectIndexManifestRow} (mem : row ∈ manifests.rows)
    (otherMem : other ∈ manifests.rows) (same : row.operationId = other.operationId) :
    row = other :=
  inj_on_of_nodup_map published.distinct mem otherMem same

theorem findOperation_eq (mem : row ∈ manifests.rows) :
    manifests.findOperation row.operationId = some row := by
  cases found : manifests.findOperation row.operationId with
  | none =>
    have absent := find?_eq_none.1 found row mem
    exact absurd (decide_eq_true rfl) absent
  | some other =>
    have same : other.operationId = row.operationId := by simpa using find?_some found
    rw [published.eq_of_operationId (mem_of_find?_eq_some found) mem same]

theorem update {p : ProjectIndexManifestRow → Bool}
    {f : ProjectIndexManifestRow → ProjectIndexManifestRow}
    (ids : ∀ row, (f row).operationId = row.operationId)
    (epochs : ∀ row, (f row).dataEpoch = row.dataEpoch)
    (idle : ∀ row ∈ manifests.rows, p row = true → row.state ≠ .active ∧ (f row).state ≠ .active)
    (linked : ∀ row ∈ manifests.rows, p row = true → ∀ parent,
      (f row).parentDataEpoch = some parent → 0 < parent ∧ parent < row.dataEpoch)
    (apart : ∀ row ∈ manifests.rows, p row = true →
      active.parentDataEpoch = some row.dataEpoch → (f row).parentDataEpoch = row.parentDataEpoch) :
    (manifests.update p f).Published active := by
  have cases_updated : ∀ row, updated p f row = row ∨ p row = true ∧
      (updated p f row).operationId = row.operationId ∧
      (updated p f row).dataEpoch = row.dataEpoch ∧
      (updated p f row).state = (f row).state ∧
      (updated p f row).parentDataEpoch = (f row).parentDataEpoch := by
    intro row
    cases changed : p row with
    | false => exact Or.inl (updated_of_not changed)
    | true =>
      right
      rw [updated, changed, if_pos rfl]
      exact ⟨rfl, ids row, epochs row, rfl, rfl⟩
  have dataEpoch : ∀ row, (updated p f row).dataEpoch = row.dataEpoch := fun row =>
    (cases_updated row).elim (congrArg _) fun changed => changed.2.2.1
  constructor
  · have same : (manifests.update p f).rows.map ProjectIndexManifestRow.operationId =
        manifests.rows.map ProjectIndexManifestRow.operationId := by
      rw [rows_update, map_map]
      refine map_congr_left fun row _ => ?_
      exact (cases_updated row).elim (congrArg _) fun changed => changed.2.1
    rw [same]
    exact published.distinct
  · rw [getActive, rows_update, find?_map_of_fixes]
    · exact published.isActive
    · intro row mem
      rcases cases_updated row with same | ⟨changed, _, _, state, _⟩
      · rw [same]
      · rw [state]
        obtain ⟨before, after⟩ := idle row mem changed
        rw [decide_eq_false before, decide_eq_false after]
    · intro row mem isActive
      rcases cases_updated row with same | ⟨changed, _⟩
      · exact same
      · exact absurd (of_decide_eq_true isActive) (idle row mem changed).1
  · exact published.proper
  · intro row mem isActive
    obtain ⟨old, oldMem, rfl⟩ := mem_update.1 mem
    rw [dataEpoch]
    rcases cases_updated old with same | ⟨changed, _, _, state, _⟩
    · exact published.below old oldMem (same ▸ isActive)
    · exact absurd (state ▸ isActive) (idle old oldMem changed).2
  · intro row mem parent link
    obtain ⟨old, oldMem, rfl⟩ := mem_update.1 mem
    rw [dataEpoch]
    rcases cases_updated old with same | ⟨changed, _, _, _, parents⟩
    · exact published.links old oldMem parent (same ▸ link)
    · exact linked old oldMem changed parent (parents ▸ link)
  · intro parent link
    rw [parentDataEpochOf_update epochs fun row mem changed ofParent =>
      apart row mem changed (ofParent ▸ link)]
    exact published.shallow parent link

theorem insert (fresh : manifests.findOperation row.operationId = none) (idle : row.state ≠ .active)
    (unlinked : row.parentDataEpoch = none) (apart : active.parentDataEpoch ≠ some row.dataEpoch) :
    (manifests.insert row).Published active := by
  constructor
  · refine nodup_cons.2 ⟨fun again => ?_, published.distinct⟩
    obtain ⟨old, mem, same⟩ := mem_map.1 again
    exact find?_eq_none.1 fresh old mem (decide_eq_true same)
  · show find? _ (_ :: _) = _
    rw [find?_cons, decide_eq_false idle]
    exact published.isActive
  · exact published.proper
  · intro old mem isActive
    rcases mem_cons.1 mem with rfl | older
    · exact absurd isActive idle
    · exact published.below old older isActive
  · intro old mem parent link
    rcases mem_cons.1 mem with rfl | older
    · rw [show _ = none from unlinked] at link
      cases link
    · exact published.links old older parent link
  · intro parent link
    have before := published.shallow parent link
    rw [parentDataEpochOf] at before ⊢
    show (find? _ (_ :: _)).bind _ = none
    have other : row.dataEpoch ≠ parent := fun same => apart (same ▸ link)
    rw [find?_cons, decide_eq_false other]
    exact before

theorem markFailed (op : String) :
    (manifests.markFailed op).Published active := by
  refine published.update (fun _ => rfl) (fun _ => rfl) (fun row _ changed => ?_)
    (fun row mem _ => published.links row mem) fun _ _ _ _ => rfl
  refine ⟨fun isActive => ?_, fun isActive => by cases isActive⟩
  rw [isActive] at changed
  exact absurd (of_decide_eq_true changed).2 (by decide)

end

end Published

section Begin

variable {dataEpoch now : Int} {building : ProjectIndexManifestRow} {begun : ProjectIndexManifests}

theorem beginBuilding_cases
    (done : manifests.beginBuilding dataEpoch op now = .ok (building, begun)) :
    (building ∈ manifests.rows ∧ building.operationId = op ∧
      building.dataEpoch = dataEpoch ∧ building.state ≠ .failed ∧ begun = manifests) ∨
    (∃ old ∈ manifests.rows, old.operationId = op ∧ old.dataEpoch = dataEpoch ∧
      old.state = .failed ∧
      building = { old with
        state := .building
        relationEpoch := 0
        candidateReady := false
        parentDataEpoch := none } ∧
      begun = manifests.update (fun row => row.operationId = op) fun row =>
        { row with
          state := .building
          relationEpoch := 0
          candidateReady := false
          createdAt := now }) ∨
    (manifests.findOperation op = none ∧ building.operationId = op ∧
      building.dataEpoch = dataEpoch ∧ building.state = .building ∧
      building.parentDataEpoch = none ∧
      building.publicationEpoch = manifests.nextPublicationEpoch ∧
      begun = manifests.insert building) := by
  rw [beginBuilding] at done
  cases found : manifests.findOperation op with
  | none =>
    simp only [found] at done
    cases done
    exact Or.inr (Or.inr ⟨rfl, rfl, rfl, rfl, rfl, rfl, rfl⟩)
  | some existing =>
    simp only [found] at done
    have mem := mem_of_find?_eq_some found
    have own : existing.operationId = op := by simpa using find?_some found
    split_ifs at done with other isFailed
    · cases done
      exact Or.inr (Or.inl ⟨existing, mem, own, not_not.1 other, isFailed, rfl, rfl⟩)
    · cases done
      exact Or.inl ⟨mem, own, not_not.1 other, isFailed, rfl⟩

theorem Published.beginBuilding (published : manifests.Published active)
    (above : active.dataEpoch < dataEpoch)
    (done : manifests.beginBuilding dataEpoch op now = .ok (building, begun)) :
    begun.Published active ∧
    (∃ row ∈ begun.rows, row.operationId = op ∧ row.dataEpoch = dataEpoch ∧ row.state = .building) ∧
    ∀ row : ProjectIndexManifestRow, row.operationId ≠ op →
      (row ∈ begun.rows ↔ row ∈ manifests.rows) := by
  have apart : active.parentDataEpoch ≠ some dataEpoch := fun link => by
    have low := (published.links active published.mem _ link).2
    omega
  rcases beginBuilding_cases done with ⟨mem, own, epoch, notFailed, rfl⟩ |
    ⟨old, mem, own, epoch, isFailed, rfl, rfl⟩ | ⟨fresh, own, epoch, isBuilding, unlinked, _, rfl⟩
  · refine ⟨published, ⟨building, mem, own, epoch, ?_⟩, fun _ _ => Iff.rfl⟩
    cases state : building.state with
    | building => rfl
    | failed => exact absurd state notFailed
    | active =>
      have low := published.below building mem state
      omega
  · have onlyOld : ∀ row ∈ manifests.rows, decide (row.operationId = op) = true →
        row = old := fun row rowMem changed =>
      published.eq_of_operationId rowMem mem ((of_decide_eq_true changed).trans own.symm)
    refine ⟨published.update (fun _ => rfl) (fun _ => rfl) (fun row rowMem changed => ?_)
      (fun row rowMem _ => published.links row rowMem) fun _ _ _ _ => rfl, ?_, fun row other => ?_⟩
    · rw [onlyOld row rowMem changed, isFailed]
      exact ⟨by decide, fun isActive => by cases isActive⟩
    · refine ⟨_, mem_update.2 ⟨old, mem, rfl⟩, ?_⟩
      rw [updated, if_pos (decide_eq_true own)]
      exact ⟨own, epoch, rfl⟩
    · exact mem_update_of_ne (fun _ => of_decide_eq_true) (fun _ => rfl) other
  · refine ⟨published.insert (own ▸ fresh) (by rw [isBuilding]; decide) unlinked (epoch ▸ apart),
      ⟨_, mem_cons_self, own, epoch, isBuilding⟩, fun row other => ?_⟩
    exact mem_cons.trans (or_iff_right fun same => other (same ▸ own))

theorem Published.register (published : manifests.Published active)
    (done : manifests.beginBuilding (active.dataEpoch + 1) op now = .ok (building, begun)) :
    let registered := (begun.setParentDataEpoch op
      (some active.dataEpoch)).markCandidateReady op
    registered.Published active ∧
    (∃ row ∈ registered.rows, row.operationId = op ∧
      row.dataEpoch = active.dataEpoch + 1 ∧ row.parentDataEpoch = some active.dataEpoch) ∧
    ∀ row : ProjectIndexManifestRow, row.operationId ≠ op →
      (row ∈ registered.rows ↔ row ∈ manifests.rows) := by
  intro registered
  obtain ⟨begins, ⟨own, mem, ownId, ownEpoch, ownState⟩, others⟩ :=
    published.beginBuilding (by omega) done
  have onlyOwn : ∀ row ∈ begun.rows, decide (row.operationId = op) = true → row = own :=
    fun row rowMem changed =>
      begins.eq_of_operationId rowMem mem ((of_decide_eq_true changed).trans ownId.symm)
  have links : (begun.setParentDataEpoch op (some active.dataEpoch)).Published active := by
    refine begins.update (fun _ => rfl) (fun _ => rfl) (fun row rowMem changed => ?_)
      (fun row rowMem changed parent link => ?_) fun row rowMem changed link => ?_
    · rw [onlyOwn row rowMem changed, ownState]
      exact ⟨by decide, by decide⟩
    · cases link
      rw [onlyOwn row rowMem changed, ownEpoch]
      exact ⟨published.proper, by omega⟩
    · rw [onlyOwn row rowMem changed, ownEpoch] at link
      have low := (published.links active published.mem _ link).2
      omega
  refine ⟨links.update (fun _ => rfl) (fun _ => rfl) (fun row _ changed => ?_)
    (fun row rowMem _ => links.links row rowMem) fun _ _ _ _ => rfl, ?_, fun row other => ?_⟩
  · rw [(of_decide_eq_true changed).2]
    exact ⟨by decide, by decide⟩
  · refine ⟨_, mem_update.2 ⟨_, mem_update.2 ⟨own, mem, rfl⟩, rfl⟩, ?_⟩
    rw [updated, updated, if_pos (decide_eq_true ownId), if_pos (decide_eq_true ⟨ownId, ownState⟩)]
    exact ⟨ownId, ownEpoch, rfl⟩
  · rw [← others row other]
    have ready : ∀ row : ProjectIndexManifestRow,
        decide (row.operationId = op ∧ row.state = .building) = true →
          row.operationId = op := fun row changed => (of_decide_eq_true changed).1
    have linked : row ∈ (begun.setParentDataEpoch op (some active.dataEpoch)).rows ↔
        row ∈ begun.rows := mem_update_of_ne (fun _ => of_decide_eq_true) (fun _ => rfl) other
    have marked : row ∈ registered.rows ↔
        row ∈ (begun.setParentDataEpoch op (some active.dataEpoch)).rows :=
      mem_update_of_ne ready (fun _ => rfl) other
    exact marked.trans linked

end Begin

section Publication

theorem getActive_eq_some_iff : manifests.getActive = some active ↔
    active ∈ manifests.rows ∧ active.state = .active ∧
      ∀ row ∈ manifests.rows, active.publicationEpoch < row.publicationEpoch →
        row.state ≠ .active := by
  have descending := manifests.descending
  constructor
  · intro found
    obtain ⟨isActive, newer, older, rows, before⟩ := find?_eq_some_iff_append.1 found
    refine ⟨rows ▸ mem_append_right _ mem_cons_self, of_decide_eq_true isActive,
      fun row mem lt => ?_⟩
    rw [rows, pairwise_append, pairwise_cons] at descending
    rw [rows] at mem
    rcases mem_append.1 mem with isNewer | rest
    · simpa using before row isNewer
    · rcases mem_cons.1 rest with rfl | isOlder
      · exact absurd lt (lt_irrefl _)
      · exact absurd lt (not_lt_of_gt (descending.2.1.1 row isOlder))
  · rintro ⟨mem, isActive, newest⟩
    obtain ⟨newer, older, rows⟩ := append_of_mem mem
    refine find?_eq_some_iff_append.2
      ⟨decide_eq_true isActive, newer, older, rows, fun row isNewer => ?_⟩
    rw [rows, pairwise_append] at descending
    have lt := descending.2.2 row isNewer active mem_cons_self
    have idle := newest row (rows ▸ mem_append_left _ isNewer) lt
    rw [decide_eq_false idle]
    rfl

def activated (row : ProjectIndexManifestRow) (relationEpoch : Int) : ProjectIndexManifestRow :=
  { row with relationEpoch := relationEpoch, state := .active }

def promote (manifests : ProjectIndexManifests) (publicationEpoch relationEpoch : Int) :
    ProjectIndexManifests :=
  manifests.update (fun row => row.publicationEpoch = publicationEpoch ∧ row.state = .building)
    fun row => activated row relationEpoch

variable {relationEpoch : Int}

theorem mem_promote (mem : row ∈ manifests.rows) (isBuilding : row.state = .building)
    {other : ProjectIndexManifestRow} :
    other ∈ (manifests.promote row.publicationEpoch relationEpoch).rows ↔
      other = activated row relationEpoch ∨ other ∈ manifests.rows ∧ other ≠ row :=
  mem_update_single mem (decide_eq_true ⟨rfl, isBuilding⟩) fun _ oldMem changed =>
    manifests.eq_of_publicationEpoch oldMem mem (of_decide_eq_true changed).1

theorem operationIds_promote {publicationEpoch : Int} :
    (manifests.promote publicationEpoch relationEpoch).rows.map
      ProjectIndexManifestRow.operationId =
    manifests.rows.map ProjectIndexManifestRow.operationId := by
  rw [promote, rows_update, map_map]
  refine map_congr_left fun row _ => ?_
  rw [Function.comp_apply, updated]
  split_ifs <;> rfl

private theorem parentDataEpochOf_promote {publicationEpoch : Int} (dataEpoch : Int) :
    (manifests.promote publicationEpoch relationEpoch).parentDataEpochOf dataEpoch =
      manifests.parentDataEpochOf dataEpoch :=
  parentDataEpochOf_update (f := fun row => activated row relationEpoch) (fun _ => rfl)
    fun _ _ _ _ => rfl

theorem Published.promote_newer (published : manifests.Published active)
    (mem : row ∈ manifests.rows) (isBuilding : row.state = .building)
    (newer : active.publicationEpoch < row.publicationEpoch)
    (above : active.dataEpoch ≤ row.dataEpoch)
    (shallow : ∀ parent, row.parentDataEpoch = some parent →
      manifests.parentDataEpochOf parent = none) :
    (manifests.promote row.publicationEpoch relationEpoch).Published
      (activated row relationEpoch) := by
  have newest := (getActive_eq_some_iff.1 published.isActive).2.2
  constructor
  · rw [operationIds_promote]
    exact published.distinct
  · rw [getActive_eq_some_iff, mem_promote mem isBuilding]
    refine ⟨Or.inl rfl, rfl, fun other otherMem lt => ?_⟩
    rcases (mem_promote mem isBuilding).1 otherMem with rfl | ⟨old, _⟩
    · exact absurd lt (lt_irrefl _)
    · exact newest other old (newer.trans lt)
  · exact published.proper.trans_le above
  · intro other otherMem isActive
    rcases (mem_promote mem isBuilding).1 otherMem with rfl | ⟨old, _⟩
    · exact le_refl _
    · exact (published.below other old isActive).trans above
  · intro other otherMem
    rcases (mem_promote mem isBuilding).1 otherMem with rfl | ⟨old, _⟩
    · exact published.links row mem
    · exact published.links other old
  · intro parent link
    rw [parentDataEpochOf_promote]
    exact shallow parent link

theorem Published.promote_older (published : manifests.Published active)
    (mem : row ∈ manifests.rows) (isBuilding : row.state = .building)
    (older : row.publicationEpoch < active.publicationEpoch)
    (below : row.dataEpoch ≤ active.dataEpoch) :
    (manifests.promote row.publicationEpoch relationEpoch).Published active := by
  obtain ⟨activeMem, isActive, newest⟩ := getActive_eq_some_iff.1 published.isActive
  constructor
  · rw [operationIds_promote]
    exact published.distinct
  · rw [getActive_eq_some_iff, mem_promote mem isBuilding]
    refine ⟨Or.inr ⟨activeMem, fun same => ?_⟩, isActive, fun other otherMem lt => ?_⟩
    · rw [same] at older
      exact absurd older (lt_irrefl _)
    · rcases (mem_promote mem isBuilding).1 otherMem with rfl | ⟨old, _⟩
      · exact absurd lt (not_lt_of_gt older)
      · exact newest other old lt
  · exact published.proper
  · intro other otherMem otherActive
    rcases (mem_promote mem isBuilding).1 otherMem with rfl | ⟨old, _⟩
    · exact below
    · exact published.below other old otherActive
  · intro other otherMem
    rcases (mem_promote mem isBuilding).1 otherMem with rfl | ⟨old, _⟩
    · exact published.links row mem
    · exact published.links other old
  · intro parent link
    rw [parentDataEpochOf_promote]
    exact published.shallow parent link

theorem Published.unlink (published : manifests.Published active) :
    (manifests.setParentDataEpoch active.operationId none).Published
      { active with parentDataEpoch := none } := by
  have only : ∀ row ∈ manifests.rows, decide (row.operationId = active.operationId) = true →
      row = active := fun row mem changed =>
    published.eq_of_operationId mem published.mem (of_decide_eq_true changed)
  have members : ∀ row, row ∈ (manifests.setParentDataEpoch active.operationId none).rows →
      row = { active with parentDataEpoch := none } ∨ row ∈ manifests.rows := fun row mem =>
    ((mem_update_single published.mem (decide_eq_true rfl) only).1 mem).imp_right And.left
  obtain ⟨_, isActive, newest⟩ := getActive_eq_some_iff.1 published.isActive
  constructor
  · rw [setParentDataEpoch, rows_update, map_map]
    refine (map_congr_left fun row _ => ?_) ▸ published.distinct
    rw [Function.comp_apply, updated]
    split_ifs <;> rfl
  · rw [getActive_eq_some_iff]
    refine ⟨mem_update.2 ⟨active, published.mem, ?_⟩, isActive, fun row mem lt => ?_⟩
    · rw [updated, if_pos (decide_eq_true rfl)]
    · rcases members row mem with rfl | old
      · exact absurd lt (lt_irrefl _)
      · exact newest row old lt
  · exact published.proper
  · intro row mem rowActive
    rcases members row mem with rfl | old
    · exact le_refl _
    · exact published.below row old rowActive
  · intro row mem parent link
    rcases members row mem with rfl | old
    · cases link
    · exact published.links row old parent link
  · intro parent link
    cases link

end Publication

theorem Published.publish {relationEpoch now : Int} {building : ProjectIndexManifestRow}
    {begun : ProjectIndexManifests} (published : manifests.Published active)
    (mem : row ∈ manifests.rows) (isBuilding : row.state = .building)
    (epoch : row.dataEpoch = active.dataEpoch + 1)
    (link : row.parentDataEpoch = some active.dataEpoch)
    (newer : active.publicationEpoch < row.publicationEpoch)
    (full : manifests.parentDataEpochOf active.dataEpoch = none)
    (done : manifests.beginBuilding (active.dataEpoch + 1) row.operationId now =
      .ok (building, begun)) :
    building = row ∧ begun = manifests ∧
      ((begun.carryParent building).promote building.publicationEpoch relationEpoch).Published
        (activated row relationEpoch) := by
  have found := published.findOperation_eq mem
  rw [ProjectIndexManifests.beginBuilding] at done
  simp only [found] at done
  rw [if_neg (not_not.2 epoch), if_neg (by rw [isBuilding]; decide)] at done
  cases done
  have kept : manifests.carryParent row = manifests := by
    rw [ProjectIndexManifests.carryParent, link]
  rw [kept]
  refine ⟨rfl, rfl, published.promote_newer mem isBuilding newer (by omega) fun parent linked => ?_⟩
  rw [link] at linked
  cases linked
  exact full

section Republication

variable {building : ProjectIndexManifestRow} {relationEpoch now : Int}

section

variable (published : manifests.Published active)

include published

private theorem carryParent_cases (same : building.dataEpoch = active.dataEpoch) :
    manifests.carryParent building = manifests ∧
      (building.parentDataEpoch = none → active.parentDataEpoch = none) ∨
    ∃ parent, active.parentDataEpoch = some parent ∧ manifests.carryParent building =
        manifests.update (fun row => row.publicationEpoch = building.publicationEpoch) fun row =>
          { row with parentDataEpoch := some parent } := by
  rw [carryParent, published.isActive]
  cases own : building.parentDataEpoch with
  | some parent => exact Or.inl ⟨rfl, fun absent => by cases absent⟩
  | none =>
    cases link : active.parentDataEpoch with
    | none =>
      refine Or.inl ⟨?_, fun _ => rfl⟩
      simp only [link]
    | some parent =>
      simp only [link]
      rw [if_pos ⟨(published.links active published.mem parent link).1, same.symm⟩]
      exact Or.inr ⟨parent, rfl, rfl⟩

private theorem Published.carryParent
    (mem : row ∈ manifests.rows) (isBuilding : row.state = .building)
    (own : row.publicationEpoch = building.publicationEpoch)
    (rowEpoch : row.dataEpoch = active.dataEpoch)
    (buildingEpoch : building.dataEpoch = active.dataEpoch) :
    (manifests.carryParent building).Published active ∧
    (∃ carried ∈ (manifests.carryParent building).rows,
      carried.publicationEpoch = row.publicationEpoch ∧ carried.dataEpoch = row.dataEpoch ∧
      carried.state = .building ∧ (building.parentDataEpoch = none → row.parentDataEpoch = none →
        carried.parentDataEpoch = active.parentDataEpoch)) ∧
    ∀ other : ProjectIndexManifestRow, other.dataEpoch ≠ active.dataEpoch →
      (other ∈ (manifests.carryParent building).rows ↔ other ∈ manifests.rows) := by
  rcases carryParent_cases published buildingEpoch with ⟨kept, unlinked⟩ | ⟨parent, link, carried⟩
  · rw [kept]
    refine ⟨published, ⟨row, mem, rfl, rfl, isBuilding, fun noLink rowNoLink => ?_⟩,
      fun _ _ => Iff.rfl⟩
    rw [rowNoLink, unlinked noLink]
  · have only : ∀ old ∈ manifests.rows,
        decide (old.publicationEpoch = building.publicationEpoch) = true → old = row :=
      fun old oldMem changed => manifests.eq_of_publicationEpoch oldMem mem
        ((of_decide_eq_true changed).trans own.symm)
    have low := published.links active published.mem parent link
    rw [carried]
    refine ⟨published.update (fun _ => rfl) (fun _ => rfl) (fun old oldMem changed => ?_)
      (fun old oldMem changed p linked => ?_) (fun old oldMem changed linked => ?_), ?_, ?_⟩
    · rw [only old oldMem changed, isBuilding]
      exact ⟨by decide, by decide⟩
    · cases linked
      rw [only old oldMem changed, rowEpoch]
      exact low
    · rw [only old oldMem changed, rowEpoch, link] at linked
      cases linked
      exact absurd low.2 (lt_irrefl _)
    · exact ⟨{ row with parentDataEpoch := some parent },
        mem_update.2 ⟨row, mem, if_pos (decide_eq_true own)⟩, rfl, rfl, isBuilding,
        fun _ _ => link.symm⟩
    · intro other different
      exact mem_update_single_of_ne mem (decide_eq_true own) only rfl (rowEpoch ▸ different)

private theorem Published.promote_carried
    (mem : row ∈ manifests.rows) (isBuilding : row.state = .building)
    (rowEpoch : row.dataEpoch = active.dataEpoch)
    (placed : row.publicationEpoch < active.publicationEpoch ∨
      active.publicationEpoch < row.publicationEpoch ∧
        row.parentDataEpoch = active.parentDataEpoch) :
    ∃ next, (manifests.promote row.publicationEpoch relationEpoch).Published next ∧
      next.dataEpoch = active.dataEpoch ∧ next.parentDataEpoch = active.parentDataEpoch := by
  rcases placed with older | ⟨newer, link⟩
  · exact ⟨active, published.promote_older mem isBuilding older rowEpoch.le, rfl, rfl⟩
  · refine ⟨_, published.promote_newer mem isBuilding newer rowEpoch.ge fun parent linked => ?_,
      rowEpoch, link⟩
    exact published.shallow parent (link ▸ linked)

theorem Published.republish {begun : ProjectIndexManifests}
    (done : manifests.beginBuilding active.dataEpoch op now = .ok (building, begun))
    (inactive : building.state ≠ .active)
    (old : ∀ row ∈ manifests.rows, row.operationId = op →
      row.publicationEpoch ≤ active.publicationEpoch) :
    (∃ next, ((begun.carryParent building).promote building.publicationEpoch
        relationEpoch).Published next ∧
      next.dataEpoch = active.dataEpoch ∧ next.parentDataEpoch = active.parentDataEpoch) ∧
    ∀ row : ProjectIndexManifestRow, row.dataEpoch ≠ active.dataEpoch →
      (row ∈ ((begun.carryParent building).promote building.publicationEpoch relationEpoch).rows ↔
        row ∈ manifests.rows) := by
  have promoted : ∀ {current : ProjectIndexManifests} {carried : ProjectIndexManifestRow},
      carried ∈ current.rows → carried.state = .building →
      carried.dataEpoch = active.dataEpoch → ∀ other : ProjectIndexManifestRow,
        other.dataEpoch ≠ active.dataEpoch →
        (other ∈ (current.promote carried.publicationEpoch relationEpoch).rows ↔
          other ∈ current.rows) := by
    intro current carried mem isBuilding epoch other different
    exact mem_update_single_of_ne mem (decide_eq_true ⟨rfl, isBuilding⟩) (fun _ oldMem changed =>
      current.eq_of_publicationEpoch oldMem mem (of_decide_eq_true changed).1) rfl
      (epoch ▸ different)
  have finish : begun.Published active → (∀ other : ProjectIndexManifestRow,
      other.dataEpoch ≠ active.dataEpoch → (other ∈ begun.rows ↔ other ∈ manifests.rows)) →
      building.dataEpoch = active.dataEpoch →
      (∃ row ∈ begun.rows, row.state = .building ∧
        row.publicationEpoch = building.publicationEpoch ∧ row.dataEpoch = active.dataEpoch ∧
        (row.publicationEpoch < active.publicationEpoch ∨
          active.publicationEpoch < row.publicationEpoch ∧ building.parentDataEpoch = none ∧
            row.parentDataEpoch = none)) →
      (∃ next, ((begun.carryParent building).promote building.publicationEpoch
          relationEpoch).Published next ∧
        next.dataEpoch = active.dataEpoch ∧ next.parentDataEpoch = active.parentDataEpoch) ∧
      ∀ row : ProjectIndexManifestRow, row.dataEpoch ≠ active.dataEpoch →
        (row ∈ ((begun.carryParent building).promote building.publicationEpoch
          relationEpoch).rows ↔ row ∈ manifests.rows) := by
    rintro begins others epoch ⟨row, mem, isBuilding, own, rowEpoch, placed⟩
    obtain ⟨links, ⟨carried, carriedMem, carriedOwn, carriedEpoch, carriedBuilding, carriedLink⟩,
      kept⟩ := begins.carryParent mem isBuilding own rowEpoch epoch
    rw [← own, ← carriedOwn]
    refine ⟨links.promote_carried carriedMem carriedBuilding (carriedEpoch.trans rowEpoch) ?_,
      fun other different => ?_⟩
    · rw [carriedOwn]
      exact placed.imp_right fun newer => ⟨newer.1, carriedLink newer.2.1 newer.2.2⟩
    · rw [promoted carriedMem carriedBuilding (carriedEpoch.trans rowEpoch) other different,
        kept other different, others other different]
  rcases beginBuilding_cases done with ⟨mem, own, epoch, notFailed, rfl⟩ |
    ⟨failed, mem, own, epoch, isFailed, rfl, rfl⟩ |
    ⟨fresh, own, epoch, isBuilding, unlinked, newest, rfl⟩
  · have isBuilding : building.state = .building := by
      cases state : building.state with
      | building => rfl
      | failed => exact absurd state notFailed
      | active => exact absurd state inactive
    have different : building.publicationEpoch ≠ active.publicationEpoch := fun same =>
      inactive (begun.eq_of_publicationEpoch mem published.mem same ▸ published.state)
    exact finish published (fun _ _ => Iff.rfl) epoch
      ⟨building, mem, isBuilding, rfl, epoch, Or.inl (lt_of_le_of_ne (old _ mem own) different)⟩
  · have only : ∀ row ∈ manifests.rows, decide (row.operationId = op) = true →
        row = failed := fun row rowMem changed =>
      published.eq_of_operationId rowMem mem ((of_decide_eq_true changed).trans own.symm)
    have different : failed.publicationEpoch ≠ active.publicationEpoch := fun same => by
      have isActive := published.state
      rw [← manifests.eq_of_publicationEpoch mem published.mem same, isFailed] at isActive
      cases isActive
    have older := lt_of_le_of_ne (old failed mem own) different
    refine finish (published.update (fun _ => rfl) (fun _ => rfl) (fun row rowMem changed => ?_)
      (fun row rowMem _ => published.links row rowMem) fun _ _ _ _ => rfl)
      (fun other away => ?_) epoch ⟨{ failed with
        state := .building
        relationEpoch := 0
        candidateReady := false
        createdAt := now }, mem_update.2 ⟨failed, mem, if_pos (decide_eq_true own)⟩, rfl,
          rfl, epoch,
        Or.inl older⟩
    · rw [only row rowMem changed, isFailed]
      exact ⟨by decide, fun isActive => by cases isActive⟩
    · exact mem_update_single_of_ne mem (decide_eq_true own) only rfl (epoch ▸ away)
  · have apart : active.parentDataEpoch ≠ some building.dataEpoch := fun link => by
      have low := (published.links active published.mem _ link).2
      omega
    have newer : active.publicationEpoch < building.publicationEpoch :=
      newest ▸ manifests.lt_nextPublicationEpoch published.mem
    refine finish (published.insert (own ▸ fresh) (by rw [isBuilding]; decide) unlinked apart)
      (fun other away => ?_) epoch ⟨_, mem_cons_self, isBuilding, newest.symm, epoch,
        Or.inr ⟨newest ▸ newer, unlinked, unlinked⟩⟩
    exact mem_cons.trans (or_iff_right fun same => away (same ▸ epoch))

end

end Republication

end ProjectIndexManifests

theorem GenerationStore.activate_cases {store published : GenerationStore}
    {dataEpoch relationEpoch : Int} {op : String} {now : Int}
    (done : store.activate dataEpoch relationEpoch op now = .ok published) :
    published.rows = store.rows ∧ ∃ building begun,
      store.manifests.beginBuilding dataEpoch op now = .ok (building, begun) ∧
      (building.state = .active ∧ published.manifests = store.manifests ∧
          published.epoch = store.epoch ∧ published.activeEpoch = store.activeEpoch ∨
        building.state ≠ .active ∧ published.manifests =
          (begun.carryParent building).promote building.publicationEpoch relationEpoch ∧
          published.epoch = some dataEpoch ∧ published.activeEpoch = some dataEpoch) := by
  rw [GenerationStore.activate, Runs.bind_eq_ok] at done
  obtain ⟨relations, _, done⟩ := done
  rw [Runs.bind_eq_ok] at done
  obtain ⟨⟨building, begun⟩, begins, done⟩ := done
  dsimp only at done
  split_ifs at done with isActive same
  · cases done
    exact ⟨rfl, building, begun, begins, Or.inl ⟨isActive, rfl, rfl, rfl⟩⟩
  · cases done
    exact ⟨rfl, building, begun, begins, Or.inr ⟨isActive, rfl, rfl, rfl⟩⟩

end ContextEngine

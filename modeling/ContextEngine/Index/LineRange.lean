/- digest: The line range lookup over the ordered rows of a file against a scan of its entities. -/

import ContextEngine.Index.Operations
import ContextEngine.Delta.EdgeRoundTrip
import ContextEngine.Delta.RecordRoundTrip

set_option autoImplicit false

namespace ContextEngine

open RelationIndex HashMap List Runs

namespace RelationIndex

section Lookup

variable (index : RelationIndex)

def meetsLines (startLine endLine : Nat) (id : EntityId) : Bool :=
  match index.functionIndex.lookup id with
  | some entity =>
    decide (entity.span.startPosition.row ≤ endLine) &&
      decide (startLine ≤ entity.span.endPosition.row)
  | none => false

variable {startLine endLine : Nat} {index : RelationIndex} {id : EntityId}

theorem meetsLines_iff :
    index.meetsLines startLine endLine id = true ↔
      ∃ entity, index.functionIndex.lookup id = some entity ∧
        entity.span.startPosition.row ≤ endLine ∧ startLine ≤ entity.span.endPosition.row := by
  unfold meetsLines
  cases index.functionIndex.lookup id with
  | none => simp
  | some entity => simp

def scanLineRange (filePath : String) (startLine endLine : Nat) :
    List EntityId :=
  ((index.entityFileIndex.toList.filter fun entry => entry.2 = filePath).map Prod.fst).filter
    (index.meetsLines startLine endLine)

theorem mem_scanLineRange {path : String} :
    id ∈ index.scanLineRange path startLine endLine ↔ index.meetsLines startLine endLine id = true ∧
        index.entityFileIndex.lookup id = some path := by
  unfold scanLineRange
  rw [mem_filter, and_comm]
  refine and_congr_right fun _ => ?_
  simp only [mem_map, mem_filter, decide_eq_true_eq, Prod.exists, mem_toList]
  constructor
  · rintro ⟨other, file, ⟨found, rfl⟩, rfl⟩
    exact found
  · exact fun found => ⟨id, path, ⟨found, rfl⟩, rfl⟩

theorem mem_getEntitiesInLineRange {path : String} :
    id ∈ index.getEntitiesInLineRange path startLine endLine ↔
      index.meetsLines startLine endLine id = true ∧
        if rowsAt index.fileEntitiesByStart path = [] then
          index.entityFileIndex.lookup id = some path
        else id ∈ ((rowsAt index.fileEntitiesByStart path).takeWhile fun item =>
          decide ((ofLex item).1 ≤ endLine)).map fun item => (ofLex item).2 := by
  have scan : id ∈ ((index.entityFileIndex.toList.filter fun entry => entry.2 = path).map
      Prod.fst).filter (index.meetsLines startLine endLine) ↔
      index.meetsLines startLine endLine id = true ∧
        index.entityFileIndex.lookup id = some path := mem_scanLineRange
  unfold getEntitiesInLineRange rowsAt
  simp only
  cases index.fileEntitiesByStart.lookup path with
  | none => exact scan
  | some rows =>
    simp only [Option.getD_some]
    have empty : rows.isEmpty = true ↔ rows.toList = [] := isEmpty_iff
    by_cases bare : rows.toList = []
    · rw [if_pos (empty.2 bare), if_pos bare]
      exact scan
    · rw [if_neg fun none => bare (empty.1 none), if_neg bare, mem_filter, and_comm]
      exact Iff.rfl

def LinesExact : Prop :=
  ∀ path startLine endLine id,
    id ∈ index.getEntitiesInLineRange path startLine endLine ↔
      id ∈ index.scanLineRange path startLine endLine

end Lookup

end RelationIndex

section Served

theorem mem_takeWhile_rowsAt {rows : HashMap String FileRows} {path : String} {endLine : Nat}
    {item : Nat ×ₗ EntityId} :
    item ∈ (rowsAt rows path).takeWhile (fun item => decide ((ofLex item).1 ≤ endLine)) ↔
      item ∈ rowsAt rows path ∧ (ofLex item).1 ≤ endLine := by
  have cut : ∀ items : List (Nat ×ₗ EntityId), items.Pairwise (· < ·) →
      (item ∈ items.takeWhile (fun item => decide ((ofLex item).1 ≤ endLine)) ↔
        item ∈ items ∧ (ofLex item).1 ≤ endLine) := by
    intro items
    induction items with
    | nil => simp
    | cons first items ih =>
      intro sorted
      obtain ⟨before, sorted⟩ := pairwise_cons.1 sorted
      have rest := ih sorted
      by_cases early : (ofLex first).1 ≤ endLine
      · rw [takeWhile_cons_of_pos (by simpa using early), mem_cons, rest,
          mem_cons]
        constructor
        · rintro (rfl | ⟨mem, le⟩)
          · exact ⟨Or.inl rfl, early⟩
          · exact ⟨Or.inr mem, le⟩
        · rintro ⟨rfl | mem, le⟩
          · exact Or.inl rfl
          · exact Or.inr ⟨mem, le⟩
      · rw [takeWhile_cons_of_neg (by simpa using early)]
        refine ⟨fun mem => absurd mem not_mem_nil, ?_⟩
        rintro ⟨mem, le⟩
        rcases mem_cons.1 mem with rfl | later
        · exact absurd le early
        · have order : (ofLex first).1 ≤ (ofLex item).1 :=
            (Prod.Lex.lt_iff.1 (before item later)).elim Nat.le_of_lt fun same => same.1.le
          omega
  exact cut _ ((rows.lookup path).getD ∅).sorted

/-- The tables a line range lookup reads. -/
structure LineTables where
  functions : HashMap EntityId Entity
  files : HashMap EntityId String
  rows : HashMap String FileRows

def RelationIndex.lineTables (index : RelationIndex) : LineTables :=
  ⟨index.functionIndex, index.entityFileIndex, index.fileEntitiesByStart⟩

/-- The rows of an entity lie in its own file, and where that file has rows, one of them is not
after the start of the entity. -/
structure Served (rows : HashMap String FileRows) (id : EntityId) (file : Option String)
    (start : Nat) : Prop where
  own : ∀ path, ∀ item ∈ rowsAt rows path, (ofLex item).2 = id → file = some path
  found : ∀ path, file = some path → rowsAt rows path ≠ [] →
    ∃ item ∈ rowsAt rows path, (ofLex item).2 = id ∧ (ofLex item).1 ≤ start

def LineTables.Listed (tables : LineTables) : Prop :=
  ∀ id entity, tables.functions.lookup id = some entity →
    Served tables.rows id (tables.files.lookup id) entity.span.startPosition.row

/-- Every live entity of an index is served. -/
def RelationIndex.Listed (index : RelationIndex) : Prop := index.lineTables.Listed

theorem RelationIndex.LinesExact.served {index : RelationIndex} (exact_ : index.LinesExact)
    {id : EntityId} {entity : Entity} (live : index.functionIndex.lookup id = some entity) :
    Served index.fileEntitiesByStart id (index.entityFileIndex.lookup id)
      entity.span.startPosition.row where
  own path item mem same := by
    have meets : index.meetsLines 0 (max entity.span.startPosition.row (ofLex item).1) id = true :=
      meetsLines_iff.2 ⟨entity, live, le_max_left _ _, Nat.zero_le _⟩
    have listed : id ∈ index.getEntitiesInLineRange path 0
        (max entity.span.startPosition.row (ofLex item).1) := by
      refine mem_getEntitiesInLineRange.2 ⟨meets, ?_⟩
      rw [if_neg (ne_nil_of_mem mem)]
      exact mem_map.2 ⟨item, mem_takeWhile_rowsAt.2 ⟨mem, le_max_right _ _⟩, same⟩
    exact (mem_scanLineRange.1 ((exact_ _ _ _ _).1 listed)).2
  found path filed some := by
    have meets : index.meetsLines 0 entity.span.startPosition.row id = true :=
      meetsLines_iff.2 ⟨entity, live, le_rfl, Nat.zero_le _⟩
    have listed : id ∈ index.getEntitiesInLineRange path 0 entity.span.startPosition.row :=
      (exact_ _ _ _ _).2 (mem_scanLineRange.2 ⟨meets, filed⟩)
    have cut := (mem_getEntitiesInLineRange.1 listed).2
    rw [if_neg some] at cut
    obtain ⟨item, kept, same⟩ := mem_map.1 cut
    obtain ⟨mem, le⟩ := mem_takeWhile_rowsAt.1 kept
    exact ⟨item, mem, same, le⟩

/-- The lookup equals the scan exactly where every live entity is served. -/
theorem RelationIndex.linesExact_iff_listed {index : RelationIndex} :
    index.LinesExact ↔ index.Listed := by
  refine ⟨fun exact_ id entity live => exact_.served live, fun listed path first last id => ?_⟩
  rw [mem_getEntitiesInLineRange, mem_scanLineRange]
  refine and_congr_right fun meets => ?_
  obtain ⟨entity, live, starts, -⟩ := meetsLines_iff.1 meets
  have served : Served index.fileEntitiesByStart id (index.entityFileIndex.lookup id)
      entity.span.startPosition.row := listed id entity live
  split_ifs with bare
  · exact Iff.rfl
  · constructor
    · intro cut
      obtain ⟨item, kept, same⟩ := mem_map.1 cut
      exact served.own path item (mem_takeWhile_rowsAt.1 kept).1 same
    · intro filed
      obtain ⟨item, mem, same, le⟩ := served.found path filed bare
      exact mem_map.2 ⟨item, mem_takeWhile_rowsAt.2 ⟨mem, le.trans starts⟩, same⟩

end Served

section Steps

namespace LineTables

theorem Listed.lose {before after : LineTables} (listed : before.Listed)
    (live : ∀ id entity, after.functions.lookup id = some entity →
      before.functions.lookup id = some entity ∧ after.files.lookup id = before.files.lookup id)
    (fewer : ∀ path, ∀ item ∈ rowsAt after.rows path, item ∈ rowsAt before.rows path)
    (kept : ∀ path, rowsAt after.rows path ≠ [] → ∀ item ∈ rowsAt before.rows path,
      (after.functions.lookup (ofLex item).2).isSome → item ∈ rowsAt after.rows path) :
    after.Listed := by
  intro id entity stored
  obtain ⟨standing, sameFile⟩ := live id entity stored
  have served := listed id entity standing
  rw [sameFile]
  refine ⟨fun path item mem => served.own path item (fewer path item mem), ?_⟩
  intro path filed some
  obtain ⟨first, rest⟩ := exists_mem_of_ne_nil _ some
  obtain ⟨item, mem, same, le⟩ :=
    served.found path filed (ne_nil_of_mem (fewer path first rest))
  exact ⟨item, kept path some item mem (by rw [same, stored]; rfl), same, le⟩

def untracked (tables : LineTables) (id : EntityId) : HashMap String FileRows :=
  match tables.functions.lookup id, tables.files.lookup id with
  | some _, some filePath => untrackFileEntity tables.rows filePath id
  | _, _ => tables.rows

variable {tables : LineTables} {id : EntityId}

theorem fewer_untracked {path : String}
    {item : Nat ×ₗ EntityId} (mem : item ∈ rowsAt (tables.untracked id) path) :
    item ∈ rowsAt tables.rows path := by
  unfold untracked at mem
  split at mem
  · exact (mem_rowsAt_untrackFileEntity.1 mem).1
  · exact mem

theorem kept_untracked {path : String}
    {item : Nat ×ₗ EntityId} (mem : item ∈ rowsAt tables.rows path) (other : (ofLex item).2 ≠ id) :
    item ∈ rowsAt (tables.untracked id) path := by
  unfold untracked
  split
  · refine mem_rowsAt_untrackFileEntity.2 ⟨mem, ?_⟩
    rintro ⟨-, first⟩
    exact other (by simpa using find?_some first)
  · exact mem

theorem Listed.drop (listed : tables.Listed) (id : EntityId) (files : HashMap EntityId String)
    (kept : ∀ other, other ≠ id → files.lookup other = tables.files.lookup other) :
    LineTables.Listed ⟨tables.functions.erase id, files, tables.untracked id⟩ := by
  have alive : ∀ other entity, (tables.functions.erase id).lookup other = some entity →
      other ≠ id ∧ tables.functions.lookup other = some entity := by
    intro other entity stored
    rw [lookup_erase_eq] at stored
    split_ifs at stored with same
    exact ⟨same, stored⟩
  refine listed.lose (fun other entity stored => ?_) (fun path item => fewer_untracked) ?_
  · obtain ⟨distinct, standing⟩ := alive other entity stored
    exact ⟨standing, kept other distinct⟩
  · intro path _ item mem stored
    obtain ⟨entity, found⟩ := Option.isSome_iff_exists.1 stored
    exact kept_untracked mem (alive _ entity found).1

/-- Where an entity stored anew leaves the rows right: no row of it stands outside its file, the
row at its place is its own only if one of its rows is not after its start, and a file without
rows has no other live entity, which the new row would hide. -/
structure PlaceKeepsLines (tables : LineTables) (rows : HashMap String FileRows) (id : EntityId)
    (entity : Entity) (filePath : String) : Prop where
  own : ∀ path, ∀ item ∈ rowsAt rows path, (ofLex item).2 = id → path = filePath
  reach : rowStands rows filePath (asU32 entity.span.startPosition.row) id = true →
    ∃ item ∈ rowsAt rows filePath,
      (ofLex item).2 = id ∧ (ofLex item).1 ≤ entity.span.startPosition.row
  alone : rowsAt rows filePath = [] →
    ∀ other, other ≠ id → (tables.functions.lookup other).isSome →
      tables.files.lookup other ≠ some filePath

theorem Listed.place (listed : tables.Listed)
    {rows : HashMap String FileRows} {entity : Entity} {filePath : String}
    (fewer : ∀ path, ∀ item ∈ rowsAt rows path, item ∈ rowsAt tables.rows path)
    (kept : ∀ path, ∀ item ∈ rowsAt tables.rows path, (ofLex item).2 ≠ id → item ∈ rowsAt rows path)
    (keeps : PlaceKeepsLines tables rows id entity filePath) :
    LineTables.Listed ⟨tables.functions.insert id entity, tables.files.insert id filePath,
      trackFileEntity rows filePath (asU32 entity.span.startPosition.row) id⟩ := by
  intro other stored found
  simp only at found ⊢
  rw [lookup_insert_eq] at found ⊢
  by_cases same : other = id
  · rw [if_pos same] at found ⊢
    obtain rfl := Option.some.inj found
    subst same
    refine ⟨fun path item mem own => ?_, fun path filed _ => ?_⟩
    · rcases mem_rowsAt_trackFileEntity.1 mem with ⟨rfl, -, -⟩ | before
      · rfl
      · rw [keeps.own path item before own]
    · obtain rfl := Option.some.inj filed
      cases stands : rowStands rows filePath (asU32 entity.span.startPosition.row) other with
      | true =>
        obtain ⟨item, mem, own, le⟩ := keeps.reach stands
        exact ⟨item, mem_rowsAt_trackFileEntity.2 (Or.inr mem), own, le⟩
      | false =>
        exact ⟨toLex (asU32 entity.span.startPosition.row, other),
          mem_rowsAt_trackFileEntity.2 (Or.inl ⟨rfl, stands, rfl⟩), rfl, Nat.mod_le _ _⟩
  · rw [if_neg same] at found ⊢
    have served := listed other stored found
    refine ⟨fun path item mem own => ?_, fun path filed some => ?_⟩
    · rcases mem_rowsAt_trackFileEntity.1 mem with ⟨-, -, rfl⟩ | before
      · exact absurd own.symm same
      · exact served.own path item (fewer path item before) own
    · -- A file whose only row is the new one would hide `other`.
      have some' : rowsAt rows path ≠ [] := by
        intro bare
        obtain ⟨first, mem⟩ := exists_mem_of_ne_nil _ some
        rcases mem_rowsAt_trackFileEntity.1 mem with ⟨rfl, -, -⟩ | before
        · exact keeps.alone bare other same (by rw [found]; rfl) filed
        · rw [bare] at before
          cases before
      obtain ⟨first, standing⟩ := exists_mem_of_ne_nil _ some'
      obtain ⟨item, mem, own, le⟩ :=
        served.found path filed (ne_nil_of_mem (fewer path first standing))
      exact ⟨item, mem_rowsAt_trackFileEntity.2 (Or.inr (kept path item mem (own ▸ same))), own, le⟩

theorem Listed.insert (listed : tables.Listed)
    {entity : Entity}
    (served : Served tables.rows id (tables.files.lookup id) entity.span.startPosition.row) :
    LineTables.Listed ⟨tables.functions.insert id entity, tables.files, tables.rows⟩ := by
  intro other stored found
  simp only at found ⊢
  rw [lookup_insert_eq] at found
  split_ifs at found with same
  · obtain rfl := Option.some.inj found
    exact same ▸ served
  · exact listed other stored found

theorem lookup_of_moved {V : Type} {table after : HashMap EntityId V} {oldId newId : EntityId}
    (moved : ∀ value, table.lookup oldId = some value →
      after = (table.erase oldId).insert newId value)
    (stays : table.lookup oldId = none → after = table) (id : EntityId) :
    after.lookup id = if id = newId then table.lookup oldId <|> table.lookup newId
      else if id = oldId then none
      else table.lookup id := by
  cases held : table.lookup oldId with
  | none =>
    rw [stays held]
    split_ifs with new old
    · rw [new]
      rfl
    · rw [old, held]
    · rfl
  | some value =>
    rw [moved value held, lookup_insert_eq, lookup_erase_eq]
    rfl

/-- Where a rename leaves the rows right: the entity found under the new number afterwards is
served by the rows that stand, which the rename does not move. -/
def RenameKeepsLines (tables : LineTables) (renamed : RenamedEntity) : Prop :=
  ∀ entity, (tables.functions.lookup renamed.oldId <|> tables.functions.lookup renamed.newId) =
      some entity →
    Served tables.rows renamed.newId
      (tables.files.lookup renamed.oldId <|> tables.files.lookup renamed.newId)
      entity.span.startPosition.row

end LineTables

variable [Sha256]

theorem lookup_functionIndex_applyRenamedEntity (index : RelationIndex) (renamed : RenamedEntity)
    (id : EntityId) :
    (applyRenamedEntity index renamed).functionIndex.lookup id = if id = renamed.newId then
        index.functionIndex.lookup renamed.oldId <|> index.functionIndex.lookup renamed.newId
      else if id = renamed.oldId then none
      else index.functionIndex.lookup id :=
  LineTables.lookup_of_moved (fun value held => by simp only [applyRenamedEntity, held])
    (fun held => by simp only [applyRenamedEntity, held]) id

theorem lookup_entityFileIndex_applyRenamedEntity (index : RelationIndex)
    (renamed : RenamedEntity) (id : EntityId) :
    (applyRenamedEntity index renamed).entityFileIndex.lookup id = if id = renamed.newId then
        index.entityFileIndex.lookup renamed.oldId <|> index.entityFileIndex.lookup renamed.newId
      else if id = renamed.oldId then none
      else index.entityFileIndex.lookup id :=
  LineTables.lookup_of_moved (fun value held => by simp only [applyRenamedEntity, held])
    (fun held => by simp only [applyRenamedEntity, held]) id

variable {index : RelationIndex}

theorem listed_applyRenamedEntity_iff {renamed : RenamedEntity} (listed : index.Listed) :
    (applyRenamedEntity index renamed).Listed ↔
      index.lineTables.RenameKeepsLines renamed := by
  have functions := lookup_functionIndex_applyRenamedEntity index renamed
  have files := lookup_entityFileIndex_applyRenamedEntity index renamed
  constructor
  · intro after entity moved
    have stored : (applyRenamedEntity index renamed).functionIndex.lookup renamed.newId =
        some entity := by
      rw [functions, if_pos rfl]
      exact moved
    have served := after renamed.newId entity stored
    change Served index.fileEntitiesByStart renamed.newId
      ((applyRenamedEntity index renamed).entityFileIndex.lookup renamed.newId) _ at served
    rw [files, if_pos rfl] at served
    exact served
  · intro keeps id entity stored
    change (applyRenamedEntity index renamed).functionIndex.lookup id = some entity at stored
    change Served index.fileEntitiesByStart id
      ((applyRenamedEntity index renamed).entityFileIndex.lookup id) _
    rw [functions] at stored
    rw [files]
    by_cases new : id = renamed.newId
    · rw [if_pos new] at stored ⊢
      exact new ▸ keeps entity stored
    · rw [if_neg new] at stored ⊢
      by_cases old : id = renamed.oldId
      · rw [if_pos old] at stored
        cases stored
      · rw [if_neg old] at stored ⊢
        exact listed id entity stored

omit [Sha256] in
theorem foldl_listed {α : Type} {step : RelationIndex → α → RelationIndex}
    (kept : ∀ index : RelationIndex, index.Listed → ∀ a, (step index a).Listed)
    {index : RelationIndex} (listed : index.Listed) (l : List α) :
    (l.foldl step index).Listed := by
  induction l generalizing index with
  | nil => exact listed
  | cons a l ih => exact ih (kept index listed a)

omit [Sha256] in
theorem listed_removeFunction (listed : index.Listed)
    (id : EntityId) : (index.removeFunction id).Listed :=
  listed.drop id index.entityFileIndex fun _ _ => rfl

theorem listed_applyRemovedEntity (listed : index.Listed)
    (id : EntityId) : (applyRemovedEntity index id).Listed :=
  listed.drop id (index.entityFileIndex.erase id) fun other distinct => by
    rw [lookup_erase_eq, if_neg distinct]
    rfl

omit [Sha256] in
theorem listed_applyRemovedFile (listed : index.Listed)
    (path : String) : (applyRemovedFile index path).Listed := by
  have rows : ∀ path', rowsAt (applyRemovedFile index path).fileEntitiesByStart path' =
      if path' = path then [] else rowsAt index.fileEntitiesByStart path' := by
    intro path'
    change (((index.fileEntitiesByStart.erase path).lookup path').getD ∅).toList = _
    rw [lookup_erase_eq]
    split_ifs with same
    · rfl
    · rfl
  refine listed.lose (fun _ _ stored => ⟨stored, rfl⟩) (fun path' item mem => ?_)
    fun path' some item mem _ => ?_
  · change item ∈ rowsAt (applyRemovedFile index path).fileEntitiesByStart path' at mem
    rw [rows] at mem
    split_ifs at mem with same
    · cases mem
    · exact mem
  · change rowsAt (applyRemovedFile index path).fileEntitiesByStart path' ≠ [] at some
    change item ∈ rowsAt (applyRemovedFile index path).fileEntitiesByStart path'
    rw [rows] at some ⊢
    split_ifs at some ⊢ with same
    · exact absurd rfl some
    · exact mem

theorem listed_removeFile (listed : index.Listed)
    (fileId : String) : (index.removeFile fileId).Listed := by
  let ids := index.getEntityIdsByFile fileId
  let functions := ids.foldl removeFunction index
  have dropped : functions.Listed :=
    foldl_listed (fun _ listed id => listed_removeFunction listed id) listed ids
  have erased : functions.functionIndex = index.functionIndex.eraseAll ids :=
    (foldl_hom functionIndex fun _ _ => rfl).symm
  have tables : (index.removeFile fileId).lineTables =
      ⟨functions.functionIndex, functions.entityFileIndex.eraseAll ids,
        functions.fileEntitiesByStart⟩ :=
    (foldl_frame lineTables removeEntityRelations (fun _ _ => rfl) ids _).trans
      (foldl_frame lineTables removeStableSymbol
        (frame_removeStableSymbol _ fun _ _ _ _ => rfl) ids _)
  unfold RelationIndex.Listed
  rw [tables]
  refine LineTables.Listed.lose dropped (fun id entity stored => ⟨stored, ?_⟩) (fun _ _ mem => mem)
    fun _ _ _ mem _ => mem
  have other : id ∉ ids := by
    intro mem
    change functions.functionIndex.lookup id = some entity at stored
    rw [erased, lookup_eraseAll, if_pos mem] at stored
    cases stored
  change (functions.entityFileIndex.eraseAll ids).lookup id = functions.entityFileIndex.lookup id
  rw [lookup_eraseAll, if_neg other]

end Steps

section Runs

variable [Sha256]

namespace RelationIndex

def replayRemovals (index : RelationIndex) (delta : SnapshotDelta) : RelationIndex :=
  applyRemovedEntities
    (applyAddedFiles (applyRemovedFiles index delta.removedFiles) delta.addedFiles)
    delta.removedEntities

def DeltaKeepsLines (index : RelationIndex) (delta : SnapshotDelta) : Prop :=
  EveryStep applyRenamedEntity (fun index renamed => index.lineTables.RenameKeepsLines renamed)
    (index.replayRemovals delta) delta.renamedEntities ∧
  EveryStep applyAddedEntity
    (fun index added => index.lineTables.PlaceKeepsLines index.fileEntitiesByStart
      added.entity.id added.entity added.filePath)
    (replayLosses index delta) delta.addedEntities

theorem listed_applyDelta {index : RelationIndex} {delta : SnapshotDelta}
    (keeps : index.DeltaKeepsLines delta) (listed : index.Listed) :
    (ContextEngine.applyDelta index delta).Listed := by
  have files : (applyAddedFiles (applyRemovedFiles index delta.removedFiles)
      delta.addedFiles).Listed := by
    unfold Listed
    rw [show (applyAddedFiles (applyRemovedFiles index delta.removedFiles)
      delta.addedFiles).lineTables = (applyRemovedFiles index delta.removedFiles).lineTables from
        foldl_frame lineTables applyAddedFile (fun _ _ => rfl) _ _]
    exact foldl_listed (fun _ listed path => listed_applyRemovedFile listed path) listed _
  have removals : (index.replayRemovals delta).Listed :=
    foldl_listed (fun _ listed id => listed_applyRemovedEntity listed id) files _
  have rename : ∀ (index : RelationIndex) (renamed : RenamedEntity),
      index.lineTables.RenameKeepsLines renamed → index.Listed →
        (applyRenamedEntity index renamed).Listed :=
    fun _ _ keeps listed => (listed_applyRenamedEntity_iff listed).2 keeps
  have renames : (delta.renamedEntities.foldl applyRenamedEntity
      (index.replayRemovals delta)).Listed := invariant rename removals keeps.1
  have losses : (replayLosses index delta).Listed := by
    change (applyRenamedEntities (index.replayRemovals delta) delta.renamedEntities).Listed
    unfold applyRenamedEntities
    split
    · exact removals
    · exact renames
  have entities : (replayEntities index delta).Listed :=
    invariant
      (fun _ _ keeps listed => listed.place (fun _ _ mem => mem) (fun _ _ mem _ => mem) keeps)
      losses keeps.2
  have tables := entityTables_applyDelta index delta
  have same : (ContextEngine.applyDelta index delta).lineTables =
      (replayEntities index delta).lineTables := by
    unfold lineTables
    rw [show (ContextEngine.applyDelta index delta).functionIndex = _ from
        congrArg EntityTables.functionIndex tables,
      show (ContextEngine.applyDelta index delta).entityFileIndex = _ from
        congrArg EntityTables.entityFileIndex tables,
      show (ContextEngine.applyDelta index delta).fileEntitiesByStart = _ from
        congrArg EntityTables.fileEntitiesByStart tables]
    rfl
  unfold Listed
  rw [same]
  exact entities

/-- A call of a mutating operation, or the materialization of the index as the base of a layered
snapshot with the deltas published over it. -/
inductive LineOp where
  | call (op : IndexOp)
  | materialize (deltas : List SnapshotDelta)

def applyLineOp (index : RelationIndex) : LineOp → RelationIndex
  | .call op => index.applyOp op
  | .materialize deltas =>
    LayeredSnapshotIndex.materializeMergedIndex ⟨.fromIndexShared index, deltas⟩

/-- Where an operation leaves the rows right. -/
def KeepsLines (index : RelationIndex) : LineOp → Prop
  | .call (.insertFunction entityId entity) =>
    Served index.fileEntitiesByStart entityId (index.entityFileIndex.lookup entityId)
      entity.span.startPosition.row
  | .call (.addFunctionWithPath entityId entity filePath) =>
    index.lineTables.PlaceKeepsLines (index.lineTables.untracked entityId) entityId entity filePath
  | .call (.applyDelta delta) => index.DeltaKeepsLines delta
  | .call _ => True
  | .materialize deltas =>
    EveryStep ContextEngine.applyDelta DeltaKeepsLines (copyTables index) deltas

omit [Sha256] in
theorem listed_copyTables (base : RelationIndex) : (copyTables base).Listed := by
  have bare : ∀ path, rowsAt (copyTables base).fileEntitiesByStart path = [] := by
    intro path
    rw [show (copyTables base).fileEntitiesByStart = ∅ from
      foldl_frame fileEntitiesByStart (fun (index : RelationIndex) (entry : EntityId × Entity) =>
        index.insertFunction entry.1 entry.2) (fun _ _ => rfl) base.functionIndex.toList new]
    rfl
  intro id entity stored
  refine ⟨fun path item mem => ?_, fun path _ some => absurd (bare path) some⟩
  change item ∈ rowsAt (copyTables base).fileEntitiesByStart path at mem
  rw [bare path] at mem
  cases mem

theorem listed_applyLineOp {index : RelationIndex} {op : LineOp} (keeps : index.KeepsLines op)
    (listed : index.Listed) : (index.applyLineOp op).Listed := by
  cases op with
  | materialize deltas =>
    exact invariant
      (fun _ _ keeps listed => listed_applyDelta keeps listed) (listed_copyTables index) keeps
  | call op =>
    cases op with
    | insertFunction entityId entity => exact listed.insert keeps
    | addFunctionWithPath entityId entity filePath =>
      exact LineTables.Listed.place listed
        (fun path item (mem : item ∈ rowsAt (index.lineTables.untracked entityId) path) =>
          LineTables.fewer_untracked mem)
        (fun _ _ => LineTables.kept_untracked) keeps
    | removeFunction entityId => exact listed_removeFunction listed entityId
    | removeFile fileId => exact listed_removeFile listed fileId
    | applyDelta delta => exact listed_applyDelta keeps listed
    | registerSymbolKey filePath scopedName entity entityId => exact listed
    | addResolvedRelation relation => exact listed
    | addFileRelation filePath relation => exact listed
    | rebuildReverseCalleeIndex => exact listed
    | rebuildFileCallerIndex => exact listed

/-- In a run whose operations leave the rows right, the lookup equals the scan at every index the
run reaches. -/
theorem linesExact_of_keepsLines {ops : List LineOp}
    (keeps : EveryStep applyLineOp KeepsLines new ops) {reached : List LineOp}
    (initial : reached <+: ops) : (reached.foldl applyLineOp new).LinesExact := by
  have start : new.Listed := fun id entity stored => by cases stored
  refine linesExact_iff_listed.2 ?_
  exact invariant
    (fun _ _ keeps listed => listed_applyLineOp keeps listed) start (keeps.of_prefix initial)

end RelationIndex

end Runs

namespace RelationIndex

section Sample

/-- Two nested functions of one file, the outer one dropped after a copy of the index. -/
private def nestedPair : List (@LineOp) :=
  [.call (.addFunctionWithPath 1 (functionAt 1 "main" 1) "src/a.rs"),
    .call (.addFunctionWithPath 2 (functionAt 2 "run" 2) "src/a.rs"),
    .materialize [], .call (.removeFunction 1)]

private theorem nestedPair_keepsLines :
    @EveryStep RelationIndex LineOp (@applyLineOp sampleSha256) (@KeepsLines sampleSha256) new
      nestedPair := by
  let _ := sampleSha256
  refine ⟨⟨?_, ?_, ?_⟩, ⟨?_, ?_, ?_⟩, trivial, trivial, trivial⟩
  · exact fun path item mem => absurd mem not_mem_nil
  · exact fun stands => absurd stands (by decide +kernel)
  · exact fun _ other _ stored => absurd stored (by simp [lineTables, new])
  · intro path item mem second
    rcases mem_rowsAt_trackFileEntity.1 mem with ⟨-, -, rfl⟩ | before
    · exact absurd second (by decide)
    · exact absurd before not_mem_nil
  · exact fun stands => absurd stands (by decide +kernel)
  · exact fun bare => absurd bare (by decide +kernel)

theorem nestedPair_linesExact :
    (nestedPair.foldl (@applyLineOp sampleSha256) new).LinesExact :=
  let _ := sampleSha256
  linesExact_of_keepsLines nestedPair_keepsLines prefix_rfl

private def renamedFunction : List (@LineOp) :=
  [.call (.addFunctionWithPath 1 (functionAt 1 "main" 1) "src/a.rs"),
    .call (.applyDelta
      { epoch := 2, baseEpoch := 1, configFingerprint := ""
        renamedEntities := [⟨1, 2, "main", "start"⟩] })]

/-- The renamed function is scanned but not looked up. -/
theorem renamedFunction_not_looked_up :
    2 ∈ (renamedFunction.foldl (@applyLineOp sampleSha256) new).scanLineRange "src/a.rs" 0 9 ∧
      2 ∉ (renamedFunction.foldl (@applyLineOp sampleSha256) new).getEntitiesInLineRange
        "src/a.rs" 0 9 := by
  decide +kernel

end Sample

end RelationIndex

end ContextEngine

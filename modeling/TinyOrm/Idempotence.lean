import TinyOrm.DataFile
import TinyOrm.Migration
set_option autoImplicit false

/-!
`DB::AutoMigrate` (db.h): a second run of the same declarations has nothing to do.
-/

namespace TinyOrm

open LoadState

/-- The static members of every class of a process. -/
abbrev Statics := Str → Loaded

/-- What `Model::saveModel` saves. -/
def Loaded.saved (prev : Loaded) (className : Str) : SavedModel :=
  ⟨className, prev.tableName, prev.fields, prev.indices⟩

/-- `recorded` as a class without a past saves it. -/
def Model.saved (m : Model) : SavedModel := (m.recorded {}).saved m.className

namespace DB

/-- The result of a run: the commands of every model, the file and the static
members. -/
structure Migrated where
  cmds : List (List Cmd)
  file : Str
  statics : Statics

/-- `doMigrate` for one class after the other; `catalog` is what the database
shows when the turn of a class comes. -/
def doMigrate (conf : Config) (fuel : Nat) (file : Option Str) (catalog : Str → Catalog) :
    List Model → Statics → Option (List (List Cmd) × Statics)
  | [], st => some ([], st)
  | m :: models, st => do
    let (cmds, prev) ← m.AutoMigrate conf fuel file (catalog m.className) (st m.className)
    let (rest, st) ← doMigrate conf fuel file catalog models (Function.update st m.className prev)
    some (cmds :: rest, st)

def AutoMigrate (conf : Config) (fuel : Nat) (file : Option Str) (catalog : Str → Catalog)
    (models : List Model) (st : Statics) : Option Migrated := do
  let (cmds, st) ← doMigrate conf fuel file catalog models st
  let file ← saveAll conf [] (models.map fun m => (st m.className).saved m.className)
  some ⟨cmds, file, st⟩

end DB

/-- Declarations within the limits of the file, with no column twice in an index. -/
structure Model.Storable (conf : Config) (m : Model) : Prop where
  saved : m.saved.Storable conf
  indexColumns : ∀ index ∈ m.saved.indexList, index.columns.Nodup

instance (conf : Config) (m : Model) : Decidable (m.Storable conf) :=
  decidable_of_iff
    (m.saved.Storable conf ∧ ∀ index ∈ m.saved.indexList, index.columns.Nodup)
    ⟨fun ⟨h1, h2⟩ => ⟨h1, h2⟩, fun ⟨h1, h2⟩ => ⟨h1, h2⟩⟩

/-! ## One model that has not changed -/

section Unchanged

variable {conf : Config} {m : Model} {prev : Loaded}

theorem Loaded.Describes.lookup (h : prev.Describes conf m.saved) {i : Nat} {field : FieldMeta}
    (hi : m.metadata[i]? = some field) :
    prev.nameToIndex.lookup field.getColumnName = some i ∧
      prev.fields[i]? = some (field.stored conf) := by
  constructor
  · rw [h.nameToIndex]
    simp [Model.saved, Loaded.saved, Model.recorded, hi]
  · simp [h.fields, Model.saved, Loaded.saved, Model.recorded, hi]

theorem FieldMeta.eq_stored (conf : Config) (field : FieldMeta) :
    FieldMeta.eq conf field (field.stored conf) = some true :=
  FieldMeta.eq_of_same conf rfl rfl rfl rfl rfl

theorem columnCmds_unchanged (h : prev.Describes conf m.saved) {field : FieldMeta}
    (hfield : field ∈ m.metadata) : Model.columnCmds conf prev field = some [] := by
  obtain ⟨i, hi⟩ := List.getElem?_of_mem hfield
  obtain ⟨hlookup, hget⟩ := h.lookup hi
  simp [Model.columnCmds, hlookup, hget, FieldMeta.eq_stored]

theorem indexCmds_unchanged (h : ∀ name, prev.indices.lookup name = m.indices.lookup name)
    (hnodup : ∀ index ∈ m.saved.indexList, index.columns.Nodup) : m.indexCmds prev = [] := by
  have hmem {name : Str} {index : Index} (hl : m.indices.lookup name = some index) :
      index ∈ m.saved.indexList :=
    List.mem_map.mpr ⟨⟨name, index⟩, AList.mem_lookup_iff.mp hl, rfl⟩
  rw [Model.indexCmds, List.append_eq_nil_iff, List.flatMap_eq_nil_iff, List.flatMap_eq_nil_iff]
  constructor
  · intro entry hentry
    have hl : m.indices.lookup entry.1 = some entry.2 := by
      rw [← h]
      exact AList.mem_lookup_iff.mpr hentry
    simp [Model.changedIndexCmds, hl, Index.eq_self (hnodup _ (hmem hl))]
  · intro entry hentry
    have hl : prev.indices.lookup entry.1 = some entry.2 := by
      rw [h]
      exact AList.mem_lookup_iff.mpr hentry
    simp [Model.newIndexCmds, hl]

/-- With its own record in the file a model gets no command, whatever the
database shows. -/
theorem autoMigrate_unchanged (hm : m.Storable conf) {fuel : Nat} {file : Str}
    (hload : loadFromFile fuel (some file) m.className {} = some prev)
    (h : prev.Describes conf m.saved) (catalog : Catalog) :
    m.AutoMigrate conf fuel (some file) catalog {} = some ([], m.recorded prev) := by
  have htable : prev.tableName = m.getTableName := h.tableName
  have hne : prev.tableName.length ≠ 0 := by
    rw [htable]
    exact fun hlen => hm.saved.tableName.1 (List.length_eq_zero_iff.mp hlen)
  have hsearch : m.searchTable conf catalog prev = some (prev, []) := by
    simp [Model.searchTable, hne]
  have hdiff : m.diffTable conf prev = some [] := by
    have hcolumns : Model.allColumnCmds conf prev m.metadata = some [] :=
      Model.allColumnCmds_eq_nil_iff.mpr fun _ hf => columnCmds_unchanged h hf
    have hindices := indexCmds_unchanged h.indices hm.indexColumns
    by_cases hlen : prev.fields.length > 0
    · simp [Model.diffTable, hcolumns, hindices, htable]
    · simp [Model.diffTable, hlen]
  simp [Model.AutoMigrate, hload, hsearch, hdiff]

end Unchanged

/-! ## All models -/

namespace DB

/-- A class that took part in a run leaves its declarations in its static
members, and only such a class changes its own. -/
theorem doMigrate_statics {conf : Config} {fuel : Nat} {file : Option Str}
    {catalog : Str → Catalog} {models : List Model} {st st' : Statics} {cmds : List (List Cmd)}
    (hdistinct : (models.map Model.className).Nodup)
    (hrun : doMigrate conf fuel file catalog models st = some (cmds, st')) :
    (∀ m ∈ models, (st' m.className).saved m.className = m.saved) ∧
      ∀ className ∉ models.map Model.className, st' className = st className := by
  induction models generalizing st cmds with
  | nil =>
    simp only [doMigrate, Option.some.injEq, Prod.mk.injEq] at hrun
    simp [hrun.2]
  | cons m models ih =>
    simp only [List.map_cons, List.nodup_cons] at hdistinct
    simp only [doMigrate, Option.bind_eq_bind, Option.bind_eq_some_iff, Prod.exists,
      Option.some.injEq, Prod.mk.injEq] at hrun
    obtain ⟨first, prev, hfirst, rest, st₁, hrest, -, rfl⟩ := hrun
    obtain ⟨hsaved, hother⟩ := ih hdistinct.2 hrest
    constructor
    · intro m' hm'
      rcases List.mem_cons.mp hm' with rfl | hm'
      · rw [hother _ hdistinct.1, Function.update_self]
        simp only [Model.AutoMigrate, Option.bind_eq_bind, Option.bind_eq_some_iff, Prod.exists,
          Option.some.injEq, Prod.mk.injEq] at hfirst
        obtain ⟨-, -, prev', -, -, -, -, -, rfl⟩ := hfirst
        rfl
      · exact hsaved m' hm'
    · intro className hnot
      simp only [List.map_cons, List.mem_cons, not_or] at hnot
      rw [hother className hnot.2, Function.update_of_ne hnot.1]

/-- The file after a run holds the declarations, whatever it held before. -/
theorem autoMigrate_file {conf : Config} {fuel : Nat} {file : Option Str}
    {catalog : Str → Catalog} {models : List Model} {st : Statics} {r : Migrated}
    (hok : ∀ m ∈ models, m.saved.Storable conf) (hdistinct : (models.map Model.className).Nodup)
    (hrun : AutoMigrate conf fuel file catalog models st = some r) :
    r.file = fileBytes conf (models.map Model.saved) := by
  simp only [AutoMigrate, Option.bind_eq_bind, Option.bind_eq_some_iff, Prod.exists,
    Option.some.injEq] at hrun
  obtain ⟨cmds, st', hmigrate, data, hsave, rfl⟩ := hrun
  have hsaved := (doMigrate_statics hdistinct hmigrate).1
  rw [List.map_congr_left hsaved, saveAll_eq _ (by simpa using hok)] at hsave
  simpa using hsave.symm

/-- In a process of its own every model of a saved file gets no command. -/
theorem doMigrate_unchanged {conf : Config} {models : List Model}
    (hok : ∀ m ∈ models, m.Storable conf) (hdistinct : (models.map Model.className).Nodup)
    (catalog : Str → Catalog) (turn : List Model) (hturn : ∀ m ∈ turn, m ∈ models)
    (hnodup : (turn.map Model.className).Nodup) (st : Statics)
    (hst : ∀ m ∈ turn, st m.className = {}) :
    ∃ n, ∀ fuel, n ≤ fuel → ∃ st', doMigrate conf fuel
      (some (fileBytes conf (models.map Model.saved))) catalog turn st =
        some (turn.map fun _ => [], st') := by
  induction turn generalizing st with
  | nil => exact ⟨0, fun fuel _ => ⟨st, rfl⟩⟩
  | cons m turn ih =>
    have hm := hturn m (by simp)
    simp only [List.map_cons, List.nodup_cons] at hnodup
    have hstorable : ∀ s ∈ models.map Model.saved, s.Storable conf := by
      simpa using fun m hm => (hok m hm).saved
    have hfind : (models.map Model.saved).find? (·.className = m.className) = some m.saved :=
      by
      have hnames : ((models.map Model.saved).map SavedModel.className).Nodup := by
        rw [List.map_map]
        exact hdistinct
      exact find_className hnames (List.mem_map_of_mem hm)
    obtain ⟨n₁, hload⟩ := loads_fileBytes (models.map Model.saved) hstorable m.className
    rw [hfind] at hload
    have hst' : ∀ m' ∈ turn, Function.update st m.className
        (m.recorded (loadedOf conf m.saved)) m'.className = {} := by
      intro m' hm'
      have hne : m'.className ≠ m.className := by
        intro he
        exact hnodup.1 (he ▸ List.mem_map_of_mem hm')
      rw [Function.update_of_ne hne]
      exact hst m' (by simp [hm'])
    obtain ⟨n₂, hrest⟩ := ih (fun m' hm' => hturn m' (by simp [hm'])) hnodup.2 _ hst'
    refine ⟨max n₁ n₂, fun fuel hfuel => ?_⟩
    have hown := autoMigrate_unchanged (hok m hm) (hload fuel (by omega))
      (loadedOf_describes (hok m hm).saved) (catalog m.className)
    obtain ⟨st', hst'⟩ := hrest fuel (by omega)
    exact ⟨st', by simp [doMigrate, hst m (by simp), hown, hst']⟩

/-- A later process that runs the same declarations adds no command, whatever
the file held before the first run and whatever the database shows. -/
theorem autoMigrate_twice {conf : Config} {models : List Model}
    (hok : ∀ m ∈ models, m.Storable conf) (hdistinct : (models.map Model.className).Nodup)
    {fuel : Nat} {file : Option Str} {catalog : Str → Catalog} {st : Statics} {r : Migrated}
    (hrun : AutoMigrate conf fuel file catalog models st = some r) (catalog' : Str → Catalog) :
    ∃ n, ∀ fuel', n ≤ fuel' → ∃ r',
      AutoMigrate conf fuel' (some r.file) catalog' models (fun _ => {}) = some r' ∧
        r'.cmds = models.map fun _ => [] := by
  obtain ⟨n, hn⟩ := doMigrate_unchanged hok hdistinct catalog' models (fun m hm => hm) hdistinct
    (fun _ => {}) (fun _ _ => rfl)
  refine ⟨n, fun fuel' hfuel => ?_⟩
  obtain ⟨st', hmigrate⟩ := hn fuel' hfuel
  rw [← autoMigrate_file (fun m hm => (hok m hm).saved) hdistinct hrun] at hmigrate
  have hsaved := (doMigrate_statics hdistinct hmigrate).1
  obtain ⟨data, hsave⟩ : ∃ data, saveAll conf [] (models.map Model.saved) = some data :=
    ⟨_, saveAll_eq _ (by simpa using fun m hm => (hok m hm).saved) []⟩
  rw [← List.map_congr_left hsaved] at hsave
  refine ⟨⟨models.map fun _ => [], data, st'⟩, ?_, rfl⟩
  simp only [AutoMigrate, hmigrate, Option.bind_eq_bind, Option.bind_some, hsave]

/-- Two classes, one with a table name and a composite index. -/
def sampleClasses : List Model :=
  [{ className := "Role".toList
     metadata := [{ fieldName := "roleKey".toList, cppType := "int".toList, isPk := true,
                    autoInc := true, notNull := true }]
     columnToIndex := (∅ : NameToIndex).insert "role_key".toList 0 },
   { className := "UserRole".toList
     tableName := some "t_user_role".toList
     metadata := [{ fieldName := "userId".toList, cppType := "int".toList },
                  { fieldName := "since".toList, cppType := "Timestamp".toList,
                    default_ := "NOW()".toList }]
     indices := (∅ : Indices).insert "uni".toList
       ⟨.INDEX_TYPE_UNI, "uni".toList, ["user_id".toList, "since".toList]⟩
     columnToIndex := ((∅ : NameToIndex).insert "user_id".toList 0).insert "since".toList 1 }]

theorem sampleClasses_storable : ∀ m ∈ sampleClasses, m.Storable rulesJson := by decide

theorem autoMigrate_twice_sample :
    ∃ r, AutoMigrate rulesJson 0 none (fun _ => Catalog.empty) sampleClasses (fun _ => {}) =
      some r ∧
      ∃ n, ∀ fuel', n ≤ fuel' → ∃ r',
        AutoMigrate rulesJson fuel' (some r.file) (fun _ => Catalog.empty) sampleClasses
          (fun _ => {}) = some r' ∧ r'.cmds = sampleClasses.map fun _ => [] := by
  obtain ⟨r, hrun⟩ : ∃ r, AutoMigrate rulesJson 0 none (fun _ => Catalog.empty) sampleClasses
      (fun _ => {}) = some r := ⟨_, rfl⟩
  exact ⟨r, hrun, autoMigrate_twice sampleClasses_storable (by decide) hrun _⟩

end DB

end TinyOrm

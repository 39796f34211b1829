import TinyOrm.ColumnDdl
import TinyOrm.Idempotence
import TinyOrm.Lib.Execution
set_option autoImplicit false

/-!
Column migration over a history of versions of one model class: when the table
has the columns of the version that ran last.
-/

namespace TinyOrm

/-! ## What a column should be -/

/-- Every type stands under its own first three letters. -/
def Config.Grouped (conf : Config) : Prop :=
  ∀ entry ∈ conf.same_types, ∀ type ∈ entry.2, type.take 3 = entry.1

instance (conf : Config) : Decidable conf.Grouped :=
  inferInstanceAs (Decidable (∀ entry ∈ conf.same_types, _))

theorem rulesJson_grouped : rulesJson.Grouped := by decide

def IsNow (s : Str) : Prop := Util.toLowerCase s = now ∨ Util.toLowerCase s = current_timestamp

instance (s : Str) : Decidable (IsNow s) := inferInstanceAs (Decidable (_ ∨ _))

def SameDefault (s1 s2 : Str) : Prop := s1 = s2 ∨ (IsNow s1 ∧ IsNow s2)

instance (s1 s2 : Str) : Decidable (SameDefault s1 s2) := inferInstanceAs (Decidable (_ ∨ _))

/-- The column is the declared one, up to names of one type and of the present time. -/
structure Agrees (conf : Config) (col : ColumnDef) (field : FieldMeta) : Prop where
  type : isSameDbType conf (field.getColumnType conf) col.type = true
  notNull : col.notNull = field.notNull
  default_ : SameDefault col.default_ field.default_
  extra : col.extra = field.extra
  autoInc : col.autoInc = field.autoInc

instance (conf : Config) (col : ColumnDef) (field : FieldMeta) :
    Decidable (Agrees conf col field) :=
  decidable_of_iff
    (isSameDbType conf (field.getColumnType conf) col.type = true ∧ col.notNull = field.notNull ∧
      SameDefault col.default_ field.default_ ∧ col.extra = field.extra ∧
      col.autoInc = field.autoInc)
    ⟨fun ⟨h1, h2, h3, h4, h5⟩ => ⟨h1, h2, h3, h4, h5⟩,
      fun ⟨h1, h2, h3, h4, h5⟩ => ⟨h1, h2, h3, h4, h5⟩⟩

theorem SameDefault.trans {s1 s2 s3 : Str} (h : SameDefault s1 s2) (k : SameDefault s2 s3) :
    SameDefault s1 s3 := by
  rcases h with rfl | h
  · exact k
  · rcases k with rfl | k
    · exact Or.inr h
    · exact Or.inr ⟨h.1, k.2⟩

theorem sameDefault_of_isSame {s1 s2 : Str} (h : isSame s1 s2 = some true) : SameDefault s2 s1 := by
  rcases isSame_eq_true_iff.mp h with heq | ⟨h1, h2⟩ | ⟨h1, h2⟩
  · exact .inl heq.symm
  · exact .inr ⟨.inr h2, .inl h1⟩
  · exact .inr ⟨.inl h2, .inr h1⟩

/-- In a grouped table the types that are the same as one type form a class. -/
theorem isSameDbType_trans {conf : Config} (hconf : conf.Grouped) {a b c : Str}
    (hab : isSameDbType conf a b = true) (hbc : isSameDbType conf b c = true) :
    isSameDbType conf a c = true := by
  cases ha : conf.sameTypes a with
  | none =>
    have heq : a = b := by simpa [isSameDbType, ha] using hab
    rw [heq]
    exact hbc
  | some types =>
    by_cases hmem : a ∈ types
    · have hb : b ∈ types := by simpa [isSameDbType, ha, hmem] using hab
      have hgroup := hconf _ (mem_of_lookup ha)
      have hkey : b.take 3 = a.take 3 := hgroup b hb
      have htypes : conf.sameTypes b = some types := by
        rw [← ha]
        simp [Config.sameTypes, hkey]
      have hc : c ∈ types := by simpa [isSameDbType, htypes, hb] using hbc
      simp [isSameDbType, ha, hmem, hc]
    · have heq : a = b := by simpa [isSameDbType, ha, hmem] using hab
      rw [heq]
      exact hbc

/-- A column that agrees with a field agrees with every field that is judged
equal to it and has the same AUTO_INCREMENT. -/
theorem Agrees.of_eq {conf : Config} (hconf : conf.Grouped) {col : ColumnDef}
    {field old : FieldMeta} (h : Agrees conf col old)
    (heq : FieldMeta.eq conf field old = some true)
    (hauto : field.autoInc = old.autoInc) : Agrees conf col field := by
  obtain ⟨⟨_, hnull, hextra⟩, hsame, htype⟩ := FieldMeta.eq_true_iff.mp heq
  refine ⟨isSameDbType_trans hconf htype h.type, h.notNull.trans hnull.symm, ?_,
    h.extra.trans hextra.symm, h.autoInc.trans hauto.symm⟩
  exact h.default_.trans (sameDefault_of_isSame hsame)

theorem agrees_altered {conf : Config} {field : FieldMeta} (h : ¬ Fused conf field) :
    Agrees conf (alteredDef conf field) field := by
  rw [alteredDef, if_neg h]
  exact ⟨isSameDbType_refl _ _, rfl, Or.inl rfl, rfl, rfl⟩

theorem agrees_created {conf : Config} {field : FieldMeta} (hextra : field.extra = [])
    (hauto : field.autoInc → field.isPk) (hpk : field.isPk → field.notNull) :
    Agrees conf (createdDef conf field) field := by
  refine ⟨isSameDbType_refl _ _, ?_, Or.inl rfl, hextra.symm, ?_⟩
  · cases hisPk : field.isPk with
    | true => simp [createdDef, hisPk, hpk hisPk]
    | false => simp [createdDef, hisPk]
  · cases hai : field.autoInc with
    | true => simp [createdDef, hai, hauto hai]
    | false => simp [createdDef, hai]

/-! ## Versions -/

/-- It fills the map as the loader fills its own. -/
theorem fillColumnToIndex_eq (conf : Config) (fields : List FieldMeta) (out : Loaded) :
    fillColumnToIndex fields out.fields.length out.nameToIndex =
      (fields.foldl (LoadState.addColumn conf) out).nameToIndex := by
  induction fields generalizing out with
  | nil => rfl
  | cons field fields ih =>
    rw [List.foldl_cons, ← ih]
    simp [fillColumnToIndex, LoadState.addColumn]

/-- A version of the class: what the constructor makes of its declarations. -/
structure IsVersion (className tableName : Str) (m : Model) : Prop where
  className : m.className = className
  tableName : m.getTableName = tableName
  columnNames : (m.metadata.map FieldMeta.getColumnName).Nodup
  fieldNames : (m.metadata.map FieldMeta.fieldName).Nodup
  columnToIndex : m.columnToIndex = fillColumnToIndex m.metadata 0 ∅
  pk : ∀ field ∈ m.metadata, field.isPk → field.notNull

instance (className tableName : Str) (m : Model) : Decidable (IsVersion className tableName m) :=
  decidable_of_iff
    (m.className = className ∧ m.getTableName = tableName ∧
      (m.metadata.map FieldMeta.getColumnName).Nodup ∧ (m.metadata.map FieldMeta.fieldName).Nodup ∧
      m.columnToIndex.entries = (fillColumnToIndex m.metadata 0 ∅).entries ∧
      ∀ field ∈ m.metadata, field.isPk → field.notNull)
    ⟨fun ⟨h1, h2, h3, h4, h5, h6⟩ => ⟨h1, h2, h3, h4, AList.ext h5, h6⟩,
      fun ⟨h1, h2, h3, h4, h5, h6⟩ => ⟨h1, h2, h3, h4, congrArg AList.entries h5, h6⟩⟩

theorem IsVersion.lookup {className tableName : Str} {m : Model}
    (hm : IsVersion className tableName m) (name : Str) (i : Nat) :
    m.columnToIndex.lookup name = some i ↔
      (m.metadata.map FieldMeta.getColumnName)[i]? = some name := by
  have hloop : m.columnToIndex =
      (m.metadata.foldl (LoadState.addColumn rulesJson) {}).nameToIndex :=
    hm.columnToIndex.trans (fillColumnToIndex_eq rulesJson m.metadata {})
  rw [hloop, foldl_addColumn_nameToIndex rulesJson m.metadata {} hm.columnNames
    (fun _ _ => AList.lookup_empty _)]
  simp

/-- The metadata file, the database, and the version that ran last. -/
structure History where
  file : Option Str
  db : Database
  last : Option Model

def History.init : History := ⟨none, Database.empty, none⟩

/-- One process runs `DB::AutoMigrate` with the version. -/
inductive VersionStep (conf : Config) (className tableName : Str) : History → Model → History → Prop
  | run {w : History} {m : Model} {fuel : Nat} {catalog : Catalog} {cmds sorted : List Cmd}
      {prev : Loaded} {db : Database} {file : Str} (hm : IsVersion className tableName m)
      (hcatalog : w.db = Database.empty → catalog = Catalog.empty)
      (hmigrate : m.AutoMigrate conf fuel w.file catalog {} = some (cmds, prev))
      (hsort : SortedFrom cmds sorted) (hdb : m.migrate conf w.db sorted = some db)
      (hsave : saveAll conf [] [prev.saved m.className] = some file) :
      VersionStep conf className tableName w m ⟨some file, db, some m⟩

def columnsOf (db : Database) (tableName name : Str) : Option ColumnDef :=
  (db tableName).bind fun t => t.columns name

/-- Every column of the version is in the table as declared. -/
def Converged (conf : Config) (tableName : Str) (db : Database) (m : Model) : Prop :=
  ∀ field ∈ m.metadata, ∃ col, columnsOf db tableName field.getColumnName = some col ∧
    Agrees conf col field

/-! ## The condition -/

/-- `field` takes its column over from `old`, whose name it does not keep. -/
def Renames (m : Model) (old field : FieldMeta) : Prop :=
  (∀ o ∈ m.metadata, o.getColumnName ≠ field.getColumnName) ∧ old.fieldName = field.fieldName

instance (m : Model) (old field : FieldMeta) : Decidable (Renames m old field) :=
  inferInstanceAs (Decidable (_ ∧ _))

/-- The condition on a field of `m` behind the version `prev`, over the columns
of the table. -/
def ColumnMigratable (conf : Config) (prev m : Model) (cols : Str → Option ColumnDef)
    (field : FieldMeta) : Prop :=
  match prev.metadata.find? (·.getColumnName = field.getColumnName) with
  | some old =>
    (∀ f ∈ m.metadata, Renames prev old f → (cols f.getColumnName).isSome) ∧
      match FieldMeta.eq conf field old with
      | none => False
      | some true => field.autoInc = old.autoInc
      | some false => ¬ Fused conf field
  | none =>
    match cols field.getColumnName with
    | some col => Agrees conf col field
    | none => ¬ Fused conf field

/-- Every column has a name and a type. -/
def Written (conf : Config) (m : Model) : Prop :=
  ∀ field ∈ m.metadata, field.getColumnName ≠ [] ∧ field.getColumnType conf ≠ []

instance (conf : Config) (m : Model) : Decidable (Written conf m) :=
  inferInstanceAs (Decidable (∀ field ∈ m.metadata, _ ∧ _))

/-- The condition on the first version. -/
structure Creatable (conf : Config) (m : Model) : Prop where
  tableName : m.getTableName ≠ []
  indices : IndicesReadable m.indices
  extra : ∀ field ∈ m.metadata, field.extra = []
  autoInc : ∀ field ∈ m.metadata, field.autoInc → field.isPk

/-- The condition on a later version. -/
structure Alterable (conf : Config) (prev m : Model) (cols : Str → Option ColumnDef) : Prop where
  storable : prev.saved.Storable conf
  nonempty : prev.metadata = [] → m.metadata = []
  columns : ∀ field ∈ m.metadata, ColumnMigratable conf prev m cols field

def Migratable (conf : Config) (tableName : Str) (w : History) (m : Model) : Prop :=
  Written conf m ∧
    match w.last with
    | none => Creatable conf m
    | some prev => Alterable conf prev m (columnsOf w.db tableName)

end TinyOrm

import TinyOrm.ColumnTexts
import TinyOrm.ModelGen
set_option autoImplicit false

/-!
The two renderings of an index: in CREATE TABLE and behind ALTER TABLE ADD
(model.h).
-/

namespace TinyOrm

/-! ## Clauses -/

/-- How often `PRIMARY` stands in a text as a keyword. -/
def primaries (sql : Sql) : Nat := (lexDdl .none sql).count (.kw .PRIMARY)

/-- An index clause of CREATE TABLE, with the comma in front of it. -/
def readClause (sql : Sql) : Option TableKey :=
  match lexDdl .none sql with
  | .comma :: toks =>
    match readPart toks with
    | some (.inr key, []) => some ⟨key.kind, key.columns⟩
    | _ => none
  | _ => none

namespace Model

/-- The columns with a `PRIMARY KEY` of their own in CREATE TABLE. -/
def inlineKey (conf : Config) (m : Model) : List Str :=
  (m.metadata.filter fun field => 0 < primaries (createColumn conf field)).map
    FieldMeta.getColumnName

/-- What CREATE TABLE says of an entry of the index map. -/
def createdClause (conf : Config) (m : Model) (name : Str) (index : Index) : Option TableKey :=
  if name = PRIMARY then
    match m.inlineKey conf with
    | [] => none
    | col :: cols => some ⟨.INDEX_TYPE_PRI, col :: cols⟩
  else readClause (createIndex ⟨name, index⟩)

/-- What ALTER TABLE ADD says of it. -/
def addedClause (conf : Config) (m : Model) (name : Str) : Option TableKey :=
  match (m.statement conf ⟨name, .MIGACTION_ADD_INDEX, []⟩).bind readDdl with
  | some (.addIndex _ key) => some ⟨key.kind, key.columns⟩
  | _ => none

/-- Each index has two complete clauses, both for the same key, and there is at
most one primary key in CREATE TABLE. -/
structure ClausesAgree (conf : Config) (m : Model) : Prop where
  same : ∀ name index, m.indices.lookup name = some index →
    ∃ key, m.createdClause conf name index = some key ∧ m.addedClause conf name = some key
  primary : primaries (m.createTable conf) ≤ 1

end Model

/-! ## Keywords of a text -/

/-- A delimiter ends what is pending before it. -/
theorem lexDdl_delim {c : Char} (hc : c = ' ' ∨ c = '(' ∨ c = ')' ∨ c = ',') (p : Pending)
    (a sql : Sql) :
    lexDdl p (a ++ .ch c :: sql) = lexDdl p a ++ lexDdl .none (.ch c :: sql) := by
  have hflush (q : Pending) : lexDdl q (.ch c :: sql) = q.flush ++ lexDdl .none (.ch c :: sql) := by
    rcases hc with rfl | rfl | rfl | rfl <;> rfl
  generalize lexDdl .none (.ch c :: sql) = rest at hflush
  induction a generalizing p with
  | nil => exact hflush p
  | cons sym a ih =>
    cases sym with
    | ch b =>
      simp only [List.cons_append, lexDdl, ih]
      split_ifs <;> simp
    | word w =>
      simp only [List.cons_append, lexDdl, ih]
      by_cases hw : w = []
      · simp [hw]
      · cases p with
        | none => simp [hw]
        | printed s => simp [hw]
        | given s =>
          simp only [hw, if_false]
          split_ifs <;> simp

theorem primaries_delim {c : Char} (hc : c = ' ' ∨ c = '(' ∨ c = ')' ∨ c = ',') (a sql : Sql) :
    primaries (a ++ .ch c :: sql) = primaries a + primaries (.ch c :: sql) := by
  rw [primaries, lexDdl_delim hc, List.count_append]
  rfl

theorem primaries_comma (sql : Sql) : primaries (lit ", " ++ sql) = primaries sql := by
  have hlex : lexDdl .none (lit ", " ++ sql) = .comma :: lexDdl .none sql := rfl
  simp [primaries, hlex]

theorem primaries_lpar (sql : Sql) : primaries (lit "(" ++ sql) = primaries sql := by
  have hlex : lexDdl .none (lit "(" ++ sql) = .lpar :: lexDdl .none sql := rfl
  simp [primaries, hlex]

theorem primaries_rpar (a : Sql) : primaries (a ++ lit ")") = primaries a := by
  have hdelim := primaries_delim (c := ')') (by simp) a []
  have hend : primaries [.ch ')'] = 0 := by decide
  rw [hend] at hdelim
  exact hdelim

/-- A name is no keyword, whatever its letters. -/
theorem primaries_word (w : Str) : primaries (word w) = 0 := by
  by_cases hw : w = []
  · subst hw
    rfl
  · have hlex := lexDdl_word hw []
    rw [List.append_nil] at hlex
    simp [primaries, hlex, lexDdl, Pending.flush]

theorem primaries_indexColumns (columns : List Str) :
    primaries (Model.indexColumns columns) = 0 := by
  induction columns with
  | nil => rfl
  | cons col columns ih =>
    cases columns with
    | nil =>
      have htext : Model.indexColumns [col] = word col := by
        simp [Model.indexColumns, Model.indexColumnsMore]
      rw [htext, primaries_word]
    | cons next columns =>
      have hdelim := primaries_delim (c := ',') (by simp) (word col)
        (.ch ' ' :: Model.indexColumns (next :: columns))
      have hrest := primaries_comma (Model.indexColumns (next :: columns))
      rw [indexColumns_cons]
      rw [primaries_word] at hdelim
      refine hdelim.trans ?_
      rw [Nat.zero_add]
      exact hrest.trans ih

theorem createIndex_eq {entry : Sigma fun _ : Str => Index} (hkey : entry.1 ≠ PRIMARY) :
    Model.createIndex entry = lit ", " ++ indexText entry.2 := by
  simp [Model.createIndex, hkey, indexText]

theorem primaries_createIndex (entry : Sigma fun _ : Str => Index) :
    primaries (Model.createIndex entry) = 0 := by
  have hkind (sql : Sql) : primaries
      ((if entry.2.type = .INDEX_TYPE_MUL then lit "INDEX " else lit "UNIQUE ") ++ sql) =
        primaries sql := by
    by_cases htype : entry.2.type = .INDEX_TYPE_MUL
    · have hlex : lexDdl .none (lit "INDEX " ++ sql) = .kw .INDEX :: lexDdl .none sql := rfl
      simp [htype, primaries, hlex]
    · have hlex : lexDdl .none (lit "UNIQUE " ++ sql) = .kw .UNIQUE :: lexDdl .none sql := rfl
      simp [htype, primaries, hlex]
  have hname (sql : Sql) : primaries (word entry.2.name ++ (lit "(" ++ sql)) = primaries sql := by
    have hdelim := primaries_delim (c := '(') (by simp) (word entry.2.name) sql
    rw [primaries_word, Nat.zero_add] at hdelim
    exact hdelim.trans (primaries_lpar sql)
  by_cases hkey : entry.1 = PRIMARY
  · rw [Model.createIndex, if_pos hkey]
    rfl
  · rw [createIndex_eq hkey, primaries_comma, indexText, hkind, hname, primaries_rpar,
      primaries_indexColumns]

theorem primaries_createColumn (conf : Config) (field : FieldMeta) :
    primaries (Model.createColumn conf field) = if field.isPk then 1 else 0 := by
  have hstretch (w : Str) : (stretchToks w).count (.kw .PRIMARY) = 0 := by
    unfold stretchToks
    split_ifs <;> rfl
  have hcreated : (createdToks field).count (.kw .PRIMARY) = if field.isPk then 1 else 0 := by
    cases hisPk : field.isPk <;> cases hnn : field.notNull <;> cases hai : field.autoInc <;>
      by_cases hd : field.default_ = [] <;> simp [createdToks, autoToks, hisPk, hnn, hai, hd]
  rw [← primaries_rpar, primaries, lexDdl_createColumn]
  simp only [List.count_append, hstretch, hcreated, Nat.zero_add]
  rfl

/-- The parts of a list count one by one: each of them starts with a comma. -/
theorem primaries_parts {α : Type} (f : α → Sql) (hf : ∀ x, f x = [] ∨ ∃ sql, f x = .ch ',' :: sql)
    (a : Sql) (xs : List α) :
    primaries (a ++ xs.flatMap f) = primaries a + (xs.map fun x => primaries (f x)).sum := by
  induction xs generalizing a with
  | nil => simp
  | cons x xs ih =>
    rw [List.flatMap_cons, ← List.append_assoc, ih, List.map_cons, List.sum_cons, ← Nat.add_assoc]
    congr 1
    obtain hx | ⟨sql, hx⟩ := hf x
    · rw [hx, List.append_nil]
      rfl
    · rw [hx, primaries_delim (by simp)]

/-- CREATE TABLE declares as many primary keys as columns are marked. -/
theorem primaries_createTable (conf : Config) (m : Model) :
    primaries (m.createTable conf) = m.metadata.countP FieldMeta.isPk := by
  have hcolumns : primaries (Model.createColumns conf m.metadata) =
      m.metadata.countP FieldMeta.isPk := by
    cases m.metadata with
    | nil => rfl
    | cons field fields =>
      have hmore : (fields.map fun f => primaries (lit ", " ++ Model.createColumn conf f)).sum =
          fields.countP FieldMeta.isPk := by
        induction fields with
        | nil => rfl
        | cons f fields ih =>
          rw [List.map_cons, List.sum_cons, ih, primaries_comma, primaries_createColumn,
            List.countP_cons, Nat.add_comm]
      have hparts := primaries_parts (fun f => lit ", " ++ Model.createColumn conf f)
        (fun f => Or.inr ⟨_, rfl⟩) (Model.createColumn conf field) fields
      rw [Model.createColumns, hparts, hmore, primaries_createColumn, List.countP_cons,
        Nat.add_comm]
  have hindices : (m.indices.entries.map fun e => primaries (Model.createIndex e)).sum = 0 := by
    simp [primaries_createIndex]
  have hblock (e : Sigma fun _ : Str => Index) :
      Model.createIndex e = [] ∨ ∃ sql, Model.createIndex e = .ch ',' :: sql := by
    by_cases hkey : e.1 = PRIMARY
    · exact Or.inl (by rw [Model.createIndex, if_pos hkey])
    · exact Or.inr ⟨_, createIndex_eq hkey⟩
  have hhead : primaries (lit "CREATE TABLE " ++ word m.getTableName) = 0 := by
    have hlex (sql : Sql) : lexDdl .none (lit "CREATE TABLE " ++ sql) =
        .kw .CREATE :: .kw .TABLE :: lexDdl .none sql := rfl
    have hword := primaries_word m.getTableName
    rw [primaries] at hword
    simp [primaries, hlex, hword]
  have hbody := primaries_delim (c := '(') (by simp) (lit "CREATE TABLE " ++ word m.getTableName)
    (Model.createColumns conf m.metadata ++ m.indices.entries.flatMap Model.createIndex)
  rw [hhead, Nat.zero_add] at hbody
  have htext : m.createTable conf = lit "CREATE TABLE " ++ word m.getTableName ++
      (lit "(" ++ (Model.createColumns conf m.metadata ++
        m.indices.entries.flatMap Model.createIndex)) ++ lit ")" := by
    simp only [Model.createTable, List.append_assoc]
  have hlist := primaries_lpar (Model.createColumns conf m.metadata ++
    m.indices.entries.flatMap Model.createIndex)
  rw [primaries_parts _ hblock, hcolumns, hindices, Nat.add_zero] at hlist
  rw [htext, primaries_rpar]
  exact hbody.trans hlist

/-! ## The two clauses of an index -/

section

variable {m : Model} {name : Str} {index : Index}

/-- `UNIQUE` stands for all types but the plain one. -/
theorem readClause_createIndex (hname : name ≠ PRIMARY) :
    readClause (Model.createIndex ⟨name, index⟩) =
      if index.name ≠ PRIMARY ∧ NamesColumns index.columns then
        some ⟨if index.type = .INDEX_TYPE_MUL then .INDEX_TYPE_MUL else .INDEX_TYPE_UNI,
          index.columns⟩
      else none := by
  have hend : lexDdl .none [] = [] := rfl
  have hkey (kind : IndexType) := readKey_columns kind index.name index.columns []
  rw [hend] at hkey
  have hpart : readPart (lexDdl .none (indexText index)) =
      if index.name ≠ PRIMARY ∧ NamesColumns index.columns then some (.inr (createdKey index), [])
      else none := by
    have hindex (sql : Sql) : readPart (lexDdl .none (lit "INDEX " ++ sql)) =
        (readKey .INDEX_TYPE_MUL (lexDdl .none sql)).map fun it => (.inr it.1, it.2) := by
      have hlex : lexDdl .none (lit "INDEX " ++ sql) = .kw .INDEX :: lexDdl .none sql := rfl
      rw [hlex]
      cases hread : readKey .INDEX_TYPE_MUL (lexDdl .none sql) <;> simp [readPart, hread]
    have hunique (sql : Sql) : readPart (lexDdl .none (lit "UNIQUE " ++ sql)) =
        (readKey .INDEX_TYPE_UNI (lexDdl .none sql)).map fun it => (.inr it.1, it.2) := by
      have hlex : lexDdl .none (lit "UNIQUE " ++ sql) = .kw .UNIQUE :: lexDdl .none sql := rfl
      rw [hlex]
      cases hread : readKey .INDEX_TYPE_UNI (lexDdl .none sql) <;> simp [readPart, hread]
    rw [List.append_nil] at hkey
    unfold indexText createdKey
    by_cases htype : index.type = .INDEX_TYPE_MUL
    · rw [if_pos htype, if_pos htype, hindex, hkey]
      split_ifs <;> rfl
    · rw [if_neg htype, if_neg htype, hunique, hkey]
      split_ifs <;> rfl
  have htext : Model.createIndex ⟨name, index⟩ = lit ", " ++ indexText index :=
    createIndex_eq hname
  rw [readClause, htext, lexDdl_comma]
  simp only [Pending.flush, List.nil_append, hpart]
  by_cases hok : index.name ≠ PRIMARY ∧ NamesColumns index.columns
  · rw [if_pos hok, if_pos hok]
    rfl
  · rw [if_neg hok, if_neg hok]

/-- Without a table name there is no statement. -/
theorem addedClause_of_unnamed (conf : Config) (hname : m.getTableName = [])
    (hindex : m.indices.lookup name = some index) : m.addedClause conf name = none := by
  have hread (sql : Sql) : readDdl (m.alterTable ++ (lit " " ++ (lit "ADD " ++ sql))) = none := by
    rw [Model.alterTable, hname]
    rfl
  rw [Model.addedClause, statement_addIndex conf hindex, Option.bind_some, hread]

theorem addedClause_eq (conf : Config) (hindex : m.indices.lookup name = some index) :
    m.addedClause conf name =
      if m.getTableName ≠ [] ∧ CompleteKey name index then some index.key else none := by
  by_cases hname : m.getTableName = []
  · rw [addedClause_of_unnamed conf hname hindex, if_neg fun h => h.1 hname]
  · rw [Model.addedClause, readDdl_addIndex hname conf hindex]
    by_cases hcomplete : CompleteKey name index
    · rw [if_pos hcomplete, if_pos ⟨hname, hcomplete⟩]
      rfl
    · rw [if_neg hcomplete, if_neg fun h => hcomplete h.2]

/-- Both clauses are complete, and so the same, if ADD prints one and the index is
not called `PRIMARY`. -/
theorem clauses_iff (conf : Config) (hindex : m.indices.lookup name = some index) :
    (∃ key, m.createdClause conf name index = some key ∧ m.addedClause conf name = some key) ↔
      m.getTableName ≠ [] ∧ CompleteKey name index ∧ index.name ≠ PRIMARY := by
  rw [addedClause_eq conf hindex]
  constructor
  · intro h
    obtain ⟨key, hcreated, hadded⟩ := h
    by_cases hok : m.getTableName ≠ [] ∧ CompleteKey name index
    · refine ⟨hok.1, hok.2, fun hprimary => ?_⟩
      have hnot : ¬ (index.name ≠ PRIMARY ∧ NamesColumns index.columns) := fun h => h.1 hprimary
      rw [Model.createdClause, if_neg hok.2.2.1, readClause_createIndex hok.2.2.1,
        if_neg hnot] at hcreated
      cases hcreated
    · rw [if_neg hok] at hadded
      cases hadded
  · intro h
    obtain ⟨htable, hcomplete, hname⟩ := h
    have hkind : (if index.type = .INDEX_TYPE_MUL then IndexType.INDEX_TYPE_MUL
        else .INDEX_TYPE_UNI) = index.type := by
      obtain htype | htype := hcomplete.1 <;> simp [htype]
    refine ⟨index.key, ?_, if_pos ⟨htable, hcomplete⟩⟩
    rw [Model.createdClause, if_neg hcomplete.2.1, readClause_createIndex hcomplete.2.1,
      if_pos ⟨hname, hcomplete.2.2⟩, hkind]
    rfl

end

/-- The model of a class with one column `id`, tagged `pk`. -/
def keyedModel : Model :=
  Model.construct "User".toList "user".toList [("id".toList, ⟨"int".toList, 0, "pk".toList⟩)] []

/-- ADD prints `PRIMARY KEY id)` for what CREATE TABLE calls `id int PRIMARY KEY`. -/
theorem primary_clauses_differ : ¬ ∀ conf m, Model.ClausesAgree conf m := by
  intro hall
  have hindex : keyedModel.indices.lookup PRIMARY =
      some ⟨.INDEX_TYPE_PRI, PRIMARY, ["id".toList]⟩ := by decide
  obtain ⟨key, -, hadded⟩ := (hall rulesJson keyedModel).same _ _ hindex
  rw [addedClause_eq rulesJson hindex, if_neg (by decide)] at hadded
  cases hadded

/-- The clauses agree in exactly the models that have no index of a third kind, none
under the name of the primary key, no index without columns, and at most one column
marked as the key. -/
theorem clauses_agree_iff (conf : Config) (m : Model) :
    m.ClausesAgree conf ↔
      (∀ name index, m.indices.lookup name = some index →
        m.getTableName ≠ [] ∧ CompleteKey name index ∧ index.name ≠ PRIMARY) ∧
      m.metadata.countP FieldMeta.isPk ≤ 1 := by
  constructor
  · intro h
    refine ⟨fun name index hindex => (clauses_iff conf hindex).mp (h.same name index hindex), ?_⟩
    rw [← primaries_createTable conf]
    exact h.primary
  · intro h
    refine ⟨fun name index hindex => (clauses_iff conf hindex).mpr (h.1 name index hindex), ?_⟩
    rw [primaries_createTable]
    exact h.2

end TinyOrm

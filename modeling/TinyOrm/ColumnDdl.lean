import TinyOrm.IndexMigration
import TinyOrm.Lib.Renaming
set_option autoImplicit false

/-!
What the column statements of a migration make of the columns of a table.
-/

namespace TinyOrm

/-! ## Column definitions -/

/-- The attributes a version declares. -/
def declaredDef (conf : Config) (field : FieldMeta) : ColumnDef where
  type := field.getColumnType conf
  notNull := field.notNull
  default_ := field.default_
  extra := field.extra
  autoInc := field.autoInc

/-- What stands directly before `extra` in ADD COLUMN and CHANGE. -/
def beforeExtra (conf : Config) (field : FieldMeta) : Str :=
  if field.default_ ≠ [] then field.default_
  else if field.notNull then []
  else field.getColumnType conf

/-- Nothing stands between `extra` and the token before it, and the two are read
as one. -/
def Fused (conf : Config) (field : FieldMeta) : Prop :=
  field.extra ≠ [] ∧ runsTogether (beforeExtra conf field) field.extra

instance (conf : Config) (field : FieldMeta) : Decidable (Fused conf field) :=
  inferInstanceAs (Decidable (_ ∧ _))

/-- The column that ADD COLUMN and CHANGE define. -/
def alteredDef (conf : Config) (field : FieldMeta) : ColumnDef :=
  if Fused conf field then
    if field.default_ ≠ [] then
      { declaredDef conf field with default_ := field.default_ ++ field.extra, extra := [] }
    else
      { declaredDef conf field with type := field.getColumnType conf ++ field.extra, extra := [] }
  else declaredDef conf field

/-- The column that CREATE TABLE defines. -/
def createdDef (conf : Config) (field : FieldMeta) : ColumnDef where
  type := field.getColumnType conf
  notNull := field.isPk || field.notNull
  default_ := field.default_
  autoInc := field.isPk && field.autoInc
  primaryKey := field.isPk

/-! ## ADD COLUMN and CHANGE -/

section Alter

variable {conf : Config} {field : FieldMeta}

/-- What is read from `extra` on, behind the tokens that are complete. -/
def extraToks (p : Pending) (field : FieldMeta) : List DdlTok :=
  lexDdl p (word field.extra ++ (if field.autoInc then lit " AUTO_INCREMENT " else []))

def autoToks (field : FieldMeta) : List DdlTok :=
  if field.autoInc then [.kw .AUTO_INCREMENT] else []

theorem extraToks_separate {p : Pending} (h : field.extra ≠ [] → p = .none ∨
    ∃ s, p = .given s ∧ runsTogether s field.extra = false) :
    extraToks p field =
      p.flush ++ (if field.extra = [] then [] else [.name field.extra]) ++ autoToks field := by
  have hauto (q : Pending) :
      lexDdl q (if field.autoInc then lit " AUTO_INCREMENT " else []) =
        q.flush ++ autoToks field := by
    cases hai : field.autoInc with
    | true => simp only [autoToks, hai, if_true]; rfl
    | false => simp [autoToks, hai, lexDdl]
  unfold extraToks
  by_cases he : field.extra = []
  · have hempty (rest : Sql) : lexDdl p (word [] ++ rest) = lexDdl p rest := rfl
    rw [he, hempty, hauto]
    simp
  · rw [if_neg he]
    rcases h he with rfl | ⟨s, rfl, hs⟩
    · rw [lexDdl_word he, hauto]
      rfl
    · simp only [word, List.cons_append, List.nil_append, lexDdl, he, if_false, hs,
        Bool.false_eq_true, hauto]
      simp [Pending.flush]

theorem extraToks_fused {s : Str} (he : field.extra ≠ []) (hs : runsTogether s field.extra = true) :
    extraToks (.given s) field = .name (s ++ field.extra) :: autoToks field := by
  unfold extraToks
  simp only [word, List.cons_append, List.nil_append, lexDdl, he, if_false, hs, if_true]
  cases hai : field.autoInc with
  | true => simp only [autoToks, hai, if_true]; rfl
  | false => simp [autoToks, hai, lexDdl, Pending.flush]

theorem readAttributes_auto (col : ColumnDef) (field : FieldMeta) :
    readAttributes col (autoToks field) =
      some ({ col with autoInc := col.autoInc || field.autoInc }, []) := by
  cases hai : field.autoInc <;> simp [autoToks, hai, readAttributes]

theorem extraToks_given {s : Str} (hs : beforeExtra conf field = s) :
    extraToks (.given s) field =
      if Fused conf field then .name (s ++ field.extra) :: autoToks field
      else .name s :: (if field.extra = [] then [] else [.name field.extra]) ++ autoToks field := by
  by_cases hfused : Fused conf field
  · rw [if_pos hfused, extraToks_fused hfused.1 (hs ▸ hfused.2)]
  · rw [if_neg hfused, extraToks_separate]
    · rfl
    · intro he
      refine Or.inr ⟨s, rfl, ?_⟩
      rw [← hs]
      exact Bool.eq_false_iff.mpr fun htrue => hfused ⟨he, htrue⟩

theorem readAttributes_default (conf : Config) (hd : field.default_ ≠ []) {col : ColumnDef}
    (hcol : col.extra = []) :
    readAttributes col (.kw .DEFAULT :: extraToks (.given field.default_) field) =
      some ({ col with
        default_ := if Fused conf field then field.default_ ++ field.extra else field.default_
        extra := if Fused conf field then [] else field.extra
        autoInc := col.autoInc || field.autoInc }, []) := by
  have hbefore : beforeExtra conf field = field.default_ := by simp [beforeExtra, hd]
  rw [extraToks_given hbefore]
  by_cases hfused : Fused conf field
  · simp [hfused, readAttributes, readAttributes_auto, hcol]
  · by_cases he : field.extra = [] <;>
      simp [hfused, he, readAttributes, readAttributes_auto, hcol]

/-- What follows the type. -/
def attributeSql (field : FieldMeta) : Sql :=
  (if field.notNull then lit " NOT NULL " else []) ++
    ((if field.default_.length > 0 then lit " DEFAULT " ++ word field.default_ else []) ++
      (word field.extra ++ (if field.autoInc then lit " AUTO_INCREMENT " else [])))

theorem lexDdl_notNull (p : Pending) (rest : Sql) : lexDdl p (lit " NOT NULL " ++ rest) =
    p.flush ++ .kw .NOT :: .kw .NULL :: lexDdl .none rest := rfl

theorem lexDdl_default (p : Pending) (rest : Sql) : lexDdl p (lit " DEFAULT " ++ rest) =
    p.flush ++ .kw .DEFAULT :: lexDdl .none rest := rfl

/-- The type, which `extra` may have joined, and the attributes behind it. -/
theorem readAttributes_altered (conf : Config) (field : FieldMeta) :
    ∃ type toks, lexDdl (.given (field.getColumnType conf)) (attributeSql field) =
        .name type :: toks ∧
      readAttributes { type := type } toks = some (alteredDef conf field, []) := by
  by_cases hd : field.default_ = []
  · cases hnn : field.notNull with
    | true =>
      have hbefore : beforeExtra conf field = [] := by simp [beforeExtra, hd, hnn]
      have hfused : ¬ Fused conf field := by simp [Fused, hbefore, runsTogether]
      refine ⟨field.getColumnType conf, .kw .NOT :: .kw .NULL :: extraToks .none field, ?_, ?_⟩
      · simp only [attributeSql, hnn, hd, if_true, lexDdl_notNull]
        rfl
      · rw [extraToks_separate fun _ => Or.inl rfl]
        by_cases he : field.extra = [] <;>
          simp [Pending.flush, he, readAttributes, readAttributes_auto, alteredDef, hfused,
            declaredDef, hnn, hd]
    | false =>
      have hbefore : beforeExtra conf field = field.getColumnType conf := by
        simp [beforeExtra, hd, hnn]
      have hsql : lexDdl (.given (field.getColumnType conf)) (attributeSql field) =
          extraToks (.given (field.getColumnType conf)) field := by
        simp [attributeSql, hnn, hd, extraToks]
      rw [hsql, extraToks_given hbefore]
      by_cases hfused : Fused conf field
      · refine ⟨_, _, if_pos hfused, ?_⟩
        simp [readAttributes_auto, alteredDef, hfused, declaredDef, hnn, hd]
      · refine ⟨_, _, if_neg hfused, ?_⟩
        by_cases he : field.extra = [] <;>
          simp [he, readAttributes, readAttributes_auto, alteredDef, hfused, declaredDef, hnn, hd]
  · have hpos : field.default_.length > 0 := List.length_pos_iff.mpr hd
    cases hnn : field.notNull with
    | true =>
      refine ⟨field.getColumnType conf, .kw .NOT :: .kw .NULL :: .kw .DEFAULT ::
        extraToks (.given field.default_) field, ?_, ?_⟩
      · simp only [attributeSql, hnn, hpos, if_true, lexDdl_notNull, List.append_assoc,
          lexDdl_default, lexDdl_word hd]
        rfl
      · rw [readAttributes, readAttributes_default conf hd rfl]
        by_cases hfused : Fused conf field <;> simp [alteredDef, hfused, declaredDef, hnn, hd]
    | false =>
      refine ⟨field.getColumnType conf, .kw .DEFAULT :: extraToks (.given field.default_) field, ?_,
        ?_⟩
      · simp only [attributeSql, hnn, hpos, if_true, Bool.false_eq_true, if_false,
          List.nil_append, List.append_assoc, lexDdl_default, lexDdl_word hd]
        rfl
      · rw [readAttributes_default conf hd rfl]
        by_cases hfused : Fused conf field <;> simp [alteredDef, hfused, declaredDef, hnn, hd]

/-- `name type attributes`, as it stands in ADD COLUMN and in CHANGE. -/
theorem lexDdl_alterColumn {name : Str} (hname : name ≠ [])
    (htype : field.getColumnType conf ≠ []) :
    ∃ type toks, lexDdl .none (Model.alterColumn conf name field) =
      .name name :: .name type :: toks ∧
      readAttributes { type := type } toks = some (alteredDef conf field, []) := by
  obtain ⟨type, toks, hlex, hread⟩ := readAttributes_altered conf field
  refine ⟨type, toks, ?_, hread⟩
  have hsql : Model.alterColumn conf name field =
      word name ++ (lit " " ++ (word (field.getColumnType conf) ++ attributeSql field)) := by
    simp only [Model.alterColumn, attributeSql, List.append_assoc]
  have hblank (rest : Sql) : lexDdl (.given name) (lit " " ++ rest) =
      .name name :: lexDdl .none rest := rfl
  rw [hsql, lexDdl_word hname, hblank, lexDdl_word htype, hlex]

variable {m : Model} {db : Database} {t : Table} {name : Str}

theorem execute_addColumn (hT : m.getTableName ≠ []) (hdb : db m.getTableName = some t)
    (hfield : m.getMetadata name = some field) (hname : name ≠ [])
    (htype : field.getColumnType conf ≠ []) (p : Str) :
    ∃ sql, m.statement conf ⟨name, .MIGACTION_ADD_COLUMN, p⟩ = some sql ∧
      db.execute sql = if (t.columns name).isSome then none
        else some (Function.update db m.getTableName (some
          { t with
            columns := Function.update t.columns name (some (alteredDef conf field)) })) := by
  obtain ⟨type, toks, hlex, hread⟩ := lexDdl_alterColumn hname htype
  have hadd (rest : Sql) : lexDdl .none (lit "ADD COLUMN " ++ rest) =
      .kw .ADD :: .kw .COLUMN :: lexDdl .none rest := rfl
  refine ⟨m.alterTable ++ (lit " " ++ (lit "ADD COLUMN " ++ Model.alterColumn conf name field)), ?_,
    ?_⟩
  · simp only [Model.statement, hfield, Option.bind_eq_bind, Option.bind_some, List.append_assoc]
    rfl
  · rw [Database.execute, readDdl, lexDdl_alterTable hT, hadd, hlex]
    simp only [readAlter, hread, Option.bind_some, Database.apply, Database.alter, hdb,
      Option.bind_eq_bind]
    by_cases hex : (t.columns name).isSome <;> simp [hex]

theorem execute_changeColumn (hT : m.getTableName ≠ []) (hdb : db m.getTableName = some t)
    (hfield : m.getMetadata name = some field) (hname : name ≠ [])
    (htype : field.getColumnType conf ≠ []) {p old : Str} (hold : old ≠ [])
    (hp : (if p.length = 0 then name else p) = old) :
    ∃ sql, m.statement conf ⟨name, .MIGACTION_CHANGE_COLUMN, p⟩ = some sql ∧
      db.execute sql = if (t.columns old).isNone ∨ (name ≠ old ∧ (t.columns name).isSome) then none
        else some (Function.update db m.getTableName (some { t with
          columns := Function.update (Function.update t.columns old none) name
            (some (alteredDef conf field)) })) := by
  obtain ⟨type, toks, hlex, hread⟩ := lexDdl_alterColumn hname htype
  have hchange (rest : Sql) : lexDdl .none (lit "CHANGE " ++ (word old ++ (lit " " ++ rest))) =
      .kw .CHANGE :: .name old :: lexDdl .none rest := by
    have hkw (rest : Sql) : lexDdl .none (lit "CHANGE " ++ rest) =
        .kw .CHANGE :: lexDdl .none rest := rfl
    have hblank : lexDdl (.given old) (lit " " ++ rest) = .name old :: lexDdl .none rest := rfl
    rw [hkw, lexDdl_word hold, hblank]
  refine ⟨m.alterTable ++ (lit " " ++ (lit "CHANGE " ++ (word old ++ (lit " " ++
    Model.alterColumn conf name field)))), ?_, ?_⟩
  · simp only [Model.statement, hfield, hp, Option.bind_eq_bind, Option.bind_some,
      List.append_assoc]
    rfl
  · rw [Database.execute, readDdl, lexDdl_alterTable hT, hchange, hlex]
    simp only [readAlter, hread, Option.bind_some, Database.apply, Database.alter, hdb,
      Option.bind_eq_bind]
    by_cases hex : (t.columns old).isNone ∨ (name ≠ old ∧ (t.columns name).isSome)
    · rw [if_pos hex, if_pos hex]
      rfl
    · rw [if_neg hex, if_neg hex]
      rfl

end Alter

/-! ## CREATE TABLE -/

/-- A text that ends the part before it, with a comma or the closing parenthesis. -/
structure Ends (sql : Sql) (tok : DdlTok) (toks : List DdlTok) : Prop where
  delim : tok = .comma ∨ tok = .rpar
  lex : ∀ p, lexDdl p sql = p.flush ++ tok :: toks

def Reads (sql : Sql) (part : Part) : Prop :=
  ∀ rest tok toks, Ends rest tok toks →
    readPart (lexDdl .none (sql ++ rest)) = some (part, tok :: toks)

def partsText (items : List (Sql × Part)) : Sql := items.flatMap fun item => lit ", " ++ item.1

theorem readParts_items {sql : Sql} {part : Part} (h : Reads sql part)
    (items : List (Sql × Part)) (hitems : ∀ item ∈ items, Reads item.1 item.2) {fuel : Nat}
    (hfuel : items.length < fuel) :
    readParts fuel (lexDdl .none (sql ++ (partsText items ++ lit ")"))) =
      some (part :: items.map Prod.snd) := by
  induction items generalizing sql part fuel with
  | nil =>
    obtain ⟨fuel, rfl⟩ : ∃ n, fuel = n + 1 := ⟨fuel - 1, by omega⟩
    have hread := h (lit ")") .rpar [] ⟨Or.inr rfl, fun _ => rfl⟩
    have htext : partsText [] ++ lit ")" = lit ")" := rfl
    rw [htext, readParts, hread]
    rfl
  | cons item items ih =>
    simp only [List.length_cons] at hfuel
    obtain ⟨fuel, rfl⟩ : ∃ n, fuel = n + 1 := ⟨fuel - 1, by omega⟩
    have htext : partsText (item :: items) ++ lit ")" =
        lit ", " ++ (item.1 ++ (partsText items ++ lit ")")) := by
      simp [partsText]
    have hread := h (partsText (item :: items) ++ lit ")") .comma
      (lexDdl .none (item.1 ++ (partsText items ++ lit ")")))
      ⟨Or.inl rfl, fun p => by rw [htext, lexDdl_comma]⟩
    have hlt : items.length < fuel := by omega
    have hrest := ih (hitems item (by simp)) (fun i hi => hitems i (by simp [hi])) hlt
    rw [readParts, hread]
    simp [hrest]

/-- The attributes that CREATE TABLE prints. -/
def createdToks (field : FieldMeta) : List DdlTok :=
  (if field.isPk then .kw .PRIMARY :: .kw .KEY :: autoToks field
  else if field.notNull then [.kw .NOT, .kw .NULL] else []) ++
  (if field.default_ = [] then [] else [.kw .DEFAULT, .name field.default_])

theorem lexDdl_created (field : FieldMeta) {rest : Sql} {tok : DdlTok} {toks : List DdlTok}
    (h : Ends rest tok toks) (p : Pending) :
    lexDdl p ((if field.isPk then
        lit " PRIMARY KEY" ++ (if field.autoInc then lit " AUTO_INCREMENT" else [])
      else if field.notNull then lit " NOT NULL" else []) ++
      ((if field.default_.length > 0 then lit " DEFAULT " ++ word field.default_ else []) ++
        rest)) =
      p.flush ++ createdToks field ++ tok :: toks := by
  have hdefault (q : Pending) :
      lexDdl q
        ((if field.default_.length > 0 then lit " DEFAULT " ++ word field.default_ else []) ++
        rest) = q.flush ++ (if field.default_ = [] then [] else
          [.kw .DEFAULT, .name field.default_]) ++ tok :: toks := by
    by_cases hd : field.default_ = []
    · simp [hd, h.lex]
    · have hpos : field.default_.length > 0 := List.length_pos_iff.mpr hd
      rw [if_pos hpos, if_neg hd, List.append_assoc, lexDdl_default, lexDdl_word hd, h.lex]
      simp [Pending.flush]
  have hpk (q : Pending) (rest : Sql) : lexDdl q (lit " PRIMARY KEY" ++ rest) =
      q.flush ++ .kw .PRIMARY :: lexDdl (.printed "KEY".toList) rest := rfl
  have hauto (q : Pending) (rest : Sql) : lexDdl q (lit " AUTO_INCREMENT" ++ rest) =
      q.flush ++ lexDdl (.printed "AUTO_INCREMENT".toList) rest := rfl
  have hnull (q : Pending) (rest : Sql) : lexDdl q (lit " NOT NULL" ++ rest) =
      q.flush ++ .kw .NOT :: lexDdl (.printed "NULL".toList) rest := rfl
  have hkey : (Pending.printed "KEY".toList).flush = [.kw .KEY] := rfl
  have hinc : (Pending.printed "AUTO_INCREMENT".toList).flush = [.kw .AUTO_INCREMENT] := rfl
  have hnul : (Pending.printed "NULL".toList).flush = [.kw .NULL] := rfl
  cases hisPk : field.isPk with
  | true =>
    cases hai : field.autoInc with
    | true =>
      simp only [if_true, List.append_assoc, hpk, hauto, hdefault, hkey, hinc, createdToks, hisPk,
        autoToks, hai, List.cons_append, List.nil_append]
    | false =>
      simp only [if_true, Bool.false_eq_true, if_false, List.append_assoc, List.nil_append, hpk,
        hdefault, hkey, createdToks, hisPk, autoToks, hai, List.cons_append]
  | false =>
    cases hnn : field.notNull with
    | true =>
      simp only [if_true, Bool.false_eq_true, if_false, List.append_assoc, hnull, hdefault, hnul,
        createdToks, hisPk, hnn, List.cons_append, List.nil_append]
    | false =>
      simp only [Bool.false_eq_true, if_false, List.nil_append, hdefault, createdToks, hisPk, hnn,
        List.append_assoc]

theorem readAttributes_created (conf : Config) (field : FieldMeta) {tok : DdlTok}
    {toks : List DdlTok} (htok : tok = .comma ∨ tok = .rpar) :
    readAttributes { type := field.getColumnType conf } (createdToks field ++ tok :: toks) =
      some (createdDef conf field, tok :: toks) := by
  have hstop (col : ColumnDef) : readAttributes col (tok :: toks) = some (col, tok :: toks) := by
    rcases htok with rfl | rfl <;> simp [readAttributes]
  have hdefault (col : ColumnDef) (hcol : col.default_ = []) : readAttributes col
      ((if field.default_ = [] then [] else [.kw .DEFAULT, .name field.default_]) ++ tok :: toks) =
        some ({ col with default_ := field.default_ }, tok :: toks) := by
    by_cases hd : field.default_ = []
    · simp only [hd, if_true, List.nil_append, hstop, ← hcol]
    · simp [hd, readAttributes, hstop]
  cases hisPk : field.isPk with
  | true =>
    cases hai : field.autoInc <;>
      simp [createdToks, hisPk, autoToks, hai, readAttributes, hdefault, createdDef]
  | false =>
    cases hnn : field.notNull <;>
      simp [createdToks, hisPk, hnn, readAttributes, hdefault, createdDef]

theorem reads_createColumn {conf : Config} {field : FieldMeta} (hname : field.getColumnName ≠ [])
    (htype : field.getColumnType conf ≠ []) :
    Reads (Model.createColumn conf field) (.inl (field.getColumnName, createdDef conf field)) := by
  intro rest tok toks h
  have hblank (q : Str) (rest : Sql) : lexDdl (.given q) (lit " " ++ rest) =
      .name q :: lexDdl .none rest := rfl
  have hlex : lexDdl .none (Model.createColumn conf field ++ rest) =
      .name field.getColumnName :: .name (field.getColumnType conf) ::
        (createdToks field ++ tok :: toks) := by
    simp only [Model.createColumn, List.append_assoc]
    rw [lexDdl_word hname, hblank, lexDdl_word htype]
    have hrest := lexDdl_created field h (.given (field.getColumnType conf))
    simp only [List.append_assoc] at hrest
    rw [hrest]
    rfl
  rw [hlex, readPart, readAttributes_created conf field h.delim]
  rfl

def indexText (index : Index) : Sql :=
  (if index.type = .INDEX_TYPE_MUL then lit "INDEX " else lit "UNIQUE ") ++
    (word index.name ++ (lit "(" ++ (Model.indexColumns index.columns ++ lit ")")))

def createdKey (index : Index) : Key where
  kind := if index.type = .INDEX_TYPE_MUL then .INDEX_TYPE_MUL else .INDEX_TYPE_UNI
  name := index.name
  columns := index.columns

theorem reads_indexText {index : Index} (hname : index.name ≠ PRIMARY)
    (hcols : NamesColumns index.columns) : Reads (indexText index) (.inr (createdKey index)) := by
  intro rest tok toks h
  have hend : lexDdl .none rest = tok :: toks := h.lex .none
  have hindex (sql : Sql) : lexDdl .none (lit "INDEX " ++ sql) = .kw .INDEX :: lexDdl .none sql :=
    rfl
  have hunique (sql : Sql) : lexDdl .none (lit "UNIQUE " ++ sql) =
      .kw .UNIQUE :: lexDdl .none sql := rfl
  have hkey (kind : IndexType) : readKey kind (lexDdl .none (word index.name ++ (lit "(" ++
      (Model.indexColumns index.columns ++ (lit ")" ++ rest))))) =
        some (⟨kind, index.name, index.columns⟩, tok :: toks) := by
    rw [readKey_columns, if_pos ⟨hname, hcols⟩, hend]
  by_cases htype : index.type = .INDEX_TYPE_MUL
  · simp only [indexText, htype, if_true, List.append_assoc, hindex, readPart, hkey, createdKey]
    rfl
  · simp only [indexText, htype, if_false, List.append_assoc, hunique, readPart, hkey, createdKey]
    rfl

/-- An index map whose clauses in CREATE TABLE can be read. -/
def IndicesReadable (indices : Indices) : Prop :=
  ∀ entry ∈ indices.entries, entry.1 ≠ PRIMARY →
    entry.2.name ≠ PRIMARY ∧ NamesColumns entry.2.columns

instance (indices : Indices) : Decidable (IndicesReadable indices) :=
  inferInstanceAs (Decidable (∀ entry ∈ indices.entries, _))

def columnItems (conf : Config) (fields : List FieldMeta) : List (Sql × Part) :=
  fields.map fun field =>
    (Model.createColumn conf field, .inl (field.getColumnName, createdDef conf field))

def indexItems (indices : Indices) : List (Sql × Part) :=
  (indices.entries.filter fun entry => entry.1 ≠ PRIMARY).map fun entry =>
    (indexText entry.2, .inr (createdKey entry.2))

theorem createIndex_items (indices : Indices) :
    indices.entries.flatMap Model.createIndex = partsText (indexItems indices) := by
  unfold indexItems partsText
  induction indices.entries with
  | nil => rfl
  | cons entry entries ih =>
    by_cases hkey : entry.1 = PRIMARY
    · simp only [List.flatMap_cons, Model.createIndex, hkey, if_true, List.nil_append, ih, ne_eq,
        not_true_eq_false, decide_false, Bool.false_eq_true, not_false_eq_true,
        List.filter_cons_of_neg]
    · simp [Model.createIndex, hkey, ih, indexText]

theorem createColumns_items (conf : Config) (field : FieldMeta) (fields : List FieldMeta) :
    Model.createColumns conf (field :: fields) =
      Model.createColumn conf field ++ partsText (columnItems conf fields) := by
  simp [Model.createColumns, partsText, columnItems, List.flatMap_map]

theorem length_partsText (items : List (Sql × Part)) : items.length ≤ (partsText items).length := by
  induction items with
  | nil => simp [partsText]
  | cons item items ih =>
    have hcons : partsText (item :: items) = lit ", " ++ item.1 ++ partsText items := rfl
    have hcomma : (lit ", ").length = 2 := rfl
    simp only [hcons, List.length_append, hcomma, List.length_cons]
    omega

theorem columns_of_items (conf : Config) (fields : List FieldMeta) (indices : Indices) :
    ((columnItems conf fields ++ indexItems indices).map Prod.snd).filterMap Sum.getLeft? =
      fields.map fun field => (field.getColumnName, createdDef conf field) := by
  simp [columnItems, indexItems, Function.comp_def]

/-- CREATE TABLE as it is read. -/
theorem readDdl_createTable {conf : Config} {m : Model} (hT : m.getTableName ≠ [])
    (hcols : m.metadata ≠ [])
    (hnames : ∀ field ∈ m.metadata, field.getColumnName ≠ [] ∧ field.getColumnType conf ≠ [])
    (hindices : IndicesReadable m.indices) :
    ∃ keys, readDdl (m.createTable conf) = some (.createTable m.getTableName
      (m.metadata.map fun field => (field.getColumnName, createdDef conf field)) keys) := by
  obtain ⟨field, fields, hmeta⟩ := List.exists_cons_of_ne_nil hcols
  have hitems : ∀ item ∈ columnItems conf fields ++ indexItems m.indices, Reads item.1 item.2 := by
    intro item hitem
    rcases List.mem_append.mp hitem with hitem | hitem
    · obtain ⟨f, hf, rfl⟩ := List.mem_map.mp hitem
      have hok := hnames f (by simp [hmeta, hf])
      exact reads_createColumn hok.1 hok.2
    · obtain ⟨entry, hentry, rfl⟩ := List.mem_map.mp hitem
      have hmem := List.mem_filter.mp hentry
      have hok := hindices entry hmem.1 (by simpa using hmem.2)
      exact reads_indexText hok.1 hok.2
  have hfirst := hnames field (by simp [hmeta])
  have htext : m.createTable conf = lit "CREATE TABLE " ++ (word m.getTableName ++ (lit "(" ++
      (Model.createColumn conf field ++
        (partsText (columnItems conf fields ++ indexItems m.indices) ++ lit ")")))) := by
    have hsplit : partsText (columnItems conf fields ++ indexItems m.indices) =
        partsText (columnItems conf fields) ++ partsText (indexItems m.indices) := by
      simp [partsText]
    simp only [Model.createTable, hmeta, createColumns_items, createIndex_items, hsplit,
      List.append_assoc]
  have hfuel : (columnItems conf fields ++ indexItems m.indices).length <
      (m.createTable conf).length := by
    have hlen := length_partsText (columnItems conf fields ++ indexItems m.indices)
    have hcreate : (lit "CREATE TABLE ").length = 13 := rfl
    rw [htext]
    simp only [List.length_append, hcreate] at hlen ⊢
    omega
  have hread := readParts_items (reads_createColumn hfirst.1 hfirst.2) _ hitems hfuel
  have hcreate (rest : Sql) : lexDdl .none (lit "CREATE TABLE " ++ rest) =
      .kw .CREATE :: .kw .TABLE :: lexDdl .none rest := rfl
  refine ⟨((columnItems conf fields ++ indexItems m.indices).map Prod.snd).filterMap
    Sum.getRight?, ?_⟩
  unfold readDdl
  nth_rewrite 1 [htext]
  rw [hcreate, lexDdl_word hT, lexDdl_lpar]
  simp only [Pending.flush, List.cons_append, List.nil_append, hread, Option.bind_eq_bind,
    Option.bind_some]
  rw [hmeta, List.map_cons, ← columns_of_items conf fields m.indices]
  rfl

/-- CREATE TABLE makes a table with one column for each declared one. -/
theorem execute_createTable {conf : Config} {m : Model} {db : Database} (hT : m.getTableName ≠ [])
    (hdb : db m.getTableName = none) (hcols : m.metadata ≠ [])
    (hnames : ∀ field ∈ m.metadata, field.getColumnName ≠ [] ∧ field.getColumnType conf ≠ [])
    (hindices : IndicesReadable m.indices) :
    ∃ indices, db.execute (m.createTable conf) = some (Function.update db m.getTableName (some
      { columns := fun name => (m.metadata.map fun field =>
          (field.getColumnName, createdDef conf field)).lookup name
        indices := indices })) := by
  obtain ⟨keys, hddl⟩ := readDdl_createTable hT hcols hnames hindices
  refine ⟨createdIndices (m.metadata.map fun field =>
    (field.getColumnName, createdDef conf field)) keys, ?_⟩
  simp [Database.execute, hddl, Database.apply, hdb]

end TinyOrm

import TinyOrm.CatalogRows
import TinyOrm.Migration
import TinyOrm.Lib.Like
set_option autoImplicit false

/-!
The queries of `DatabaseMetadata` on information_schema: their texts, what the
server reads of them, and the rows that they select (mysql4cpp/databasemetadata.cpp).
-/

namespace TinyOrm

/-! ## information_schema -/

/-- A row of a table of information_schema: of which table of which schema it tells. -/
structure SchemaRow (α : Type) where
  TABLE_SCHEMA : Str
  TABLE_NAME : Str
  row : α

/-- The rows that tell of one table. -/
def rowsOf {α : Type} (rows : List (SchemaRow α)) (schema table : Str) : List α :=
  (rows.filter fun r => r.TABLE_SCHEMA = schema && r.TABLE_NAME = table).map (·.row)

/-- The columns of a table have different names, and its indexes are over them. -/
structure InformationSchema where
  COLUMNS : List (SchemaRow ColumnRow)
  STATISTICS : List (SchemaRow IndexRow)
  names_nodup : ∀ schema table, ((rowsOf COLUMNS schema table).map (·.COLUMN_NAME)).Nodup
  index_columns : ∀ schema table, ∀ row ∈ rowsOf STATISTICS schema table,
    row.COLUMN_NAME ∈ (rowsOf COLUMNS schema table).map (·.COLUMN_NAME)

/-! ## The texts -/

def joinText (sep : Str) : List Str → Str
  | [] => []
  | [a] => a
  | a :: b :: rest => a ++ sep ++ joinText sep (b :: rest)

namespace DatabaseMetadata

def selectText (select : List Str) : Str :=
  "SELECT ".toList ++ (if select.length = 0 then "*".toList else joinText ", ".toList select)

def getColumns (schemaPattern tablePattern columnPattern : Str) (select : List Str) : Str :=
  selectText select ++ " FROM COLUMNS WHERE TABLE_SCHEMA LIKE '".toList ++ schemaPattern ++
    "' AND TABLE_NAME LIKE '".toList ++ tablePattern ++ "' AND COLUMN_NAME LIKE '".toList ++
    columnPattern ++ "'".toList

def getIndices (schemaPattern tablePattern : Str) (select : List Str) : Str :=
  selectText select ++ " FROM STATISTICS WHERE TABLE_SCHEMA LIKE '".toList ++ schemaPattern ++
    "' AND TABLE_NAME LIKE '".toList ++ tablePattern ++ "'".toList

end DatabaseMetadata

/-- What `loadFromDB` selects. -/
def columnSelect : List Str :=
  ["COLUMN_NAME".toList, "COLUMN_TYPE".toList, "IS_NULLABLE".toList, "COLUMN_DEFAULT".toList,
    "EXTRA".toList]

def indexSelect : List Str := ["INDEX_NAME".toList, "NON_UNIQUE".toList, "COLUMN_NAME".toList]

/-! ## Reading the conditions -/

/-- The character that `\c` stands for in a string; before a wildcard the backslash
is kept. -/
def unescape (c : Char) : Str :=
  if c = '0' then ['\x00']
  else if c = 'b' then ['\x08']
  else if c = 'n' then ['\n']
  else if c = 'r' then ['\r']
  else if c = 't' then ['\t']
  else if c = 'Z' then ['\x1a']
  else if c = '%' ∨ c = '_' then ['\\', c]
  else [c]

/-- A string literal behind its opening quote, and the text behind the closing one. -/
def readLiteral : Str → Option (Str × Str)
  | [] => none
  | '\'' :: '\'' :: s => (readLiteral s).map fun r => ('\'' :: r.1, r.2)
  | '\'' :: s => some ([], s)
  | '\\' :: c :: s => (readLiteral s).map fun r => (unescape c ++ r.1, r.2)
  | c :: s => (readLiteral s).map fun r => (c :: r.1, r.2)

/-- `\` takes away the meaning of the character behind it. -/
def likePattern : Str → List (Like.Tok Char)
  | [] => []
  | ['\\'] => [.lit '\\']
  | '\\' :: c :: s => .lit c :: likePattern s
  | '%' :: s => .many :: likePattern s
  | '_' :: s => .one :: likePattern s
  | c :: s => .lit c :: likePattern s

def strip? (front s : Str) : Option Str :=
  if s.take front.length = front then some (s.drop front.length) else none

/-- What stands between a condition and those of the columns that are left. -/
def toNext (columns : List Str) (s : Str) : Option Str :=
  if columns = [] then some s else strip? " AND ".toList s

/-- `column LIKE '...' AND ...` for the columns, up to the end. -/
def readLikes : List Str → Str → Option (List (List (Like.Tok Char)))
  | [], s => if s = [] then some [] else none
  | column :: columns, s => do
    let s ← strip? (column ++ " LIKE '".toList) s
    let (literal, s) ← readLiteral s
    let s ← toNext columns s
    let patterns ← readLikes columns s
    some (likePattern literal :: patterns)

/-- The patterns of a query on a table of information_schema. -/
def readQuery (select : List Str) (table : Str) (columns : List Str) (sql : Str) :
    Option (List (List (Like.Tok Char))) := do
  let s ← strip? (DatabaseMetadata.selectText select ++ " FROM ".toList ++ table ++
    " WHERE ".toList) sql
  readLikes columns s

def schemaAndTable : List Str := ["TABLE_SCHEMA".toList, "TABLE_NAME".toList]

namespace InformationSchema

variable (is : InformationSchema)

/-- The rows that the query for columns selects; none if the server cannot read it. -/
def queryColumns (sql : Str) : Option (List ColumnRow) := do
  let patterns ← readQuery columnSelect "COLUMNS".toList
    (schemaAndTable ++ ["COLUMN_NAME".toList]) sql
  match patterns with
  | [schema, table, column] =>
    some ((is.COLUMNS.filter fun r => Like.accepts schema r.TABLE_SCHEMA &&
      Like.accepts table r.TABLE_NAME && Like.accepts column r.row.COLUMN_NAME).map (·.row))
  | _ => none

def queryIndices (sql : Str) : Option (List IndexRow) := do
  let patterns ← readQuery indexSelect "STATISTICS".toList schemaAndTable sql
  match patterns with
  | [schema, table] =>
    some ((is.STATISTICS.filter fun r => Like.accepts schema r.TABLE_SCHEMA &&
      Like.accepts table r.TABLE_NAME).map (·.row))
  | _ => none

/-- The catalog that `loadFromDB` sees for a schema. -/
def catalog (db : Str) : Catalog where
  getColumns tableName :=
    is.queryColumns (DatabaseMetadata.getColumns db tableName "%%".toList columnSelect)
  getIndices tableName :=
    is.queryIndices (DatabaseMetadata.getIndices db tableName indexSelect)

def tableRows (schema table : Str) : CatalogRows where
  columns := rowsOf is.COLUMNS schema table
  indexes := rowsOf is.STATISTICS schema table
  names_nodup := is.names_nodup schema table
  index_columns := is.index_columns schema table

end InformationSchema

/-! ## What is read of a name -/

/-- A character that neither the literal nor the pattern takes for another. -/
def plainChar (c : Char) : Bool := c ≠ '\'' && c ≠ '\\' && c ≠ '%' && c ≠ '_'

def Plain (s : Str) : Prop := s.all plainChar = true

instance (s : Str) : Decidable (Plain s) := inferInstanceAs (Decidable (_ = true))

theorem readLiteral_plain {s : Str} (h : Plain s) {rest : Str}
    (hrest : rest.head? ≠ some '\'') : readLiteral (s ++ '\'' :: rest) = some (s, rest) := by
  induction s with
  | nil =>
    cases rest with
    | nil => rfl
    | cons c rest =>
      have hc : c ≠ '\'' := by simpa using hrest
      simp [readLiteral, hc]
  | cons c s ih =>
    simp only [Plain, List.all_cons, Bool.and_eq_true, plainChar, decide_eq_true_eq] at h
    obtain ⟨⟨⟨⟨hquote, hback⟩, -⟩, -⟩, hs⟩ := h
    simp [readLiteral, hquote, hback, ih hs]

theorem likePattern_plain {s : Str} (h : Plain s) : likePattern s = s.map .lit := by
  induction s with
  | nil => rfl
  | cons c s ih =>
    simp only [Plain, List.all_cons, Bool.and_eq_true, plainChar, decide_eq_true_eq] at h
    obtain ⟨⟨⟨⟨-, hback⟩, hmany⟩, hone⟩, hs⟩ := h
    rw [likePattern.eq_6 c s (fun h => absurd h hback) (fun _ _ h => absurd h hback) hmany hone,
      ih hs, List.map_cons]

theorem unescape_cases (c : Char) : (unescape c).length = 1 ∨
    (unescape c = ['\\', c] ∧ c ≠ '\'' ∧ c ≠ '\\') := by
  unfold unescape
  repeat' split
  all_goals first | exact .inl rfl | skip
  rename_i hwild
  refine .inr ⟨rfl, ?_, ?_⟩ <;> rcases hwild with rfl | rfl <;> decide

/-- A literal is not longer than what it is written as, and as long only if nothing
in it was taken for something else but a backslash before a wildcard. -/
theorem readLiteral_source {input literal rest : Str}
    (h : readLiteral input = some (literal, rest)) :
    ∃ source, input = source ++ '\'' :: rest ∧ literal.length ≤ source.length ∧
      (literal.length = source.length →
        literal = source ∧ '\'' ∉ source ∧ source.getLast? ≠ some '\\') := by
  induction input using readLiteral.induct generalizing literal with
  | case1 => cases h
  | case2 s ih =>
    rw [readLiteral, Option.map_eq_some_iff] at h
    obtain ⟨⟨literal', rest'⟩, hread, heq⟩ := h
    obtain ⟨rfl, rfl⟩ := Prod.mk.inj heq
    obtain ⟨source, rfl, hle, -⟩ := ih hread
    refine ⟨'\'' :: '\'' :: source, rfl, ?_, fun hlength => ?_⟩
    · simp only [List.length_cons]
      omega
    · simp only [List.length_cons] at hlength
      omega
  | case3 s hs =>
    rw [readLiteral.eq_3 s hs] at h
    obtain ⟨rfl, rfl⟩ := Prod.mk.inj (Option.some.inj h)
    exact ⟨[], rfl, Nat.le_refl _, fun _ => ⟨rfl, by simp, by simp⟩⟩
  | case4 c s ih =>
    rw [readLiteral, Option.map_eq_some_iff] at h
    obtain ⟨⟨literal', rest'⟩, hread, heq⟩ := h
    obtain ⟨rfl, rfl⟩ := Prod.mk.inj heq
    obtain ⟨source, rfl, hle, hsame⟩ := ih hread
    refine ⟨'\\' :: c :: source, rfl, ?_⟩
    rcases unescape_cases c with hone | ⟨hkept, hquote, hback⟩
    · simp only [List.length_append, hone, List.length_cons]
      exact ⟨by omega, fun hlength => by omega⟩
    · rw [hkept]
      refine ⟨by simpa using hle, fun hlength => ?_⟩
      obtain ⟨rfl, hnot, hlast⟩ := hsame (by simpa using hlength)
      refine ⟨rfl, by simpa [Ne.symm hquote] using hnot, ?_⟩
      cases literal' with
      | nil => simpa using hback
      | cons d literal' => simpa using hlast
  | case5 c s _ hquote hback ih =>
    rw [readLiteral.eq_5 c s (by tauto) hquote hback, Option.map_eq_some_iff] at h
    obtain ⟨⟨literal', rest'⟩, hread, heq⟩ := h
    obtain ⟨rfl, rfl⟩ := Prod.mk.inj heq
    obtain ⟨source, rfl, hle, hsame⟩ := ih hread
    refine ⟨c :: source, rfl, by simpa using hle, fun hlength => ?_⟩
    obtain ⟨rfl, hnot, hlast⟩ := hsame (by simpa using hlength)
    refine ⟨rfl, by simpa [Ne.symm (show c ≠ '\'' from hquote)] using hnot, ?_⟩
    cases literal' with
    | nil =>
      have hc : c ≠ '\\' := fun heq => hback '\'' rest' heq rfl
      simpa using hc
    | cons d literal' => simpa using hlast

theorem length_likePattern_le (s : Str) : (likePattern s).length ≤ s.length := by
  induction s using likePattern.induct with
  | case1 => exact Nat.le_refl _
  | case2 => exact Nat.le_refl _
  | case3 c s ih =>
    simp only [likePattern, List.length_cons]
    omega
  | case4 s ih => simpa [likePattern] using ih
  | case5 s ih => simpa [likePattern] using ih
  | case6 c s h1 h2 h3 h4 ih =>
    rw [likePattern.eq_6 c s h1 h2 h3 h4]
    simpa using ih

/-- A pattern without wildcards that is as long as its text is the text. -/
theorem plain_of_likePattern {s w : Str} (h : likePattern s = w.map .lit)
    (hlength : w.length = s.length) (hquote : '\'' ∉ s) (hlast : s.getLast? ≠ some '\\') :
    w = s ∧ Plain s := by
  induction s using likePattern.induct generalizing w with
  | case1 =>
    obtain rfl : w = [] := List.length_eq_zero_iff.mp hlength
    exact ⟨rfl, rfl⟩
  | case2 => exact absurd rfl hlast
  | case3 c s ih =>
    have hle := length_likePattern_le s
    have hpattern := congrArg List.length h
    simp only [likePattern, List.length_cons, List.length_map] at hpattern hlength
    omega
  | case4 s ih =>
    cases w with
    | nil => cases hlength
    | cons d w => simp [likePattern] at h
  | case5 s ih =>
    cases w with
    | nil => cases hlength
    | cons d w => simp [likePattern] at h
  | case6 c s h1 h2 h3 h4 ih =>
    cases w with
    | nil => cases hlength
    | cons d w =>
      rw [likePattern.eq_6 c s h1 h2 h3 h4, List.map_cons] at h
      obtain ⟨hd, hw⟩ := List.cons.inj h
      obtain rfl : c = d := Like.Tok.lit.inj hd
      simp only [List.mem_cons, not_or] at hquote
      have hback : c ≠ '\\' := by
        intro heq
        cases s with
        | nil => exact h1 heq rfl
        | cons d s => exact h2 d s heq rfl
      have hlast' : s.getLast? ≠ some '\\' := by
        cases s with
        | nil => simp
        | cons e s => simpa using hlast
      obtain ⟨rfl, hplain⟩ := ih hw (by simpa using hlength) hquote.2 hlast'
      refine ⟨rfl, ?_⟩
      have hc : plainChar c = true := by
        simp only [plainChar, Bool.and_eq_true, decide_eq_true_eq]
        exact ⟨⟨⟨Ne.symm hquote.1, hback⟩, h3⟩, h4⟩
      simpa [Plain, hc] using hplain

/-! ## Reading the texts -/

theorem strip?_append (front s : Str) : strip? front (front ++ s) = some s := by
  simp [strip?]

theorem eq_append_of_strip? {front s rest : Str} (h : strip? front s = some rest) :
    s = front ++ rest := by
  unfold strip? at h
  split at h
  · rename_i hfront
    have hsplit := List.take_append_drop front.length s
    rw [hfront, Option.some.inj h] at hsplit
    exact hsplit.symm
  · cases h

theorem readLikes_cons (column : Str) {columns : List Str} (hne : columns ≠ []) {name : Str}
    (h : Plain name) (s : Str) :
    readLikes (column :: columns) (column ++ (" LIKE '".toList ++ (name ++
      ("' AND ".toList ++ s)))) = (readLikes columns s).map (name.map .lit :: ·) := by
  have hquote : "' AND ".toList ++ s = '\'' :: (" AND ".toList ++ s) := rfl
  have hhead : (" AND ".toList ++ s).head? ≠ some '\'' := by
    have hblank : (" AND ".toList ++ s).head? = some ' ' := rfl
    rw [hblank]
    decide
  have hread : readLiteral (name ++ ("' AND ".toList ++ s)) = some (name, " AND ".toList ++ s) := by
    rw [hquote, readLiteral_plain h hhead]
  rw [readLikes, ← List.append_assoc column, strip?_append]
  simp only [Option.bind_eq_bind, Option.bind_some, hread, toNext, if_neg hne, strip?_append,
    likePattern_plain h]
  cases readLikes columns s <;> rfl

/-- The last condition, whose pattern need not be plain. -/
theorem readLikes_last (column : Str) {pattern literal : Str}
    (h : readLiteral (pattern ++ "'".toList) = some (literal, [])) :
    readLikes [column] (column ++ (" LIKE '".toList ++ (pattern ++ "'".toList))) =
      some [likePattern literal] := by
  rw [readLikes, ← List.append_assoc column, strip?_append]
  simp only [Option.bind_eq_bind, Option.bind_some, h, toNext, if_true, readLikes]

/-- The texts as the reader takes them apart. -/
theorem getColumns_eq (schema table column : Str) (select : List Str) :
    DatabaseMetadata.getColumns schema table column select =
      (DatabaseMetadata.selectText select ++ " FROM ".toList ++ "COLUMNS".toList ++
        " WHERE ".toList) ++ ("TABLE_SCHEMA".toList ++ (" LIKE '".toList ++ (schema ++
          ("' AND ".toList ++ ("TABLE_NAME".toList ++ (" LIKE '".toList ++ (table ++
            ("' AND ".toList ++ ("COLUMN_NAME".toList ++ (" LIKE '".toList ++ (column ++
              "'".toList))))))))))) := by
  have hfrom : " FROM COLUMNS WHERE TABLE_SCHEMA LIKE '".toList = " FROM ".toList ++
    ("COLUMNS".toList ++ (" WHERE ".toList ++ ("TABLE_SCHEMA".toList ++ " LIKE '".toList))) := rfl
  have htable : "' AND TABLE_NAME LIKE '".toList =
    "' AND ".toList ++ ("TABLE_NAME".toList ++ " LIKE '".toList) := rfl
  have hcolumn : "' AND COLUMN_NAME LIKE '".toList =
    "' AND ".toList ++ ("COLUMN_NAME".toList ++ " LIKE '".toList) := rfl
  rw [DatabaseMetadata.getColumns, hfrom, htable, hcolumn]
  simp only [List.append_assoc]

theorem getIndices_eq (schema table : Str) (select : List Str) :
    DatabaseMetadata.getIndices schema table select =
      (DatabaseMetadata.selectText select ++ " FROM ".toList ++ "STATISTICS".toList ++
        " WHERE ".toList) ++ ("TABLE_SCHEMA".toList ++ (" LIKE '".toList ++ (schema ++
          ("' AND ".toList ++ ("TABLE_NAME".toList ++ (" LIKE '".toList ++ (table ++
            "'".toList))))))) := by
  have hfrom : " FROM STATISTICS WHERE TABLE_SCHEMA LIKE '".toList = " FROM ".toList ++
    ("STATISTICS".toList ++ (" WHERE ".toList ++ ("TABLE_SCHEMA".toList ++ " LIKE '".toList))) :=
    rfl
  have htable : "' AND TABLE_NAME LIKE '".toList =
    "' AND ".toList ++ ("TABLE_NAME".toList ++ " LIKE '".toList) := rfl
  rw [DatabaseMetadata.getIndices, hfrom, htable]
  simp only [List.append_assoc]

theorem readQuery_columns {schema table : Str} (hschema : Plain schema) (htable : Plain table) :
    readQuery columnSelect "COLUMNS".toList (schemaAndTable ++ ["COLUMN_NAME".toList])
      (DatabaseMetadata.getColumns schema table "%%".toList columnSelect) =
      some [schema.map .lit, table.map .lit, List.replicate 2 .many] := by
  have hcolumn : readLiteral ("%%".toList ++ "'".toList) = some ("%%".toList, []) := by decide
  have hlast := readLikes_last "COLUMN_NAME".toList hcolumn
  rw [readQuery, getColumns_eq, strip?_append, Option.bind_eq_bind, Option.bind_some,
    schemaAndTable, List.cons_append, readLikes_cons _ (by simp) hschema, List.cons_append,
    readLikes_cons _ (by simp) htable, List.nil_append, hlast]
  rfl

theorem readQuery_indices {schema table : Str} (hschema : Plain schema) (htable : Plain table) :
    readQuery indexSelect "STATISTICS".toList schemaAndTable
      (DatabaseMetadata.getIndices schema table indexSelect) =
      some [schema.map .lit, table.map .lit] := by
  have hread : readLiteral (table ++ "'".toList) = some (table, []) :=
    readLiteral_plain htable (by decide)
  rw [readQuery, getIndices_eq, strip?_append, Option.bind_eq_bind, Option.bind_some,
    schemaAndTable, readLikes_cons _ (by simp) hschema, readLikes_last _ hread,
    likePattern_plain htable]
  rfl

/-- What a literal was written as. -/
def WrittenAs (literal source : Str) : Prop :=
  literal.length ≤ source.length ∧ (literal.length = source.length →
    literal = source ∧ '\'' ∉ source ∧ source.getLast? ≠ some '\\')

theorem readLikes_source {column : Str} {columns : List Str} {s : Str}
    {patterns : List (List (Like.Tok Char))} (h : readLikes (column :: columns) s = some patterns) :
    ∃ literal source rest more, WrittenAs literal source ∧
      s = column ++ (" LIKE '".toList ++ (source ++ ("'".toList ++
        ((if columns = [] then [] else " AND ".toList) ++ rest)))) ∧
      readLikes columns rest = some more ∧ patterns = likePattern literal :: more := by
  simp only [readLikes, Option.bind_eq_bind, Option.bind_eq_some_iff, Option.some.injEq] at h
  obtain ⟨s1, hs1, ⟨literal, s2⟩, hread, rest, hrest, more, hmore, rfl⟩ := h
  obtain ⟨source, rfl, hwritten⟩ := readLiteral_source hread
  refine ⟨literal, source, rest, more, hwritten, ?_, hmore, rfl⟩
  rw [eq_append_of_strip? hs1, List.append_assoc]
  rw [toNext] at hrest
  by_cases hnil : columns = []
  · rw [if_pos hnil] at hrest
    obtain rfl : s2 = rest := Option.some.inj hrest
    rw [if_pos hnil]
    rfl
  · rw [if_neg hnil] at hrest
    obtain rfl := eq_append_of_strip? hrest
    rw [if_neg hnil]
    rfl

theorem readQuery_source {select : List Str} {table name1 name2 sql : Str}
    {patterns : List (List (Like.Tok Char))}
    (h : readQuery select table [name1, name2] sql = some patterns) :
    ∃ literal1 source1 literal2 source2, patterns = [likePattern literal1, likePattern literal2] ∧
      WrittenAs literal1 source1 ∧ WrittenAs literal2 source2 ∧
      sql = (DatabaseMetadata.selectText select ++ " FROM ".toList ++ table ++ " WHERE ".toList) ++
        (name1 ++ (" LIKE '".toList ++ (source1 ++ ("'".toList ++ (" AND ".toList ++ (name2 ++
          (" LIKE '".toList ++ (source2 ++ "'".toList)))))))) := by
  rw [readQuery, Option.bind_eq_bind, Option.bind_eq_some_iff] at h
  obtain ⟨s, hselect, h⟩ := h
  obtain ⟨literal1, source1, rest1, more1, hwritten1, hs, hmore1, rfl⟩ := readLikes_source h
  obtain ⟨literal2, source2, rest2, more2, hwritten2, hrest1, hmore2, rfl⟩ :=
    readLikes_source hmore1
  rw [readLikes] at hmore2
  split at hmore2
  · rename_i hnil
    obtain rfl := Option.some.inj hmore2
    refine ⟨literal1, source1, literal2, source2, rfl, hwritten1, hwritten2, ?_⟩
    rw [eq_append_of_strip? hselect, hs, hrest1, hnil]
    simp
  · cases hmore2

/-- The names are as long together as what stands in their places, so that each is
the text of its own pattern. -/
theorem plain_of_patterns {schema table : Str}
    (h : readQuery indexSelect "STATISTICS".toList schemaAndTable
      (DatabaseMetadata.getIndices schema table indexSelect) =
        some [schema.map .lit, table.map .lit]) : Plain schema ∧ Plain table := by
  obtain ⟨literal1, source1, literal2, source2, hpatterns, ⟨hle1, hsame1⟩, ⟨hle2, hsame2⟩, hsql⟩ :=
    readQuery_source h
  simp only [List.cons.injEq, and_true] at hpatterns
  obtain ⟨hpattern1, hpattern2⟩ := hpatterns
  have hlength1 := congrArg List.length hpattern1
  have hlength2 := congrArg List.length hpattern2
  rw [List.length_map] at hlength1 hlength2
  have hshort1 := length_likePattern_le literal1
  have hshort2 := length_likePattern_le literal2
  have hquote : "' AND ".toList = "'".toList ++ " AND ".toList := rfl
  rw [getIndices_eq, hquote] at hsql
  have htotal := congrArg List.length hsql
  simp only [List.length_append] at htotal
  obtain ⟨rfl, hquote1, hlast1⟩ := hsame1 (by omega)
  obtain ⟨rfl, hquote2, hlast2⟩ := hsame2 (by omega)
  obtain ⟨rfl, hplain1⟩ := plain_of_likePattern hpattern1.symm (by omega) hquote1 hlast1
  obtain ⟨rfl, hplain2⟩ := plain_of_likePattern hpattern2.symm (by omega) hquote2 hlast2
  exact ⟨hplain1, hplain2⟩

/-! ## The rows that are selected -/

namespace InformationSchema

variable {is : InformationSchema}

def Exists (is : InformationSchema) (schema table : Str) : Prop :=
  rowsOf is.COLUMNS schema table ≠ []

theorem accepts_name (name s : Str) : Like.accepts (name.map .lit) s = decide (s = name) := by
  rw [Bool.eq_iff_iff, Like.accepts_map_lit, decide_eq_true_eq]

theorem getColumns_plain {schema table : Str} (hschema : Plain schema) (htable : Plain table) :
    (is.catalog schema).getColumns table = some (rowsOf is.COLUMNS schema table) := by
  simp only [catalog, queryColumns, readQuery_columns hschema htable, Option.bind_eq_bind,
    Option.bind_some, accepts_name, Like.accepts_replicate_many 1, Bool.and_true, rowsOf]

theorem getIndices_plain {schema table : Str} (hschema : Plain schema) (htable : Plain table) :
    (is.catalog schema).getIndices table = some (rowsOf is.STATISTICS schema table) := by
  simp only [catalog, queryIndices, readQuery_indices hschema htable, Option.bind_eq_bind,
    Option.bind_some, accepts_name, rowsOf]

/-- The first lookup of a model whose table the file does not name. -/
theorem loadFromDB_plain {schema table : Str} (hschema : Plain schema) (htable : Plain table)
    (conf : Config) : ∃ d, loadFromDB conf (is.catalog schema) table {} = some d ∧
      (is.tableRows schema table).After conf (rowsOf is.STATISTICS schema table) d :=
  CatalogRows.loadFromDB_rows conf (c := is.tableRows schema table)
    (getColumns_plain hschema htable) (getIndices_plain hschema htable)

/-- A table without columns leaves the outputs as they are. -/
theorem loadFromDB_missing {schema table : Str} (hschema : Plain schema) (htable : Plain table)
    (conf : Config) (h : ¬ is.Exists schema table) (out : Loaded) :
    loadFromDB conf (is.catalog schema) table out = some out := by
  have hrows : rowsOf is.COLUMNS schema table = [] := not_not.mp h
  simp [loadFromDB, getColumns_plain hschema htable, hrows]

theorem loadFromDB_exists {schema table : Str} (hschema : Plain schema) (htable : Plain table)
    (conf : Config) (h : is.Exists schema table) :
    ∃ d, loadFromDB conf (is.catalog schema) table {} = some d ∧ d.fields.length ≠ 0 := by
  have hload : ∃ d, loadFromDB conf (is.catalog schema) table {} = some d ∧
      (is.tableRows schema table).After conf (rowsOf is.STATISTICS schema table) d :=
    loadFromDB_plain hschema htable conf
  obtain ⟨d, hload, hafter⟩ := hload
  refine ⟨d, hload, ?_⟩
  rw [hafter.fields, List.length_map]
  exact fun hzero => h (List.length_eq_zero_iff.mp hzero)

/-- The queries for these tables of a schema give the rows of the table and no
others, and a table is created exactly if the model has none yet, under either of
its names. -/
structure LooksUp (schema : Str) (tables : Set Str) : Prop where
  columns : ∀ (is : InformationSchema), ∀ table ∈ tables,
    (is.catalog schema).getColumns table = some (rowsOf is.COLUMNS schema table)
  indices : ∀ (is : InformationSchema), ∀ table ∈ tables,
    (is.catalog schema).getIndices table = some (rowsOf is.STATISTICS schema table)
  loads : ∀ (is : InformationSchema) (conf : Config), ∀ table ∈ tables,
    ∃ d, loadFromDB conf (is.catalog schema) table {} = some d ∧
      (is.tableRows schema table).After conf (rowsOf is.STATISTICS schema table) d
  creates : ∀ (is : InformationSchema) (conf : Config) (m : Model), m.getTableName ∈ tables →
    m.getDefaultTableName ∈ tables →
    ∃ prev cmds, m.searchTable conf (is.catalog schema) {} = some (prev, cmds) ∧
      (⟨[], .MIGACTION_CREATE_TABLE, []⟩ ∈ cmds ↔
        ¬ is.Exists schema m.getTableName ∧ ¬ is.Exists schema m.getDefaultTableName)

theorem searchTable_plain {schema : Str} {m : Model} (hschema : Plain schema)
    (htable : Plain m.getTableName) (hdefault : Plain m.getDefaultTableName) (conf : Config) :
    ∃ prev cmds, m.searchTable conf (is.catalog schema) {} = some (prev, cmds) ∧
      (⟨[], .MIGACTION_CREATE_TABLE, []⟩ ∈ cmds ↔
        ¬ is.Exists schema m.getTableName ∧ ¬ is.Exists schema m.getDefaultTableName) := by
  have hstart : ({} : Loaded).tableName.length = 0 := rfl
  have hempty : ({} : Loaded).fields.length = 0 := rfl
  by_cases hfound : is.Exists schema m.getTableName
  · obtain ⟨d, hload, hfields⟩ := loadFromDB_exists hschema htable conf hfound
    refine ⟨d, [], ?_, by simp [hfound]⟩
    simp only [Model.searchTable, if_pos hstart, hload, Option.bind_eq_bind, Option.bind_some,
      if_neg hfields]
  · have hmissing := loadFromDB_missing hschema htable conf hfound {}
    by_cases hold : is.Exists schema m.getDefaultTableName
    · obtain ⟨d, hload, hfields⟩ := loadFromDB_exists hschema hdefault conf hold
      refine ⟨d, [m.renameCmd], ?_, by simp [hold, Model.renameCmd]⟩
      simp only [Model.searchTable, if_pos hstart, hmissing, hload, Option.bind_eq_bind,
        Option.bind_some, if_pos hempty, if_neg hfields]
    · have hmissing' := loadFromDB_missing hschema hdefault conf hold {}
      refine ⟨{}, [⟨[], .MIGACTION_CREATE_TABLE, []⟩], ?_, by simp [hfound, hold]⟩
      simp only [Model.searchTable, if_pos hstart, hmissing, hmissing', Option.bind_eq_bind,
        Option.bind_some, if_pos hempty]

theorem looksUp_of_plain {schema : Str} {tables : Set Str}
    (h : ∀ table ∈ tables, Plain schema ∧ Plain table) : LooksUp schema tables where
  columns := fun _ table htable => getColumns_plain (h table htable).1 (h table htable).2
  indices := fun _ table htable => getIndices_plain (h table htable).1 (h table htable).2
  loads := fun _ conf table htable => loadFromDB_plain (h table htable).1 (h table htable).2 conf
  creates := fun _ conf _ htable hdefault =>
    searchTable_plain (h _ htable).1 (h _ htable).2 (h _ hdefault).2 conf

/-! ## Names with wildcards -/

/-- A database of one table with a column and an index. -/
def oneTable (schema table : Str) : InformationSchema where
  COLUMNS := [⟨schema, table, "id".toList, "int".toList, "NO".toList, [], []⟩]
  STATISTICS := [⟨schema, table, PRIMARY, 0, "id".toList⟩]
  names_nodup := by
    intro schema' table'
    by_cases h : schema = schema' ∧ table = table' <;> simp [rowsOf, h]
  index_columns := by
    intro schema' table' row hrow
    by_cases h : schema = schema' ∧ table = table'
    · simp only [rowsOf, h, decide_true, Bool.and_self, List.filter_cons_of_pos, List.filter_nil,
        List.map_cons, List.map_nil, List.mem_singleton] at hrow ⊢
      rw [hrow]
    · simp [rowsOf, h] at hrow

theorem length_filter_one {α : Type} (r : SchemaRow α) (p : SchemaRow α → Bool) :
    (([r].filter p).map (·.row)).length = if p r = true then 1 else 0 := by
  cases h : p r <;> simp [h]

theorem queryIndices_oneTable {schema table a b sql : Str}
    {pattern1 pattern2 : List (Like.Tok Char)}
    (hread : readQuery indexSelect "STATISTICS".toList schemaAndTable sql =
      some [pattern1, pattern2])
    (h : (oneTable a b).queryIndices sql = some (rowsOf (oneTable a b).STATISTICS schema table)) :
    (Like.accepts pattern1 a = true ∧ Like.accepts pattern2 b = true) ↔ a = schema ∧ b = table := by
  rw [queryIndices, hread, Option.bind_eq_bind, Option.bind_some, Option.some.injEq] at h
  have hlength := congrArg List.length h
  simp only [oneTable, rowsOf, length_filter_one, Bool.and_eq_true, decide_eq_true_eq] at hlength
  by_cases haccept : Like.accepts pattern1 a = true ∧ Like.accepts pattern2 b = true <;>
    by_cases hsame : a = schema ∧ b = table
  · exact iff_of_true haccept hsame
  · rw [if_pos haccept, if_neg hsame] at hlength
    cases hlength
  · rw [if_neg haccept, if_pos hsame] at hlength
    cases hlength
  · exact iff_of_false haccept hsame

/-- Each of the two patterns accepts the name alone. -/
theorem LooksUp.plain {schema : Str} {tables : Set Str} (h : LooksUp schema tables) {table : Str}
    (htable : table ∈ tables) : Plain schema ∧ Plain table := by
  have : Nontrivial Char := ⟨'a', 'b', by decide⟩
  have hindices := fun a b => h.indices (oneTable a b) table htable
  simp only [catalog] at hindices
  have hown := hindices schema table
  rw [queryIndices, Option.bind_eq_bind, Option.bind_eq_some_iff] at hown
  obtain ⟨patterns, hread, -⟩ := hown
  obtain ⟨literal1, -, literal2, -, rfl, -⟩ := readQuery_source hread
  have haccepts := fun a b => queryIndices_oneTable hread (hindices a b)
  have hboth := (haccepts schema table).mpr ⟨rfl, rfl⟩
  have hpattern1 : likePattern literal1 = schema.map .lit := by
    refine (Like.accepts_only_iff _ schema).mp fun s => ⟨fun hs => ?_, fun hs => hs ▸ hboth.1⟩
    exact ((haccepts s table).mp ⟨hs, hboth.2⟩).1
  have hpattern2 : likePattern literal2 = table.map .lit := by
    refine (Like.accepts_only_iff _ table).mp fun s => ⟨fun hs => ?_, fun hs => hs ▸ hboth.2⟩
    exact ((haccepts schema s).mp ⟨hboth.1, hs⟩).2
  rw [hpattern1, hpattern2] at hread
  exact plain_of_patterns hread

theorem looksUp_iff (schema : Str) (tables : Set Str) :
    LooksUp schema tables ↔ ∀ table ∈ tables, Plain schema ∧ Plain table :=
  ⟨fun h _ htable => h.plain htable, looksUp_of_plain⟩

/-- The table `user_info` is looked up where only `userXinfo` exists: its column is
found, and no table is created. -/
theorem underscore_matches :
    ((oneTable "app".toList "userXinfo".toList).catalog "app".toList).getColumns
        "user_info".toList = some [⟨"id".toList, "int".toList, "NO".toList, [], []⟩] ∧
      rowsOf (oneTable "app".toList "userXinfo".toList).COLUMNS "app".toList
        "user_info".toList = [] ∧
      ((Model.searchTable rulesJson { className := "UserInfo".toList }
        ((oneTable "app".toList "userXinfo".toList).catalog "app".toList) {}).map (·.2)) =
          some [] ∧
      ¬ LooksUp "app".toList {"user_info".toList} := by
  have hcolumns : ((oneTable "app".toList "userXinfo".toList).catalog "app".toList).getColumns
      "user_info".toList = some [⟨"id".toList, "int".toList, "NO".toList, [], []⟩] := by decide
  have hrows : rowsOf (oneTable "app".toList "userXinfo".toList).COLUMNS "app".toList
      "user_info".toList = [] := by decide
  refine ⟨hcolumns, hrows, by decide, fun h => ?_⟩
  have hexact := h.columns (oneTable "app".toList "userXinfo".toList) _ rfl
  rw [hcolumns, hrows] at hexact
  cases hexact

end InformationSchema

end TinyOrm

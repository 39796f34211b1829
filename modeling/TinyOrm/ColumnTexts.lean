import TinyOrm.ColumnDdl
set_option autoImplicit false

/-!
The two renderings of a column: as a part of CREATE TABLE and behind ADD COLUMN
or CHANGE (model.h).
-/

namespace TinyOrm

/-! ## Blank-separated tokens -/

theorem Util.splitFrom_eq_nil {seps : Str} {n : Nat} {str : Str} (hn : str.length ≤ n) :
    Util.splitFrom seps n str = [] ↔ ∀ c ∈ str, c ∈ seps := by
  induction n generalizing str with
  | zero =>
    have hnil : str = [] := List.length_eq_zero_iff.mp (by omega)
    simp [hnil, Util.splitFrom]
  | succ n ih =>
    cases str with
    | nil => simp [Util.splitFrom]
    | cons c cs =>
      simp only [List.length_cons] at hn
      by_cases hc : c ∈ seps
      · simp [Util.splitFrom, hc, ih (by omega : cs.length ≤ n)]
      · have hne : Util.splitFrom seps (n + 1) (c :: cs) ≠ [] := by
          simp only [Util.splitFrom, hc, if_false]
          split <;> simp
        simp [hne, hc]

def blankTokens (s : Str) : List Str := Util.split s [' ']

@[simp] theorem blankTokens_nil : blankTokens [] = [] := rfl

theorem blankTokens_eq_nil {s : Str} : blankTokens s = [] ↔ ∀ c ∈ s, c = ' ' := by
  simp [blankTokens, Util.split, Util.splitFrom_eq_nil (Nat.le_refl _)]

/-- A stretch without a token separates. -/
theorem not_runsTogether_blank {s w : Str} (h : blankTokens w = []) : runsTogether s w = false := by
  cases w with
  | nil => cases hs : s.getLast? <;> simp [runsTogether, hs]
  | cons c w =>
    have hc : c = ' ' := blankTokens_eq_nil.mp h c (by simp)
    have hident : identChar ' ' = false := by decide
    cases hs : s.getLast? with
    | none => simp [runsTogether, hs]
    | some a =>
      simp only [runsTogether, hs, List.head?_cons, hc, hident, Bool.and_false, Bool.false_or]
      by_cases ha : a = ' '
      · simp [ha]
      · simp [ha]

/-! ## One column, twice -/

/-- The same column, `PRIMARY KEY` apart. -/
structure ColumnDef.Same (a b : ColumnDef) : Prop where
  type : blankTokens a.type = blankTokens b.type
  notNull : a.notNull = b.notNull
  default_ : blankTokens a.default_ = blankTokens b.default_
  extra : blankTokens a.extra = blankTokens b.extra
  autoInc : a.autoInc = b.autoInc

/-- CREATE TABLE and the ALTER TABLE statements define the same column, each part
of it a stretch of its own. -/
def SameDefinition (conf : Config) (field : FieldMeta) : Prop :=
  ∃ created altered : ColumnDef,
    readPart (lexDdl .none (Model.createColumn conf field ++ lit ")")) =
      some (.inl (field.getColumnName, created), [.rpar]) ∧
    readPart (lexDdl .none (Model.alterColumn conf field.getColumnName field)) =
      some (.inl (field.getColumnName, altered), []) ∧
    created.Same altered ∧ ¬ Fused conf field

section

variable {conf : Config} {field : FieldMeta}

/-- A stretch between two delimiters. -/
def stretchToks (w : Str) : List DdlTok := if w = [] then [] else [.name w]

theorem lexDdl_createColumn (conf : Config) (field : FieldMeta) :
    lexDdl .none (Model.createColumn conf field ++ lit ")") =
      stretchToks field.getColumnName ++ (stretchToks (field.getColumnType conf) ++
        (createdToks field ++ [.rpar])) := by
  have hend : Ends (lit ")") .rpar [] := ⟨Or.inr rfl, fun p => rfl⟩
  have hempty (sql : Sql) : lexDdl .none (word [] ++ sql) = lexDdl .none sql := rfl
  have hblank (p : Pending) (sql : Sql) :
      lexDdl p (lit " " ++ sql) = p.flush ++ lexDdl .none sql := rfl
  have hattrs (p : Pending) := lexDdl_created field hend p
  have htype : lexDdl .none (word (field.getColumnType conf) ++
      ((if field.isPk then
        lit " PRIMARY KEY" ++ (if field.autoInc then lit " AUTO_INCREMENT" else [])
      else if field.notNull then lit " NOT NULL" else []) ++
      ((if field.default_.length > 0 then lit " DEFAULT " ++ word field.default_ else []) ++
        lit ")"))) =
      stretchToks (field.getColumnType conf) ++ (createdToks field ++ [.rpar]) := by
    by_cases ht : field.getColumnType conf = []
    · rw [ht, hempty, hattrs]
      rfl
    · rw [lexDdl_word ht, hattrs, stretchToks, if_neg ht]
      rfl
  simp only [Model.createColumn, List.append_assoc] at htype ⊢
  by_cases hname : field.getColumnName = []
  · rw [hname, hempty, hblank, htype]
    rfl
  · have hstretch : stretchToks field.getColumnName = [.name field.getColumnName] := if_neg hname
    rw [lexDdl_word hname, hblank, htype, hstretch]
    rfl

/-- Without a name or a type no column can be read. -/
theorem readPart_createColumn (conf : Config) (field : FieldMeta) :
    readPart (lexDdl .none (Model.createColumn conf field ++ lit ")")) =
      if field.getColumnName ≠ [] ∧ field.getColumnType conf ≠ [] then
        some (.inl (field.getColumnName, createdDef conf field), [.rpar])
      else none := by
  by_cases hok : field.getColumnName ≠ [] ∧ field.getColumnType conf ≠ []
  · rw [if_pos hok]
    exact reads_createColumn hok.1 hok.2 (lit ")") .rpar [] ⟨Or.inr rfl, fun p => rfl⟩
  · -- the attributes start with a keyword, so there is at most one stretch
    have hattrs (n : Str) : readPart (createdToks field ++ [.rpar]) = none ∧
        readPart (.name n :: (createdToks field ++ [.rpar])) = none := by
      cases hisPk : field.isPk <;> cases hnn : field.notNull <;>
        by_cases hd : field.default_ = [] <;> simp [createdToks, hisPk, hnn, hd, readPart]
    rw [if_neg hok, lexDdl_createColumn]
    by_cases hname : field.getColumnName = [] <;>
      by_cases htype : field.getColumnType conf = []
    · simp only [stretchToks, hname, htype, if_true, List.nil_append, hattrs []]
    · simp only [stretchToks, hname, htype, if_true, if_false, List.nil_append, List.cons_append,
        hattrs]
    · simp only [stretchToks, hname, htype, if_true, if_false, List.nil_append, List.cons_append,
        hattrs]
    · exact absurd ⟨hname, htype⟩ hok

theorem readPart_alterColumn (hname : field.getColumnName ≠ [])
    (htype : field.getColumnType conf ≠ []) :
    readPart (lexDdl .none (Model.alterColumn conf field.getColumnName field)) =
      some (.inl (field.getColumnName, alteredDef conf field), []) := by
  obtain ⟨type, toks, hlex, hread⟩ := lexDdl_alterColumn hname htype
  rw [hlex, readPart, hread]
  rfl

/-- CREATE TABLE prints no `extra`, prints `AUTO_INCREMENT` for a primary key only,
and makes every primary key `NOT NULL`. -/
structure Uniform (conf : Config) (field : FieldMeta) : Prop where
  name : field.getColumnName ≠ []
  type : field.getColumnType conf ≠ []
  extra : blankTokens field.extra = []
  autoInc : field.autoInc → field.isPk
  notNull : field.isPk → field.notNull

theorem same_of_uniform (h : Uniform conf field) :
    (createdDef conf field).Same (alteredDef conf field) ∧ ¬ Fused conf field := by
  have hfused : ¬ Fused conf field := by
    intro hfused
    simp [Fused, not_runsTogether_blank h.extra] at hfused
  refine ⟨?_, hfused⟩
  rw [alteredDef, if_neg hfused]
  constructor
  case type => rfl
  case default_ => rfl
  case extra => exact h.extra.symm
  case notNull =>
    have hnn := h.notNull
    cases hisPk : field.isPk <;> simp_all [createdDef, declaredDef]
  case autoInc =>
    have hai := h.autoInc
    cases hautoInc : field.autoInc <;> simp_all [createdDef, declaredDef]

/-- The two renderings define the same column in exactly these cases. -/
theorem sameDefinition_iff (conf : Config) (field : FieldMeta) :
    SameDefinition conf field ↔ Uniform conf field := by
  constructor
  · rintro ⟨created, altered, hcreated, haltered, hsame, hfused⟩
    rw [readPart_createColumn] at hcreated
    by_cases hok : field.getColumnName ≠ [] ∧ field.getColumnType conf ≠ []
    · rw [if_pos hok] at hcreated
      rw [readPart_alterColumn hok.1 hok.2, alteredDef, if_neg hfused] at haltered
      obtain rfl : createdDef conf field = created := by simpa using hcreated
      obtain rfl : declaredDef conf field = altered := by simpa using haltered
      have hnn : (field.isPk || field.notNull) = field.notNull := hsame.notNull
      have hai : (field.isPk && field.autoInc) = field.autoInc := hsame.autoInc
      constructor
      case name => exact hok.1
      case type => exact hok.2
      case extra => exact hsame.extra.symm
      case autoInc =>
        intro hautoInc
        simpa [hautoInc] using hai
      case notNull =>
        intro hisPk
        simpa [hisPk] using hnn
    · rw [if_neg hok] at hcreated
      cases hcreated
  · intro h
    have hcreated := readPart_createColumn conf field
    rw [if_pos ⟨h.name, h.type⟩] at hcreated
    obtain ⟨hsame, hfused⟩ := same_of_uniform h
    exact ⟨_, _, hcreated, readPart_alterColumn h.name h.type, hsame, hfused⟩

end

/-- `age int unsigned DEFAULT 0`. -/
def sampleUnsignedColumn : FieldMeta where
  fieldName := "age".toList
  cppType := "int".toList
  columnType := some "int".toList
  default_ := "0".toList
  extra := "unsigned".toList

/-- CREATE TABLE says `age int DEFAULT 0`, ADD COLUMN `age int DEFAULT 0unsigned`. -/
theorem unsigned_differs : ¬ ∀ (conf : Config) (field : FieldMeta), SameDefinition conf field := by
  intro hall
  obtain ⟨_, _, _, _, _, hfused⟩ := hall rulesJson sampleUnsignedColumn
  exact hfused (by decide)

example : text (Model.createColumn rulesJson sampleUnsignedColumn) = "age int DEFAULT 0".toList ∧
    text (Model.alterColumn rulesJson "age".toList sampleUnsignedColumn) =
      "age int DEFAULT 0unsigned".toList := by decide

end TinyOrm

import TinyOrm.TableRows
set_option autoImplicit false

/-!
What the macros of a generated header register.
-/

namespace TinyOrm

/-! ## Names -/

theorem nameChar_range {c : Char} (h : nameChar c = true) :
    (48 ≤ c.toNat ∧ c.toNat ≤ 57) ∨ 65 ≤ c.toNat := by
  simp only [nameChar, islower, isupper, Char.isDigit, Bool.or_eq_true, Bool.and_eq_true,
    decide_eq_true_eq, ge_iff_le, Char.le_def, UInt32.le_iff_toNat_le] at h
  rcases h with ((⟨hlo, -⟩ | ⟨hlo, -⟩) | ⟨hlo, hhi⟩) | rfl
  · have hlo' : 97 ≤ c.toNat := hlo
    exact .inr (by omega)
  · exact .inr hlo
  · exact .inl ⟨hlo, hhi⟩
  · exact .inr (by decide)

theorem nameChar_wordChar {c : Char} (h : nameChar c = true) : wordChar c = true := by
  rcases nameChar_range h with ⟨hlo, hhi⟩ | hletter
  · have hne {d : Char} (hd : d.toNat < 48 ∨ 57 < d.toNat) : c ≠ d := by
      rintro rfl
      omega
    have hspace : isspace c = false := by
      have hcr : ¬ c ≤ '\r' := by
        rw [Char.le_def]
        intro hle
        have hnat : c.toNat ≤ 13 := hle
        omega
      simp [isspace, hcr, hne (d := ' ') (by decide)]
    simp [wordChar, hspace, hne (d := ',') (by decide), hne (d := '=') (by decide)]
  · exact wordChar_of_letter hletter

theorem CppIdentifier.word {s : Str} (h : CppIdentifier s) : Word s :=
  ⟨h.1, fun c hc => nameChar_wordChar (List.all_eq_true.mp h.2.2.1 c hc)⟩

theorem mem_capitalize {v : Str} {c : Char} (hc : c ∈ v) : islower c = true ∨ c ∈ capitalize v := by
  cases v with
  | nil => cases hc
  | cons a as =>
    rcases List.mem_cons.mp hc with rfl | hc
    · by_cases hlower : islower c
      · exact .inl hlower
      · simp [capitalize, hlower]
    · simp [capitalize, hc]

theorem mem_dbToCppParts {parts : List Str} {c : Char} {v : Str} (hv : v ∈ parts) (hc : c ∈ v)
    (cap_ini : Bool) : islower c = true ∨ c ∈ dbToCppParts cap_ini parts := by
  induction parts generalizing cap_ini with
  | nil => cases hv
  | cons w parts ih =>
    rw [dbToCppParts]
    rcases List.mem_cons.mp hv with rfl | hv
    · have hown : islower c = true ∨ c ∈ (if cap_ini then capitalize v else v) := by
        cases cap_ini
        · exact .inr hc
        · exact mem_capitalize hc
      exact hown.imp_right (List.mem_append_left _)
    · exact (ih hv true).imp_right (List.mem_append_right _)

/-- A column whose member is an identifier has a name without blank, comma or equals sign. -/
theorem word_of_member {name : Str} {cap_ini : Bool} (h : CppIdentifier (dbToCpp name cap_ini)) :
    Word name := by
  constructor
  · rintro rfl
    exact h.1 rfl
  · intro c hc
    by_cases hsep : c = '_'
    · subst hsep
      decide
    · have hfree : c ∉ ['_'] := by simpa using hsep
      obtain ⟨part, hpart, hmem⟩ := Util.mem_split_of_mem hfree hc
      rcases mem_dbToCppParts hpart hmem cap_ini with hlower | hmember
      · simp only [islower, Bool.and_eq_true, decide_eq_true_eq, Char.le_def] at hlower
        have hnat : 97 ≤ c.toNat := hlower.1
        exact wordChar_of_letter (by omega)
      · exact h.word.2 c hmember

/-- A name that is pasted to a collector's. -/
theorem tidy_of_pasted {before name : Str} (h : CppIdentifier (before ++ name)) : Tidy name := by
  by_cases hnil : name = []
  · subst hnil
    decide
  · exact Token.tidy ⟨hnil, fun c hc => (h.word.token.2 c (by simp [hc]))⟩

/-! ## Columns -/

/-- What a column registers if it has a type. -/
def ColumnLine.entry (line : ColumnLine) (offset : Nat) : Str × Metadata :=
  (stringify line.name, ⟨stringify line.type, offset, stringify line.tags⟩)

theorem registerColumns_eq_some_iff {offset : Nat} {lines : List ColumnLine}
    {entries : List (Str × Metadata)} :
    registerColumns offset lines = some entries ↔
      (∀ line ∈ lines, line.type ≠ []) ∧
        entries = (lines.zipIdx offset).map fun p => p.1.entry p.2 := by
  induction lines generalizing offset entries with
  | nil => simp [registerColumns, eq_comm]
  | cons line lines ih =>
    simp only [registerColumns, Option.bind_eq_bind, Option.bind_eq_some_iff, Option.some.injEq, ih,
      List.forall_mem_cons, List.zipIdx_cons, List.map_cons]
    by_cases htype : line.type = []
    · simp [ColumnLine.register, htype]
    · have hregister : line.register offset = some (line.entry offset) := by
        rw [ColumnLine.register, if_neg htype]
        rfl
      simp only [hregister, Option.some.injEq]
      constructor
      · rintro ⟨_, rfl, _, ⟨hall, rfl⟩, rfl⟩
        exact ⟨⟨htype, hall⟩, rfl⟩
      · rintro ⟨⟨-, hall⟩, rfl⟩
        exact ⟨_, rfl, _, ⟨hall, rfl⟩, rfl⟩

/-! ## Indexes -/

/-- Up to five arguments the list is as long as the name of its macro says. -/
theorem STR_LIST_length {n : Nat} {args list : List Str} (h : STR_LIST n args = some list) :
    args.length = if n ≤ 5 then n else n - 1 := by
  induction args generalizing n list with
  | nil => cases n <;> cases h
  | cons arg args ih =>
    rw [STR_LIST] at h
    by_cases hone : n = 1
    · rw [if_pos hone] at h
      by_cases hnil : args = []
      · simp [hone, hnil]
      · rw [if_neg hnil] at h
        cases h
    · rw [if_neg hone] at h
      by_cases hmissing : n = 0 ∨ n = 6 ∨ 20 < n
      · rw [if_pos hmissing] at h
        cases h
      · rw [if_neg hmissing, Option.map_eq_some_iff] at h
        obtain ⟨rest, hrest, -⟩ := h
        have hlen := ih hrest
        rw [List.length_cons, hlen]
        by_cases hseven : n = 7
        · subst hseven
          rfl
        · rw [if_neg hseven]
          split <;> split <;> omega

theorem STR_LIST_self {args : List Str} (hpos : args ≠ []) (hlen : args.length ≤ 5) :
    STR_LIST args.length args = some (args.map stringify) := by
  induction args with
  | nil => exact absurd rfl hpos
  | cons arg args ih =>
    rw [List.length_cons] at hlen ⊢
    by_cases hnil : args = []
    · subst hnil
      rfl
    · have hposlen : 0 < args.length := List.length_pos_of_ne_nil hnil
      have hlist := ih hnil (by omega)
      have hone : args.length + 1 ≠ 1 := by omega
      have hmissing :
        ¬ (args.length + 1 = 0 ∨ args.length + 1 = 6 ∨ 20 < args.length + 1) := by omega
      have hseven : args.length + 1 ≠ 7 := by omega
      rw [STR_LIST, if_neg hone, if_neg hmissing, if_neg hseven, Nat.add_sub_cancel, hlist]
      rfl

/-- `add_unique` takes one to five columns. -/
theorem MAKE_INITIAL_LIST_eq_some_iff {args list : List Str} (hpos : args ≠ []) :
    MAKE_INITIAL_LIST args = some list ↔ args.length ≤ 5 ∧ list = args.map stringify := by
  constructor
  · intro h
    have hlen := STR_LIST_length h
    have hposlen : 0 < args.length := List.length_pos_of_ne_nil hpos
    have hle : args.length ≤ 5 := by
      by_contra hlong
      rw [if_neg hlong] at hlen
      omega
    rw [MAKE_INITIAL_LIST, STR_LIST_self hpos hle] at h
    exact ⟨hle, (Option.some.inj h).symm⟩
  · rintro ⟨hle, rfl⟩
    exact STR_LIST_self hpos hle

/-- The texts of an index that are printed as they stand. -/
structure Index.Tidy (index : Index) : Prop where
  name : TinyOrm.Tidy index.name
  columns : ∀ col ∈ index.columns, TinyOrm.Tidy col
  some_column : index.columns ≠ []

/-- An index of the table as the model has it. -/
def Index.readBack (index : Index) : Option Index :=
  match index.type with
  | .INDEX_TYPE_UNI => some index
  | .INDEX_TYPE_MUL => some ⟨.INDEX_TYPE_MUL, index.name, [stringify (vaArgs index.columns)]⟩
  | _ => none

theorem Index.readBack_name {index index' : Index} (h : index.readBack = some index') :
    index'.name = index.name := by
  unfold Index.readBack at h
  split at h
  · rw [← Option.some.inj h]
  · rw [← Option.some.inj h]
  · cases h

theorem map_stringify {texts : List Str} (h : ∀ text ∈ texts, Tidy text) :
    texts.map stringify = texts := by
  have hid : texts.map stringify = texts.map id := List.map_congr_left h
  rw [hid, List.map_id]

theorem register_eq_some_iff {index : Index} (h : index.Tidy) {line : IndexLine}
    (hline : ModelGen.indexLine index = some line) {index' : Index} :
    line.register = some index' ↔
      (index.type = .INDEX_TYPE_UNI → index.columns.length ≤ 5) ∧ index.readBack = some index' := by
  have hname : stringify index.name = index.name := h.name
  unfold ModelGen.indexLine at hline
  split at hline
  · cases hline
  · rename_i htype
    obtain rfl := Option.some.inj hline
    simp [IndexLine.register, Index.readBack, htype, hname]
  · rename_i htype
    obtain rfl := Option.some.inj hline
    simp only [IndexLine.register, if_true, Option.map_eq_some_iff,
      MAKE_INITIAL_LIST_eq_some_iff h.some_column, map_stringify h.columns, htype, true_implies,
      Index.readBack, Option.some.injEq, hname]
    constructor
    · rintro ⟨_, ⟨hle, rfl⟩, rfl⟩
      refine ⟨hle, ?_⟩
      rw [← htype]
    · rintro ⟨hle, rfl⟩
      refine ⟨_, ⟨hle, rfl⟩, ?_⟩
      rw [← htype]
  · cases hline

theorem indexLine_isSome (index : Index) :
    (ModelGen.indexLine index).isSome = index.readBack.isSome := by
  unfold ModelGen.indexLine Index.readBack
  cases index.type <;> rfl

/-- What the collectors of the indexes leave, entry by entry. -/
theorem mapM_register_iff {entries : List (Sigma fun _ : Str => Index)}
    (h : ∀ entry ∈ entries, entry.2.Tidy) {inds : List Index} :
    (entries.filterMap fun entry => ModelGen.indexLine entry.2).mapM IndexLine.register =
        some inds ↔
      (∀ entry ∈ entries, entry.2.type = .INDEX_TYPE_UNI → entry.2.columns.length ≤ 5) ∧
        inds = entries.filterMap fun entry => entry.2.readBack := by
  induction entries generalizing inds with
  | nil => simp [eq_comm]
  | cons entry entries ih =>
    obtain ⟨hown, hrest⟩ := List.forall_mem_cons.mp h
    rw [List.forall_mem_cons]
    cases hline : ModelGen.indexLine entry.2 with
    | none =>
      have hread : entry.2.readBack = none := by
        rw [← Option.not_isSome_iff_eq_none, ← indexLine_isSome, hline]
        simp
      have htype : entry.2.type ≠ .INDEX_TYPE_UNI := by
        intro heq
        simp [ModelGen.indexLine, heq] at hline
      simp only [List.filterMap_cons, hline, hread, ih hrest]
      simp [htype]
    | some line =>
      simp only [List.filterMap_cons, hline, List.mapM_cons, Option.bind_eq_bind,
        Option.bind_eq_some_iff, register_eq_some_iff hown hline, ih hrest, Option.pure_def,
        Option.some.injEq]
      constructor
      · rintro ⟨index', ⟨hle, hread⟩, _, ⟨hall, rfl⟩, rfl⟩
        exact ⟨⟨hle, hall⟩, by rw [hread]⟩
      · rintro ⟨⟨hle, hall⟩, rfl⟩
        have hsome : entry.2.readBack.isSome := by rw [← indexLine_isSome, hline]; rfl
        obtain ⟨index', hread⟩ := Option.isSome_iff_exists.mp hsome
        exact ⟨index', ⟨hle, hread⟩, _, ⟨hall, rfl⟩, by rw [hread]⟩

/-- The macros keep the index: `add_unique` has room for five columns, the others
for one. -/
def Index.Printed (index : Index) : Prop :=
  index.columns.length ≤ if index.type = .INDEX_TYPE_UNI then 5 else 1

instance (index : Index) : Decidable index.Printed := inferInstanceAs (Decidable (_ ≤ _))

/-- An index with its columns in one text is the same index if it has one column. -/
theorem Index.eq_single {index : Index} {text : Str}
    (h : index.eq { index with columns := [text] } = true) : index.columns.length = 1 := by
  unfold Index.eq at h
  simp only [ne_eq, not_true_eq_false, or_self, if_false, List.length_singleton] at h
  split at h
  · cases h
  · rename_i hcard
    simp only [not_or, not_not] at hcard
    rw [← hcard.1, hcard.2]

/-! ## The indexes of the model -/

theorem lookup_insertAll {entries : List (Sigma fun _ : Str => Index)} (hkeys : entries.NodupKeys)
    (hnames : ∀ entry ∈ entries, entry.2.name = entry.1) (acc : Indices) (name : Str) :
    ((entries.filterMap fun entry => entry.2.readBack).foldl
        (fun indices i => indices.insert i.name i) acc).lookup name =
      ((entries.dlookup name).bind Index.readBack).or (acc.lookup name) := by
  induction entries generalizing acc with
  | nil => rfl
  | cons entry entries ih =>
    obtain ⟨hfresh, hrest⟩ := List.nodupKeys_cons.mp hkeys
    obtain ⟨hown, hothers⟩ := List.forall_mem_cons.mp hnames
    have hmore := ih hrest hothers
    by_cases hname : name = entry.1
    · subst hname
      have hnone : entries.dlookup entry.1 = none := List.dlookup_eq_none.mpr hfresh
      rw [List.dlookup_cons_eq]
      cases hread : entry.2.readBack with
      | none =>
        simp only [List.filterMap_cons, hread, hmore, hnone, Option.bind_none, Option.bind_some]
      | some index =>
        have hindex : index.name = entry.1 := (Index.readBack_name hread).trans hown
        simp only [List.filterMap_cons, hread, List.foldl_cons, hmore, hnone, hindex]
        simp [hread]
    · rw [List.dlookup_cons_ne _ _ hname]
      cases hread : entry.2.readBack with
      | none => simp only [List.filterMap_cons, hread, hmore]
      | some index =>
        have hindex : index.name = entry.1 := (Index.readBack_name hread).trans hown
        simp only [List.filterMap_cons, hread, List.foldl_cons, hmore, hindex,
          AList.lookup_insert_ne hname]

/-- All the indexes that columns have of their own are one. -/
theorem lookup_addOwnIndex {index : Index} {fields : List FieldMeta}
    (h : ∀ field ∈ fields, field.hasIndex = true → field.index = index) (acc : Indices)
    (name : Str) :
    (fields.foldl addOwnIndex acc).lookup name =
      if name = index.name ∧ ∃ field ∈ fields, field.hasIndex = true then some index
      else acc.lookup name := by
  induction fields generalizing acc with
  | nil => simp
  | cons field fields ih =>
    obtain ⟨hown, hrest⟩ := List.forall_mem_cons.mp h
    rw [List.foldl_cons, ih hrest]
    by_cases hindex : field.hasIndex = true
    · by_cases hname : name = index.name
      · subst hname
        have hinsert : (acc.insert index.name index).lookup index.name = some index :=
          AList.lookup_insert acc
        simp [addOwnIndex, hindex, hown hindex, hinsert]
      · simp [addOwnIndex, hindex, hown hindex, hname, AList.lookup_insert_ne hname]
    · simp [addOwnIndex, hindex]

end TinyOrm

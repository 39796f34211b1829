import TinyOrm.TagItems
set_option autoImplicit false

/-!
The order of the items of a tag: which parts of a column depend on it, and the index
of its own that a column declares.
-/

namespace TinyOrm

/-! ## Flags and indices -/

def IndexWord (ext : Str) : Prop :=
  ext = "pk".toList ∨ ext = "primary_key".toList ∨ ext = "primary key".toList ∨
    ext = "index".toList ∨ ext = "unique".toList

instance (ext : Str) : Decidable (IndexWord ext) := by
  unfold IndexWord
  infer_instance

/-- Those that are recognised as index words: behind `default` no word is. -/
def recognised (words : List Str) : List Str :=
  ((words.map Util.toLowerCase).takeWhile (· ≠ "default".toList)).filter (IndexWord ·)

def indexWords (item : Str) : List Str := recognised (itemWords item)

namespace FieldMeta

/-- An index with the columns of another, all under one name. -/
def extendIndex (index own : Index) (name : Str) : Index :=
  { index with
    type := if own.columns = [] then index.type else own.type
    columns := index.columns ++ own.columns.map fun _ => name }

/-- `after` is `field` with the words read that gave `own` to a field of their own. -/
structure Adds (field own after : FieldMeta) : Prop where
  isPk : after.isPk = (field.isPk || own.isPk)
  autoInc : after.autoInc = (field.autoInc || own.autoInc)
  hasIndex : after.hasIndex = (field.hasIndex || own.hasIndex)
  notNull : after.notNull = (field.notNull || own.notNull)
  ignore : after.ignore = (field.ignore || own.ignore)
  index : after.index = extendIndex field.index own.index field.getColumnName

theorem Adds.blank (field : FieldMeta) : Adds field {} field := by
  refine ⟨?_, ?_, ?_, ?_, ?_, ?_⟩ <;> simp [extendIndex]

theorem Adds.withIndex {field own after : FieldMeta} (h : Adds field own after)
    (hname : after.getColumnName = field.getColumnName) (type : IndexType) :
    Adds field (own.withIndex type) (after.withIndex type) where
  isPk := h.isPk
  autoInc := h.autoInc
  hasIndex := (Bool.or_true _).symm
  notNull := h.notNull
  ignore := h.ignore
  index := by simp [FieldMeta.withIndex, extendIndex, h.index, hname]

/-- The loop over the words of an item, on `field` and on a field of its own. -/
structure AddsState (field : FieldMeta) (own s : ExtState) : Prop where
  null : s.checkNotNull = own.checkNotNull
  default_ : s.checkDefault = own.checkDefault
  adds : Adds field own.field s.field

/-- One word adds the same to a field as to a field of its own. -/
theorem readExt_adds {field : FieldMeta} {s own : ExtState} (h : AddsState field own s)
    (hname : s.field.getColumnName = field.getColumnName) (word : Str) :
    AddsState field (readExt own word) (readExt s word) := by
  obtain ⟨hnull, hdefault, hadds⟩ := h
  have hset (b : Bool) : true = (b || true) := (Bool.or_true b).symm
  unfold readExt
  dsimp only
  rw [hnull, hdefault]
  generalize Util.toLowerCase word = ext
  by_cases hd : own.checkDefault = true
  · rw [if_pos hd, if_pos hd]
    exact ⟨rfl, rfl, hadds.isPk, hadds.autoInc, hadds.hasIndex, hadds.notNull, hadds.ignore,
      hadds.index⟩
  rw [if_neg hd, if_neg hd]
  by_cases hnul : (own.checkNotNull && decide (ext = "null".toList)) = true
  · rw [if_pos hnul, if_pos hnul]
    exact ⟨rfl, rfl, hadds.isPk, hadds.autoInc, hadds.hasIndex, hset _, hadds.ignore, hadds.index⟩
  rw [if_neg hnul, if_neg hnul]
  by_cases hpk : ext = "pk".toList ∨ ext = "primary_key".toList ∨ ext = "primary key".toList
  · have hkey := hadds.withIndex hname .INDEX_TYPE_PRI
    rw [if_pos hpk, if_pos hpk]
    exact ⟨rfl, rfl, hset _, hadds.autoInc, hkey.hasIndex, hadds.notNull, hadds.ignore, hkey.index⟩
  rw [if_neg hpk, if_neg hpk]
  by_cases hauto : ext = "auto_increment".toList ∨ ext = "auto increment".toList
  · rw [if_pos hauto, if_pos hauto]
    exact ⟨rfl, rfl, hadds.isPk, hset _, hadds.hasIndex, hadds.notNull, hadds.ignore, hadds.index⟩
  rw [if_neg hauto, if_neg hauto]
  by_cases hignore : ext = "ignore".toList
  · rw [if_pos hignore, if_pos hignore]
    exact ⟨rfl, rfl, hadds.isPk, hadds.autoInc, hadds.hasIndex, hadds.notNull, hset _, hadds.index⟩
  rw [if_neg hignore, if_neg hignore]
  by_cases hindex : ext = "index".toList
  · rw [if_pos hindex, if_pos hindex]
    exact ⟨rfl, rfl, hadds.withIndex hname .INDEX_TYPE_MUL⟩
  rw [if_neg hindex, if_neg hindex]
  by_cases hunique : ext = "unique".toList
  · rw [if_pos hunique, if_pos hunique]
    exact ⟨rfl, rfl, hadds.withIndex hname .INDEX_TYPE_UNI⟩
  rw [if_neg hunique, if_neg hunique]
  by_cases hnot : ext = "not".toList
  · rw [if_pos hnot, if_pos hnot]
    exact ⟨rfl, rfl, hadds⟩
  rw [if_neg hnot, if_neg hnot]
  by_cases hdef : ext = "default".toList
  · rw [if_pos hdef, if_pos hdef]
    exact ⟨rfl, rfl, hadds⟩
  rw [if_neg hdef, if_neg hdef]
  exact ⟨rfl, rfl, hadds.isPk, hadds.autoInc, hadds.hasIndex, hadds.notNull, hadds.ignore,
    hadds.index⟩

theorem foldl_readExt_adds {field : FieldMeta} (s own : ExtState) (h : AddsState field own s)
    (hname : s.field.getColumnName = field.getColumnName) (words : List Str) :
    Adds field (words.foldl readExt own).field (words.foldl readExt s).field := by
  induction words generalizing s own with
  | nil => exact h.adds
  | cons word words ih =>
    obtain ⟨hcolumn, -, hfield⟩ := readExt_names s word
    refine ih _ _ (readExt_adds h hname word) ?_
    rw [← hname, getColumnName, getColumnName, hcolumn, hfield]

/-- The flags and the index that an item gives to a field of its own. -/
def itemMarks (item : Str) : FieldMeta :=
  { ((itemWords item).foldl readExt { field := {} }).field with extra := [], default_ := [] }

theorem itemWords_assign (k v : Str) : itemWords (k ++ '=' :: v) = [] := by simp [itemWords]

theorem readTag_adds (field : FieldMeta) (item : Str) :
    Adds field (itemMarks item) (readTag field item) := by
  rcases assign_or_plain item with ⟨k, v, hk, rfl⟩ | hplain
  · have hblank : Adds field (itemMarks (k ++ '=' :: v)) field := by
      rw [itemMarks, itemWords_assign]
      exact Adds.blank field
    rw [readTag_assign field hk]
    split
    · exact ⟨hblank.isPk, hblank.autoInc, hblank.hasIndex, hblank.notNull, hblank.ignore,
        hblank.index⟩
    · split
      · exact ⟨hblank.isPk, hblank.autoInc, hblank.hasIndex, hblank.notNull, hblank.ignore,
          hblank.index⟩
      · exact hblank
  · rw [readTag_plain field hplain]
    have h : Adds field ((itemWords item).foldl readExt { field := {} }).field
        ((itemWords item).foldl readExt { field := field }).field :=
      foldl_readExt_adds { field := field } { field := {} } ⟨rfl, rfl, Adds.blank field⟩ rfl _
    exact ⟨h.isPk, h.autoInc, h.hasIndex, h.notNull, h.ignore, h.index⟩

/-- A word of one character is kept for `extra`. -/
theorem readExt_char (field : FieldMeta) (c : Char) :
    readExt { field := field } [c] = { field := field.appendExtra [tolower c] } := by
  have hne (v : Str) (hv : v.length ≠ 1) : Util.toLowerCase [c] ≠ v := by
    intro heq
    rw [← heq] at hv
    exact hv rfl
  have hpk := hne "pk".toList (by decide)
  have hkey := hne "primary_key".toList (by decide)
  have hkey' := hne "primary key".toList (by decide)
  have hauto := hne "auto_increment".toList (by decide)
  have hauto' := hne "auto increment".toList (by decide)
  have hignore := hne "ignore".toList (by decide)
  have hindex := hne "index".toList (by decide)
  have hunique := hne "unique".toList (by decide)
  have hnot := hne "not".toList (by decide)
  have hdefault := hne "default".toList (by decide)
  simp only [readExt, hpk, hkey, hkey', hauto, hauto', hignore, hindex, hunique, hnot, hdefault,
    Bool.false_eq_true, Bool.false_and, or_self, if_false]
  rfl

theorem itemValue_of_indexWords (key : Str) {item : Str} (h : indexWords item ≠ []) :
    itemValue key item = none := by
  rcases assign_or_plain item with ⟨k, v, -, rfl⟩ | hplain
  · rw [indexWords, itemWords_assign] at h
    exact absurd rfl h
  · exact itemValue_plain key hplain

/-- At the end of a tag an item gives the same flags and the same index. -/
theorem itemMarks_lastItem (item : Str) : itemMarks (lastItem item) = itemMarks item := by
  rcases assign_or_plain item with ⟨k, v, hk, rfl⟩ | hplain
  · rw [lastItem_assign, itemMarks, itemWords_assign, itemMarks, itemWords_assign]
  · rw [itemMarks, itemMarks, itemWords, itemWords, if_neg hplain, if_neg (lastItem_plain hplain)]
    rcases strip_rdropWhile item with heq | ⟨hlast, hlen⟩
    · rw [lastItem, heq]
    · rw [lastItem, hlast]
      cases hstrip : Util.strip item with
      | nil => rfl
      | cons c cs =>
        rw [hstrip, List.length_cons] at hlen
        have hnil : cs = [] := List.length_eq_zero_iff.mp (by omega)
        rw [hnil]
        by_cases hc : c = ' '
        · subst hc
          rfl
        · have hsplit : Util.split [c] [' '] = [[c]] :=
            Util.split_part (fun d hd => by simpa [List.mem_singleton.mp hd] using hc) (by simp)
          rw [hsplit, List.foldl_cons, readExt_char]
          rfl

/-- Before `default` an index word gives one more column of the index. -/
theorem readExt_index {s : ExtState} (h : s.checkDefault = false) (word : Str) :
    (readExt s word).checkDefault = decide (Util.toLowerCase word = "default".toList) ∧
      (readExt s word).field.hasIndex =
        (s.field.hasIndex || decide (IndexWord (Util.toLowerCase word))) ∧
      (readExt s word).field.index.columns.length = s.field.index.columns.length +
        if IndexWord (Util.toLowerCase word) then 1 else 0 := by
  have hdefault : ¬ s.checkDefault = true := by simp [h]
  rw [readExt, if_neg hdefault]
  generalize Util.toLowerCase word = ext
  by_cases hindex : IndexWord ext
  · have hne : ext ≠ "default".toList := by
      rcases hindex with rfl | rfl | rfl | rfl | rfl <;> decide
    have hnull : ext ≠ "null".toList := by
      rcases hindex with rfl | rfl | rfl | rfl | rfl <;> decide
    have hboth : ¬ (s.checkNotNull && decide (ext = "null".toList)) = true := by
      rw [decide_eq_false hnull, Bool.and_false]
      exact Bool.false_ne_true
    simp only [hboth, hindex, hne, decide_true, decide_false, Bool.or_true, if_true, if_false]
    rcases hindex with rfl | rfl | rfl | rfl | rfl <;> exact ⟨h, rfl, List.length_append⟩
  · rw [if_neg hindex, decide_eq_false hindex, Bool.or_false]
    simp only [IndexWord, not_or] at hindex
    obtain ⟨hpk, hkey, hkey', hmul, huni⟩ := hindex
    simp only [hpk, hkey, hkey', hmul, huni, or_self, if_false]
    by_cases hext : ext = "default".toList
    · subst hext
      cases hnull : s.checkNotNull <;> exact ⟨rfl, rfl, rfl⟩
    · rw [decide_eq_false hext, if_neg hext]
      repeat' split
      all_goals exact ⟨h, rfl, rfl⟩

theorem recognised_cons (word : Str) (words : List Str) : recognised (word :: words) =
    if Util.toLowerCase word = "default".toList then []
    else if IndexWord (Util.toLowerCase word) then Util.toLowerCase word :: recognised words
    else recognised words := by
  rw [recognised, List.map_cons]
  by_cases hdefault : Util.toLowerCase word = "default".toList
  · have hstop : ¬ decide (Util.toLowerCase word ≠ "default".toList) = true := by
      rw [decide_eq_true_eq]
      exact not_not.mpr hdefault
    rw [if_pos hdefault, List.takeWhile_cons_of_neg (by exact hstop)]
    rfl
  · rw [if_neg hdefault, List.takeWhile_cons_of_pos (by exact decide_eq_true hdefault)]
    by_cases hindex : IndexWord (Util.toLowerCase word)
    · rw [if_pos hindex, List.filter_cons_of_pos (by exact decide_eq_true hindex)]
      rfl
    · rw [if_neg hindex, List.filter_cons_of_neg (by rwa [decide_eq_true_eq])]
      rfl

theorem foldl_readExt_index {s : ExtState} (h : s.checkDefault = false) (words : List Str) :
    (words.foldl readExt s).field.hasIndex = (s.field.hasIndex || !(recognised words).isEmpty) ∧
      (words.foldl readExt s).field.index.columns.length =
        s.field.index.columns.length + (recognised words).length := by
  induction words generalizing s with
  | nil => exact ⟨(Bool.or_false _).symm, rfl⟩
  | cons word words ih =>
    obtain ⟨hdefault, hhas, hlen⟩ := readExt_index h word
    rw [List.foldl_cons, recognised_cons]
    by_cases hword : Util.toLowerCase word = "default".toList
    · have hnot : ¬ IndexWord (Util.toLowerCase word) := by rw [hword]; decide
      rw [decide_eq_true hword] at hdefault
      rw [foldl_readExt_behind hdefault, if_pos hword]
      dsimp only
      rw [hhas, hlen, decide_eq_false hnot, if_neg hnot]
      exact ⟨rfl, rfl⟩
    · rw [decide_eq_false hword] at hdefault
      obtain ⟨hhas', hlen'⟩ := ih hdefault
      rw [hhas', hlen', hhas, hlen, if_neg hword]
      by_cases hindex : IndexWord (Util.toLowerCase word)
      · rw [decide_eq_true hindex, if_pos hindex, if_pos hindex, List.length_cons]
        exact ⟨by simp, by omega⟩
      · rw [decide_eq_false hindex, if_neg hindex, if_neg hindex, Bool.or_false]
        exact ⟨rfl, by omega⟩

theorem itemMarks_hasIndex (item : Str) :
    (itemMarks item).hasIndex = !(indexWords item).isEmpty := by
  have h := (foldl_readExt_index (s := { field := {} }) rfl (itemWords item)).1
  exact h.trans (Bool.false_or _)

theorem itemMarks_columns (item : Str) :
    (itemMarks item).index.columns.length = (indexWords item).length := by
  have h := (foldl_readExt_index (s := { field := {} }) rfl (itemWords item)).2
  exact h.trans (Nat.zero_add _)

/-! ## All items -/

theorem foldl_readTag_flag {flag : FieldMeta → Bool}
    (hflag : ∀ field own after, Adds field own after → flag after = (flag field || flag own))
    (items : List Str) (field : FieldMeta) : flag (items.foldl readTag field) =
      (flag field || items.any fun item => flag (itemMarks item)) := by
  induction items generalizing field with
  | nil => simp
  | cons item items ih =>
    rw [List.foldl_cons, ih, hflag _ _ _ (readTag_adds field item), List.any_cons, Bool.or_assoc]

theorem readTag_index (field : FieldMeta) (item : Str) : (readTag field item).index =
    extendIndex field.index (itemMarks item).index field.getColumnName :=
  (readTag_adds field item).index

theorem foldl_readTag_columns (items : List Str) (field : FieldMeta) :
    (items.foldl readTag field).index.columns.length =
      field.index.columns.length + (items.flatMap indexWords).length := by
  induction items generalizing field with
  | nil => simp
  | cons item items ih =>
    rw [List.foldl_cons, ih, readTag_index, List.flatMap_cons, List.length_append,
      ← itemMarks_columns item, extendIndex]
    simp only [List.length_append, List.length_map]
    omega

theorem foldl_readTag_index {items : List Str} (h : ∀ item ∈ items, indexWords item = [])
    (field : FieldMeta) : (items.foldl readTag field).index = field.index := by
  induction items generalizing field with
  | nil => rfl
  | cons item items ih =>
    have hnone : (itemMarks item).index.columns = [] := by
      rw [← List.length_eq_zero_iff, itemMarks_columns, h item (by simp), List.length_nil]
    rw [List.foldl_cons, ih fun i hi => h i (by simp [hi]), readTag_index, extendIndex, hnone]
    simp

/-- A column of the index is what the field was called before the items, or a name among
them. -/
theorem mem_foldl_columns {items : List Str} {field : FieldMeta} {col : Str}
    (h : col ∈ (items.foldl readTag field).index.columns) :
    col ∈ field.index.columns ∨ col = field.getColumnName ∨
      ∃ item ∈ items, itemValue "name".toList item = some col := by
  induction items generalizing field with
  | nil => exact .inl h
  | cons item items ih =>
    rcases ih h with hcol | hcol | ⟨later, hlater, hvalue⟩
    · rw [readTag_index] at hcol
      rcases List.mem_append.mp hcol with hcol | hcol
      · exact .inl hcol
      · obtain ⟨-, -, rfl⟩ := List.mem_map.mp hcol
        exact .inr (.inl rfl)
    · obtain ⟨hname, -, hfield⟩ := readTag_names field item
      rw [getColumnName, hname, hfield] at hcol
      cases hvalue : itemValue "name".toList item with
      | none =>
        rw [hvalue] at hcol
        exact .inr (.inl hcol)
      | some name =>
        rw [hvalue] at hcol
        exact .inr (.inr ⟨item, by simp, by rw [hvalue, hcol]; rfl⟩)
    · exact .inr (.inr ⟨later, List.mem_cons_of_mem item hlater, hvalue⟩)

theorem prefix_foldl_columns (items : List Str) (field : FieldMeta) :
    field.index.columns <+: (items.foldl readTag field).index.columns := by
  induction items generalizing field with
  | nil => exact List.prefix_refl _
  | cons item items ih =>
    refine List.IsPrefix.trans ?_ (ih (readTag field item))
    rw [readTag_index]
    exact List.prefix_append _ _

/-! ## Values in some order -/

/-- A value that the items leave in some order: that of an item at the end, or, if an
item of another kind can stand there, that of one further up. -/
def Reading (key : Str) (items : List Str) (v : Str) : Prop :=
  ∃ item ∈ items, itemValue key (lastItem item) = some v ∨
    itemValue key item = some v ∧ ∃ other ∈ items, itemValue key other = none

theorem Reading.perm {key v : Str} {items items' : List Str} (hperm : items.Perm items')
    (h : Reading key items v) : Reading key items' v := by
  obtain ⟨item, hitem, h⟩ := h
  refine ⟨item, hperm.mem_iff.mp hitem, h.imp_right fun ⟨hvalue, other, hother, hnone⟩ => ?_⟩
  exact ⟨hvalue, other, hperm.mem_iff.mp hother, hnone⟩

theorem isSome_lastItem_eq_none {key item : Str} :
    itemValue key (lastItem item) = none ↔ itemValue key item = none := by
  rw [← Option.not_isSome_iff_eq_none, itemValue_lastItem_isSome, Option.not_isSome_iff_eq_none]

theorem reading_of_seen {key v : Str} {items : List Str}
    (h : lastValue key (seenItems items) = some v) : Reading key items v := by
  rcases List.eq_nil_or_concat items with rfl | ⟨before, item, rfl⟩
  · cases h
  rw [List.concat_eq_append] at h ⊢
  rw [seenItems_concat, lastValue_append, lastValue_singleton] at h
  cases hlast : itemValue key (lastItem item) with
  | some w =>
    rw [hlast, Option.some_or] at h
    exact ⟨item, by simp, .inl (hlast.trans h)⟩
  | none =>
    rw [hlast, Option.none_or] at h
    obtain ⟨named, hnamed, hvalue⟩ := lastValue_mem h
    exact ⟨named, by simp [hnamed], .inr ⟨hvalue, item, by simp, isSome_lastItem_eq_none.mp hlast⟩⟩

/-- Every reading is that of an order of the items. -/
theorem Reading.order {key v : Str} {items : List Str} (h : Reading key items v) :
    ∃ items', items'.Perm items ∧ lastValue key (seenItems items') = some v := by
  obtain ⟨item, hitem, hlast | ⟨hvalue, other, hother, hnone⟩⟩ := h
  · refine ⟨items.erase item ++ [item], ?_, ?_⟩
    · exact List.perm_append_singleton _ _ |>.trans (List.perm_cons_erase hitem).symm
    · rw [seenItems_concat, lastValue_append, lastValue_singleton, hlast, Option.some_or]
  · have hne : item ≠ other := by
      rintro rfl
      rw [hnone] at hvalue
      cases hvalue
    have hmem : item ∈ items.erase other := (List.mem_erase_of_ne hne).mpr hitem
    refine ⟨((items.erase other).erase item ++ [item]) ++ [other], ?_, ?_⟩
    · have hinner := (List.perm_append_singleton item ((items.erase other).erase item)).trans
        (List.perm_cons_erase hmem).symm
      exact (List.perm_append_singleton _ _).trans
        ((hinner.cons other).trans (List.perm_cons_erase hother).symm)
    · rw [seenItems_concat, lastValue_append, lastValue_singleton,
        isSome_lastItem_eq_none.mpr hnone, Option.none_or, lastValue_append, lastValue_singleton,
        hvalue, Option.some_or]

/-- An item that the loop sees gives what one of the tag gives. -/
theorem itemMarks_seen {item : Str} {items : List Str} (h : item ∈ seenItems items) :
    ∃ part ∈ items, itemMarks item = itemMarks part := by
  obtain ⟨part, hpart, rfl | rfl⟩ := mem_seenItems h
  · exact ⟨item, hpart, rfl⟩
  · exact ⟨part, hpart, itemMarks_lastItem part⟩

theorem any_seenItems {f : Str → Bool} (hf : ∀ item, f (lastItem item) = f item)
    {items items' : List Str} (hperm : items'.Perm items) :
    (seenItems items').any f = items.any f := by
  have hmap : ((seenItems items').map f).any id = (items'.map f).any id := by
    rw [map_seenItems hf]
  rw [List.any_map, List.any_map] at hmap
  refine hmap.trans ?_
  rw [Bool.eq_iff_iff, List.any_eq_true, List.any_eq_true]
  simp only [hperm.mem_iff, Function.comp, id]

/-- All orders of the items leave the same value, or none. -/
theorem lastValue_perm {key : Str} {items items' : List Str} (hperm : items'.Perm items)
    (h : ∀ v w, Reading key items v → Reading key items w → v = w) :
    lastValue key (seenItems items') = lastValue key (seenItems items) := by
  have hsome : (lastValue key (seenItems items')).isSome =
      (lastValue key (seenItems items)).isSome := by
    have hlast := itemValue_lastItem_isSome key
    rw [lastValue_isSome, lastValue_isSome, any_seenItems hlast hperm,
      any_seenItems hlast (List.Perm.refl items)]
  cases hv : lastValue key (seenItems items') with
  | none =>
    rw [hv, Option.isSome_none] at hsome
    exact (Option.isSome_eq_false_iff.mp hsome.symm |> Option.isNone_iff_eq_none.mp).symm
  | some v =>
    rw [hv, Option.isSome_some] at hsome
    obtain ⟨w, hw⟩ := Option.isSome_iff_exists.mp hsome.symm
    rw [hw, h v w ((reading_of_seen hv).perm hperm) (reading_of_seen hw)]

/-! ## Which item gives the type of the index -/

theorem foldl_readTag_indexName (items : List Str) (field : FieldMeta) :
    (items.foldl readTag field).index.name = field.index.name := by
  induction items generalizing field with
  | nil => rfl
  | cons item items ih =>
    rw [List.foldl_cons, ih, readTag_index]
    rfl

theorem foldl_readTag_indexType {items : List Str} (h : ∃ item ∈ items, indexWords item ≠ [])
    (field : FieldMeta) : ∃ item ∈ items, indexWords item ≠ [] ∧
      (items.foldl readTag field).index.type = (itemMarks item).index.type := by
  induction items generalizing field with
  | nil =>
    obtain ⟨item, hitem, -⟩ := h
    cases hitem
  | cons item items ih =>
    by_cases hlater : ∃ later ∈ items, indexWords later ≠ []
    · obtain ⟨later, hmem, hwords, htype⟩ := ih hlater (readTag field item)
      exact ⟨later, List.mem_cons_of_mem item hmem, hwords, htype⟩
    · have hnone : ∀ later ∈ items, indexWords later = [] := by
        simpa using hlater
      have hwords : indexWords item ≠ [] := by
        obtain ⟨found, hfound, hne⟩ := h
        rcases List.mem_cons.mp hfound with rfl | hfound
        · exact hne
        · exact absurd (hnone found hfound) hne
      have hcolumns : (itemMarks item).index.columns ≠ [] := by
        rw [ne_eq, ← List.length_eq_zero_iff, itemMarks_columns, List.length_eq_zero_iff]
        exact hwords
      refine ⟨item, by simp, hwords, ?_⟩
      rw [List.foldl_cons, foldl_readTag_index hnone, readTag_index, extendIndex, if_neg hcolumns]

theorem indexWords_lastItem (item : Str) :
    (indexWords (lastItem item)).length = (indexWords item).length := by
  rw [← itemMarks_columns, itemMarks_lastItem, itemMarks_columns]

theorem length_indexWords_seen (items : List Str) :
    ((seenItems items).flatMap indexWords).length = (items.flatMap indexWords).length := by
  rw [List.length_flatMap, List.length_flatMap]
  exact congrArg List.sum (map_seenItems indexWords_lastItem items)

theorem eq_of_one_index {items : List Str} (h : (items.flatMap indexWords).length = 1)
    {item item' : Str} (hitem : item ∈ items) (hitem' : item' ∈ items)
    (hwords : indexWords item ≠ []) (hwords' : indexWords item' ≠ []) : item = item' := by
  by_contra hne
  have hpos := List.length_pos_of_ne_nil hwords
  have hpos' := List.length_pos_of_ne_nil hwords'
  have hmem : item' ∈ items.erase item := (List.mem_erase_of_ne (Ne.symm hne)).mpr hitem'
  have hperm := ((List.perm_cons_erase hitem).flatMap_right indexWords).length_eq
  have hrest := ((List.perm_cons_erase hmem).flatMap_right indexWords).length_eq
  rw [List.flatMap_cons, List.length_append] at hperm hrest
  omega

end FieldMeta

/-! ## The index of a column -/

/-- The same column, the default and the extra words aside. -/
structure FieldMeta.SameColumn (field field' : FieldMeta) : Prop where
  columnName : field.columnName = field'.columnName
  columnType : field.columnType = field'.columnType
  isPk : field.isPk = field'.isPk
  autoInc : field.autoInc = field'.autoInc
  hasIndex : field.hasIndex = field'.hasIndex
  notNull : field.notNull = field'.notNull
  ignore : field.ignore = field'.ignore
  index : field.index = field'.index

def Metadata.withItems (metadata : Metadata) (items : List Str) : Metadata :=
  { metadata with tag := Util.join ',' items }

/-- A column has an index of its own if an index word is recognised, the index is that
of the column, and neither depends on the order of the items. -/
structure OwnIndex (fieldName : Str) (metadata : Metadata) : Prop where
  hasIndex : (FieldMeta.ofMetadata fieldName metadata).hasIndex = true ↔
    ∃ item ∈ tagItems metadata.tag, indexWords item ≠ []
  columns : (FieldMeta.ofMetadata fieldName metadata).hasIndex = true →
    (FieldMeta.ofMetadata fieldName metadata).index.columns =
      [(FieldMeta.ofMetadata fieldName metadata).getColumnName]
  order : ∀ items, items.Perm (tagItems metadata.tag) →
    (FieldMeta.ofMetadata fieldName (metadata.withItems items)).SameColumn
      (FieldMeta.ofMetadata fieldName metadata)

/-- One name and one type at most, and at most one index word, which comes with no name
but the default one. -/
structure OrderFree (fieldName : Str) (items : List Str) : Prop where
  name : ∀ v w, FieldMeta.Reading "name".toList items v →
    FieldMeta.Reading "name".toList items w → v = w
  type : ∀ v w, FieldMeta.Reading "type".toList items v →
    FieldMeta.Reading "type".toList items w → v = w
  index : items.flatMap indexWords = [] ∨ (items.flatMap indexWords).length = 1 ∧
    ∀ v, FieldMeta.Reading "name".toList items v → v = cppToDb fieldName

theorem Index.eq_of_parts {index index' : Index} (htype : index.type = index'.type)
    (hname : index.name = index'.name) (hcolumns : index.columns = index'.columns) :
    index = index' := by
  cases index
  cases index'
  simp_all

theorem Metadata.withItems_tagItems (metadata : Metadata) :
    metadata.withItems (tagItems metadata.tag) = metadata := by
  rw [Metadata.withItems, join_tagItems]

namespace FieldMeta

variable {fieldName : Str} {metadata : Metadata} {items items' : List Str}

/-- The field before its last two flags are set. -/
def readItems (fieldName : Str) (metadata : Metadata) (items : List Str) : FieldMeta :=
  (seenItems items).foldl readTag (ofMember fieldName metadata)

theorem ofMetadata_items (hcomma : ∀ item ∈ items, ',' ∉ item) :
    ofMetadata fieldName (metadata.withItems items) =
      lastFlags (readItems fieldName metadata items) :=
  ofMetadata_join fieldName (metadata.withItems items) hcomma rfl

theorem readItems_columnName : (readItems fieldName metadata items).columnName =
    lastValue "name".toList (seenItems items) :=
  (foldl_readTag_names _ _).1.trans Option.or_none

theorem readItems_columnType : (readItems fieldName metadata items).columnType =
    lastValue "type".toList (seenItems items) :=
  (foldl_readTag_names _ _).2.1.trans Option.or_none

theorem readItems_getColumnName : (readItems fieldName metadata items).getColumnName =
    (lastValue "name".toList (seenItems items)).getD (cppToDb fieldName) := by
  have hfield : (readItems fieldName metadata items).fieldName = fieldName :=
    (foldl_readTag_names _ _).2.2
  rw [getColumnName, readItems_columnName, hfield]

/-- A flag that no item takes back does not depend on the order. -/
theorem readItems_flag (flag : FieldMeta → Bool)
    (hflag : ∀ field own after, Adds field own after → flag after = (flag field || flag own))
    (hstart : flag (ofMember fieldName metadata) = false) (hperm : items'.Perm items) :
    flag (readItems fieldName metadata items') = items.any fun item => flag (itemMarks item) := by
  rw [readItems, foldl_readTag_flag hflag, hstart, Bool.false_or]
  exact any_seenItems (fun item => by rw [itemMarks_lastItem]) hperm

theorem readItems_flag_perm (fieldName : Str) (metadata : Metadata) (hperm : items'.Perm items)
    (flag : FieldMeta → Bool)
    (hflag : ∀ field own after, Adds field own after → flag after = (flag field || flag own))
    (hstart : flag (ofMember fieldName metadata) = false) :
    flag (readItems fieldName metadata items') = flag (readItems fieldName metadata items) := by
  rw [readItems_flag flag hflag hstart hperm,
    readItems_flag flag hflag hstart (List.Perm.refl items)]

theorem readItems_hasIndex : (readItems fieldName metadata items).hasIndex = true ↔
    ∃ item ∈ items, indexWords item ≠ [] := by
  rw [readItems_flag hasIndex (fun _ _ _ h => h.hasIndex) rfl (List.Perm.refl items),
    List.any_eq_true]
  simp only [itemMarks_hasIndex, Bool.not_eq_true', List.isEmpty_eq_false_iff, ne_eq]

theorem length_columns (fieldName : Str) (metadata : Metadata) (items : List Str) :
    (readItems fieldName metadata items).index.columns.length =
      (items.flatMap indexWords).length := by
  rw [readItems, foldl_readTag_columns, length_indexWords_seen]
  exact Nat.zero_add _

theorem indexWords_eq_nil {item : Str} :
    indexWords item = [] ↔ (itemMarks item).hasIndex = false := by
  rw [itemMarks_hasIndex, Bool.not_eq_false', List.isEmpty_iff]

theorem readItems_no_index (h : ∀ item ∈ items, indexWords item = []) :
    (readItems fieldName metadata items).index = (ofMember fieldName metadata).index := by
  refine foldl_readTag_index (fun item hitem => ?_) _
  obtain ⟨part, hpart, hmarks⟩ := itemMarks_seen hitem
  rw [indexWords_eq_nil, hmarks, ← indexWords_eq_nil]
  exact h part hpart

theorem readItems_indexType (fieldName : Str) (metadata : Metadata)
    (h : ∃ item ∈ items, indexWords item ≠ []) : ∃ item ∈ items, indexWords item ≠ [] ∧
      (readItems fieldName metadata items).index.type = (itemMarks item).index.type := by
  have hseen : ∃ item ∈ seenItems items, indexWords item ≠ [] := by
    by_contra hnone
    have hnil : (seenItems items).flatMap indexWords = [] := by
      rw [List.flatMap_eq_nil_iff]
      simpa using hnone
    have hlen := length_indexWords_seen items
    rw [hnil, List.length_nil, eq_comm, List.length_eq_zero_iff, List.flatMap_eq_nil_iff] at hlen
    obtain ⟨item, hitem, hwords⟩ := h
    exact hwords (hlen item hitem)
  obtain ⟨item, hitem, hwords, htype⟩ := foldl_readTag_indexType hseen
    (ofMember fieldName metadata)
  obtain ⟨part, hpart, hmarks⟩ := itemMarks_seen hitem
  refine ⟨part, hpart, ?_, htype.trans (by rw [hmarks])⟩
  rwa [ne_eq, indexWords_eq_nil, ← hmarks, ← indexWords_eq_nil]

/-- An index item at the front takes the default name of the column. -/
theorem mem_columns_front (fieldName : Str) (metadata : Metadata) (items : List Str) {item : Str}
    (h : indexWords item ≠ []) :
    cppToDb fieldName ∈ (readItems fieldName metadata (item :: items)).index.columns := by
  have hseen : ∃ first rest, seenItems (item :: items) = first :: rest ∧ indexWords first ≠ [] := by
    cases items with
    | nil =>
      refine ⟨lastItem item, [], rfl, fun hnil => h ?_⟩
      rw [← List.length_eq_zero_iff, ← indexWords_lastItem, hnil, List.length_nil]
    | cons next items => exact ⟨item, _, rfl, h⟩
  obtain ⟨first, rest, heq, hwords⟩ := hseen
  have hcolumns : (itemMarks first).index.columns ≠ [] := by
    rw [ne_eq, ← List.length_eq_zero_iff, itemMarks_columns, List.length_eq_zero_iff]
    exact hwords
  obtain ⟨col, hcol⟩ := List.exists_mem_of_ne_nil _ hcolumns
  rw [readItems, heq, List.foldl_cons]
  refine (prefix_foldl_columns rest _).subset ?_
  rw [readTag_index]
  exact List.mem_append_right _ (List.mem_map.mpr ⟨col, hcol, rfl⟩)

end FieldMeta

namespace OwnIndex

variable {fieldName : Str} {metadata : Metadata}

/-- The order of the items that leaves `v` reads the same column. -/
theorem reads_in_order (h : OwnIndex fieldName metadata) {key v : Str}
    (hv : FieldMeta.Reading key (tagItems metadata.tag) v) :
    ∃ items, FieldMeta.lastValue key (seenItems items) = some v ∧
      (FieldMeta.readItems fieldName metadata items).lastFlags.SameColumn
        (FieldMeta.ofMetadata fieldName metadata) := by
  obtain ⟨items, hperm, hlast⟩ := hv.order
  have hcomma : ∀ item ∈ items, ',' ∉ item :=
    fun item hitem => comma_not_mem_tagItems item (hperm.mem_iff.mp hitem)
  have hsame := h.order items hperm
  rw [FieldMeta.ofMetadata_items hcomma] at hsame
  exact ⟨items, hlast, hsame⟩

theorem getColumnName_eq (h : OwnIndex fieldName metadata) {v : Str}
    (hv : FieldMeta.Reading "name".toList (tagItems metadata.tag) v) :
    (FieldMeta.ofMetadata fieldName metadata).columnName = some v := by
  obtain ⟨items, hlast, hsame⟩ := h.reads_in_order hv
  exact hsame.columnName.symm.trans (FieldMeta.readItems_columnName.trans hlast)

theorem getColumnType_eq (h : OwnIndex fieldName metadata) {v : Str}
    (hv : FieldMeta.Reading "type".toList (tagItems metadata.tag) v) :
    (FieldMeta.ofMetadata fieldName metadata).columnType = some v := by
  obtain ⟨items, hlast, hsame⟩ := h.reads_in_order hv
  exact hsame.columnType.symm.trans (FieldMeta.readItems_columnType.trans hlast)

theorem orderFree (h : OwnIndex fieldName metadata) :
    OrderFree fieldName (tagItems metadata.tag) := by
  refine ⟨fun v w hv hw => ?_, fun v w hv hw => ?_, ?_⟩
  · exact Option.some.inj ((h.getColumnName_eq hv).symm.trans (h.getColumnName_eq hw))
  · exact Option.some.inj ((h.getColumnType_eq hv).symm.trans (h.getColumnType_eq hw))
  by_cases hnil : (tagItems metadata.tag).flatMap indexWords = []
  · exact .inl hnil
  have hsome : ∃ item ∈ tagItems metadata.tag, indexWords item ≠ [] := by
    simpa [List.flatMap_eq_nil_iff] using hnil
  have hcolumns := h.columns (h.hasIndex.mpr hsome)
  obtain ⟨item, hitem, hwords⟩ := hsome
  have hperm : (item :: (tagItems metadata.tag).erase item).Perm (tagItems metadata.tag) :=
    (List.perm_cons_erase hitem).symm
  have hcomma : ∀ i ∈ item :: (tagItems metadata.tag).erase item, ',' ∉ i :=
    fun i hi => comma_not_mem_tagItems i (hperm.mem_iff.mp hi)
  have hindex := (h.order _ hperm).index
  rw [FieldMeta.ofMetadata_items hcomma] at hindex
  have hread : (FieldMeta.readItems fieldName metadata
      (item :: (tagItems metadata.tag).erase item)).index.columns =
        [(FieldMeta.ofMetadata fieldName metadata).getColumnName] := by
    rw [← hcolumns, ← hindex]
    rfl
  have hlen : ((tagItems metadata.tag).flatMap indexWords).length = 1 := by
    rw [← (hperm.flatMap_right indexWords).length_eq,
      ← FieldMeta.length_columns fieldName metadata, hread]
    rfl
  have hfront := FieldMeta.mem_columns_front fieldName metadata
    ((tagItems metadata.tag).erase item) hwords
  rw [hread] at hfront
  refine .inr ⟨hlen, fun v hv => ?_⟩
  rw [List.mem_singleton.mp hfront, FieldMeta.getColumnName, h.getColumnName_eq hv,
    Option.getD_some]

end OwnIndex

namespace OrderFree

variable {fieldName : Str} {items items' : List Str}

theorem perm (h : OrderFree fieldName items) (hperm : items'.Perm items) :
    OrderFree fieldName items' where
  name v w hv hw := h.name v w (hv.perm hperm) (hw.perm hperm)
  type v w hv hw := h.type v w (hv.perm hperm) (hw.perm hperm)
  index := by
    have hwords := hperm.flatMap_right indexWords
    rcases h.index with hnil | ⟨hlen, hname⟩
    · exact .inl (List.perm_nil.mp (hnil ▸ hwords))
    · exact .inr ⟨hwords.length_eq.trans hlen, fun v hv => hname v (hv.perm hperm)⟩

/-- The one column of the index is the column. -/
theorem columns_eq (h : OrderFree fieldName items) (metadata : Metadata)
    (hsome : ∃ item ∈ items, indexWords item ≠ []) :
    (FieldMeta.readItems fieldName metadata items).index.columns = [cppToDb fieldName] ∧
      (FieldMeta.readItems fieldName metadata items).getColumnName = cppToDb fieldName := by
  obtain ⟨item, hitem, hwords⟩ := hsome
  have hne : items.flatMap indexWords ≠ [] := by
    simpa [List.flatMap_eq_nil_iff] using ⟨item, hitem, hwords⟩
  obtain ⟨hlen, hname⟩ := h.index.resolve_left hne
  constructor
  · rw [← FieldMeta.length_columns fieldName metadata] at hlen
    obtain ⟨col, hcol⟩ := List.length_eq_one_iff.mp hlen
    have hmem : col ∈ (FieldMeta.readItems fieldName metadata items).index.columns := by
      rw [hcol]
      simp
    rcases FieldMeta.mem_foldl_columns hmem with hstart | hstart | ⟨named, hnamed, hvalue⟩
    · cases hstart
    · rw [hcol, hstart]
      rfl
    · obtain ⟨part, hpart, hseen⟩ := mem_seenItems hnamed
      have hreading : FieldMeta.Reading "name".toList items col := by
        refine ⟨part, hpart, ?_⟩
        rcases hseen with rfl | rfl
        · exact .inr ⟨hvalue, item, hitem, FieldMeta.itemValue_of_indexWords _ hwords⟩
        · exact .inl hvalue
      rw [hcol, hname col hreading]
  · rw [FieldMeta.readItems_getColumnName]
    cases hlast : FieldMeta.lastValue "name".toList (seenItems items) with
    | none => rfl
    | some v => exact hname v (FieldMeta.reading_of_seen hlast)

theorem index_eq (h : OrderFree fieldName items) (metadata : Metadata)
    (hperm : items'.Perm items) : (FieldMeta.readItems fieldName metadata items').index =
      (FieldMeta.readItems fieldName metadata items).index := by
  by_cases hsome : ∃ item ∈ items, indexWords item ≠ []
  · have hsome' : ∃ item ∈ items', indexWords item ≠ [] := by
      simpa only [hperm.mem_iff] using hsome
    have hcolumns := (h.columns_eq metadata hsome).1.trans
      ((h.perm hperm).columns_eq metadata hsome').1.symm
    have hname : (FieldMeta.readItems fieldName metadata items).index.name =
        (FieldMeta.readItems fieldName metadata items').index.name :=
      (FieldMeta.foldl_readTag_indexName _ _).trans (FieldMeta.foldl_readTag_indexName _ _).symm
    have hne : items.flatMap indexWords ≠ [] := by
      simpa [List.flatMap_eq_nil_iff] using hsome
    obtain ⟨item, hitem, hwords, htype⟩ := FieldMeta.readItems_indexType fieldName metadata hsome
    obtain ⟨item', hitem', hwords', htype'⟩ :=
      FieldMeta.readItems_indexType fieldName metadata hsome'
    have hsame : item = item' := FieldMeta.eq_of_one_index (h.index.resolve_left hne).1 hitem
      (hperm.mem_iff.mp hitem') hwords hwords'
    rw [← hsame, ← htype] at htype'
    exact Index.eq_of_parts htype' hname.symm hcolumns.symm
  · have hnone : ∀ item ∈ items, indexWords item = [] := by simpa using hsome
    rw [FieldMeta.readItems_no_index hnone,
      FieldMeta.readItems_no_index fun item hitem => hnone item (hperm.mem_iff.mp hitem)]

theorem ownIndex {metadata : Metadata} (h : OrderFree fieldName (tagItems metadata.tag)) :
    OwnIndex fieldName metadata := by
  have hcomma := @comma_not_mem_tagItems metadata.tag
  have hread : FieldMeta.ofMetadata fieldName metadata =
      FieldMeta.lastFlags (FieldMeta.readItems fieldName metadata (tagItems metadata.tag)) := by
    rw [← FieldMeta.ofMetadata_items hcomma, metadata.withItems_tagItems]
  refine ⟨?_, fun hhas => ?_, fun items hperm => ?_⟩
  · rw [hread]
    exact FieldMeta.readItems_hasIndex
  · rw [hread] at hhas ⊢
    obtain ⟨hcolumns, hname⟩ := h.columns_eq metadata (FieldMeta.readItems_hasIndex.mp hhas)
    exact hcolumns.trans (congrArg ([·]) hname.symm)
  · rw [FieldMeta.ofMetadata_items fun item hitem => hcomma item (hperm.mem_iff.mp hitem), hread]
    have hflag := FieldMeta.readItems_flag_perm fieldName metadata hperm
    have hpk := hflag FieldMeta.isPk (fun _ _ _ h => h.isPk) rfl
    have hauto := hflag FieldMeta.autoInc (fun _ _ _ h => h.autoInc) rfl
    have hhas := hflag FieldMeta.hasIndex (fun _ _ _ h => h.hasIndex) rfl
    have hnull := hflag FieldMeta.notNull (fun _ _ _ h => h.notNull) rfl
    have hignore := hflag FieldMeta.ignore (fun _ _ _ h => h.ignore) rfl
    have hname := FieldMeta.lastValue_perm hperm h.name
    have htype := FieldMeta.lastValue_perm hperm h.type
    refine ⟨?_, ?_, hpk, hauto, hhas, ?_, ?_, h.index_eq metadata hperm⟩
    · exact FieldMeta.readItems_columnName.trans (hname.trans FieldMeta.readItems_columnName.symm)
    · exact FieldMeta.readItems_columnType.trans (htype.trans FieldMeta.readItems_columnType.symm)
    · rw [FieldMeta.lastFlags, FieldMeta.lastFlags, hpk, hnull]
    · rw [FieldMeta.lastFlags, FieldMeta.lastFlags, hpk, hauto, hignore]

end OrderFree

/-- A column has an index of its own, whatever the order of its items, exactly if they
spell one name and one type and hold at most one index word, next to no name but the
default one. -/
theorem ownIndex_iff (fieldName : Str) (metadata : Metadata) :
    OwnIndex fieldName metadata ↔ OrderFree fieldName (tagItems metadata.tag) :=
  ⟨OwnIndex.orderFree, OrderFree.ownIndex⟩

def keyBeforeName : Metadata := ⟨"int".toList, 0, "pk,name=user_id".toList⟩

/-- An index word before the name takes the default name for the index. -/
theorem keyBeforeName_index :
    (FieldMeta.ofMetadata "id".toList keyBeforeName).index.columns = ["id".toList] ∧
      (FieldMeta.ofMetadata "id".toList keyBeforeName).getColumnName = "user_id".toList ∧
      ¬ OwnIndex "id".toList keyBeforeName := by
  refine ⟨by decide, by decide, fun h => ?_⟩
  have hcolumns := h.columns (by decide)
  exact absurd hcolumns (by decide)

end TinyOrm

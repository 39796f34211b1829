import TinyOrm.Tags
set_option autoImplicit false

/-!
The items of a tag, as the loop of the constructor of `FieldMeta` sees them.
-/

namespace TinyOrm

/-! ## Items -/

/-- The texts between the commas of a tag. -/
def tagItems (tag : Str) : List Str := tag.splitOn ','

theorem join_tagItems (tag : Str) : Util.join ',' (tagItems tag) = tag := by
  have hjoin : ∀ parts : List Str, Util.join ',' parts = [','].intercalate parts := by
    intro parts
    induction parts with
    | nil => rfl
    | cons part parts ih =>
      cases parts with
      | nil => simp [Util.join]
      | cons next parts => rw [Util.join, ih, List.intercalate_cons_cons]; simp
  rw [hjoin, tagItems, List.intercalate_splitOn]

theorem tagItems_ne_nil (tag : Str) : tagItems tag ≠ [] := List.splitOn_ne_nil ',' tag

theorem comma_not_mem_tagItems {tag : Str} : ∀ item ∈ tagItems tag, ',' ∉ item := by
  induction tag with
  | nil => simp [tagItems]
  | cons c tag ih =>
    intro item hitem
    rw [tagItems, List.splitOn_cons_eq_if_modifyHead] at hitem
    split at hitem
    · rcases List.mem_cons.mp hitem with rfl | hitem
      · simp
      · exact ih item hitem
    · rename_i hc
      have hne : ',' ≠ c := fun heq => hc (by rw [← heq]; rfl)
      cases hitems : tagItems tag with
      | nil => exact absurd hitems (tagItems_ne_nil tag)
      | cons first rest =>
        have hsplit : tag.splitOn ',' = first :: rest := hitems
        rw [hsplit, List.modifyHead_cons] at hitem
        rcases List.mem_cons.mp hitem with rfl | hitem
        · have hfirst : ',' ∉ first := ih first (by rw [hitems]; simp)
          simp [hne, hfirst]
        · exact ih item (by rw [hitems]; simp [hitem])

theorem Util.infix_join (sep : Char) {part : Str} {parts : List Str} (h : part ∈ parts) :
    part <:+: Util.join sep parts := by
  induction parts with
  | nil => cases h
  | cons first parts ih =>
    by_cases hnil : parts = []
    · subst hnil
      rw [List.mem_singleton.mp h]
      exact List.infix_refl first
    · rw [Util.join_cons first hnil]
      rcases List.mem_cons.mp h with rfl | h
      · exact (List.prefix_append part _).isInfix
      · exact (ih h).trans ((List.suffix_cons sep _).trans (List.suffix_append first _)).isInfix

/-- An item at the end of a tag: `strip` takes the blanks behind it. -/
def lastItem (item : Str) : Str := item.rdropWhile isspace

theorem dropWhile_join (item : Str) (items : List Str) :
    (Util.join ',' (item :: items)).dropWhile isspace =
      Util.join ',' (item.dropWhile isspace :: items) := by
  cases items with
  | nil => rfl
  | cons next items =>
    rw [Util.join, Util.join, List.dropWhile_append]
    cases hdrop : item.dropWhile isspace with
    | nil => rfl
    | cons c cs => rfl

theorem rdropWhile_append {s t : Str} (h : t.rdropWhile isspace ≠ []) :
    (s ++ t).rdropWhile isspace = s ++ t.rdropWhile isspace := by
  have hdrop : t.reverse.dropWhile isspace ≠ [] := by
    rw [List.rdropWhile] at h
    simpa using h
  rw [List.rdropWhile, List.rdropWhile, List.reverse_append, List.dropWhile_append,
    if_neg (by simpa using hdrop), List.reverse_append, List.reverse_reverse]

theorem rdropWhile_cons {c : Char} (hc : isspace c = false) (s : Str) :
    (c :: s).rdropWhile isspace = c :: s.rdropWhile isspace := by
  by_cases hs : s.rdropWhile isspace = []
  · have hall : ∀ d ∈ s.reverse, isspace d = true := by
      simpa using List.rdropWhile_eq_nil_iff.mp hs
    rw [hs, List.rdropWhile, List.reverse_cons, List.dropWhile_append_of_pos hall]
    simp [hc]
  · exact rdropWhile_append (s := [c]) hs

/-- The items as the loop over them sees them. -/
def seenItems : List Str → List Str
  | [] => []
  | [item] => [lastItem item]
  | item :: next :: items => item :: seenItems (next :: items)

theorem seenItems_concat (items : List Str) (item : Str) :
    seenItems (items ++ [item]) = items ++ [lastItem item] := by
  induction items with
  | nil => rfl
  | cons first items ih =>
    cases items with
    | nil => rfl
    | cons next items =>
      rw [List.cons_append, List.cons_append, seenItems, ← List.cons_append, ih]
      rfl

/-- What does not depend on the blanks behind an item. -/
theorem map_seenItems {α : Type} {f : Str → α} (hf : ∀ item, f (lastItem item) = f item)
    (items : List Str) : (seenItems items).map f = items.map f := by
  induction items using seenItems.induct with
  | case1 => rfl
  | case2 item => rw [seenItems, List.map_singleton, hf, List.map_singleton]
  | case3 item next items ih =>
    rw [seenItems, List.map_cons, ih]
    rfl

theorem mem_seenItems {item : Str} {items : List Str} (h : item ∈ seenItems items) :
    ∃ part ∈ items, item = part ∨ item = lastItem part := by
  rcases List.eq_nil_or_concat items with rfl | ⟨before, last, rfl⟩
  · cases h
  rw [List.concat_eq_append] at h ⊢
  rw [seenItems_concat] at h
  rcases List.mem_append.mp h with h | h
  · exact ⟨item, by simp [h], .inl rfl⟩
  · exact ⟨last, by simp, .inr (List.mem_singleton.mp h)⟩

theorem prefix_of_mem_seen {item : Str} {items : List Str} (h : item ∈ seenItems items) :
    ∃ part ∈ items, item <+: part := by
  obtain ⟨part, hpart, rfl | rfl⟩ := mem_seenItems h
  · exact ⟨item, hpart, List.prefix_refl item⟩
  · exact ⟨part, hpart, List.rdropWhile_prefix isspace part⟩

theorem rdropWhile_join (items : List Str) (item : Str) :
    (Util.join ',' (items ++ [item])).rdropWhile isspace =
      Util.join ',' (items ++ [lastItem item]) := by
  by_cases hnil : items = []
  · subst hnil
    rfl
  · have hcomma : (',' :: item).rdropWhile isspace = ',' :: lastItem item :=
      rdropWhile_cons (by decide) item
    rw [Util.join_append hnil (by simp), Util.join_append hnil (by simp), Util.join, Util.join,
      rdropWhile_append (by rw [hcomma]; simp), hcomma]

/-- The blanks at the two ends are taken in any order. -/
theorem dropWhile_rdropWhile (s : Str) :
    (s.rdropWhile isspace).dropWhile isspace = (s.dropWhile isspace).rdropWhile isspace := by
  induction s with
  | nil => rfl
  | cons c s ih =>
    cases hc : isspace c with
    | false => rw [rdropWhile_cons hc, List.dropWhile_cons_of_neg (by simp [hc]),
        List.dropWhile_cons_of_neg (by simp [hc]), rdropWhile_cons hc]
    | true =>
      rw [List.dropWhile_cons_of_pos hc]
      by_cases hs : s.rdropWhile isspace = []
      · have hall : ∀ d ∈ c :: s, isspace d = true :=
          List.forall_mem_cons.mpr ⟨hc, List.rdropWhile_eq_nil_iff.mp hs⟩
        rw [List.rdropWhile_eq_nil_iff.mpr hall, ← ih, hs]
      · have hcons : (c :: s).rdropWhile isspace = c :: s.rdropWhile isspace :=
          rdropWhile_append (s := [c]) hs
        rw [hcons, List.dropWhile_cons_of_pos hc, ih]

theorem strip_dropWhile (s : Str) : Util.strip (s.dropWhile isspace) = Util.strip s := by
  rw [Util.strip_eq, Util.strip_eq, List.dropWhile_idempotent]

/-- What `strip` makes of a text at the end of another: no more than a character is lost. -/
theorem strip_rdropWhile (s : Str) : Util.strip (s.rdropWhile isspace) = Util.strip s ∨
    Util.strip (s.rdropWhile isspace) = [] ∧ (Util.strip s).length ≤ 1 := by
  have hle := (List.rdropWhile_prefix isspace (l := s.dropWhile isspace)).length_le
  rw [Util.strip_eq, Util.strip_eq, dropWhile_rdropWhile, List.rdropWhile_idempotent]
  by_cases hlen : (s.dropWhile isspace).length ≤ 1
  · rw [if_pos hlen, if_pos (by omega)]
    exact .inl rfl
  · rw [if_neg hlen]
    by_cases hback : ((s.dropWhile isspace).rdropWhile isspace).length ≤ 1
    · exact .inr ⟨if_pos hback, hback⟩
    · exact .inl (if_neg hback)

/-! ## What an item gives -/

/-- The value of an item `key = value`. -/
def itemValue (key item : Str) : Option Str :=
  match item.findIdx? (· = '=') with
  | some eq_pos =>
    if Util.toLowerCase (Util.strip (item.take eq_pos)) = key then
      some (Util.strip (item.drop (eq_pos + 1)))
    else none
  | none => none

/-- The words of any other item. -/
def itemWords (item : Str) : List Str :=
  if '=' ∈ item then [] else Util.split (Util.strip item) [' ']

theorem findIdx_assign {k : Str} (hk : '=' ∉ k) (v : Str) :
    (k ++ '=' :: v).findIdx? (· = '=') = some k.length := by
  have hnone : k.findIdx? (· = '=') = none := by
    rw [List.findIdx?_eq_none_iff]
    intro c hc
    simpa using fun heq : c = '=' => hk (heq ▸ hc)
  rw [List.findIdx?_append, hnone]
  simp [List.findIdx?_cons]

theorem findIdx_plain {item : Str} (h : '=' ∉ item) : item.findIdx? (· = '=') = none := by
  rw [List.findIdx?_eq_none_iff]
  intro c hc
  simpa using fun heq : c = '=' => h (heq ▸ hc)

theorem itemValue_assign (key : Str) {k : Str} (hk : '=' ∉ k) (v : Str) :
    itemValue key (k ++ '=' :: v) =
      if Util.toLowerCase (Util.strip k) = key then some (Util.strip v) else none := by
  rw [itemValue, findIdx_assign hk]
  simp

theorem itemValue_plain (key : Str) {item : Str} (h : '=' ∉ item) : itemValue key item = none := by
  rw [itemValue, findIdx_plain h]

/-- An item is one of two kinds. -/
theorem assign_or_plain (item : Str) :
    (∃ k v, '=' ∉ k ∧ item = k ++ '=' :: v) ∨ '=' ∉ item := by
  by_cases h : '=' ∈ item
  · obtain ⟨k, v, heq, hk⟩ := List.eq_append_cons_of_mem h
    exact .inl ⟨k, v, hk, heq⟩
  · exact .inr h

theorem lastItem_assign (k v : Str) : lastItem (k ++ '=' :: v) = k ++ '=' :: lastItem v := by
  have heq : ('=' :: v).rdropWhile isspace = '=' :: lastItem v := rdropWhile_cons (by decide) v
  rw [lastItem, rdropWhile_append (by rw [heq]; simp), heq]

theorem lastItem_plain {item : Str} (h : '=' ∉ item) : '=' ∉ lastItem item :=
  fun hmem => h ((List.rdropWhile_prefix isspace item).subset hmem)

/-- At the end of the tag an item has the same key. -/
theorem itemValue_lastItem_isSome (key item : Str) :
    (itemValue key (lastItem item)).isSome = (itemValue key item).isSome := by
  rcases assign_or_plain item with ⟨k, v, hk, rfl⟩ | hplain
  · rw [lastItem_assign, itemValue_assign key hk, itemValue_assign key hk]
    split <;> rfl
  · rw [itemValue_plain key hplain, itemValue_plain key (lastItem_plain hplain)]

namespace FieldMeta

theorem readTag_assign (field : FieldMeta) {k : Str} (hk : '=' ∉ k) (v : Str) :
    readTag field (k ++ '=' :: v) =
      if Util.toLowerCase (Util.strip k) = "name".toList then
        { field with columnName := some (Util.strip v) }
      else if Util.toLowerCase (Util.strip k) = "type".toList then
        { field with columnType := some (Util.strip v) }
      else field := by
  rw [readTag, findIdx_assign hk]
  simp

theorem readTag_plain (field : FieldMeta) {item : Str} (h : '=' ∉ item) :
    readTag field item = ((itemWords item).foldl readExt { field := field }).field := by
  rw [readTag, findIdx_plain h, itemWords, if_neg h]

/-- The blanks before an item do not count. -/
theorem readTag_dropWhile (field : FieldMeta) (item : Str) :
    readTag field (item.dropWhile isspace) = readTag field item := by
  rcases assign_or_plain item with ⟨k, v, hk, rfl⟩ | hplain
  · have hk' : '=' ∉ k.dropWhile isspace := fun hmem => hk (List.dropWhile_subset _ hmem)
    have hdrop : (k ++ '=' :: v).dropWhile isspace = k.dropWhile isspace ++ '=' :: v := by
      rw [List.dropWhile_append]
      cases hdrop : k.dropWhile isspace with
      | nil => rfl
      | cons c cs => rfl
    rw [hdrop, readTag_assign field hk', readTag_assign field hk, strip_dropWhile]
  · have hplain' : '=' ∉ item.dropWhile isspace :=
      fun hmem => hplain (List.dropWhile_subset _ hmem)
    rw [readTag_plain field hplain', readTag_plain field hplain, itemWords, itemWords,
      if_neg hplain, if_neg hplain', strip_dropWhile]

/-- A single character says nothing. -/
theorem readTag_short (field : FieldMeta) {item : Str} (h : item.length ≤ 1) :
    readTag field item = field := by
  match item, h with
  | [], _ => rfl
  | [c], _ =>
    by_cases hc : c = '='
    · subst hc
      rfl
    · have hplain : '=' ∉ [c] := by simpa [eq_comm] using hc
      rw [readTag_plain field hplain, itemWords, if_neg hplain]
      rfl

theorem foldl_readTag_short {items : List Str} (h : ∀ item ∈ items, item.length ≤ 1)
    (field : FieldMeta) : items.foldl readTag field = field := by
  induction items with
  | nil => rfl
  | cons item items ih =>
    rw [List.foldl_cons, readTag_short field (h item (by simp))]
    exact ih fun i hi => h i (by simp [hi])

theorem foldl_readTag_filter (items : List Str) (field : FieldMeta) :
    (items.filter (· ≠ [])).foldl readTag field = items.foldl readTag field := by
  induction items generalizing field with
  | nil => rfl
  | cons item items ih =>
    by_cases hnil : item = []
    · subst hnil
      rw [List.foldl_cons, readTag_short field (by simp)]
      exact ih field
    · rw [List.filter_cons_of_pos (by simpa using hnil), List.foldl_cons, List.foldl_cons, ih]

/-- The blanks at the front of a tag are those before its first item. -/
theorem dropWhile_items (items : List Str) (item : Str) :
    ∃ items' item', (Util.join ',' (items ++ [item])).dropWhile isspace =
        Util.join ',' (items' ++ [item']) ∧
      (∀ i ∈ items' ++ [item'], ∃ j ∈ items ++ [item], ∀ c ∈ i, c ∈ j) ∧
      ∀ field, (items' ++ [lastItem item']).foldl readTag field =
        (items ++ [lastItem item]).foldl readTag field := by
  cases items with
  | nil =>
    refine ⟨[], item.dropWhile isspace, rfl, ?_, fun field => ?_⟩
    · simpa using fun c hc => List.dropWhile_subset _ hc
    · simp only [List.nil_append, List.foldl_cons, List.foldl_nil, lastItem]
      rw [← dropWhile_rdropWhile, readTag_dropWhile]
  | cons first items =>
    refine ⟨first.dropWhile isspace :: items, item, dropWhile_join first _, ?_, fun field => ?_⟩
    · intro i hi
      rcases List.mem_cons.mp hi with rfl | hi
      · exact ⟨first, by simp, fun c hc => List.dropWhile_subset _ hc⟩
      · exact ⟨i, List.mem_cons_of_mem _ hi, fun c hc => hc⟩
    · simp only [List.cons_append, List.foldl_cons, readTag_dropWhile]

/-- The items are read one after another, the last without the blanks behind it. -/
theorem readTags_join (field : FieldMeta) {items : List Str} (hcomma : ∀ i ∈ items, ',' ∉ i) :
    readTags field (Util.join ',' items) = (seenItems items).foldl readTag field := by
  rcases List.eq_nil_or_concat items with rfl | ⟨items, item, rfl⟩
  · rfl
  rw [List.concat_eq_append] at hcomma ⊢
  rw [seenItems_concat]
  obtain ⟨items', item', hdrop, hsub, hfold⟩ := dropWhile_items items item
  rw [← hfold, readTags, Util.strip_eq, hdrop]
  by_cases hlen : (Util.join ',' (items' ++ [item'])).length ≤ 1
  · rw [if_pos hlen]
    refine (foldl_readTag_short (fun i hi => ?_) field).symm
    rw [← seenItems_concat] at hi
    obtain ⟨part, hmem, hbegin⟩ := prefix_of_mem_seen hi
    have hle := hbegin.length_le
    have hjoin := (Util.infix_join ',' hmem).length_le
    omega
  · rw [if_neg hlen, rdropWhile_join, Util.split_join_filter (by simp), foldl_readTag_filter]
    intro i hi c hc hsep
    rw [List.mem_singleton.mp hsep] at hc
    rw [← seenItems_concat] at hi
    obtain ⟨part, hmem, hbegin⟩ := prefix_of_mem_seen hi
    obtain ⟨j, hj, hjsub⟩ := hsub part hmem
    exact hcomma j hj (hjsub _ (hbegin.subset hc))

/-! ## Words behind a default -/

theorem readExt_behind {s : ExtState} (h : s.checkDefault = true) (word : Str) :
    readExt s word = { s with field := { s.field with default_ := word } } := by
  rw [readExt, if_pos h]

/-- The words behind `default` overwrite one another. -/
theorem foldl_readExt_behind {s : ExtState} (h : s.checkDefault = true) (words : List Str) :
    words.foldl readExt s =
      { s with field := { s.field with default_ := words.getLast?.getD s.field.default_ } } := by
  induction words generalizing s with
  | nil => rfl
  | cons word words ih =>
    have hlatch : (readExt s word).checkDefault = true := by rw [readExt_behind h, h]
    rw [List.foldl_cons, ih hlatch, readExt_behind h]
    cases words with
    | nil => rfl
    | cons next words =>
      rw [List.getLast?_cons_cons, List.getLast?_cons]
      rfl

/-! ## Names and types -/

theorem readExt_names (s : ExtState) (word : Str) :
    (readExt s word).field.columnName = s.field.columnName ∧
      (readExt s word).field.columnType = s.field.columnType ∧
      (readExt s word).field.fieldName = s.field.fieldName := by
  unfold readExt
  dsimp only
  repeat' split
  all_goals exact ⟨rfl, rfl, rfl⟩

theorem foldl_readExt_names (s : ExtState) (words : List Str) :
    (words.foldl readExt s).field.columnName = s.field.columnName ∧
      (words.foldl readExt s).field.columnType = s.field.columnType ∧
      (words.foldl readExt s).field.fieldName = s.field.fieldName := by
  induction words generalizing s with
  | nil => exact ⟨rfl, rfl, rfl⟩
  | cons word words ih =>
    obtain ⟨hname, htype, hfield⟩ := readExt_names s word
    rw [← hname, ← htype, ← hfield]
    exact ih (readExt s word)

theorem readTag_names (field : FieldMeta) (item : Str) :
    (readTag field item).columnName = (itemValue "name".toList item).or field.columnName ∧
      (readTag field item).columnType = (itemValue "type".toList item).or field.columnType ∧
      (readTag field item).fieldName = field.fieldName := by
  rcases assign_or_plain item with ⟨k, v, hk, rfl⟩ | hplain
  · rw [readTag_assign field hk, itemValue_assign _ hk, itemValue_assign _ hk]
    by_cases hname : Util.toLowerCase (Util.strip k) = "name".toList
    · rw [if_pos hname, if_pos hname, hname]
      exact ⟨rfl, rfl, rfl⟩
    · rw [if_neg hname, if_neg hname]
      split <;> exact ⟨rfl, rfl, rfl⟩
  · rw [readTag_plain field hplain, itemValue_plain _ hplain, itemValue_plain _ hplain]
    exact foldl_readExt_names _ _

/-- The value that the last item with the key leaves. -/
def lastValue (key : Str) : List Str → Option Str
  | [] => none
  | item :: items => (lastValue key items).or (itemValue key item)

theorem foldl_readTag_names (field : FieldMeta) (items : List Str) :
    (items.foldl readTag field).columnName = (lastValue "name".toList items).or field.columnName ∧
      (items.foldl readTag field).columnType =
        (lastValue "type".toList items).or field.columnType ∧
      (items.foldl readTag field).fieldName = field.fieldName := by
  induction items generalizing field with
  | nil => exact ⟨rfl, rfl, rfl⟩
  | cons item items ih =>
    obtain ⟨hname, htype, hfield⟩ := readTag_names field item
    obtain ⟨hname', htype', hfield'⟩ := ih (readTag field item)
    rw [List.foldl_cons, hname', htype', hfield', hname, htype, hfield]
    simp only [lastValue, Option.or_assoc, and_self]

theorem lastValue_append (key : Str) (items items' : List Str) :
    lastValue key (items ++ items') = (lastValue key items').or (lastValue key items) := by
  induction items with
  | nil => exact (Option.or_none).symm
  | cons item items ih => rw [List.cons_append, lastValue, ih, lastValue, Option.or_assoc]

theorem lastValue_singleton (key item : Str) : lastValue key [item] = itemValue key item := rfl

theorem lastValue_mem {key v : Str} {items : List Str} (h : lastValue key items = some v) :
    ∃ item ∈ items, itemValue key item = some v := by
  induction items with
  | nil => cases h
  | cons item items ih =>
    rw [lastValue] at h
    cases hlast : lastValue key items with
    | none =>
      rw [hlast, Option.none_or] at h
      exact ⟨item, by simp, h⟩
    | some w =>
      rw [hlast, Option.some_or] at h
      obtain ⟨later, hlater, hvalue⟩ := ih (hlast.trans h)
      exact ⟨later, List.mem_cons_of_mem item hlater, hvalue⟩

theorem lastValue_isSome (key : Str) (items : List Str) :
    (lastValue key items).isSome = items.any fun item => (itemValue key item).isSome := by
  induction items with
  | nil => rfl
  | cons item items ih => rw [lastValue, Option.isSome_or, ih, List.any_cons, Bool.or_comm]

theorem lastValue_eq {key v : Str} {items : List Str}
    (h : ∀ item ∈ items, itemValue key item = none ∨ itemValue key item = some v)
    (hsome : ∃ item ∈ items, itemValue key item = some v) : lastValue key items = some v := by
  have hlast : (lastValue key items).isSome = true := by
    rw [lastValue_isSome, List.any_eq_true]
    obtain ⟨item, hitem, hvalue⟩ := hsome
    exact ⟨item, hitem, by rw [hvalue]; rfl⟩
  obtain ⟨w, hw⟩ := Option.isSome_iff_exists.mp hlast
  obtain ⟨item, hitem, hvalue⟩ := lastValue_mem hw
  rcases h item hitem with hnone | hv
  · rw [hvalue] at hnone
    cases hnone
  · rw [hw, ← hvalue, hv]

/-! ## The whole tag -/

/-- The last two flags that the constructor sets. -/
def lastFlags (field : FieldMeta) : FieldMeta :=
  { field with
    ignore := (field.isPk && field.autoInc) || field.ignore
    notNull := field.isPk || field.notNull }

theorem ofMetadata_join (fieldName : Str) (metadata : Metadata) {items : List Str}
    (hcomma : ∀ item ∈ items, ',' ∉ item) (htag : metadata.tag = Util.join ',' items) :
    ofMetadata fieldName metadata =
      lastFlags ((seenItems items).foldl readTag (ofMember fieldName metadata)) := by
  rw [ofMetadata, htag, readTags_join _ hcomma]
  rfl

theorem mem_of_itemValue {key item v : Str} (h : itemValue key item = some v) :
    ∀ c ∈ v, c ∈ item := by
  rcases assign_or_plain item with ⟨k, w, hk, rfl⟩ | hplain
  · rw [itemValue_assign key hk] at h
    split at h
    · obtain rfl := Option.some.inj h
      exact fun c hc => by simp [Util.mem_strip hc]
    · cases h
  · rw [itemValue_plain key hplain] at h
    cases h

/-- Whatever the tag, no comma is part of a column type. -/
theorem comma_not_mem_columnType {fieldName : Str} {metadata : Metadata} {type : Str}
    (h : (ofMetadata fieldName metadata).columnType = some type) : ',' ∉ type := by
  rw [ofMetadata_join fieldName metadata comma_not_mem_tagItems (join_tagItems _).symm] at h
  have hlast := (foldl_readTag_names (ofMember fieldName metadata)
    (seenItems (tagItems metadata.tag))).2.1.symm.trans h
  obtain ⟨item, hitem, hvalue⟩ := lastValue_mem (Option.or_none.symm.trans hlast)
  intro hcomma
  have hin := mem_of_itemValue hvalue _ hcomma
  obtain ⟨part, hpart, hbegin⟩ := prefix_of_mem_seen hitem
  exact comma_not_mem_tagItems _ hpart (hbegin.subset hin)

end FieldMeta

end TinyOrm

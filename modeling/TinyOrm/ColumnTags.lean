import TinyOrm.TagWords
set_option autoImplicit false

/-!
Column declarations, the tags that spell them, and the fields that the constructor of
`FieldMeta` reads from those.
-/

namespace TinyOrm

/-! ## A declaration and its text -/

inductive TagItem where
  | name
  | type
  | words (words : List Str)

def TagItem.words? : TagItem → Option (List Str)
  | .words list => some list
  | _ => none

/-- A column declaration: its items in any order, with blanks behind the commas and around
the equals signs. -/
structure ColumnTag where
  name : Str
  type : Str
  items : List TagItem
  blanks : Nat
  gap : Nat
  name_word : Word name
  type_ne_nil : type ≠ []
  type_head : ∀ c ∈ type.head?, isspace c = false
  type_last : ∀ c ∈ type.getLast?, isspace c = false
  name_mem : .name ∈ items
  type_mem : .type ∈ items
  words_mem : ∀ words, .words words ∈ items →
    words ≠ [] ∧ ∀ word ∈ words, Token word ∧ ',' ∉ word

namespace ColumnTag

def blankText (n : Nat) : Str := List.replicate n ' '

def itemText (c : ColumnTag) : TagItem → Str
  | .name =>
    (blankText c.blanks ++ "name".toList ++ blankText c.gap) ++ '=' :: (blankText c.gap ++ c.name)
  | .type =>
    (blankText c.blanks ++ "type".toList ++ blankText c.gap) ++ '=' :: (blankText c.gap ++ c.type)
  | .words words => blankText c.blanks ++ Util.join ' ' words

def text (c : ColumnTag) : Str := Util.join ',' (c.items.map c.itemText)

/-- The lists of words, item by item. -/
def wordItems (c : ColumnTag) : List (List Str) := c.items.filterMap TagItem.words?

def meant (c : ColumnTag) : List TagWord := c.wordItems.flatMap tagWordsOf

/-! ## Blanks -/

theorem isspace_blankText {n : Nat} {c : Char} (h : c ∈ blankText n) : isspace c = true := by
  rw [List.eq_of_mem_replicate h]
  rfl

theorem dropWhile_blankText (n : Nat) {s : Str} (h : ∀ c ∈ s.head?, isspace c = false) :
    (blankText n ++ s).dropWhile isspace = s := by
  rw [List.dropWhile_append_of_pos fun c hc => isspace_blankText hc]
  cases s with
  | nil => rfl
  | cons c s => rw [List.dropWhile_cons_of_neg (by simp [h c rfl])]

theorem rdropWhile_self {s : Str} (h : ∀ c ∈ s.getLast?, isspace c = false) :
    s.rdropWhile isspace = s := by
  rw [List.rdropWhile_eq_self_iff]
  intro hne
  simp [h _ (List.getLast?_eq_getLast_of_ne_nil hne)]

/-- A single character is stripped with the blanks. -/
theorem strip_blankText (n : Nat) {s : Str} (hhead : ∀ c ∈ s.head?, isspace c = false)
    (hlast : ∀ c ∈ s.getLast?, isspace c = false) :
    Util.strip (blankText n ++ s) = if s.length ≤ 1 then [] else s := by
  rw [Util.strip_eq, dropWhile_blankText n hhead, rdropWhile_self hlast]

theorem strip_key (n m : Nat) {key : Str} (hlen : 2 ≤ key.length) (hkey : Word key) :
    Util.strip (blankText n ++ key ++ blankText m) = key := by
  have hhead' : ∀ c ∈ (key ++ blankText m).head?, isspace c = false := by
    cases key with
    | nil => simp at hlen
    | cons c key => exact hkey.token.head
  have hback : (key ++ blankText m).rdropWhile isspace = key := by
    rw [List.rdropWhile, List.reverse_append, List.dropWhile_append_of_pos, ← List.rdropWhile,
      rdropWhile_self hkey.token.last]
    intro c hc
    exact isspace_blankText (List.mem_reverse.mp hc)
  rw [List.append_assoc, Util.strip_eq, dropWhile_blankText n hhead', if_neg, hback]
  rw [List.length_append]
  omega

/-! ## One item -/

theorem eq_not_mem_key (n m : Nat) {key : Str} (h : Word key) :
    '=' ∉ blankText n ++ key ++ blankText m := by
  intro hmem
  rcases List.mem_append.mp hmem with hmem | hmem
  · rcases List.mem_append.mp hmem with hmem | hmem
    · exact absurd (isspace_blankText hmem) (by decide)
    · exact h.no_eq _ hmem rfl
  · exact absurd (isspace_blankText hmem) (by decide)

theorem itemValue_assignText (key key' : Str) (n m : Nat) {v : Str} (hkey : Word key')
    (hlen : 2 ≤ key'.length) (hv : ∀ c ∈ v.head?, isspace c = false)
    (hv' : ∀ c ∈ v.getLast?, isspace c = false) :
    itemValue key ((blankText n ++ key' ++ blankText m) ++ '=' :: (blankText m ++ v)) =
      if Util.toLowerCase key' = key then some (if v.length ≤ 1 then [] else v) else none := by
  rw [itemValue_assign key (eq_not_mem_key n m hkey), strip_key n m hlen hkey,
    strip_blankText m hv hv']

variable (c : ColumnTag)

theorem name_head : ∀ d ∈ c.name.head?, isspace d = false := c.name_word.token.head

theorem name_last : ∀ d ∈ c.name.getLast?, isspace d = false := c.name_word.token.last

theorem itemValue_name (key : Str) : itemValue key (c.itemText .name) =
    if "name".toList = key then some (if c.name.length ≤ 1 then [] else c.name) else none :=
  itemValue_assignText key "name".toList c.blanks c.gap (by decide) (by decide)
    c.name_head c.name_last

theorem itemValue_type (key : Str) : itemValue key (c.itemText .type) =
    if "type".toList = key then some (if c.type.length ≤ 1 then [] else c.type) else none :=
  itemValue_assignText key "type".toList c.blanks c.gap (by decide) (by decide)
    c.type_head c.type_last

def hasEq (words : List Str) : Bool := words.any fun word => word.any (· = '=')

/-- An item whose words are not read: it holds an equals sign, or is a single character. -/
def dropped (words : List Str) : Bool := hasEq words || (Util.join ' ' words).length ≤ 1

theorem hasEq_iff {words : List Str} : hasEq words = true ↔ ∃ word ∈ words, '=' ∈ word := by
  simp [hasEq]

theorem eq_mem_words {words : List Str} :
    '=' ∈ c.itemText (.words words) ↔ hasEq words = true := by
  rw [hasEq_iff]
  constructor
  · intro hmem
    by_contra hnone
    have hwords : ∀ word ∈ words, ∀ d ∈ word, d ≠ '=' := by
      rintro word hword d hd rfl
      exact hnone ⟨word, hword, hd⟩
    rcases List.mem_append.mp hmem with hmem | hmem
    · exact absurd (isspace_blankText hmem) (by decide)
    · exact Util.forall_mem_join (by decide) hwords _ hmem rfl
  · intro ⟨word, hword, hmem⟩
    exact List.mem_append_right _ ((Util.infix_join ' ' hword).subset hmem)

theorem itemWords_words {words : List Str} (hwords : ∀ word ∈ words, Token word) :
    itemWords (c.itemText (.words words)) = if dropped words then [] else words := by
  cases heq : hasEq words with
  | true => rw [itemWords, if_pos (c.eq_mem_words.mpr heq), dropped, heq, Bool.true_or, if_pos rfl]
  | false =>
    have hmem : '=' ∉ c.itemText (.words words) := by
      rw [c.eq_mem_words, heq]
      exact Bool.false_ne_true
    rw [itemWords, if_neg hmem, itemText, dropped, heq, Bool.false_or,
      strip_blankText c.blanks (head_join hwords) (last_join hwords)]
    by_cases hlen : (Util.join ' ' words).length ≤ 1
    · rw [if_pos hlen, decide_eq_true hlen, if_pos rfl]
      rfl
    · rw [if_neg hlen, decide_eq_false hlen, if_neg Bool.false_ne_true, split_words hwords]

end ColumnTag

/-- An item without free words begins with a word that has a meaning. -/
theorem head_mem_tagWords {word : Str} {words : List Str}
    (hfree : ∀ w, .free w ∉ tagWordsOf (word :: words)) :
    Util.toLowerCase word ∈ tagWords := by
  by_contra hother
  simp only [tagWords, List.mem_cons, List.not_mem_nil, or_false, not_or] at hother
  obtain ⟨hpk, hkey, hauto, hignore, hindex, hunique, hnot, hdefault⟩ := hother
  have hnone : tagKeyword (Util.toLowerCase word) = none := by
    rw [tagKeyword, if_neg (not_or.mpr ⟨hpk, hkey⟩), if_neg hauto, if_neg hignore, if_neg hindex,
      if_neg hunique]
  refine hfree word ?_
  cases words with
  | nil => simp [tagWordsOf, oneWord_free hnone]
  | cons next words =>
    rw [tagWordsOf, if_neg fun hpair => hnot hpair.1, if_neg hdefault, oneWord_free hnone]
    exact List.mem_cons_self

/-- The front of a text before its first equals sign. -/
theorem prefix_of_append_eq {front rest k v : Str} (hfront : '=' ∉ front)
    (h : front ++ rest = k ++ '=' :: v) : front <+: k := by
  rcases List.append_eq_append_iff.mp h with ⟨tail, hk, -⟩ | ⟨tail, hk, hv⟩
  · exact ⟨tail, hk.symm⟩
  · cases tail with
    | nil => 
      rw [List.append_nil] at hk
      exact hk ▸ List.prefix_refl front
    | cons d tail =>
      rw [List.cons_append, List.cons.injEq] at hv
      exact absurd (by rw [hk, ← hv.1]; simp) hfront

theorem prefix_rdropWhile {w s : Str} (hw : Token w) : w <+: (w ++ s).rdropWhile isspace := by
  by_cases hs : s.rdropWhile isspace = []
  · have hall : ∀ d ∈ s.reverse, isspace d = true := by
      simpa using List.rdropWhile_eq_nil_iff.mp hs
    rw [List.rdropWhile, List.reverse_append, List.dropWhile_append_of_pos hall,
      ← List.rdropWhile, ColumnTag.rdropWhile_self hw.last]
  · rw [rdropWhile_append hs]
    exact List.prefix_append w _

namespace ColumnTag

variable (c : ColumnTag)

/-- An item with an equals sign is no name and no type if none of its words is free. -/
theorem readTag_eq {words : List Str} (h : .words words ∈ c.items)
    (heq : hasEq words = true) (hfree : ∀ word, .free word ∉ tagWordsOf words)
    (field : FieldMeta) : FieldMeta.readTag field (c.itemText (.words words)) = field := by
  obtain ⟨hne, hwords⟩ := c.words_mem words h
  have hmem := c.eq_mem_words.mpr heq
  obtain ⟨k, v, htext, hk⟩ := List.eq_append_cons_of_mem hmem
  cases words with
  | nil => exact absurd rfl hne
  | cons word words =>
    have hword : Token word := (hwords word (by simp)).1
    have hlower := head_mem_tagWords hfree
    have hno : '=' ∉ word := by
      intro hin
      have hin' : '=' ∈ Util.toLowerCase word := List.mem_map.mpr ⟨'=', hin, rfl⟩
      have hnone : ∀ w ∈ tagWords, '=' ∉ w := by decide
      exact hnone _ hlower hin'
    have hfront : '=' ∉ blankText c.blanks ++ word := by
      intro hin
      rcases List.mem_append.mp hin with hin | hin
      · exact absurd (isspace_blankText hin) (by decide)
      · exact hno hin
    obtain ⟨rest, hrest⟩ : ∃ rest, c.itemText (.words (word :: words)) =
        (blankText c.blanks ++ word) ++ rest := by
      obtain ⟨rest, hjoin⟩ : ∃ rest, Util.join ' ' (word :: words) = word ++ rest := by
        cases words with
        | nil => exact ⟨[], (List.append_nil word).symm⟩
        | cons next words => exact ⟨_, rfl⟩
      exact ⟨rest, by rw [itemText, hjoin, List.append_assoc]⟩
    obtain ⟨tail, rfl⟩ := prefix_of_append_eq hfront (hrest.symm.trans htext)
    have hkey : Util.toLowerCase word <+:
        Util.toLowerCase (Util.strip (blankText c.blanks ++ word ++ tail)) := by
      have hlen : 2 ≤ word.length := by
        have hlong : ∀ w ∈ tagWords, 2 ≤ w.length := by decide
        have hle := hlong _ hlower
        rwa [Util.toLowerCase, List.length_map] at hle
      have hhead : ∀ d ∈ (word ++ tail).head?, isspace d = false := by
        rw [List.head?_append_of_ne_nil _ hword.1]
        exact hword.head
      rw [List.append_assoc, Util.strip_eq, dropWhile_blankText _ hhead, if_neg]
      · exact (prefix_rdropWhile hword).map tolower
      · rw [List.length_append]
        omega
    have hname : ∀ w ∈ tagWords, ¬ w <+: "name".toList ∧ ¬ w <+: "type".toList := by decide
    rw [htext, FieldMeta.readTag_assign field hk, if_neg, if_neg]
    · intro htype
      exact (hname _ hlower).2 (htype ▸ hkey)
    · intro heqName
      exact (hname _ hlower).1 (heqName ▸ hkey)

/-! ## What an item leaves in a field -/

/-- The words of an item that reach `extra`. -/
def keptExtra (words : List Str) : List Str :=
  if dropped words then [] else keptWords false words

/-- The words of an item that are read as they are meant. -/
def keptTagWords (words : List Str) : List TagWord :=
  if dropped words then [] else beforeDefault (tagWordsOf words)

def keptDefault (words : List Str) : Option Str :=
  if dropped words then none else defaultOf words

theorem readTag_assign_extra (field : FieldMeta) {item : Str} (h : '=' ∈ item) :
    (FieldMeta.readTag field item).extra = field.extra := by
  obtain ⟨k, v, rfl, hk⟩ := List.eq_append_cons_of_mem h
  rw [FieldMeta.readTag_assign field hk]
  repeat' split
  all_goals rfl

theorem readTag_words_extra {words before : List Str} (h : .words words ∈ c.items)
    (hbefore : ∀ word ∈ before, word ≠ []) {field : FieldMeta}
    (hextra : field.extra = Util.join ' ' before) :
    (FieldMeta.readTag field (c.itemText (.words words))).extra =
      Util.join ' ' (before ++ keptExtra words) := by
  have htokens : ∀ word ∈ words, Token word :=
    fun word hword => ((c.words_mem words h).2 word hword).1
  by_cases heq : '=' ∈ c.itemText (.words words)
  · have hdropped : dropped words = true := by rw [dropped, c.eq_mem_words.mp heq, Bool.true_or]
    rw [readTag_assign_extra field heq, keptExtra, if_pos hdropped, List.append_nil, hextra]
  · rw [FieldMeta.readTag_plain field heq, c.itemWords_words htokens, keptExtra]
    cases hdropped : dropped words with
    | true => rw [if_pos rfl, if_pos rfl, List.append_nil, ← hextra, List.foldl_nil]
    | false =>
      rw [if_neg Bool.false_ne_true, if_neg Bool.false_ne_true]
      exact FieldMeta.foldl_readExt_kept htokens hbefore false hextra

/-- An item that loses no free word. -/
structure KeepsWords (words : List Str) : Prop where
  free : KeepsFree (tagWordsOf words)
  read : dropped words = true → ∀ word, .free word ∉ tagWordsOf words

theorem beforeDefault_default (words : List TagWord) (field : FieldMeta) :
    ((beforeDefault words).foldl FieldMeta.apply field).default_ = field.default_ := by
  induction words generalizing field with
  | nil => rfl
  | cons t words ih =>
    cases ht : isDefault t with
    | true =>
      rw [beforeDefault, List.takeWhile_cons_of_neg (by simp [ht])]
      rfl
    | false =>
      rw [beforeDefault_cons ht, List.foldl_cons, ih]
      cases t <;> first | rfl | cases ht

theorem readTag_words_kept {words : List Str} (h : .words words ∈ c.items)
    (hkeeps : KeepsWords words) (field : FieldMeta) :
    FieldMeta.readTag field (c.itemText (.words words)) =
      { (keptTagWords words).foldl FieldMeta.apply field with
        default_ := (keptDefault words).getD field.default_ } := by
  have htokens : ∀ word ∈ words, Token word :=
    fun word hword => ((c.words_mem words h).2 word hword).1
  cases heq : hasEq words with
  | true =>
    have hdropped : dropped words = true := by rw [dropped, heq, Bool.true_or]
    rw [c.readTag_eq h heq (hkeeps.read hdropped), keptTagWords, keptDefault, if_pos hdropped,
      if_pos hdropped]
    rfl
  | false =>
    have hmem : '=' ∉ c.itemText (.words words) := by
      rw [c.eq_mem_words, heq]
      exact Bool.false_ne_true
    rw [FieldMeta.readTag_plain field hmem, c.itemWords_words htokens, keptTagWords, keptDefault]
    cases dropped words with
    | true => rfl
    | false =>
      rw [if_neg Bool.false_ne_true, if_neg Bool.false_ne_true, if_neg Bool.false_ne_true,
        FieldMeta.foldl_readExt_words htokens hkeeps.free, beforeDefault_default]

theorem readTag_name (field : FieldMeta) : FieldMeta.readTag field (c.itemText .name) =
    { field with columnName := some (if c.name.length ≤ 1 then [] else c.name) } := by
  rw [itemText, FieldMeta.readTag_assign field (eq_not_mem_key _ _ (by decide)),
    strip_key _ _ (by decide) (by decide),
    strip_blankText c.gap c.name_head c.name_last]
  rfl

theorem readTag_type (field : FieldMeta) : FieldMeta.readTag field (c.itemText .type) =
    { field with columnType := some (if c.type.length ≤ 1 then [] else c.type) } := by
  rw [itemText, FieldMeta.readTag_assign field (eq_not_mem_key _ _ (by decide)),
    strip_key _ _ (by decide) (by decide),
    strip_blankText c.gap c.type_head c.type_last]
  rfl

/-! ## All items -/

theorem keptExtra_token {words : List Str} (hwords : ∀ word ∈ words, Token word) :
    ∀ word ∈ keptExtra words, Token word := by
  intro word hword
  unfold keptExtra at hword
  split at hword
  · cases hword
  · exact keptWords_token hwords false word hword

variable {c}

theorem foldl_extra {items : List TagItem} (hitems : ∀ item ∈ items, item ∈ c.items)
    {before : List Str} (hbefore : ∀ word ∈ before, word ≠ []) {field : FieldMeta}
    (hextra : field.extra = Util.join ' ' before) :
    ((items.map c.itemText).foldl FieldMeta.readTag field).extra =
      Util.join ' ' (before ++ (items.filterMap TagItem.words?).flatMap keptExtra) := by
  induction items generalizing before field with
  | nil => simpa using hextra
  | cons item items ih =>
    have hrest : ∀ i ∈ items, i ∈ c.items := fun i hi => hitems i (by simp [hi])
    rw [List.map_cons, List.foldl_cons]
    cases item with
    | name =>
      rw [readTag_name, List.filterMap_cons_none rfl]
      refine ih hrest hbefore ?_
      exact hextra
    | type =>
      rw [readTag_type, List.filterMap_cons_none rfl]
      refine ih hrest hbefore ?_
      exact hextra
    | words words =>
      have hmem : .words words ∈ c.items := hitems _ (by simp)
      have hread := c.readTag_words_extra hmem hbefore hextra
      have hne : ∀ word ∈ before ++ keptExtra words, word ≠ [] :=
        List.forall_mem_append.mpr ⟨hbefore, fun word hword => (keptExtra_token
          (fun w hw => ((c.words_mem words hmem).2 w hw).1) word hword).1⟩
      rw [ih hrest hne hread, List.filterMap_cons_some (f := TagItem.words?) rfl, List.flatMap_cons,
        List.append_assoc]

/-- A flag of a field, and the words that set it. -/
structure FlagOf (flag : FieldMeta → Bool) (mark : TagWord → Bool) : Prop where
  apply : ∀ field t, flag (field.apply t) = (flag field || mark t)
  name : ∀ field v, flag { field with columnName := v } = flag field
  type : ∀ field v, flag { field with columnType := v } = flag field
  default_ : ∀ field v, flag { field with default_ := v } = flag field

theorem FlagOf.foldl {flag : FieldMeta → Bool} {mark : TagWord → Bool} (h : FlagOf flag mark)
    (words : List TagWord) (field : FieldMeta) :
    flag (words.foldl FieldMeta.apply field) = (flag field || words.any mark) := by
  induction words generalizing field with
  | nil => simp
  | cons t words ih => rw [List.foldl_cons, ih, h.apply, List.any_cons, Bool.or_assoc]

theorem FlagOf.foldl_items {flag : FieldMeta → Bool} {mark : TagWord → Bool}
    (h : FlagOf flag mark) {items : List TagItem} (hitems : ∀ item ∈ items, item ∈ c.items)
    (hkeeps : ∀ words ∈ c.wordItems, KeepsWords words) (field : FieldMeta) :
    flag ((items.map c.itemText).foldl FieldMeta.readTag field) =
      (flag field || ((items.filterMap TagItem.words?).flatMap keptTagWords).any mark) := by
  induction items generalizing field with
  | nil => simp
  | cons item items ih =>
    have hrest : ∀ i ∈ items, i ∈ c.items := fun i hi => hitems i (by simp [hi])
    rw [List.map_cons, List.foldl_cons, ih hrest]
    cases item with
    | name =>
      rw [readTag_name, h.name, List.filterMap_cons_none rfl]
    | type =>
      rw [readTag_type, h.type, List.filterMap_cons_none rfl]
    | words words =>
      have hmem : .words words ∈ c.items := hitems _ (by simp)
      have hword : words ∈ c.wordItems := List.mem_filterMap.mpr ⟨_, hmem, rfl⟩
      rw [c.readTag_words_kept hmem (hkeeps words hword), h.default_, h.foldl, Bool.or_assoc,
        List.filterMap_cons_some (f := TagItem.words?) rfl, List.flatMap_cons, List.any_append]

theorem foldl_default {items : List TagItem} (hitems : ∀ item ∈ items, item ∈ c.items)
    (hkeeps : ∀ words ∈ c.wordItems, KeepsWords words) (field : FieldMeta) :
    ((items.map c.itemText).foldl FieldMeta.readTag field).default_ =
      (((items.filterMap TagItem.words?).filterMap keptDefault).getLast?).getD field.default_ := by
  induction items generalizing field with
  | nil => rfl
  | cons item items ih =>
    have hrest : ∀ i ∈ items, i ∈ c.items := fun i hi => hitems i (by simp [hi])
    rw [List.map_cons, List.foldl_cons, ih hrest]
    cases item with
    | name =>
      rw [readTag_name, List.filterMap_cons_none rfl]
    | type =>
      rw [readTag_type, List.filterMap_cons_none rfl]
    | words words =>
      have hmem : .words words ∈ c.items := hitems _ (by simp)
      have hword : words ∈ c.wordItems := List.mem_filterMap.mpr ⟨_, hmem, rfl⟩
      rw [c.readTag_words_kept hmem (hkeeps words hword),
        List.filterMap_cons_some (f := TagItem.words?) rfl]
      cases hdefault : keptDefault words with
      | none => rw [List.filterMap_cons_none hdefault, Option.getD_none]
      | some value =>
        rw [List.filterMap_cons_some hdefault, List.getLast?_cons, Option.getD_some,
          Option.getD_some]

/-! ## The text as a whole -/

theorem lastItem_itemText {item : TagItem} (h : item ∈ c.items) :
    lastItem (c.itemText item) = c.itemText item := by
  have hback {s t : Str} (ht : t ≠ []) (hlast : ∀ d ∈ t.getLast?, isspace d = false) :
      lastItem (s ++ t) = s ++ t := by
    refine rdropWhile_self fun d hd => hlast d ?_
    rwa [List.getLast?_append_of_ne_nil s ht] at hd
  cases item with
  | name =>
    rw [itemText, List.append_cons, ← List.append_assoc]
    exact hback c.name_word.1 c.name_last
  | type =>
    rw [itemText, List.append_cons, ← List.append_assoc]
    exact hback c.type_ne_nil c.type_last
  | words words =>
    obtain ⟨hne, hwords⟩ := c.words_mem words h
    have htokens : ∀ word ∈ words, Token word := fun word hword => (hwords word hword).1
    refine hback ?_ (last_join htokens)
    rw [ne_eq, Util.join_eq_nil_iff fun word hword => (htokens word hword).1]
    exact hne

theorem comma_not_mem_itemText (htype : ',' ∉ c.type) {item : TagItem} (h : item ∈ c.items) :
    ',' ∉ c.itemText item := by
  have hblank (n : Nat) : ',' ∉ blankText n :=
    fun hmem => absurd (isspace_blankText hmem) (by decide)
  cases item with
  | name => simp [itemText, hblank, c.name_word.no_comma]
  | type => simp [itemText, hblank, htype]
  | words words =>
    have hjoin : ∀ d ∈ Util.join ' ' words, d ≠ ',' :=
      Util.forall_mem_join (by decide) fun word hword d hd heq =>
        ((c.words_mem words h).2 word hword).2 (heq ▸ hd)
    intro hmem
    rcases List.mem_append.mp hmem with hmem | hmem
    · exact hblank c.blanks hmem
    · exact hjoin _ hmem rfl

theorem seenItems_self {items : List Str} (h : ∀ item ∈ items, lastItem item = item) :
    seenItems items = items := by
  rcases List.eq_nil_or_concat items with rfl | ⟨before, item, rfl⟩
  · rfl
  · rw [List.concat_eq_append] at h ⊢
    rw [seenItems_concat, h item (by simp)]

end ColumnTag

/-! ## What a declaration is owed -/

structure Flags where
  isPk : Bool
  autoInc : Bool
  hasIndex : Bool
  notNull : Bool
  ignore : Bool
  deriving DecidableEq

def FieldMeta.flags (field : FieldMeta) : Flags :=
  ⟨field.isPk, field.autoInc, field.hasIndex, field.notNull, field.ignore⟩

/-- The flags that the words name; the key of a table is not null, and it is ignored if
the database counts it up. -/
def flagsOf (words : List TagWord) : Flags where
  isPk := words.any (· = .pk)
  autoInc := words.any (· = .autoIncrement)
  hasIndex := words.any fun word => word = .pk || word = .index || word = .unique
  notNull := words.any (· = .pk) || words.any (· = .notNull)
  ignore := (words.any (· = .pk) && words.any (· = .autoIncrement)) || words.any (· = .ignore)

/-- The field has the name, the type, the flags, the default and the other words of the
declaration. -/
structure ColumnTag.Kept (c : ColumnTag) (field : FieldMeta) : Prop where
  columnName : field.columnName = some c.name
  columnType : field.columnType = some c.type
  flags : field.flags = flagsOf c.meant
  default_ : field.default_ = (lastDefault c.meant).getD []
  extra : Util.toLowerCase field.extra = Util.join ' ' (freeWords c.meant)

/-- No part of the declaration is lost: the name and the type have two characters at
least, the type has no comma, no item loses a free word, and the words that are read
name all flags and the last default. -/
structure ColumnTag.LosesNothing (c : ColumnTag) : Prop where
  name : 2 ≤ c.name.length
  type : 2 ≤ c.type.length
  comma : ',' ∉ c.type
  words : ∀ words ∈ c.wordItems, ColumnTag.KeepsWords words
  flags : flagsOf (c.wordItems.flatMap ColumnTag.keptTagWords) = flagsOf c.meant
  default_ : (c.wordItems.filterMap ColumnTag.keptDefault).getLast?.getD [] =
    (lastDefault c.meant).getD []

namespace ColumnTag

variable {c : ColumnTag} (fieldName cppType : Str) (offset : Int)

def field (c : ColumnTag) (fieldName cppType : Str) (offset : Int) : FieldMeta :=
  FieldMeta.ofMetadata fieldName ⟨cppType, offset, c.text⟩

/-- The field before its last two flags are set. -/
def readField (c : ColumnTag) (fieldName cppType : Str) (offset : Int) : FieldMeta :=
  (c.items.map c.itemText).foldl FieldMeta.readTag
    (FieldMeta.ofMember fieldName ⟨cppType, offset, c.text⟩)

theorem field_eq (hcomma : ',' ∉ c.type) : c.field fieldName cppType offset =
    FieldMeta.lastFlags (c.readField fieldName cppType offset) := by
  have hfree : ∀ item ∈ c.items.map c.itemText, ',' ∉ item := by
    intro text htext
    obtain ⟨item, hitem, rfl⟩ := List.mem_map.mp htext
    exact comma_not_mem_itemText hcomma hitem
  have hlast : ∀ item ∈ c.items.map c.itemText, lastItem item = item := by
    intro text htext
    obtain ⟨item, hitem, rfl⟩ := List.mem_map.mp htext
    exact lastItem_itemText hitem
  rw [field, FieldMeta.ofMetadata_join fieldName _ hfree rfl, seenItems_self hlast, readField]

theorem readField_extra : (c.readField fieldName cppType offset).extra =
    Util.join ' ' (c.wordItems.flatMap keptExtra) :=
  foldl_extra (fun _ h => h) (List.forall_mem_nil _) rfl

/-- No item keeps more free words than it has. -/
theorem length_keptExtra (words : List Str) :
    (keptExtra words).length ≤ (freeWords (tagWordsOf words)).length ∧
      ((freeWords (tagWordsOf words)).length ≤ (keptExtra words).length → KeepsWords words) := by
  unfold keptExtra
  cases hdropped : dropped words with
  | true =>
    rw [if_pos rfl]
    refine ⟨Nat.zero_le _, fun h => ?_⟩
    have hnone : freeWords (tagWordsOf words) = [] :=
      List.eq_nil_of_length_eq_zero (Nat.le_zero.mp h)
    refine ⟨KeepsFree.of_none hnone, fun _ word hword => ?_⟩
    have hmem := mem_freeWords hword
    rw [hnone] at hmem
    cases hmem
  | false =>
    rw [if_neg Bool.false_ne_true]
    obtain ⟨hle, hkeeps⟩ := length_keptWords words false
    refine ⟨hle, fun h => ⟨hkeeps h, fun heq => ?_⟩⟩
    rw [hdropped] at heq
    cases heq

theorem tokens_of_mem {words : List Str} (h : words ∈ c.wordItems) :
    ∀ word ∈ words, Token word := by
  obtain ⟨item, hitem, heq⟩ := List.mem_filterMap.mp h
  cases item with
  | words list =>
    obtain rfl := Option.some.inj heq
    exact fun word hword => ((c.words_mem _ hitem).2 word hword).1
  | _ => cases heq

theorem toLowerCase_join (words : List Str) :
    Util.toLowerCase (Util.join ' ' words) = Util.join ' ' (words.map Util.toLowerCase) := by
  induction words with
  | nil => rfl
  | cons word words ih =>
    by_cases hnil : words = []
    · subst hnil
      rfl
    · rw [Util.join_cons word hnil, List.map_cons, Util.join_cons _ (by simpa using hnil), ← ih]
      simp [Util.toLowerCase, tolower, isupper]

theorem length_flatMap_le {f g : List Str → List Str} {items : List (List Str)}
    (hle : ∀ words ∈ items, (f words).length ≤ (g words).length) :
    (items.flatMap f).length ≤ (items.flatMap g).length ∧
      ((items.flatMap g).length ≤ (items.flatMap f).length →
        ∀ words ∈ items, (g words).length ≤ (f words).length) := by
  induction items with
  | nil => simp
  | cons first items ih =>
    obtain ⟨hsum, hall⟩ := ih fun words hwords => hle words (by simp [hwords])
    have hfirst := hle first (by simp)
    rw [List.flatMap_cons, List.flatMap_cons, List.length_append, List.length_append]
    refine ⟨by omega, fun h words hwords => ?_⟩
    rcases List.mem_cons.mp hwords with rfl | hwords
    · omega
    · exact hall (by omega) words hwords

theorem freeWords_meant (c : ColumnTag) : freeWords c.meant =
    c.wordItems.flatMap fun words => freeWords (tagWordsOf words) := by
  rw [meant, freeWords, List.filterMap_flatMap]
  rfl

theorem keptExtra_eq {words : List Str} (h : KeepsWords words) :
    keptExtra words = freeWords (tagWordsOf words) := by
  cases hdropped : dropped words with
  | true => rw [keptExtra, if_pos hdropped, freeWords_eq_nil (h.read hdropped)]
  | false =>
    rw [keptExtra, hdropped, if_neg Bool.false_ne_true]
    exact keptWords_eq h.free

/-- `extra` has all free words exactly if no item loses one. -/
theorem extra_iff : Util.toLowerCase (Util.join ' ' (c.wordItems.flatMap keptExtra)) =
    Util.join ' ' (freeWords c.meant) ↔ ∀ words ∈ c.wordItems, KeepsWords words := by
  constructor
  · intro heq
    rw [toLowerCase_join, freeWords_meant] at heq
    have hkept : ∀ word ∈ (c.wordItems.flatMap keptExtra).map Util.toLowerCase, Token word := by
      intro word hword
      obtain ⟨kept, hkept, rfl⟩ := List.mem_map.mp hword
      obtain ⟨words, hwords, hmem⟩ := List.mem_flatMap.mp hkept
      exact token_toLowerCase (keptExtra_token (tokens_of_mem hwords) kept hmem)
    have hfree : ∀ word ∈ c.wordItems.flatMap fun words => freeWords (tagWordsOf words),
        Token word := by
      intro word hword
      obtain ⟨words, hwords, hmem⟩ := List.mem_flatMap.mp hword
      exact freeWords_token (tokens_of_mem hwords) word hmem
    have hlen : (c.wordItems.flatMap fun words => freeWords (tagWordsOf words)).length =
        (c.wordItems.flatMap keptExtra).length := by
      rw [← split_words hfree, ← heq, split_words hkept, List.length_map]
    have hall := (length_flatMap_le fun words _ => (length_keptExtra words).1).2 (Nat.le_of_eq hlen)
    exact fun words hwords => (length_keptExtra words).2 (hall words hwords)
  · intro hkeeps
    have hsame : c.wordItems.flatMap keptExtra = freeWords c.meant := by
      rw [freeWords_meant]
      exact List.flatMap_congr fun words hwords => keptExtra_eq (hkeeps words hwords)
    rw [hsame, toLowerCase_join, freeWords_lower]

/-! ## Flags, names and the default -/

theorem flagOf_isPk : FlagOf FieldMeta.isPk fun t => t = .pk := by
  refine ⟨fun field t => ?_, fun _ _ => rfl, fun _ _ => rfl, fun _ _ => rfl⟩
  cases t <;> simp [FieldMeta.apply, FieldMeta.withIndex, FieldMeta.appendExtra]

theorem flagOf_autoInc : FlagOf FieldMeta.autoInc fun t => t = .autoIncrement := by
  refine ⟨fun field t => ?_, fun _ _ => rfl, fun _ _ => rfl, fun _ _ => rfl⟩
  cases t <;> simp [FieldMeta.apply, FieldMeta.withIndex, FieldMeta.appendExtra]

theorem flagOf_hasIndex :
    FlagOf FieldMeta.hasIndex fun t => t = .pk || t = .index || t = .unique := by
  refine ⟨fun field t => ?_, fun _ _ => rfl, fun _ _ => rfl, fun _ _ => rfl⟩
  cases t <;> simp [FieldMeta.apply, FieldMeta.withIndex, FieldMeta.appendExtra]

theorem flagOf_notNull : FlagOf FieldMeta.notNull fun t => t = .notNull := by
  refine ⟨fun field t => ?_, fun _ _ => rfl, fun _ _ => rfl, fun _ _ => rfl⟩
  cases t <;> simp [FieldMeta.apply, FieldMeta.withIndex, FieldMeta.appendExtra]

theorem flagOf_ignore : FlagOf FieldMeta.ignore fun t => t = .ignore := by
  refine ⟨fun field t => ?_, fun _ _ => rfl, fun _ _ => rfl, fun _ _ => rfl⟩
  cases t <;> simp [FieldMeta.apply, FieldMeta.withIndex, FieldMeta.appendExtra]

theorem readField_flag {flag : FieldMeta → Bool} {mark : TagWord → Bool} (h : FlagOf flag mark)
    (hkeeps : ∀ words ∈ c.wordItems, KeepsWords words)
    (hstart : flag (FieldMeta.ofMember fieldName ⟨cppType, offset, c.text⟩) = false) :
    flag (c.readField fieldName cppType offset) =
      (c.wordItems.flatMap keptTagWords).any mark := by
  rw [readField, h.foldl_items (fun _ h => h) hkeeps, hstart, Bool.false_or]
  rfl

theorem readField_flags (hkeeps : ∀ words ∈ c.wordItems, KeepsWords words) :
    (FieldMeta.lastFlags (c.readField fieldName cppType offset)).flags =
      flagsOf (c.wordItems.flatMap keptTagWords) := by
  have hpk := readField_flag fieldName cppType offset flagOf_isPk hkeeps rfl
  have hauto := readField_flag fieldName cppType offset flagOf_autoInc hkeeps rfl
  have hindex := readField_flag fieldName cppType offset flagOf_hasIndex hkeeps rfl
  have hnull := readField_flag fieldName cppType offset flagOf_notNull hkeeps rfl
  have hignore := readField_flag fieldName cppType offset flagOf_ignore hkeeps rfl
  simp only [FieldMeta.flags, FieldMeta.lastFlags, flagsOf, hpk, hauto, hindex, hnull, hignore]

theorem foldl_apply_names (words : List TagWord) (field : FieldMeta) :
    (words.foldl FieldMeta.apply field).columnName = field.columnName ∧
      (words.foldl FieldMeta.apply field).columnType = field.columnType := by
  induction words generalizing field with
  | nil => exact ⟨rfl, rfl⟩
  | cons t words ih =>
    obtain ⟨hname, htype⟩ := ih (field.apply t)
    rw [List.foldl_cons, hname, htype]
    cases t <;> exact ⟨rfl, rfl⟩

theorem itemValue_words {words : List Str} (h : .words words ∈ c.items)
    (hkeeps : KeepsWords words) : itemValue "name".toList (c.itemText (.words words)) = none ∧
      itemValue "type".toList (c.itemText (.words words)) = none := by
  obtain ⟨hname, htype, -⟩ := FieldMeta.readTag_names {} (c.itemText (.words words))
  obtain ⟨hname', htype'⟩ := foldl_apply_names (keptTagWords words) {}
  rw [c.readTag_words_kept h hkeeps] at hname htype
  rw [Option.or_none] at hname htype
  exact ⟨hname.symm.trans hname', htype.symm.trans htype'⟩

/-- The last value of a key is that of the one item which gives it. -/
theorem lastValue_itemTexts {key v : Str} {given : TagItem} (hgiven : given ∈ c.items)
    (hvalue : itemValue key (c.itemText given) = some v)
    (hother : ∀ item ∈ c.items, item ≠ given → itemValue key (c.itemText item) = none) :
    FieldMeta.lastValue key (c.items.map c.itemText) = some v := by
  refine FieldMeta.lastValue_eq (fun text htext => ?_) ⟨_, List.mem_map.mpr ⟨_, hgiven, rfl⟩,
    hvalue⟩
  obtain ⟨item, hitem, rfl⟩ := List.mem_map.mp htext
  rcases eq_or_ne item given with rfl | hne
  · exact .inr hvalue
  · exact .inl (hother item hitem hne)

theorem readField_columnName (hkeeps : ∀ words ∈ c.wordItems, KeepsWords words) :
    (c.readField fieldName cppType offset).columnName =
      some (if c.name.length ≤ 1 then [] else c.name) := by
  refine (FieldMeta.foldl_readTag_names _ _).1.trans (Option.or_none.trans ?_)
  refine lastValue_itemTexts c.name_mem ((c.itemValue_name _).trans (if_pos rfl)) ?_
  intro item hitem hne
  cases item with
  | name => exact absurd rfl hne
  | type => exact (c.itemValue_type _).trans (if_neg (by decide))
  | words words =>
    exact (itemValue_words hitem (hkeeps words (List.mem_filterMap.mpr ⟨_, hitem, rfl⟩))).1

theorem readField_columnType (hkeeps : ∀ words ∈ c.wordItems, KeepsWords words) :
    (c.readField fieldName cppType offset).columnType =
      some (if c.type.length ≤ 1 then [] else c.type) := by
  refine (FieldMeta.foldl_readTag_names _ _).2.1.trans (Option.or_none.trans ?_)
  refine lastValue_itemTexts c.type_mem ((c.itemValue_type _).trans (if_pos rfl)) ?_
  intro item hitem hne
  cases item with
  | name => exact (c.itemValue_name _).trans (if_neg (by decide))
  | type => exact absurd rfl hne
  | words words =>
    exact (itemValue_words hitem (hkeeps words (List.mem_filterMap.mpr ⟨_, hitem, rfl⟩))).2

theorem readField_default (hkeeps : ∀ words ∈ c.wordItems, KeepsWords words) :
    (c.readField fieldName cppType offset).default_ =
      (c.wordItems.filterMap keptDefault).getLast?.getD [] :=
  foldl_default (fun _ h => h) hkeeps _

/-- A text is read whole if it has two characters at least. -/
theorem some_text_eq {s : Str} (hs : s ≠ []) :
    some (if s.length ≤ 1 then [] else s) = some s ↔ 2 ≤ s.length := by
  by_cases hlen : s.length ≤ 1
  · rw [if_pos hlen]
    exact ⟨fun h => absurd (Option.some.inj h).symm hs, fun h => by omega⟩
  · rw [if_neg hlen]
    exact ⟨fun _ => by omega, fun _ => rfl⟩

theorem Kept.losesNothing (h : c.Kept (c.field fieldName cppType offset)) : c.LosesNothing := by
  have hcomma : ',' ∉ c.type := FieldMeta.comma_not_mem_columnType h.columnType
  have hfield := field_eq fieldName cppType offset hcomma
  have hextra := h.extra
  rw [hfield] at hextra
  have hkeeps : ∀ words ∈ c.wordItems, KeepsWords words := by
    rw [← extra_iff, ← readField_extra fieldName cppType offset]
    exact hextra
  refine ⟨?_, ?_, hcomma, hkeeps, ?_, ?_⟩
  · rw [← some_text_eq c.name_word.1, ← readField_columnName fieldName cppType offset hkeeps,
      ← h.columnName, hfield]
    rfl
  · rw [← some_text_eq c.type_ne_nil, ← readField_columnType fieldName cppType offset hkeeps,
      ← h.columnType, hfield]
    rfl
  · rw [← readField_flags fieldName cppType offset hkeeps, ← h.flags, hfield]
  · rw [← readField_default fieldName cppType offset hkeeps, ← h.default_, hfield]
    rfl

theorem LosesNothing.kept (h : c.LosesNothing) : c.Kept (c.field fieldName cppType offset) := by
  have hfield := field_eq fieldName cppType offset h.comma
  rw [hfield]
  refine ⟨?_, ?_, ?_, ?_, ?_⟩
  · exact (readField_columnName fieldName cppType offset h.words).trans
      ((some_text_eq c.name_word.1).mpr h.name)
  · exact (readField_columnType fieldName cppType offset h.words).trans
      ((some_text_eq c.type_ne_nil).mpr h.type)
  · exact (readField_flags fieldName cppType offset h.words).trans h.flags
  · exact (readField_default fieldName cppType offset h.words).trans h.default_
  · have hextra := extra_iff.mpr h.words
    rwa [← readField_extra fieldName cppType offset] at hextra

end ColumnTag

/-- The constructor keeps a declaration exactly if none of its parts is one that the
parser loses. -/
theorem ColumnTag.kept_iff (c : ColumnTag) (fieldName cppType : Str) (offset : Int) :
    c.Kept (c.field fieldName cppType offset) ↔ c.LosesNothing :=
  ⟨Kept.losesNothing fieldName cppType offset, LosesNothing.kept fieldName cppType offset⟩

/-- `name = updated, type = timestamp, default NOW() on update NOW()`. -/
def ColumnTag.updated : ColumnTag where
  name := "updated".toList
  type := "timestamp".toList
  items := [.name, .type,
    .words ["default".toList, "NOW()".toList, "on".toList, "update".toList, "NOW()".toList]]
  blanks := 1
  gap := 1
  name_word := by decide
  type_ne_nil := by decide
  type_head := (by decide : Word "timestamp".toList).token.head
  type_last := (by decide : Word "timestamp".toList).token.last
  name_mem := by simp
  type_mem := by simp
  words_mem words h := by
    have hwords : words =
        ["default".toList, "NOW()".toList, "on".toList, "update".toList, "NOW()".toList] := by
      simpa using h
    have hall : ∀ word ∈ words, Word word := by
      rw [hwords]
      decide
    exact ⟨by rw [hwords]; decide, fun word hword =>
      ⟨(hall word hword).token, (hall word hword).no_comma⟩⟩

/-- The words behind a default are lost. -/
theorem ColumnTag.updated_extra :
    (ColumnTag.updated.field "updated".toList "Timestamp".toList 0).extra = [] ∧
      freeWords ColumnTag.updated.meant = ["on".toList, "update".toList, "now()".toList] ∧
      ¬ ColumnTag.updated.Kept (ColumnTag.updated.field "updated".toList "Timestamp".toList 0) := by
  have hextra : (ColumnTag.updated.field "updated".toList "Timestamp".toList 0).extra = [] := by
    decide
  have hfree : freeWords ColumnTag.updated.meant =
      ["on".toList, "update".toList, "now()".toList] := by
    decide
  refine ⟨hextra, hfree, fun h => ?_⟩
  have hkept := h.extra
  rw [hextra, hfree] at hkept
  exact absurd hkept (by decide)

end TinyOrm

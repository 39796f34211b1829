import TinyOrm.DataType
set_option autoImplicit false

/-!
The tags of a column as the constructor of `FieldMeta` reads them (datatype.h).
-/

namespace TinyOrm

/-- What the `column` macro registers. -/
structure Metadata where
  type : Str
  offset : Int
  tag : Str
  deriving DecidableEq, Repr

namespace FieldMeta

/-- `hasIndex`, the type of the index and one more column of it. -/
def withIndex (field : FieldMeta) (type : IndexType) : FieldMeta :=
  { field with
    hasIndex := true
    index := { field.index with
      type := type, columns := field.index.columns ++ [field.getColumnName] } }

def appendExtra (field : FieldMeta) (ext : Str) : FieldMeta :=
  { field with
    extra := (if field.extra.length > 0 then field.extra ++ [' '] else field.extra) ++ ext }

/-- The variables of the loop over the words of a part. -/
structure ExtState where
  field : FieldMeta
  checkNotNull : Bool := false
  checkDefault : Bool := false

def readExt (s : ExtState) (word : Str) : ExtState :=
  if s.checkDefault then { s with field := { s.field with default_ := word } }
  else
    let ext := Util.toLowerCase word
    if s.checkNotNull && ext = "null".toList then
      { s with field := { s.field with notNull := true }, checkNotNull := false }
    else if ext = "pk".toList ∨ ext = "primary_key".toList ∨ ext = "primary key".toList then
      { s with field := { s.field.withIndex .INDEX_TYPE_PRI with isPk := true } }
    else if ext = "auto_increment".toList ∨ ext = "auto increment".toList then
      { s with field := { s.field with autoInc := true } }
    else if ext = "ignore".toList then { s with field := { s.field with ignore := true } }
    else if ext = "index".toList then { s with field := s.field.withIndex .INDEX_TYPE_MUL }
    else if ext = "unique".toList then { s with field := s.field.withIndex .INDEX_TYPE_UNI }
    else if ext = "not".toList then { s with checkNotNull := true }
    else if ext = "default".toList then { s with checkDefault := true }
    else { s with field := s.field.appendExtra ext }

/-- The body of the loop over the parts of the tag. -/
def readTag (field : FieldMeta) (part : Str) : FieldMeta :=
  match part.findIdx? (· = '=') with
  | some eq_pos =>
    let k := Util.toLowerCase (Util.strip (part.take eq_pos))
    if k = "name".toList then
      { field with columnName := some (Util.strip (part.drop (eq_pos + 1))) }
    else if k = "type".toList then
      { field with columnType := some (Util.strip (part.drop (eq_pos + 1))) }
    else field
  | none =>
    ((Util.split (Util.strip part) [' ']).foldl readExt { field := field }).field

def readTags (field : FieldMeta) (tag : Str) : FieldMeta :=
  (Util.split (Util.strip tag) [',']).foldl readTag field

/-- The initializers of the constructor. -/
def ofMember (fieldName : Str) (metadata : Metadata) : FieldMeta where
  fieldName := fieldName
  cppType := metadata.type
  offset := metadata.offset

/-- `FieldMeta(const std::string&, const Metadata&)`. -/
def ofMetadata (fieldName : Str) (metadata : Metadata) : FieldMeta :=
  let field := readTags (ofMember fieldName metadata) metadata.tag
  { field with
    ignore := (field.isPk && field.autoInc) || field.ignore
    notNull := field.isPk || field.notNull }

end FieldMeta

/-! ## Words -/

theorem tolower_of_not_upper {c : Char} (h : isupper c = false) : tolower c = c := by
  simp [tolower, h]

/-- A lowered letter is a small one. -/
theorem tolower_of_upper {c : Char} (h : isupper c = true) :
    97 ≤ (tolower c).toNat ∧ (tolower c).toNat ≤ 122 := by
  have hrange := h
  simp only [isupper, Bool.and_eq_true, decide_eq_true_eq, Char.le_def] at hrange
  have hlo : 65 ≤ c.toNat := hrange.1
  have hhi : c.toNat ≤ 90 := hrange.2
  rw [tolower, if_pos h, toNat_ofNat (by omega)]
  omega

theorem isupper_of_small {c : Char} (h : 97 ≤ c.toNat) : isupper c = false := by
  have hnot : ¬ c ≤ 'Z' := by
    rw [Char.le_def]
    intro hle
    have hhi : c.toNat ≤ 90 := hle
    omega
  simp [isupper, hnot]

theorem tolower_idem (c : Char) : tolower (tolower c) = tolower c := by
  cases h : isupper c with
  | false => rw [tolower_of_not_upper h, tolower_of_not_upper h]
  | true => exact tolower_of_not_upper (isupper_of_small (tolower_of_upper h).1)

/-- A character that may stand in a word: no blank, comma or equals sign. -/
def wordChar (c : Char) : Bool := !isspace c && c ≠ ',' && c ≠ '='

theorem wordChar_of_letter {c : Char} (h : 65 ≤ c.toNat) : wordChar c = true := by
  have hcomma : c ≠ ',' := by rintro rfl; exact absurd h (by decide)
  have heq : c ≠ '=' := by rintro rfl; exact absurd h (by decide)
  have hspace : c ≠ ' ' := by rintro rfl; exact absurd h (by decide)
  have hcr : ¬ c ≤ '\r' := by
    rw [Char.le_def]
    intro hle
    have hhi : c.toNat ≤ 13 := hle
    omega
  simp [wordChar, isspace, hcomma, heq, hspace, hcr]

theorem wordChar_tolower (c : Char) : wordChar (tolower c) = wordChar c := by
  cases h : isupper c with
  | false => rw [tolower_of_not_upper h]
  | true =>
    have hlower := (tolower_of_upper h).1
    have hupper : 65 ≤ c.toNat := by
      simp only [isupper, Bool.and_eq_true, decide_eq_true_eq, Char.le_def] at h
      exact h.1
    rw [wordChar_of_letter hupper, wordChar_of_letter (by omega)]

def Word (s : Str) : Prop := s ≠ [] ∧ ∀ c ∈ s, wordChar c = true

instance (s : Str) : Decidable (Word s) :=
  decidable_of_iff (s ≠ [] ∧ s.all wordChar = true) (by simp [Word])

theorem word_toLowerCase {s : Str} : Word (Util.toLowerCase s) ↔ Word s := by
  simp [Word, Util.toLowerCase, wordChar_tolower]

theorem toLowerCase_idem (s : Str) : Util.toLowerCase (Util.toLowerCase s) =
    Util.toLowerCase s := by
  simp [Util.toLowerCase, tolower_idem]

/-- The words with a meaning of their own. -/
def tagWords : List Str :=
  ["pk".toList, "primary_key".toList, "auto_increment".toList, "ignore".toList, "index".toList,
    "unique".toList, "not".toList, "default".toList]

/-- A word that is kept as part of `extra`. -/
structure ExtraWord (w : Str) : Prop where
  word : Word w
  lower : Util.toLowerCase w = w
  other : w ∉ tagWords

theorem extraWord_iff (w : Str) :
    ExtraWord w ↔ Word w ∧ Util.toLowerCase w = w ∧ tagWords.contains w = false := by
  rw [List.contains_eq_mem, decide_eq_false_iff_not]
  exact ⟨fun h => ⟨h.word, h.lower, h.other⟩, fun h => ⟨h.1, h.2.1, h.2.2⟩⟩

instance (w : Str) : Decidable (ExtraWord w) := decidable_of_iff _ (extraWord_iff w).symm

theorem Word.ne_of_space {w v : Str} (h : Word w) (hv : ' ' ∈ v) : w ≠ v := by
  rintro rfl
  exact absurd (h.2 _ hv) (by decide)

/-- A run of characters that are no space. -/
def Token (s : Str) : Prop := s ≠ [] ∧ ∀ c ∈ s, isspace c = false

theorem Word.token {w : Str} (h : Word w) : Token w := by
  refine ⟨h.1, fun c hc => ?_⟩
  have hchar := h.2 c hc
  simp only [wordChar, Bool.and_eq_true, Bool.not_eq_true'] at hchar
  exact hchar.1.1

theorem Word.no_eq {w : Str} (h : Word w) : ∀ c ∈ w, c ≠ '=' := by
  intro c hc
  have hchar := h.2 c hc
  simp only [wordChar, Bool.and_eq_true, decide_eq_true_eq] at hchar
  exact hchar.2

theorem Word.no_comma {w : Str} (h : Word w) : ',' ∉ w :=
  fun hc => absurd (h.2 _ hc) (by decide)

theorem Token.head {w : Str} (h : Token w) : ∀ c ∈ w.head?, isspace c = false :=
  fun c hc => h.2 c (List.mem_of_mem_head? hc)

theorem Token.last {w : Str} (h : Token w) : ∀ c ∈ w.getLast?, isspace c = false :=
  fun c hc => h.2 c (List.mem_of_mem_getLast? hc)

theorem head_join {ws : List Str} (hws : ∀ w ∈ ws, Token w) :
    ∀ c ∈ (Util.join ' ' ws).head?, isspace c = false := by
  cases ws with
  | nil => simp [Util.join]
  | cons w ws =>
    have hw : Token w := hws w (by simp)
    by_cases hnil : ws = []
    · subst hnil
      exact hw.head
    · rw [Util.join_cons w hnil, List.head?_append_of_ne_nil _ hw.1]
      exact hw.head

theorem last_join {ws : List Str} (hws : ∀ w ∈ ws, Token w) :
    ∀ c ∈ (Util.join ' ' ws).getLast?, isspace c = false := by
  induction ws with
  | nil => simp [Util.join]
  | cons w ws ih =>
    by_cases hnil : ws = []
    · subst hnil
      exact (hws w (by simp)).last
    · have hrest : ∀ v ∈ ws, Token v := fun v hv => hws v (by simp [hv])
      have hne : Util.join ' ' ws ≠ [] := fun heq =>
        hnil ((Util.join_eq_nil_iff fun v hv => (hrest v hv).1).mp heq)
      rw [Util.join_cons w hnil, List.getLast?_append_of_ne_nil _ (by simp),
        List.getLast?_cons_of_ne_nil hne]
      exact ih hrest

theorem strip_join {ws : List Str} (hws : ∀ w ∈ ws, Token w)
    (hlen : 2 ≤ (Util.join ' ' ws).length) :
    Util.strip (' ' :: Util.join ' ' ws) = Util.join ' ' ws :=
  Util.strip_blank hlen (head_join hws) (last_join hws)

theorem split_words {ws : List Str} (hws : ∀ w ∈ ws, Token w) :
    Util.split (Util.join ' ' ws) [' '] = ws := by
  refine Util.split_join (by simp) ws fun w hw => ⟨(hws w hw).1, fun c hc hmem => ?_⟩
  rw [List.mem_singleton.mp hmem] at hc
  exact absurd ((hws w hw).2 _ hc) (by decide)

/-- Words that the parser keeps, with single blanks between them. -/
def ExtraWords (s : Str) : Prop := ∃ ws, (∀ w ∈ ws, ExtraWord w) ∧ s = Util.join ' ' ws

theorem extraWords_iff (s : Str) :
    ExtraWords s ↔ (∀ w ∈ Util.split s [' '], ExtraWord w) ∧ s =
      Util.join ' ' (Util.split s [' ']) := by
  constructor
  · rintro ⟨ws, hws, rfl⟩
    rw [split_words fun w hw => (hws w hw).word.token]
    exact ⟨hws, rfl⟩
  · exact fun h => ⟨_, h⟩

instance (s : Str) : Decidable (ExtraWords s) := decidable_of_iff _ (extraWords_iff s).symm

/-! ## What the parser leaves in a field -/

namespace FieldMeta

/-- Whatever the tag: types without a comma, one word of a default, and an `extra`
of words without a meaning of their own. -/
structure Parsed (field : FieldMeta) : Prop where
  cppType : ',' ∉ field.cppType
  type : ∀ t, field.columnType = some t → ',' ∉ t
  default_ : field.default_ = [] ∨ Word field.default_
  extra : ExtraWords field.extra

theorem Parsed.of_eq {field field' : FieldMeta} (h : Parsed field)
    (hcpp : field'.cppType = field.cppType) (htype : field'.columnType = field.columnType)
    (hdefault : field'.default_ = field.default_)
    (hextra : field'.extra = field.extra) : Parsed field' := by
  refine ⟨?_, ?_, ?_, ?_⟩
  · rw [hcpp]
    exact h.cppType
  · rw [htype]
    exact h.type
  · rw [hdefault]
    exact h.default_
  · rw [hextra]
    exact h.extra

theorem appendExtra_join {field : FieldMeta} {ws : List Str} (hne : ∀ w ∈ ws, w ≠ [])
    (hextra : field.extra = Util.join ' ' ws) (ext : Str) :
    (field.appendExtra ext).extra = Util.join ' ' (ws ++ [ext]) := by
  by_cases hnil : ws = []
  · subst hnil
    have hempty : field.extra = [] := hextra
    simp [appendExtra, hempty, Util.join]
  · have hpos : 0 < field.extra.length := by
      rw [hextra]
      exact List.length_pos_of_ne_nil fun heq => hnil ((Util.join_eq_nil_iff hne).mp heq)
    rw [Util.join_append hnil (by simp), ← hextra]
    simp [appendExtra, hpos, Util.join]

theorem readExt_parsed {s : ExtState} (h : Parsed s.field) {word : Str} (hword : Word word) :
    Parsed (readExt s word).field := by
  unfold readExt
  split
  · exact ⟨h.cppType, h.type, .inr hword, h.extra⟩
  · dsimp only
    split
    · exact h.of_eq rfl rfl rfl rfl
    split
    · exact h.of_eq rfl rfl rfl rfl
    split
    · exact h.of_eq rfl rfl rfl rfl
    split
    · exact h.of_eq rfl rfl rfl rfl
    split
    · exact h.of_eq rfl rfl rfl rfl
    split
    · exact h.of_eq rfl rfl rfl rfl
    split
    · exact h.of_eq rfl rfl rfl rfl
    split
    · exact h.of_eq rfl rfl rfl rfl
    · rename_i hpk hauto hignore hindex hunique hnot hdefault
      obtain ⟨ws, hws, hextra⟩ := h.extra
      have hother : ExtraWord (Util.toLowerCase word) := by
        refine ⟨word_toLowerCase.mpr hword, toLowerCase_idem word, ?_⟩
        simp only [not_or] at hpk hauto
        simp only [tagWords, List.mem_cons, List.not_mem_nil, or_false, not_or]
        exact ⟨hpk.1, hpk.2.1, hauto.1, hignore, hindex, hunique, hnot, hdefault⟩
      refine ⟨h.cppType, h.type, h.default_, ws ++ [Util.toLowerCase word], ?_,
        appendExtra_join (fun w hw => (hws w hw).word.1) hextra _⟩
      intro w hw
      rcases List.mem_append.mp hw with hw | hw
      · exact hws w hw
      · rwa [List.mem_singleton.mp hw]

theorem foldl_readExt_parsed {s : ExtState} (h : Parsed s.field) {words : List Str}
    (hwords : ∀ w ∈ words, Word w) : Parsed (words.foldl readExt s).field := by
  induction words generalizing s with
  | nil => exact h
  | cons w words ih =>
    exact ih (readExt_parsed h (hwords w (by simp))) fun v hv => hwords v (by simp [hv])

/-- Blanks are the only space in the text. -/
def Blanks (s : Str) : Prop := ∀ c ∈ s, isspace c = true → c = ' '

theorem readTag_parsed {field : FieldMeta} (h : Parsed field) {part : Str} (hcomma : ',' ∉ part)
    (hblanks : Blanks part) : Parsed (readTag field part) := by
  unfold readTag
  split
  · rename_i eq_pos hfind
    dsimp only
    split
    · exact h.of_eq rfl rfl rfl rfl
    · split
      · refine ⟨h.cppType, fun t ht => ?_, h.default_, h.extra⟩
        rw [← Option.some.inj ht]
        exact fun hmem => hcomma (List.mem_of_mem_drop (Util.mem_strip hmem))
      · exact h
  · rename_i hfind
    apply foldl_readExt_parsed h
    intro w hw
    obtain ⟨hne, hfree, hmem⟩ := Util.mem_split hw
    refine ⟨hne, fun c hc => ?_⟩
    have hpart : c ∈ part := Util.mem_strip (hmem c hc)
    have heq : c ≠ '=' := by
      rw [List.findIdx?_eq_none_iff] at hfind
      simpa using hfind c hpart
    have hspace : isspace c = false := by
      cases hs : isspace c with
      | false => rfl
      | true => exact absurd (List.mem_singleton.mpr (hblanks c hpart hs)) (hfree c hc)
    have hne' : c ≠ ',' := by rintro rfl; exact hcomma hpart
    simp [wordChar, hspace, heq, hne']

theorem foldl_readTag_parsed {field : FieldMeta} (h : Parsed field) {parts : List Str}
    (hparts : ∀ part ∈ parts, ',' ∉ part ∧ Blanks part) : Parsed (parts.foldl readTag field) := by
  induction parts generalizing field with
  | nil => exact h
  | cons part parts ih =>
    have hpart := hparts part (by simp)
    exact ih (readTag_parsed h hpart.1 hpart.2) fun p hp => hparts p (by simp [hp])

theorem ofMetadata_parsed (fieldName : Str) {metadata : Metadata} (hcpp : ',' ∉ metadata.type)
    (hblanks : Blanks metadata.tag) : Parsed (ofMetadata fieldName metadata) := by
  have hstart : Parsed (ofMember fieldName metadata) :=
    ⟨hcpp, by simp [ofMember], .inl rfl, [], by simp, rfl⟩
  have hread : Parsed (readTags (ofMember fieldName metadata) metadata.tag) := by
    apply foldl_readTag_parsed hstart
    intro part hpart
    obtain ⟨-, hfree, hmem⟩ := Util.mem_split hpart
    exact ⟨fun hcomma => hfree _ hcomma (by simp),
      fun c hc => hblanks c (Util.mem_strip (hmem c hc))⟩
  exact hread.of_eq rfl rfl rfl rfl

/-! ## Parts of a tag -/

theorem readTag_name (field : FieldMeta) (name : Str) :
    readTag field ("name = ".toList ++ name) =
      { field with columnName := some (Util.strip (' ' :: name)) } := by
  rfl

theorem readTag_type (field : FieldMeta) (type : Str) :
    readTag field (" type = ".toList ++ type) =
      { field with columnType := some (Util.strip (' ' :: type)) } := by
  rfl

theorem readTag_words (field : FieldMeta) {ws : List Str} (hws : ∀ w ∈ ws, Word w)
    (hlen : 2 ≤ (Util.join ' ' ws).length) :
    readTag field (' ' :: Util.join ' ' ws) = (ws.foldl readExt { field := field }).field := by
  have hfind : (' ' :: Util.join ' ' ws).findIdx? (· = '=') = none := by
    rw [List.findIdx?_eq_none_iff]
    have hne : ∀ c ∈ Util.join ' ' ws, c ≠ '=' :=
      Util.forall_mem_join (by decide) fun w hw => (hws w hw).no_eq
    intro c hc
    rcases List.mem_cons.mp hc with rfl | hc
    · rfl
    · simpa using hne c hc
  have htokens : ∀ w ∈ ws, Token w := fun w hw => (hws w hw).token
  rw [readTag, hfind]
  dsimp only
  rw [strip_join htokens hlen, split_words htokens]

/-- A single character is stripped with the blank before it. -/
theorem readTag_char (field : FieldMeta) {c : Char} (hc : c ≠ '=') : readTag field [' ', c] =
    field := by
  have hfind : [' ', c].findIdx? (· = '=') = none := by
    rw [List.findIdx?_eq_none_iff]
    simp [hc]
  rw [readTag, hfind]
  rfl

theorem readExt_extra {field : FieldMeta} {w : Str} (hw : ExtraWord w) :
    readExt { field := field } w = { field := field.appendExtra w } := by
  have hother := hw.other
  simp only [tagWords, List.mem_cons, List.not_mem_nil, or_false, not_or] at hother
  obtain ⟨hpk, hkey, hauto, hignore, hindex, hunique, hnot, hdefault⟩ := hother
  have hkey' : w ≠ "primary key".toList := hw.word.ne_of_space (by decide)
  have hauto' : w ≠ "auto increment".toList := hw.word.ne_of_space (by decide)
  simp only [readExt, hw.lower, hpk, hkey, hkey', hauto, hauto', hignore, hindex, hunique, hnot,
    hdefault, Bool.false_eq_true, Bool.false_and, or_self, if_false]

theorem foldl_readExt_extra {field : FieldMeta} {ws : List Str} (hws : ∀ w ∈ ws, ExtraWord w)
    {before : List Str} (hbefore : ∀ w ∈ before, ExtraWord w)
    (hextra : field.extra = Util.join ' ' before) :
    (ws.foldl readExt { field := field }).field =
      { field with extra := Util.join ' ' (before ++ ws) } := by
  induction ws generalizing field before with
  | nil => rw [List.append_nil, ← hextra, List.foldl_nil]
  | cons w ws ih =>
    have hw : ExtraWord w := hws w (by simp)
    have hnext := appendExtra_join (fun v hv => (hbefore v hv).word.1) hextra w
    have hall : ∀ v ∈ before ++ [w], ExtraWord v := by
      intro v hv
      rcases List.mem_append.mp hv with hv | hv
      · exact hbefore v hv
      · rwa [List.mem_singleton.mp hv]
    rw [List.foldl_cons, readExt_extra hw, ih (fun v hv => hws v (by simp [hv])) hall hnext,
      List.append_assoc]
    rfl

theorem readTag_extra {field : FieldMeta} (hfield : field.extra = []) {ws : List Str}
    (hws : ∀ w ∈ ws, ExtraWord w) (hlen : 2 ≤ (Util.join ' ' ws).length) :
    readTag field (' ' :: Util.join ' ' ws) = { field with extra := Util.join ' ' ws } := by
  rw [readTag_words field (fun w hw => (hws w hw).word) hlen]
  exact foldl_readExt_extra hws (List.forall_mem_nil _) hfield

theorem readTag_pk (field : FieldMeta) : readTag field " pk".toList =
    { field.withIndex .INDEX_TYPE_PRI with isPk := true } := by
  rfl

theorem readTag_pk_auto (field : FieldMeta) : readTag field " pk auto_increment".toList =
    { field.withIndex .INDEX_TYPE_PRI with isPk := true, autoInc := true } := by
  rfl

theorem readTag_notNull (field : FieldMeta) : readTag field " not null".toList =
    { field with notNull := true } := by
  rfl

theorem readTag_default (field : FieldMeta) {word : Str} (hword : Word word) :
    readTag field (" default ".toList ++ word) = { field with default_ := word } := by
  have hdefault : Word "default".toList := by decide
  have hws : ∀ w ∈ ["default".toList, word], Word w :=
    List.forall_mem_cons.mpr ⟨hdefault, List.forall_mem_singleton.mpr hword⟩
  have hread := readTag_words field hws (by simp [Util.join])
  exact hread

end FieldMeta

end TinyOrm

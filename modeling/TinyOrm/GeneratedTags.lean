import TinyOrm.ModelGen
import TinyOrm.Ddl
set_option autoImplicit false

/-!
When a generated model describes the table that it was generated from.
-/

namespace TinyOrm

/-! ## Stringification -/

theorem mem_spaces {c : Char} : c ∈ spaces ↔ isspace c = true := by
  constructor
  · intro h
    simp only [spaces, List.mem_cons, List.not_mem_nil, or_false] at h
    rcases h with rfl | rfl | rfl | rfl | rfl | rfl <;> decide
  · intro h
    simp only [isspace, Bool.or_eq_true, Bool.and_eq_true, decide_eq_true_eq, Char.le_def] at h
    rcases h with rfl | ⟨hlo, hhi⟩
    · simp [spaces]
    · have hlo' : 9 ≤ c.toNat := hlo
      have hhi' : c.toNat ≤ 13 := hhi
      have hcases : c.toNat = 9 ∨ c.toNat = 10 ∨ c.toNat = 11 ∨ c.toNat = 12 ∨
          c.toNat = 13 := by omega
      rw [← Char.ofNat_toNat c]
      rcases hcases with h | h | h | h | h <;> rw [h] <;> decide

theorem token_iff_sepFree {w : Str} : Token w ↔ w ≠ [] ∧ Util.SepFree spaces w := by
  simp [Token, Util.SepFree, mem_spaces]

/-- Space is printed as one blank already. -/
def Tidy (s : Str) : Prop := stringify s = s

instance (s : Str) : Decidable (Tidy s) := inferInstanceAs (Decidable (_ = _))

theorem tidy_iff {s : Str} : Tidy s ↔ ∃ ws, (∀ w ∈ ws, Token w) ∧ s = Util.join ' ' ws := by
  constructor
  · intro h
    refine ⟨Util.split s spaces, fun w hw => ?_, h.symm⟩
    obtain ⟨hne, hfree, -⟩ := Util.mem_split hw
    exact token_iff_sepFree.mpr ⟨hne, hfree⟩
  · rintro ⟨ws, hws, rfl⟩
    have hblank : ' ' ∈ spaces := by decide
    have hsplit := Util.split_join hblank ws fun w hw => token_iff_sepFree.mp (hws w hw)
    rw [Tidy, stringify, hsplit]

theorem blanks_stringify (s : Str) : FieldMeta.Blanks (stringify s) := by
  refine Util.forall_mem_join (fun _ => rfl) fun part hpart c hc hspace => ?_
  exact absurd (mem_spaces.mpr hspace) ((Util.mem_split hpart).2.1 c hc)

theorem no_comma_stringify {s : Str} (h : ',' ∉ s) : ',' ∉ stringify s := by
  intro hmem
  have hall : ∀ c ∈ stringify s, c ≠ ',' :=
    Util.forall_mem_join (by decide) fun part hpart c hc heq =>
      h (heq ▸ (Util.mem_split hpart).2.2 c hc)
  exact hall _ hmem rfl

theorem Token.tidy {w : Str} (h : Token w) : Tidy w :=
  tidy_iff.mpr ⟨[w], by simpa using h, rfl⟩

theorem join_ne_nil {ws : List Str} {s : Str} (hs : s = Util.join ' ' ws) (hne : s ≠ []) :
    ws ≠ [] := by
  rintro rfl
  exact hne hs

theorem Tidy.blank {a b : Str} (ha : Tidy a) (hb : Tidy b) (hane : a ≠ []) (hbne : b ≠ []) :
    Tidy (a ++ ' ' :: b) := by
  obtain ⟨ws, hws, hjoin⟩ := tidy_iff.mp ha
  obtain ⟨vs, hvs, hjoin'⟩ := tidy_iff.mp hb
  refine tidy_iff.mpr ⟨ws ++ vs, List.forall_mem_append.mpr ⟨hws, hvs⟩, ?_⟩
  rw [Util.join_append (join_ne_nil hjoin hane) (join_ne_nil hjoin' hbne), ← hjoin, ← hjoin']

/-- A character that is no space becomes part of the last word. -/
theorem Tidy.snoc {a : Str} (ha : Tidy a) {c : Char} (hc : isspace c = false) :
    Tidy (a ++ [c]) := by
  obtain ⟨ws, hws, rfl⟩ := tidy_iff.mp ha
  induction ws with
  | nil => exact Token.tidy ⟨by simp, by simpa [Util.join] using hc⟩
  | cons w ws ih =>
    have hw : Token w := hws w (by simp)
    by_cases hnil : ws = []
    · subst hnil
      refine Token.tidy ⟨by simp, List.forall_mem_append.mpr ⟨hw.2, by simpa using hc⟩⟩
    · have hrest := fun v hv => hws v (List.mem_cons_of_mem w hv)
      rw [Util.join_cons w hnil, List.append_assoc, List.cons_append]
      exact hw.tidy.blank (ih hrest (tidy_iff.mpr ⟨ws, hrest, rfl⟩)) hw.1 (by simp)

theorem Tidy.next {a b : Str} (ha : Tidy a) (hb : Tidy b) (hbne : b ≠ []) :
    Tidy (a ++ ", ".toList ++ b) := by
  have hcomma : Tidy (a ++ [',']) := ha.snoc (by decide)
  have hnext := hcomma.blank hb (by simp) hbne
  simpa using hnext

theorem Tidy.strip {s : Str} (h : Tidy s) (hlen : 2 ≤ s.length) : Util.strip s = s := by
  obtain ⟨ws, hws, rfl⟩ := tidy_iff.mp h
  exact Util.strip_self hlen (head_join hws) (last_join hws)

theorem Tidy.strip_blank {s : Str} (h : Tidy s) (hlen : 2 ≤ s.length) :
    Util.strip (' ' :: s) = s := by
  obtain ⟨ws, hws, rfl⟩ := tidy_iff.mp h
  exact strip_join hws hlen

/-! ## A tag that is read back -/

/-- The texts of a column that the parser of the tag does not take apart. -/
structure Printable (f : FieldMeta) (name type : Str) : Prop where
  columnName : f.columnName = some name
  columnType : f.columnType = some type
  word_name : Word name
  tidy_type : Tidy type
  no_comma : ',' ∉ type
  two_le_type : 2 ≤ type.length
  default_ : f.default_ = [] ∨ Word f.default_
  extra : ExtraWords f.extra

/-- A part that is printed only sometimes, with the blank before it. -/
def optPart (printed : Bool) (text : Str) : List Str := if printed then [' ' :: text] else []

theorem join_optPart {parts : List Str} (hne : parts ≠ []) (printed : Bool) (text : Str) :
    Util.join ',' (parts ++ optPart printed text) =
      Util.join ',' parts ++ (if printed then ", ".toList ++ text else []) := by
  cases printed with
  | false => simp [optPart]
  | true => exact Util.join_append hne (by simp [optPart])

theorem foldl_optPart (field : FieldMeta) (printed : Bool) (text : Str) :
    (optPart printed text).foldl FieldMeta.readTag field =
      if printed then field.readTag (' ' :: text) else field := by
  cases printed <;> rfl

/-- ` auto_increment` where it follows the part before. -/
def autoText (autoInc : Bool) : Str := if autoInc then " auto_increment".toList else []

def tagParts (f : FieldMeta) (name type : Str) : List Str :=
  ["name = ".toList ++ name, " type = ".toList ++ (type ++ autoText (!f.isPk && f.autoInc))] ++
    optPart f.isPk ("pk".toList ++ autoText f.autoInc) ++ optPart f.notNull "not null".toList ++
    optPart (0 < f.default_.length) ("default ".toList ++ f.default_) ++
    optPart (0 < f.extra.length) f.extra

theorem append_optPart_ne_nil {parts : List Str} (hne : parts ≠ []) (printed : Bool) (text : Str) :
    parts ++ optPart printed text ≠ [] :=
  List.append_ne_nil_of_left_ne_nil hne _

/-- The text with the sometimes printed parts at its end. -/
theorem join_tagParts (f : FieldMeta) (name type : Str) :
    Util.join ',' (tagParts f name type) =
      "name = ".toList ++ name ++ ", ".toList ++
        ("type = ".toList ++ type ++ autoText (!f.isPk && f.autoInc)) ++
      (if f.isPk then ", ".toList ++ ("pk".toList ++ autoText f.autoInc) else []) ++
      (if f.notNull then ", ".toList ++ "not null".toList else []) ++
      (if 0 < f.default_.length then ", ".toList ++ ("default ".toList ++ f.default_) else []) ++
      (if 0 < f.extra.length then ", ".toList ++ f.extra else []) := by
  have hhead : ["name = ".toList ++ name,
      " type = ".toList ++ (type ++ autoText (!f.isPk && f.autoInc))] ≠ [] := by simp
  have hpk := append_optPart_ne_nil hhead f.isPk ("pk".toList ++ autoText f.autoInc)
  have hnot := append_optPart_ne_nil hpk f.notNull "not null".toList
  have hdefault :=
    append_optPart_ne_nil hnot (0 < f.default_.length) ("default ".toList ++ f.default_)
  rw [tagParts, join_optPart hdefault, join_optPart hnot, join_optPart hpk, join_optPart hhead]
  have hstart : Util.join ',' ["name = ".toList ++ name,
      " type = ".toList ++ (type ++ autoText (!f.isPk && f.autoInc))] =
      "name = ".toList ++ name ++ ", ".toList ++
        ("type = ".toList ++ type ++ autoText (!f.isPk && f.autoInc)) := by
    simp [Util.join]
  rw [hstart]
  simp only [decide_eq_true_eq]

/-- ` auto_increment` is glued to the type unless `, pk` comes in between. -/
theorem pk_auto_text (name type : Str) (isPk autoInc : Bool) :
    "name = ".toList ++ name ++ ", type = ".toList ++ type ++
      (if isPk then ", pk".toList else []) ++
        (if autoInc then " auto_increment".toList else []) =
      "name = ".toList ++ name ++ ", ".toList ++
        ("type = ".toList ++ type ++ autoText (!isPk && autoInc)) ++
        (if isPk then ", ".toList ++ ("pk".toList ++ autoText autoInc) else []) := by
  cases isPk <;> cases autoInc <;> simp [autoText]

theorem tags_eq_join {f : FieldMeta} {name type : Str} (h : Printable f name type) :
    ModelGen.tags f = Util.join ',' (tagParts f name type) := by
  rw [join_tagParts]
  unfold ModelGen.tags
  rw [h.columnName, h.columnType, Option.getD_some, Option.getD_some, pk_auto_text]
  rfl

theorem Printable.extra_tidy {f : FieldMeta} {name type : Str} (h : Printable f name type) :
    Tidy f.extra := by
  obtain ⟨ws, hws, hextra⟩ := h.extra
  exact tidy_iff.mpr ⟨ws, fun w hw => (hws w hw).word.token, hextra⟩

theorem tidy_auto {a : Str} (ha : Tidy a) (hne : a ≠ []) (autoInc : Bool) :
    Tidy (a ++ autoText autoInc) := by
  have hword : Word "auto_increment".toList := by decide
  cases autoInc with
  | false => simpa [autoText] using ha
  | true => exact ha.blank hword.token.tidy hne (by simp)

theorem tidy_opt {a text : Str} (ha : Tidy a) {printed : Prop} [Decidable printed]
    (hb : printed → Tidy text ∧ text ≠ []) :
    Tidy (a ++ (if printed then ", ".toList ++ text else [])) := by
  by_cases h : printed
  · have hnext := ha.next (hb h).1 (hb h).2
    simpa [h] using hnext
  · simpa [h] using ha

theorem tidy_tags {f : FieldMeta} {name type : Str} (h : Printable f name type) :
    Tidy (ModelGen.tags f) := by
  have hnot : Tidy "not null".toList := by decide
  have hpk : Tidy "pk".toList := by decide
  have hdefault : Tidy "default".toList := by decide
  have hname : Tidy ("name = ".toList ++ name) :=
    Tidy.blank (show Tidy "name =".toList by decide) h.word_name.token.tidy (by simp) h.word_name.1
  have htypene : type ≠ [] := by
    intro heq
    have hlen := h.two_le_type
    simp [heq] at hlen
  have htype : Tidy ("type = ".toList ++ type) :=
    Tidy.blank (show Tidy "type =".toList by decide) h.tidy_type (by simp) htypene
  have hhead : Tidy ("name = ".toList ++ name ++ ", ".toList ++
      ("type = ".toList ++ type ++ autoText (!f.isPk && f.autoInc))) :=
    hname.next (tidy_auto htype (by simp) _) (by simp)
  rw [tags_eq_join h, join_tagParts]
  refine tidy_opt (tidy_opt (tidy_opt (tidy_opt hhead ?_) ?_) ?_) ?_
  · exact fun _ => ⟨tidy_auto hpk (by simp) _, by simp⟩
  · exact fun _ => ⟨hnot, by simp⟩
  · intro hpos
    have hword : Word f.default_ := h.default_.resolve_left fun heq => by simp [heq] at hpos
    exact ⟨hdefault.blank hword.token.tidy (by simp) hword.1, by simp⟩
  · intro hpos
    exact ⟨h.extra_tidy, List.ne_nil_of_length_pos hpos⟩

/-! ### Part by part -/

/-- One character of an extra is stripped off with the blank before it. -/
def readExtra (extra : Str) : Str := if extra.length = 1 then [] else extra

theorem foldl_pk {field : FieldMeta} (hauto : field.autoInc = false) (isPk autoInc : Bool) :
    (optPart isPk ("pk".toList ++ autoText autoInc)).foldl FieldMeta.readTag field =
      { field with
        isPk := isPk || field.isPk
        hasIndex := isPk || field.hasIndex
        autoInc := isPk && autoInc
        index := if isPk then (field.withIndex .INDEX_TYPE_PRI).index else field.index } := by
  rw [foldl_optPart]
  cases isPk with
  | false =>
    cases field
    cases hauto
    rfl
  | true =>
    cases autoInc with
    | false =>
      cases field
      cases hauto
      exact FieldMeta.readTag_pk _
    | true => exact FieldMeta.readTag_pk_auto field

theorem foldl_notNull {field : FieldMeta} (hnot : field.notNull = false) (notNull : Bool) :
    (optPart notNull "not null".toList).foldl FieldMeta.readTag field =
      { field with notNull := notNull } := by
  rw [foldl_optPart]
  cases notNull with
  | false =>
    cases field
    cases hnot
    rfl
  | true => exact FieldMeta.readTag_notNull field

theorem foldl_default {field : FieldMeta} (hdefault : field.default_ = []) {default_ : Str}
    (h : default_ = [] ∨ Word default_) :
    (optPart (0 < default_.length) ("default ".toList ++ default_)).foldl FieldMeta.readTag field =
      { field with default_ := default_ } := by
  rcases h with rfl | hword
  · cases field
    cases hdefault
    rfl
  · have hpos : 0 < default_.length := List.length_pos_of_ne_nil hword.1
    rw [foldl_optPart, if_pos (decide_eq_true hpos)]
    exact FieldMeta.readTag_default field hword

theorem foldl_extra {field : FieldMeta} (hextra : field.extra = []) {ws : List Str}
    (hws : ∀ w ∈ ws, ExtraWord w) :
    (optPart (0 < (Util.join ' ' ws).length) (Util.join ' ' ws)).foldl FieldMeta.readTag field =
      { field with extra := readExtra (Util.join ' ' ws) } := by
  rw [foldl_optPart]
  rcases Nat.lt_or_ge (Util.join ' ' ws).length 2 with hshort | hlong
  · have hsame : { field with extra := [] } = field := by
      cases field
      cases hextra
      rfl
    rcases Nat.lt_or_ge 0 (Util.join ' ' ws).length with hpos | hzero
    · have hone : (Util.join ' ' ws).length = 1 := by omega
      obtain ⟨c, hc⟩ := List.length_eq_one_iff.mp hone
      have hwords : ∀ d ∈ Util.join ' ' ws, d ≠ '=' :=
        Util.forall_mem_join (by decide) fun w hw => (hws w hw).word.no_eq
      have hne : c ≠ '=' := hwords c (by simp [hc])
      rw [if_pos (decide_eq_true hpos), readExtra, if_pos hone, hc,
        FieldMeta.readTag_char field hne,
        hsame]
    · have hnil : Util.join ' ' ws = [] := List.eq_nil_of_length_eq_zero (by omega)
      rw [hnil]
      exact hsame.symm
  · have hpos : 0 < (Util.join ' ' ws).length := by omega
    have hone : (Util.join ' ' ws).length ≠ 1 := by omega
    rw [if_pos (decide_eq_true hpos), readExtra, if_neg hone,
      FieldMeta.readTag_extra hextra hws hlong]

/-- The column that is read back. -/
def readBack (f : FieldMeta) (name type member cppType : Str) (offset : Int) : FieldMeta where
  fieldName := member
  cppType := cppType
  columnType := some (type ++ autoText (!f.isPk && f.autoInc))
  columnName := some (Util.strip (' ' :: name))
  extra := readExtra f.extra
  isPk := f.isPk
  autoInc := f.isPk && f.autoInc
  hasIndex := f.isPk
  notNull := f.isPk || f.notNull
  default_ := f.default_
  index :=
    if f.isPk then ⟨.INDEX_TYPE_PRI, [], [Util.strip (' ' :: name)]⟩ else ⟨.INDEX_TYPE_UNI, [], []⟩
  offset := offset
  ignore := f.isPk && f.autoInc

theorem tidy_type_part {f : FieldMeta} {name type : Str} (h : Printable f name type) :
    Util.strip (' ' :: (type ++ autoText (!f.isPk && f.autoInc))) =
      type ++ autoText (!f.isPk && f.autoInc) := by
  have hlen := h.two_le_type
  have hne : type ≠ [] := by
    intro heq
    simp [heq] at hlen
  exact (tidy_auto h.tidy_type hne _).strip_blank (by simp; omega)

theorem foldl_tagParts {f : FieldMeta} {name type : Str} (h : Printable f name type)
    (member cppType tag : Str) (offset : Int) :
    let read := (tagParts f name type).foldl FieldMeta.readTag
      (FieldMeta.ofMember member ⟨cppType, offset, tag⟩)
    { read with
      ignore := (read.isPk && read.autoInc) || read.ignore
      notNull := read.isPk || read.notNull } = readBack f name type member cppType offset := by
  obtain ⟨ws, hws, hextra⟩ := h.extra
  have hhead : ["name = ".toList ++ name,
      " type = ".toList ++ (type ++ autoText (!f.isPk && f.autoInc))].foldl FieldMeta.readTag
        (FieldMeta.ofMember member ⟨cppType, offset, tag⟩) =
      { fieldName := member, cppType := cppType, offset := offset,
        columnName := some (Util.strip (' ' :: name)),
        columnType := some (type ++ autoText (!f.isPk && f.autoInc)) } := by
    simp only [List.foldl_cons, List.foldl_nil, FieldMeta.readTag_name, FieldMeta.readTag_type]
    rw [tidy_type_part h]
    rfl
  have hread : (tagParts f name type).foldl FieldMeta.readTag
      (FieldMeta.ofMember member ⟨cppType, offset, tag⟩) =
      { readBack f name type member cppType offset with
        ignore := false
        notNull := f.notNull } := by
    rw [tagParts, List.foldl_append, List.foldl_append, List.foldl_append, List.foldl_append, hhead,
      foldl_pk rfl, foldl_notNull rfl, foldl_default rfl h.default_, hextra, foldl_extra rfl hws,
      ← hextra]
    simp [readBack, FieldMeta.withIndex, FieldMeta.getColumnName]
  dsimp only
  rw [hread]
  simp [readBack]

theorem no_comma_auto {a : Str} (h : ',' ∉ a) (autoInc : Bool) : ',' ∉ a ++ autoText autoInc := by
  cases autoInc <;> simp [autoText, h]

theorem mem_optPart {printed : Bool} {text part : Str} (h : part ∈ optPart printed text) :
    printed = true ∧ part = ' ' :: text := by
  cases printed with
  | false => exact absurd h (by simp [optPart])
  | true => exact ⟨rfl, by simpa [optPart] using h⟩

theorem Printable.no_comma_extra {f : FieldMeta} {name type : Str} (h : Printable f name type) :
    ',' ∉ f.extra := by
  obtain ⟨ws, hws, hextra⟩ := h.extra
  rw [hextra]
  intro hc
  have hall : ∀ c ∈ Util.join ' ' ws, c ≠ ',' :=
    Util.forall_mem_join (by decide) fun w hw c hc heq => (hws w hw).word.no_comma (heq ▸ hc)
  exact hall _ hc rfl

theorem no_comma_tagParts {f : FieldMeta} {name type : Str} (h : Printable f name type) :
    ∀ part ∈ tagParts f name type, part ≠ [] ∧ ',' ∉ part := by
  have hopt {printed : Bool} {text : Str} (htext : printed = true → ',' ∉ text) :
      ∀ part ∈ optPart printed text, part ≠ [] ∧ ',' ∉ part := by
    intro part hpart
    obtain ⟨hprinted, rfl⟩ := mem_optPart hpart
    exact ⟨by simp, by simpa using htext hprinted⟩
  have hname : ',' ∉ "name = ".toList ++ name := by simpa using h.word_name.no_comma
  have htype : ',' ∉ " type = ".toList ++ (type ++ autoText (!f.isPk && f.autoInc)) := by
    simpa using no_comma_auto h.no_comma _
  have hdefault (hpos : decide (0 < f.default_.length) = true) :
      ',' ∉ "default ".toList ++ f.default_ := by
    have hword : Word f.default_ := h.default_.resolve_left fun heq => by simp [heq] at hpos
    simpa using hword.no_comma
  simp only [tagParts, List.forall_mem_append, List.forall_mem_cons, List.not_mem_nil,
    IsEmpty.forall_iff, implies_true, and_true]
  exact ⟨⟨⟨⟨⟨⟨by simp, hname⟩, by simp, htype⟩, hopt fun _ => no_comma_auto (by decide) _⟩,
    hopt fun _ => by decide⟩, hopt hdefault⟩, hopt fun _ => h.no_comma_extra⟩

/-- What a printed column is read back as. -/
theorem ofMetadata_tags {f : FieldMeta} {name type : Str} (h : Printable f name type)
    (member cppType : Str) (offset : Int) :
    FieldMeta.ofMetadata member ⟨cppType, offset, stringify (ModelGen.tags f)⟩ =
      readBack f name type member cppType offset := by
  have hlen : 2 ≤ (ModelGen.tags f).length := by
    have hhead : "name = ".toList.length = 7 := rfl
    rw [tags_eq_join h, join_tagParts]
    simp only [List.length_append]
    omega
  have htidy : stringify (ModelGen.tags f) = ModelGen.tags f := tidy_tags h
  have hsplit : Util.split (Util.strip (ModelGen.tags f)) [','] = tagParts f name type := by
    rw [(tidy_tags h).strip hlen, tags_eq_join h]
    refine Util.split_join (by simp) _ fun part hpart => ?_
    obtain ⟨hne, hcomma⟩ := no_comma_tagParts h part hpart
    exact ⟨hne, fun c hc hmem => hcomma (List.mem_singleton.mp hmem ▸ hc)⟩
  rw [htidy, FieldMeta.ofMetadata, FieldMeta.readTags, hsplit]
  exact foldl_tagParts h member cppType _ offset

end TinyOrm

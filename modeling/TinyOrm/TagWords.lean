import TinyOrm.TagItems
set_option autoImplicit false

/-!
What the words of a tag say, and what the constructor of `FieldMeta` keeps of them.
-/

namespace TinyOrm

/-! ## The words of an item -/

inductive TagWord where
  | pk
  | autoIncrement
  | ignore
  | index
  | unique
  | notNull
  | default_ (value : Str)
  | free (word : Str)
  deriving DecidableEq

theorem isspace_tolower (c : Char) : isspace (tolower c) = isspace c := by
  cases hupper : isupper c with
  | false => rw [tolower_of_not_upper hupper]
  | true =>
    have hlower := (tolower_of_upper hupper).1
    have hrange : 65 ≤ c.toNat := by
      simp only [isupper, Bool.and_eq_true, decide_eq_true_eq, Char.le_def] at hupper
      exact hupper.1
    have hletter {d : Char} (hd : 65 ≤ d.toNat) : isspace d = false := by
      have hword := wordChar_of_letter hd
      simp only [wordChar, Bool.and_eq_true, Bool.not_eq_true'] at hword
      exact hword.1.1
    rw [hletter hrange, hletter (by omega)]

theorem token_toLowerCase {word : Str} (h : Token word) : Token (Util.toLowerCase word) := by
  refine ⟨by simpa [Util.toLowerCase] using h.1, fun c hc => ?_⟩
  obtain ⟨d, hd, rfl⟩ := List.mem_map.mp hc
  rw [isspace_tolower]
  exact h.2 d hd

/-- The words that say something on their own. -/
def tagKeyword (ext : Str) : Option TagWord :=
  if ext = "pk".toList ∨ ext = "primary_key".toList then some .pk
  else if ext = "auto_increment".toList then some .autoIncrement
  else if ext = "ignore".toList then some .ignore
  else if ext = "index".toList then some .index
  else if ext = "unique".toList then some .unique
  else none

def oneWord (word : Str) : TagWord := (tagKeyword (Util.toLowerCase word)).getD (.free word)

/-- The words of an item as they are meant: `not null` and `default D` are two words
each, and a word with no meaning of its own is free. -/
def tagWordsOf : List Str → List TagWord
  | [] => []
  | [word] => [oneWord word]
  | word :: next :: words =>
    if Util.toLowerCase word = "not".toList ∧ Util.toLowerCase next = "null".toList then
      .notNull :: tagWordsOf words
    else if Util.toLowerCase word = "default".toList then .default_ next :: tagWordsOf words
    else oneWord word :: tagWordsOf (next :: words)

/-- The free words, in order and in small letters. -/
def freeWords (words : List TagWord) : List Str :=
  words.filterMap fun
    | .free word => some (Util.toLowerCase word)
    | _ => none

def isDefault : TagWord → Bool
  | .default_ _ => true
  | _ => false

/-- The words before the first default, and those behind it. -/
def beforeDefault (words : List TagWord) : List TagWord := words.takeWhile (!isDefault ·)

def behindDefault (words : List TagWord) : List TagWord := (words.dropWhile (!isDefault ·)).tail

/-- The value of the last default. -/
def lastDefault (words : List TagWord) : Option Str :=
  (words.filterMap fun
    | .default_ value => some value
    | _ => none).getLast?

namespace FieldMeta

/-- What a word does to a field that is read as it is meant. -/
def apply (field : FieldMeta) : TagWord → FieldMeta
  | .pk => { field.withIndex .INDEX_TYPE_PRI with isPk := true }
  | .autoIncrement => { field with autoInc := true }
  | .ignore => { field with ignore := true }
  | .index => field.withIndex .INDEX_TYPE_MUL
  | .unique => field.withIndex .INDEX_TYPE_UNI
  | .notNull => { field with notNull := true }
  | .default_ value => { field with default_ := value }
  | .free word => field.appendExtra (Util.toLowerCase word)

/-! ## One word -/

theorem space_not_mem_toLowerCase {word : Str} (h : Token word) :
    ' ' ∉ Util.toLowerCase word := by
  intro hmem
  exact absurd ((token_toLowerCase h).2 _ hmem) (by decide)

theorem tagKeyword_null : tagKeyword "null".toList = none := by decide

theorem tagKeyword_default : tagKeyword "default".toList = none := by decide

/-- A word without blanks that is one of the keywords. -/
theorem readExt_keyword {field : FieldMeta} {latch : Bool} {word : Str} {t : TagWord}
    (h : tagKeyword (Util.toLowerCase word) = some t) :
    readExt { field := field, checkNotNull := latch } word =
      { field := field.apply t, checkNotNull := latch } := by
  rw [readExt, if_neg Bool.false_ne_true]
  generalize Util.toLowerCase word = ext at h
  unfold tagKeyword at h
  split at h
  · rename_i hext
    rcases hext with rfl | rfl <;> cases h <;> cases latch <;> rfl
  split at h
  · subst_vars
    cases h
    cases latch <;> rfl
  split at h
  · subst_vars
    cases h
    cases latch <;> rfl
  split at h
  · subst_vars
    cases h
    cases latch <;> rfl
  split at h
  · subst_vars
    cases h
    cases latch <;> rfl
  · cases h

theorem readExt_not {field : FieldMeta} {latch : Bool} {word : Str}
    (h : Util.toLowerCase word = "not".toList) :
    readExt { field := field, checkNotNull := latch } word =
      { field := field, checkNotNull := true } := by
  cases latch <;> rw [readExt, h] <;> rfl

theorem readExt_null {field : FieldMeta} {word : Str}
    (h : Util.toLowerCase word = "null".toList) :
    readExt { field := field, checkNotNull := true } word =
      { field := { field with notNull := true } } := by
  rw [readExt, h]
  rfl

theorem readExt_default_word {field : FieldMeta} {latch : Bool} {word : Str}
    (h : Util.toLowerCase word = "default".toList) :
    readExt { field := field, checkNotNull := latch } word =
      { field := field, checkNotNull := latch, checkDefault := true } := by
  cases latch <;> rw [readExt, h] <;> rfl

/-- Any other word goes to `extra`. -/
theorem readExt_free {field : FieldMeta} {latch : Bool} {word : Str} (hword : Token word)
    (hkey : tagKeyword (Util.toLowerCase word) = none)
    (hnull : (latch && Util.toLowerCase word = "null".toList) = false)
    (hnot : Util.toLowerCase word ≠ "not".toList)
    (hdefault : Util.toLowerCase word ≠ "default".toList) :
    readExt { field := field, checkNotNull := latch } word =
      { field := field.appendExtra (Util.toLowerCase word), checkNotNull := latch } := by
  have hspace := space_not_mem_toLowerCase hword
  have hkey' : Util.toLowerCase word ≠ "primary key".toList :=
    fun heq => hspace (by rw [heq]; decide)
  have hauto' : Util.toLowerCase word ≠ "auto increment".toList :=
    fun heq => hspace (by rw [heq]; decide)
  rw [readExt, if_neg Bool.false_ne_true]
  generalize Util.toLowerCase word = ext at *
  unfold tagKeyword at hkey
  split at hkey
  · cases hkey
  rename_i hpk
  split at hkey
  · cases hkey
  rename_i hauto
  split at hkey
  · cases hkey
  rename_i hignore
  split at hkey
  · cases hkey
  rename_i hindex
  split at hkey
  · cases hkey
  rename_i hunique
  rw [not_or] at hpk
  simp only [hnull, hpk.1, hpk.2, hkey', hauto, hauto', hignore, hindex, hunique, hnot, hdefault,
    Bool.false_eq_true, or_self, if_false]

end FieldMeta

/-! ## What is kept of an item -/

/-- The words that reach `extra`, in small letters. -/
def keptWords : Bool → List Str → List Str
  | _, [] => []
  | latch, word :: words =>
    let ext := Util.toLowerCase word
    if latch && ext = "null".toList then keptWords false words
    else if (tagKeyword ext).isSome then keptWords latch words
    else if ext = "not".toList then keptWords true words
    else if ext = "default".toList then []
    else ext :: keptWords latch words

/-- No free word is lost: none is half of a pair, and none stands behind a default. -/
structure KeepsFree (words : List TagWord) : Prop where
  meant : ∀ word, .free word ∈ words →
    Util.toLowerCase word ≠ "not".toList ∧ Util.toLowerCase word ≠ "default".toList
  front : ∀ word, .free word ∉ behindDefault words

/-- The value that the loop over the words leaves. -/
def defaultOf (words : List Str) : Option Str :=
  if (tagWordsOf words).any isDefault then words.getLast? else none

theorem KeepsFree.tail {t : TagWord} {words : List TagWord} (ht : isDefault t = false)
    (h : KeepsFree (t :: words)) : KeepsFree words := by
  refine ⟨fun word hword => h.meant word (List.mem_cons_of_mem t hword), fun word => ?_⟩
  have hfront := h.front word
  rwa [behindDefault, List.dropWhile_cons_of_pos (by simp [ht]), ← behindDefault] at hfront

theorem isDefault_oneWord (word : Str) : isDefault (oneWord word) = false := by
  unfold oneWord tagKeyword
  repeat' split
  all_goals rfl

theorem beforeDefault_cons {t : TagWord} (ht : isDefault t = false) (words : List TagWord) :
    beforeDefault (t :: words) = t :: beforeDefault words := by
  rw [beforeDefault, List.takeWhile_cons_of_pos (by simp [ht]), ← beforeDefault]

/-- The words in front leave the value of the default alone. -/
theorem defaultOf_cons {word : Str} {words rest : List Str} {t : TagWord}
    (ht : isDefault t = false) (hwords : tagWordsOf (word :: words) = t :: tagWordsOf rest)
    (hrest : ∃ front, words = front ++ rest) : defaultOf (word :: words) = defaultOf rest := by
  rw [defaultOf, defaultOf, hwords, List.any_cons, ht, Bool.false_or]
  cases hany : (tagWordsOf rest).any isDefault with
  | false => rfl
  | true =>
    have hne : rest ≠ [] := by
      rintro rfl
      cases hany
    obtain ⟨front, rfl⟩ := hrest
    rw [if_pos rfl, if_pos rfl, ← List.cons_append, List.getLast?_append_of_ne_nil _ hne]

theorem oneWord_keyword {word : Str} {t : TagWord}
    (h : tagKeyword (Util.toLowerCase word) = some t) : oneWord word = t := by
  rw [oneWord, h, Option.getD_some]

theorem oneWord_free {word : Str} (h : tagKeyword (Util.toLowerCase word) = none) :
    oneWord word = .free word := by
  rw [oneWord, h, Option.getD_none]

namespace FieldMeta

/-- The loop reads a word as it is meant. -/
theorem readExt_oneWord (field : FieldMeta) {word : Str} (hword : Token word)
    (hmeant : oneWord word = .free word → Util.toLowerCase word ≠ "not".toList ∧
      Util.toLowerCase word ≠ "default".toList) :
    readExt { field := field } word = { field := field.apply (oneWord word) } := by
  cases hkey : tagKeyword (Util.toLowerCase word) with
  | some t => rw [oneWord_keyword hkey, readExt_keyword hkey]
  | none =>
    obtain ⟨hnot, hdefault⟩ := hmeant (oneWord_free hkey)
    rw [oneWord_free hkey, readExt_free hword hkey rfl hnot hdefault, apply]

/-- Where no free word is lost, the loop reads the words before the first default, and
the last word as its value. -/
theorem foldl_readExt_words {words : List Str} (hwords : ∀ word ∈ words, Token word)
    (h : KeepsFree (tagWordsOf words)) (field : FieldMeta) :
    (words.foldl readExt { field := field }).field =
      { (beforeDefault (tagWordsOf words)).foldl apply field with
        default_ := (defaultOf words).getD
          ((beforeDefault (tagWordsOf words)).foldl apply field).default_ } := by
  induction words using tagWordsOf.induct generalizing field with
  | case1 => rfl
  | case2 word =>
    rw [tagWordsOf] at h
    have hread := readExt_oneWord field (hwords word (by simp))
      fun heq => h.meant word (by rw [heq]; simp)
    have hnone : defaultOf [word] = none := by
      rw [defaultOf, tagWordsOf, List.any_cons, isDefault_oneWord]
      rfl
    rw [hnone, tagWordsOf, beforeDefault_cons (isDefault_oneWord word), List.foldl_cons, hread]
    rfl
  | case3 word next words hpair ih =>
    have hmeant : tagWordsOf (word :: next :: words) = .notNull :: tagWordsOf words := by
      rw [tagWordsOf, if_pos hpair]
    rw [hmeant] at h
    rw [defaultOf_cons rfl hmeant ⟨[next], rfl⟩, hmeant, beforeDefault_cons rfl, List.foldl_cons,
      List.foldl_cons, List.foldl_cons, readExt_not hpair.1, readExt_null hpair.2,
      ih (fun w hw => hwords w (by simp [hw])) (h.tail rfl)]
    rfl
  | case4 word next words hpair hdefault ih =>
    have hmeant : tagWordsOf (word :: next :: words) = .default_ next :: tagWordsOf words := by
      rw [tagWordsOf, if_neg hpair, if_pos hdefault]
    have hlast : defaultOf (word :: next :: words) = (next :: words).getLast? := by
      rw [defaultOf, hmeant, List.getLast?_cons_cons]
      rfl
    rw [hlast, hmeant, List.foldl_cons, readExt_default_word hdefault, foldl_readExt_behind rfl]
    rfl
  | case5 word next words hpair hdefault ih =>
    have hmeant : tagWordsOf (word :: next :: words) =
        oneWord word :: tagWordsOf (next :: words) := by
      rw [tagWordsOf, if_neg hpair, if_neg hdefault]
    rw [hmeant] at h
    have hread := readExt_oneWord field (hwords word (by simp))
      fun heq => h.meant word (by rw [heq]; simp)
    rw [defaultOf_cons (isDefault_oneWord word) hmeant ⟨[], rfl⟩, hmeant,
      beforeDefault_cons (isDefault_oneWord word), List.foldl_cons, hread,
      ih (fun w hw => hwords w (by simp [hw])) (h.tail (isDefault_oneWord word))]
    rfl

theorem apply_keyword {ext : Str} {t : TagWord} (h : tagKeyword ext = some t) (field : FieldMeta) :
    (field.apply t).extra = field.extra := by
  unfold tagKeyword at h
  repeat' split at h
  all_goals cases h
  all_goals rfl

/-- Whatever is lost, the rest reaches `extra` in order. -/
theorem foldl_readExt_kept {words before : List Str} (hwords : ∀ word ∈ words, Token word)
    (hbefore : ∀ word ∈ before, word ≠ []) {field : FieldMeta} (latch : Bool)
    (hextra : field.extra = Util.join ' ' before) :
    (words.foldl readExt { field := field, checkNotNull := latch }).field.extra =
      Util.join ' ' (before ++ keptWords latch words) := by
  induction words generalizing field latch before with
  | nil => rw [keptWords, List.append_nil, ← hextra, List.foldl_nil]
  | cons word words ih =>
    have hword : Token word := hwords word (by simp)
    have hrest : ∀ w ∈ words, Token w := fun w hw => hwords w (by simp [hw])
    rw [List.foldl_cons, keptWords]
    by_cases hnull : (latch && Util.toLowerCase word = "null".toList) = true
    · rw [if_pos hnull]
      obtain ⟨hlatch, hext⟩ := Bool.and_eq_true_iff.mp hnull
      rw [hlatch, readExt_null (decide_eq_true_eq.mp hext)]
      exact ih hrest hbefore false hextra
    rw [if_neg hnull]
    rw [Bool.not_eq_true] at hnull
    cases hkey : tagKeyword (Util.toLowerCase word) with
    | some t =>
      rw [readExt_keyword hkey, if_pos Option.isSome_some]
      exact ih hrest hbefore latch ((apply_keyword hkey field).trans hextra)
    | none =>
      rw [if_neg (by simp)]
      by_cases hnot : Util.toLowerCase word = "not".toList
      · rw [if_pos hnot, readExt_not hnot]
        exact ih hrest hbefore true hextra
      rw [if_neg hnot]
      by_cases hdefault : Util.toLowerCase word = "default".toList
      · rw [if_pos hdefault, readExt_default_word hdefault, foldl_readExt_behind rfl,
          List.append_nil]
        exact hextra
      rw [if_neg hdefault, readExt_free hword hkey hnull hnot hdefault]
      have hne : ∀ w ∈ before ++ [Util.toLowerCase word], w ≠ [] := by
        intro w hw
        rcases List.mem_append.mp hw with hw | hw
        · exact hbefore w hw
        · rw [List.mem_singleton.mp hw, Util.toLowerCase, ne_eq, List.map_eq_nil_iff]
          exact hword.1
      rw [ih hrest hne latch (appendExtra_join hbefore hextra _), List.append_assoc]
      rfl

end FieldMeta

theorem freeWords_keyword {ext : Str} {t : TagWord} (h : tagKeyword ext = some t)
    (words : List TagWord) : freeWords (t :: words) = freeWords words ∧ isDefault t = false ∧
      ∀ word, t ≠ .free word := by
  unfold tagKeyword at h
  repeat' split at h
  all_goals cases h
  all_goals exact ⟨rfl, rfl, fun _ heq => by cases heq⟩

theorem KeepsFree.cons {t : TagWord} {words : List TagWord} (ht : isDefault t = false)
    (hfree : ∀ word, t = .free word →
      Util.toLowerCase word ≠ "not".toList ∧ Util.toLowerCase word ≠ "default".toList)
    (h : KeepsFree words) : KeepsFree (t :: words) := by
  refine ⟨fun word hword => ?_, fun word => ?_⟩
  · rcases List.mem_cons.mp hword with heq | hword
    · exact hfree word heq.symm
    · exact h.meant word hword
  · rw [behindDefault, List.dropWhile_cons_of_pos (by simp [ht]), ← behindDefault]
    exact h.front word

theorem length_keptWords_cons {word : Str} {words : List Str}
    (hdefault : Util.toLowerCase word ≠ "default".toList)
    (ih : ∀ latch, (keptWords latch words).length ≤ (freeWords (tagWordsOf words)).length ∧
      ((freeWords (tagWordsOf words)).length ≤ (keptWords latch words).length →
        KeepsFree (tagWordsOf words))) (latch : Bool) :
    (keptWords latch (word :: words)).length ≤
        (freeWords (oneWord word :: tagWordsOf words)).length ∧
      ((freeWords (oneWord word :: tagWordsOf words)).length ≤
          (keptWords latch (word :: words)).length →
        KeepsFree (oneWord word :: tagWordsOf words)) := by
  have hle := fun latch => (ih latch).1
  rw [keptWords]
  by_cases hnull : (latch && Util.toLowerCase word = "null".toList) = true
  · have hext := decide_eq_true_eq.mp (Bool.and_eq_true_iff.mp hnull).2
    have hfree : oneWord word = .free word :=
      oneWord_free (by rw [hext]; exact FieldMeta.tagKeyword_null)
    have hlen : (freeWords (oneWord word :: tagWordsOf words)).length =
        (freeWords (tagWordsOf words)).length + 1 := by
      rw [hfree]
      rfl
    have hfalse := hle false
    rw [if_pos hnull, hlen]
    exact ⟨by omega, fun h => by omega⟩
  rw [if_neg hnull]
  cases hkey : tagKeyword (Util.toLowerCase word) with
  | some t =>
    obtain ⟨hsame, hnot, hnofree⟩ := freeWords_keyword hkey (tagWordsOf words)
    rw [oneWord_keyword hkey, hsame, if_pos Option.isSome_some]
    exact ⟨hle latch, fun h => ((ih latch).2 h).cons hnot fun w heq => absurd heq (hnofree w)⟩
  | none =>
    have hlen : (freeWords (oneWord word :: tagWordsOf words)).length =
        (freeWords (tagWordsOf words)).length + 1 := by
      rw [oneWord_free hkey]
      rfl
    rw [if_neg (by simp)]
    by_cases hnot : Util.toLowerCase word = "not".toList
    · have htrue := hle true
      rw [if_pos hnot, hlen]
      exact ⟨by omega, fun h => by omega⟩
    · have hlatch := hle latch
      rw [if_neg hnot, if_neg hdefault, hlen, List.length_cons]
      refine ⟨by omega, fun h => ?_⟩
      rw [oneWord_free hkey]
      refine ((ih latch).2 (by omega)).cons rfl fun w heq => ?_
      cases heq
      exact ⟨hnot, hdefault⟩

theorem keptWords_token {words : List Str} (hwords : ∀ word ∈ words, Token word)
    (latch : Bool) : ∀ word ∈ keptWords latch words, Token word := by
  induction words generalizing latch with
  | nil =>
    intro word hword
    cases hword
  | cons first words ih =>
    have hrest : ∀ word ∈ words, Token word := fun word hword => hwords word (by simp [hword])
    rw [keptWords]
    repeat' split
    · exact ih hrest false
    · exact ih hrest latch
    · exact ih hrest true
    · intro word hword
      cases hword
    · intro word hword
      rcases List.mem_cons.mp hword with rfl | hword
      · exact token_toLowerCase (hwords first (by simp))
      · exact ih hrest latch word hword

theorem keptWords_default {word : Str} (h : Util.toLowerCase word = "default".toList)
    (latch : Bool) (words : List Str) : keptWords latch (word :: words) = [] := by
  rw [keptWords, h]
  cases latch <;> rfl

theorem keptWords_pair {word next : Str} (h : Util.toLowerCase word = "not".toList)
    (hnext : Util.toLowerCase next = "null".toList) (latch : Bool) (words : List Str) :
    keptWords latch (word :: next :: words) = keptWords false words := by
  have hnot : keptWords latch (word :: next :: words) = keptWords true (next :: words) := by
    rw [keptWords, h]
    cases latch <;> rfl
  rw [hnot, keptWords, hnext]
  rfl

theorem mem_freeWords {word : Str} {words : List TagWord} (h : .free word ∈ words) :
    Util.toLowerCase word ∈ freeWords words :=
  List.mem_filterMap.mpr ⟨.free word, h, rfl⟩

theorem KeepsFree.of_none {words : List TagWord} (h : freeWords words = []) :
    KeepsFree words := by
  refine ⟨fun word hword => ?_, fun word hword => ?_⟩
  · have hmem := mem_freeWords hword
    rw [h] at hmem
    cases hmem
  · have hmem := mem_freeWords ((List.dropWhile_subset _) (List.mem_of_mem_tail hword))
    rw [h] at hmem
    cases hmem

/-- No more words are kept than are free, and as many only if none is lost. -/
theorem length_keptWords (words : List Str) (latch : Bool) :
    (keptWords latch words).length ≤ (freeWords (tagWordsOf words)).length ∧
      ((freeWords (tagWordsOf words)).length ≤ (keptWords latch words).length →
        KeepsFree (tagWordsOf words)) := by
  induction words using tagWordsOf.induct generalizing latch with
  | case1 => exact ⟨Nat.le_refl _, fun _ => KeepsFree.of_none rfl⟩
  | case2 word =>
    rw [tagWordsOf]
    by_cases hdefault : Util.toLowerCase word = "default".toList
    · have hfree : oneWord word = .free word :=
        oneWord_free (by rw [hdefault]; exact FieldMeta.tagKeyword_default)
      rw [keptWords_default hdefault, hfree]
      exact ⟨Nat.zero_le _, fun h => absurd h (Nat.not_succ_le_zero 0)⟩
    · have hnil (latch : Bool) : (keptWords latch []).length ≤
            (freeWords (tagWordsOf [])).length ∧
          ((freeWords (tagWordsOf [])).length ≤ (keptWords latch []).length →
            KeepsFree (tagWordsOf [])) :=
        ⟨Nat.le_refl _, fun _ => KeepsFree.of_none rfl⟩
      exact length_keptWords_cons hdefault hnil latch
  | case3 word next words hpair ih =>
    obtain ⟨hle, hkeeps⟩ := ih false
    rw [tagWordsOf, if_pos hpair, keptWords_pair hpair.1 hpair.2]
    exact ⟨hle, fun h => (hkeeps h).cons rfl fun w heq => by cases heq⟩
  | case4 word next words hpair hdefault ih =>
    rw [tagWordsOf, if_neg hpair, if_pos hdefault, keptWords_default hdefault]
    refine ⟨Nat.zero_le _, fun h => KeepsFree.of_none ?_⟩
    exact List.eq_nil_of_length_eq_zero (Nat.le_zero.mp h)
  | case5 word next words hpair hdefault ih =>
    rw [tagWordsOf, if_neg hpair, if_neg hdefault]
    exact length_keptWords_cons hdefault ih latch

theorem freeWords_cons (t : TagWord) (words : List TagWord) :
    freeWords (t :: words) = freeWords [t] ++ freeWords words := by
  cases t <;> rfl

theorem freeWords_eq_nil {words : List TagWord} (h : ∀ word, .free word ∉ words) :
    freeWords words = [] := by
  rw [freeWords, List.filterMap_eq_nil_iff]
  intro t ht
  cases t with
  | free word => exact absurd ht (h word)
  | _ => rfl

theorem keptWords_oneWord {word : Str}
    (hmeant : oneWord word = .free word → Util.toLowerCase word ≠ "not".toList ∧
      Util.toLowerCase word ≠ "default".toList) (words : List Str) :
    keptWords false (word :: words) = freeWords [oneWord word] ++ keptWords false words := by
  rw [keptWords, Bool.false_and, if_neg Bool.false_ne_true]
  cases hkey : tagKeyword (Util.toLowerCase word) with
  | some t =>
    rw [if_pos Option.isSome_some, oneWord_keyword hkey, (freeWords_keyword hkey []).1]
    rfl
  | none =>
    obtain ⟨hnot, hdefault⟩ := hmeant (oneWord_free hkey)
    rw [oneWord_free hkey, if_neg (by simp), if_neg hnot, if_neg hdefault]
    rfl

/-- Where no free word is lost, all are kept. -/
theorem keptWords_eq {words : List Str} (h : KeepsFree (tagWordsOf words)) :
    keptWords false words = freeWords (tagWordsOf words) := by
  induction words using tagWordsOf.induct with
  | case1 => rfl
  | case2 word =>
    rw [tagWordsOf] at h
    rw [tagWordsOf, keptWords_oneWord (fun heq => h.meant word (by rw [heq]; simp)), keptWords,
      List.append_nil]
  | case3 word next words hpair ih =>
    have hmeant : tagWordsOf (word :: next :: words) = .notNull :: tagWordsOf words := by
      rw [tagWordsOf, if_pos hpair]
    rw [hmeant] at h ⊢
    rw [keptWords_pair hpair.1 hpair.2, ih (h.tail rfl)]
    rfl
  | case4 word next words hpair hdefault ih =>
    have hmeant : tagWordsOf (word :: next :: words) = .default_ next :: tagWordsOf words := by
      rw [tagWordsOf, if_neg hpair, if_pos hdefault]
    rw [hmeant] at h ⊢
    rw [keptWords_default hdefault]
    exact (freeWords_eq_nil h.front).symm
  | case5 word next words hpair hdefault ih =>
    have hmeant : tagWordsOf (word :: next :: words) =
        oneWord word :: tagWordsOf (next :: words) := by
      rw [tagWordsOf, if_neg hpair, if_neg hdefault]
    rw [hmeant] at h ⊢
    rw [keptWords_oneWord (fun heq => h.meant word (by rw [heq]; simp)),
      ih (h.tail (isDefault_oneWord word)), ← freeWords_cons]

/-- The words of an item are its own. -/
theorem mem_of_free {word : Str} {words : List Str} (h : .free word ∈ tagWordsOf words) :
    word ∈ words := by
  have hone {w : Str} (hw : .free word = oneWord w) : word = w := by
    cases hkey : tagKeyword (Util.toLowerCase w) with
    | some t =>
      rw [oneWord_keyword hkey] at hw
      exact absurd hw.symm ((freeWords_keyword hkey []).2.2 word)
    | none =>
      rw [oneWord_free hkey] at hw
      exact TagWord.free.inj hw
  induction words using tagWordsOf.induct with
  | case1 => cases h
  | case2 w =>
    rw [tagWordsOf, List.mem_singleton] at h
    simp [hone h]
  | case3 w next words hpair ih =>
    rw [tagWordsOf, if_pos hpair] at h
    have hrest := ih (by simpa using h)
    simp [hrest]
  | case4 w next words hpair hdefault ih =>
    rw [tagWordsOf, if_neg hpair, if_pos hdefault] at h
    have hrest := ih (by simpa using h)
    simp [hrest]
  | case5 w next words hpair hdefault ih =>
    rw [tagWordsOf, if_neg hpair, if_neg hdefault] at h
    rcases List.mem_cons.mp h with h | h
    · simp [hone h]
    · exact List.mem_cons_of_mem w (ih h)

theorem freeWords_token {words : List Str} (hwords : ∀ word ∈ words, Token word) :
    ∀ word ∈ freeWords (tagWordsOf words), Token word := by
  intro word hword
  obtain ⟨t, ht, heq⟩ := List.mem_filterMap.mp hword
  cases t with
  | free w =>
    obtain rfl := Option.some.inj heq
    exact token_toLowerCase (hwords w (mem_of_free ht))
  | _ => cases heq

theorem freeWords_lower (words : List TagWord) :
    (freeWords words).map Util.toLowerCase = freeWords words := by
  refine (List.map_congr_left fun word hword => ?_).trans (List.map_id _)
  obtain ⟨t, -, heq⟩ := List.mem_filterMap.mp hword
  cases t with
  | free w =>
    obtain rfl := Option.some.inj heq
    exact toLowerCase_idem w
  | _ => cases heq

end TinyOrm

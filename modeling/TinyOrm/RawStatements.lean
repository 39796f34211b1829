import TinyOrm.Binding
import TinyOrm.StringLoops
import TinyOrm.TagWords
set_option autoImplicit false

/-!
`Raw`: the text that `Fetch` and `Exec` prepare, and which of them it admits (model.h).
-/

namespace TinyOrm

/-- A character of a keyword or of a name without quotes. -/
def sqlWordChar (c : Char) : Bool := c.isAlphanum || c = '_' || c = '$' || 128 ≤ c.toNat

/-- The word that a statement begins with, behind white space. -/
def firstWord (sql : Str) : Str := (sql.dropWhile isspace).takeWhile sqlWordChar

/-- `SELECT` in any letter case. -/
def BeginsWithSelect (sql : Str) : Prop := Util.toLowerCase (firstWord sql) = "select".toList

/-- The statement that `Fetch` or `Exec` prepares has the given text without the white space
around it, and `Fetch` is the operation that prepares it exactly if it is a SELECT. -/
structure AsWritten (m : Model) (sql : Str) : Prop where
  fetched : ∀ reply, ∀ stmt ∈ (m.Fetch reply).sent, text stmt.sql = Util.trim sql
  executed : ∀ reply, ∀ stmt ∈ (m.Exec reply).sent, text stmt.sql = Util.trim sql
  fetch : ∀ reply, (m.Fetch reply).sent.isSome ↔ BeginsWithSelect sql
  exec : ∀ reply, (m.Exec reply).sent.isSome ↔ ¬ BeginsWithSelect sql

/-- Nothing is lowered, no character stands alone behind white space, and `select` is a word
of its own where the text begins with it. -/
structure KeptAsWritten (sql : Str) : Prop where
  lower : ∀ c ∈ sql, isupper c = false
  length : (sql.dropWhile isspace).length ≠ 1
  word : Util.toLowerCase ((sql.dropWhile isspace).take 6) = "select".toList →
    ∀ c ∈ ((sql.dropWhile isspace).drop 6).head?, sqlWordChar c = false

/-! ## Lowering -/

theorem tolower_eq_self_iff {c : Char} : tolower c = c ↔ isupper c = false := by
  constructor
  · intro h
    cases hupper : isupper c with
    | false => rfl
    | true =>
      have hsmall := isupper_of_small (tolower_of_upper hupper).1
      rwa [h, hupper] at hsmall
  · exact tolower_of_not_upper

theorem toLowerCase_eq_self_iff {s : Str} :
    Util.toLowerCase s = s ↔ ∀ c ∈ s, isupper c = false := by
  induction s with
  | nil => simp [Util.toLowerCase]
  | cons c s ih =>
    have hcons : Util.toLowerCase (c :: s) = tolower c :: Util.toLowerCase s := rfl
    rw [hcons, List.cons.injEq, ih, tolower_eq_self_iff, List.forall_mem_cons]

theorem dropWhile_toLowerCase (s : Str) :
    (Util.toLowerCase s).dropWhile isspace = Util.toLowerCase (s.dropWhile isspace) := by
  rw [Util.toLowerCase, List.dropWhile_map]
  have hspace : isspace ∘ tolower = isspace := funext isspace_tolower
  rw [hspace, Util.toLowerCase]

theorem rdropWhile_toLowerCase (s : Str) :
    (Util.toLowerCase s).rdropWhile isspace = Util.toLowerCase (s.rdropWhile isspace) := by
  have hreverse : (Util.toLowerCase s).reverse = Util.toLowerCase s.reverse :=
    List.map_reverse.symm
  rw [List.rdropWhile, hreverse, dropWhile_toLowerCase, List.rdropWhile]
  exact List.map_reverse.symm

theorem length_toLowerCase (s : Str) : (Util.toLowerCase s).length = s.length := List.length_map _

theorem isupper_of_isspace {c : Char} (h : isspace c = true) : isupper c = false := by
  rw [isspace, Bool.or_eq_true] at h
  rcases h with hblank | hrange
  · rw [of_decide_eq_true hblank]
    decide
  · simp only [Bool.and_eq_true, decide_eq_true_eq, Char.le_def] at hrange
    have hhi : c.toNat ≤ 13 := hrange.2
    rw [Bool.eq_false_iff, ne_eq, isupper, Bool.and_eq_true, decide_eq_true_eq, Char.le_def]
    rintro ⟨hlo, -⟩
    have hlo' : 65 ≤ c.toNat := hlo
    omega

/-- The white space around a text has no letters. -/
theorem isupper_trim (sql : Str) :
    (∀ c ∈ Util.trim sql, isupper c = false) ↔ ∀ c ∈ sql, isupper c = false := by
  obtain ⟨ws, ws', hws, hws', hsql⟩ := Util.exists_pieces sql
  constructor
  · intro h
    rw [hsql]
    exact List.forall_mem_append.mpr ⟨List.forall_mem_append.mpr
      ⟨fun c hc => isupper_of_isspace (hws c hc), h⟩, fun c hc => isupper_of_isspace (hws' c hc)⟩
  · exact fun h c hc => h c ((Util.stretch_trim sql).subset hc)

/-! ## The text -/

/-- What `Raw` keeps. -/
theorem rawText_eq (sql : Str) : Model.rawText sql =
    if (sql.dropWhile isspace).length ≤ 1 then [] else Util.toLowerCase (Util.trim sql) := by
  rw [Model.rawText, Util.strip_eq, dropWhile_toLowerCase, length_toLowerCase,
    rdropWhile_toLowerCase, Util.trim]

theorem trim_eq_nil_iff (sql : Str) : Util.trim sql = [] ↔ sql.dropWhile isspace = [] := by
  rw [Util.trim, List.rdropWhile_eq_nil_iff]
  constructor
  · intro hall
    cases hs : sql.dropWhile isspace with
    | nil => rfl
    | cons c s =>
      have hhead := List.head?_dropWhile_not isspace sql
      rw [hs] at hhead
      have hc : isspace c = true := hall c (by simp [hs])
      simp [hc] at hhead
  · intro hnil c hc
    rw [hnil] at hc
    cases hc

theorem rawText_eq_trim_iff (sql : Str) : Model.rawText sql = Util.trim sql ↔
    (∀ c ∈ sql, isupper c = false) ∧ (sql.dropWhile isspace).length ≠ 1 := by
  rw [rawText_eq, ← isupper_trim]
  split
  · rename_i hle
    rw [eq_comm, trim_eq_nil_iff]
    constructor
    · intro hnil
      have htrim := (trim_eq_nil_iff sql).mpr hnil
      exact ⟨by simp [htrim], by simp [hnil]⟩
    · rintro ⟨-, hne⟩
      exact List.length_eq_zero_iff.mp (by omega)
  · rename_i hlt
    rw [toLowerCase_eq_self_iff, iff_self_and]
    exact fun _ => by omega

/-! ## The first word -/

theorem isAlpha_of_isupper {c : Char} (h : isupper c = true) : c.isAlpha = true := by
  have hrange := h
  simp only [isupper, Bool.and_eq_true, decide_eq_true_eq, Char.le_def] at hrange
  have hupper : c.isUpper = true := decide_eq_true hrange
  show (c.isUpper || c.isLower) = true
  rw [hupper, Bool.true_or]

theorem isAlpha_of_lower {c : Char} (h : 97 ≤ c.toNat ∧ c.toNat ≤ 122) : c.isAlpha = true := by
  have hlower : c.isLower = true := by
    show (decide ('a' ≤ c) && decide (c ≤ 'z')) = true
    rw [Bool.and_eq_true]
    exact ⟨decide_eq_true h.1, decide_eq_true h.2⟩
  show (c.isUpper || c.isLower) = true
  rw [hlower, Bool.or_true]

theorem sqlWordChar_tolower (c : Char) : sqlWordChar (tolower c) = sqlWordChar c := by
  cases h : isupper c with
  | false => rw [tolower_of_not_upper h]
  | true =>
    have halpha := isAlpha_of_isupper h
    have halpha' := isAlpha_of_lower (tolower_of_upper h)
    simp [sqlWordChar, Char.isAlphanum, halpha, halpha']

variable {s : Str}

theorem length_of_lower_eq {w : Str} (h : Util.toLowerCase s = w) : s.length = w.length := by
  rw [← h, length_toLowerCase]

theorem all_of_lower_select (h : Util.toLowerCase s = "select".toList) :
    ∀ c ∈ s, sqlWordChar c = true ∧ isspace c = false := by
  intro c hc
  have hmem : tolower c ∈ "select".toList := by
    rw [← h]
    exact List.mem_map.mpr ⟨c, hc, rfl⟩
  have hletters : "select".toList.all (fun d => sqlWordChar d && !isspace d) = true := by decide
  have hc := List.all_eq_true.mp hletters _ hmem
  rw [Bool.and_eq_true, Bool.not_eq_true', sqlWordChar_tolower, isspace_tolower] at hc
  exact hc

theorem isSelect_iff (sql : Str) : Model.IsSelect sql ↔
    Util.toLowerCase ((sql.dropWhile isspace).take 6) = "select".toList := by
  rw [Model.IsSelect, rawText_eq, Util.trim]
  generalize sql.dropWhile isspace = s
  have htake (s : Str) : (Util.toLowerCase s).take 6 = Util.toLowerCase (s.take 6) :=
    List.map_take.symm
  split
  · rename_i hle
    constructor
    · intro h
      cases h
    · intro h
      have hlen := length_of_lower_eq h
      rw [List.length_take, show "select".toList.length = 6 from rfl] at hlen
      omega
  · rw [htake]
    constructor
    · intro h
      have hlen := length_of_lower_eq h
      rw [List.length_take, show "select".toList.length = 6 from rfl] at hlen
      obtain ⟨ws, hws⟩ := List.rdropWhile_prefix isspace s
      rwa [← hws, List.take_append_of_le_length (by omega)]
    · intro h
      have hlen := length_of_lower_eq h
      have hne : s.take 6 ≠ [] := by
        rintro hnil
        rw [hnil] at h
        cases h
      have hbare : ∀ c ∈ (s.take 6).getLast?, isspace c = false :=
        fun c hc => (all_of_lower_select h c (List.mem_of_getLast? hc)).2
      have hback := Util.rdropWhile_append_bare hne hbare (s.drop 6)
      rw [List.take_append_drop] at hback
      rw [hback, List.take_left' (by rw [hlen]; rfl)]
      exact h

theorem beginsWithSelect_iff (sql : Str) : BeginsWithSelect sql ↔
    Util.toLowerCase ((sql.dropWhile isspace).take 6) = "select".toList ∧
      ∀ c ∈ ((sql.dropWhile isspace).drop 6).head?, sqlWordChar c = false := by
  rw [BeginsWithSelect, firstWord]
  generalize sql.dropWhile isspace = s
  constructor
  · intro h
    have hlen : (s.takeWhile sqlWordChar).length = 6 := length_of_lower_eq h
    have hparts := List.takeWhile_append_dropWhile (p := sqlWordChar) (l := s)
    have hfront : s.take 6 = s.takeWhile sqlWordChar := by
      rw [← hlen]
      exact List.prefix_iff_eq_take.mp (List.takeWhile_prefix sqlWordChar) |>.symm
    have hback : s.drop 6 = s.dropWhile sqlWordChar := by
      conv_lhs => rw [← hparts]
      exact List.drop_left' hlen
    rw [hfront, hback]
    refine ⟨h, fun c hc => ?_⟩
    have hnot := List.head?_dropWhile_not sqlWordChar s
    rw [hc] at hnot
    simpa using hnot
  · rintro ⟨h, hnext⟩
    have hword : (s.take 6 ++ s.drop 6).takeWhile sqlWordChar = s.take 6 := by
      rw [List.takeWhile_append_of_pos fun c hc => (all_of_lower_select h c hc).1]
      cases hrest : s.drop 6 with
      | nil => rw [List.takeWhile_nil, List.append_nil]
      | cons c rest =>
        have hc : sqlWordChar c = false := hnext c (by rw [hrest]; rfl)
        rw [List.takeWhile_cons_of_neg (by simp [hc]), List.append_nil]
    rw [List.take_append_drop] at hword
    rw [hword]
    exact h

/-! ## Fetch and Exec -/

section

variable {m : Model} (sql : Str) (args : List Value)

theorem Raw_status : (m.Raw sql args).status = if Model.IsSelect sql then .QUERY else .UPDATE := rfl

theorem prepareRaw_text (stmt : Statement) (h : stmt ∈ (m.Raw sql args).prepareRaw) :
    text stmt.sql = Model.rawText sql := by
  rw [Model.prepareRaw, Option.mem_def, Option.map_eq_some_iff] at h
  obtain ⟨prepared, hprepared, rfl⟩ := h
  rw [Model.prepareStatement, Option.map_eq_some_iff] at hprepared
  obtain ⟨id, -, rfl⟩ := hprepared
  rw [bindParams_sql, Statement.prepare_sql]
  exact text_ofStr _

theorem Fetch_sent_raw (reply : Reply) : ((m.Raw sql args).Fetch reply).sent =
    if Model.IsSelect sql then (m.Raw sql args).prepareRaw else none := by
  rw [Model.Fetch, Raw_status]
  by_cases hselect : Model.IsSelect sql
  · rw [if_pos hselect, if_pos hselect]
    cases reply.rows <;> rfl
  · rw [if_neg hselect, if_neg hselect]

theorem Exec_sent_raw (reply : Reply) : ((m.Raw sql args).Exec reply).sent =
    if Model.IsSelect sql then none else (m.Raw sql args).prepareRaw := by
  rw [Model.Exec, Raw_status]
  by_cases hselect : Model.IsSelect sql
  · rw [if_pos hselect, if_pos hselect]
  · rw [if_neg hselect, if_neg hselect]

/-- With a connection a raw statement is executed as it was written, by the operation for it,
exactly when lowering and stripping leave it alone and `select` is a word. -/
theorem asWritten_iff (hconn : m.conn.isSome) :
    AsWritten (m.Raw sql args) sql ↔ KeptAsWritten sql := by
  obtain ⟨stmt, hstmt⟩ : ∃ stmt, (m.Raw sql args).prepareRaw = some stmt := by
    rw [Model.prepareRaw, Model.prepareStatement_of_conn (by exact hconn)]
    exact ⟨_, rfl⟩
  have htext := prepareRaw_text sql args stmt hstmt
  have hfetch (reply : Reply) : ((m.Raw sql args).Fetch reply).sent.isSome ↔
      Model.IsSelect sql := by
    rw [Fetch_sent_raw, hstmt]
    split <;> simp_all
  have hexec (reply : Reply) : ((m.Raw sql args).Exec reply).sent.isSome ↔
      ¬ Model.IsSelect sql := by
    rw [Exec_sent_raw, hstmt]
    split <;> simp_all
  have hword : (Model.IsSelect sql ↔ BeginsWithSelect sql) ↔
      (Util.toLowerCase ((sql.dropWhile isspace).take 6) = "select".toList →
        ∀ c ∈ ((sql.dropWhile isspace).drop 6).head?, sqlWordChar c = false) := by
    rw [isSelect_iff, beginsWithSelect_iff, iff_self_and]
  have hkept := rawText_eq_trim_iff sql
  constructor
  · intro h
    have hsame : Model.rawText sql = Util.trim sql := by
      rw [← htext]
      by_cases hselect : Model.IsSelect sql
      · exact h.fetched {} stmt (by rw [Fetch_sent_raw, if_pos hselect, hstmt]; rfl)
      · exact h.executed {} stmt (by rw [Exec_sent_raw, if_neg hselect, hstmt]; rfl)
    obtain ⟨hlower, hlength⟩ := hkept.mp hsame
    exact ⟨hlower, hlength, hword.mp ((hfetch {}).symm.trans (h.fetch {}))⟩
  · rintro ⟨hlower, hlength, hnext⟩
    have hsame := hkept.mpr ⟨hlower, hlength⟩
    have hselect := hword.mpr hnext
    refine ⟨fun reply stmt' hsent => ?_, fun reply stmt' hsent => ?_,
      fun reply => (hfetch reply).trans hselect,
      fun reply => (hexec reply).trans (not_congr hselect)⟩
    · rw [Fetch_sent_raw] at hsent
      split at hsent
      · rw [prepareRaw_text sql args stmt' hsent, hsame]
      · cases hsent
    · rw [Exec_sent_raw] at hsent
      split at hsent
      · cases hsent
      · rw [prepareRaw_text sql args stmt' hsent, hsame]

end

def userModel : Model where
  className := "User".toList
  conn := some 1

theorem asWritten_selectOne : userModel.conn.isSome ∧
    AsWritten (userModel.Raw " select 1 ".toList []) " select 1 ".toList := by
  have hlower : Util.toLowerCase " select 1 ".toList = " select 1 ".toList := by decide
  have hlength : (" select 1 ".toList.dropWhile isspace).length ≠ 1 := by decide
  have hblank : ((" select 1 ".toList.dropWhile isspace).drop 6).head? = some ' ' := by decide
  refine ⟨rfl, (asWritten_iff " select 1 ".toList [] rfl).mpr
    ⟨toLowerCase_eq_self_iff.mp hlower, hlength, fun _ c hc => ?_⟩⟩
  rw [hblank] at hc
  obtain rfl : ' ' = c := Option.some.inj hc
  decide

def selectBob : Str := "SELECT * FROM user WHERE name = 'Bob'".toList

/-- Another name is looked up. -/
theorem bob_lowered :
    (userModel.Raw selectBob []).rawSql = "select * from user where name = 'bob'".toList ∧
      ¬ ∀ (m : Model) (sql : Str) (args : List Value), m.conn.isSome →
        AsWritten (m.Raw sql args) sql := by
  have hraw : Model.rawText selectBob = "select * from user where name = 'bob'".toList := by decide
  refine ⟨hraw, fun h => ?_⟩
  have hselect : Model.IsSelect selectBob := by decide
  have hstmt : (Statement.prepare (ofStr (Model.rawText selectBob))) ∈
      ((userModel.Raw selectBob []).Fetch {}).sent := by
    rw [Fetch_sent_raw, if_pos hselect]
    rfl
  have htext := (h userModel selectBob [] rfl).fetched {} _ hstmt
  rw [Statement.prepare_sql, text_ofStr, hraw] at htext
  exact absurd htext (by decide)

end TinyOrm

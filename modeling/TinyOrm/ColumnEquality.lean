import TinyOrm.ColumnMigration
set_option autoImplicit false

/-!
`FieldMeta::operator==` as a relation on a set of columns.
-/

namespace TinyOrm

/-! ## Types of one group -/

theorem isSameDbType_iff {conf : Config} {type1 type2 : Str} :
    isSameDbType conf type1 type2 = true ↔ type1 = type2 ∨
      ∃ types, conf.sameTypes type1 = some types ∧ type1 ∈ types ∧ type2 ∈ types := by
  unfold isSameDbType
  cases conf.sameTypes type1 with
  | none => simp
  | some types =>
    by_cases hmem : type1 ∈ types
    · simp only [hmem, if_true, decide_eq_true_eq, Option.some.injEq, exists_eq_left', true_and]
      constructor
      · exact Or.inr
      · rintro (rfl | h)
        · exact hmem
        · exact h
    · simp [hmem]

theorem isSameDbType_symm {conf : Config} (hconf : conf.Grouped) {type1 type2 : Str}
    (h : isSameDbType conf type1 type2 = true) : isSameDbType conf type2 type1 = true := by
  rw [isSameDbType_iff] at h ⊢
  rcases h with rfl | ⟨types, htypes, h1, h2⟩
  · exact .inl rfl
  · have hgroup := hconf _ (mem_of_lookup htypes)
    have hkey : type2.take 3 = type1.take 3 := hgroup type2 h2
    have htypes2 : conf.sameTypes type2 = some types := by
      rw [← htypes, Config.sameTypes, Config.sameTypes, hkey]
    exact .inr ⟨types, htypes2, h2, h1⟩

/-! ## The relation -/

/-- The same text up to letter case, or the two words for the present time. -/
def DefaultsMatch (s1 s2 : Str) : Prop :=
  Util.toLowerCase s1 = Util.toLowerCase s2 ∨
    (Util.toLowerCase s1 = now ∧ Util.toLowerCase s2 = current_timestamp) ∨
    (Util.toLowerCase s1 = current_timestamp ∧ Util.toLowerCase s2 = now)

/-- The comparison returns on every pair and is an equivalence that tells
different defaults apart. -/
structure ColumnEquivalence (conf : Config) (columns : Set FieldMeta) : Prop where
  returns : ∀ a ∈ columns, ∀ b ∈ columns, FieldMeta.eq conf a b ≠ none
  refl : ∀ a ∈ columns, FieldMeta.eq conf a a = some true
  symm : ∀ a ∈ columns, ∀ b ∈ columns,
    FieldMeta.eq conf a b = some true → FieldMeta.eq conf b a = some true
  trans : ∀ a ∈ columns, ∀ b ∈ columns, ∀ c ∈ columns, FieldMeta.eq conf a b = some true →
    FieldMeta.eq conf b c = some true → FieldMeta.eq conf a c = some true
  defaults : ∀ a ∈ columns, ∀ b ∈ columns, ¬ DefaultsMatch a.default_ b.default_ →
    FieldMeta.eq conf a b = some false

/-- Where `isSame` has a return statement for each pair that it is asked for, and
the word NOW() is spelled in one way beside the column that says CURRENT_TIMESTAMP. -/
structure Comparable (conf : Config) (columns : Set FieldMeta) : Prop where
  defaults : ∀ a ∈ columns, ∀ b ∈ columns, a.Alike b → a.default_ = b.default_ ∨
    Util.toLowerCase a.default_ = now ∨ Util.toLowerCase b.default_ = now
  spelling : ∀ a ∈ columns, ∀ b ∈ columns, ∀ c ∈ columns, a.Alike b → b.Alike c →
    isSameDbType conf (a.getColumnType conf) (b.getColumnType conf) = true →
    isSameDbType conf (b.getColumnType conf) (c.getColumnType conf) = true →
    Util.toLowerCase a.default_ = now → Util.toLowerCase b.default_ = current_timestamp →
    Util.toLowerCase c.default_ = now → a.default_ = c.default_

theorem now_ne_current_timestamp : now ≠ current_timestamp := by decide

theorem FieldMeta.Alike.symm {a b : FieldMeta} (h : a.Alike b) : b.Alike a :=
  ⟨h.1.symm, h.2.1.symm, h.2.2.symm⟩

theorem FieldMeta.Alike.trans {a b c : FieldMeta} (h : a.Alike b) (k : b.Alike c) : a.Alike c :=
  ⟨h.1.trans k.1, h.2.1.trans k.2.1, h.2.2.trans k.2.2⟩

theorem FieldMeta.eq_refl (conf : Config) (a : FieldMeta) : FieldMeta.eq conf a a = some true :=
  FieldMeta.eq_of_same conf rfl rfl rfl rfl rfl

theorem FieldMeta.eq_eq_none_iff {conf : Config} {a b : FieldMeta} :
    FieldMeta.eq conf a b = none ↔ a.Alike b ∧ isSame a.default_ b.default_ = none := by
  by_cases halike : a.Alike b
  · simp [FieldMeta.eq_of_alike conf halike, halike]
  · simp [FieldMeta.eq_of_not_alike conf halike, halike]

theorem isSame_symm {s1 s2 : Str} (h : isSame s1 s2 = some true) : isSame s2 s1 = some true := by
  rw [isSame_eq_true_iff] at h ⊢
  rcases h with heq | ⟨h1, h2⟩ | ⟨h1, h2⟩
  · exact .inl heq.symm
  · exact .inr (.inr ⟨h2, h1⟩)
  · exact .inr (.inl ⟨h2, h1⟩)

theorem FieldMeta.eq_symm {conf : Config} (hconf : conf.Grouped) {a b : FieldMeta}
    (h : FieldMeta.eq conf a b = some true) : FieldMeta.eq conf b a = some true := by
  rw [FieldMeta.eq_true_iff] at h ⊢
  obtain ⟨halike, hsame, htype⟩ := h
  exact ⟨halike.symm, isSame_symm hsame, isSameDbType_symm hconf htype⟩

theorem defaultsMatch_of_isSame {s1 s2 : Str} (h : isSame s1 s2 = some true) :
    DefaultsMatch s1 s2 := by
  rcases isSame_eq_true_iff.mp h with rfl | h
  · exact .inl rfl
  · exact .inr h

/-- A comparison that returns is not fooled by different defaults. -/
theorem FieldMeta.eq_false_of_defaults {conf : Config} {a b : FieldMeta}
    (hreturns : FieldMeta.eq conf a b ≠ none) (h : ¬ DefaultsMatch a.default_ b.default_) :
    FieldMeta.eq conf a b = some false := by
  cases heq : FieldMeta.eq conf a b with
  | none => exact absurd heq hreturns
  | some same =>
    cases same with
    | false => rfl
    | true => exact absurd (defaultsMatch_of_isSame (FieldMeta.eq_true_iff.mp heq).2.1) h

/-- What the two conditions say of three defaults in a row. -/
theorem isSame_trans {s1 s2 s3 : Str} (h12 : isSame s1 s2 = some true)
    (h23 : isSame s2 s3 = some true)
    (hspelled : s1 = s3 ∨ Util.toLowerCase s1 = now ∨ Util.toLowerCase s3 = now)
    (hnow : Util.toLowerCase s1 = now → Util.toLowerCase s2 = current_timestamp →
      Util.toLowerCase s3 = now → s1 = s3) : isSame s1 s3 = some true := by
  have hne := now_ne_current_timestamp
  rcases isSame_eq_true_iff.mp h12 with rfl | ⟨h1, h2⟩ | ⟨h1, h2⟩
  · exact h23
  · rcases isSame_eq_true_iff.mp h23 with rfl | ⟨h2', h3⟩ | ⟨h2', h3⟩
    · exact h12
    · exact absurd (h2'.symm.trans h2) hne
    · rw [hnow h1 h2 h3]
      exact isSame_refl s3
  · rcases isSame_eq_true_iff.mp h23 with rfl | ⟨h2', h3⟩ | ⟨h2', h3⟩
    · exact h12
    · have heq : s1 = s3 := by
        rcases hspelled with heq | h | h
        · exact heq
        · exact absurd (h.symm.trans h1) hne
        · exact absurd (h.symm.trans h3) hne
      rw [heq]
      exact isSame_refl s3
    · exact absurd (h2.symm.trans h2') hne

theorem ColumnEquivalence.comparable {conf : Config} {columns : Set FieldMeta}
    (h : ColumnEquivalence conf columns) : Comparable conf columns where
  defaults := by
    intro a ha b hb halike
    have hsame : isSame a.default_ b.default_ ≠ none := by
      intro hnone
      exact h.returns a ha b hb (FieldMeta.eq_eq_none_iff.mpr ⟨halike, hnone⟩)
    by_contra hnot
    simp only [not_or] at hnot
    exact hsame (isSame_eq_none_iff.mpr hnot)
  spelling := by
    intro a ha b hb c hc hab hbc htype1 htype2 h1 h2 h3
    have heq1 : FieldMeta.eq conf a b = some true :=
      FieldMeta.eq_true_iff.mpr ⟨hab, isSame_eq_true_iff.mpr (.inr (.inl ⟨h1, h2⟩)), htype1⟩
    have heq2 : FieldMeta.eq conf b c = some true :=
      FieldMeta.eq_true_iff.mpr ⟨hbc, isSame_eq_true_iff.mpr (.inr (.inr ⟨h2, h3⟩)), htype2⟩
    have heq := (FieldMeta.eq_true_iff.mp (h.trans a ha b hb c hc heq1 heq2)).2.1
    rcases isSame_eq_true_iff.mp heq with heq | ⟨-, h3'⟩ | ⟨h1', -⟩
    · exact heq
    · exact absurd (h3.symm.trans h3') now_ne_current_timestamp
    · exact absurd (h1.symm.trans h1') now_ne_current_timestamp

theorem Comparable.returns {conf : Config} {columns : Set FieldMeta}
    (h : Comparable conf columns) {a b : FieldMeta} (ha : a ∈ columns) (hb : b ∈ columns) :
    FieldMeta.eq conf a b ≠ none := by
  intro hnone
  obtain ⟨halike, hsame⟩ := FieldMeta.eq_eq_none_iff.mp hnone
  obtain ⟨hne, h1, h2⟩ := isSame_eq_none_iff.mp hsame
  rcases h.defaults a ha b hb halike with heq | hnow | hnow
  · exact hne heq
  · exact h1 hnow
  · exact h2 hnow

theorem Comparable.equivalence {conf : Config} (hconf : conf.Grouped) {columns : Set FieldMeta}
    (h : Comparable conf columns) : ColumnEquivalence conf columns where
  returns := fun _ ha _ hb => h.returns ha hb
  refl := fun a _ => FieldMeta.eq_refl conf a
  symm := fun _ _ _ _ => FieldMeta.eq_symm hconf
  trans := by
    intro a ha b hb c hc heq1 heq2
    obtain ⟨hab, hsame1, htype1⟩ := FieldMeta.eq_true_iff.mp heq1
    obtain ⟨hbc, hsame2, htype2⟩ := FieldMeta.eq_true_iff.mp heq2
    refine FieldMeta.eq_true_iff.mpr ⟨hab.trans hbc, ?_, isSameDbType_trans hconf htype1 htype2⟩
    exact isSame_trans hsame1 hsame2 (h.defaults a ha c hc (hab.trans hbc))
      (h.spelling a ha b hb c hc hab hbc htype1 htype2)
  defaults := fun _ ha _ hb => FieldMeta.eq_false_of_defaults (h.returns ha hb)

theorem columnEquivalence_iff {conf : Config} (hconf : conf.Grouped) (columns : Set FieldMeta) :
    ColumnEquivalence conf columns ↔ Comparable conf columns :=
  ⟨ColumnEquivalence.comparable, Comparable.equivalence hconf⟩

def timeColumn (default_ : String) : FieldMeta where
  fieldName := "at".toList
  columnType := some "timestamp".toList
  default_ := default_.toList

theorem columnEquivalence_now :
    ColumnEquivalence rulesJson {timeColumn "NOW()", timeColumn "CURRENT_TIMESTAMP"} := by
  refine (columnEquivalence_iff rulesJson_grouped _).mpr ⟨?_, ?_⟩
  · intro a ha b hb _
    rcases ha with rfl | rfl <;> rcases hb with rfl | rfl <;> decide
  · intro a ha b hb c hc _ _ _ _
    rcases ha with rfl | rfl <;> rcases hb with rfl | rfl <;> rcases hc with rfl | rfl <;> decide

/-- Two other defaults run off the end of `isSame`, and three spellings of the
present time are not transitive. -/
theorem columnEquivalence_fails :
    ¬ ColumnEquivalence rulesJson {timeColumn "0", timeColumn "1"} ∧
      ¬ ColumnEquivalence rulesJson
        {timeColumn "NOW()", timeColumn "CURRENT_TIMESTAMP", timeColumn "now()"} := by
  refine ⟨fun h => ?_, fun h => ?_⟩
  · have hreturns := h.returns (timeColumn "0") (by simp) (timeColumn "1") (by simp)
    exact absurd (by decide) hreturns
  · have htrans := h.trans (timeColumn "NOW()") (by simp) (timeColumn "CURRENT_TIMESTAMP")
      (by simp) (timeColumn "now()") (by simp) (by decide) (by decide)
    exact absurd htrans (by decide)

end TinyOrm

import TinyOrm.Chain
set_option autoImplicit false

/-!
Which chains of builder calls give a well-formed SELECT.
-/

namespace TinyOrm

/-- The operations that end a chain with a SELECT. -/
inductive ReadOp where
  | All
  | First
  deriving DecidableEq, Repr

def ReadOp.limit : ReadOp → Int
  | .All => -1
  | .First => 1

def ReadOp.limitText : ReadOp → Str
  | .All => []
  | .First => " LIMIT 1".toList

/-! ## The grammar -/

def columnText : List Str → Str
  | [] => "*".toList
  | [col] => col
  | col :: next :: cols => col ++ ", ".toList ++ columnText (next :: cols)

/-- `[LIMIT n [OFFSET m]]` -/
inductive LimitClause : Str → Prop
  | none : LimitClause []
  | limit {n : Str} (hn : Digits n) : LimitClause (" LIMIT ".toList ++ n)
  | offset {n m : Str} (hn : Digits n) (hm : Digits m) :
      LimitClause (" LIMIT ".toList ++ n ++ " OFFSET ".toList ++ m)

/-- `{(AND|OR) (c)} [LIMIT n [OFFSET m]]` with exactly these conditions. -/
inductive MoreConditions : List Str → Str → Prop
  | done {s : Str} (h : LimitClause s) : MoreConditions [] s
  | and {c s : Str} {conds : List Str} (h : MoreConditions conds s) :
      MoreConditions (c :: conds) (" AND (".toList ++ c ++ ")".toList ++ s)
  | or {c s : Str} {conds : List Str} (h : MoreConditions conds s) :
      MoreConditions (c :: conds) (" OR (".toList ++ c ++ ")".toList ++ s)

/-- `[WHERE (c) {(AND|OR) (c)}] [LIMIT n [OFFSET m]]` -/
inductive WhereClause : List Str → Str → Prop
  | none {s : Str} (h : LimitClause s) : WhereClause [] s
  | some {c s : Str} {conds : List Str} (h : MoreConditions conds s) :
      WhereClause (c :: conds) (" WHERE (".toList ++ c ++ ")".toList ++ s)

/-- The SELECT statements with these columns and conditions, in this order. -/
def SelectStatement (cols : List Str) (table : Str) (conds : List Str) (s : Str) : Prop :=
  ∃ rest, WhereClause conds rest ∧
    s = "SELECT ".toList ++ columnText cols ++ " FROM ".toList ++ table ++ rest

/-! ## Chains -/

def conditionTexts (calls : List Call) : List Str :=
  calls.filterMap fun call => call.condition.map text

/-- The calls that append a constraint. -/
def effective (calls : List Call) : List Call := calls.filter fun call => call.constraint.isSome

/-- No `Page` takes effect; or exactly one, behind at least one condition and
with nothing behind it. -/
def WellPaged (calls : List Call) (op : ReadOp) : Prop :=
  (∀ call ∈ effective calls, call.condition.isSome) ∨
  (op = .All ∧ ∃ conds pageNum pageSize,
    effective calls = conds ++ [.page pageNum pageSize] ∧ conds ≠ [] ∧
    (∀ call ∈ conds, call.condition.isSome) ∧ 0 ≤ ((pageNum - 1) * pageSize).toInt)

theorem effective_constraints (calls : List Call) :
    (effective calls).filterMap Call.constraint = calls.filterMap Call.constraint := by
  unfold effective
  rw [List.filterMap_filter]
  congr 1
  funext call
  cases h : call.constraint <;> simp

theorem conditionTexts_cons {call : Call} {c : Sql} (es : List Call)
    (h : call.condition = some c) : conditionTexts (call :: es) = text c :: conditionTexts es := by
  simp [conditionTexts, h]

theorem effective_conditionTexts (calls : List Call) :
    conditionTexts (effective calls) = conditionTexts calls := by
  unfold conditionTexts effective
  rw [List.filterMap_filter]
  congr 1
  funext call
  cases call with
  | page pageNum pageSize => simp [Call.condition]
  | _ => simp [Call.constraint, Call.condition]

/-! ## The emitted text -/

theorem Call.counts_cases {call : Call} (h : call.constraint.isSome) :
    (∃ c args, call.condition = some c ∧
      (call.constraint = some (bindVals ⟨c, .AND, []⟩ args) ∨
        call.constraint = some (bindVals ⟨c, .OR, []⟩ args))) ∨
    (∃ pageNum pageSize, call = .page pageNum pageSize ∧ 0 < pageSize.toInt ∧
      call.condition = none ∧
      call.constraint = some ⟨Model.pageText pageNum pageSize, .LIMIT, []⟩) := by
  cases call with
  | select args => simp [Call.constraint] at h
  | cond_and c args => exact Or.inl ⟨c, args, rfl, Or.inl rfl⟩
  | cond_or c args => exact Or.inl ⟨c, args, rfl, Or.inr rfl⟩
  | page pageNum pageSize =>
    right
    by_cases hp : pageSize ≤ 0 ∨ pageNum ≤ 0
    · simp [Call.constraint, hp] at h
    · refine ⟨pageNum, pageSize, rfl, ?_, rfl, by simp [Call.constraint, hp]⟩
      simp only [not_or, Int32.le_iff_toInt_le] at hp
      have := hp.1
      simp only [Int32.toInt_zero] at this
      omega

theorem queryConditions_cond {i : Nat} {c : Constraint} (hc : c.conj ≠ .LIMIT)
    (cs : List Constraint) :
    text (Model.queryConditions i (c :: cs)) =
      (if i > 0 then " ".toList ++ c.conj.text ++ " ".toList else []) ++ "(".toList ++
        text c.condition ++ ")".toList ++ text (Model.queryConditions (i + 1) cs) := by
  by_cases hi : i > 0 <;> simp [Model.queryConditions, hc, hi]

theorem queryConditions_limit {i : Nat} {c : Constraint} (hc : c.conj = .LIMIT)
    (cs : List Constraint) :
    text (Model.queryConditions i (c :: cs)) =
      text c.condition ++ text (Model.queryConditions (i + 1) cs) := by
  simp [Model.queryConditions, hc]

theorem text_pageText (pageNum pageSize : Int32) :
    text (Model.pageText pageNum pageSize) =
      " LIMIT ".toList ++ showInt pageSize.toInt ++ " OFFSET ".toList ++
        showInt ((pageNum - 1) * pageSize).toInt := by
  simp [Model.pageText]

theorem text_selectList (cols : List Str) : text (Model.selectList cols) = columnText cols := by
  induction cols with
  | nil => simp [Model.selectList, columnText]
  | cons col cols ih =>
    cases cols with
    | nil => simp [Model.selectList, columnText]
    | cons next cols => simp [Model.selectList, columnText, ih]

theorem text_queryText (m : Model) (op : ReadOp) :
    text (m.queryText op.limit) =
      "SELECT ".toList ++ columnText m.selectedColumns ++ " FROM ".toList ++ m.getTableName ++
        (text (Model.queryWhere m.constraints) ++ op.limitText) := by
  have hlimit : text (if op.limit > 0 then lit " LIMIT " ++ ofStr (showInt op.limit) else []) =
      op.limitText := by
    cases op <;> decide
  simp only [Model.queryText, text_append, hlimit, text_selectList, text_lit, text_word,
    List.append_assoc]

/-! ## What the grammar forces -/

theorem digits_space_inj {n m s t : Str} (hn : Digits n) (hm : Digits m)
    (h : n ++ ' ' :: s = m ++ ' ' :: t) : s = t := by
  rcases List.append_eq_append_iff.mp h with ⟨a, hma, hs⟩ | ⟨a, hna, ht⟩
  · cases a with
    | nil => simpa using hs
    | cons c a =>
      simp only [List.cons_append, List.cons.injEq] at hs
      exact absurd (show ' ' ∈ m by simp [hma, ← hs.1]) (hm.not_mem rfl)
  · cases a with
    | nil => simpa using ht.symm
    | cons c a =>
      simp only [List.cons_append, List.cons.injEq] at ht
      exact absurd (show ' ' ∈ n by simp [hna, ← ht.1]) (hn.not_mem rfl)

theorem LimitClause.digits_offset {n m : Str} (hn : Digits n)
    (h : LimitClause (" LIMIT ".toList ++ n ++ " OFFSET ".toList ++ m)) : Digits m := by
  generalize hs : " LIMIT ".toList ++ n ++ " OFFSET ".toList ++ m = s at h
  cases h with
  | none => simp at hs
  | @limit n' hn' =>
    have heq : n ++ (" OFFSET ".toList ++ m) = n' := by simpa using hs
    exact absurd (show ' ' ∈ n' by simp [← heq]) (hn'.not_mem rfl)
  | @offset n' m' hn' hm' =>
    have heq : n ++ ' ' :: ("OFFSET ".toList ++ m) = n' ++ ' ' :: ("OFFSET ".toList ++ m') := by
      simpa using hs
    have hmm : m = m' := by simpa using digits_space_inj hn hn' heq
    rwa [hmm]

theorem MoreConditions.cons_inv {c s : Str} {conds : List Str} (h : MoreConditions (c :: conds) s) :
    ∃ s', MoreConditions conds s' ∧
      (s = " AND (".toList ++ c ++ ")".toList ++ s' ∨
        s = " OR (".toList ++ c ++ ")".toList ++ s') := by
  cases h with
  | and h => exact ⟨_, h, Or.inl rfl⟩
  | or h => exact ⟨_, h, Or.inr rfl⟩

/-- A condition is one of the grammar's: the connectives differ in their first letter, so
the texts cancel. -/
theorem moreConditions_tail {call : Call} {es : List Call} {c : Sql} {args : List Value} {i : Nat}
    {tail : Str} (hi : 0 < i) (hcond : call.condition = some c)
    (hcons : call.constraint = some (bindVals ⟨c, .AND, []⟩ args) ∨
      call.constraint = some (bindVals ⟨c, .OR, []⟩ args))
    (h : MoreConditions (conditionTexts (call :: es))
      (text (Model.queryConditions i ((call :: es).filterMap Call.constraint)) ++ tail)) :
    MoreConditions (conditionTexts es)
      (text (Model.queryConditions (i + 1) (es.filterMap Call.constraint)) ++ tail) := by
  rw [conditionTexts_cons es hcond] at h
  obtain ⟨s', hs', heq⟩ := h.cons_inv
  rcases hcons with hcons | hcons
  · rw [List.filterMap_cons_some hcons, queryConditions_cond (by simp [bindVals_eq])] at heq
    rcases heq with heq | heq
    · simp [hi, bindVals_eq, Conj.text] at heq
      rwa [heq]
    · simp [hi, bindVals_eq, Conj.text] at heq
  · rw [List.filterMap_cons_some hcons, queryConditions_cond (by simp [bindVals_eq])] at heq
    rcases heq with heq | heq
    · simp [hi, bindVals_eq, Conj.text] at heq
    · simp [hi, bindVals_eq, Conj.text] at heq
      rwa [heq]

/-- An offset is written with a digit in front, and with nothing but digits. -/
theorem offset_of_digits {n : Int} {s : Str} (h : Digits (showInt n ++ s)) : 0 ≤ n := by
  by_contra hneg
  obtain ⟨t, ht⟩ := showInt_of_neg (Int.not_le.mp hneg)
  rw [ht] at h
  have hdash := h.2 '-' (List.mem_append_left _ List.mem_cons_self)
  exact absurd hdash (by decide)

/-- Behind the offset of a page there is no blank, and so nothing else. -/
theorem last_of_page {op : ReadOp} {es : List Call} (hes : ∀ call ∈ es, call.constraint.isSome)
    (htexts : conditionTexts es = []) {i : Nat} {pageNum pageSize : Int32}
    (hsize : 0 < pageSize.toInt)
    (h : LimitClause (text (Model.pageText pageNum pageSize) ++
      text (Model.queryConditions i (es.filterMap Call.constraint)) ++ op.limitText)) :
    op = .All ∧ es = [] ∧ 0 ≤ ((pageNum - 1) * pageSize).toInt := by
  rw [text_pageText] at h
  have hdig := @LimitClause.digits_offset _ (showInt ((pageNum - 1) * pageSize).toInt ++
    (text (Model.queryConditions i (es.filterMap Call.constraint)) ++ op.limitText))
    (digits_showInt (Int.le_of_lt hsize)) (by simpa using h)
  have hspace := hdig.not_mem (show Char.isDigit ' ' = false from rfl)
  refine ⟨?_, ?_, offset_of_digits hdig⟩
  · cases op with
    | All => rfl
    | First =>
      have hmem : ' ' ∈ ReadOp.First.limitText := by decide
      exact absurd (List.mem_append_right _ (List.mem_append_right _ hmem)) hspace
  · cases es with
    | nil => rfl
    | cons e es =>
      rcases Call.counts_cases (hes e (by simp)) with
        ⟨c, args, hc, -⟩ | ⟨p, s, rfl, -, -, hcons⟩
      · simp [conditionTexts, hc] at htexts
      · rw [List.filterMap_cons_some hcons, queryConditions_limit rfl, text_pageText] at hspace
        simp at hspace

/-- What stands behind the first condition. -/
theorem paged_of_moreConditions {op : ReadOp} (es : List Call)
    (hes : ∀ call ∈ es, call.constraint.isSome) {i : Nat} (hi : 0 < i)
    (h : MoreConditions (conditionTexts es)
      (text (Model.queryConditions i (es.filterMap Call.constraint)) ++ op.limitText)) :
    (∀ call ∈ es, call.condition.isSome) ∨
    (op = .All ∧ ∃ conds pageNum pageSize, es = conds ++ [.page pageNum pageSize] ∧
      (∀ call ∈ conds, call.condition.isSome) ∧ 0 ≤ ((pageNum - 1) * pageSize).toInt) := by
  induction es generalizing i with
  | nil => simp
  | cons call es ih =>
    have hes' : ∀ e ∈ es, e.constraint.isSome := fun e he => hes e (by simp [he])
    rcases Call.counts_cases (hes call (by simp)) with
      ⟨c, args, hcond, hcons⟩ | ⟨pageNum, pageSize, rfl, hsize, hcond, hcons⟩
    · have hcall : call.condition.isSome := by simp [hcond]
      rcases ih hes' (Nat.succ_pos i) (moreConditions_tail hi hcond hcons h) with
        hall | ⟨hop, conds, p, s, rfl, hconds, hoff⟩
      · exact Or.inl (List.forall_mem_cons.mpr ⟨hcall, hall⟩)
      · exact Or.inr ⟨hop, call :: conds, p, s, rfl,
          List.forall_mem_cons.mpr ⟨hcall, hconds⟩, hoff⟩
    · right
      have htexts : conditionTexts (.page pageNum pageSize :: es) = conditionTexts es := by
        simp [conditionTexts, hcond]
      rw [htexts, List.filterMap_cons_some hcons, queryConditions_limit rfl] at h
      cases hct : conditionTexts es with
      | cons c conds =>
        rw [hct, text_pageText] at h
        obtain ⟨s', -, heq⟩ := h.cons_inv
        rcases heq with heq | heq <;> simp at heq
      | nil =>
        rw [hct] at h
        cases h with
        | done h =>
          obtain ⟨hop, rfl, hoff⟩ := last_of_page hes' hct hsize h
          exact ⟨hop, [], pageNum, pageSize, rfl, by simp, hoff⟩

theorem WhereClause.cons_inv {c s : Str} {conds : List Str} (h : WhereClause (c :: conds) s) :
    ∃ s', MoreConditions conds s' ∧ s = " WHERE (".toList ++ c ++ ")".toList ++ s' := by
  cases h with
  | some h => exact ⟨_, h, rfl⟩

theorem LimitClause.head {s : Str} (h : LimitClause s) :
    s = [] ∨ ∃ t, s = " LIMIT ".toList ++ t := by
  cases h with
  | none => exact Or.inl rfl
  | limit hn => exact Or.inr ⟨_, rfl⟩
  | offset hn hm => exact Or.inr ⟨_, by rw [List.append_assoc, List.append_assoc]⟩

theorem paged_of_whereClause {op : ReadOp} (es : List Call)
    (hes : ∀ call ∈ es, call.constraint.isSome)
    (h : WhereClause (conditionTexts es)
      (text (Model.queryWhere (es.filterMap Call.constraint)) ++ op.limitText)) :
    (∀ call ∈ es, call.condition.isSome) ∨
    (op = .All ∧ ∃ conds pageNum pageSize, es = conds ++ [.page pageNum pageSize] ∧ conds ≠ [] ∧
      (∀ call ∈ conds, call.condition.isSome) ∧ 0 ≤ ((pageNum - 1) * pageSize).toInt) := by
  cases es with
  | nil => simp
  | cons call es =>
    have hes' : ∀ e ∈ es, e.constraint.isSome := fun e he => hes e (by simp [he])
    rcases Call.counts_cases (hes call (by simp)) with
      ⟨c, args, hcond, hcons⟩ | ⟨pageNum, pageSize, rfl, -, hcond, hcons⟩
    · have hmore : MoreConditions (conditionTexts es)
          (text (Model.queryConditions 1 (es.filterMap Call.constraint)) ++ op.limitText) := by
        rw [conditionTexts_cons es hcond] at h
        obtain ⟨s', hs', heq⟩ := h.cons_inv
        rcases hcons with hcons | hcons
        all_goals
          rw [List.filterMap_cons_some hcons] at heq
          simp only [Model.queryWhere, reduceCtorEq, if_false, text_append] at heq
          rw [queryConditions_cond (by simp [bindVals_eq])] at heq
          simp [bindVals_eq] at heq
          rwa [heq]
      have hcall : call.condition.isSome := by simp [hcond]
      rcases paged_of_moreConditions es hes' Nat.one_pos hmore with
        hall | ⟨hop, conds, p, s, rfl, hconds, hoff⟩
      · exact Or.inl (List.forall_mem_cons.mpr ⟨hcall, hall⟩)
      · exact Or.inr ⟨hop, call :: conds, p, s, rfl, by simp,
          List.forall_mem_cons.mpr ⟨hcall, hconds⟩, hoff⟩
    · rw [List.filterMap_cons_some hcons] at h
      simp only [Model.queryWhere, reduceCtorEq, if_false, text_append] at h
      rw [queryConditions_limit rfl, text_pageText] at h
      cases hct : conditionTexts (.page pageNum pageSize :: es) with
      | cons c conds =>
        rw [hct] at h
        obtain ⟨s', -, heq⟩ := h.cons_inv
        simp at heq
      | nil =>
        rw [hct] at h
        cases h with
        | none h =>
          rcases h.head with heq | ⟨t, heq⟩
          · simp at heq
          · simp at heq

/-- Conditions, and then a tail that is a LIMIT clause. -/
theorem moreConditions_of_conds {op : ReadOp} {tail : List Constraint}
    (htail : ∀ i, LimitClause (text (Model.queryConditions i tail) ++ op.limitText))
    (es : List Call) (hes : ∀ call ∈ es, call.condition.isSome) {i : Nat} (hi : 0 < i) :
    MoreConditions (conditionTexts es)
      (text (Model.queryConditions i (es.filterMap Call.constraint ++ tail)) ++ op.limitText) := by
  induction es generalizing i with
  | nil => exact .done (htail i)
  | cons call es ih =>
    have ih' := @ih (fun e he => hes e (by simp [he])) (i + 1) (by omega)
    have hcall := hes call (by simp)
    cases call with
    | cond_and c args =>
      rw [List.filterMap_cons_some (Call.constraint_cond_and c args), List.cons_append,
        queryConditions_cond (by simp [bindVals_eq])]
      simpa [conditionTexts, Call.condition, hi, bindVals_eq, Conj.text] using ih'.and
    | cond_or c args =>
      rw [List.filterMap_cons_some (Call.constraint_cond_or c args), List.cons_append,
        queryConditions_cond (by simp [bindVals_eq])]
      simpa [conditionTexts, Call.condition, hi, bindVals_eq, Conj.text] using ih'.or
    | _ => simp [Call.condition] at hcall

theorem whereClause_of_conds {op : ReadOp} {tail : List Constraint}
    (htail : ∀ i, LimitClause (text (Model.queryConditions i tail) ++ op.limitText))
    (call : Call) (es : List Call) (hcall : call.condition.isSome)
    (hes : ∀ e ∈ es, e.condition.isSome) :
    WhereClause (conditionTexts (call :: es))
      (text (Model.queryWhere ((call :: es).filterMap Call.constraint ++ tail)) ++
        op.limitText) := by
  have hmore := moreConditions_of_conds htail es hes Nat.one_pos
  cases call with
  | cond_and c args =>
    rw [List.filterMap_cons_some (Call.constraint_cond_and c args), List.cons_append]
    simp only [Model.queryWhere, reduceCtorEq, if_false, text_append]
    rw [queryConditions_cond (by simp [bindVals_eq])]
    simpa [conditionTexts, Call.condition, bindVals_eq] using WhereClause.some hmore
  | cond_or c args =>
    rw [List.filterMap_cons_some (Call.constraint_cond_or c args), List.cons_append]
    simp only [Model.queryWhere, reduceCtorEq, if_false, text_append]
    rw [queryConditions_cond (by simp [bindVals_eq])]
    simpa [conditionTexts, Call.condition, bindVals_eq] using WhereClause.some hmore
  | _ => simp [Call.condition] at hcall

theorem limitClause_limitText (op : ReadOp) : LimitClause op.limitText := by
  cases op with
  | All => exact .none
  | First =>
    have hone : Digits ['1'] := ⟨List.cons_ne_nil _ _, fun c hc => List.mem_singleton.mp hc ▸ rfl⟩
    exact LimitClause.limit hone

theorem limitClause_page {pageNum pageSize : Int32} (hsize : 0 < pageSize.toInt)
    (hoff : 0 ≤ ((pageNum - 1) * pageSize).toInt) (i : Nat) :
    LimitClause (text (Model.queryConditions i [⟨Model.pageText pageNum pageSize, .LIMIT, []⟩]) ++
      ReadOp.limitText .All) := by
  have hrest : text (Model.queryConditions (i + 1) []) ++ ReadOp.limitText .All = [] := rfl
  rw [queryConditions_limit rfl, text_pageText, List.append_assoc, hrest, List.append_nil]
  exact LimitClause.offset (digits_showInt (Int.le_of_lt hsize)) (digits_showInt hoff)

theorem whereClause_of_wellPaged {calls : List Call} {op : ReadOp} (h : WellPaged calls op) :
    WhereClause (conditionTexts (effective calls))
      (text (Model.queryWhere ((effective calls).filterMap Call.constraint)) ++ op.limitText) := by
  have heff : ∀ call ∈ effective calls, call.constraint.isSome := by
    intro call hcall
    simpa using (List.mem_filter.mp hcall).2
  rcases h with hall | ⟨rfl, conds, p, s, heq, hne, hconds, hoff⟩
  · cases hes : effective calls with
    | nil => exact .none (by simpa [Model.queryWhere] using limitClause_limitText op)
    | cons call es =>
      rw [hes] at hall
      have htail : ∀ i, LimitClause (text (Model.queryConditions i []) ++ op.limitText) := fun i =>
        by simpa [Model.queryConditions] using limitClause_limitText op
      have hwhere := whereClause_of_conds htail call es (hall call (by simp))
        (fun e he => hall e (by simp [he]))
      rwa [List.append_nil] at hwhere
  · cases conds with
    | nil => exact absurd rfl hne
    | cons call es =>
      have hpage := heff (.page p s) (by simp [heq])
      rcases Call.counts_cases hpage with ⟨c, args, hc, -⟩ | ⟨p', s', hps, hsize, hc, hcons⟩
      · simp [Call.condition] at hc
      · cases hps
        have hwhere :=
          whereClause_of_conds (limitClause_page hsize hoff) call es (hconds call (by simp))
          (fun e he => hconds e (by simp [he]))
        have htexts : conditionTexts (effective calls) = conditionTexts (call :: es) := by
          rw [heq]
          simp only [conditionTexts, List.filterMap_append]
          simp [hc]
        have hcs : (effective calls).filterMap Call.constraint =
            (call :: es).filterMap Call.constraint ++ [⟨Model.pageText p s, .LIMIT, []⟩] := by
          rw [heq, List.filterMap_append]
          simp [hcons]
        rw [htexts, hcs]
        exact hwhere

theorem selectStatement_iff (cols : List Str) (table : Str) (conds : List Str) (rest : Str) :
    SelectStatement cols table conds
      ("SELECT ".toList ++ columnText cols ++ " FROM ".toList ++ table ++ rest) ↔
      WhereClause conds rest := by
  constructor
  · rintro ⟨rest', h, heq⟩
    rwa [List.append_cancel_left heq]
  · exact fun h => ⟨rest, h, rfl⟩

/-- The text of a chain on a fresh model, cut at the WHERE clause. -/
theorem text_chain {m : Model} (hm : m.Fresh) (calls : List Call) (op : ReadOp) :
    text ((m.calls calls).queryText op.limit) =
      "SELECT ".toList ++ columnText (calls.flatMap Call.columns) ++ " FROM ".toList ++
        m.getTableName ++
        (text (Model.queryWhere ((effective calls).filterMap Call.constraint)) ++
          op.limitText) := by
  rw [text_queryText, hm.calls_selectedColumns, hm.calls_constraints, Model.calls_getTableName,
    effective_constraints]

theorem effective_isSome {calls : List Call} : ∀ call ∈ effective calls,
    call.constraint.isSome := by
  intro call hcall
  simpa using (List.mem_filter.mp hcall).2

/-- A `Page` with nothing to select from before it. -/
theorem queryText_page_alone :
    ¬ SelectStatement [] "user".toList []
      (text ((({ className := "User".toList } : Model).calls [.page 1 10]).queryText
        (ReadOp.limit .All))) := by
  intro h
  have hm : ({ className := "User".toList } : Model).Fresh := ⟨rfl, rfl⟩
  rw [text_chain hm] at h
  have htable : Model.getTableName { className := "User".toList } = "user".toList := by decide
  rw [htable] at h
  have hwhere := (selectStatement_iff _ _ _ _).mp h
  rcases paged_of_whereClause [.page 1 10] (by decide) hwhere with hall | ⟨-, conds, p, s, heq, hne,
    -⟩
  · exact absurd (hall (.page 1 10) (by simp)) (by decide)
  · cases conds with
    | nil => exact hne rfl
    | cons c conds => simp at heq

/-- The text of a chain is in the grammar exactly if the chain is well paged. -/
theorem queryText_selectStatement {m : Model} (hm : m.Fresh) (calls : List Call) (op : ReadOp) :
    SelectStatement (calls.flatMap Call.columns) m.getTableName (conditionTexts calls)
      (text ((m.calls calls).queryText op.limit)) ↔ WellPaged calls op := by
  rw [text_chain hm, selectStatement_iff, ← effective_conditionTexts]
  constructor
  · exact paged_of_whereClause _ effective_isSome
  · exact whereClause_of_wellPaged

theorem queryText_selectStatement_sample :
    SelectStatement ["id".toList] "user".toList ["age > ?".toList]
      (text ((({ className := "User".toList } : Model).calls
        [.select ["id".toList], .cond_and (word "age > ?".toList) [.int 18], .page 2 10]).queryText
          (ReadOp.limit .All))) :=
  (queryText_selectStatement (m := { className := "User".toList }) ⟨rfl, rfl⟩
    [.select ["id".toList], .cond_and (word "age > ?".toList) [.int 18], .page 2 10] .All).mpr
    (Or.inr ⟨rfl, [.cond_and (word "age > ?".toList) [.int 18]], 2, 10, rfl, by simp,
      by simp [Call.condition], by decide⟩)

end TinyOrm

import TinyOrm.Binding
import TinyOrm.RowFilter
import TinyOrm.Lib.BoolJoin
set_option autoImplicit false

/-!
The predicate that the server reads from a WHERE clause together with the parameters
bound to it.
-/

namespace TinyOrm

open BoolExpr

/-! ## Atomic predicates and their parameters -/

/-- An atomic predicate with what is bound to its placeholders. -/
abbrev BoundAtom := Str × List (Option Param)

def tokMarks : BoolTok Str → Nat
  | .atom s => s.count '?'
  | _ => 0

def marksOf (ts : List (BoolTok Str)) : Nat := (ts.map tokMarks).sum

/-- The atomic predicates take the parameters from the left. -/
def attach : List (Option Param) → List (BoolTok Str) → List (BoolTok BoundAtom)
  | _, [] => []
  | params, .atom s :: ts =>
    .atom (s, params.take (s.count '?')) :: attach (params.drop (s.count '?')) ts
  | params, .lpar :: ts => .lpar :: attach params ts
  | params, .rpar :: ts => .rpar :: attach params ts
  | params, .and :: ts => .and :: attach params ts
  | params, .or :: ts => .or :: attach params ts
  | params, .not :: ts => .not :: attach params ts

def readPredicate (sql : Sql) (params : List (Option Param)) : Option (BoolExpr BoundAtom) :=
  (lex sql).bind fun ts => parse (attach params ts)

/-- `some none` where there is no clause. -/
def readBoundWhere (clause : Sql) (params : List (Option Param)) :
    Option (Option (BoolExpr BoundAtom)) :=
  if clause = [] then some none
  else if (lit " WHERE ").isPrefixOf clause then
    (readPredicate (clause.drop 7) params).map some
  else none

/-- A row is selected where the predicate is true, not where it is unknown. -/
def selectsBound (predicate : Option (BoolExpr BoundAtom)) (row : BoundAtom → Option Bool) : Bool :=
  match predicate with
  | none => true
  | some e => e.holds row

theorem attach_kind (params : List (Option Param)) (ts : List (BoolTok Str)) :
    (attach params ts).map BoolTok.kind = ts.map BoolTok.kind := by
  induction ts generalizing params with
  | nil => rfl
  | cons t ts ih => cases t <;> simp [attach, BoolTok.kind, ih]

theorem attach_append (params : List (Option Param)) (ts us : List (BoolTok Str)) :
    attach params (ts ++ us) = attach params ts ++ attach (params.drop (marksOf ts)) us := by
  induction ts generalizing params with
  | nil => simp [attach, marksOf]
  | cons t ts ih =>
    cases t with
    | atom s =>
      have hdrop : marksOf (.atom s :: ts) = s.count '?' + marksOf ts := rfl
      rw [List.cons_append, attach, ih, hdrop, ← List.drop_drop]
      rfl
    | _ =>
      have hdrop (t : BoolTok Str) (h : tokMarks t = 0) : marksOf (t :: ts) = marksOf ts := by
        simp [marksOf, h]
      rw [List.cons_append, attach, ih, hdrop _ rfl]
      rfl

/-- Further parameters stay for what follows. -/
theorem attach_take {params : List (Option Param)} {ts : List (BoolTok Str)}
    (h : marksOf ts ≤ params.length) (more : List (Option Param)) :
    attach (params ++ more) ts = attach params ts := by
  induction ts generalizing params with
  | nil => rfl
  | cons t ts ih =>
    cases t with
    | atom s =>
      have hle : s.count '?' + marksOf ts ≤ params.length := h
      have htail : marksOf ts ≤ (params.drop (s.count '?')).length := by
        rw [List.length_drop]
        omega
      rw [attach, attach, List.take_append_of_le_length (by omega),
        List.drop_append_of_le_length (by omega), ih htail]
    | _ =>
      have hle : marksOf ts ≤ params.length := by simpa [marksOf, tokMarks] using h
      rw [attach, attach, ih hle]

/-- Only the words of a text have placeholders. -/
theorem marksOf_lexFrom {pending : Str} {sql : Sql} {ts : List (BoolTok Str)}
    (h : lexFrom pending sql = some ts) : marksOf ts = placeholders sql := by
  have hflush : ∀ {pending : Str} {rest : Option (List (BoolTok Str))} {ts : List (BoolTok Str)}
      {n : Nat}, flush pending rest = some ts → (∀ us, rest = some us → marksOf us = n) →
      marksOf ts = n := by
    intro pending rest ts n hts hrest
    rcases flush_eq_some hts with ⟨-, heq⟩ | ⟨t, us, -, hkey, heq, rfl⟩
    · exact hrest ts heq
    · have hzero : tokMarks t = 0 := by
        unfold keyword at hkey
        split at hkey
        · cases hkey; rfl
        · split at hkey
          · cases hkey; rfl
          · split at hkey
            · cases hkey; rfl
            · cases hkey
      rw [← hrest us heq]
      simp [marksOf, hzero]
  have htok {t : BoolTok Str} {rest : Option (List (BoolTok Str))} {n : Nat}
      (hrest : ∀ us, rest = some us → marksOf us = n) (us : List (BoolTok Str))
      (hus : rest.map (t :: ·) = some us) : marksOf us = tokMarks t + n := by
    obtain ⟨vs, hvs, rfl⟩ := Option.map_eq_some_iff.mp hus
    rw [← hrest vs hvs]
    rfl
  induction sql generalizing pending ts with
  | nil => exact hflush h fun us hus => by cases hus; rfl
  | cons s sql ih =>
    cases s with
    | word w =>
      have hmarks : placeholders (.word w :: sql) = w.count '?' + placeholders sql := by
        simp [placeholders, text, Sym.text]
      rw [hmarks]
      exact hflush h (htok (t := .atom w) fun us hus => ih hus)
    | ch c =>
      rw [lexFrom] at h
      have hmarks (hc : c ≠ '?') : placeholders (.ch c :: sql) = placeholders sql := by
        simp [placeholders, text, Sym.text, hc]
      by_cases halpha : c.isAlpha
      · rw [if_pos halpha] at h
        rw [hmarks (by rintro rfl; exact absurd halpha (by decide))]
        exact ih h
      · rw [if_neg halpha] at h
        by_cases hspace : isspace c
        · rw [if_pos hspace] at h
          rw [hmarks (by rintro rfl; exact absurd hspace (by decide))]
          exact hflush h fun us hus => ih hus
        · rw [if_neg hspace] at h
          by_cases hl : c = '('
          · rw [if_pos hl] at h
            subst hl
            rw [hmarks (by decide)]
            refine hflush h fun us hus => ?_
            have hmore := htok (t := .lpar) (fun us hus => ih hus) us hus
            simpa [tokMarks] using hmore
          · rw [if_neg hl] at h
            by_cases hr : c = ')'
            · rw [if_pos hr] at h
              subst hr
              rw [hmarks (by decide)]
              refine hflush h fun us hus => ?_
              have hmore := htok (t := .rpar) (fun us hus => ih hus) us hus
              simpa [tokMarks] using hmore
            · rw [if_neg hr] at h
              cases h

theorem marksOf_lex {sql : Sql} {ts : List (BoolTok Str)} (h : lex sql = some ts) :
    marksOf ts = placeholders sql := marksOf_lexFrom h

/-! ## One condition -/

theorem readPredicate_lex {sql : Sql} {params : List (Option Param)} {e : BoolExpr BoundAtom}
    (h : readPredicate sql params = some e) :
    ∃ ts, lex sql = some ts ∧ parse (attach params ts) = some e ∧ Placed ts ∧
      ∀ t ∈ ts.getLast?, t.Closes := by
  obtain ⟨ts, hlex, hparse⟩ := Option.bind_eq_some_iff.mp h
  have hplaced : Placed ts := by
    have hp := placed_of_parse hparse
    rw [← placed_kind, attach_kind, placed_kind] at hp
    exact hp
  refine ⟨ts, hlex, hparse, hplaced, fun t ht => ?_⟩
  obtain ⟨s, hs, hc⟩ := hplaced.last
  rw [Option.mem_def] at hs ht
  rw [hs] at ht
  cases ht
  exact hc

/-- The text is an operand: parentheses stand around it or it has no OR outside of
parentheses. -/
structure ReadsAs (sql : Sql) (params : List (Option Param)) (e : BoolExpr BoundAtom) : Prop where
  tokens : ∃ ts, lex sql = some ts ∧ Operand (attach params ts) e ∧ ∀ t ∈ ts.getLast?, t.Closes
  marks : placeholders sql = params.length

theorem ReadsAs.predicate {sql : Sql} {params : List (Option Param)} {e : BoolExpr BoundAtom}
    (h : ReadsAs sql params e) : readPredicate sql params = some e := by
  obtain ⟨ts, hlex, hoperand, -⟩ := h.tokens
  rw [readPredicate, hlex, Option.bind_some, hoperand.parse]

def parens (sql : Sql) : Sql := lit "(" ++ sql ++ lit ")"

theorem lex_parens {sql : Sql} {ts : List (BoolTok Str)} (hlex : lex sql = some ts)
    (hlast : ∀ t ∈ ts.getLast?, t.Closes) :
    lex (parens sql) = some (.lpar :: ts ++ [.rpar]) := by
  have hrpar : lex (lit ")") = some [.rpar] := by decide
  have happend := lexFrom_append (lit ")") hlex hlast
  rw [parens, List.append_assoc, lex_lpar, lex, happend]
  simp only [lex] at hrpar
  simp [hrpar]

theorem readsAs_parens {sql : Sql} {params : List (Option Param)} {e : BoolExpr BoundAtom}
    (h : readPredicate sql params = some e) (hmarks : placeholders sql = params.length) :
    ReadsAs (parens sql) params e := by
  obtain ⟨ts, hlex, hparse, -, hlast⟩ := readPredicate_lex h
  have hl : placeholders (lit "(") = 0 := by decide
  have hr : placeholders (lit ")") = 0 := by decide
  refine ⟨⟨_, lex_parens hlex hlast, ?_, ?_⟩, ?_⟩
  · have hattach : attach params (.lpar :: ts ++ [.rpar]) =
        .lpar :: attach params ts ++ [.rpar] := by
      rw [List.cons_append, attach, attach_append]
      rfl
    rw [hattach]
    exact Operand.parens hparse
  · intro t ht
    rw [List.cons_append, ← List.cons_append, List.getLast?_concat, Option.mem_some_iff] at ht
    subst ht
    trivial
  · rw [parens, placeholders_append, placeholders_append, hl, hr, hmarks]
    omega

/-! ## Conditions in a row -/

def Conj.join : Conj → Join
  | .OR => .or
  | _ => .and

/-- Conditions from the second one on, each with its connective before it. -/
def joinedText (render : Sql → Sql) (cs : List Constraint) : Sql :=
  cs.flatMap fun c => lit " " ++ ofStr c.conj.text ++ lit " " ++ render c.condition

theorem queryConditions_joined (i : Nat) {cs : List Constraint} (h : ∀ c ∈ cs, c.conj ≠ .LIMIT) :
    Model.queryConditions (i + 1) cs = joinedText parens cs := by
  induction cs generalizing i with
  | nil => rfl
  | cons c cs ih =>
    have hc := h c (by simp)
    have hmore := ih (i + 1) fun c hc => h c (by simp [hc])
    simp [Model.queryConditions, joinedText, parens, hc, hmore]

theorem joinConditions_joined (i : Nat) (cs : List Constraint) :
    Model.joinConditions (i + 2) cs = joinedText id cs := by
  induction cs generalizing i with
  | nil => rfl
  | cons c cs ih =>
    have hmore := ih (i + 1)
    simp [Model.joinConditions, joinedText, hmore]

/-- What is built of a `Where` or of an `Or`. -/
structure Constraint.Written (render : Sql → Sql) (c : Constraint)
    (p : List (Option Param) × BoolExpr BoundAtom) : Prop where
  conj : c.conj = .AND ∨ c.conj = .OR
  reads : ReadsAs (render c.condition) p.1 p.2

theorem lex_conj {conj : Conj} (h : conj = .AND ∨ conj = .OR) (sql : Sql) :
    lex (lit " " ++ ofStr conj.text ++ lit " " ++ sql) = (lex sql).map (conj.join.tok :: ·) := by
  have hflush (s : Str) (t : BoolTok Str) (hs : s ≠ []) (hk : keyword s = some t) :
      flush s (lexFrom [] sql) = (lexFrom [] sql).map (t :: ·) := by
    cases lexFrom [] sql <;> simp [flush, hs, hk]
  rcases h with rfl | rfl
  · exact hflush "AND".toList .and (by decide) (by decide)
  · exact hflush "OR".toList .or (by decide) (by decide)

/-- The tokens of the conditions, cut at the connectives, and their parameters. -/
theorem joinedText_tokens {render : Sql → Sql} {cs : List Constraint}
    {ps : List (List (Option Param) × BoolExpr BoundAtom)}
    (h : List.Forall₂ (Constraint.Written render) cs ps) :
    ∃ more, lex (joinedText render cs) = some (moreToks more) ∧
      ∃ more', attach (ps.flatMap Prod.fst) (moreToks more) = moreToks more' ∧
        Operands more' ((cs.zip ps).map fun q => (q.1.conj.join, q.2.2)) := by
  induction h with
  | nil => exact ⟨[], rfl, [], rfl, .nil⟩
  | @cons c p cs ps hc _ ih =>
    obtain ⟨more, hlex, more', hattach, hops⟩ := ih
    obtain ⟨ts, hts, hoperand, hlast⟩ := hc.reads.tokens
    have hmarks : marksOf ts = p.1.length := (marksOf_lex hts).trans hc.reads.marks
    have htok : tokMarks (c.conj.join.tok) = 0 := by cases c.conj <;> rfl
    refine ⟨(c.conj.join, ts) :: more, ?_, (c.conj.join, attach p.1 ts) :: more', ?_, ?_⟩
    · have hcons : joinedText render (c :: cs) =
          lit " " ++ ofStr c.conj.text ++ lit " " ++
            (render c.condition ++ joinedText render cs) := by
        simp [joinedText]
      have happend := lexFrom_append (joinedText render cs) hts hlast
      rw [hcons, lex_conj hc.conj, lex, happend]
      rw [lex] at hlex
      simp [hlex, moreToks]
    · have hfirst : attach (p.1 ++ ps.flatMap Prod.fst)
          (c.conj.join.tok :: ts ++ moreToks more) =
          c.conj.join.tok :: attach p.1 ts ++ moreToks more' := by
        have hcut : (p.1 ++ ps.flatMap Prod.fst).drop (marksOf (c.conj.join.tok :: ts)) =
            ps.flatMap Prod.fst := by
          have hsum : marksOf (c.conj.join.tok :: ts) = p.1.length := by
            rw [← hmarks]
            simp [marksOf, htok]
          rw [hsum, List.drop_left]
        have hhead : attach (p.1 ++ ps.flatMap Prod.fst) (c.conj.join.tok :: ts) =
            c.conj.join.tok :: attach p.1 ts := by
          have htake : attach (p.1 ++ ps.flatMap Prod.fst) ts = attach p.1 ts :=
            attach_take (by omega) (ps.flatMap Prod.fst)
          rw [← htake]
          cases c.conj <;> rfl
        rw [attach_append, hcut, hattach, hhead]
      simpa [moreToks] using hfirst
    · exact .cons ⟨rfl, hoperand⟩ hops

theorem readPredicate_joined {render : Sql → Sql} {sql : Sql} {params : List (Option Param)}
    {e : BoolExpr BoundAtom} {cs : List Constraint}
    {ps : List (List (Option Param) × BoolExpr BoundAtom)} (hfirst : ReadsAs sql params e)
    (h : List.Forall₂ (Constraint.Written render) cs ps) :
    ∃ e', readPredicate (sql ++ joinedText render cs) (params ++ ps.flatMap Prod.fst) = some e' ∧
      ∀ row, e'.holds row =
        someRun (holds row) [e] ((cs.zip ps).map fun q => (q.1.conj.join, q.2.2)) := by
  obtain ⟨ts, hts, hoperand, hlast⟩ := hfirst.tokens
  obtain ⟨more, hlex, more', hattach, hops⟩ := joinedText_tokens h
  obtain ⟨e', hparse, htruth⟩ := parse_joinToks hoperand hops
  have hmarks : marksOf ts = params.length := (marksOf_lex hts).trans hfirst.marks
  refine ⟨e', ?_, htruth⟩
  have happend := lexFrom_append (joinedText render cs) hts hlast
  rw [lex] at hlex
  rw [readPredicate, lex, happend, hlex]
  simp only [Option.map_some, Option.bind_some]
  rw [attach_append, hmarks, List.drop_left, hattach, attach_take (by omega), ← joinToks_eq,
    hparse]

end TinyOrm

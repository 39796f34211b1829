import TinyOrm.Chain
import TinyOrm.Lib.BoolExpr
set_option autoImplicit false

/-!
The rows that the WHERE clauses of `prepareQuery`, `Update` and `Delete` select.
-/

namespace TinyOrm

open BoolExpr

/-! ## Reading a WHERE clause -/

def keyword (s : Str) : Option (BoolTok Str) :=
  if Util.toLowerCase s = "and".toList then some .and
  else if Util.toLowerCase s = "or".toList then some .or
  else if Util.toLowerCase s = "not".toList then some .not
  else none

/-- The token that ends in front of `rest`, if letters are pending. -/
def flush (pending : Str) (rest : Option (List (BoolTok Str))) : Option (List (BoolTok Str)) :=
  if pending = [] then rest
  else do
    let t ← keyword pending
    let ts ← rest
    some (t :: ts)

/-- A run of letters must be a keyword; every word is an atomic predicate. -/
def lexFrom : Str → Sql → Option (List (BoolTok Str))
  | pending, [] => flush pending (some [])
  | pending, .ch c :: rest =>
    if c.isAlpha then lexFrom (pending ++ [c]) rest
    else if isspace c then flush pending (lexFrom [] rest)
    else if c = '(' then flush pending ((lexFrom [] rest).map (.lpar :: ·))
    else if c = ')' then flush pending ((lexFrom [] rest).map (.rpar :: ·))
    else none
  | pending, .word s :: rest => flush pending ((lexFrom [] rest).map (.atom s :: ·))

def lex (sql : Sql) : Option (List (BoolTok Str)) := lexFrom [] sql

/-- The atomic predicates numbered from the left: the values bound to equal
texts may differ. -/
def number : Nat → List (BoolTok Str) → List (BoolTok (Nat × Str))
  | _, [] => []
  | n, .atom s :: ts => .atom (n, s) :: number (n + 1) ts
  | n, .lpar :: ts => .lpar :: number n ts
  | n, .rpar :: ts => .rpar :: number n ts
  | n, .and :: ts => .and :: number n ts
  | n, .or :: ts => .or :: number n ts
  | n, .not :: ts => .not :: number n ts

def readExpr (sql : Sql) : Option (BoolExpr (Nat × Str)) :=
  (lex sql).bind fun ts => parse (number 0 ts)

/-- The predicate of a statement's WHERE clause, `some none` where there is no
clause. -/
def readWhere (clause : Sql) : Option (Option (BoolExpr (Nat × Str))) :=
  if clause = [] then some none
  else if (lit " WHERE ").isPrefixOf clause then (readExpr (clause.drop 7)).map some
  else none

/-- The truth of the atomic predicates on a row decides whether it is selected. -/
def selects (predicate : Option (BoolExpr (Nat × Str))) (row : Nat × Str → Option Bool) : Bool :=
  match predicate with
  | none => true
  | some e => e.eval row = some true

/-- The clauses of `Update` and `Delete` are predicates that hold on the rows
the clause of `prepareQuery` selects. -/
def SameRows (constraints : List Constraint) (binds : Constraint) : Prop :=
  ∃ p q r, readWhere (Model.queryWhere constraints) = some p ∧
    readWhere (Model.updateWhere (binds :: constraints)) = some q ∧
    readWhere (Model.deleteWhere constraints) = some r ∧
    ∀ row, selects q row = selects p row ∧ selects r row = selects p row

/-! ## The lexer -/

theorem keyword_closes {s : Str} {t : BoolTok Str} (h : keyword s = some t) : ¬ t.Closes := by
  unfold keyword at h
  split at h
  · cases h; exact id
  · split at h
    · cases h; exact id
    · split at h
      · cases h; exact id
      · cases h

theorem flush_eq_some {pending : Str} {rest : Option (List (BoolTok Str))}
    {ts : List (BoolTok Str)} (h : flush pending rest = some ts) :
    (pending = [] ∧ rest = some ts) ∨
    (∃ t us, pending ≠ [] ∧ keyword pending = some t ∧ rest = some us ∧ ts = t :: us) := by
  unfold flush at h
  by_cases hp : pending = []
  · left
    simpa [hp] using h
  · right
    cases hk : keyword pending with
    | none => simp [hp, hk] at h
    | some t =>
      cases rest with
      | none => simp [hp, hk] at h
      | some us =>
        refine ⟨t, us, hp, rfl, rfl, ?_⟩
        simpa [hp, hk, eq_comm] using h

/-- The rest of a text is read on its own once the tokens before it are
complete. -/
theorem flush_extend {pending : Str} {rest rest' : Option (List (BoolTok Str))}
    {ts us : List (BoolTok Str)} {more : Option (List (BoolTok Str))}
    (hclose : ∀ t ∈ ts.getLast?, t.Closes) (h : flush pending rest = some ts)
    (hus : rest = some us)
    (hrest : (∀ t ∈ us.getLast?, t.Closes) → rest' = more.map (us ++ ·)) :
    flush pending rest' = more.map (ts ++ ·) := by
  rcases flush_eq_some h with ⟨hp, hr⟩ | ⟨t, vs, hp, hk, hr, rfl⟩
  · rw [hus] at hr
    cases hr
    simp [flush, hp, hrest hclose]
  · rw [hus] at hr
    cases hr
    have hlast : ∀ s ∈ us.getLast?, s.Closes := by
      cases us with
      | nil => simp
      | cons u us => simpa [List.getLast?_cons_cons] using hclose
    rw [hrest hlast]
    cases more <;> simp [flush, hp, hk]

theorem flush_tok_extend {pending : Str} {t : BoolTok Str} {a b : Sql} {ts : List (BoolTok Str)}
    (hclose : ∀ t ∈ ts.getLast?, t.Closes)
    (ih : ∀ us, lexFrom [] a = some us → (∀ t ∈ us.getLast?, t.Closes) →
      lexFrom [] (a ++ b) = (lexFrom [] b).map (us ++ ·))
    (h : flush pending ((lexFrom [] a).map (t :: ·)) = some ts) :
    flush pending ((lexFrom [] (a ++ b)).map (t :: ·)) = (lexFrom [] b).map (ts ++ ·) := by
  cases ha : lexFrom [] a with
  | none =>
    rw [ha] at h
    rcases flush_eq_some h with ⟨-, h⟩ | ⟨_, _, -, -, h, -⟩ <;> cases h
  | some us =>
    rw [ha] at h
    refine @flush_extend _ _ _ _ (t :: us) _ hclose h rfl ?_
    intro hlast
    have hlast' : ∀ s ∈ us.getLast?, s.Closes := by
      cases us with
      | nil => simp
      | cons u us => simpa [List.getLast?_cons_cons] using hlast
    rw [ih us ha hlast']
    cases lexFrom [] b <;> simp

/-- Nothing is pending behind a token that closes an operand. -/
theorem lexFrom_append {a : Sql} (b : Sql) {pending : Str} {ts : List (BoolTok Str)}
    (h : lexFrom pending a = some ts) (hclose : ∀ t ∈ ts.getLast?, t.Closes) :
    lexFrom pending (a ++ b) = (lexFrom [] b).map (ts ++ ·) := by
  induction a generalizing pending ts with
  | nil =>
    rcases flush_eq_some h with ⟨rfl, hts⟩ | ⟨t, us, -, hk, hus, rfl⟩
    · cases hts
      simp
    · cases hus
      exact absurd (hclose t (by simp)) (keyword_closes hk)
  | cons s a ih =>
    have ih' : ∀ us, lexFrom [] a = some us → (∀ t ∈ us.getLast?, t.Closes) →
        lexFrom [] (a ++ b) = (lexFrom [] b).map (us ++ ·) := fun us hus hl => ih hus hl
    cases s with
    | word w => exact flush_tok_extend hclose ih' h
    | ch c =>
      rw [List.cons_append]
      rw [lexFrom] at h ⊢
      by_cases halpha : c.isAlpha
      · simp only [halpha, if_true] at h ⊢
        exact ih h hclose
      · simp only [halpha, Bool.false_eq_true, if_false] at h ⊢
        by_cases hspace : isspace c
        · simp only [hspace, if_true] at h ⊢
          cases ha : lexFrom [] a with
          | none =>
            rw [ha] at h
            rcases flush_eq_some h with ⟨-, h⟩ | ⟨_, _, -, -, h, -⟩ <;> cases h
          | some us =>
            rw [ha] at h
            exact flush_extend hclose h rfl fun hl => ih' us ha hl
        · simp only [hspace, Bool.false_eq_true, if_false] at h ⊢
          by_cases hl : c = '('
          · simp only [hl, if_true] at h ⊢
            exact flush_tok_extend hclose ih' h
          · simp only [hl, if_false] at h ⊢
            by_cases hr : c = ')'
            · simp only [hr, if_true] at h ⊢
              exact flush_tok_extend hclose ih' h
            · simp [hr] at h

/-! ## Conditions -/

theorem number_kind (n : Nat) (ts : List (BoolTok Str)) :
    (number n ts).map BoolTok.kind = ts.map BoolTok.kind := by
  induction ts generalizing n with
  | nil => rfl
  | cons t ts ih => cases t <;> simp [number, BoolTok.kind, ih]

theorem number_append (n : Nat) (ts us : List (BoolTok Str)) :
    ∃ k, number n (ts ++ us) = number n ts ++ number k us := by
  induction ts generalizing n with
  | nil => exact ⟨n, rfl⟩
  | cons t ts ih =>
    cases t with
    | atom s =>
      obtain ⟨k, hk⟩ := ih (n + 1)
      exact ⟨k, by simp [number, hk]⟩
    | _ =>
      obtain ⟨k, hk⟩ := ih n
      exact ⟨k, by simp [number, hk]⟩

/-- What a boolean expression is made of. -/
theorem readExpr_lex {sql : Sql} {e : BoolExpr (Nat × Str)} (h : readExpr sql = some e) :
    ∃ ts, lex sql = some ts ∧ parse (number 0 ts) = some e ∧ Placed ts ∧
      ∀ t ∈ ts.getLast?, t.Closes := by
  unfold readExpr at h
  cases hts : lex sql with
  | none => simp [hts] at h
  | some ts =>
    rw [hts, Option.bind_some] at h
    have hplaced : Placed ts := by
      have hp := placed_of_parse h
      rw [← placed_kind, number_kind, placed_kind] at hp
      exact hp
    refine ⟨ts, rfl, h, hplaced, ?_⟩
    intro t ht
    obtain ⟨s, hs, hc⟩ := hplaced.last
    rw [Option.mem_def] at hs ht
    rw [hs] at ht
    cases ht
    exact hc

theorem lex_lpar (sql : Sql) : lex (lit "(" ++ sql) = (lex sql).map (.lpar :: ·) := by
  have hlit : lit "(" ++ sql = .ch '(' :: sql := rfl
  rw [hlit, lex, lexFrom]
  simp [flush, lex, show Char.isAlpha '(' = false from rfl, show isspace '(' = false from rfl]

theorem readExpr_parens {sql : Sql} {e : BoolExpr (Nat × Str)} (h : readExpr sql = some e) :
    readExpr (lit "(" ++ sql ++ lit ")") = some e := by
  obtain ⟨ts, hlex, hparse, -, hlast⟩ := readExpr_lex h
  have hrpar : lex (lit ")") = some [.rpar] := by decide
  have hts : lex (lit "(" ++ sql ++ lit ")") = some (.lpar :: ts ++ [.rpar]) := by
    have happend := lexFrom_append (lit ")") hlex hlast
    rw [List.append_assoc, lex_lpar, lex, happend]
    simp only [lex] at hrpar
    simp [hrpar]
  have hnum : number 0 (.lpar :: ts ++ [.rpar]) = .lpar :: number 0 ts ++ [.rpar] := by
    obtain ⟨k, hk⟩ := number_append 0 ts [.rpar]
    simp [number, hk]
  unfold readExpr
  rw [hts, Option.bind_some, hnum]
  exact parse_parens hparse

/-- Two conditions with nothing between them. -/
theorem readExpr_juxtaposed {a b : Sql} {e f : BoolExpr (Nat × Str)} (ha : readExpr a = some e)
    (hb : readExpr b = some f) (more : Sql) : readExpr (a ++ b ++ more) = none := by
  obtain ⟨ts, hlexa, -, hpa, hlasta⟩ := readExpr_lex ha
  obtain ⟨us, hlexb, -, hpb, hlastb⟩ := readExpr_lex hb
  have hlex : lex (a ++ b ++ more) = (lex more).map fun vs => ts ++ us ++ vs := by
    have h₁ := lexFrom_append (b ++ more) hlexa hlasta
    have h₂ := lexFrom_append more hlexb hlastb
    rw [List.append_assoc, lex, h₁, h₂]
    cases h : lexFrom [] more <;> simp [lex, h]
  unfold readExpr
  rw [hlex]
  cases lex more with
  | none => rfl
  | some vs =>
    obtain ⟨k, hk⟩ := number_append 0 (ts ++ us) vs
    obtain ⟨l, hl⟩ := number_append 0 ts us
    have hpa' : Placed (number 0 ts) := by rwa [← placed_kind, number_kind, placed_kind]
    have hpb' : Placed (number l us) := by rwa [← placed_kind, number_kind, placed_kind]
    simp only [Option.map_some, Option.bind_some]
    rw [hk, hl]
    exact parse_juxtaposed hpa' hpb'

theorem readWhere_where (body : Sql) :
    readWhere (lit " WHERE " ++ body) = (readExpr body).map some := by
  have hlit : lit " WHERE " = [.ch ' ', .ch 'W', .ch 'H', .ch 'E', .ch 'R', .ch 'E', .ch ' '] := rfl
  simp [readWhere, hlit]

/-! ## The three clauses -/

theorem readWhere_nil : readWhere [] = some none := rfl

theorem sameRows_nil (binds : Constraint) : SameRows [] binds :=
  ⟨none, none, none, readWhere_nil, readWhere_nil, readWhere_nil, fun _ => ⟨rfl, rfl⟩⟩

theorem sameRows_singleton {c : Constraint} (hc : c.conj ≠ .LIMIT)
    {e : BoolExpr (Nat × Str)} (he : readExpr c.condition = some e) (binds : Constraint) :
    SameRows [c] binds := by
  refine ⟨some e, some e, some e, ?_, ?_, ?_, fun _ => ⟨rfl, rfl⟩⟩
  · have hquery : Model.queryWhere [c] = lit " WHERE " ++ (lit "(" ++ c.condition ++ lit ")") := by
      simp [Model.queryWhere, Model.queryConditions, hc]
    rw [hquery, readWhere_where, readExpr_parens he]
    rfl
  · have hupdate : Model.updateWhere [binds, c] = lit " WHERE " ++ c.condition := by
      simp [Model.updateWhere, Model.joinConditions]
    rw [hupdate, readWhere_where, he]
    rfl
  · have hdelete : Model.deleteWhere [c] = lit " WHERE " ++ c.condition := by
      simp [Model.deleteWhere, Model.joinConditions]
    rw [hdelete, readWhere_where, he]
    rfl

/-- `Delete` puts nothing between the first two conditions. -/
theorem deleteWhere_unreadable {a b : Constraint} {e f : BoolExpr (Nat × Str)}
    (ha : readExpr a.condition = some e) (hb : readExpr b.condition = some f)
    (cs : List Constraint) : readWhere (Model.deleteWhere (a :: b :: cs)) = none := by
  have hdelete : Model.deleteWhere (a :: b :: cs) =
      lit " WHERE " ++ (a.condition ++ b.condition ++ Model.joinConditions 2 cs) := by
    simp [Model.deleteWhere, Model.joinConditions]
  rw [hdelete, readWhere_where, readExpr_juxtaposed ha hb]
  rfl

/-- A `Where` or an `Or` with a boolean expression for its condition. -/
def Call.IsExpr (call : Call) : Prop :=
  ∃ sql e, call.condition = some sql ∧ readExpr sql = some e

theorem Call.IsExpr.constraint {call : Call} (h : call.IsExpr) :
    ∃ c e, call.constraint = some c ∧ c.conj ≠ .LIMIT ∧ readExpr c.condition = some e := by
  obtain ⟨sql, e, hsql, he⟩ := h
  cases call with
  | cond_and cond args =>
    cases hsql
    exact ⟨_, e, rfl, by simp [bindVals_eq], by simpa [bindVals_eq] using he⟩
  | cond_or cond args =>
    cases hsql
    exact ⟨_, e, rfl, by simp [bindVals_eq], by simpa [bindVals_eq] using he⟩
  | _ => cases hsql

theorem delete_drops_connective :
    ¬ SameRows (({ className := "User".toList } : Model).calls
        [.cond_and (word "id = ?".toList) [.int 1], .cond_and (word "age = ?".toList) [.int 2]]
      ).constraints (bindVals {} [.int 3]) := by
  rintro ⟨p, q, r, -, -, hr, -⟩
  have hnone : readWhere (Model.deleteWhere (({ className := "User".toList } : Model).calls
      [.cond_and (word "id = ?".toList) [.int 1], .cond_and (word "age = ?".toList) [.int 2]]
    ).constraints) = none := by decide
  rw [hnone] at hr
  cases hr

theorem sameRows_calls {m : Model} (hm : m.Fresh) (calls : List Call)
    (hcalls : ∀ call ∈ calls, call.IsExpr) (binds : Constraint) :
    SameRows (m.calls calls).constraints binds ↔ calls.length ≤ 1 := by
  rw [hm.calls_constraints]
  constructor
  · rintro ⟨p, q, r, -, -, hr, -⟩
    match calls, hcalls with
    | [], _ => simp
    | [_], _ => simp
    | first :: second :: calls, hcalls =>
      obtain ⟨a, e, ha, -, he⟩ := (hcalls first (by simp)).constraint
      obtain ⟨b, f, hb, -, hf⟩ := (hcalls second (by simp)).constraint
      rw [List.filterMap_cons_some ha, List.filterMap_cons_some hb,
        deleteWhere_unreadable he hf] at hr
      cases hr
  · intro hlen
    match calls, hcalls, hlen with
    | [], _, _ => exact sameRows_nil binds
    | [call], hcalls, _ =>
      obtain ⟨c, e, hc, hconj, he⟩ := (hcalls call (by simp)).constraint
      rw [List.filterMap_cons_some hc]
      exact sameRows_singleton hconj he binds

theorem sameRows_calls_sample :
    SameRows (({ className := "User".toList } : Model).calls
      [.cond_and (word "id = ?".toList ++ lit " or " ++ word "age = ?".toList) [.int 1, .int 2]]
      ).constraints (bindVals {} [.int 3]) :=
  (sameRows_calls (m := { className := "User".toList }) ⟨rfl, rfl⟩
    [.cond_and (word "id = ?".toList ++ lit " or " ++ word "age = ?".toList) [.int 1, .int 2]]
    (by
      intro call hcall
      rw [List.mem_singleton.mp hcall]
      exact ⟨_, .or (.atom (0, "id = ?".toList)) (.atom (1, "age = ?".toList)), rfl, by decide⟩)
    _).mpr (by decide)

end TinyOrm

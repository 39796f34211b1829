import TinyOrm.Lib.BoolExpr
set_option autoImplicit false

/-!
Expressions written one behind the other, with AND or OR between them.

AND binds tighter, so that the whole holds where some maximal run of expressions
with AND between them holds throughout.
-/

namespace BoolExpr

variable {α β : Type}

inductive Join where
  | and
  | or
  deriving DecidableEq, Repr

def Join.tok : Join → BoolTok α
  | .and => .and
  | .or => .or

def joinToks (ts : List (BoolTok α)) : List (Join × List (BoolTok α)) → List (BoolTok α)
  | [] => ts
  | (j, us) :: more => ts ++ j.tok :: joinToks us more

/-- The maximal runs, of which `run` is the one still open. -/
def runs (run : List β) : List (Join × β) → List (List β)
  | [] => [run]
  | (.and, b) :: more => runs (run ++ [b]) more
  | (.or, b) :: more => run :: runs [b] more

/-- Some run holds throughout. -/
def someRun (p : β → Bool) (run : List β) (more : List (Join × β)) : Bool :=
  (runs run more).any fun g => g.all p

theorem joinToks_append (ts us : List (BoolTok α)) (more : List (Join × List (BoolTok α))) :
    joinToks (ts ++ us) more = ts ++ joinToks us more := by
  cases more with
  | nil => rfl
  | cons m more => simp [joinToks]

/-- What follows the first expression. -/
def moreToks (more : List (Join × List (BoolTok α))) : List (BoolTok α) :=
  more.flatMap fun m => m.1.tok :: m.2

theorem joinToks_eq (ts : List (BoolTok α)) (more : List (Join × List (BoolTok α))) :
    joinToks ts more = ts ++ moreToks more := by
  induction more generalizing ts with
  | nil => simp [joinToks, moreToks]
  | cons m more ih => simp [joinToks, ih, moreToks]

/-! ## Truth -/

/-- True, and not unknown. -/
def holds (row : α → Option Bool) (e : BoolExpr α) : Bool := e.eval row = some true

theorem truthAnd_assoc (a b c : Option Bool) :
    truthAnd (truthAnd a b) c = truthAnd a (truthAnd b c) := by
  rcases a with _ | a <;> rcases b with _ | b <;> rcases c with _ | c <;>
    (try cases a) <;> (try cases b) <;> (try cases c) <;> rfl

theorem truthAnd_eq_true {a b : Option Bool} :
    truthAnd a b = some true ↔ a = some true ∧ b = some true := by
  rcases a with _ | a <;> rcases b with _ | b <;> (try cases a) <;> (try cases b) <;>
    simp [truthAnd]

theorem truthOr_eq_true {a b : Option Bool} :
    truthOr a b = some true ↔ a = some true ∨ b = some true := by
  rcases a with _ | a <;> rcases b with _ | b <;> (try cases a) <;> (try cases b) <;>
    simp [truthOr]

theorem holds_or (row : α → Option Bool) (e f : BoolExpr α) :
    (or e f).holds row = (e.holds row || f.holds row) := by
  simp [holds, eval, truthOr_eq_true]

/-! ## Operands -/

/-- The tokens are an expression without an OR outside of parentheses. -/
def Operand (ts : List (BoolTok α)) (e : BoolExpr α) : Prop :=
  parseAnd (3 * ts.length + 2) ts = some (e, [])

theorem Operand.parse {ts : List (BoolTok α)} {e : BoolExpr α} (h : Operand ts e) :
    parse ts = some e :=
  parse_eq_some.mpr (parseOr_eq_some.mpr (Or.inr ⟨h, by simp⟩))

theorem Operand.parens {ts : List (BoolTok α)} {e : BoolExpr α} (h : BoolExpr.parse ts = some e) :
    Operand (.lpar :: ts ++ [.rpar]) e := by
  rw [parse_eq_some] at h
  have hlength : (.lpar :: ts ++ [.rpar] : List (BoolTok α)).length = ts.length + 2 := by simp
  obtain ⟨k, hk⟩ : ∃ k, 3 * (ts.length + 2) + 2 = k + 1 + 1 ∧ 3 * ts.length + 3 ≤ k :=
    ⟨3 * ts.length + 6, by omega⟩
  rw [Operand, hlength, hk.1]
  have hin := (parse_extend _).1 ts [] [.rpar] e k hk.2 (by simp [Stops]) h
  have hnot : parseNot (k + 1) (.lpar :: ts ++ [.rpar]) = some (e, []) :=
    parseNot_eq_some.mpr (Or.inr (Or.inr ⟨_, rfl, hin⟩))
  exact parseAnd_eq_some.mpr (Or.inr ⟨hnot, by simp⟩)

/-- An operand goes on behind AND; the parser leans to the right. -/
theorem parseAnd_and {k m : Nat} {ts us rest : List (BoolTok α)} {f g : BoolExpr α}
    (hf : parseAnd k ts = some (f, [])) (hg : parseAnd m us = some (g, rest)) :
    ∃ e, parseAnd (k + m) (ts ++ .and :: us) = some (e, rest) ∧
      ∀ row, e.eval row = truthAnd (f.eval row) (g.eval row) := by
  induction k generalizing ts f with
  | zero => simp [parseAnd] at hf
  | succ k ih =>
    have hfuel : k + 1 + m = k + m + 1 := by omega
    rw [hfuel]
    rcases parseAnd_eq_some.mp hf with ⟨e₁, us₁, f₁, hnot, hand, rfl⟩ | ⟨hnot, -⟩
    · obtain ⟨e, he, heval⟩ := ih hand
      have hfirst := (parse_extend k).2.2 ts _ (.and :: us) e₁ (k + m) (by omega) hnot
      refine ⟨.and e₁ e, parseAnd_eq_some.mpr (Or.inl ⟨e₁, _, e, hfirst, he, rfl⟩), fun row => ?_⟩
      simp only [eval, heval, truthAnd_assoc]
    · have hfirst := (parse_extend k).2.2 ts [] (.and :: us) f (k + m) (by omega) hnot
      have hmore := (parse_extend m).2.1 us rest [] g (k + m) (by omega) (by simp [Stops]) hg
      rw [List.append_nil, List.append_nil] at hmore
      exact ⟨.and f g, parseAnd_eq_some.mpr (Or.inl ⟨f, us, g, hfirst, hmore, rfl⟩), fun _ => rfl⟩

theorem Operand.and {ts us : List (BoolTok α)} {f g : BoolExpr α} (hf : Operand ts f)
    (hg : Operand us g) :
    ∃ e, Operand (ts ++ .and :: us) e ∧
      ∀ row, e.eval row = truthAnd (f.eval row) (g.eval row) := by
  obtain ⟨e, he, heval⟩ := parseAnd_and hf hg
  have hlength : (ts ++ .and :: us).length = ts.length + us.length + 1 := by simp; omega
  have hmore := (parse_extend _).2.1 (ts ++ .and :: us) [] [] e
    (3 * (ts ++ .and :: us).length + 2) (by omega) (by simp [Stops]) he
  rw [List.append_nil] at hmore
  exact ⟨e, hmore, heval⟩

/-- OR ends an operand. -/
theorem parseAnd_or {k m : Nat} {ts : List (BoolTok α)} {f : BoolExpr α}
    (hf : parseAnd k ts = some (f, [])) (hm : k ≤ m) (us : List (BoolTok α)) :
    parseAnd m (ts ++ .or :: us) = some (f, .or :: us) := by
  induction k generalizing ts f m with
  | zero => simp [parseAnd] at hf
  | succ k ih =>
    obtain ⟨m, rfl⟩ : ∃ n, m = n + 1 := ⟨m - 1, by omega⟩
    rcases parseAnd_eq_some.mp hf with ⟨e₁, us₁, f₁, hnot, hand, rfl⟩ | ⟨hnot, -⟩
    · have hfirst := (parse_extend k).2.2 ts _ (.or :: us) e₁ m (by omega) hnot
      exact parseAnd_eq_some.mpr (Or.inl ⟨e₁, _, f₁, hfirst, ih hand (by omega), rfl⟩)
    · have hfirst := (parse_extend k).2.2 ts [] (.or :: us) f m (by omega) hnot
      exact parseAnd_eq_some.mpr (Or.inr ⟨hfirst, by simp⟩)

theorem Operand.or {ts us : List (BoolTok α)} {f g : BoolExpr α} (hf : Operand ts f)
    (hg : BoolExpr.parse us = some g) : BoolExpr.parse (ts ++ .or :: us) = some (.or f g) := by
  rw [parse_eq_some] at hg ⊢
  have hlength : (ts ++ .or :: us).length = ts.length + us.length + 1 := by simp; omega
  have hfirst := parseAnd_or hf (m := 3 * (ts ++ .or :: us).length + 2) (by omega) us
  have hmore := (parse_extend _).1 us [] [] g (3 * (ts ++ .or :: us).length + 2) (by omega)
    (by simp [Stops]) hg
  rw [List.append_nil] at hmore
  exact parseOr_eq_some.mpr (Or.inl ⟨f, us, g, hfirst, hmore, rfl⟩)

/-! ## The whole -/

/-- Operands with what they are read as. -/
abbrev Operands (more : List (Join × List (BoolTok α))) (es : List (Join × BoolExpr α)) : Prop :=
  List.Forall₂ (fun m e => m.1 = e.1 ∧ Operand m.2 e.2) more es

/-- `e` stands for the run that is open. -/
theorem parse_joinToks_from {ts : List (BoolTok α)} {e : BoolExpr α} {run : List (BoolExpr α)}
    {more : List (Join × List (BoolTok α))} {es : List (Join × BoolExpr α)} (he : Operand ts e)
    (hrun : ∀ row, e.holds row = run.all (holds row)) (hes : Operands more es) :
    ∃ e', parse (joinToks ts more) = some e' ∧
      ∀ row, e'.holds row = someRun (holds row) run es := by
  induction hes generalizing ts e run with
  | nil => exact ⟨e, he.parse, fun row => by simp [someRun, runs, hrun]⟩
  | @cons m e₁ more es hm _ ih =>
    obtain ⟨j, us⟩ := m
    obtain ⟨j', g⟩ := e₁
    obtain ⟨rfl, hg⟩ : j = j' ∧ Operand us g := hm
    cases j with
    | and =>
      obtain ⟨e₂, he₂, heval⟩ := he.and hg
      have hopen : ∀ row, e₂.holds row = (run ++ [g]).all (holds row) := by
        intro row
        rw [List.all_append, ← hrun]
        simp [holds, heval, truthAnd_eq_true]
      obtain ⟨e', hparse, htruth⟩ := ih he₂ hopen
      have hmerge : joinToks ts ((.and, us) :: more) = joinToks (ts ++ .and :: us) more := by
        have hcons : .and :: joinToks us more = joinToks (.and :: us) more :=
          (joinToks_append [.and] us more).symm
        rw [joinToks_append, ← hcons]
        rfl
      exact ⟨e', hmerge ▸ hparse, htruth⟩
    | or =>
      have hone (row : α → Option Bool) : g.holds row = [g].all (holds row) := by simp
      obtain ⟨e₂, hparse, htruth⟩ := ih hg hone
      refine ⟨.or e e₂, he.or hparse, fun row => ?_⟩
      rw [holds_or, htruth, hrun]
      simp [someRun, runs]

theorem parse_joinToks {ts : List (BoolTok α)} {e : BoolExpr α}
    {more : List (Join × List (BoolTok α))} {es : List (Join × BoolExpr α)} (he : Operand ts e)
    (hes : Operands more es) :
    ∃ e', parse (joinToks ts more) = some e' ∧
      ∀ row, e'.holds row = someRun (holds row) [e] es :=
  parse_joinToks_from he (by simp) hes

end BoolExpr

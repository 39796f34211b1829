import Mathlib.Data.List.Chain
set_option autoImplicit false

/-!
Boolean expressions over atomic predicates, read from tokens.

`NOT` binds tighter than `AND`, and `AND` tighter than `OR`. Truth has three
values, as in SQL: `none` is unknown.
-/

inductive BoolTok (α : Type) where
  | atom (a : α)
  | lpar
  | rpar
  | and
  | or
  | not
  deriving DecidableEq, Repr

inductive BoolExpr (α : Type) where
  | atom (a : α)
  | not (e : BoolExpr α)
  | and (e f : BoolExpr α)
  | or (e f : BoolExpr α)
  deriving DecidableEq, Repr

namespace BoolExpr

variable {α : Type}

/-! ## Truth -/

def truthAnd : Option Bool → Option Bool → Option Bool
  | some false, _ => some false
  | _, some false => some false
  | some true, some true => some true
  | _, _ => none

def truthOr : Option Bool → Option Bool → Option Bool
  | some true, _ => some true
  | _, some true => some true
  | some false, some false => some false
  | _, _ => none

def eval (row : α → Option Bool) : BoolExpr α → Option Bool
  | atom a => row a
  | not e => (e.eval row).map Bool.not
  | and e f => truthAnd (e.eval row) (f.eval row)
  | or e f => truthOr (e.eval row) (f.eval row)

/-! ## The parser -/

mutual

def parseOr : Nat → List (BoolTok α) → Option (BoolExpr α × List (BoolTok α))
  | 0, _ => none
  | fuel + 1, ts =>
    match parseAnd fuel ts with
    | none => none
    | some (e, .or :: rest) =>
      match parseOr fuel rest with
      | none => none
      | some (f, rest') => some (.or e f, rest')
    | some (e, rest) => some (e, rest)

def parseAnd : Nat → List (BoolTok α) → Option (BoolExpr α × List (BoolTok α))
  | 0, _ => none
  | fuel + 1, ts =>
    match parseNot fuel ts with
    | none => none
    | some (e, .and :: rest) =>
      match parseAnd fuel rest with
      | none => none
      | some (f, rest') => some (.and e f, rest')
    | some (e, rest) => some (e, rest)

def parseNot : Nat → List (BoolTok α) → Option (BoolExpr α × List (BoolTok α))
  | fuel + 1, .not :: rest =>
    match parseNot fuel rest with
    | none => none
    | some (e, rest') => some (.not e, rest')
  | _ + 1, .atom a :: rest => some (.atom a, rest)
  | fuel + 1, .lpar :: rest =>
    match parseOr fuel rest with
    | some (e, .rpar :: rest') => some (e, rest')
    | _ => none
  | _, _ => none

end

/-- Fuel for three calls per token. -/
def parse (ts : List (BoolTok α)) : Option (BoolExpr α) :=
  match parseOr (3 * ts.length + 3) ts with
  | some (e, []) => some e
  | _ => none

/-! ## What one call does -/

theorem parseOr_eq_some {fuel : Nat} {ts rest : List (BoolTok α)} {e : BoolExpr α} :
    parseOr (fuel + 1) ts = some (e, rest) ↔
      (∃ e₁ us f, parseAnd fuel ts = some (e₁, .or :: us) ∧ parseOr fuel us = some (f, rest) ∧
        e = .or e₁ f) ∨
      (parseAnd fuel ts = some (e, rest) ∧ ∀ us, rest ≠ .or :: us) := by
  rw [parseOr]
  cases parseAnd fuel ts with
  | none => simp
  | some r =>
    obtain ⟨e₁, r₁⟩ := r
    cases r₁ with
    | nil => simp; grind
    | cons t us =>
      cases t with
      | or =>
        cases hp : parseOr fuel us with
        | none => simp [hp]; grind
        | some r₂ => simp [hp]; grind
      | _ => simp; grind

theorem parseAnd_eq_some {fuel : Nat} {ts rest : List (BoolTok α)} {e : BoolExpr α} :
    parseAnd (fuel + 1) ts = some (e, rest) ↔
      (∃ e₁ us f, parseNot fuel ts = some (e₁, .and :: us) ∧ parseAnd fuel us = some (f, rest) ∧
        e = .and e₁ f) ∨
      (parseNot fuel ts = some (e, rest) ∧ ∀ us, rest ≠ .and :: us) := by
  rw [parseAnd]
  cases parseNot fuel ts with
  | none => simp
  | some r =>
    obtain ⟨e₁, r₁⟩ := r
    cases r₁ with
    | nil => simp; grind
    | cons t us =>
      cases t with
      | and =>
        cases hp : parseAnd fuel us with
        | none => simp [hp]; grind
        | some r₂ => simp [hp]; grind
      | _ => simp; grind

theorem parseNot_eq_some {fuel : Nat} {ts rest : List (BoolTok α)} {e : BoolExpr α} :
    parseNot (fuel + 1) ts = some (e, rest) ↔
      (∃ us f, ts = .not :: us ∧ parseNot fuel us = some (f, rest) ∧ e = .not f) ∨
      (∃ a, ts = .atom a :: rest ∧ e = .atom a) ∨
      (∃ us, ts = .lpar :: us ∧ parseOr fuel us = some (e, .rpar :: rest)) := by
  cases ts with
  | nil => simp [parseNot]
  | cons t us =>
    cases t with
    | not =>
      rw [parseNot]
      cases hp : parseNot fuel us with
      | none => simp [hp]
      | some r => simp [hp]; grind
    | atom a => simp [parseNot]; grind
    | lpar =>
      rw [parseNot]
      cases hp : parseOr fuel us with
      | none => simp [hp]
      | some r =>
        obtain ⟨f, r⟩ := r
        cases r with
        | nil => simp [hp]
        | cons t r => cases t <;> simp [hp]
    | _ => simp [parseNot]

/-! ## Text after an expression -/

/-- Nothing in `more` continues an expression that ends where `rest` begins. -/
def Stops (rest more : List (BoolTok α)) : Prop :=
  rest = [] → ∀ t ∈ more.head?, t ≠ .and ∧ t ≠ .or

theorem Stops.ne {rest more : List (BoolTok α)} (h : Stops rest more) {t : BoolTok α}
    (ht : t = .and ∨ t = .or) (hne : ∀ us, rest ≠ t :: us) (us : List (BoolTok α)) :
    rest ++ more ≠ t :: us := by
  cases rest with
  | nil =>
    intro heq
    have hhead := h rfl t (by simp [show more = t :: us from heq])
    rcases ht with rfl | rfl
    · exact hhead.1 rfl
    · exact hhead.2 rfl
  | cons s rest =>
    intro heq
    simp only [List.cons_append, List.cons.injEq] at heq
    exact hne rest (by rw [heq.1])

theorem Stops.cons (t : BoolTok α) (rest more : List (BoolTok α)) : Stops (t :: rest) more := by
  intro h
  cases h

/-- A parser that has stopped does the same with more fuel and more text. -/
theorem parse_extend (fuel : Nat) :
    (∀ (ts rest more : List (BoolTok α)) (e : BoolExpr α) (m : Nat), fuel ≤ m → Stops rest more →
      parseOr fuel ts = some (e, rest) → parseOr m (ts ++ more) = some (e, rest ++ more)) ∧
    (∀ (ts rest more : List (BoolTok α)) (e : BoolExpr α) (m : Nat), fuel ≤ m → Stops rest more →
      parseAnd fuel ts = some (e, rest) → parseAnd m (ts ++ more) = some (e, rest ++ more)) ∧
    (∀ (ts rest more : List (BoolTok α)) (e : BoolExpr α) (m : Nat), fuel ≤ m →
      parseNot fuel ts = some (e, rest) → parseNot m (ts ++ more) = some (e, rest ++ more)) := by
  induction fuel with
  | zero => simp [parseOr, parseAnd, parseNot]
  | succ fuel ih =>
    obtain ⟨ihOr, ihAnd, ihNot⟩ := ih
    refine ⟨?_, ?_, ?_⟩
    · intro ts rest more e m hm hs h
      obtain ⟨m, rfl⟩ : ∃ k, m = k + 1 := ⟨m - 1, by omega⟩
      have hm' : fuel ≤ m := by omega
      rw [parseOr_eq_some] at h ⊢
      rcases h with ⟨e₁, us, f, h₁, h₂, rfl⟩ | ⟨h₁, hne⟩
      · left
        exact ⟨e₁, us ++ more, f, ihAnd _ _ more _ m hm' (Stops.cons _ _ _) h₁,
          ihOr _ _ more _ m hm' hs h₂, rfl⟩
      · right
        exact ⟨ihAnd _ _ more _ m hm' hs h₁, hs.ne (Or.inr rfl) hne⟩
    · intro ts rest more e m hm hs h
      obtain ⟨m, rfl⟩ : ∃ k, m = k + 1 := ⟨m - 1, by omega⟩
      have hm' : fuel ≤ m := by omega
      rw [parseAnd_eq_some] at h ⊢
      rcases h with ⟨e₁, us, f, h₁, h₂, rfl⟩ | ⟨h₁, hne⟩
      · left
        exact ⟨e₁, us ++ more, f, ihNot _ _ more _ m hm' h₁, ihAnd _ _ more _ m hm' hs h₂, rfl⟩
      · right
        exact ⟨ihNot _ _ more _ m hm' h₁, hs.ne (Or.inl rfl) hne⟩
    · intro ts rest more e m hm h
      obtain ⟨m, rfl⟩ : ∃ k, m = k + 1 := ⟨m - 1, by omega⟩
      have hm' : fuel ≤ m := by omega
      rw [parseNot_eq_some] at h ⊢
      rcases h with ⟨us, f, rfl, h₁, rfl⟩ | ⟨a, rfl, rfl⟩ | ⟨us, rfl, h₁⟩
      · left
        exact ⟨us ++ more, f, rfl, ihNot _ _ more _ m hm' h₁, rfl⟩
      · right; left
        exact ⟨a, rfl, rfl⟩
      · right; right
        exact ⟨us ++ more, rfl, ihOr _ _ more _ m hm' (Stops.cons _ _ _) h₁⟩

theorem parse_eq_some {ts : List (BoolTok α)} {e : BoolExpr α} :
    parse ts = some e ↔ parseOr (3 * ts.length + 3) ts = some (e, []) := by
  unfold parse
  cases parseOr (3 * ts.length + 3) ts with
  | none => simp
  | some r =>
    obtain ⟨f, rest⟩ := r
    cases rest <;> simp

/-- Parentheses around an expression change nothing. -/
theorem parse_parens {ts : List (BoolTok α)} {e : BoolExpr α} (h : parse ts = some e) :
    parse (.lpar :: ts ++ [.rpar]) = some e := by
  rw [parse_eq_some] at h ⊢
  obtain ⟨k, hk⟩ : ∃ k, 3 * (.lpar :: ts ++ [.rpar] : List (BoolTok α)).length + 3 = k + 1 + 1 + 1 ∧
      3 * ts.length + 3 ≤ k := ⟨3 * ts.length + 6, by simp; omega⟩
  rw [hk.1]
  have hin := (parse_extend _).1 ts [] [.rpar] e k hk.2 (by simp [Stops]) h
  have hnot : parseNot (k + 1) (.lpar :: ts ++ [.rpar]) = some (e, []) :=
    parseNot_eq_some.mpr (Or.inr (Or.inr ⟨_, rfl, hin⟩))
  have hand := parseAnd_eq_some.mpr (Or.inr ⟨hnot, by simp⟩)
  exact parseOr_eq_some.mpr (Or.inr ⟨hand, by simp⟩)

/-! ## Where the tokens of an expression stand -/

end BoolExpr

/-- A token an operand can begin with. -/
def BoolTok.Opens {α : Type} : BoolTok α → Prop
  | .atom _ | .lpar | .not => True
  | _ => False

/-- A token an operand can end with. -/
def BoolTok.Closes {α : Type} : BoolTok α → Prop
  | .atom _ | .rpar => True
  | _ => False

/-- A token without its atom. -/
def BoolTok.kind {α : Type} : BoolTok α → BoolTok Unit
  | .atom _ => .atom ()
  | .lpar => .lpar
  | .rpar => .rpar
  | .and => .and
  | .or => .or
  | .not => .not

theorem BoolTok.opens_kind {α : Type} (t : BoolTok α) : t.kind.Opens ↔ t.Opens := by
  cases t <;> rfl

theorem BoolTok.closes_kind {α : Type} (t : BoolTok α) : t.kind.Closes ↔ t.Closes := by
  cases t <;> rfl

namespace BoolExpr

variable {α : Type}

/-- No operand begins right behind another one. -/
structure Placed (ts : List (BoolTok α)) : Prop where
  first : ∃ t ∈ ts.head?, t.Opens
  last : ∃ t ∈ ts.getLast?, t.Closes
  chain : ts.IsChain fun s t => ¬ (s.Closes ∧ t.Opens)

/-- Where the tokens stand does not depend on the atoms. -/
theorem placed_kind {ts : List (BoolTok α)} : Placed (ts.map BoolTok.kind) ↔ Placed ts := by
  have hfirst : (∃ t ∈ (ts.map BoolTok.kind).head?, t.Opens) ↔ ∃ t ∈ ts.head?, t.Opens := by
    simp [List.head?_map, BoolTok.opens_kind]
  have hlast : (∃ t ∈ (ts.map BoolTok.kind).getLast?, t.Closes) ↔ ∃ t ∈ ts.getLast?, t.Closes := by
    simp [List.getLast?_map, BoolTok.closes_kind]
  have hchain : ((ts.map BoolTok.kind).IsChain fun s t => ¬ (s.Closes ∧ t.Opens)) ↔
      ts.IsChain fun s t => ¬ (s.Closes ∧ t.Opens) := by
    simp [List.isChain_map, BoolTok.opens_kind, BoolTok.closes_kind]
  constructor
  · exact fun h => ⟨hfirst.mp h.first, hlast.mp h.last, hchain.mp h.chain⟩
  · exact fun h => ⟨hfirst.mpr h.first, hlast.mpr h.last, hchain.mpr h.chain⟩

theorem Placed.atom (a : α) : Placed [BoolTok.atom a] := by
  constructor <;> simp [BoolTok.Opens, BoolTok.Closes]

theorem Placed.not {ts : List (BoolTok α)} (h : Placed ts) : Placed (.not :: ts) := by
  constructor
  · simp [BoolTok.Opens]
  · obtain ⟨t, ht, hc⟩ := h.last
    cases ts with
    | nil => simp at ht
    | cons s ts => exact ⟨t, by simpa [List.getLast?_cons_cons] using ht, hc⟩
  · rw [List.isChain_cons]
    exact ⟨fun t _ hct => hct.1, h.chain⟩

theorem Placed.parens {ts : List (BoolTok α)} (h : Placed ts) :
    Placed (.lpar :: ts ++ [.rpar]) := by
  constructor
  · simp [BoolTok.Opens]
  · exact ⟨.rpar, List.getLast?_concat, trivial⟩
  · rw [List.cons_append, List.isChain_cons, List.isChain_append]
    refine ⟨fun t _ hct => hct.1, h.chain, List.isChain_singleton _, ?_⟩
    intro s _ t ht hct
    simp only [List.head?_cons, Option.mem_some_iff] at ht
    subst ht
    exact hct.2

theorem Placed.binary {ts us : List (BoolTok α)} {op : BoolTok α} (hop : op = .and ∨ op = .or)
    (h₁ : Placed ts) (h₂ : Placed us) : Placed (ts ++ op :: us) := by
  constructor
  · obtain ⟨t, ht, ho⟩ := h₁.first
    cases ts with
    | nil => simp at ht
    | cons s ts => exact ⟨t, by simpa using ht, ho⟩
  · obtain ⟨t, ht, hc⟩ := h₂.last
    cases us with
    | nil => simp at ht
    | cons s us =>
      refine ⟨t, ?_, hc⟩
      rw [List.getLast?_append_cons, List.getLast?_cons_cons]
      exact ht
  · rw [List.isChain_append, List.isChain_cons]
    refine ⟨h₁.chain, ⟨?_, h₂.chain⟩, ?_⟩
    · intro t _ hct
      rcases hop with rfl | rfl <;> exact hct.1
    · intro s _ t ht hct
      simp only [List.head?_cons, Option.mem_some_iff] at ht
      subst ht
      rcases hop with rfl | rfl <;> exact hct.2

/-- What a parser has consumed is placed. -/
theorem parse_placed (fuel : Nat) :
    (∀ (ts rest : List (BoolTok α)) (e : BoolExpr α), parseOr fuel ts = some (e, rest) →
      ∃ us, ts = us ++ rest ∧ Placed us) ∧
    (∀ (ts rest : List (BoolTok α)) (e : BoolExpr α), parseAnd fuel ts = some (e, rest) →
      ∃ us, ts = us ++ rest ∧ Placed us) ∧
    (∀ (ts rest : List (BoolTok α)) (e : BoolExpr α), parseNot fuel ts = some (e, rest) →
      ∃ us, ts = us ++ rest ∧ Placed us) := by
  induction fuel with
  | zero => simp [parseOr, parseAnd, parseNot]
  | succ fuel ih =>
    obtain ⟨ihOr, ihAnd, ihNot⟩ := ih
    refine ⟨?_, ?_, ?_⟩
    · intro ts rest e h
      rcases parseOr_eq_some.mp h with ⟨e₁, us, f, h₁, h₂, -⟩ | ⟨h₁, -⟩
      · obtain ⟨a, rfl, ha⟩ := ihAnd _ _ _ h₁
        obtain ⟨b, rfl, hb⟩ := ihOr _ _ _ h₂
        exact ⟨a ++ .or :: b, by simp, Placed.binary (Or.inr rfl) ha hb⟩
      · exact ihAnd _ _ _ h₁
    · intro ts rest e h
      rcases parseAnd_eq_some.mp h with ⟨e₁, us, f, h₁, h₂, -⟩ | ⟨h₁, -⟩
      · obtain ⟨a, rfl, ha⟩ := ihNot _ _ _ h₁
        obtain ⟨b, rfl, hb⟩ := ihAnd _ _ _ h₂
        exact ⟨a ++ .and :: b, by simp, Placed.binary (Or.inl rfl) ha hb⟩
      · exact ihNot _ _ _ h₁
    · intro ts rest e h
      rcases parseNot_eq_some.mp h with ⟨us, f, rfl, h₁, -⟩ | ⟨a, rfl, -⟩ | ⟨us, rfl, h₁⟩
      · obtain ⟨a, rfl, ha⟩ := ihNot _ _ _ h₁
        exact ⟨.not :: a, rfl, ha.not⟩
      · exact ⟨[.atom a], rfl, Placed.atom a⟩
      · obtain ⟨a, rfl, ha⟩ := ihOr _ _ _ h₁
        exact ⟨.lpar :: a ++ [.rpar], by simp, ha.parens⟩

theorem placed_of_parse {ts : List (BoolTok α)} {e : BoolExpr α} (h : parse ts = some e) :
    Placed ts := by
  obtain ⟨us, hus, hp⟩ := (parse_placed _).1 _ _ _ (parse_eq_some.mp h)
  rw [List.append_nil] at hus
  rwa [hus]

/-- Two expressions with nothing between them are none. -/
theorem parse_juxtaposed {ts us more : List (BoolTok α)} (h₁ : Placed ts) (h₂ : Placed us) :
    parse (ts ++ us ++ more) = none := by
  cases hp : parse (ts ++ us ++ more) with
  | none => rfl
  | some e =>
    have hchain := (placed_of_parse hp).chain
    rw [List.append_assoc, List.isChain_append] at hchain
    obtain ⟨s, hs, hc⟩ := h₁.last
    obtain ⟨t, ht, ho⟩ := h₂.first
    have hhead : t ∈ (us ++ more).head? := by
      cases us with
      | nil => simp at ht
      | cons u us => simpa using ht
    exact absurd ⟨hc, ho⟩ (hchain.2.2 s hs t hhead)

end BoolExpr

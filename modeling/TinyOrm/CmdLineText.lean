import TinyOrm.CmdLine
set_option autoImplicit false

/-!
A command line that is one string, and the usage text (generator/cmdline/cmdline.h).
-/

namespace TinyOrm

namespace CmdLine

variable {V : Type}

/-! ## Words -/

/-- The loop of `parse(arg)`. -/
def words : Str → List Str → Str → Bool → Except Str (List Str)
  | [], args, buf, in_quote =>
    if in_quote then .error "quote is not closed".toList
    else .ok (if buf.length > 0 then args ++ [buf] else args)
  | c :: cs, args, buf, in_quote =>
    if c = '"' then words cs args buf (!in_quote)
    else if c = ' ' ∧ in_quote = false then words cs (args ++ [buf]) [] in_quote
    else if c = '\\' then
      match cs with
      | [] => .error "unexpected occurrence of '\\' at end of string".toList
      | d :: cs => words cs args (buf ++ [d]) in_quote
    else words cs args (buf ++ [c]) in_quote
termination_by structural cs => cs

theorem words_cons (c : Char) (cs : Str) (args : List Str) (buf : Str) (in_quote : Bool) :
    words (c :: cs) args buf in_quote =
      if c = '"' then words cs args buf (!in_quote)
      else if c = ' ' ∧ in_quote = false then words cs (args ++ [buf]) [] in_quote
      else if c = '\\' then
        match cs with
        | [] => .error "unexpected occurrence of '\\' at end of string".toList
        | d :: cs => words cs args (buf ++ [d]) in_quote
      else words cs args (buf ++ [c]) in_quote := by
  cases cs <;> rfl

/-- A text for a word: a quote changes whether a blank belongs to the word, and a
backslash stands in front of a character of the word. -/
inductive Spells : Bool → Str → Str → Bool → Prop where
  | nil (q : Bool) : Spells q [] [] q
  | quote {q r : Bool} {text word : Str} (h : Spells (!q) text word r) :
      Spells q ('"' :: text) word r
  | escape {q r : Bool} {text word : Str} (c : Char) (h : Spells q text word r) :
      Spells q ('\\' :: c :: text) (c :: word) r
  | plain {q r : Bool} {text word : Str} {c : Char} (hquote : c ≠ '"') (hescape : c ≠ '\\')
      (hblank : c = ' ' → q = true) (h : Spells q text word r) : Spells q (c :: text) (c :: word) r

/-- A blank between two texts. -/
def joinTexts : List Str → Str
  | [] => []
  | [text] => text
  | text :: next :: texts => text ++ ' ' :: joinTexts (next :: texts)

/-- An empty word at the end is not seen. -/
def seen (ws : List Str) : List Str := if ws.getLast? = some [] then ws.dropLast else ws

theorem seen_cons (w next : Str) (ws : List Str) :
    seen (w :: next :: ws) = w :: seen (next :: ws) := by
  simp only [seen, List.getLast?_cons_cons, List.dropLast_cons_cons]
  split <;> rfl

theorem joinTexts_cons (c : Char) (text : Str) (texts : List Str) :
    joinTexts ((c :: text) :: texts) = c :: joinTexts (text :: texts) := by
  cases texts <;> rfl

/-- A text within a word goes to the buffer. -/
theorem words_spells {q r : Bool} {text word : Str} (h : Spells q text word r) (rest : Str)
    (args : List Str) (buf : Str) :
    words (text ++ rest) args buf q = words rest args (buf ++ word) r := by
  induction h generalizing buf with
  | nil q => rw [List.append_nil, List.nil_append]
  | quote h ih =>
    rw [List.cons_append, words_cons, if_pos rfl]
    exact ih buf
  | @escape q r text word c h ih =>
    rw [List.cons_append, List.cons_append, words_cons, if_neg (by decide), if_neg (by simp),
      if_pos rfl]
    simp only
    rw [ih, List.append_assoc]
    rfl
  | @plain q r text word c hquote hescape hblank h ih =>
    have hblank' : ¬ (c = ' ' ∧ q = false) := by
      rintro ⟨hc, hq⟩
      rw [hblank hc] at hq
      cases hq
    rw [List.cons_append, words_cons, if_neg hquote, if_neg hblank', if_neg hescape, ih,
      List.append_assoc]
    rfl

/-- Words with their texts. -/
abbrev Line (ps : List (Str × Str)) : Prop := ∀ p ∈ ps, Spells false p.1 p.2 false

theorem words_line {p : Str × Str} {ps : List (Str × Str)} (h : Line (p :: ps)) (args : List Str) :
    words (joinTexts ((p :: ps).map Prod.fst)) args [] false =
      .ok (args ++ seen ((p :: ps).map Prod.snd)) := by
  induction ps generalizing p args with
  | nil =>
    have hp := words_spells (h p (by simp)) [] args []
    rw [List.append_nil, List.nil_append] at hp
    have hjoin : joinTexts ([p].map Prod.fst) = p.1 := rfl
    rw [hjoin, hp, words]
    cases hword : p.2 with
    | nil => simp [seen, hword]
    | cons c cs => simp [seen, hword]
  | cons next ps ih =>
    have hp := words_spells (h p (by simp)) (' ' :: joinTexts ((next :: ps).map Prod.fst)) args []
    have hjoin : joinTexts ((p :: next :: ps).map Prod.fst) =
        p.1 ++ ' ' :: joinTexts ((next :: ps).map Prod.fst) := rfl
    rw [hjoin, hp, words_cons, if_neg (by decide), if_pos ⟨rfl, rfl⟩,
      ih (fun q hq => h q (by simp [hq]))]
    simp [seen_cons]

/-- Where the loop ends well, the rest of the text is that of the word in the buffer and of
further words. -/
theorem words_ok {text : Str} {args : List Str} {buf : Str} {q : Bool} {res : List Str}
    (h : words text args buf q = .ok res) :
    ∃ (p : Str × Str) (ps : List (Str × Str)), Spells q p.1 p.2 false ∧ Line ps ∧
      text = joinTexts (p.1 :: ps.map Prod.fst) ∧
      res = args ++ seen ((buf ++ p.2) :: ps.map Prod.snd) := by
  induction hn : text.length using Nat.strong_induction_on generalizing text args buf q with
  | _ n ih =>
    cases text with
    | nil =>
      rw [words] at h
      split at h
      · cases h
      · rename_i hq
        obtain rfl : q = false := by simpa using hq
        obtain rfl := Except.ok.inj h
        refine ⟨([], []), [], .nil false, by simp, rfl, ?_⟩
        cases buf <;> simp [seen]
    | cons c cs =>
      have hlt : cs.length < n := by
        rw [← hn]
        simp
      rw [words_cons] at h
      split at h
      · rename_i hc
        subst hc
        obtain ⟨p, ps, hp, hps, htext, hres⟩ := ih _ hlt h rfl
        exact ⟨('"' :: p.1, p.2), ps, .quote hp, hps, by rw [joinTexts_cons, htext], hres⟩
      · rename_i hquote
        split at h
        · rename_i hblank
          obtain ⟨rfl, rfl⟩ := hblank
          obtain ⟨p, ps, hp, hps, htext, hres⟩ := ih _ hlt h rfl
          refine ⟨([], []), p :: ps, .nil false, ?_, by rw [htext]; rfl, ?_⟩
          · intro r hr
            rcases List.mem_cons.mp hr with rfl | hr
            · exact hp
            · exact hps r hr
          · rw [hres, List.map_cons, seen_cons]
            simp
        · rename_i hblank
          split at h
          · rename_i hescape
            subst hescape
            match cs, h with
            | d :: cs, h =>
              have hlt' : cs.length < n := by
                rw [← hn]
                simp only [List.length_cons]
                omega
              obtain ⟨p, ps, hp, hps, htext, hres⟩ := ih _ hlt' h rfl
              refine ⟨('\\' :: d :: p.1, d :: p.2), ps, .escape d hp, hps, ?_, ?_⟩
              · rw [joinTexts_cons, joinTexts_cons, htext]
              · rw [hres, List.append_assoc]
                rfl
          · rename_i hescape
            obtain ⟨p, ps, hp, hps, htext, hres⟩ := ih _ hlt h rfl
            refine ⟨(c :: p.1, c :: p.2), ps, .plain hquote hescape ?_ hp, hps, ?_, ?_⟩
            · intro hc
              simpa using fun hq => hblank ⟨hc, hq⟩
            · rw [joinTexts_cons, htext]
            · rw [hres, List.append_assoc]
              rfl

/-- A line is split into the words that its texts spell, but for an empty one at the end. -/
theorem words_iff {line : Str} {res : List Str} :
    words line [] [] false = .ok res ↔ ∃ ps, ps ≠ [] ∧ Line ps ∧
      line = joinTexts (ps.map Prod.fst) ∧ res = seen (ps.map Prod.snd) := by
  constructor
  · intro h
    obtain ⟨p, ps, hp, hps, htext, hres⟩ := words_ok h
    refine ⟨p :: ps, by simp, ?_, htext, hres⟩
    intro r hr
    rcases List.mem_cons.mp hr with rfl | hr
    · exact hp
    · exact hps r hr
  · intro h
    obtain ⟨ps, hne, hps, rfl, rfl⟩ := h
    obtain ⟨p, ps, rfl⟩ := List.exists_cons_of_ne_nil hne
    exact words_line hps []

/-- A backslash in front of every character that is not taken as it is. -/
def escape (word : Str) : Str :=
  word.flatMap fun c => if c = '"' ∨ c = '\\' ∨ c = ' ' then ['\\', c] else [c]

theorem spells_escape (word : Str) : Spells false (escape word) word false := by
  induction word with
  | nil => exact .nil false
  | cons c word ih =>
    have hcons : escape (c :: word) =
        (if c = '"' ∨ c = '\\' ∨ c = ' ' then ['\\', c] else [c]) ++ escape word := rfl
    rw [hcons]
    split
    · exact .escape c ih
    · rename_i hplain
      rw [not_or, not_or] at hplain
      exact .plain hplain.1 hplain.2.1 (fun hc => absurd hc hplain.2.2) ih

/-- Escaped arguments come back, if the last one is not empty. -/
theorem words_escape {args : List Str} (h : args ≠ []) (hlast : args.getLast? ≠ some []) :
    words (joinTexts (args.map escape)) [] [] false = .ok args := by
  obtain ⟨first, more, rfl⟩ := List.exists_cons_of_ne_nil h
  have hline : Line ((first :: more).map fun w => (escape w, w)) := by
    intro p hp
    obtain ⟨w, -, rfl⟩ := List.mem_map.mp hp
    exact spells_escape w
  have hargs : ((first :: more).map fun w => (escape w, w)).map Prod.snd = first :: more := by
    rw [List.map_map]
    exact List.map_id _
  have htexts : ((first :: more).map fun w => (escape w, w)).map Prod.fst =
      (first :: more).map escape := by
    rw [List.map_map]
    rfl
  have hwords := words_line (p := (escape first, first)) hline []
  rw [← htexts]
  refine hwords.trans ?_
  rw [← List.map_cons (f := fun w => (escape w, w)), hargs, List.nil_append, seen, if_neg hlast]

/-! ## Usage -/

namespace Parser

/-- The options in the order of their definitions. -/
def defined (p : Parser V) : List (Opt V) := p.ordered.filterMap p.find

def maxWidth (p : Parser V) : Nat := p.defined.foldl (fun width o => max width o.name.length) 0

def optionFront (width : Nat) (o : Opt V) : Str :=
  (if o.short_name ≠ '\x00' then "  -".toList ++ [o.short_name] ++ ", ".toList
    else "      ".toList) ++
    "--".toList ++ o.name ++ List.replicate (width + 4 - o.name.length) ' '

def usage (p : Parser V) : Str :=
  "usage: ".toList ++ p.prog_name ++ " ".toList ++
    (p.defined.flatMap fun o => if o.must then o.short_description ++ " ".toList else []) ++
    "[options] ... ".toList ++ p.ftr ++ "\n".toList ++ "options:\n".toList ++
    p.defined.flatMap fun o => optionFront p.maxWidth o ++ o.description ++ "\n".toList

theorem le_foldl_max (os : List (Opt V)) (width : Nat) :
    width ≤ os.foldl (fun width o => max width o.name.length) width ∧
      ∀ o ∈ os, o.name.length ≤ os.foldl (fun width o => max width o.name.length) width := by
  induction os generalizing width with
  | nil => exact ⟨Nat.le_refl _, by simp⟩
  | cons o os ih =>
    obtain ⟨hwidth, hos⟩ := ih (max width o.name.length)
    refine ⟨by rw [List.foldl_cons]; omega, ?_⟩
    intro q hq
    rw [List.foldl_cons]
    rcases List.mem_cons.mp hq with rfl | hq
    · omega
    · exact hos q hq

/-- The descriptions begin in one column, with blanks in front of them. -/
theorem optionFront_length {p : Parser V} {o : Opt V} (ho : o ∈ p.defined) :
    (optionFront p.maxWidth o).length = p.maxWidth + 12 ∧
      List.replicate 4 ' ' <:+ optionFront p.maxWidth o := by
  have hle : o.name.length ≤ p.maxWidth := (le_foldl_max p.defined 0).2 o ho
  obtain ⟨n, hn⟩ : ∃ n, p.maxWidth + 4 - o.name.length = n + 4 :=
    ⟨p.maxWidth - o.name.length, by omega⟩
  constructor
  · unfold optionFront
    split <;> simp <;> omega
  · rw [optionFront, hn, ← List.replicate_append_replicate, ← List.append_assoc]
    exact List.suffix_append _ _

/-! ## Checked parsing -/

/-- `c_str()` ends at a zero. -/
def c_str (arg : Str) : Str := arg.takeWhile (· ≠ '\x00')

/-- `parse(args)`. -/
def parseVector (p : Parser V) (args : List Str) : Parser V × Bool := p.parse (args.map c_str)

/-- `parse(arg)`. Errors of the line stand behind those that are there. -/
def parseLine (p : Parser V) (arg : Str) : Parser V × Bool :=
  match words arg [] [] false with
  | .error e => (p.error e, false)
  | .ok args => p.parseVector args

/-- `error()`. -/
def firstError (p : Parser V) : Str := p.errors.head?.getD []

/-- `check` exits with a code and a text, or goes on. -/
inductive Checked (V : Type) where
  | exits (code : Nat) (printed : Str)
  | goes (p : Parser V)

def check (argc : Nat) (r : Parser V × Bool) : Checked V :=
  if (argc = 1 ∧ r.2 = false) ∨ r.1.exist "help".toList = .ok true then .exits 0 r.1.usage
  else if r.2 = false then .exits 1 (r.1.firstError ++ "\n".toList ++ r.1.usage)
  else .goes r.1

theorem check_goes {argc : Nat} {r : Parser V × Bool} {p : Parser V} :
    check argc r = .goes p ↔ r.2 = true ∧ r.1.exist "help".toList ≠ .ok true ∧ r.1 = p := by
  unfold check
  split
  · rename_i hexit
    refine iff_of_false (by simp) fun hgoes => ?_
    rcases hexit with hexit | hexit
    · rw [hexit.2] at hgoes
      cases hgoes.1
    · exact hgoes.2.1 hexit
  · rename_i hexit
    rw [not_or] at hexit
    split
    · rename_i hfail
      exact iff_of_false (by simp) fun hgoes => by rw [hfail] at hgoes; cases hgoes.1
    · rename_i hok
      have hok : r.2 = true := by simpa using hok
      simp only [Checked.goes.injEq]
      exact ⟨fun heq => ⟨hok, hexit.2, heq⟩, fun hgoes => hgoes.2.2⟩

def withHelp (p : Parser V) : Parser V :=
  match p.add "help".toList '?' "print this message".toList with
  | .ok q => q
  | .error _ => p

theorem Distinct.withHelp {p : Parser V} (h : p.Distinct) : p.withHelp.Distinct := by
  unfold Parser.withHelp
  split
  · rename_i q hq
    exact h.addOption hq
  · exact h

/-- `parse_check(argc, argv)`. -/
def parse_check (p : Parser V) (argv : List Str) : Checked V :=
  check argv.length (p.withHelp.parse argv)

/-- `parse_check(arg)`. -/
def parseLine_check (p : Parser V) (arg : Str) : Checked V := check 0 (p.withHelp.parseLine arg)

end Parser

end CmdLine

end TinyOrm

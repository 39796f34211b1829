import TinyOrm.Text
import Mathlib.Data.List.Nodup
set_option autoImplicit false

/-!
Options and arguments of a command line (generator/cmdline/cmdline.h).

The values of all options are of one type; an option has the name of its own type, and
`read` is its reader, `none` where that throws.
-/

namespace TinyOrm

namespace CmdLine

/-! ## Options -/

/-- What `option_with_value` has more than `option_without_value`. -/
structure ValueOption (V : Type) where
  typeName : Str
  need : Bool
  default_ : V
  actual : V
  read : Str → Option V

/-- A short name of zero is none. -/
structure Opt (V : Type) where
  name : Str
  short_name : Char
  description : Str
  value : Option (ValueOption V)
  has : Bool

variable {V : Type}

namespace Opt

/-- `set()`; `none` is false. -/
def set (o : Opt V) : Option (Opt V) :=
  match o.value with
  | none => some { o with has := true }
  | some _ => none

/-- `set(value)`; a value that cannot be read leaves the last one. -/
def setValue (o : Opt V) (value : Str) : Option (Opt V) :=
  match o.value with
  | none => none
  | some vo => (vo.read value).map fun v =>
      { o with value := some { vo with actual := v }, has := true }

def valid (o : Opt V) : Bool :=
  match o.value with
  | none => true
  | some vo => !(vo.need && !o.has)

def must (o : Opt V) : Bool :=
  match o.value with
  | none => false
  | some vo => vo.need

def short_description (o : Opt V) : Str :=
  match o.value with
  | none => "--".toList ++ o.name
  | some vo => "--".toList ++ o.name ++ "=".toList ++ vo.typeName

end Opt

/-! ## The parser -/

/-- `options` is in the order of the names, `ordered` has the names in the order of the
definitions. -/
structure Parser (V : Type) where
  options : List (Opt V) := []
  ordered : List Str := []
  ftr : Str := []
  prog_name : Str := []
  others : List Str := []
  errors : List Str := []

namespace Parser

def find (p : Parser V) (name : Str) : Option (Opt V) := p.options.find? (·.name = name)

def insertOption (o : Opt V) : List (Opt V) → List (Opt V)
  | [] => [o]
  | p :: ps => if o.name < p.name then o :: p :: ps else p :: insertOption o ps

/-- The error is that of `cmdline_error`. -/
def addOption (p : Parser V) (o : Opt V) : Except Str (Parser V) :=
  if (p.find o.name).isSome then .error ("multiple definition: ".toList ++ o.name)
  else .ok { p with options := insertOption o p.options, ordered := p.ordered ++ [o.name] }

def add (p : Parser V) (name : Str) (short_name : Char) (desc : Str) : Except Str (Parser V) :=
  p.addOption ⟨name, short_name, desc, none, false⟩

/-- `show_` is the stream operator of the type. -/
def addValue (p : Parser V) (typeName : Str) (show_ : V → Str) (name : Str) (short_name : Char)
    (desc : Str) (need : Bool) (default_ : V) (read : Str → Option V) : Except Str (Parser V) :=
  let full := desc ++ " (".toList ++ typeName ++
    (if need then [] else " [=".toList ++ show_ default_ ++ "]".toList) ++ ")".toList
  p.addOption ⟨name, short_name, full, some ⟨typeName, need, default_, default_, read⟩, false⟩

def exist (p : Parser V) (name : Str) : Except Str Bool :=
  match p.find name with
  | none => .error ("there is no flag: --".toList ++ name)
  | some o => .ok o.has

def get (p : Parser V) (typeName : Str) (name : Str) : Except Str V :=
  match p.find name with
  | none => .error ("there is no flag: --".toList ++ name)
  | some o =>
    match o.value with
    | none => .error ("type mismatch flag '".toList ++ name ++ "'".toList)
    | some vo =>
      if vo.typeName = typeName then .ok vo.actual
      else .error ("type mismatch flag '".toList ++ name ++ "'".toList)

def error (p : Parser V) (e : Str) : Parser V := { p with errors := p.errors ++ [e] }

def update (p : Parser V) (o : Opt V) : Parser V :=
  { p with options := p.options.map fun q => if q.name = o.name then o else q }

/-- `set_option(name)`. -/
def setOption (p : Parser V) (name : Str) : Parser V :=
  match p.find name with
  | none => p.error ("undefined option: --".toList ++ name)
  | some o =>
    match o.set with
    | none => p.error ("option needs value: --".toList ++ name)
    | some o => p.update o

/-- `set_option(name, value)`. -/
def setOptionValue (p : Parser V) (name value : Str) : Parser V :=
  match p.find name with
  | none => p.error ("undefined option: --".toList ++ name)
  | some o =>
    match o.setValue value with
    | none => p.error ("option value is invalid: --".toList ++ name ++ "=".toList ++ value)
    | some o => p.update o

def hasValue (p : Parser V) (name : Str) : Bool := (p.find name).any (·.value.isSome)

/-! ## The arguments -/

abbrev Lookup := List (Char × Str)

/-- The short names; one that is there twice is an error. -/
def fillLookup : List (Opt V) → Lookup → Except Str Lookup
  | [], lookup => .ok lookup
  | o :: os, lookup =>
    if o.name = [] then fillLookup os lookup
    else if o.short_name = '\x00' then fillLookup os lookup
    else if (lookup.lookup o.short_name).isSome then
      .error ("short option '".toList ++ [o.short_name] ++ "' is ambiguous".toList)
    else fillLookup os ((o.short_name, o.name) :: lookup)

/-- A short option in front of others. -/
def setShort (lookup : Lookup) (p : Parser V) (c : Char) : Parser V :=
  match lookup.lookup c with
  | none => p.error ("undefined short option: -".toList ++ [c])
  | some name =>
    if name = [] then p.error ("ambiguous short option: -".toList ++ [c]) else p.setOption name

/-- The name and the value of an argument with a '='. -/
def splitAssign (arg : Str) : Option (Str × Str) :=
  if '=' ∈ arg then some (arg.takeWhile (· ≠ '='), (arg.dropWhile (· ≠ '=')).drop 1) else none

inductive Arg where
  | long (arg : Str)
  | dash
  | short (c : Char) (cs : Str)
  | other (arg : Str)

/-- The branches on `strncmp`. -/
def kind : Str → Arg
  | '-' :: '-' :: arg => .long arg
  | ['-'] => .dash
  | '-' :: c :: cs => .short c cs
  | arg => .other arg

/-- The loop over `argv`. The last short option of an argument, and a long option without
a '=', take the next argument for their value. -/
def parseArgs (lookup : Lookup) : Parser V → List Str → Parser V
  | p, [] => p
  | p, arg :: rest =>
    match kind arg with
    | .long arg =>
      match splitAssign arg with
      | some (name, val) => parseArgs lookup (p.setOptionValue name val) rest
      | none =>
        if (p.find arg).isNone then
          parseArgs lookup (p.error ("undefined option: --".toList ++ arg)) rest
        else if p.hasValue arg then
          match rest with
          | [] => p.error ("option needs value: --".toList ++ arg)
          | val :: rest => parseArgs lookup (p.setOptionValue arg val) rest
        else parseArgs lookup (p.setOption arg) rest
    | .dash => parseArgs lookup p rest
    | .short c cs =>
      let p := (c :: cs).dropLast.foldl (setShort lookup) p
      let last := (c :: cs).getLast (by simp)
      match lookup.lookup last with
      | none => parseArgs lookup (p.error ("undefined short option: -".toList ++ [last])) rest
      | some name =>
        if name = [] then
          parseArgs lookup (p.error ("ambiguous short option: -".toList ++ [last])) rest
        else if p.hasValue name then
          match rest with
          | [] => p.setOption name
          | val :: rest => parseArgs lookup (p.setOptionValue name val) rest
        else parseArgs lookup (p.setOption name) rest
    | .other arg => parseArgs lookup { p with others := p.others ++ [arg] } rest
termination_by structural _ args => args

/-- The loop over the options at the end. -/
def needOptions (p : Parser V) : Parser V :=
  { p with errors := p.errors ++ (p.options.filter fun o => !o.valid).map fun o =>
      "need option: --".toList ++ o.name }

/-- `parse(argc, argv)`. -/
def parse (p : Parser V) (argv : List Str) : Parser V × Bool :=
  let p := { p with errors := [], others := [] }
  match argv with
  | [] => (p.error "argument number must be longer than 0".toList, false)
  | prog :: args =>
    let p := if p.prog_name = [] then { p with prog_name := prog } else p
    match fillLookup p.options [] with
    | .error e => (p.error e, false)
    | .ok lookup =>
      let p := needOptions (parseArgs lookup p args)
      (p, p.errors.isEmpty)

end Parser

/-! ## Settings -/

/-- The name of an option, and the value for it if it has one. -/
abbrev Setting := Str × Option Str

namespace Opt

/-- The option after it is set, if that is accepted. -/
def given (o : Opt V) : Option Str → Option (Opt V)
  | none => o.set
  | some value => o.setValue value

def apply (o : Opt V) (s : Setting) : Opt V := if s.1 = o.name then (o.given s.2).getD o else o

/-- Some setting of the option is accepted. -/
def acceptedIn (o : Opt V) (settings : List Setting) : Bool :=
  settings.any fun s => s.1 = o.name && (o.given s.2).isSome

/-- What an option is after a setting that it accepts. -/
theorem given_cases {o o' : Opt V} {value : Option Str} (h : o.given value = some o') :
    (o.value = none ∧ value = none ∧ o' = { o with has := true }) ∨
    ∃ vo val v, o.value = some vo ∧ value = some val ∧ vo.read val = some v ∧
      o' = { o with value := some { vo with actual := v }, has := true } := by
  cases hvo : o.value with
  | none =>
    left
    cases value with
    | none =>
      simp only [given, set, hvo, Option.some.injEq] at h
      exact ⟨rfl, rfl, h.symm⟩
    | some val => simp [given, setValue, hvo] at h
  | some vo =>
    right
    cases value with
    | none => simp [given, set, hvo] at h
    | some val =>
      simp only [given, setValue, hvo, Option.map_eq_some_iff] at h
      obtain ⟨v, hv, rfl⟩ := h
      exact ⟨vo, val, v, rfl, rfl, hv, rfl⟩

/-- The declaration of an option, which no setting changes. -/
def Same (o o' : Opt V) : Prop :=
  o'.name = o.name ∧ o'.short_name = o.short_name ∧ o'.value.isSome = o.value.isSome

theorem apply_same (o : Opt V) (s : Setting) : o.Same (o.apply s) := by
  unfold apply
  split
  · cases h : o.given s.2 with
    | none => exact ⟨rfl, rfl, rfl⟩
    | some o' =>
      rcases given_cases h with ⟨-, -, rfl⟩ | ⟨vo, val, v, hvo, -, -, rfl⟩
      · exact ⟨rfl, rfl, rfl⟩
      · exact ⟨rfl, rfl, by rw [hvo]; rfl⟩
  · exact ⟨rfl, rfl, rfl⟩

/-- Whether a setting is accepted does not depend on the earlier ones. -/
theorem given_apply (o : Opt V) (s : Setting) (value : Option Str) :
    ((o.apply s).given value).isSome = (o.given value).isSome := by
  unfold apply
  split
  · cases h : o.given s.2 with
    | none => rfl
    | some o' =>
      rcases given_cases h with ⟨hvo, -, rfl⟩ | ⟨vo, val, v, hvo, -, -, rfl⟩
      · cases value <;> simp [given, set, setValue, hvo]
      · cases value with
        | none => simp [given, set, hvo]
        | some val => cases hread : vo.read val <;> simp [given, setValue, hvo, hread]
  · rfl

theorem acceptedIn_apply (o : Opt V) (s : Setting) (settings : List Setting) :
    (o.apply s).acceptedIn settings = o.acceptedIn settings := by
  simp only [acceptedIn, given_apply, (apply_same o s).1]

theorem foldl_apply_same (o : Opt V) (settings : List Setting) :
    o.Same (settings.foldl apply o) := by
  induction settings generalizing o with
  | nil => exact ⟨rfl, rfl, rfl⟩
  | cons s settings ih =>
    obtain ⟨hname, hshort, hvalue⟩ := apply_same o s
    obtain ⟨hname', hshort', hvalue'⟩ := ih (o.apply s)
    exact ⟨hname'.trans hname, hshort'.trans hshort, hvalue'.trans hvalue⟩

theorem foldl_given (o : Opt V) (settings : List Setting) (value : Option Str) :
    ((settings.foldl apply o).given value).isSome = (o.given value).isSome := by
  induction settings generalizing o with
  | nil => rfl
  | cons s settings ih => exact (ih (o.apply s)).trans (given_apply o s value)

theorem foldl_apply_has (o : Opt V) (settings : List Setting) :
    (settings.foldl apply o).has = (o.has || o.acceptedIn settings) := by
  induction settings generalizing o with
  | nil => simp [acceptedIn]
  | cons s settings ih =>
    rw [List.foldl_cons, ih, acceptedIn_apply]
    have hcons : o.acceptedIn (s :: settings) =
        ((s.1 = o.name && (o.given s.2).isSome) || o.acceptedIn settings) := rfl
    rw [hcons, ← Bool.or_assoc]
    congr 1
    unfold apply
    split
    · rename_i hname
      cases h : o.given s.2 with
      | none => simp
      | some o' =>
        rcases given_cases h with ⟨-, -, rfl⟩ | ⟨vo, val, v, -, -, -, rfl⟩ <;> simp [hname]
    · rename_i hname
      simp [hname]

/-- What one setting gives the option. -/
def read (o : Opt V) (vo : ValueOption V) (s : Setting) : Option V :=
  if s.1 = o.name then s.2.bind vo.read else none

theorem apply_value {o : Opt V} {vo : ValueOption V} (hvo : o.value = some vo) (s : Setting) :
    (o.apply s).value = some { vo with actual := (o.read vo s).getD vo.actual } := by
  unfold apply Opt.read
  split
  · cases h : o.given s.2 with
    | none =>
      have hread : s.2.bind vo.read = none := by
        cases hs : s.2 with
        | none => rfl
        | some val => simpa [given, setValue, hvo, hs] using h
      rw [hread]
      exact hvo
    | some o' =>
      rcases given_cases h with ⟨hnone, -, -⟩ | ⟨vo', val, v, hvo', hs, hread, rfl⟩
      · rw [hvo] at hnone
        cases hnone
      · obtain rfl : vo = vo' := Option.some.inj (hvo.symm.trans hvo')
        rw [hs, Option.bind_some, hread]
        rfl
  · exact hvo

/-- The last value that can be read counts. -/
theorem foldl_apply_value {o : Opt V} {vo : ValueOption V} (hvo : o.value = some vo)
    (settings : List Setting) :
    (settings.foldl apply o).value =
      some { vo with actual := (settings.filterMap (o.read vo)).getLast?.getD vo.actual } := by
  induction settings generalizing o vo with
  | nil => exact hvo
  | cons s settings ih =>
    have hread : (o.apply s).read { vo with actual := (o.read vo s).getD vo.actual } =
        o.read vo := by
      funext t
      simp only [Opt.read, (apply_same o s).1]
    have hlast : (settings.filterMap (o.read vo)).getLast?.getD ((o.read vo s).getD vo.actual) =
        ((s :: settings).filterMap (o.read vo)).getLast?.getD vo.actual := by
      rw [List.filterMap_cons]
      cases o.read vo s with
      | none => rfl
      | some v =>
        cases settings.filterMap (o.read vo) with
        | nil => rfl
        | cons w ws => simp [List.getLast?_eq_some_getLast]
    rw [List.foldl_cons, ih (apply_value hvo s), hread, hlast]

end Opt

/-! ## The loop over settings -/

namespace Parser

/-- Names are those of one option each. -/
def Distinct (p : Parser V) : Prop := (p.options.map Opt.name).Nodup

def setting (p : Parser V) (s : Setting) : Parser V :=
  match s.2 with
  | none => p.setOption s.1
  | some value => p.setOptionValue s.1 value

/-- What is reported of a setting. -/
def report (p : Parser V) (s : Setting) : List Str :=
  match p.find s.1 with
  | none => ["undefined option: --".toList ++ s.1]
  | some o =>
    if (o.given s.2).isSome then []
    else match s.2 with
      | none => ["option needs value: --".toList ++ s.1]
      | some value => ["option value is invalid: --".toList ++ s.1 ++ "=".toList ++ value]

theorem find_mem {p : Parser V} {name : Str} {o : Opt V} (h : p.find name = some o) :
    o ∈ p.options ∧ o.name = name :=
  ⟨List.mem_of_find?_eq_some h, by simpa using List.find?_some h⟩

theorem Distinct.eq {p : Parser V} (h : p.Distinct) {o q : Opt V} (ho : o ∈ p.options)
    (hq : q ∈ p.options) (hname : o.name = q.name) : o = q :=
  List.inj_on_of_nodup_map h ho hq hname

theorem Distinct.find {p : Parser V} (h : p.Distinct) {o : Opt V} (ho : o ∈ p.options) :
    p.find o.name = some o := by
  cases hfind : p.find o.name with
  | none => exact absurd (List.find?_eq_none.mp hfind o ho) (by simp)
  | some q =>
    obtain ⟨hq, hname⟩ := find_mem hfind
    rw [h.eq hq ho hname]

theorem setting_eq {p : Parser V} (h : p.Distinct) (s : Setting) :
    p.setting s = { p with
      options := p.options.map fun o => o.apply s, errors := p.errors ++ p.report s } := by
  have hother {o : Opt V} (hname : s.1 ≠ o.name) : o.apply s = o := by
    rw [Opt.apply, if_neg hname]
  -- the options stay where the setting is refused
  have hsame (hrefused : ∀ o ∈ p.options, s.1 = o.name → o.given s.2 = none) :
      p.options.map (fun o => o.apply s) = p.options := by
    refine (List.map_congr_left fun o ho => ?_).trans (List.map_id _)
    by_cases hname : s.1 = o.name
    · rw [Opt.apply, if_pos hname, hrefused o ho hname]
      rfl
    · exact hother hname
  cases hfind : p.find s.1 with
  | none =>
    have hnone : ∀ o ∈ p.options, s.1 = o.name → o.given s.2 = none := by
      intro o ho hname
      have hfound := h.find ho
      rw [← hname, hfind] at hfound
      cases hfound
    rw [hsame hnone]
    unfold setting setOption setOptionValue report
    rw [hfind]
    cases s.2 <;> rfl
  | some o =>
    obtain ⟨ho, hname⟩ := find_mem hfind
    cases hgiven : o.given s.2 with
    | none =>
      have hrefused : ∀ q ∈ p.options, s.1 = q.name → q.given s.2 = none := by
        intro q hq hq'
        rw [h.eq hq ho (hq'.symm.trans hname.symm), hgiven]
      rw [hsame hrefused]
      unfold setting setOption setOptionValue report
      simp only [hfind, hgiven]
      cases hvalue : s.2 with
      | none =>
        rw [hvalue] at hgiven
        have hset : o.set = none := hgiven
        simp only [hset]
        rfl
      | some value =>
        rw [hvalue] at hgiven
        have hset : o.setValue value = none := hgiven
        simp only [hset]
        rfl
    | some o' =>
      have hname' : o'.name = o.name := by
        rcases Opt.given_cases hgiven with ⟨-, -, rfl⟩ | ⟨vo, val, v, -, -, -, rfl⟩ <;> rfl
      have hoptions : (p.options.map fun q => if q.name = o'.name then o' else q) =
          p.options.map fun q => q.apply s := by
        refine List.map_congr_left fun q hq => ?_
        by_cases hq' : q.name = o'.name
        · rw [if_pos hq', h.eq hq ho (hq'.trans hname'), Opt.apply, if_pos hname.symm, hgiven]
          rfl
        · rw [if_neg hq', hother]
          rw [← hname, ← hname']
          exact Ne.symm hq'
      have hupdate : p.setting s = p.update o' := by
        unfold setting setOption setOptionValue
        simp only [hfind]
        cases hvalue : s.2 with
        | none =>
          rw [hvalue] at hgiven
          have hset : o.set = some o' := hgiven
          simp only [hset]
        | some value =>
          rw [hvalue] at hgiven
          have hset : o.setValue value = some o' := hgiven
          simp only [hset]
      have hreport : p.report s = [] := by simp [report, hfind, hgiven]
      rw [hupdate, hreport, update, hoptions, List.append_nil]

theorem find_map {p q : Parser V} {f : Opt V → Opt V} (hf : ∀ o, (f o).name = o.name)
    (hq : q.options = p.options.map f) (name : Str) : q.find name = (p.find name).map f := by
  rw [find, hq, List.find?_map, find]
  have hname : ((fun o : Opt V => decide (o.name = name)) ∘ f) =
      fun o : Opt V => decide (o.name = name) := by
    funext o
    simp only [Function.comp_apply, hf]
  rw [hname]

theorem Distinct.map {p q : Parser V} (h : p.Distinct) {f : Opt V → Opt V}
    (hf : ∀ o, (f o).name = o.name) (hq : q.options = p.options.map f) : q.Distinct := by
  have hnames : q.options.map Opt.name = p.options.map Opt.name := by
    rw [hq, List.map_map]
    exact List.map_congr_left fun o _ => hf o
  rw [Distinct, hnames]
  exact h

/-- What is reported of a setting does not depend on the earlier ones. -/
theorem report_foldl {p q : Parser V} (settings : List Setting)
    (hq : q.options = p.options.map fun o => settings.foldl Opt.apply o) : q.report = p.report := by
  funext t
  rw [report, find_map (fun o => (Opt.foldl_apply_same o settings).1) hq, report]
  cases p.find t.1 with
  | none => rfl
  | some o => simp only [Option.map_some, Opt.foldl_given]

theorem foldl_setting {p : Parser V} (h : p.Distinct) (settings : List Setting) :
    settings.foldl setting p = { p with
      options := p.options.map fun o => settings.foldl Opt.apply o
      errors := p.errors ++ settings.flatMap p.report } := by
  induction settings generalizing p with
  | nil => simp
  | cons s settings ih =>
    have hstep := setting_eq h s
    rw [List.foldl_cons, hstep]
    generalize hq : ({ p with
      options := p.options.map fun o => o.apply s, errors := p.errors ++ p.report s } : Parser V) =
      q
    have hoptions : q.options = p.options.map fun o => o.apply s := by rw [← hq]
    have hreport : q.report = p.report := report_foldl [s] hoptions
    rw [ih (h.map (fun o => (Opt.apply_same o s).1) hoptions), hreport, hoptions, ← hq]
    simp [Function.comp_def]

end Parser

/-! ## Arguments that are written for settings -/

/-- A setting in one of the ways to write it, or an argument that is none; a lone '-' is
passed over. -/
inductive Item (V : Type) where
  | assign (o : Opt V) (value : Str)
  | long (o : Opt V) (value : Option Str)
  | short (flags : List (Opt V)) (o : Opt V) (value : Option Str)
  | dash
  | other (arg : Str)

namespace Item

def args : Item V → List Str
  | assign o value => ["--".toList ++ o.name ++ "=".toList ++ value]
  | long o value => ("--".toList ++ o.name) :: value.toList
  | short flags o value => ('-' :: (flags.map Opt.short_name ++ [o.short_name])) :: value.toList
  | dash => ["-".toList]
  | other arg => [arg]

def settings : Item V → List Setting
  | assign o value => [(o.name, some value)]
  | long o value => [(o.name, value)]
  | short flags o value => flags.map (fun f => (f.name, none)) ++ [(o.name, value)]
  | dash => []
  | other _ => []

def rest : Item V → Option Str
  | other arg => some arg
  | _ => none

end Item

namespace Parser

/-- An option of the parser, whatever has been set. -/
def Declares (p : Parser V) (o : Opt V) : Prop := ∃ q ∈ p.options, o.Same q

/-- An option that can be set by its short name. -/
def Short (p : Parser V) (o : Opt V) : Prop :=
  p.Declares o ∧ o.name ≠ [] ∧ o.short_name ≠ '\x00'

/-- What is written is about options of the parser, with a value where they have one. A
short option in front of others has none, and '-' is not the first one. -/
def Takes (p : Parser V) : Item V → Prop
  | .assign o _ => p.Declares o ∧ o.value.isSome ∧ '=' ∉ o.name
  | .long o value => p.Declares o ∧ value.isSome = o.value.isSome ∧ '=' ∉ o.name
  | .short flags o value => (∀ f ∈ flags, p.Short f ∧ f.value = none) ∧ p.Short o ∧
      value.isSome = o.value.isSome ∧ (flags.map Opt.short_name ++ [o.short_name]).head? ≠ some '-'
  | .dash => True
  | .other arg => arg.head? ≠ some '-'

/-- Every short name leads to its option. -/
def Finds (p : Parser V) (lookup : Lookup) : Prop :=
  ∀ o, p.Short o → lookup.lookup o.short_name = some o.name

/-- The parser after the settings of an item. -/
def take (p : Parser V) (item : Item V) : Parser V :=
  let q := item.settings.foldl setting p
  { q with others := q.others ++ item.rest.toList }

theorem kind_short {c : Char} (h : c ≠ '-') (cs : Str) : kind ('-' :: c :: cs) = .short c cs := by
  unfold kind
  split
  · rename_i heq
    exact absurd (List.cons.inj (List.cons.inj heq).2).1 h
  · rename_i heq
    cases heq
  · rename_i heq
    cases heq
    rfl
  · rename_i hshort
    exact absurd rfl (hshort c cs)

theorem kind_other {arg : Str} (h : arg.head? ≠ some '-') : kind arg = .other arg := by
  unfold kind
  split
  · exact absurd rfl h
  · exact absurd rfl h
  · exact absurd rfl h
  · rfl

theorem splitAssign_append {name : Str} (h : '=' ∉ name) (value : Str) :
    splitAssign (name ++ "=".toList ++ value) = some (name, value) := by
  have hne : ∀ c ∈ name, decide (c ≠ '=') = true := by
    intro c hc
    simp only [ne_eq, decide_not, Bool.not_eq_eq_eq_not, Bool.not_true, decide_eq_false_iff_not]
    intro heq
    exact h (heq ▸ hc)
  have hmem : '=' ∈ name ++ "=".toList ++ value := by simp
  rw [splitAssign, if_pos hmem, List.append_assoc, List.takeWhile_append_of_pos hne,
    List.dropWhile_append_of_pos hne]
  simp

theorem splitAssign_eq_none {name : Str} (h : '=' ∉ name) : splitAssign name = none := if_neg h

theorem declares_map {p q : Parser V} {f : Opt V → Opt V} (hf : ∀ o : Opt V, o.Same (f o))
    (hq : q.options = p.options.map f) (o : Opt V) : q.Declares o ↔ p.Declares o := by
  unfold Declares
  rw [hq]
  constructor
  · intro hdeclares
    obtain ⟨_, hmem, hname, hshort, hvalue⟩ := hdeclares
    obtain ⟨r, hr, rfl⟩ := List.mem_map.mp hmem
    obtain ⟨hname', hshort', hvalue'⟩ := hf r
    exact ⟨r, hr, hname'.symm.trans hname, hshort'.symm.trans hshort, hvalue'.symm.trans hvalue⟩
  · intro hdeclares
    obtain ⟨r, hr, hname, hshort, hvalue⟩ := hdeclares
    obtain ⟨hname', hshort', hvalue'⟩ := hf r
    exact ⟨f r, List.mem_map_of_mem hr, hname'.trans hname, hshort'.trans hshort,
      hvalue'.trans hvalue⟩

theorem hasValue_eq {p : Parser V} (h : p.Distinct) {o : Opt V} (ho : p.Declares o)
    (settings : List Setting) :
    (settings.foldl setting p).hasValue o.name = o.value.isSome := by
  obtain ⟨q, hq, hname, -, hvalue⟩ := ho
  rw [foldl_setting h, hasValue, find_map (p := p)
    (f := fun o => settings.foldl Opt.apply o) (fun o => (Opt.foldl_apply_same o settings).1) rfl,
    ← hname, h.find hq]
  exact (Opt.foldl_apply_same q settings).2.2.trans hvalue

theorem parseArgs_long {p : Parser V} (h : p.Distinct) {lookup : Lookup} {o : Opt V}
    (ho : p.Declares o) {value : Option Str} (hvalue : value.isSome = o.value.isSome)
    (hname : '=' ∉ o.name) (rest : List Str) :
    parseArgs lookup p (("--".toList ++ o.name) :: (value.toList ++ rest)) =
      parseArgs lookup (p.setting (o.name, value)) rest := by
  have hkind : kind ("--".toList ++ o.name) = .long o.name := rfl
  have hfound : (p.find o.name).isNone = false := by
    obtain ⟨q, hq, hq', -, -⟩ := ho
    rw [← hq', h.find hq]
    rfl
  have hhas : p.hasValue o.name = o.value.isSome := hasValue_eq h ho []
  rw [parseArgs, hkind]
  simp only [splitAssign_eq_none hname, hfound, hhas, ← hvalue, Bool.false_eq_true, if_false]
  cases value with
  | none => rfl
  | some value => rfl

/-- The short options in front of the last one. -/
theorem foldl_setShort {lookup : Lookup} {flags : List (Opt V)}
    (hflags : ∀ f ∈ flags, lookup.lookup f.short_name = some f.name ∧ f.name ≠ [])
    (p : Parser V) :
    (flags.map Opt.short_name).foldl (setShort lookup) p =
      (flags.map fun f => (f.name, none)).foldl setting p := by
  induction flags generalizing p with
  | nil => rfl
  | cons f flags ih =>
    obtain ⟨hlookup, hname⟩ := hflags f (by simp)
    have hstep : setShort lookup p f.short_name = p.setting (f.name, none) := by
      rw [setShort, hlookup]
      simp only [hname, if_false]
      rfl
    rw [List.map_cons, List.foldl_cons, hstep, List.map_cons, List.foldl_cons]
    exact ih (fun g hg => hflags g (by simp [hg])) _

theorem parseArgs_short {p : Parser V} (h : p.Distinct) {lookup : Lookup}
    (hfinds : p.Finds lookup) {flags : List (Opt V)} {o : Opt V} {value : Option Str}
    (hflags : ∀ f ∈ flags, p.Short f ∧ f.value = none) (ho : p.Short o)
    (hvalue : value.isSome = o.value.isSome)
    (hfirst : (flags.map Opt.short_name ++ [o.short_name]).head? ≠ some '-') (rest : List Str) :
    parseArgs lookup p (('-' :: (flags.map Opt.short_name ++ [o.short_name])) ::
        (value.toList ++ rest)) =
      parseArgs lookup (((flags.map fun f : Opt V => (f.name, none)) ++ [(o.name, value)]).foldl
        setting p) rest := by
  have hne : flags.map Opt.short_name ++ [o.short_name] ≠ [] := by simp
  obtain ⟨c, cs, hcs⟩ := List.exists_cons_of_ne_nil hne
  have hlast : (c :: cs).getLast (by simp) = o.short_name := by
    simp only [← hcs, List.getLast_concat]
  have hinit : (c :: cs).dropLast = flags.map Opt.short_name := by
    rw [← hcs, List.dropLast_concat]
  have hkind : kind ('-' :: c :: cs) = .short c cs := by
    rw [hcs] at hfirst
    exact kind_short (fun heq => hfirst (congrArg some heq)) cs
  rw [hcs, parseArgs, hkind]
  simp only [hlast, hinit, hfinds o ho, ho.2.1, if_false]
  rw [foldl_setShort fun f hf => ⟨hfinds f (hflags f hf).1, (hflags f hf).1.2.1⟩,
    List.foldl_append]
  generalize hq : (flags.map fun f => (f.name, none)).foldl setting p = q
  have hhas : q.hasValue o.name = o.value.isSome := by
    rw [← hq]
    exact hasValue_eq h ho.1 _
  simp only [hhas, ← hvalue]
  cases value with
  | none => rfl
  | some value => rfl

/-- The loop takes an item as a whole. -/
theorem parseArgs_item {p : Parser V} (h : p.Distinct) {lookup : Lookup} (hfinds : p.Finds lookup)
    {item : Item V} (hitem : p.Takes item) (rest : List Str) :
    parseArgs lookup p (item.args ++ rest) = parseArgs lookup (p.take item) rest := by
  have hnone (q : Parser V) : { q with others := q.others ++ [] } = q := by rw [List.append_nil]
  cases item with
  | assign o value =>
    obtain ⟨-, -, hname⟩ := hitem
    have hkind : kind ("--".toList ++ o.name ++ "=".toList ++ value) =
        .long (o.name ++ "=".toList ++ value) := rfl
    rw [Item.args, List.singleton_append, parseArgs, hkind]
    simp only [splitAssign_append hname]
    exact congrArg (parseArgs lookup · rest) (hnone _).symm
  | long o value =>
    obtain ⟨ho, hvalue, hname⟩ := hitem
    rw [Item.args, List.cons_append, parseArgs_long h ho hvalue hname]
    exact congrArg (parseArgs lookup · rest) (hnone _).symm
  | short flags o value =>
    obtain ⟨hflags, ho, hvalue, hfirst⟩ := hitem
    rw [Item.args, List.cons_append, parseArgs_short h hfinds hflags ho hvalue hfirst]
    exact congrArg (parseArgs lookup · rest) (hnone _).symm
  | dash => exact congrArg (parseArgs lookup · rest) (hnone _).symm
  | other arg =>
    rw [Item.args, List.singleton_append, parseArgs, kind_other hitem]
    rfl

theorem take_eq {p : Parser V} (h : p.Distinct) (item : Item V) :
    p.take item = { p with
      options := p.options.map fun o => item.settings.foldl Opt.apply o
      errors := p.errors ++ item.settings.flatMap p.report
      others := p.others ++ item.rest.toList } := by
  rw [take, foldl_setting h]

/-- What can be written depends on the declarations only. -/
theorem takes_map {p q : Parser V} (hdeclares : ∀ o, q.Declares o ↔ p.Declares o)
    {item : Item V} : q.Takes item ↔ p.Takes item := by
  cases item with
  | assign o value => exact and_congr_left fun _ => hdeclares o
  | long o value => exact and_congr_left fun _ => hdeclares o
  | short flags o value =>
    have hshort (o : Opt V) : q.Short o ↔ p.Short o := and_congr_left fun _ => hdeclares o
    simp only [Takes, hshort]
  | dash => exact Iff.rfl
  | other arg => exact Iff.rfl

/-- The items one after another. -/
theorem parseArgs_items {p : Parser V} (h : p.Distinct) {lookup : Lookup} (hfinds : p.Finds lookup)
    {items : List (Item V)} (hitems : ∀ item ∈ items, p.Takes item) :
    parseArgs lookup p (items.flatMap Item.args) = { p with
      options := p.options.map fun o => (items.flatMap Item.settings).foldl Opt.apply o
      errors := p.errors ++ (items.flatMap Item.settings).flatMap p.report
      others := p.others ++ items.filterMap Item.rest } := by
  induction items generalizing p with
  | nil => simp [parseArgs]
  | cons item items ih =>
    have htake := take_eq h item
    have hsame (o : Opt V) : o.Same (item.settings.foldl Opt.apply o) := Opt.foldl_apply_same o _
    rw [List.flatMap_cons, parseArgs_item h hfinds (hitems item (by simp))]
    generalize hq : p.take item = q
    rw [hq] at htake
    have hoptions : q.options = p.options.map fun o => item.settings.foldl Opt.apply o := by
      rw [htake]
    have hdeclares := declares_map hsame hoptions
    have hfinds' : q.Finds lookup := fun o ho => hfinds o ⟨(hdeclares o).mp ho.1, ho.2⟩
    have htakes : ∀ item ∈ items, q.Takes item := fun item hitem =>
      (takes_map hdeclares).mpr (hitems item (by simp [hitem]))
    rw [ih (h.map (fun o => (hsame o).1) hoptions) hfinds' htakes,
      report_foldl item.settings hoptions, hoptions, htake]
    have hrest : (item :: items).filterMap Item.rest =
        item.rest.toList ++ items.filterMap Item.rest := by
      rw [List.filterMap_cons]
      cases item.rest <;> rfl
    simp [hrest, List.foldl_append, Function.comp_def]

/-! ## The short names -/

/-- The options that are in the lookup. -/
def shorts (os : List (Opt V)) : List (Opt V) :=
  os.filter fun o => o.name ≠ [] ∧ o.short_name ≠ '\x00'

theorem lookup_isSome {lookup : Lookup} {c : Char} :
    (lookup.lookup c).isSome ↔ c ∈ lookup.map Prod.fst := by
  induction lookup with
  | nil => simp
  | cons entry lookup ih =>
    obtain ⟨d, name⟩ := entry
    by_cases hc : c = d
    · simp [hc]
    · have hbeq : (c == d) = false := by simpa using hc
      simp [List.lookup_cons, hbeq, hc, ih]

theorem lookup_of_mem {lookup : Lookup} (h : (lookup.map Prod.fst).Nodup) {c : Char} {name : Str}
    (hmem : (c, name) ∈ lookup) : lookup.lookup c = some name := by
  induction lookup with
  | nil => cases hmem
  | cons entry lookup ih =>
    obtain ⟨hnew, hrest⟩ := List.nodup_cons.mp h
    rcases List.mem_cons.mp hmem with rfl | hmem
    · simp
    · have hne : c ≠ entry.1 := by
        intro heq
        exact hnew (heq ▸ List.mem_map_of_mem hmem)
      have hbeq : (c == entry.1) = false := by simpa using hne
      rw [List.lookup_cons, hbeq]
      exact ih hrest hmem

/-- The lookup is filled exactly if no short name is there twice. -/
theorem fillLookup_spec (os : List (Opt V)) (lookup : Lookup)
    (hlookup : (lookup.map Prod.fst).Nodup) :
    if ((shorts os).map Opt.short_name ++ lookup.map Prod.fst).Nodup then
      fillLookup os lookup =
        .ok ((shorts os).reverse.map (fun o => (o.short_name, o.name)) ++ lookup)
    else ∃ e, fillLookup os lookup = .error e := by
  induction os generalizing lookup with
  | nil =>
    have hnil : (shorts ([] : List (Opt V))).map Opt.short_name ++ lookup.map Prod.fst =
        lookup.map Prod.fst := rfl
    rw [hnil, if_pos hlookup]
    rfl
  | cons o os ih =>
    by_cases hshort : o.name ≠ [] ∧ o.short_name ≠ '\x00'
    · have hcons : shorts (o :: os) = o :: shorts os :=
        List.filter_cons_of_pos (by simpa using hshort)
      have hmiddle : ((shorts os).map Opt.short_name ++
          ((o.short_name, o.name) :: lookup).map Prod.fst).Nodup ↔
          ((shorts (o :: os)).map Opt.short_name ++ lookup.map Prod.fst).Nodup := by
        rw [hcons, List.map_cons, List.map_cons, List.nodup_middle, List.cons_append]
      rw [fillLookup, if_neg hshort.1, if_neg hshort.2]
      by_cases hdup : (lookup.lookup o.short_name).isSome
      · have hmem := lookup_isSome.mp hdup
        rw [if_pos hdup, if_neg]
        · exact ⟨_, rfl⟩
        · rw [← hmiddle, List.map_cons, List.nodup_middle, List.nodup_cons]
          intro hnodup
          exact hnodup.1 (List.mem_append_right _ hmem)
      · have hnew : (((o.short_name, o.name) :: lookup).map Prod.fst).Nodup := by
          rw [List.map_cons, List.nodup_cons]
          exact ⟨fun hmem => hdup (lookup_isSome.mpr hmem), hlookup⟩
        have hmore := ih _ hnew
        rw [if_neg hdup]
        simp only [hmiddle] at hmore
        rw [hcons, List.reverse_cons, List.map_append, List.append_assoc]
        rw [hcons] at hmore
        exact hmore
    · have hcons : shorts (o :: os) = shorts os := List.filter_cons_of_neg (by simpa using hshort)
      have hskip : fillLookup (o :: os) lookup = fillLookup os lookup := by
        rw [fillLookup]
        by_cases hname : o.name = []
        · rw [if_pos hname]
        · have hzero : o.short_name = '\x00' := by
            by_contra hne
            exact hshort ⟨hname, hne⟩
          rw [if_neg hname, if_pos hzero]
      rw [hcons, hskip]
      exact ih _ hlookup

/-- No short name is that of two options. -/
def ShortDistinct (p : Parser V) : Prop := ((shorts p.options).map Opt.short_name).Nodup

/-- What a short name leads to is an option with that short name. -/
theorem fillLookup_finds {p : Parser V} (h : p.ShortDistinct) :
    ∃ lookup, fillLookup p.options [] = .ok lookup ∧ p.Finds lookup ∧
      ∀ c name, lookup.lookup c = some name → ∃ o ∈ p.options, p.Short o ∧ o.short_name = c ∧
        o.name = name := by
  have hspec := fillLookup_spec p.options [] List.nodup_nil
  have hnodup : ((shorts p.options).map Opt.short_name).Nodup := h
  rw [List.map_nil, List.append_nil, if_pos hnodup, List.append_nil] at hspec
  refine ⟨_, hspec, ?_, ?_⟩
  · intro o ho
    obtain ⟨⟨q, hq, hname, hshort, -⟩, hne, hzero⟩ := ho
    refine lookup_of_mem ?_ (List.mem_map.mpr ⟨q, ?_, by rw [hname, hshort]⟩)
    · rw [List.map_map]
      have hkeys : (Prod.fst ∘ fun o : Opt V => (o.short_name, o.name)) = Opt.short_name := rfl
      rw [hkeys, List.map_reverse, List.nodup_reverse]
      exact h
    · rw [List.mem_reverse, shorts, List.mem_filter]
      exact ⟨hq, by simp [hname, hshort, hne, hzero]⟩
  · intro c name hlookup
    obtain ⟨front, back, heq, -⟩ := List.lookup_eq_some_iff.mp hlookup
    have hmem : (c, name) ∈ (shorts p.options).reverse.map fun o => (o.short_name, o.name) := by
      rw [heq]
      simp
    obtain ⟨o, ho, hpair⟩ := List.mem_map.mp hmem
    rw [List.mem_reverse, shorts, List.mem_filter] at ho
    obtain ⟨rfl, rfl⟩ := Prod.mk.inj hpair
    have hshort : o.name ≠ [] ∧ o.short_name ≠ '\x00' := by simpa using ho.2
    exact ⟨o, ho.1, ⟨⟨o, ho.1, rfl, rfl, rfl⟩, hshort⟩, rfl, rfl⟩

/-! ## Arguments that are accepted -/

theorem error_errors (p : Parser V) (e : Str) : (p.error e).errors ≠ [] := by simp [error]

/-- A setting of which nothing is reported is one of an option that takes it. -/
theorem report_eq_nil {p : Parser V} {s : Setting} (h : p.report s = []) :
    ∃ o ∈ p.options, o.name = s.1 ∧ (o.given s.2).isSome ∧ s.2.isSome = o.value.isSome := by
  unfold report at h
  cases hfind : p.find s.1 with
  | none => simp [hfind] at h
  | some o =>
    obtain ⟨ho, hname⟩ := find_mem hfind
    simp only [hfind] at h
    split at h
    · rename_i hgiven
      refine ⟨o, ho, hname, hgiven, ?_⟩
      obtain ⟨o', ho'⟩ := Option.isSome_iff_exists.mp hgiven
      rcases Opt.given_cases ho' with ⟨hvo, hs, -⟩ | ⟨vo, val, v, hvo, hs, -, -⟩
      · rw [hvo, hs]
        rfl
      · rw [hvo, hs]
        rfl
    · cases hs : s.2 <;> simp [hs] at h

theorem setting_ok {p : Parser V} (h : p.Distinct) {s : Setting} (hok : (p.setting s).errors = []) :
    p.errors = [] ∧ p.report s = [] := by
  rw [setting_eq h] at hok
  exact List.append_eq_nil_iff.mp hok

/-- What the loop has accepted so far, and the rest of its run. -/
structure Accepts (p : Parser V) (args : List Str) (items : List (Item V)) : Prop where
  errors : p.errors = []
  takes : ∀ item ∈ items, p.Takes item
  written : args = items.flatMap Item.args
  accepted : ∀ s ∈ items.flatMap Item.settings, p.report s = []

/-- An item in front of arguments that are accepted. -/
theorem Accepts.cons {p : Parser V} (h : p.Distinct) {item : Item V} {args : List Str}
    {items : List (Item V)} (hrest : (p.take item).Accepts args items) (hitem : p.Takes item) :
    p.Accepts (item.args ++ args) (item :: items) := by
  have hsame (o : Opt V) : o.Same (item.settings.foldl Opt.apply o) := Opt.foldl_apply_same o _
  have htake := take_eq h item
  have hoptions : (p.take item).options =
      p.options.map fun o => item.settings.foldl Opt.apply o := by rw [htake]
  have herrors := hrest.errors
  rw [htake] at herrors
  obtain ⟨hp, hreport⟩ := List.append_eq_nil_iff.mp herrors
  refine ⟨hp, ?_, ?_, ?_⟩
  · intro it hit
    rcases List.mem_cons.mp hit with rfl | hit
    · exact hitem
    · exact (takes_map (declares_map hsame hoptions)).mp (hrest.takes it hit)
  · rw [List.flatMap_cons, hrest.written]
  · intro s hs
    rw [List.flatMap_cons, List.mem_append] at hs
    rcases hs with hs | hs
    · exact List.flatMap_eq_nil_iff.mp hreport s hs
    · rw [← report_foldl item.settings hoptions]
      exact hrest.accepted s hs

theorem take_of_rest {p : Parser V} {item : Item V} (h : item.rest = none) :
    p.take item = item.settings.foldl setting p := by
  simp [take, h]

theorem kind_cases (arg : Str) :
    (∃ a, arg = "--".toList ++ a ∧ kind arg = .long a) ∨ (arg = ['-'] ∧ kind arg = .dash) ∨
    (∃ c cs, c ≠ '-' ∧ arg = '-' :: c :: cs ∧ kind arg = .short c cs) ∨
    (arg.head? ≠ some '-' ∧ kind arg = .other arg) := by
  by_cases hdash : arg.head? = some '-'
  · obtain ⟨rest, rfl⟩ := List.head?_eq_some_iff.mp hdash
    match rest with
    | [] => exact .inr (.inl ⟨rfl, rfl⟩)
    | c :: cs =>
      by_cases hc : c = '-'
      · subst hc
        exact .inl ⟨cs, rfl, rfl⟩
      · exact .inr (.inr (.inl ⟨c, cs, hc, rfl, kind_short hc cs⟩))
  · exact .inr (.inr (.inr ⟨hdash, kind_other hdash⟩))

theorem splitAssign_eq_some {arg name value : Str} (h : splitAssign arg = some (name, value)) :
    arg = name ++ "=".toList ++ value ∧ '=' ∉ name := by
  unfold splitAssign at h
  split at h
  · rename_i hmem
    obtain ⟨rfl, rfl⟩ := Prod.mk.inj (Option.some.inj h)
    obtain ⟨c, cs, hdrop⟩ : ∃ c cs, arg.dropWhile (· ≠ '=') = c :: cs := by
      refine List.exists_cons_of_ne_nil fun hnil => ?_
      exact absurd (List.dropWhile_eq_nil_iff.mp hnil '=' hmem) (by simp)
    have hc : c = '=' := by
      have hhead := List.head?_dropWhile_not (· ≠ '=') arg
      rw [hdrop] at hhead
      simpa using hhead
    refine ⟨?_, fun hin => absurd (List.mem_takeWhile_imp hin) (by simp)⟩
    have happend := List.takeWhile_append_dropWhile (p := (· ≠ '=')) (l := arg)
    rw [hdrop, hc] at happend
    rw [hdrop, List.append_assoc]
    exact happend.symm
  · cases h

theorem declares_setting {p : Parser V} (h : p.Distinct) (settings : List Setting) (o : Opt V) :
    (settings.foldl setting p).Declares o ↔ p.Declares o :=
  declares_map (f := fun o => settings.foldl Opt.apply o)
    (fun o => Opt.foldl_apply_same o settings) (by rw [foldl_setting h]) o

theorem Distinct.setting {p : Parser V} (h : p.Distinct) (settings : List Setting) :
    (settings.foldl Parser.setting p).Distinct :=
  h.map (f := fun o => settings.foldl Opt.apply o) (fun o => (Opt.foldl_apply_same o settings).1)
    (by rw [foldl_setting h])

/-- Every short name leads to an option. -/
def Leads (p : Parser V) (lookup : Lookup) : Prop :=
  ∀ c name, lookup.lookup c = some name → ∃ o, p.Short o ∧ o.short_name = c ∧ o.name = name

theorem Leads.setting {p : Parser V} (h : p.Distinct) {lookup : Lookup} (hleads : p.Leads lookup)
    (settings : List Setting) : (settings.foldl Parser.setting p).Leads lookup := by
  intro c name hlookup
  obtain ⟨o, ⟨hdeclares, hshort⟩, hc, hname⟩ := hleads c name hlookup
  exact ⟨o, ⟨(declares_setting h settings o).mpr hdeclares, hshort⟩, hc, hname⟩

/-- An option that takes the setting of its name. -/
theorem Declares.value {p : Parser V} (h : p.Distinct) {o : Opt V} (ho : p.Declares o)
    {value : Option Str} (hreport : p.report (o.name, value) = []) :
    value.isSome = o.value.isSome := by
  obtain ⟨q, hq, hname, -, hvalue⟩ := ho
  obtain ⟨r, hr, hname', -, hvalue'⟩ := report_eq_nil hreport
  rw [h.eq hr hq (hname'.trans hname.symm)] at hvalue'
  rw [hvalue', hvalue]

theorem setShort_keeps {lookup : Lookup} {p : Parser V} (h : p.Distinct) (hleads : p.Leads lookup)
    (cs : List Char) : (cs.foldl (setShort lookup) p).Distinct ∧
      (cs.foldl (setShort lookup) p).Leads lookup := by
  induction cs generalizing p with
  | nil => exact ⟨h, hleads⟩
  | cons c cs ih =>
    rw [List.foldl_cons]
    unfold setShort
    split
    · exact ih (p := p.error _) h hleads
    · rename_i name _
      split
      · exact ih (p := p.error _) h hleads
      · exact ih (h.setting [(name, none)]) (hleads.setting h [(name, none)])

/-- The short options in front of the last one, if nothing is reported of them. -/
theorem foldl_setShort_ok {lookup : Lookup} {cs : List Char} {p : Parser V} (h : p.Distinct)
    (hleads : p.Leads lookup) (hok : (cs.foldl (setShort lookup) p).errors = []) :
    p.errors = [] ∧ ∃ flags : List (Opt V), cs = flags.map Opt.short_name ∧
      (∀ f ∈ flags, p.Short f ∧ f.value = none) ∧
      cs.foldl (setShort lookup) p = (flags.map fun f => (f.name, none)).foldl setting p := by
  induction cs generalizing p with
  | nil => exact ⟨hok, [], rfl, by simp, rfl⟩
  | cons c cs ih =>
    rw [List.foldl_cons] at hok ⊢
    cases hlookup : lookup.lookup c with
    | none =>
      have hstep : setShort lookup p c =
          p.error ("undefined short option: -".toList ++ [c]) := by rw [setShort, hlookup]
      rw [hstep] at hok
      exact absurd (ih (p := p.error _) h hleads hok).1 (error_errors p _)
    | some name =>
      obtain ⟨o, ho, rfl, rfl⟩ := hleads c name hlookup
      have hstep : setShort lookup p o.short_name = p.setting (o.name, none) := by
        rw [setShort, hlookup]
        simp only [ho.2.1, if_false]
        rfl
      rw [hstep] at hok ⊢
      obtain ⟨herrors, flags, rfl, hflags, hfold⟩ :=
        ih (h.setting [(o.name, none)]) (hleads.setting h [(o.name, none)]) hok
      obtain ⟨hp, hreport⟩ := setting_ok (s := (o.name, none)) h herrors
      have hvalue : o.value = none := by simpa using ho.1.value h hreport
      refine ⟨hp, o :: flags, rfl, ?_, hfold⟩
      intro f hf
      rcases List.mem_cons.mp hf with rfl | hf
      · exact ⟨ho, hvalue⟩
      · obtain ⟨⟨hdeclares, hshort⟩, hnone⟩ := hflags f hf
        exact ⟨⟨(declares_setting h [(o.name, none)] f).mp hdeclares, hshort⟩, hnone⟩

/-- A pass of the loop takes an item, or an error is reported. -/
inductive Pass (lookup : Lookup) (p : Parser V) (arg : Str) (rest : List Str) : Prop where
  | takes (item : Item V) (more : List Str) (args : arg :: rest = item.args ++ more)
      (shorter : more.length ≤ rest.length)
      (run : parseArgs lookup p (arg :: rest) = parseArgs lookup (p.take item) more)
      (written : (p.take item).errors = [] → p.Takes item)
  | reports (q : Parser V) (more : List Str) (shorter : more.length ≤ rest.length)
      (distinct : q.Distinct) (leads : q.Leads lookup) (errors : q.errors ≠ [])
      (run : parseArgs lookup p (arg :: rest) = parseArgs lookup q more)

theorem Pass.of_error {lookup : Lookup} {p q : Parser V} {arg : Str} {rest : List Str}
    (h : q.Distinct) (hleads : q.Leads lookup) (more : List Str)
    (hshorter : more.length ≤ rest.length) {e : Str}
    (hrun : parseArgs lookup p (arg :: rest) = parseArgs lookup (q.error e) more) :
    Pass lookup p arg rest :=
  .reports (q.error e) more hshorter h hleads (error_errors q e) hrun

/-- A pass that ends with a setting. -/
theorem Pass.of_setting {lookup : Lookup} {p q : Parser V} {arg : Str} {rest more : List Str}
    {s : Setting} (h : q.Distinct) (hleads : q.Leads lookup) (hshorter : more.length ≤ rest.length)
    (hrun : parseArgs lookup p (arg :: rest) = parseArgs lookup (q.setting s) more)
    (hitem : ∀ o, q.errors = [] → q.Declares o → o.name = s.1 → s.2.isSome = o.value.isSome →
      ∃ item : Item V, arg :: rest = item.args ++ more ∧ p.take item = q.setting s ∧
        p.Takes item) : Pass lookup p arg rest := by
  by_cases herrors : (q.setting s).errors = []
  · obtain ⟨hq, hreport⟩ := setting_ok h herrors
    obtain ⟨o, ho, hname, -, hvalue⟩ := report_eq_nil hreport
    obtain ⟨item, hargs, htake, htakes⟩ := hitem o hq ⟨o, ho, rfl, rfl, rfl⟩ hname hvalue
    exact .takes item more hargs hshorter (by rw [hrun, htake]) fun _ => htakes
  · exact .reports (q.setting s) more hshorter (h.setting [s]) (hleads.setting h [s]) herrors hrun

theorem pass_long {lookup : Lookup} {p : Parser V} (h : p.Distinct) (hleads : p.Leads lookup)
    (a : Str) (rest : List Str) : Pass lookup p ("--".toList ++ a) rest := by
  have hkind : kind ("--".toList ++ a) = .long a := rfl
  cases hsplit : splitAssign a with
  | some pair =>
    obtain ⟨name, val⟩ := pair
    have hrun : parseArgs lookup p (("--".toList ++ a) :: rest) =
        parseArgs lookup (p.setting (name, some val)) rest := by
      rw [parseArgs, hkind]
      simp only [hsplit]
      rfl
    obtain ⟨rfl, hname⟩ := splitAssign_eq_some hsplit
    refine .of_setting h hleads le_rfl hrun fun o _ ho hname' hvalue => ?_
    obtain rfl : o.name = name := hname'
    exact ⟨.assign o val, rfl, take_of_rest rfl, ho, hvalue.symm, hname⟩
  | none =>
    have hname : '=' ∉ a := by
      intro hmem
      rw [splitAssign, if_pos hmem] at hsplit
      cases hsplit
    have hpass (value : Option Str) {more : List Str} (hrest : rest = value.toList ++ more)
        (hrun : parseArgs lookup p (("--".toList ++ a) :: rest) =
          parseArgs lookup (p.setting (a, value)) more) :
        Pass lookup p ("--".toList ++ a) rest := by
      refine .of_setting h hleads (by simp [hrest]) hrun fun o _ ho hname' hvalue => ?_
      obtain rfl : o.name = a := hname'
      exact ⟨.long o value, by rw [hrest]; rfl, take_of_rest rfl, ho, hvalue, hname⟩
    by_cases hfind : (p.find a).isNone = true
    · have hrun : parseArgs lookup p (("--".toList ++ a) :: rest) =
          parseArgs lookup (p.error ("undefined option: --".toList ++ a)) rest := by
        rw [parseArgs, hkind]
        simp only [hsplit, hfind, if_true]
      exact .of_error h hleads rest le_rfl hrun
    · by_cases hhas : p.hasValue a = true
      · cases rest with
        | nil =>
          have hrun : parseArgs lookup p ["--".toList ++ a] =
              p.error ("option needs value: --".toList ++ a) := by
            rw [parseArgs, hkind]
            simp only [hsplit, hfind, hhas, if_true, if_false, Bool.false_eq_true]
          exact .of_error h hleads [] le_rfl hrun
        | cons val more =>
          refine hpass (some val) rfl ?_
          rw [parseArgs, hkind]
          simp only [hsplit, hfind, hhas, if_true, if_false, Bool.false_eq_true]
          rfl
      · refine hpass none rfl ?_
        rw [parseArgs, hkind]
        simp only [hsplit, hfind, hhas, if_false, Bool.false_eq_true]
        rfl

theorem pass_short {lookup : Lookup} {p : Parser V} (h : p.Distinct) (hleads : p.Leads lookup)
    {c : Char} (hc : c ≠ '-') (cs : Str) (rest : List Str) :
    Pass lookup p ('-' :: c :: cs) rest := by
  have hkind := kind_short hc cs
  obtain ⟨hdistinct, hleads'⟩ := setShort_keeps h hleads (c :: cs).dropLast
  generalize hq : (c :: cs).dropLast.foldl (setShort lookup) p = q at hdistinct hleads'
  cases hlookup : lookup.lookup ((c :: cs).getLast (by simp)) with
  | none =>
    have hrun : parseArgs lookup p (('-' :: c :: cs) :: rest) = parseArgs lookup
        (q.error ("undefined short option: -".toList ++ [(c :: cs).getLast (by simp)])) rest := by
      rw [parseArgs, hkind]
      simp only [hlookup, hq]
    exact .of_error hdistinct hleads' rest le_rfl hrun
  | some name =>
    obtain ⟨o, ho, hlast, rfl⟩ := hleads' _ _ hlookup
    have hpass (value : Option Str) {more : List Str} (hrest : rest = value.toList ++ more)
        (hrun : parseArgs lookup p (('-' :: c :: cs) :: rest) =
          parseArgs lookup (q.setting (o.name, value)) more) :
        Pass lookup p ('-' :: c :: cs) rest := by
      refine .of_setting hdistinct hleads' (by simp [hrest]) hrun
        fun o' hqerrors ho' hname hvalue => ?_
      rw [← hq] at hqerrors
      obtain ⟨-, flags, hcs, hflags, hfold⟩ := foldl_setShort_ok h hleads hqerrors
      have hp : p.Short o := by
        rw [← hq, hfold] at ho
        exact ⟨(declares_setting h _ o).mp ho.1, ho.2⟩
      have hchars : c :: cs = flags.map Opt.short_name ++ [o.short_name] := by
        rw [← hcs, hlast, List.dropLast_append_getLast]
      have hown : value.isSome = o.value.isSome := by
        rw [hvalue, ← hasValue_eq hdistinct ho' [], hname]
        exact hasValue_eq hdistinct ho.1 []
      refine ⟨.short flags o value, by rw [hrest, hchars]; rfl, ?_, hflags, hp, hown, ?_⟩
      · rw [take_of_rest rfl, Item.settings, List.foldl_append, ← hfold, hq]
        rfl
      · rw [← hchars]
        simpa using hc
    by_cases hhas : q.hasValue o.name = true
    · cases rest with
      | nil =>
        have hrun : parseArgs lookup p ['-' :: c :: cs] = q.setting (o.name, none) := by
          rw [parseArgs, hkind]
          simp only [hlookup, hq, ho.2.1, hhas, if_true, if_false]
          rfl
        exact hpass none rfl hrun
      | cons val more =>
        refine hpass (some val) rfl ?_
        rw [parseArgs, hkind]
        simp only [hlookup, hq, ho.2.1, hhas, if_true, if_false]
        rfl
    · refine hpass none rfl ?_
      rw [parseArgs, hkind]
      simp only [hlookup, hq, ho.2.1, hhas, if_false, Bool.false_eq_true]
      rfl

theorem pass {lookup : Lookup} {p : Parser V} (h : p.Distinct) (hleads : p.Leads lookup)
    (arg : Str) (rest : List Str) : Pass lookup p arg rest := by
  rcases kind_cases arg with ⟨a, rfl, -⟩ | ⟨rfl, -⟩ | ⟨c, cs, hc, rfl, -⟩ | ⟨harg, hkind⟩
  · exact pass_long h hleads a rest
  · refine .takes .dash rest rfl le_rfl ?_ fun _ => trivial
    rw [take_of_rest rfl]
    rfl
  · exact pass_short h hleads hc cs rest
  · refine .takes (.other arg) rest rfl le_rfl ?_ fun _ => harg
    rw [parseArgs, hkind]
    rfl

/-- Arguments of which nothing is reported are written for settings. -/
theorem parseArgs_ok {lookup : Lookup} {args : List Str} {p : Parser V} (h : p.Distinct)
    (hleads : p.Leads lookup) (hok : (parseArgs lookup p args).errors = []) :
    ∃ items, p.Accepts args items := by
  induction hn : args.length using Nat.strong_induction_on generalizing args p with
  | _ n ih =>
    cases args with
    | nil => exact ⟨[], hok, by simp, rfl, by simp⟩
    | cons arg rest =>
      rw [List.length_cons] at hn
      cases pass h hleads arg rest with
      | takes item more hargs hshorter hrun hwritten =>
        rw [hrun] at hok
        have hdistinct : (p.take item).Distinct := h.setting item.settings
        obtain ⟨items, haccepts⟩ := ih more.length (by omega) hdistinct
          (hleads.setting h item.settings) hok rfl
        rw [hargs]
        exact ⟨item :: items, haccepts.cons h (hwritten haccepts.errors)⟩
      | reports q more hshorter hdistinct hleads' herrors hrun =>
        rw [hrun] at hok
        obtain ⟨items, haccepts⟩ := ih more.length (by omega) hdistinct hleads' hok rfl
        exact absurd haccepts.errors herrors

/-! ## Runs -/

/-- The parser in front of the loop. -/
def start (p : Parser V) (prog : Str) : Parser V :=
  { p with errors := [], others := [], prog_name := if p.prog_name = [] then prog else p.prog_name }

theorem parse_cons (p : Parser V) (prog : Str) (args : List Str) :
    p.parse (prog :: args) = match fillLookup p.options [] with
      | .error e => ((p.start prog).error e, false)
      | .ok lookup => (needOptions (parseArgs lookup (p.start prog) args),
          (needOptions (parseArgs lookup (p.start prog) args)).errors.isEmpty) := by
  by_cases hprog : p.prog_name = []
  · simp only [parse, start, hprog, if_true]
  · simp only [parse, start, hprog, if_false]

/-- Every option that is needed has been set. -/
def Complete (p : Parser V) (settings : List Setting) : Prop :=
  ∀ o ∈ p.options, ∀ vo ∈ o.value, vo.need = true → o.has = true ∨ o.acceptedIn settings = true

theorem valid_foldl (o : Opt V) (settings : List Setting) :
    (settings.foldl Opt.apply o).valid = true ↔
      ∀ vo ∈ o.value, vo.need = true → o.has = true ∨ o.acceptedIn settings = true := by
  cases hvo : o.value with
  | none =>
    have hsame := (Opt.foldl_apply_same o settings).2.2
    rw [hvo] at hsame
    have hnone : (settings.foldl Opt.apply o).value = none := by simpa using hsame
    simp [Opt.valid, hnone]
  | some vo =>
    have hvalue := Opt.foldl_apply_value hvo settings
    simp only [Opt.valid, hvalue, Opt.foldl_apply_has]
    cases hneed : vo.need <;> cases o.has <;> cases o.acceptedIn settings <;> simp [hneed]

theorem errors_needOptions {p q : Parser V} {settings : List Setting}
    (hq : q.options = p.options.map fun o => settings.foldl Opt.apply o) :
    (needOptions q).errors = [] ↔ q.errors = [] ∧ p.Complete settings := by
  rw [needOptions]
  simp only [List.append_eq_nil_iff, List.map_eq_nil_iff, List.filter_eq_nil_iff, hq,
    List.forall_mem_map]
  refine and_congr_right fun _ => forall₂_congr fun o _ => ?_
  rw [← valid_foldl]
  simp

/-- The parser after arguments that are written for settings. -/
theorem parse_written {p : Parser V} (h : p.Distinct) (hshort : p.ShortDistinct) (prog : Str)
    {items : List (Item V)} (hitems : ∀ item ∈ items, p.Takes item) :
    ∃ q : Parser V, p.parse (prog :: items.flatMap Item.args) =
        (needOptions q, (needOptions q).errors.isEmpty) ∧
      q.options = p.options.map (fun o => (items.flatMap Item.settings).foldl Opt.apply o) ∧
      q.errors = (items.flatMap Item.settings).flatMap p.report ∧
      q.others = items.filterMap Item.rest := by
  obtain ⟨lookup, hlookup, hfinds, -⟩ := fillLookup_finds hshort
  have hloop := parseArgs_items (p := p.start prog) h hfinds hitems
  refine ⟨parseArgs lookup (p.start prog) (items.flatMap Item.args), ?_, ?_, ?_, ?_⟩
  · rw [parse_cons, hlookup]
  · rw [hloop]
    rfl
  · rw [hloop]
    rfl
  · rw [hloop]
    rfl

theorem find_written {p q : Parser V} (h : p.Distinct) {settings : List Setting}
    (hoptions : q.options = p.options.map fun o => settings.foldl Opt.apply o) {o : Opt V}
    (ho : o ∈ p.options) : q.find o.name = some (settings.foldl Opt.apply o) := by
  have hmap := find_map (p := p) (q := q)
    (fun o => (Opt.foldl_apply_same o settings).1) hoptions o.name
  rw [hmap, h.find ho]
  rfl

theorem exist_written {p : Parser V} (h : p.Distinct) (hshort : p.ShortDistinct) (prog : Str)
    {items : List (Item V)} (hitems : ∀ item ∈ items, p.Takes item) {o : Opt V}
    (ho : o ∈ p.options) :
    (p.parse (prog :: items.flatMap Item.args)).1.exist o.name =
      .ok (o.has || o.acceptedIn (items.flatMap Item.settings)) := by
  obtain ⟨q, hparse, hoptions, -, -⟩ := parse_written h hshort prog hitems
  have hfind := find_written (q := needOptions q) h hoptions ho
  rw [hparse, exist, hfind]
  exact congrArg Except.ok (Opt.foldl_apply_has o _)

theorem get_written {p : Parser V} (h : p.Distinct) (hshort : p.ShortDistinct) (prog : Str)
    {items : List (Item V)} (hitems : ∀ item ∈ items, p.Takes item) {o : Opt V}
    (ho : o ∈ p.options) {vo : ValueOption V} (hvo : vo ∈ o.value) :
    (p.parse (prog :: items.flatMap Item.args)).1.get vo.typeName o.name =
      .ok (((items.flatMap Item.settings).filterMap (o.read vo)).getLast?.getD vo.actual) := by
  obtain ⟨q, hparse, hoptions, -, -⟩ := parse_written h hshort prog hitems
  have hfind := find_written (q := needOptions q) h hoptions ho
  rw [hparse, get, hfind]
  simp only [Opt.foldl_apply_value hvo, if_true]

theorem ok_written {p : Parser V} (h : p.Distinct) (hshort : p.ShortDistinct) (prog : Str)
    {items : List (Item V)} (hitems : ∀ item ∈ items, p.Takes item) :
    (p.parse (prog :: items.flatMap Item.args)).2 = true ↔
      (∀ s ∈ items.flatMap Item.settings, p.report s = []) ∧
        p.Complete (items.flatMap Item.settings) := by
  obtain ⟨q, hparse, hoptions, herrors, -⟩ := parse_written h hshort prog hitems
  rw [hparse, List.isEmpty_iff, errors_needOptions hoptions, herrors, List.flatMap_eq_nil_iff]

/-- An option with a value, which is needed. -/
def port : Opt Str :=
  ⟨"port".toList, 'p', [], some ⟨"string".toList, true, [], [], some⟩, false⟩

/-- A flag. -/
def verbose : Opt Str := ⟨"verbose".toList, 'v', [], none, false⟩

def server : Parser Str where
  options := [port, verbose]
  ordered := [port.name, verbose.name]

theorem server_distinct : server.Distinct := by
  have hne : port.name ≠ verbose.name := by decide
  simp [Distinct, server, hne]

theorem server_shortDistinct : server.ShortDistinct := by
  have hne : port.short_name ≠ verbose.short_name := by decide
  exact ((List.nodup_cons.mpr ⟨by simpa using hne, List.nodup_singleton _⟩ :
    [port.short_name, verbose.short_name].Nodup))

theorem server_port : server.Short port :=
  ⟨⟨port, List.mem_cons_self, rfl, rfl, rfl⟩, List.cons_ne_nil _ _, by decide⟩

theorem server_verbose : server.Short verbose :=
  ⟨⟨verbose, List.mem_cons_of_mem _ List.mem_cons_self, rfl, rfl, rfl⟩, List.cons_ne_nil _ _,
    by decide⟩

/-- A value in two ways, and a flag. -/
def serverItems : List (Item Str) :=
  [.assign port "80".toList, .short [verbose] port (some "81".toList)]

theorem serverItems_takes : ∀ item ∈ serverItems, server.Takes item := by
  intro item hitem
  rcases List.mem_cons.mp hitem with rfl | hitem
  · exact ⟨server_port.1, rfl, by decide⟩
  · obtain rfl := List.mem_singleton.mp hitem
    exact ⟨List.forall_mem_singleton.mpr ⟨server_verbose, rfl⟩, server_port, rfl, by decide⟩

theorem serverItems_args :
    serverItems.flatMap Item.args = ["--port=80".toList, "-vp".toList, "81".toList] := by
  decide

theorem serverItems_settings : serverItems.flatMap Item.settings =
    [(port.name, some "80".toList), (verbose.name, none), (port.name, some "81".toList)] := rfl

/-- Arguments that are parsed without an error are written for settings. -/
theorem written_of_ok {p : Parser V} (h : p.Distinct) {prog : Str} {args : List Str}
    (hok : (p.parse (prog :: args)).2 = true) :
    p.ShortDistinct ∧ ∃ items : List (Item V), (∀ item ∈ items, p.Takes item) ∧
      args = items.flatMap Item.args := by
  have hspec := fillLookup_spec p.options [] List.nodup_nil
  rw [List.map_nil, List.append_nil, List.append_nil] at hspec
  have hshort : p.ShortDistinct := by
    by_contra hnot
    have hdup : ¬ ((shorts p.options).map Opt.short_name).Nodup := hnot
    rw [if_neg hdup] at hspec
    obtain ⟨e, he⟩ := hspec
    rw [parse_cons, he] at hok
    cases hok
  refine ⟨hshort, ?_⟩
  obtain ⟨lookup, hlookup, -, hleads⟩ := fillLookup_finds hshort
  rw [parse_cons, hlookup] at hok
  have hnil : (parseArgs lookup (p.start prog) args).errors = [] := by
    have herrors := List.isEmpty_iff.mp hok
    exact (List.append_eq_nil_iff.mp herrors).1
  obtain ⟨items, haccepts⟩ := parseArgs_ok (p := p.start prog) h (fun c name hname => by
    obtain ⟨o, -, ho, hc, hname⟩ := hleads c name hname
    exact ⟨o, ho, hc, hname⟩) hnil
  exact ⟨items, haccepts.takes, haccepts.written⟩

/-- The parser reports no error exactly for arguments that are written for settings, all of
them accepted, with every needed option set. -/
theorem parse_iff {p : Parser V} (h : p.Distinct) (prog : Str) (args : List Str) :
    (p.parse (prog :: args)).2 = true ↔ p.ShortDistinct ∧ ∃ items : List (Item V),
      (∀ item ∈ items, p.Takes item) ∧ args = items.flatMap Item.args ∧
      (∀ s ∈ items.flatMap Item.settings, p.report s = []) ∧
      p.Complete (items.flatMap Item.settings) := by
  constructor
  · intro hok
    obtain ⟨hshort, items, htakes, rfl⟩ := written_of_ok h hok
    exact ⟨hshort, items, htakes, rfl, (ok_written h hshort prog htakes).mp hok⟩
  · intro hwritten
    obtain ⟨hshort, items, htakes, rfl, hok⟩ := hwritten
    exact (ok_written h hshort prog htakes).mpr hok

theorem parse_iff_server :
    (server.parse ("serve".toList :: ["--port".toList])).2 = true ↔
      server.ShortDistinct ∧ ∃ items : List (Item Str), (∀ item ∈ items, server.Takes item) ∧
        ["--port".toList] = items.flatMap Item.args ∧
        (∀ s ∈ items.flatMap Item.settings, server.report s = []) ∧
        server.Complete (items.flatMap Item.settings) :=
  parse_iff server_distinct "serve".toList ["--port".toList]

/-- Where every value can be read, what is written for settings is accepted. -/
theorem Takes.report {p : Parser V} (h : p.Distinct)
    (hread : ∀ o ∈ p.options, ∀ vo ∈ o.value, ∀ value, (vo.read value).isSome) {item : Item V}
    (hitem : p.Takes item) : ∀ s ∈ item.settings, p.report s = [] := by
  have haccepts {o : Opt V} (ho : p.Declares o) {value : Option Str}
      (hvalue : value.isSome = o.value.isSome) : p.report (o.name, value) = [] := by
    obtain ⟨q, hq, hname, -, hsome⟩ := ho
    have hgiven : (q.given value).isSome := by
      rw [← hsome] at hvalue
      cases hvo : q.value with
      | none =>
        rw [hvo] at hvalue
        have hnone : value = none := by simpa using hvalue
        rw [hnone, Opt.given, Opt.set, hvo]
        rfl
      | some vo =>
        rw [hvo] at hvalue
        obtain ⟨val, rfl⟩ := Option.isSome_iff_exists.mp hvalue
        obtain ⟨v, hv⟩ := Option.isSome_iff_exists.mp (hread q hq vo hvo val)
        rw [Opt.given, Opt.setValue, hvo]
        simp [hv]
    have hfind := h.find hq
    rw [hname] at hfind
    simp [Parser.report, hfind, hgiven]
  intro s hs
  cases item with
  | assign o value =>
    obtain rfl := List.mem_singleton.mp hs
    exact haccepts hitem.1 hitem.2.1.symm
  | long o value =>
    obtain rfl := List.mem_singleton.mp hs
    exact haccepts hitem.1 hitem.2.1
  | short flags o value =>
    obtain ⟨hflags, ho, hvalue, -⟩ := hitem
    rw [Item.settings, List.mem_append] at hs
    rcases hs with hs | hs
    · obtain ⟨f, hf, rfl⟩ := List.mem_map.mp hs
      exact haccepts (hflags f hf).1.1 (by rw [(hflags f hf).2]; rfl)
    · obtain rfl := List.mem_singleton.mp hs
      exact haccepts ho.1 hvalue
  | dash => cases hs
  | other arg => cases hs

/-! ## Definitions of options -/

theorem insertOption_perm (o : Opt V) (os : List (Opt V)) : (insertOption o os).Perm (o :: os) := by
  induction os with
  | nil => exact .refl _
  | cons q qs ih =>
    rw [insertOption]
    split
    · exact .refl _
    · exact (ih.cons q).trans (.swap o q qs)

/-- No name is defined twice. -/
theorem Distinct.addOption {p q : Parser V} (h : p.Distinct) {o : Opt V}
    (hq : p.addOption o = .ok q) : q.Distinct := by
  unfold Parser.addOption at hq
  split at hq
  · cases hq
  · rename_i hnew
    obtain rfl := Except.ok.inj hq
    have hfresh : o.name ∉ p.options.map Opt.name := by
      intro hmem
      obtain ⟨r, hr, hname⟩ := List.mem_map.mp hmem
      rw [← hname, h.find hr] at hnew
      exact hnew rfl
    have hperm := (insertOption_perm o p.options).map Opt.name
    rw [Distinct, hperm.nodup_iff]
    exact List.nodup_cons.mpr ⟨hfresh, h⟩

end Parser

end CmdLine

end TinyOrm

import TinyOrm.CmdLineText
set_option autoImplicit false

/-!
The entry point of the generator (generator/ModelGen.cpp).
-/

namespace TinyOrm

open CmdLine

namespace ModelGen

/-- `parser.add<std::string>`; every text can be read. -/
def addString (p : Parser Str) (name : String) (short_name : Char) (desc : String) (need : Bool)
    (default_ : String) : Except Str (Parser Str) :=
  p.addValue "string".toList id name.toList short_name desc.toList need default_.toList some

def parser : Except Str (Parser Str) := do
  let p ← addString {} "dir" 'd' "generating directory" false "."
  let p ← addString p "username" 'u' "username of database" true ""
  let p ← addString p "password" 'p' "password of database" true ""
  let p ← addString p "db" 's' "database name" true ""
  addString p "table" 't' "tables for generating" false ""

/-- What the connection is opened with, where the headers are written and for which
tables. -/
structure Run where
  username : Str
  password : Str
  dbName : Str
  dir : Str
  tables : List Str
  deriving DecidableEq, Repr

inductive Outcome where
  | exits (code : Nat) (printed : Str)
  | throws (what : Str)
  | runs (run : Run)
  deriving DecidableEq, Repr

/-- The options, once they are parsed. -/
def getRun (p : Parser Str) : Except Str Run := do
  let dbName ← p.get "string".toList "db".toList
  let dir ← p.get "string".toList "dir".toList
  let username ← p.get "string".toList "username".toList
  let password ← p.get "string".toList "password".toList
  let table ← p.get "string".toList "table".toList
  .ok ⟨username, password, dbName, dir, Util.split table [',']⟩

/-- `main`, up to the connection. -/
def main (argv : List Str) : Outcome :=
  match parser with
  | .error e => .throws e
  | .ok p =>
    match p.parse_check argv with
    | .exits code printed => .exits code printed
    | .goes p =>
      match getRun p with
      | .error e => .throws e
      | .ok run => .runs run

/-! ## The options -/

def options : Parser Str :=
  match parser with
  | .ok p => p
  | .error _ => {}

theorem parser_eq : parser = .ok options := rfl

theorem distinct : options.withHelp.Distinct :=
  Parser.Distinct.withHelp (by unfold Parser.Distinct; decide)

theorem shortDistinct : options.withHelp.ShortDistinct := by
  unfold Parser.ShortDistinct
  decide

/-- What `addString` makes. -/
def stringOption (name : String) (short_name : Char) (desc : String) (need : Bool)
    (default_ : String) : Opt Str :=
  ⟨name.toList, short_name, desc.toList ++ " (string".toList ++
    (if need then [] else " [=".toList ++ default_.toList ++ "]".toList) ++ ")".toList,
    some ⟨"string".toList, need, default_.toList, default_.toList, some⟩, false⟩

def helpOption : Opt Str := ⟨"help".toList, '?', "print this message".toList, none, false⟩

theorem options_eq : options.withHelp.options = [
    stringOption "db" 's' "database name" true "",
    stringOption "dir" 'd' "generating directory" false ".",
    helpOption,
    stringOption "password" 'p' "password of database" true "",
    stringOption "table" 't' "tables for generating" false "",
    stringOption "username" 'u' "username of database" true ""] := rfl

/-- The value of the last setting of the name. -/
def lastGiven (name : String) (settings : List Setting) : Option Str :=
  (settings.filterMap fun s => if s.1 = name.toList then s.2 else none).getLast?

/-- What the run is given, with the defaults of the rest. -/
structure Run.Given (run : Run) (settings : List Setting) : Prop where
  username : lastGiven "username" settings = some run.username
  password : lastGiven "password" settings = some run.password
  dbName : lastGiven "db" settings = some run.dbName
  dir : run.dir = (lastGiven "dir" settings).getD ".".toList
  tables : run.tables = Util.split ((lastGiven "table" settings).getD []) [',']

theorem acceptedIn_string {name : String} {short_name : Char} {desc : String} {need : Bool}
    {default_ : String} (settings : List Setting) :
    (stringOption name short_name desc need default_).acceptedIn settings =
      (lastGiven name settings).isSome := by
  induction settings with
  | nil => rfl
  | cons s settings ih =>
    have hcons : (stringOption name short_name desc need default_).acceptedIn (s :: settings) =
        ((s.1 = name.toList && s.2.isSome) ||
          (stringOption name short_name desc need default_).acceptedIn settings) := by
      cases hs : s.2 <;> simp [Opt.acceptedIn, stringOption, Opt.given, Opt.set, Opt.setValue, hs]
    rw [hcons, ih, lastGiven, lastGiven, List.filterMap_cons]
    by_cases hname : s.1 = name.toList
    · cases hs : s.2 with
      | none => simp [hname]
      | some value => simp [hname, List.getLast?_cons]
    · simp [hname]

/-- An option of the generator after its settings. -/
theorem get_string {items : List (Item Str)} (hitems : ∀ item ∈ items, options.withHelp.Takes item)
    (prog : Str) {name : String} {short_name : Char} {desc : String} {need : Bool}
    {default_ : String}
    (hmem : stringOption name short_name desc need default_ ∈ options.withHelp.options) :
    (options.withHelp.parse (prog :: items.flatMap Item.args)).1.get "string".toList name.toList =
      .ok ((lastGiven name (items.flatMap Item.settings)).getD default_.toList) := by
  have hget := Parser.get_written distinct shortDistinct prog hitems hmem rfl
  have hread : (stringOption name short_name desc need default_).read
      ⟨"string".toList, need, default_.toList, default_.toList, some⟩ =
      fun s => if s.1 = name.toList then s.2 else none := by
    funext s
    simp [Opt.read, stringOption]
  rw [hread] at hget
  exact hget

theorem complete_iff (settings : List Setting) : options.withHelp.Complete settings ↔
    (lastGiven "db" settings).isSome ∧ (lastGiven "password" settings).isSome ∧
      (lastGiven "username" settings).isSome := by
  have hneed {name : String} {short_name : Char} {desc default_ : String} {need : Bool} :
      (∀ vo ∈ (stringOption name short_name desc need default_).value, vo.need = true →
        (stringOption name short_name desc need default_).has = true ∨
          (stringOption name short_name desc need default_).acceptedIn settings = true) ↔
      (need = true → (lastGiven name settings).isSome) := by
    rw [acceptedIn_string]
    simp [stringOption]
  unfold Parser.Complete
  rw [options_eq]
  simp only [List.forall_mem_cons, hneed]
  simp [helpOption]

/-- Every text can be read. -/
theorem reads :
    ∀ o ∈ options.withHelp.options, ∀ vo ∈ o.value, ∀ value, (vo.read value).isSome := by
  have hstring {name : String} {short_name : Char} {desc default_ : String} {need : Bool} :
      ∀ vo ∈ (stringOption name short_name desc need default_).value,
        ∀ value, (vo.read value).isSome := by
    intro vo hvo value
    obtain rfl := Option.some.inj hvo
    rfl
  have hhelp : ∀ vo ∈ helpOption.value, ∀ value, (vo.read value).isSome := by
    intro vo hvo
    cases hvo
  rw [options_eq]
  simp only [List.forall_mem_cons]
  exact ⟨hstring, hstring, hhelp, hstring, hstring, hstring, by simp⟩

theorem accepted {items : List (Item Str)} (hitems : ∀ item ∈ items, options.withHelp.Takes item) :
    ∀ s ∈ items.flatMap Item.settings, options.withHelp.report s = [] := by
  intro s hs
  obtain ⟨item, hitem, hs⟩ := List.mem_flatMap.mp hs
  exact Parser.Takes.report distinct reads (hitems item hitem) s hs

theorem exist_help {items : List (Item Str)}
    (hitems : ∀ item ∈ items, options.withHelp.Takes item) (prog : Str) :
    (options.withHelp.parse (prog :: items.flatMap Item.args)).1.exist "help".toList = .ok true ↔
      ∃ s ∈ items.flatMap Item.settings, s.1 = "help".toList := by
  have hmem : helpOption ∈ options.withHelp.options := by rw [options_eq]; simp
  have hexist := Parser.exist_written distinct shortDistinct prog hitems hmem
  have hname : helpOption.name = "help".toList := rfl
  have hhas : helpOption.has = false := rfl
  rw [hname, hhas, Bool.false_or] at hexist
  rw [hexist]
  simp only [Except.ok.injEq, Opt.acceptedIn, List.any_eq_true, Bool.and_eq_true,
    decide_eq_true_eq]
  refine exists_congr fun s => and_congr_right fun hs => and_iff_left_of_imp fun hhelp => ?_
  obtain ⟨o, ho, hname, hgiven, -⟩ := Parser.report_eq_nil (accepted hitems s hs)
  rwa [distinct.eq ho hmem (hname.trans hhelp)] at hgiven

/-! ## Runs -/

theorem main_eq_runs (argv : List Str) (run : Run) :
    main argv = .runs run ↔ (options.withHelp.parse argv).2 = true ∧
      (options.withHelp.parse argv).1.exist "help".toList ≠ .ok true ∧
      getRun (options.withHelp.parse argv).1 = .ok run := by
  have hgoes := @Parser.check_goes _ argv.length (options.withHelp.parse argv)
  unfold main
  rw [parser_eq]
  simp only [Parser.parse_check]
  cases hcheck : Parser.check argv.length (options.withHelp.parse argv) with
  | exits code printed =>
    refine iff_of_false (by simp) fun hrun => ?_
    have hpass := hgoes.mpr ⟨hrun.1, hrun.2.1, rfl⟩
    rw [hcheck] at hpass
    cases hpass
  | goes p =>
    obtain ⟨hok, hhelp, rfl⟩ := hgoes.mp hcheck
    have hrun : (Outcome.runs run = match getRun (options.withHelp.parse argv).1 with
        | .error e => .throws e
        | .ok run => .runs run) ↔ getRun (options.withHelp.parse argv).1 = .ok run := by
      cases hget : getRun (options.withHelp.parse argv).1 with
      | error e => simp
      | ok r => simp [eq_comm]
    rw [eq_comm]
    exact hrun.trans ⟨fun h => ⟨hok, hhelp, h⟩, fun h => h.2.2⟩

/-- What the options are after arguments that are written for settings. -/
theorem getRun_items {items : List (Item Str)}
    (hitems : ∀ item ∈ items, options.withHelp.Takes item) (prog : Str) {settings : List Setting}
    (hsettings : items.flatMap Item.settings = settings) :
    getRun (options.withHelp.parse (prog :: items.flatMap Item.args)).1 = .ok {
      username := (lastGiven "username" settings).getD []
      password := (lastGiven "password" settings).getD []
      dbName := (lastGiven "db" settings).getD []
      dir := (lastGiven "dir" settings).getD ".".toList
      tables := Util.split ((lastGiven "table" settings).getD []) [','] } := by
  have hmem : ∀ o ∈ [stringOption "db" 's' "database name" true "",
      stringOption "dir" 'd' "generating directory" false ".",
      stringOption "username" 'u' "username of database" true "",
      stringOption "password" 'p' "password of database" true "",
      stringOption "table" 't' "tables for generating" false ""],
      o ∈ options.withHelp.options := by
    rw [options_eq]
    simp
  simp only [List.forall_mem_cons] at hmem
  obtain ⟨hdb, hdir, husername, hpassword, htable, -⟩ := hmem
  replace hdb := get_string hitems prog hdb
  replace hdir := get_string hitems prog hdir
  replace husername := get_string hitems prog husername
  replace hpassword := get_string hitems prog hpassword
  replace htable := get_string hitems prog htable
  rw [hsettings] at hdb hdir husername hpassword htable
  simp only [getRun, hdb, hdir, husername, hpassword, htable]
  rfl

/-- The generator runs exactly for arguments that are written for settings of its options,
with a user, a password and a database and without `help`. -/
theorem main_runs_iff (prog : Str) (args : List Str) (run : Run) :
    main (prog :: args) = .runs run ↔ ∃ items : List (Item Str),
      (∀ item ∈ items, options.withHelp.Takes item) ∧ args = items.flatMap Item.args ∧
      (∀ s ∈ items.flatMap Item.settings, s.1 ≠ "help".toList) ∧
      run.Given (items.flatMap Item.settings) := by
  rw [main_eq_runs]
  constructor
  · intro h
    obtain ⟨hok, hhelp, hrun⟩ := h
    obtain ⟨-, items, hitems, rfl⟩ := Parser.written_of_ok distinct hok
    obtain ⟨-, hcomplete⟩ := (Parser.ok_written distinct shortDistinct prog hitems).mp hok
    refine ⟨items, hitems, rfl, ?_, ?_⟩
    · intro s hs hname
      exact hhelp ((exist_help hitems prog).mpr ⟨s, hs, hname⟩)
    · obtain ⟨hdb, hpassword, husername⟩ := (complete_iff _).mp hcomplete
      obtain ⟨db, hdb⟩ := Option.isSome_iff_exists.mp hdb
      obtain ⟨password, hpassword⟩ := Option.isSome_iff_exists.mp hpassword
      obtain ⟨username, husername⟩ := Option.isSome_iff_exists.mp husername
      rw [getRun_items hitems prog rfl, hdb, hpassword, husername] at hrun
      obtain rfl := Except.ok.inj hrun
      exact ⟨husername, hpassword, hdb, rfl, rfl⟩
  · intro h
    obtain ⟨items, hitems, rfl, hhelp, hgiven⟩ := h
    have hcomplete : options.withHelp.Complete (items.flatMap Item.settings) :=
      (complete_iff _).mpr ⟨by rw [hgiven.dbName]; rfl, by rw [hgiven.password]; rfl,
        by rw [hgiven.username]; rfl⟩
    refine ⟨(Parser.ok_written distinct shortDistinct prog hitems).mpr
      ⟨accepted hitems, hcomplete⟩, ?_, ?_⟩
    · intro hexist
      obtain ⟨s, hs, hname⟩ := (exist_help hitems prog).mp hexist
      exact hhelp s hs hname
    · rw [getRun_items hitems prog rfl, hgiven.username, hgiven.password, hgiven.dbName]
      obtain ⟨username, password, dbName, dir, tables⟩ := run
      have hdir := hgiven.dir
      have htables := hgiven.tables
      simp only at hdir htables
      rw [hdir, htables]
      rfl

end ModelGen

end TinyOrm

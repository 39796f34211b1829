import TinyOrm.Idempotence
import TinyOrm.IndexMigration
import TinyOrm.Lib.Execution
set_option autoImplicit false

/-!
What the metadata file holds after a sequence of `DB::AutoMigrate` calls, and
after one whose statements MySQL rejects.
-/

namespace TinyOrm

open LoadState

/-! ## Sequences of calls -/

/-- The file of the database and the static members of the process. -/
structure Records where
  file : Option Str
  statics : Statics

/-- A call, in the same process as the one before or in a new one. -/
inductive AutoMigrateCall (conf : Config) : Records → List Model → Records → Prop
  | run {s : Records} {models : List Model} {fuel : Nat} {catalog : Str → Catalog} {st : Statics}
      {r : DB.Migrated} (hst : st = s.statics ∨ st = fun _ => {})
      (hrun : DB.AutoMigrate conf fuel s.file catalog models st = some r) :
      AutoMigrateCall conf s models ⟨some r.file, r.statics⟩

/-- What the last call with the class has saved for it. -/
def lastSaved (className : Str) : List (List Model) → Option SavedModel
  | [] => none
  | models :: calls =>
    (lastSaved className calls).or ((models.find? (·.className = className)).map Model.saved)

/-- The file is what the last call has written. -/
theorem call_file {conf : Config} {s s' : Records} {models : List Model}
    (h : AutoMigrateCall conf s models s')
    (hok : ∀ m ∈ models, m.saved.Storable conf) (hdistinct : (models.map Model.className).Nodup) :
    s'.file = some (fileBytes conf (models.map Model.saved)) := by
  cases h with
  | run hst hrun => rw [DB.autoMigrate_file hok hdistinct hrun]

theorem find_saved (models : List Model) (className : Str) :
    (models.map Model.saved).find? (·.className = className) =
      (models.find? (·.className = className)).map Model.saved := by
  rw [List.find?_map]
  rfl

/-- A class that is neither in the file nor in the database gets a call. -/
theorem exists_call {conf : Config} {m : Model} {file : Option Str} {st : Statics} {n : Nat}
    (hload : loadFromFile n file m.className {} = some {}) (hstorable : m.saved.Storable conf) :
    ∃ s', AutoMigrateCall conf ⟨file, st⟩ [m] s' := by
  have hmigrate : m.AutoMigrate conf n file Catalog.empty {} =
      some ([⟨[], .MIGACTION_CREATE_TABLE, []⟩], m.recorded {}) := by
    simp only [Model.AutoMigrate, hload, Option.bind_eq_bind, Option.bind_some]
    rfl
  have hrun : DB.AutoMigrate conf n file (fun _ => Catalog.empty) [m] (fun _ => {}) =
      some ⟨[[⟨[], .MIGACTION_CREATE_TABLE, []⟩]], fileBytes conf [m.saved],
        Function.update (fun _ => {}) m.className (m.recorded {})⟩ := by
    have hsave : saveAll conf [] [(m.recorded {}).saved m.className] =
        some (fileBytes conf [m.saved]) :=
      saveAll_eq [m.saved] (by simpa using hstorable) []
    simp only [DB.AutoMigrate, DB.doMigrate, hmigrate, Option.bind_eq_bind, Option.bind_some,
      List.map_cons, List.map_nil, Function.update_self, hsave]
  exact ⟨_, .run (Or.inr rfl) hrun⟩

def sampleRole : Model where
  className := "Role".toList
  metadata := [{ fieldName := "id".toList, cppType := "int".toList, isPk := true, notNull := true }]

def sampleUserRole : Model where
  className := "UserRole".toList
  metadata := [{ fieldName := "userId".toList, cppType := "int".toList }]

/-- A call for each of two classes. -/
theorem sample_calls : ∃ s, Execution (AutoMigrateCall rulesJson) ⟨none, fun _ => {}⟩
    [[sampleRole], [sampleUserRole]] s := by
  obtain ⟨s₁, hfirst⟩ := @exists_call rulesJson sampleRole none (fun _ => {}) 0 rfl (by decide)
  have hfile := call_file hfirst (by decide) (by decide)
  obtain ⟨n, hload⟩ : Loads (fileBytes rulesJson [sampleRole.saved]) "UserRole".toList {} :=
    loads_fileBytes [sampleRole.saved] (by decide) _
  have hload₁ : loadFromFile n s₁.file sampleUserRole.className {} = some {} := by
    rw [hfile]
    exact hload n (Nat.le_refl n)
  obtain ⟨s₂, hsecond⟩ := @exists_call rulesJson _ _ s₁.statics _ hload₁ (by decide)
  exact ⟨s₂, .cons hfirst (.cons hsecond (.nil _))⟩

/-- The record of `Role` is gone after a call for `UserRole`. -/
theorem other_call_forgets :
    ¬ ∀ (conf : Config) (start s : Records) (calls : List (List Model)),
      (∀ models ∈ calls, (∀ m ∈ models, m.saved.Storable conf) ∧
        (models.map Model.className).Nodup) →
      Execution (AutoMigrateCall conf) start calls s →
      ∀ className saved, lastSaved className calls = some saved →
        ∃ file out, s.file = some file ∧ Loads file className out ∧ out.Describes conf saved := by
  intro hclaim
  obtain ⟨s, hrun⟩ := sample_calls
  obtain ⟨file, out, hfile, hload, hdescribes⟩ := hclaim rulesJson _ s _ (by decide) hrun
    "Role".toList sampleRole.saved (by rfl)
  obtain ⟨s₁, -, hlast⟩ := hrun.split [[sampleRole]]
  cases hlast with
  | cons hcall hnil =>
    cases hnil with
    | nil =>
      rw [call_file hcall (by decide) (by decide), Option.some.injEq] at hfile
      have hnone : Loads (fileBytes rulesJson [sampleUserRole.saved]) "Role".toList {} :=
        loads_fileBytes [sampleUserRole.saved] (by decide) _
      obtain ⟨n, hn⟩ := hload
      obtain ⟨n', hn'⟩ := hnone
      have hout : out = {} := by
        have h := hn (max n n') (Nat.le_max_left _ _)
        rw [← hfile] at h
        exact Option.some.inj (h.symm.trans (hn' _ (Nat.le_max_right _ _)))
      have htable : out.tableName = "role".toList := hdescribes.tableName
      rw [hout] at htable
      cases htable

/-- After any sequence of calls the classes of the last one are read back as it
saved them, and every other class as nothing. -/
theorem records_of_last_call {conf : Config} {calls : List (List Model)} {last : List Model}
    {start s : Records} (hok : ∀ m ∈ last, m.saved.Storable conf)
    (hdistinct : (last.map Model.className).Nodup)
    (hrun : Execution (AutoMigrateCall conf) start (calls ++ [last]) s) :
    ∃ file, s.file = some file ∧
      (∀ m ∈ last, ∃ out, Loads file m.className out ∧ out.Describes conf m.saved) ∧
      ∀ className ∉ last.map Model.className, Loads file className {} := by
  obtain ⟨s', -, hlast⟩ := hrun.split calls
  cases hlast with
  | cons hcall hnil =>
    cases hnil with
    | nil =>
      have hstorable : ∀ saved ∈ last.map Model.saved, saved.Storable conf := by simpa using hok
      refine ⟨_, call_file hcall hok hdistinct, ?_, ?_⟩
      · intro m hm
        have hload := loads_fileBytes (last.map Model.saved) hstorable m.className
        have hnames : ((last.map Model.saved).map SavedModel.className).Nodup := by
          rw [List.map_map]
          exact hdistinct
        have hfind := find_className hnames (List.mem_map_of_mem hm)
        have hname : m.saved.className = m.className := rfl
        rw [hname] at hfind
        rw [hfind] at hload
        exact ⟨_, hload, loadedOf_describes (hok m hm)⟩
      · intro className hnot
        have hload := loads_fileBytes (last.map Model.saved) hstorable className
        have hnone : last.find? (·.className = className) = none := by
          rw [List.find?_eq_none]
          intro m hm he
          simp only [decide_eq_true_eq] at he
          exact hnot (he ▸ List.mem_map_of_mem hm)
        rw [find_saved, hnone] at hload
        exact hload

theorem records_of_last_call_sample :
    ∃ s,
      Execution (AutoMigrateCall rulesJson) ⟨none, fun _ => {}⟩ [[sampleRole], [sampleUserRole]] s ∧
      ∃ file, s.file = some file ∧
        (∀ m ∈ [sampleUserRole], ∃ out,
          Loads file m.className out ∧ out.Describes rulesJson m.saved) ∧
        ∀ className ∉ [sampleUserRole].map Model.className, Loads file className {} := by
  obtain ⟨s, hrun⟩ := sample_calls
  exact ⟨s, hrun, records_of_last_call (by decide) (by decide)
    (show Execution _ _ ([[sampleRole]] ++ [[sampleUserRole]]) s from hrun)⟩

/-! ## Rejected statements -/

/-- The loop of `migrate` with what MySQL answers to each statement: a statement
that is accepted takes effect, one that is rejected, for whatever reason, does
not. `executeUpdate` hands the answer to no one. -/
inductive Migrates (conf : Config) (m : Model) : Database → List (Cmd × Bool) → Database → Prop
  | nil (db : Database) : Migrates conf m db [] db
  | accepted {db db' db'' : Database} {cmd : Cmd} {sql : Sql} {rest : List (Cmd × Bool)}
      (hsql : m.statement conf cmd = some sql) (hexec : db.execute sql = some db')
      (hrest : Migrates conf m db' rest db'') : Migrates conf m db ((cmd, true) :: rest) db''
  | rejected {db db'' : Database} {cmd : Cmd} {sql : Sql} {rest : List (Cmd × Bool)}
      (hsql : m.statement conf cmd = some sql) (hrest : Migrates conf m db rest db'') :
      Migrates conf m db ((cmd, false) :: rest) db''

/-- The turn of a class: its commands, and the answers in the order of execution. -/
structure Turn where
  model : Model
  cmds : List Cmd
  answers : List (Cmd × Bool)

/-- `doMigrate` for one class after the other on a database whose catalog is `show_`. -/
inductive DoMigrate (conf : Config) (fuel : Nat) (file : Option Str) (show_ : Database → Catalog) :
    Statics → Database → List Turn → Statics → Database → Prop
  | nil (st : Statics) (db : Database) : DoMigrate conf fuel file show_ st db [] st db
  | cons {st st' : Statics} {db db' db'' : Database} {turn : Turn} {turns : List Turn}
      {prev : Loaded}
      (hauto : turn.model.AutoMigrate conf fuel file (show_ db) (st turn.model.className) =
        some (turn.cmds, prev))
      (hsort : SortedFrom turn.cmds (turn.answers.map Prod.fst))
      (hmigrate : Migrates conf turn.model db turn.answers db')
      (hrest : DoMigrate conf fuel file show_ (Function.update st turn.model.className prev) db'
        turns
        st' db'') :
      DoMigrate conf fuel file show_ st db (turn :: turns) st' db''

/-- A whole call of `DB::AutoMigrate`. -/
structure Run (conf : Config) (show_ : Database → Catalog) (file : Option Str) (st : Statics)
    (db : Database) (turns : List Turn) (file' : Str) : Prop where
  distinct : (turns.map fun turn => turn.model.className).Nodup
  run : ∃ fuel st' db', DoMigrate conf fuel file show_ st db turns st' db' ∧
    saveAll conf [] (turns.map fun turn =>
      (st' turn.model.className).saved turn.model.className) = some file'

/-- A saved model has what a command is to make of the table. -/
def SavedModel.Has (s : SavedModel) (m : Model) (cmd : Cmd) : Prop :=
  match cmd.action with
  | .MIGACTION_CREATE_TABLE => s.tableName = m.getTableName ∧ s.fields = m.metadata
  | .MIGACTION_CHANGE_TABLENAME => s.tableName = cmd.targetName
  | .MIGACTION_ADD_COLUMN | .MIGACTION_CHANGE_COLUMN =>
    ∃ field ∈ m.metadata, field.getColumnName = cmd.targetName ∧ field ∈ s.fields
  | .MIGACTION_DROP_INDEX | .MIGACTION_ADD_INDEX =>
    s.indices.lookup cmd.targetName = m.indices.lookup cmd.targetName

/-- The file is a file of saved models, and that of the class has it. -/
def Recorded (conf : Config) (file : Str) (m : Model) (cmd : Cmd) : Prop :=
  ∃ models, saveAll conf [] models = some file ∧
    ∃ s ∈ models, s.className = m.className ∧ s.Has m cmd

/-- Every later process with the same declarations has a command with the same target. -/
def EmittedAgain (conf : Config) (show_ : Database → Catalog) (file : Str) (turns : List Turn)
    (m : Model) (cmd : Cmd) : Prop :=
  ∀ db turns' file', turns'.map Turn.model = turns.map Turn.model →
    Run conf show_ (some file) (fun _ => {}) db turns' file' →
    ∃ turn ∈ turns', turn.model = m ∧ ∃ cmd' ∈ turn.cmds, cmd'.targetName = cmd.targetName

/-- No rejected change is recorded as done. -/
def FailuresUnrecorded (conf : Config) (show_ : Database → Catalog) (file : Str)
    (turns : List Turn) : Prop :=
  ∀ turn ∈ turns, ∀ cmd, (cmd, false) ∈ turn.answers →
    ¬ Recorded conf file turn.model cmd ∧ EmittedAgain conf show_ file turns turn.model cmd

theorem searchTable_has {conf : Config} {m : Model} {catalog : Catalog} {prev prev' : Loaded}
    {cmds : List Cmd} (h : m.searchTable conf catalog prev = some (prev', cmds)) :
    ∀ cmd ∈ cmds, m.saved.Has m cmd := by
  have hcreate : m.saved.Has m ⟨[], .MIGACTION_CREATE_TABLE, []⟩ := ⟨rfl, rfl⟩
  have hrename : m.saved.Has m m.renameCmd := rfl
  unfold Model.searchTable at h
  split at h
  · simp only [Option.bind_eq_bind, Option.bind_eq_some_iff] at h
    obtain ⟨loaded, -, h⟩ := h
    split at h
    · simp only [Option.bind_eq_some_iff] at h
      obtain ⟨loaded', -, h⟩ := h
      split at h <;> cases h <;> simpa
    · cases h
      simp
  · cases h
    simp

theorem diffTable_has {conf : Config} {m : Model} {prev : Loaded} {cmds : List Cmd}
    (h : m.diffTable conf prev = some cmds) : ∀ cmd ∈ cmds, m.saved.Has m cmd := by
  unfold Model.diffTable at h
  split at h
  · simp only [Option.bind_eq_bind, Option.bind_eq_some_iff, Option.some.injEq] at h
    obtain ⟨columns, hcolumns, rfl⟩ := h
    intro cmd hcmd
    rcases List.mem_append.mp hcmd with hcmd | hcmd
    · rcases List.mem_append.mp hcmd with hcmd | hcmd
      · split at hcmd
        · rw [List.mem_singleton.mp hcmd]
          exact rfl
        · cases hcmd
      · obtain ⟨⟨field, hfield, hname⟩, haction⟩ := Model.allColumnCmds_target hcolumns cmd hcmd
        unfold SavedModel.Has
        rcases haction with haction | haction <;> rw [haction] <;>
          exact ⟨field, hfield, hname.symm, hfield⟩
    · have hindex := indexCmds_isIndex m prev cmd hcmd
      unfold Cmd.isIndex at hindex
      unfold SavedModel.Has
      cases haction : cmd.action <;> simp [haction] at hindex <;> rfl
  · cases h
    simp

/-- What a model saves of itself has everything its commands are to make. -/
theorem autoMigrate_has {conf : Config} {fuel : Nat} {file : Option Str} {catalog : Catalog}
    {m : Model} {prev prev' : Loaded} {cmds : List Cmd}
    (h : m.AutoMigrate conf fuel file catalog prev = some (cmds, prev')) :
    prev'.saved m.className = m.saved ∧ ∀ cmd ∈ cmds, m.saved.Has m cmd := by
  simp only [Model.AutoMigrate, Option.bind_eq_bind, Option.bind_eq_some_iff, Prod.exists,
    Option.some.injEq, Prod.mk.injEq] at h
  obtain ⟨loaded, -, loaded', found, hfound, diff, hdiff, rfl, rfl⟩ := h
  refine ⟨rfl, fun cmd hcmd => ?_⟩
  rcases List.mem_append.mp hcmd with hcmd | hcmd
  · exact searchTable_has hfound cmd hcmd
  · exact diffTable_has hdiff cmd hcmd

/-- A run leaves the declarations of every class in its static members. -/
theorem doMigrate_saved {conf : Config} {fuel : Nat} {file : Option Str}
    {show_ : Database → Catalog}
    {st st' : Statics} {db db' : Database} {turns : List Turn}
    (hdistinct : (turns.map fun turn => turn.model.className).Nodup)
    (h : DoMigrate conf fuel file show_ st db turns st' db') :
    (∀ turn ∈ turns, (st' turn.model.className).saved turn.model.className = turn.model.saved ∧
      ∀ answer ∈ turn.answers, turn.model.saved.Has turn.model answer.1) ∧
      ∀ className ∉ turns.map (fun turn => turn.model.className), st' className = st className := by
  induction h with
  | nil => simp
  | @cons st st' db db' db'' turn turns prev hauto hsort hmigrate hrest ih =>
    simp only [List.map_cons, List.nodup_cons] at hdistinct
    obtain ⟨hsaved, hother⟩ := ih hdistinct.2
    obtain ⟨hprev, hhas⟩ := autoMigrate_has hauto
    constructor
    · intro t ht
      rcases List.mem_cons.mp ht with rfl | ht
      · refine ⟨?_, fun answer hanswer => ?_⟩
        · rw [hother _ hdistinct.1, Function.update_self]
          exact hprev
        · exact hhas _ (hsort.perm.subset (List.mem_map_of_mem hanswer))
      · exact hsaved t ht
    · intro className hnot
      simp only [List.map_cons, List.mem_cons, not_or] at hnot
      rw [hother className hnot.2, Function.update_of_ne hnot.1]

/-- Whatever MySQL answers, the file records every change. -/
theorem run_recorded {conf : Config} {show_ : Database → Catalog} {file : Option Str} {st : Statics}
    {db : Database} {turns : List Turn} {file' : Str} (h : Run conf show_ file st db turns file')
    {turn : Turn} (hturn : turn ∈ turns) {answer : Cmd × Bool} (hanswer : answer ∈ turn.answers) :
    Recorded conf file' turn.model answer.1 := by
  obtain ⟨fuel, st', db', hrun, hsave⟩ := h.run
  obtain ⟨hsaved, -⟩ := doMigrate_saved h.distinct hrun
  refine ⟨_, hsave, _, List.mem_map_of_mem hturn, rfl, ?_⟩
  rw [(hsaved turn hturn).1]
  exact (hsaved turn hturn).2 answer hanswer

theorem doMigrate_silent {conf : Config} {show_ : Database → Catalog} {models : List Model}
    (hok : ∀ m ∈ models, m.Storable conf) (hdistinct : (models.map Model.className).Nodup)
    {fuel : Nat} {st st' : Statics} {db db' : Database} {turns : List Turn}
    (hmodels : ∀ turn ∈ turns, turn.model ∈ models)
    (hturns : (turns.map fun turn => turn.model.className).Nodup)
    (hst : ∀ turn ∈ turns, st turn.model.className = {})
    (h : DoMigrate conf fuel (some (fileBytes conf (models.map Model.saved))) show_ st db turns
      st' db') :
    ∀ turn ∈ turns, turn.cmds = [] := by
  induction h with
  | nil => simp
  | @cons st st' db db' db'' turn turns prev hauto hsort hmigrate hrest ih =>
    simp only [List.map_cons, List.nodup_cons] at hturns
    have hmem := hmodels turn (by simp)
    intro t ht
    rcases List.mem_cons.mp ht with rfl | ht
    · have hload := loads_fileBytes (models.map Model.saved)
        (by simpa using fun m hm => (hok m hm).saved) t.model.className
      have hnames : ((models.map Model.saved).map SavedModel.className).Nodup := by
        rw [List.map_map]
        exact hdistinct
      have hfind := find_className hnames (List.mem_map_of_mem hmem)
      have hname : t.model.saved.className = t.model.className := rfl
      rw [hname] at hfind
      rw [hfind, Option.map_some, Option.getD_some] at hload
      rw [hst t (by simp)] at hauto
      obtain ⟨loaded, hloaded, -⟩ := Option.bind_eq_some_iff.mp hauto
      obtain rfl := hload.unique hloaded
      rw [autoMigrate_unchanged (hok _ hmem) hloaded (loadedOf_describes (hok _ hmem).saved),
        Option.some.injEq, Prod.mk.injEq] at hauto
      exact hauto.1.symm
    · refine ih (fun t ht => hmodels t (by simp [ht])) hturns.2 (fun t ht => ?_) t ht
      have hne : t.model.className ≠ turn.model.className := by
        intro he
        exact hturns.1 (he ▸ List.mem_map_of_mem ht)
      rw [Function.update_of_ne hne]
      exact hst t (by simp [ht])

/-- Whatever MySQL has rejected, the next process with the same declarations has
nothing to do. -/
theorem later_run_silent {conf : Config} {show_ : Database → Catalog} {file : Option Str}
    {st : Statics} {db db' : Database} {turns turns' : List Turn} {file' file'' : Str}
    (hok : ∀ turn ∈ turns, turn.model.Storable conf) (hrun : Run conf show_ file st db turns file')
    (hsame : turns'.map Turn.model = turns.map Turn.model)
    (hlater : Run conf show_ (some file') (fun _ => {}) db' turns' file'') :
    ∀ turn ∈ turns', turn.cmds = [] := by
  obtain ⟨fuel, st', db₁, hmigrate, hsave⟩ := hrun.run
  obtain ⟨hsaved, -⟩ := doMigrate_saved hrun.distinct hmigrate
  have hstorable : ∀ m ∈ turns.map Turn.model, m.Storable conf := by simpa using hok
  have hsaves : turns.map (fun turn => (st' turn.model.className).saved turn.model.className) =
      (turns.map Turn.model).map Model.saved := by
    rw [List.map_map]
    exact List.map_congr_left fun turn hturn => (hsaved turn hturn).1
  rw [hsaves, saveAll_eq _ (by simpa using fun turn hturn => (hok turn hturn).saved),
    List.nil_append, Option.some.injEq] at hsave
  obtain ⟨fuel', st'', db₂, hmigrate', -⟩ := hlater.run
  rw [← hsave] at hmigrate'
  have hdistinct : ((turns.map Turn.model).map Model.className).Nodup := by
    rw [List.map_map]
    exact hrun.distinct
  refine doMigrate_silent hstorable hdistinct (fun turn hturn => ?_) hlater.distinct
    (fun _ _ => rfl) hmigrate'
  rw [← hsame]
  exact List.mem_map_of_mem hturn

def createTableCmd : Cmd := ⟨[], .MIGACTION_CREATE_TABLE, []⟩

/-- A class without a table, whose CREATE TABLE is answered with `ok`. -/
theorem exists_run {conf : Config} {m : Model} {ok : Bool} {db' : Database} {file' : Str}
    (hmigrate : Migrates conf m Database.empty [(createTableCmd, ok)] db')
    (hsave : saveAll conf [] [m.saved] = some file') :
    Run conf (fun _ => Catalog.empty) none (fun _ => {}) Database.empty
      [⟨m, [createTableCmd], [(createTableCmd, ok)]⟩] file' := by
  have hauto : m.AutoMigrate conf 0 none Catalog.empty {} =
    some ([createTableCmd], m.recorded {}) := rfl
  have hsort : SortedFrom [createTableCmd] [createTableCmd] :=
    ⟨.refl _, List.pairwise_singleton _ _⟩
  refine ⟨by simp, 0, _, _, .cons hauto hsort hmigrate (.nil _ _), ?_⟩
  simp only [List.map_cons, List.map_nil, Function.update_self]
  exact hsave

/-- A table that was never created is in the file. -/
theorem rejected_create_recorded :
    ¬ ∀ (conf : Config) (show_ : Database → Catalog) (file : Option Str) (st : Statics)
      (db : Database)
        (turns : List Turn) (file' : Str), Run conf show_ file st db turns file' →
      FailuresUnrecorded conf show_ file' turns := by
  intro hclaim
  have hrun := exists_run (m := sampleRole) (.rejected rfl (.nil _))
    (saveAll_eq [sampleRole.saved] (by decide : ∀ s ∈ [sampleRole.saved], s.Storable rulesJson) [])
  have hturn := List.mem_singleton_self
    (⟨sampleRole, [createTableCmd], [(createTableCmd, false)]⟩ : Turn)
  have hanswer := List.mem_singleton_self (createTableCmd, false)
  exact (hclaim _ _ _ _ _ _ _ hrun _ hturn createTableCmd hanswer).1
    (run_recorded hrun hturn hanswer)

/-- A run meets the law exactly if MySQL rejects nothing. -/
theorem failures_unrecorded_iff {conf : Config} {show_ : Database → Catalog} {file : Option Str}
    {st : Statics} {db : Database} {turns : List Turn} {file' : Str}
    (hrun : Run conf show_ file st db turns file') :
    FailuresUnrecorded conf show_ file' turns ↔
      ∀ turn ∈ turns, ∀ answer ∈ turn.answers, answer.2 = true := by
  constructor
  · intro h turn hturn answer hanswer
    obtain ⟨cmd, ok⟩ := answer
    cases ok with
    | true => rfl
    | false => exact absurd (run_recorded hrun hturn hanswer) (h turn hturn cmd hanswer).1
  · intro h turn hturn cmd hcmd
    exact absurd (h turn hturn _ hcmd) (by simp)

theorem failures_unrecorded_iff_sample :
    ∃ file', Run rulesJson (fun _ => Catalog.empty) none (fun _ => {}) Database.empty
        [⟨sampleRole, [createTableCmd], [(createTableCmd, true)]⟩] file' ∧
      FailuresUnrecorded rulesJson (fun _ => Catalog.empty) file'
        [⟨sampleRole, [createTableCmd], [(createTableCmd, true)]⟩] := by
  obtain ⟨db', hexec⟩ : ∃ db', Database.empty.execute (sampleRole.createTable rulesJson) =
      some db' :=
    ⟨_, rfl⟩
  have hrun := exists_run (m := sampleRole) (.accepted rfl hexec (.nil _))
    (saveAll_eq [sampleRole.saved] (by decide : ∀ s ∈ [sampleRole.saved], s.Storable rulesJson) [])
  exact ⟨_, hrun, (failures_unrecorded_iff hrun).mpr (by decide)⟩

end TinyOrm

import TinyOrm.Chain
set_option autoImplicit false

/-!
A run of operations on one `Model` object.
-/

namespace TinyOrm

/-- The operations; `Fetch` and `Exec` come with their `Raw`. -/
inductive Op where
  | Create (t : Obj)
  | CreateAll (v : List Obj)
  | Update (args : Assignment)
  | Delete
  | First (t : Obj)
  | All
  | RawFetch (sql : Str) (args : List Value)
  | RawExec (sql : Str) (args : List Value)

/-- Builder calls, the operation that ends them, and the server's answer. -/
structure Segment where
  calls : List Call
  op : Op
  reply : Reply

def Op.run (m : Model) (reply : Reply) : Op → Model × Option Statement
  | .Create t => let d := m.Create t; (d.model, d.sent)
  | .CreateAll v => let d := m.CreateAll v; (d.model, d.sent)
  | .Update args =>
    match m.Update args reply with
    | none => (m, none)
    | some d => (d.model, d.sent)
  | .Delete => let d := m.Delete reply; (d.model, d.sent)
  | .First t => let d := m.First t reply; (d.model, d.sent)
  | .All => let d := m.All reply; (d.model, d.sent)
  | .RawFetch sql args => let d := (m.Raw sql args).Fetch reply; (d.model, d.sent)
  | .RawExec sql args => let d := (m.Raw sql args).Exec reply; (d.model, d.sent)

def Segment.run (m : Model) (seg : Segment) : Model × Option Statement :=
  seg.op.run (m.calls seg.calls) seg.reply

/-- The state after each operation and the statement it executed. -/
def session : Model → List Segment → List (Model × Option Statement)
  | _, [] => []
  | m, seg :: segs => seg.run m :: session (seg.run m).1 segs

/-- Each operation leaves no builder call pending, keeps the connection, and
executed what it executes on the fresh model. -/
def Isolated (m : Model) (segs : List Segment) : Prop :=
  List.Forall₂ (fun seg r => r.1.Fresh ∧ r.1.conn = m.conn ∧ r.2 = (seg.run m).2) segs
    (session m segs)

/-- No builder call of the segment leaves anything behind. -/
def Segment.Bare (seg : Segment) : Prop :=
  seg.calls.filterMap Call.constraint = [] ∧ seg.calls.flatMap Call.columns = []

/-- The exit of the operation that resets, or nothing to reset. -/
def Segment.Clears (seg : Segment) : Prop :=
  match seg.op with
  | .First _ => (∃ row rows, seg.reply.rows = some (row :: rows)) ∨ seg.Bare
  | .All => seg.reply.rows.isSome ∨ seg.Bare
  | .RawFetch sql _ => Model.IsSelect sql ∧ seg.reply.rows.isSome
  | .RawExec _ _ => False
  | _ => True

/-! ## Frame -/

/-- The same class on the same connection, whatever `Raw` has left. -/
def Model.Like (m' m : Model) : Prop := m' = { m with rawSql := m'.rawSql, status := m'.status }

/-- What no operation changes. -/
def Model.Frame (m' m : Model) : Prop :=
  m' = { m with
    selectedColumns := m'.selectedColumns, constraints := m'.constraints, conn := m'.conn,
    rawSql := m'.rawSql, status := m'.status }

theorem Model.Frame.calls {m' m : Model} {calls : List Call} (h : m'.Frame (m.calls calls)) :
    m'.Frame m := by
  rw [Model.calls_eq] at h
  exact h

theorem Model.Frame.of_like {m'' m m₀ : Model} (h : m''.Frame m) (hlike : m.Like m₀) :
    m''.Frame m₀ := by
  unfold Model.Frame at h ⊢
  rw [hlike] at h
  exact h

theorem Op.run_frame (m : Model) (reply : Reply) (op : Op) : (op.run m reply).1.Frame m := by
  cases op with
  | Update args =>
    rw [Op.run, Model.Update_eq]
    rfl
  | First t =>
    simp only [Op.run, Model.First]
    match reply.rows with
    | none => rfl
    | some [] => rfl
    | some (_ :: _) => rfl
  | All =>
    simp only [Op.run, Model.All]
    cases reply.rows <;> rfl
  | RawFetch sql args =>
    simp only [Op.run, Model.Fetch]
    cases (m.Raw sql args).status with
    | QUERY => cases reply.rows <;> rfl
    | _ => rfl
  | RawExec sql args =>
    simp only [Op.run, Model.Exec]
    cases (m.Raw sql args).status <;> rfl
  | _ => rfl

theorem Segment.run_frame (m : Model) (seg : Segment) : (seg.run m).1.Frame m :=
  (Op.run_frame (m.calls seg.calls) seg.reply seg.op).calls

theorem Model.Frame.like {m' m : Model} (h : m'.Frame m) (hm : m.Fresh) (hm' : m'.Fresh)
    (hconn : m'.conn = m.conn) : m'.Like m := by
  have h' := h
  rw [Model.Frame, hm'.1, hm'.2, hconn] at h'
  unfold Model.Like
  rw [← hm.1, ← hm.2] at h'
  exact h'

/-- What an operation executes does not depend on what an earlier `Raw` left. -/
theorem Segment.run_like {m' m : Model} (h : m'.Like m) (seg : Segment) :
    (seg.run m').2 = (seg.run m).2 := by
  unfold Model.Like at h
  have hcalls : m'.calls seg.calls =
      { m.calls seg.calls with rawSql := m'.rawSql, status := m'.status } := by
    rw [Model.calls_eq, Model.calls_eq, h]
  unfold Segment.run
  rw [hcalls]
  generalize m.calls seg.calls = m₁
  cases seg.op with
  | Update args =>
    rw [Op.run, Op.run, Model.Update_eq, Model.Update_eq]
    rfl
  | First t =>
    simp only [Op.run, Model.First]
    match seg.reply.rows with
    | none => rfl
    | some [] => rfl
    | some (_ :: _) => rfl
  | All =>
    simp only [Op.run, Model.All]
    cases seg.reply.rows <;> rfl
  | RawFetch sql args =>
    by_cases hs : Model.IsSelect sql
    · simp only [Op.run, Model.Fetch, Model.Raw, hs, if_true]
    · simp only [Op.run, Model.Fetch, Model.Raw, hs, if_false]
  | RawExec sql args =>
    by_cases hs : Model.IsSelect sql
    · simp only [Op.run, Model.Exec, Model.Raw, hs, if_true]
    · simp only [Op.run, Model.Exec, Model.Raw, hs, if_false]
  | _ => rfl

/-! ## One operation -/

theorem Model.reset_spec (m : Model) : m.reset.Fresh ∧ m.reset.conn = m.conn := ⟨⟨rfl, rfl⟩, rfl⟩

theorem Segment.bare_iff {m : Model} (hm : m.Fresh) (seg : Segment) :
    (m.calls seg.calls).Fresh ↔ seg.Bare := by
  rw [Model.Fresh, hm.calls_constraints, hm.calls_selectedColumns, Segment.Bare]

theorem Op.run_clears (m : Model) (seg : Segment) (hbare : m.Fresh ↔ seg.Bare) :
    ((seg.op.run m seg.reply).1.Fresh ∧ (seg.op.run m seg.reply).1.conn = m.conn) ↔
      seg.Clears := by
  obtain ⟨calls, op, reply⟩ := seg
  cases op with
  | Update args =>
    rw [Op.run, Model.Update_eq]
    exact iff_of_true m.reset_spec trivial
  | First t =>
    simp only [Op.run, Model.First, Segment.Clears]
    match reply with
    | ⟨_, none, _⟩ => simpa using hbare
    | ⟨_, some [], _⟩ => simpa using hbare
    | ⟨_, some (row :: rows), _⟩ => exact iff_of_true m.reset_spec (Or.inl ⟨row, rows, rfl⟩)
  | All =>
    simp only [Op.run, Model.All, Segment.Clears]
    match reply with
    | ⟨_, none, _⟩ => simpa using hbare
    | ⟨_, some rows, _⟩ => exact iff_of_true m.reset_spec (Or.inl rfl)
  | RawFetch sql args =>
    simp only [Op.run, Segment.Clears]
    by_cases hs : Model.IsSelect sql
    · match reply with
      | ⟨_, none, _⟩ => simp [Model.Fetch, Model.Raw, hs, Model.Fresh]
      | ⟨_, some rows, _⟩ =>
        simp [Model.Fetch, Model.Raw, hs, Model.reset, Model.Fresh]
    · simp [Model.Fetch, Model.Raw, hs, Model.Fresh]
  | RawExec sql args =>
    simp only [Op.run, Segment.Clears]
    by_cases hs : Model.IsSelect sql <;> simp [Model.Exec, Model.Raw, hs, Model.Fresh]
  | _ => exact iff_of_true m.reset_spec trivial

/-- One operation on a fresh model. -/
theorem Segment.run_clears {m : Model} (hm : m.Fresh) (seg : Segment) :
    ((seg.run m).1.Fresh ∧ (seg.run m).1.conn = m.conn) ↔ seg.Clears := by
  have h := Op.run_clears (m.calls seg.calls) seg (Segment.bare_iff hm seg)
  rwa [Model.calls_conn] at h

/-! ## A run -/

/-- The state between two operations of a run that is isolated so far. -/
theorem isolated_from {m₀ m : Model} (hm₀ : m₀.Fresh) (hm : m.Fresh) (hlike : m.Like m₀)
    (segs : List Segment) :
    List.Forall₂ (fun seg r => r.1.Fresh ∧ r.1.conn = m₀.conn ∧ r.2 = (seg.run m₀).2) segs
      (session m segs) ↔ ∀ seg ∈ segs, seg.Clears := by
  induction segs generalizing m with
  | nil => simp [session]
  | cons seg segs ih =>
    have hconn : m.conn = m₀.conn := by rw [hlike]
    have hsent := Segment.run_like hlike seg
    have hclear := Segment.run_clears hm seg
    rw [hconn] at hclear
    simp only [session, List.forall₂_cons, List.forall_mem_cons]
    constructor
    · rintro ⟨⟨hfresh, hc, -⟩, hrest⟩
      have hframe := (Segment.run_frame m seg).of_like hlike
      exact ⟨hclear.mp ⟨hfresh, hc⟩, (ih hfresh (hframe.like hm₀ hfresh hc)).mp hrest⟩
    · rintro ⟨hseg, hrest⟩
      obtain ⟨hfresh, hc⟩ := hclear.mpr hseg
      have hframe := (Segment.run_frame m seg).of_like hlike
      exact ⟨⟨hfresh, hc, hsent⟩, (ih hfresh (hframe.like hm₀ hfresh hc)).mpr hrest⟩

/-- `First` finds no row: its condition is in the next statement. -/
theorem first_without_row :
    ¬ Isolated { className := "User".toList, conn := some 1 }
      [⟨[.cond_and (word "id = ?".toList) [.int 7]], .First [], { rows := some [] }⟩,
       ⟨[], .All, { rows := some [] }⟩] := by
  intro h
  have hfresh := ((List.forall₂_cons.mp h).1).1.1
  exact absurd hfresh (by decide)

theorem isolated_iff {m : Model} (hm : m.Fresh) (segs : List Segment) :
    Isolated m segs ↔ ∀ seg ∈ segs, seg.Clears :=
  isolated_from hm hm rfl segs

theorem isolated_iff_sample :
    Isolated { className := "User".toList, conn := some 1 }
      [⟨[.cond_and (word "id = ?".toList) [.int 7]], .Delete, {}⟩,
       ⟨[.select ["id".toList]], .RawFetch "SELECT 1".toList [], { rows := some [] }⟩] :=
  (isolated_iff (m := { className := "User".toList, conn := some 1 }) ⟨rfl, rfl⟩
    [⟨[.cond_and (word "id = ?".toList) [.int 7]], .Delete, {}⟩,
     ⟨[.select ["id".toList]], .RawFetch "SELECT 1".toList [], { rows := some [] }⟩]).mpr (by
    intro seg hseg
    rcases List.mem_cons.mp hseg with rfl | hseg
    · exact trivial
    · rw [List.mem_singleton.mp hseg]
      exact ⟨by decide, rfl⟩)

end TinyOrm

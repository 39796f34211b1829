import TinyOrm.PoolSafety
set_option autoImplicit false

/-!
The pool under `configure`, which every constructor of a client calls on the one
instance there is (mysql4cpp/connectionpool.cpp, mysql4cpp/database.cpp, db.h).
-/

namespace TinyOrm.Pool

/-! ## Configured pools -/

/-- What `newConnection` passes to `mysql_real_connect`. -/
structure Target where
  host : Str
  username : Str
  password : Str
  port : Int
  db : Str
  deriving DecidableEq, Repr

/-- The pool, what its connections are opened with from now on, and what each
handle was opened with. -/
structure Configured where
  pool : State
  target : Target
  origin : Handle → Target

inductive Event where
  | configure (conf : Settings) (target : Target)
  | pool (l : Label)
  deriving DecidableEq, Repr

namespace Configured

/-- After the first call of `configure`. -/
def init (conf : Settings) (target : Target) : Configured where
  pool := Pool.init conf
  target := target
  origin := fun _ => target

def configure (w : Configured) (conf : Settings) (target : Target) : Configured :=
  { w with pool := { w.pool with conf := conf }, target := target }

/-- A step of the pool; what it opens it opens with `target`. -/
def after (w : Configured) (p : State) : Configured :=
  { w with pool := p, origin := fun h => if h < w.pool.opened then w.origin h else w.target }

inductive Step : Configured → Event → Configured → Prop where
  | configure (w : Configured) (conf : Settings) (target : Target) :
      Step w (.configure conf target) (w.configure conf target)
  | pool {w : Configured} {l : Label} {p : State} (h : Pool.Step w.pool l p) :
      Step w (.pool l) (w.after p)

/-- The states behind `w`, each with the event that leads there. -/
def Run : Configured → List (Event × Configured) → Prop
  | _, [] => True
  | w, (e, w') :: run => Step w e w' ∧ Run w' run

/-- `getConn` cannot hand out an open connection of another configuration. -/
def Lawful (w : Configured) : Prop :=
  ∀ t a ans w', Step w (.pool (.answer t a ans)) w' →
    ∀ h, held w'.pool (.client a) = some h → w'.origin h = w'.target

/-- In every state of the run. -/
def AlwaysLawful (w : Configured) (run : List (Event × Configured)) : Prop :=
  w.Lawful ∧ ∀ x ∈ run, x.2.Lawful

/-- The open connections that are stored as idle were opened with `target`. -/
def IdleFrom (w : Configured) (target : Target) : Prop :=
  ∀ id h, held w.pool (.pooled id) = some h → w.origin h = target

end Configured

/-- The object that a step stores as idle. -/
def returned (s : State) : Label → Option SqlConn
  | .close a => (s.objs a).filter fun conn => conn.pool && decide (conn.id ∈ s.usedConnections)
  | .release a => (s.objs a).filter fun conn => decide (conn.id ∈ s.usedConnections)
  | _ => none

/-- `configure` comes when every open connection that is idle was opened with what
it sets, and a client gives back no open connection of another configuration. -/
def Configured.Keeps (w : Configured) : Event → Prop
  | .configure _ target => w.IdleFrom target
  | .pool l => ∀ conn h, returned w.pool l = some conn → conn.ptr = some h → w.origin h = w.target

/-- Every step of a run does. -/
def Configured.AllKeep : Configured → List (Event × Configured) → Prop
  | _, [] => True
  | w, (e, w') :: run => w.Keeps e ∧ w'.AllKeep run

/-! ## The shape of reachable pools -/

/-- The stored connections are the idle ones, every handle was opened, and there
is room for another object. -/
structure Shape (s : State) : Prop where
  keys : ∀ id, (s.connections id).isSome ↔ id ∈ s.idleConnections
  handles : ∀ o h, held s o = some h → h < s.opened
  room : ∃ n : Nat, ∀ a : Nat, n ≤ a → s.objs a = none

theorem room_setObj {s : State} (h : ∃ n : Nat, ∀ a : Nat, n ≤ a → s.objs a = none) (a : Nat)
    (conn : Option SqlConn) : ∃ n : Nat, ∀ b : Nat, n ≤ b → (s.setObj a conn).objs b = none := by
  obtain ⟨n, hn⟩ := h
  refine ⟨n + (a + 1), ?_⟩
  intro b hb
  have hne : b ≠ a := by omega
  have hfree := hn b (by omega)
  simp [State.setObj, hne, hfree]

/-- A change of one object, which takes over or opens at most one handle. -/
theorem Shape.setObj {s : State} (h : Shape s) (a : Addr) {conn : Option SqlConn} {n g : Nat}
    (hn : s.opened ≤ n) (hr : ∀ x, conn.bind SqlConn.ptr = some x → x < n) :
    Shape (({ s with globalId := g, opened := n } : State).setObj a conn) := by
  constructor
  · exact h.keys
  · have hheld : held (({ s with globalId := g, opened := n } : State).setObj a conn) =
        Function.update (held s) (.client a) (conn.bind SqlConn.ptr) := held_setObj _ _ _
    rw [hheld]
    exact held_update_lt h.handles hn hr
  · exact room_setObj h.room a conn

theorem Shape.give_closed {s : State} (h : Shape s) (a : Addr) (error : Str) :
    Shape (({ s with globalId := s.globalId + 1 } : State).setObj a
      (some { error := error, id := s.globalId })) := by
  apply h.setObj a (Nat.le_refl _)
  intro x hx
  cases hx

theorem Shape.give_open {s : State} (h : Shape s) (a : Addr) (error : Str) :
    Shape (({ s with globalId := s.globalId + 1, opened := s.opened + 1 } : State).setObj a
      (some { ptr := some s.opened, error := error, id := s.globalId, pool := true })) := by
  apply h.setObj a (Nat.le_succ _)
  intro x hx
  obtain rfl : s.opened = x := by simpa using hx
  exact Nat.lt_succ_self _

theorem Shape.getConn {s s' : State} (h : Shape s) {a : Addr} {connId : Nat} {outcome : Connecting}
    {ans : Answer} (hget : getConn s a connId outcome = some (ans, s')) :
    Shape s' ∧ s.opened ≤ s'.opened := by
  rcases getConn_cases hget with ⟨conn, hpos, hc, -, rfl⟩ | ⟨-, -, error, -, rfl⟩ |
    ⟨-, -, error, -, rfl⟩ | ⟨-, -, -, rfl⟩ | ⟨-, -, -, rfl⟩
  · refine ⟨⟨keys_reuse h.keys connId, ?_, room_setObj h.room a _⟩, Nat.le_refl _⟩
    intro o x hx
    rw [held_reuse hc] at hx
    by_cases ho : o = .pooled connId
    · simp [ho] at hx
    · rw [Function.update_of_ne ho] at hx
      exact held_update_lt h.handles (Nat.le_refl _) (fun y hy => h.handles _ y hy) o x hx
  · exact ⟨h.give_closed a _, Nat.le_refl _⟩
  · exact ⟨h.give_open a _, Nat.le_succ _⟩
  · obtain ⟨hkeys, hhandles, hroom⟩ := h.give_open a []
    exact ⟨⟨hkeys, hhandles, hroom⟩, Nat.le_succ _⟩
  · exact ⟨h.give_closed a _, Nat.le_refl _⟩

theorem Shape.releaseConn {s : State} (h : Shape s) {a : Addr} {conn : SqlConn}
    (ha : s.objs a = some conn) : Shape (releaseConn s a conn) := by
  by_cases hid : conn.id ∈ s.usedConnections
  · refine ⟨keys_releaseConn h.keys a conn, ?_, ?_⟩
    · rw [held_releaseConn hid, ← held_client ha]
      intro o x hx
      by_cases ho : o = .client a
      · simp [ho] at hx
      · rw [Function.update_of_ne ho] at hx
        have hopened : (Pool.releaseConn s a conn).opened = s.opened := by
          rw [Pool.releaseConn, if_pos hid]
          rfl
        rw [hopened]
        exact held_update_lt h.handles (Nat.le_refl _) (fun y hy => h.handles _ y hy) o x hx
    · simp only [Pool.releaseConn, hid, if_true]
      exact room_setObj h.room a _
  · simpa only [Pool.releaseConn, hid, if_false] using h

theorem Shape.move_obj {s : State} (h : Shape s) {a b : Addr} {conn : SqlConn}
    (ha : s.objs a = some conn) : Shape ((s.setObj b (some conn)).setObj a (some conn.moved)) := by
  have hptr : ∀ x, (some conn).bind SqlConn.ptr = some x → x < s.opened :=
    fun x hx => h.handles (.client a) x (by rw [held_client ha]; exact hx)
  have hb := h.setObj (g := s.globalId) b (Nat.le_refl _) hptr
  exact hb.setObj (g := s.globalId) a (Nat.le_refl _) (by simp [SqlConn.moved])

theorem shape_step {s s' : State} {l : Label} (h : Shape s) (hstep : Step s l s') :
    Shape s' ∧ s.opened ≤ s'.opened := by
  have hrelease {a : Addr} {conn : SqlConn} (ha : s.objs a = some conn) :
      Shape (releaseConn s a conn) ∧ s.opened ≤ (releaseConn s a conn).opened := by
    refine ⟨h.releaseConn ha, ?_⟩
    unfold Pool.releaseConn
    split <;> exact Nat.le_refl _
  cases hstep with
  | wait hwait => exact ⟨⟨h.keys, h.handles, h.room⟩, Nat.le_refl _⟩
  | answer hexit hfree hbegin hget =>
    obtain ⟨hshape, hle⟩ := h.getConn hget
    exact ⟨⟨hshape.keys, hshape.handles, hshape.room⟩, hle⟩
  | move ha hb => exact ⟨h.move_obj ha, Nat.le_refl _⟩
  | assign ha hb hne => exact ⟨h.move_obj ha, Nat.le_refl _⟩
  | assign_self ha => exact ⟨h, Nat.le_refl _⟩
  | @close a conn ha =>
    unfold Pool.close
    cases conn.pool with
    | true => exact hrelease ha
    | false => exact ⟨h, Nat.le_refl _⟩
  | release ha => exact hrelease ha
  | @destroy a conn ha =>
    exact ⟨h.setObj (g := s.globalId) a (Nat.le_refl _) (by simp), Nat.le_refl _⟩

/-! ## What a step stores as idle -/

theorem returned_releaseConn {s : State} (a : Addr) {conn : SqlConn} {l : Label}
    (hl : returned s l = if conn.id ∈ s.usedConnections then some conn else none) :
    (∀ id h, held (releaseConn s a conn) (.pooled id) = some h →
      held s (.pooled id) = some h ∨ ∃ conn, returned s l = some conn ∧ conn.ptr = some h) ∧
    ∀ conn', returned s l = some conn' → ∀ h, conn'.ptr = some h →
      held (releaseConn s a conn) (.pooled conn'.id) = some h := by
  rw [hl]
  by_cases hid : conn.id ∈ s.usedConnections
  · simp only [hid, if_true, held_releaseConn hid]
    constructor
    · intro id h hheld
      rw [Function.update_of_ne (by simp)] at hheld
      by_cases hi : id = conn.id
      · rw [hi, Function.update_self] at hheld
        exact Or.inr ⟨conn, rfl, hheld⟩
      · rw [Function.update_of_ne (by simpa using hi)] at hheld
        exact Or.inl hheld
    · rintro conn' hconn h hptr
      obtain rfl := Option.some.inj hconn
      rw [Function.update_of_ne (by simp), Function.update_self]
      exact hptr
  · simp only [releaseConn, hid, if_false]
    exact ⟨fun id h hheld => Or.inl hheld, fun conn' hconn => by cases hconn⟩

theorem held_reuse_pooled {s : State} {a : Addr} {connId id : Nat} {conn : SqlConn} {h : Handle}
    (hc : s.connections connId = some conn)
    (hheld : held { (s.setConnection connId none).setObj a (some conn) with
      idleConnections := s.idleConnections.erase connId
      usedConnections := insert connId s.usedConnections } (.pooled id) = some h) :
    held s (.pooled id) = some h := by
  rw [held_reuse hc] at hheld
  by_cases hi : id = connId
  · simp [hi] at hheld
  · rwa [Function.update_of_ne (by simpa using hi), Function.update_of_ne (by simp)] at hheld

/-- What is idle after a step was idle before or is what the step stores, and that
is idle afterwards. -/
theorem returned_step {s s' : State} {l : Label} (hstep : Step s l s') :
    (∀ id h, held s' (.pooled id) = some h →
      held s (.pooled id) = some h ∨ ∃ conn, returned s l = some conn ∧ conn.ptr = some h) ∧
    ∀ conn, returned s l = some conn → ∀ h, conn.ptr = some h →
      held s' (.pooled conn.id) = some h := by
  have hnone {l : Label} (hl : returned s l = none) {s' : State}
      (hsame : ∀ id h, held s' (.pooled id) = some h → held s (.pooled id) = some h) :
      (∀ id h, held s' (.pooled id) = some h →
        held s (.pooled id) = some h ∨ ∃ conn, returned s l = some conn ∧ conn.ptr = some h) ∧
      ∀ conn, returned s l = some conn → ∀ h, conn.ptr = some h →
        held s' (.pooled conn.id) = some h := by
    refine ⟨fun id h hheld => Or.inl (hsame id h hheld), ?_⟩
    intro conn hconn
    rw [hl] at hconn
    cases hconn
  cases hstep with
  | wait hwait => exact hnone rfl fun _ _ hheld => hheld
  | @answer _ t a connId outcome ans hexit hfree hbegin hget =>
    apply hnone rfl
    rcases getConn_cases hget with ⟨conn, hpos, hc, -, rfl⟩ | ⟨-, -, error, -, rfl⟩ |
      ⟨-, -, error, -, rfl⟩ | ⟨-, -, -, rfl⟩ | ⟨-, -, -, rfl⟩
    · intro id h hheld
      exact held_reuse_pooled (a := a) hc hheld
    all_goals exact fun id h hheld => hheld
  | move ha hb => exact hnone rfl fun _ _ hheld => hheld
  | assign ha hb hne => exact hnone rfl fun _ _ hheld => hheld
  | assign_self ha => exact hnone rfl fun _ _ hheld => hheld
  | @close a conn ha =>
    unfold Pool.close
    cases hpool : conn.pool with
    | true =>
      apply returned_releaseConn
      by_cases hid : conn.id ∈ s.usedConnections <;> simp [returned, ha, hpool, hid, Option.filter]
    | false => exact hnone (by simp [returned, ha, hpool, Option.filter]) fun _ _ hheld => hheld
  | @release a conn ha =>
    apply returned_releaseConn
    by_cases hid : conn.id ∈ s.usedConnections <;> simp [returned, ha, hid, Option.filter]
  | destroy ha => exact hnone rfl fun _ _ hheld => hheld

/-- A client gets a handle that was idle or a new one. -/
theorem answer_handle {s s' : State} {t : Thread} {a : Addr} {ans : Answer} {x : Handle}
    (hstep : Step s (.answer t a ans) s') (hx : held s' (.client a) = some x) :
    (∃ id, held s (.pooled id) = some x) ∨ s.opened ≤ x := by
  cases hstep with
  | @answer s' t a connId outcome ans hexit hfree hbegin hget =>
    have hx : held s' (.client a) = some x := hx
    rcases getConn_cases hget with ⟨conn, hpos, hc, -, rfl⟩ | ⟨-, -, error, -, rfl⟩ |
      ⟨-, -, error, -, rfl⟩ | ⟨-, -, -, rfl⟩ | ⟨-, -, -, rfl⟩
    · rw [held_reuse hc, Function.update_of_ne (by simp), Function.update_self] at hx
      exact Or.inl ⟨connId, hx⟩
    · simp [held, State.setObj] at hx
    · simp only [held, State.setObj, Function.update_self, Option.bind_some,
        Option.some.injEq] at hx
      exact Or.inr (Nat.le_of_eq hx)
    · simp only [held, State.setObj, Function.update_self, Option.bind_some,
        Option.some.injEq] at hx
      exact Or.inr (Nat.le_of_eq hx)
    · simp [held, State.setObj] at hx

/-! ## Runs -/

namespace Configured

theorem after_origin_old {w : Configured} {p : State} {x : Handle} (h : x < w.pool.opened) :
    (w.after p).origin x = w.origin x := if_pos h

theorem after_origin_new {w : Configured} {p : State} {x : Handle} (h : w.pool.opened ≤ x) :
    (w.after p).origin x = w.target := if_neg (Nat.not_lt.mpr h)

/-- The invariant of a run without a stale idle connection. -/
structure Current (w : Configured) : Prop where
  shape : Shape w.pool
  idle : w.IdleFrom w.target

theorem current_init (conf : Settings) (target : Target) : (init conf target).Current := by
  have hheld (o : Owner) : held (Pool.init conf) o = none := by cases o <;> rfl
  constructor
  · constructor
    · simp [init, Pool.init]
    · intro o h hh
      rw [init, hheld] at hh
      cases hh
    · exact ⟨0, fun a _ => rfl⟩
  · intro id h _
    rfl

theorem shape_event {w w' : Configured} {e : Event} (h : Shape w.pool) (hstep : Step w e w') :
    Shape w'.pool := by
  cases hstep with
  | configure conf target => exact ⟨h.keys, h.handles, h.room⟩
  | pool hpool => exact (shape_step h hpool).1

/-- A step leaves no stale idle connection exactly if it stores none. -/
theorem keeps_iff {w w' : Configured} {e : Event} (h : w.Current) (hstep : Step w e w') :
    w.Keeps e ↔ w'.IdleFrom w'.target := by
  cases hstep with
  | configure conf target => exact Iff.rfl
  | @pool l p hpool =>
    obtain ⟨hbefore, hafter⟩ := returned_step hpool
    have hshape := (shape_step h.shape hpool).1
    have horigin {o : Owner} {x : Handle} (hx : held w.pool o = some x) :
        (w.after p).origin x = w.origin x := after_origin_old (h.shape.handles o x hx)
    have howner {conn : SqlConn} (hconn : returned w.pool l = some conn) :
        ∃ a, held w.pool (.client a) = conn.ptr := by
      cases l with
      | close a => exact ⟨a, held_client (Option.filter_eq_some_iff.mp hconn).1⟩
      | release a => exact ⟨a, held_client (Option.filter_eq_some_iff.mp hconn).1⟩
      | _ => cases hconn
    constructor
    · intro hkeeps id x hx
      rcases hbefore id x hx with hold | ⟨conn, hconn, hptr⟩
      · rw [horigin hold]
        exact h.idle id x hold
      · obtain ⟨a, ha⟩ := howner hconn
        rw [horigin (ha.trans hptr)]
        exact hkeeps conn x hconn hptr
    · intro hidle conn x hconn hptr
      obtain ⟨a, ha⟩ := howner hconn
      rw [← horigin (ha.trans hptr)]
      exact hidle conn.id x (hafter conn hconn x hptr)

/-- An idle connection may be what the next `getConn` hands out. -/
theorem lawful_iff {w : Configured} (h : Shape w.pool) : w.Lawful ↔ w.IdleFrom w.target := by
  constructor
  · intro hlawful id x hx
    obtain ⟨n, hn⟩ := h.room
    obtain ⟨conn, hconn, hptr⟩ := Option.bind_eq_some_iff.mp hx
    have hid : id ∈ w.pool.idleConnections := (h.keys id).mp (by simp [hconn])
    have hpos : w.pool.idleConnections.card > 0 := Finset.card_pos.mpr ⟨id, hid⟩
    have hget : getConn w.pool n id (.accepted true) = some (.reused,
        { (w.pool.setConnection id none).setObj n (some conn) with
          idleConnections := w.pool.idleConnections.erase id
          usedConnections := insert id w.pool.usedConnections }) := by
      simp [getConn, hpos, hconn]
    have hexit : ¬ MustWait w.pool (round w.pool 0) := by
      intro hwait
      have hzero := hwait.2.1
      omega
    have hanswer := Pool.Step.answer (t := 0) hexit (hn n (Nat.le_refl n)) (fun _ => hid) hget
    have hheld := congrFun (held_reuse (a := n) hconn) (.client n)
    rw [Function.update_of_ne (by simp), Function.update_self, hx] at hheld
    have horigin := hlawful 0 n .reused _ (.pool hanswer) x hheld
    exact (after_origin_old (h.handles _ x hx)).symm.trans horigin
  · intro hidle t a ans w' hstep x hx
    obtain ⟨p, hpool, rfl⟩ : ∃ p, Pool.Step w.pool (.answer t a ans) p ∧ w' = w.after p := by
      cases hstep with
      | pool hpool => exact ⟨_, hpool, rfl⟩
    rcases answer_handle hpool hx with ⟨id, hid⟩ | hnew
    · rw [after_origin_old (h.handles _ x hid)]
      exact hidle id x hid
    · exact after_origin_new hnew

/-- As long as no step leaves a stale idle connection, none is handed out. -/
theorem allKeep_iff {w : Configured} (h : w.Current) {run : List (Event × Configured)}
    (hrun : Run w run) : w.AllKeep run ↔ w.AlwaysLawful run := by
  induction run generalizing w with
  | nil =>
    have hlawful := (lawful_iff h.shape).mpr h.idle
    simp [AllKeep, AlwaysLawful, hlawful]
  | cons x run ih =>
    obtain ⟨e, w'⟩ := x
    obtain ⟨hstep, hrest⟩ := hrun
    have hlawful := (lawful_iff h.shape).mpr h.idle
    have hshape := shape_event h.shape hstep
    constructor
    · rintro ⟨hkeeps, htail⟩
      have hcurrent : w'.Current := ⟨hshape, (keeps_iff h hstep).mp hkeeps⟩
      obtain ⟨hnext, hall⟩ := (ih hcurrent hrest).mp htail
      refine ⟨hlawful, ?_⟩
      intro y hy
      rcases List.mem_cons.mp hy with rfl | hy
      · exact hnext
      · exact hall y hy
    · rintro ⟨-, hall⟩
      have hnext : w'.Lawful := hall (e, w') (by simp)
      have hidle := (lawful_iff hshape).mp hnext
      have htail : w'.AlwaysLawful run := ⟨hnext, fun y hy => hall y (by simp [hy])⟩
      exact ⟨(keeps_iff h hstep).mpr hidle, (ih ⟨hshape, hidle⟩ hrest).mpr htail⟩

/-- A run hands out connections of the latest configuration exactly if no step
leaves an idle connection of another one. -/
theorem lawful_run_iff {conf : Settings} {target : Target} {run : List (Event × Configured)}
    (hrun : Run (init conf target) run) :
    (init conf target).AllKeep run ↔ (init conf target).AlwaysLawful run :=
  allKeep_iff (current_init conf target) hrun

def sampleTarget (db : String) : Target where
  host := "localhost".toList
  username := "root".toList
  password := []
  port := 3306
  db := db.toList

/-- A connection is opened and given back. -/
theorem exists_returned : ∃ p p', Pool.Step (Pool.init ⟨10, 5, true⟩) (.answer 0 0 .created) p ∧
    Pool.Step p (.close 0) p' ∧ held p' (.pooled 1) = some 0 := by
  have hanswer := @Step.answer (Pool.init ⟨10, 5, true⟩) _ 0 0 0 (.accepted true) .created
    (by decide) rfl (by decide) rfl
  exact ⟨_, _, hanswer, .close rfl, rfl⟩

theorem after_of_one_target {w : Configured} (h : ∀ x, w.origin x = w.target) (p : State)
    (x : Handle) : (w.after p).origin x = (w.after p).target := by
  by_cases hx : x < w.pool.opened
  · exact (after_origin_old hx).trans (h x)
  · exact after_origin_new (Nat.le_of_not_lt hx)

/-- A borrow and a return under one configuration. -/
theorem lawful_run_sample : ∃ run, Run (init ⟨10, 5, true⟩ (sampleTarget "shop")) run ∧
    run.length = 2 ∧ (init ⟨10, 5, true⟩ (sampleTarget "shop")).AlwaysLawful run := by
  obtain ⟨p, p', hanswer, hclose, -⟩ := exists_returned
  have hrun : Run (init ⟨10, 5, true⟩ (sampleTarget "shop"))
      [(.pool (.answer 0 0 .created), (init ⟨10, 5, true⟩ (sampleTarget "shop")).after p),
        (.pool (.close 0), ((init ⟨10, 5, true⟩ (sampleTarget "shop")).after p).after p')] :=
    ⟨.pool hanswer, .pool hclose, trivial⟩
  have horigin :=
    after_of_one_target (w := init ⟨10, 5, true⟩ (sampleTarget "shop")) (fun _ => rfl) p
  exact ⟨_, hrun, rfl, (lawful_run_iff hrun).mp
    ⟨fun _ _ _ _ => rfl, fun _ h _ _ => horigin h, trivial⟩⟩

/-- A second client configures the pool for its own database, and the idle
connection of the first is still there. -/
theorem idle_outlives_configure :
    ¬ ∀ (conf : Settings) (target : Target) (run : List (Event × Configured)),
      Run (init conf target) run → (init conf target).AlwaysLawful run := by
  intro hall
  obtain ⟨p, p', hanswer, hclose, hheld⟩ := exists_returned
  let w := ((init ⟨10, 5, true⟩ (sampleTarget "shop")).after p).after p'
  let w' := w.configure ⟨20, 5, true⟩ (sampleTarget "archive")
  have hlawful := hall _ _ [(.pool (.answer 0 0 .created), _), (.pool (.close 0), w),
    (.configure ⟨20, 5, true⟩ (sampleTarget "archive"), w')]
    ⟨.pool hanswer, .pool hclose, .configure _ _ _, trivial⟩
  have hshape :=
    shape_step (shape_step (current_init _ (sampleTarget "shop")).shape hanswer).1 hclose
  have hshape' : Shape w'.pool := ⟨hshape.1.keys, hshape.1.handles, hshape.1.room⟩
  have hlast : w'.Lawful :=
    hlawful.2 (.configure ⟨20, 5, true⟩ (sampleTarget "archive"), w') (by simp)
  have hidle := (lawful_iff hshape').mp hlast 1 0 hheld
  have horigin : w'.origin 0 = sampleTarget "shop" :=
    after_of_one_target (after_of_one_target (fun _ => rfl) p) p' 0
  have htarget : w'.target = sampleTarget "archive" := rfl
  rw [horigin, htarget] at hidle
  exact absurd hidle (by decide)

end Configured

end TinyOrm.Pool

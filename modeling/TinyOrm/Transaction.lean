import TinyOrm.PoolSafety
set_option autoImplicit false

/-!
Transactions of Models that borrow pooled connections (model.h, db.h).

Of MySQL it is assumed: a change made with autocommit off is pending on its
connection until a commit or a rollback, switching autocommit on commits what
is pending, a new connection has autocommit on, and closing a connection rolls
back.
-/

namespace TinyOrm.Transaction

/-- Changes are numbered in the order in which they are executed. -/
abbrev Change := Nat

structure Session where
  autocommit : Bool := true
  pending : List Change := []
  deriving DecidableEq, Repr

/-- A `DB`, the Models made from it (each the pool's client at its address),
and the server. -/
structure World where
  pool : Pool.State
  autoCommit : Bool
  session : Handle → Session
  permanent : List Change
  executed : Nat

def init (conf : Pool.Settings) : World where
  pool := Pool.init conf
  autoCommit := true
  session := fun _ => {}
  permanent := []
  executed := 0

namespace World

def setSession (w : World) (h : Handle) (session : Session) : World :=
  { w with session := Function.update w.session h session }

def commit (w : World) (h : Handle) : World :=
  let w' := w.setSession h { w.session h with pending := [] }
  { w' with permanent := w.permanent ++ (w.session h).pending }

def rollback (w : World) (h : Handle) : World :=
  w.setSession h { w.session h with pending := [] }

def setAutocommit (w : World) (h : Handle) (mode : Bool) : World :=
  if mode then
    let w' := w.commit h
    w'.setSession h { w'.session h with autocommit := true }
  else w.setSession h { w.session h with autocommit := false }

def execute (w : World) (h : Handle) : World :=
  let x := w.executed
  if (w.session h).autocommit then
    { w with permanent := w.permanent ++ [x], executed := x + 1 }
  else
    { w.setSession h { w.session h with pending := (w.session h).pending ++ [x] } with
      executed := x + 1 }

/-- The pool after `getConn` has answered with a connection on `h`. -/
def borrow (w : World) (pool : Pool.State) (ans : Pool.Answer) (h : Handle) : World :=
  if ans = .reused then { w with pool := pool } else { w.setSession h {} with pool := pool }

/-- `~Model`: `conn.close()`, then the destructor of `conn`. -/
def destroy (w : World) (a : Addr) (conn : SqlConn) : World :=
  let pool := Pool.close w.pool a conn
  match Pool.held pool (.client a) with
  | none => { w with pool := pool.setObj a none }
  | some h => { w.rollback h with pool := pool.setObj a none }

end World

/-- The close of the Model at `a` gives its connection back to the pool. -/
def released (w : World) (a : Addr) (conn : SqlConn) : Bool :=
  (Pool.held (Pool.close w.pool a conn) (.client a)).isNone

/-- What happens, with the address of the Model and the handle concerned. -/
inductive Label where
  | wait (t : Thread)
  | setAutoCommit (mode : Bool)
  | create (a : Addr) (h : Handle) (mode : Bool)
  | execute (a : Addr) (h : Handle) (x : Change)
  | commit (a : Addr) (h : Handle)
  | rollback (a : Addr) (h : Handle)
  | destroy (a : Addr) (h : Handle) (released : Bool)
  deriving DecidableEq, Repr

inductive Step : World → Label → World → Prop where
  | wait {w : World} {t : Thread} {pool : Pool.State} (hp : Pool.Step w.pool (.wait t) pool) :
      Step w (.wait t) { w with pool := pool }
  | setAutoCommit (w : World) (mode : Bool) :
      Step w (.setAutoCommit mode) { w with autoCommit := mode }
  | create {w : World} {t : Thread} {a : Addr} {ans : Pool.Answer} {pool : Pool.State}
      {conn : SqlConn} {h : Handle} (hp : Pool.Step w.pool (.answer t a ans) pool)
      (hconn : pool.objs a = some conn) (hh : conn.ptr = some h) :
      Step w (.create a h w.autoCommit) ((w.borrow pool ans h).setAutocommit h w.autoCommit)
  | execute {w : World} {a : Addr} {conn : SqlConn} {h : Handle}
      (hconn : w.pool.objs a = some conn) (hh : conn.ptr = some h) :
      Step w (.execute a h w.executed) (w.execute h)
  | commit {w : World} {a : Addr} {conn : SqlConn} {h : Handle}
      (hconn : w.pool.objs a = some conn) (hh : conn.ptr = some h) :
      Step w (.commit a h) (w.commit h)
  | rollback {w : World} {a : Addr} {conn : SqlConn} {h : Handle}
      (hconn : w.pool.objs a = some conn) (hh : conn.ptr = some h) :
      Step w (.rollback a h) (w.rollback h)
  | destroy {w : World} {a : Addr} {conn : SqlConn} {h : Handle}
      (hconn : w.pool.objs a = some conn) (hh : conn.ptr = some h) :
      Step w (.destroy a h (released w a conn)) (w.destroy a conn)

/-- What a label does to the changes pending on `h`: `some true` commits them,
`some false` rolls them back. -/
def Label.settles (h : Handle) : Label → Option Bool
  | .create _ h' mode => if h' = h ∧ mode = true then some true else none
  | .commit _ h' => if h' = h then some true else none
  | .rollback _ h' => if h' = h then some false else none
  | .destroy _ h' released => if h' = h ∧ released = false then some false else none
  | _ => none

/-- The first label that settles `h` decides. -/
def settles (h : Handle) : List Label → Option Bool
  | [] => none
  | l :: ls => (l.settles h).or (settles h ls)

@[simp] theorem settles_nil (h : Handle) : settles h [] = none := rfl

@[simp] theorem settles_cons (h : Handle) (l : Label) (ls : List Label) :
    settles h (l :: ls) = (l.settles h).or (settles h ls) := rfl

theorem settles_append (h : Handle) (ls ms : List Label) :
    settles h (ls ++ ms) = (settles h ls).or (settles h ms) := by
  induction ls with
  | nil => rfl
  | cons l ls ih => simp [ih, Option.or_assoc]

/-! ## The sessions -/

theorem session_setSession (w : World) (h h' : Handle) (session : Session) :
    (w.setSession h' session).session h = if h = h' then session else w.session h := by
  simp [World.setSession, Function.update_apply]

theorem pending_commit (w : World) (h h' : Handle) :
    ((w.commit h').session h).pending = if h = h' then [] else (w.session h).pending := by
  simp only [World.commit, session_setSession]
  split <;> rfl

theorem pending_rollback (w : World) (h h' : Handle) :
    ((w.rollback h').session h).pending = if h = h' then [] else (w.session h).pending := by
  simp only [World.rollback, session_setSession]
  split <;> rfl

theorem pending_setAutocommit (w : World) (h h' : Handle) (mode : Bool) :
    ((w.setAutocommit h' mode).session h).pending =
      if h = h' ∧ mode = true then [] else (w.session h).pending := by
  cases mode with
  | true =>
    by_cases hh : h = h' <;>
      simp [World.setAutocommit, session_setSession, pending_commit, hh]
  | false =>
    by_cases hh : h = h' <;> simp [World.setAutocommit, session_setSession, hh]

theorem permanent_setAutocommit (w : World) (h' : Handle) (mode : Bool) :
    (w.setAutocommit h' mode).permanent =
      if mode = true then w.permanent ++ (w.session h').pending else w.permanent := by
  cases mode <;> rfl

/-! ## Invariant -/

structure Inv (w : World) : Prop where
  pool : Pool.Inv w.pool
  unopened : ∀ h, w.pool.opened ≤ h → (w.session h).pending = []
  pending : ∀ h, ∀ x ∈ (w.session h).pending, x < w.executed
  permanent : ∀ x ∈ w.permanent, x < w.executed

theorem inv_init (conf : Pool.Settings) : Inv (init conf) where
  pool := Pool.inv_init conf
  unopened := fun _ _ => rfl
  pending := fun _ _ hx => by simp [init] at hx
  permanent := fun _ hx => by simp [init] at hx

/-- What an answer with an open connection tells. -/
theorem answer_cases {p p' : Pool.State} {t : Thread} {a : Addr} {ans : Pool.Answer}
    {conn : SqlConn} {h : Handle} (hstep : Pool.Step p (.answer t a ans) p')
    (hconn : p'.objs a = some conn) (hh : conn.ptr = some h) :
    p.objs a = none ∧ (∀ b ≠ a, p'.objs b = p.objs b) ∧
      ((ans = .reused ∧ p'.opened = p.opened) ∨
        (ans ≠ .reused ∧ h = p.opened ∧ p'.opened = p.opened + 1)) := by
  cases hstep with
  | answer hexit hfree hbegin hget =>
    refine ⟨hfree, ?_, ?_⟩
    · intro b hb
      rcases Pool.getConn_cases hget with ⟨conn, -, -, -, rfl⟩ | ⟨-, -, error, -, rfl⟩ |
        ⟨-, -, error, -, rfl⟩ | ⟨-, -, -, rfl⟩ | ⟨-, -, -, rfl⟩ <;>
        simp [Pool.State.setObj, Pool.State.setWaiting, Pool.State.setConnection, hb]
    · rcases Pool.getConn_cases hget with ⟨conn', -, -, rfl, rfl⟩ | ⟨-, -, error, rfl, rfl⟩ |
        ⟨-, -, error, rfl, rfl⟩ | ⟨-, -, rfl, rfl⟩ | ⟨-, -, rfl, rfl⟩
      · exact Or.inl ⟨rfl, rfl⟩
      · simp only [Pool.State.setObj, Pool.State.setWaiting, Function.update_self,
          Option.some.injEq] at hconn
        simp [← hconn] at hh
      · simp only [Pool.State.setObj, Pool.State.setWaiting, Function.update_self,
          Option.some.injEq] at hconn
        simp only [← hconn, Option.some.injEq] at hh
        exact Or.inr ⟨by simp, hh.symm, rfl⟩
      · simp only [Pool.State.setObj, Pool.State.setWaiting, Function.update_self,
          Option.some.injEq] at hconn
        simp only [← hconn, Option.some.injEq] at hh
        exact Or.inr ⟨by simp, hh.symm, rfl⟩
      · simp only [Pool.State.setObj, Pool.State.setWaiting, Function.update_self,
          Option.some.injEq] at hconn
        simp [← hconn] at hh

theorem borrow_spec {w : World} (hw : Inv w) {t : Thread} {a : Addr} {ans : Pool.Answer}
    {pool : Pool.State} {conn : SqlConn} {h : Handle}
    (hp : Pool.Step w.pool (.answer t a ans) pool) (hconn : pool.objs a = some conn)
    (hh : conn.ptr = some h) :
    (∀ h', ((w.borrow pool ans h).session h').pending = (w.session h').pending) ∧
      (∀ h' ≠ h, (w.borrow pool ans h).session h' = w.session h') ∧
      (w.borrow pool ans h).permanent = w.permanent ∧
      (w.borrow pool ans h).executed = w.executed ∧ (w.borrow pool ans h).pool = pool := by
  obtain ⟨-, -, hcase⟩ := answer_cases hp hconn hh
  rcases hcase with ⟨rfl, -⟩ | ⟨hne, rfl, -⟩
  · exact ⟨fun _ => rfl, fun _ _ => rfl, rfl, rfl, rfl⟩
  · have hempty := hw.unopened w.pool.opened (Nat.le_refl _)
    have heq : w.borrow pool ans w.pool.opened =
        { w.setSession w.pool.opened {} with pool := pool } := if_neg hne
    rw [heq]
    refine ⟨?_, ?_, rfl, rfl, rfl⟩
    · intro h'
      show ((w.setSession w.pool.opened {}).session h').pending = _
      rw [session_setSession]
      by_cases hh' : h' = w.pool.opened
      · rw [if_pos hh', hh', hempty]
      · rw [if_neg hh']
    · intro h' hh'
      show (w.setSession w.pool.opened {}).session h' = _
      rw [session_setSession, if_neg hh']

theorem held_close (p : Pool.State) (a : Addr) (conn : SqlConn) (hconn : p.objs a = some conn) :
    Pool.held (Pool.close p a conn) (.client a) = none ∨
      Pool.held (Pool.close p a conn) (.client a) = conn.ptr := by
  unfold Pool.close Pool.releaseConn
  by_cases hpool : conn.pool = true
  · by_cases hid : conn.id ∈ p.usedConnections
    · left
      simp [hpool, hid, Pool.held, Pool.State.setObj, Pool.State.setConnection, SqlConn.moved]
    · right
      simp [hpool, hid, Pool.held, hconn]
  · right
    simp [hpool, Pool.held, hconn]

/-- `~Model` rolls back exactly if the connection is closed with it. -/
theorem destroy_spec {w : World} {a : Addr} {conn : SqlConn} {h : Handle}
    (hconn : w.pool.objs a = some conn) (hh : conn.ptr = some h) :
    (∀ h', ((w.destroy a conn).session h').pending =
      if h' = h ∧ released w a conn = false then [] else (w.session h').pending) ∧
      (∀ h' ≠ h, (w.destroy a conn).session h' = w.session h') ∧
      (w.destroy a conn).permanent = w.permanent ∧ (w.destroy a conn).executed = w.executed ∧
      (w.destroy a conn).pool = (Pool.close w.pool a conn).setObj a none := by
  rcases held_close w.pool a conn hconn with hheld | hheld
  · have hrel : released w a conn = true := by simp [released, hheld]
    have heq : w.destroy a conn =
        { w with pool := (Pool.close w.pool a conn).setObj a none } := by
      simp only [World.destroy, hheld]
    rw [heq, hrel]
    exact ⟨by simp, fun _ _ => rfl, rfl, rfl, rfl⟩
  · rw [hh] at hheld
    have hrel : released w a conn = false := by simp [released, hheld]
    have heq : w.destroy a conn =
        { w.rollback h with pool := (Pool.close w.pool a conn).setObj a none } := by
      simp only [World.destroy, hheld]
    rw [heq, hrel]
    refine ⟨fun h' => by simpa using pending_rollback w h' h, ?_, rfl, rfl, rfl⟩
    intro h' hne
    show (w.rollback h).session h' = _
    rw [World.rollback, session_setSession, if_neg hne]

theorem session_execute (w : World) (h h' : Handle) :
    ((w.execute h').session h).pending =
      if h = h' ∧ (w.session h').autocommit = false then (w.session h).pending ++ [w.executed]
      else (w.session h).pending := by
  cases hauto : (w.session h').autocommit with
  | true => simp [World.execute, hauto]
  | false =>
    by_cases hh : h = h'
    · simp [World.execute, hauto, hh, World.setSession]
    · simp [World.execute, hauto, hh, World.setSession]

theorem permanent_execute (w : World) (h' : Handle) :
    (w.execute h').permanent =
      if (w.session h').autocommit then w.permanent ++ [w.executed] else w.permanent := by
  cases hauto : (w.session h').autocommit <;> simp [World.execute, hauto, World.setSession]

@[simp] theorem executed_execute (w : World) (h' : Handle) :
    (w.execute h').executed = w.executed + 1 := by
  cases hauto : (w.session h').autocommit <;> simp [World.execute, hauto]

@[simp] theorem pool_execute (w : World) (h' : Handle) : (w.execute h').pool = w.pool := by
  cases hauto : (w.session h').autocommit <;> simp [World.execute, hauto, World.setSession]

@[simp] theorem executed_setAutocommit (w : World) (h' : Handle) (mode : Bool) :
    (w.setAutocommit h' mode).executed = w.executed := by
  cases mode <;> rfl

@[simp] theorem pool_setAutocommit (w : World) (h' : Handle) (mode : Bool) :
    (w.setAutocommit h' mode).pool = w.pool := by
  cases mode <;> rfl

/-- What a step does to a change that has been executed before it. -/
structure Moves (w : World) (l : Label) (w' : World) : Prop where
  executed : w.executed ≤ w'.executed
  pending : ∀ x < w.executed, ∀ h,
    (x ∈ (w'.session h).pending ↔ x ∈ (w.session h).pending ∧ l.settles h = none)
  permanent : ∀ x < w.executed,
    (x ∈ w'.permanent ↔ x ∈ w.permanent ∨ ∃ h, x ∈ (w.session h).pending ∧ l.settles h = some true)

theorem step_moves {w w' : World} {l : Label} (hw : Inv w) (hstep : Step w l w') :
    Moves w l w' := by
  cases hstep with
  | wait hp => exact ⟨Nat.le_refl _, by simp [Label.settles], by simp [Label.settles]⟩
  | setAutoCommit mode => exact ⟨Nat.le_refl _, by simp [Label.settles], by simp [Label.settles]⟩
  | @create t a ans pool conn h' hp hconn hh =>
    obtain ⟨hpend, -, hperm, hexec, -⟩ := borrow_spec hw hp hconn hh
    generalize hmode : w.autoCommit = mode
    refine ⟨by simp [hexec], ?_, ?_⟩
    · intro x _ h
      rw [pending_setAutocommit, hpend]
      by_cases hset : h = h' ∧ mode = true
      · simp [hset, Label.settles]
      · have hset' : ¬ (h' = h ∧ mode = true) := fun hc => hset ⟨hc.1.symm, hc.2⟩
        simp [hset, hset', Label.settles]
    · intro x _
      rw [permanent_setAutocommit, hperm, hpend]
      cases mode <;> simp [Label.settles]
  | @execute a conn h' hconn hh =>
    refine ⟨by simp, ?_, ?_⟩
    · intro x hx h
      rw [session_execute]
      have hne : x ≠ w.executed := Nat.ne_of_lt hx
      by_cases hset : h = h' ∧ (w.session h').autocommit = false
      · simp [hset, hne, Label.settles]
      · simp [hset, Label.settles]
    · intro x hx
      rw [permanent_execute]
      have hne : x ≠ w.executed := Nat.ne_of_lt hx
      cases (w.session h').autocommit <;> simp [hne, Label.settles]
  | @commit a conn h' hconn hh =>
    refine ⟨Nat.le_refl _, ?_, ?_⟩
    · intro x _ h
      rw [pending_commit]
      by_cases hset : h = h'
      · simp [hset, Label.settles]
      · simp [hset, Ne.symm hset, Label.settles]
    · intro x _
      simp [World.commit, Label.settles]
  | @rollback a conn h' hconn hh =>
    refine ⟨Nat.le_refl _, ?_, ?_⟩
    · intro x _ h
      rw [pending_rollback]
      by_cases hset : h = h'
      · simp [hset, Label.settles]
      · simp [hset, Ne.symm hset, Label.settles]
    · intro x _
      simp [World.rollback, World.setSession, Label.settles]
  | @destroy a conn h' hconn hh =>
    obtain ⟨hpend, -, hperm, hexec, -⟩ := destroy_spec hconn hh
    refine ⟨by rw [hexec], ?_, ?_⟩
    · intro x _ h
      rw [hpend]
      by_cases hset : h = h' ∧ released w a conn = false
      · simp [hset, Label.settles]
      · have hset' : ¬ (h' = h ∧ released w a conn = false) := fun hc => hset ⟨hc.1.symm, hc.2⟩
        simp [hset, hset', Label.settles]
    · intro x _
      rw [hperm]
      simp [Label.settles]

theorem opened_close (p : Pool.State) (a : Addr) (conn : SqlConn) :
    (Pool.close p a conn).opened = p.opened := by
  unfold Pool.close Pool.releaseConn
  split
  · split <;> rfl
  · rfl

/-! ## What keeps the invariant -/

section

variable {w : World} {a : Addr} {conn : SqlConn} {h' : Handle}

theorem Inv.wait (hw : Inv w) {t : Thread} {pool : Pool.State}
    (hp : Pool.Step w.pool (.wait t) pool) : Inv { w with pool := pool } := by
  have hopen : pool.opened = w.pool.opened := by
    cases hp
    rfl
  refine ⟨Pool.inv_step _ _ _ hw.pool hp, ?_, hw.pending, hw.permanent⟩
  intro h hle
  exact hw.unopened h (by rwa [← hopen])

theorem Inv.create (hw : Inv w) {t : Thread} {ans : Pool.Answer} {pool : Pool.State}
    (hp : Pool.Step w.pool (.answer t a ans) pool) (hconn : pool.objs a = some conn)
    (hh : conn.ptr = some h') (mode : Bool) :
    Inv ((w.borrow pool ans h').setAutocommit h' mode) := by
  obtain ⟨hpend, -, hperm, hexec, hpool⟩ := borrow_spec hw hp hconn hh
  have hopen : w.pool.opened ≤ pool.opened := by
    obtain ⟨-, -, hcase⟩ := answer_cases hp hconn hh
    rcases hcase with ⟨-, ho⟩ | ⟨-, -, ho⟩ <;> omega
  refine ⟨?_, ?_, ?_, ?_⟩
  · rw [pool_setAutocommit, hpool]
    exact Pool.inv_step _ _ _ hw.pool hp
  · intro h hle
    rw [pool_setAutocommit, hpool] at hle
    rw [pending_setAutocommit, hpend, hw.unopened h (Nat.le_trans hopen hle)]
    simp
  · intro h x hx
    rw [pending_setAutocommit, hpend] at hx
    rw [executed_setAutocommit, hexec]
    split at hx
    · cases hx
    · exact hw.pending h x hx
  · intro x hx
    rw [permanent_setAutocommit, hperm, hpend] at hx
    rw [executed_setAutocommit, hexec]
    split at hx
    · rcases List.mem_append.mp hx with hx | hx
      · exact hw.permanent x hx
      · exact hw.pending h' x hx
    · exact hw.permanent x hx

/-- A change that is appended is the last one executed. -/
theorem lt_of_executed {xs : List Change} {n : Nat} (hxs : ∀ x ∈ xs, x < n) :
    ∀ x ∈ xs ++ [n], x < n + 1 := by
  intro x hx
  rcases List.mem_append.mp hx with hx | hx
  · exact Nat.lt_succ_of_lt (hxs x hx)
  · rw [List.mem_singleton.mp hx]
    exact Nat.lt_succ_self _

theorem Inv.execute (hw : Inv w) (hconn : w.pool.objs a = some conn) (hh : conn.ptr = some h') :
    Inv (w.execute h') := by
  have hlt : h' < w.pool.opened := hw.pool.handles (.client a) h' (by simp [Pool.held, hconn, hh])
  refine ⟨by simpa using hw.pool, ?_, ?_, ?_⟩
  · intro h hle
    rw [pool_execute] at hle
    have hne : h ≠ h' := Nat.ne_of_gt (Nat.lt_of_lt_of_le hlt hle)
    rw [session_execute]
    simp [hne, hw.unopened h hle]
  · intro h x hx
    rw [session_execute] at hx
    rw [executed_execute]
    split at hx
    · exact lt_of_executed (hw.pending h) x hx
    · exact Nat.lt_succ_of_lt (hw.pending h x hx)
  · intro x hx
    rw [permanent_execute] at hx
    rw [executed_execute]
    split at hx
    · exact lt_of_executed hw.permanent x hx
    · exact Nat.lt_succ_of_lt (hw.permanent x hx)

theorem Inv.commit (hw : Inv w) (h' : Handle) : Inv (w.commit h') := by
  refine ⟨hw.pool, ?_, ?_, ?_⟩
  · intro h hle
    rw [pending_commit, hw.unopened h hle]
    simp
  · intro h x hx
    rw [pending_commit] at hx
    split at hx
    · cases hx
    · exact hw.pending h x hx
  · intro x hx
    rcases List.mem_append.mp hx with hx | hx
    · exact hw.permanent x hx
    · exact hw.pending h' x hx

theorem Inv.rollback (hw : Inv w) (h' : Handle) : Inv (w.rollback h') := by
  refine ⟨hw.pool, ?_, ?_, hw.permanent⟩
  · intro h hle
    rw [pending_rollback, hw.unopened h hle]
    simp
  · intro h x hx
    rw [pending_rollback] at hx
    split at hx
    · cases hx
    · exact hw.pending h x hx

theorem Inv.destroy (hw : Inv w) (hconn : w.pool.objs a = some conn) (hh : conn.ptr = some h') :
    Inv (w.destroy a conn) := by
  obtain ⟨hpend, -, hperm, hexec, hpool⟩ := destroy_spec hconn hh
  refine ⟨?_, ?_, ?_, ?_⟩
  · rw [hpool]
    exact (hw.pool.close hconn).destroy a
  · intro h hle
    rw [hpool] at hle
    have hle' : w.pool.opened ≤ h := by
      rw [← opened_close w.pool a conn]
      exact hle
    rw [hpend, hw.unopened h hle']
    simp
  · intro h x hx
    rw [hpend] at hx
    rw [hexec]
    split at hx
    · cases hx
    · exact hw.pending h x hx
  · rw [hperm, hexec]
    exact hw.permanent

end

theorem inv_step (w : World) (l : Label) (w' : World) (hw : Inv w) (hstep : Step w l w') :
    Inv w' := by
  cases hstep with
  | wait hp => exact hw.wait hp
  | setAutoCommit mode => exact ⟨hw.pool, hw.unopened, hw.pending, hw.permanent⟩
  | create hp hconn hh => exact hw.create hp hconn hh w.autoCommit
  | execute hconn hh => exact hw.execute hconn hh
  | commit hconn hh => exact hw.commit _
  | rollback hconn hh => exact hw.rollback _
  | destroy hconn hh => exact hw.destroy hconn hh

theorem inv_reachable {conf : Pool.Settings} {w : World} {ls : List Label}
    (h : Execution Step (init conf) ls w) : Inv w :=
  h.preserves inv_step (inv_init conf)

/-! ## A pending change -/

/-- A change that has been executed and is pending on `h` alone. -/
structure PendingOn (w : World) (h : Handle) (x : Change) : Prop where
  executed : x < w.executed
  pending : x ∈ (w.session h).pending
  elsewhere : ∀ h' ≠ h, x ∉ (w.session h').pending
  permanent : x ∉ w.permanent

/-- A change that has been rolled back. -/
structure Lost (w : World) (x : Change) : Prop where
  executed : x < w.executed
  pending : ∀ h, x ∉ (w.session h).pending
  permanent : x ∉ w.permanent

theorem Lost.run {w w' : World} {ls : List Label} {x : Change} (hx : Lost w x) (hw : Inv w)
    (hrun : Execution Step w ls w') : x ∉ w'.permanent := by
  induction hrun with
  | nil => exact hx.permanent
  | cons head _ ih =>
    have hm := step_moves hw head
    refine ih ⟨Nat.lt_of_lt_of_le hx.executed hm.executed, ?_, ?_⟩ (inv_step _ _ _ hw head)
    · intro h
      rw [hm.pending x hx.executed]
      exact fun hp => hx.pending h hp.1
    · rw [hm.permanent x hx.executed]
      rintro (hp | ⟨h, hp, -⟩)
      · exact hx.permanent hp
      · exact hx.pending h hp

theorem permanent_run {w w' : World} {ls : List Label} {x : Change} (hx : x ∈ w.permanent)
    (hw : Inv w) (hrun : Execution Step w ls w') : x ∈ w'.permanent := by
  induction hrun with
  | nil => exact hx
  | cons head _ ih =>
    have hm := step_moves hw head
    have hmem := (hm.permanent x (hw.permanent x hx)).mpr (Or.inl hx)
    exact ih hmem (inv_step _ _ _ hw head)

/-- Only a commit of its handle makes the change permanent. -/
theorem PendingOn.not_permanent {w w' : World} {l : Label} {h : Handle} {x : Change}
    (hx : PendingOn w h x) (hm : Moves w l w') (hl : l.settles h ≠ some true) :
    x ∉ w'.permanent := by
  rw [hm.permanent x hx.executed]
  rintro (hp | ⟨h', hp, hs⟩)
  · exact hx.permanent hp
  · by_cases hne : h' = h
    · rw [hne] at hs
      exact hl hs
    · exact hx.elsewhere h' hne hp

/-- The first label that settles the handle decides what becomes of the change. -/
theorem PendingOn.run {w w' : World} {ls : List Label} {h : Handle} {x : Change}
    (hx : PendingOn w h x) (hw : Inv w) (hrun : Execution Step w ls w') :
    x ∈ w'.permanent ↔ settles h ls = some true := by
  induction hrun with
  | nil => simp [hx.permanent]
  | @cons w w₁ w' l ls head tail ih =>
    have hm := step_moves hw head
    have hw₁ := inv_step _ _ _ hw head
    have hexec := Nat.lt_of_lt_of_le hx.executed hm.executed
    rw [settles_cons]
    cases hl : l.settles h with
    | none =>
      rw [Option.none_or]
      refine ih ⟨hexec, (hm.pending x hx.executed h).mpr ⟨hx.pending, hl⟩, ?_, ?_⟩ hw₁
      · intro h' hne
        rw [hm.pending x hx.executed]
        exact fun hp => hx.elsewhere h' hne hp.1
      · exact hx.not_permanent hm (by simp [hl])
    | some b =>
      rw [Option.some_or]
      cases b with
      | true =>
        have hmem := (hm.permanent x hx.executed).mpr (Or.inr ⟨h, hx.pending, hl⟩)
        exact iff_of_true (permanent_run hmem hw₁ tail) rfl
      | false =>
        have hlost : Lost w₁ x := by
          refine ⟨hexec, ?_, ?_⟩
          · intro h'
            rw [hm.pending x hx.executed]
            rintro ⟨hp, hs⟩
            by_cases hne : h' = h
            · rw [hne, hl] at hs
              cases hs
            · exact hx.elsewhere h' hne hp
          · exact hx.not_permanent hm (by simp [hl])
        exact iff_of_false (hlost.run hw₁ tail) (by simp)

/-! ## A Model with autocommit off -/

/-- The Model at `a` has borrowed `h`, whose session has autocommit off. -/
structure Borrows (w : World) (a : Addr) (h : Handle) : Prop where
  held : Pool.held w.pool (.client a) = some h
  autocommit : (w.session h).autocommit = false

theorem held_obj {p : Pool.State} {a : Addr} {conn : SqlConn} {h : Handle}
    (hconn : p.objs a = some conn) (hh : conn.ptr = some h) : Pool.held p (.client a) = some h := by
  simp [Pool.held, hconn, hh]

theorem Borrows.same_addr {w : World} {a b : Addr} {h : Handle} (hb : Borrows w a h) (hw : Inv w)
    (hheld : Pool.held w.pool (.client b) = some h) : b = a := by
  have howner := hw.pool.exclusive _ _ h hheld hb.held
  cases howner
  rfl

theorem objs_close {p : Pool.State} {a b : Addr} (conn : SqlConn) (hne : b ≠ a) :
    (Pool.close p a conn).objs b = p.objs b := by
  unfold Pool.close Pool.releaseConn
  split
  · split
    · simp [Pool.State.setObj, Pool.State.setConnection, hne]
    · rfl
  · rfl

/-- Another Model is created on another handle. -/
theorem Borrows.create {w : World} {a b : Addr} {h h' : Handle} (hb : Borrows w a h) (hw : Inv w)
    {t : Thread} {ans : Pool.Answer} {pool : Pool.State} {conn : SqlConn}
    (hp : Pool.Step w.pool (.answer t b ans) pool) (hconn : pool.objs b = some conn)
    (hh : conn.ptr = some h') (mode : Bool) :
    Borrows ((w.borrow pool ans h').setAutocommit h' mode) a h ∧ h' ≠ h := by
  obtain ⟨hfree, hobjs, -⟩ := answer_cases hp hconn hh
  obtain ⟨-, hsession, -, -, hpool⟩ := borrow_spec hw hp hconn hh
  have hne : a ≠ b := by
    rintro rfl
    have hheld := hb.held
    simp [Pool.held, hfree] at hheld
  have hheld : Pool.held pool (.client a) = some h := by
    rw [← hb.held]
    simp [Pool.held, hobjs a hne]
  have hh' : h ≠ h' := by
    rintro rfl
    have howner := (Pool.inv_step _ _ _ hw.pool hp).exclusive _ _ h hheld (held_obj hconn hh)
    cases howner
    exact hne rfl
  refine ⟨⟨?_, ?_⟩, Ne.symm hh'⟩
  · rw [pool_setAutocommit, hpool]
    exact hheld
  · rw [← hb.autocommit, ← hsession h hh']
    cases mode <;> simp [World.setAutocommit, World.commit, session_setSession, hh']

/-- Until its Model is destroyed, a borrowed connection is used by it alone. -/
theorem Borrows.step {w w' : World} {a : Addr} {h : Handle} {l : Label} (hb : Borrows w a h)
    (hw : Inv w) (hstep : Step w l w') (hlive : ∀ h' r, l ≠ .destroy a h' r) :
    Borrows w' a h ∧ (l.settles h = none ∨ l = .commit a h ∨ l = .rollback a h) := by
  cases hstep with
  | @wait t pool hp =>
    cases hp
    exact ⟨⟨hb.held, hb.autocommit⟩, Or.inl rfl⟩
  | setAutoCommit mode => exact ⟨⟨hb.held, hb.autocommit⟩, Or.inl rfl⟩
  | create hp hconn hh =>
    obtain ⟨hb', hh'⟩ := hb.create hw hp hconn hh w.autoCommit
    exact ⟨hb', Or.inl (by simp [Label.settles, hh'])⟩
  | @execute b conn h' hconn hh =>
    refine ⟨⟨by rw [pool_execute]; exact hb.held, ?_⟩, Or.inl rfl⟩
    rw [← hb.autocommit]
    by_cases hh' : h = h'
    · cases hauto : (w.session h').autocommit <;>
        simp [World.execute, hauto, hh', World.setSession]
    · cases hauto : (w.session h').autocommit <;>
        simp [World.execute, hauto, hh', World.setSession]
  | @commit b conn h' hconn hh =>
    refine ⟨⟨hb.held, ?_⟩, ?_⟩
    · rw [← hb.autocommit]
      by_cases hh' : h = h' <;> simp [World.commit, session_setSession, hh']
    · by_cases hh' : h' = h
      · rw [hh'] at hh ⊢
        rw [hb.same_addr hw (held_obj hconn hh)]
        exact Or.inr (Or.inl rfl)
      · simp [Label.settles, hh']
  | @rollback b conn h' hconn hh =>
    refine ⟨⟨hb.held, ?_⟩, ?_⟩
    · rw [← hb.autocommit]
      by_cases hh' : h = h' <;> simp [World.rollback, session_setSession, hh']
    · by_cases hh' : h' = h
      · rw [hh'] at hh ⊢
        rw [hb.same_addr hw (held_obj hconn hh)]
        exact Or.inr (Or.inr rfl)
      · simp [Label.settles, hh']
  | @destroy b conn h' hconn hh =>
    have hne : a ≠ b := by
      rintro rfl
      exact hlive _ _ rfl
    have hh' : h ≠ h' := by
      rintro rfl
      exact hne (hb.same_addr hw (held_obj hconn hh)).symm
    obtain ⟨-, hsession, -, -, hpool⟩ := destroy_spec hconn hh
    refine ⟨⟨?_, ?_⟩, Or.inl ?_⟩
    · rw [hpool, ← hb.held]
      simp [Pool.held, Pool.State.setObj, hne, objs_close conn hne]
    · rw [hsession h hh', hb.autocommit]
    · simp [Label.settles, Ne.symm hh']

/-- While the Model lives, only its own rollbacks settle the connection. -/
theorem Borrows.run {w w' : World} {a : Addr} {h : Handle} {ls : List Label}
    (hb : Borrows w a h) (hw : Inv w) (hrun : Execution Step w ls w')
    (hlive : ∀ l ∈ ls, ∀ h' r, l ≠ .destroy a h' r) :
    Borrows w' a h ∧ Inv w' ∧ (.commit a h ∉ ls →
      settles h ls = if .rollback a h ∈ ls then some false else none) := by
  induction hrun with
  | nil => exact ⟨hb, hw, by simp⟩
  | @cons w w₁ w' l ls head tail ih =>
    obtain ⟨hb₁, hl⟩ := hb.step hw head (hlive l (by simp))
    obtain ⟨hb', hw', hrest⟩ :=
      ih hb₁ (inv_step _ _ _ hw head) fun l' hl' => hlive l' (by simp [hl'])
    refine ⟨hb', hw', ?_⟩
    intro hcommit
    simp only [List.mem_cons, not_or] at hcommit
    rw [settles_cons, hrest hcommit.2]
    rcases hl with hl | rfl | rfl
    · have hne : l ≠ .rollback a h := by
        rintro rfl
        simp [Label.settles] at hl
      simp [hl, Ne.symm hne]
    · exact absurd rfl hcommit.1
    · simp [Label.settles]

/-! ## A change left behind -/

/-- A run in which the Model at `a` is created with autocommit off on `h`,
executes `x`, and is destroyed without a commit after it. -/
structure OrphanRun (conf : Pool.Settings) (pre live mid post : List Label) (a : Addr) (h : Handle)
    (x : Change) (released : Bool) (w' : World) : Prop where
  run : Execution Step (init conf) (pre ++ .create a h false :: (live ++
    .execute a h x :: (mid ++ .destroy a h released :: post))) w'
  alive : ∀ l ∈ live ++ mid, ∀ h' r, l ≠ .destroy a h' r
  uncommitted : .commit a h ∉ mid

theorem borrows_create {w w' : World} {a : Addr} {h : Handle} (hw : Inv w)
    (hstep : Step w (.create a h false) w') : Borrows w' a h := by
  generalize hl : Label.create a h false = l at hstep
  cases hstep with
  | @create t b ans pool conn h' hp hconn hh =>
    simp only [Label.create.injEq] at hl
    obtain ⟨rfl, rfl, hmode⟩ := hl
    obtain ⟨-, -, -, -, hpool⟩ := borrow_spec hw hp hconn hh
    rw [← hmode]
    refine ⟨?_, ?_⟩
    · rw [pool_setAutocommit, hpool]
      exact held_obj hconn hh
    · simp [World.setAutocommit, session_setSession]
  | _ => cases hl

theorem pendingOn_execute {w w' : World} {a : Addr} {h : Handle} {x : Change} (hw : Inv w)
    (hb : Borrows w a h) (hstep : Step w (.execute a h x) w') : PendingOn w' h x := by
  generalize hl : Label.execute a h x = l at hstep
  cases hstep with
  | @execute b conn h' hconn hh =>
    simp only [Label.execute.injEq] at hl
    obtain ⟨rfl, rfl, rfl⟩ := hl
    refine ⟨by simp, ?_, ?_, ?_⟩
    · simp [session_execute, hb.autocommit]
    · intro h' hne hmem
      rw [session_execute] at hmem
      simp only [hne, false_and, if_false] at hmem
      exact Nat.lt_irrefl _ (hw.pending h' _ hmem)
    · rw [permanent_execute]
      simp only [hb.autocommit, Bool.false_eq_true, if_false]
      exact fun hmem => Nat.lt_irrefl _ (hw.permanent _ hmem)
  | _ => cases hl

/-- One Model leaves a change behind, the next one on the connection has
autocommit on. -/
theorem orphanRun_sample :
    ∃ w',
      OrphanRun ⟨10, 5, true⟩ [.setAutoCommit false] [] [] [.setAutoCommit true, .create 1 0 true]
      0 0 0 true w' ∧ 0 ∈ w'.permanent := by
  let conn : SqlConn := { ptr := some 0, id := 1, pool := true }
  have hrun : Execution Step (init ⟨10, 5, true⟩)
      [.setAutoCommit false, .create 0 0 false, .execute 0 0 0, .destroy 0 0 true,
        .setAutoCommit true, .create 1 0 true] _ :=
    .cons (.setAutoCommit _ false)
      (.cons (@Step.create _ 0 0 .created _ conn 0 (@Pool.Step.answer _ _ 0 0 0 (.accepted true)
          .created (by decide) rfl (by decide) rfl) rfl rfl)
        (.cons (@Step.execute _ 0 conn 0 rfl rfl)
          (.cons (@Step.destroy _ 0 conn 0 rfl rfl)
            (.cons (.setAutoCommit _ true)
              (.cons (@Step.create _ 1 1 .reused _ conn 0 (@Pool.Step.answer _ _ 1 1 1
                (.accepted true) .reused (by decide) rfl (by decide) rfl) rfl rfl) (.nil _))))))
  exact ⟨_, ⟨hrun, by simp, by simp⟩, by decide⟩

end TinyOrm.Transaction

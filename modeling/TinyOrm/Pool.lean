import Mathlib.Data.Finset.Card
import TinyOrm.Text
import TinyOrm.Lib.Execution
import TinyOrm.Lib.Ownership
set_option autoImplicit false

/-!
The connection pool and the connection objects of its clients
(mysql4cpp/connectionpool.cpp, mysql4cpp/sqlconn.cpp).

A step is one stretch of code under the lock of the pool: a call of `getConn`
up to its first wait or its end, one wake-up in `wait_for` up to the next wait
or the end, one `releaseConn`; or one move of a client's object.
-/

namespace TinyOrm

/-- A `MYSQL` connection, numbered in the order in which they are opened. -/
abbrev Handle := Nat

/-- Where a client keeps an object. -/
abbrev Addr := Nat

abbrev Thread := Nat

/-- `ptr` is the handle of the unique pointer, `pool` says that the pointer to
the pool is set. -/
structure SqlConn where
  ptr : Option Handle := none
  error : Str := []
  id : Nat
  pool : Bool := false
  deriving DecidableEq, Repr

namespace SqlConn

def isOpen (conn : SqlConn) : Bool := conn.ptr.isSome

/-- What the move constructor and the move assignment leave behind. -/
def moved (conn : SqlConn) : SqlConn := { conn with ptr := none, pool := false }

end SqlConn

namespace Pool

/-- What `configure` sets. -/
structure Settings where
  poolSize : Nat
  maxRetry : Nat
  testOnBorrow : Bool
  deriving DecidableEq, Repr

/-- The pool, the objects of the clients, and for every thread inside `getConn`
the index of the round it waits in. -/
structure State where
  conf : Settings
  idleConnections : Finset Nat
  usedConnections : Finset Nat
  connections : Nat → Option SqlConn
  globalId : Nat
  opened : Nat
  objs : Addr → Option SqlConn
  waiting : Thread → Option Nat

def init (conf : Settings) : State where
  conf := conf
  idleConnections := ∅
  usedConnections := ∅
  connections := fun _ => none
  globalId := 1
  opened := 0
  objs := fun _ => none
  waiting := fun _ => none

namespace State

def total (s : State) : Nat := s.idleConnections.card + s.usedConnections.card

def setObj (s : State) (a : Addr) (conn : Option SqlConn) : State :=
  { s with objs := Function.update s.objs a conn }

def setConnection (s : State) (id : Nat) (conn : Option SqlConn) : State :=
  { s with connections := Function.update s.connections id conn }

def setWaiting (s : State) (t : Thread) (round : Option Nat) : State :=
  { s with waiting := Function.update s.waiting t round }

end State

/-! ## getConn -/

/-- The condition of the loop in round `i`. -/
def MustWait (s : State) (i : Nat) : Prop :=
  i < s.conf.maxRetry ∧ s.idleConnections.card = 0 ∧ s.total = s.conf.poolSize

instance (s : State) (i : Nat) : Decidable (MustWait s i) :=
  inferInstanceAs (Decidable (_ ∧ _ ∧ _))

/-- The round a thread tests next. -/
def round (s : State) (t : Thread) : Nat :=
  match s.waiting t with
  | none => 0
  | some i => i + 1

/-- How an attempt to connect ends; `test` is the result of `testConn`. -/
inductive Connecting where
  | refused (error : Str)
  | accepted (test : Bool)
  deriving DecidableEq, Repr

def newConnection (s : State) : Connecting → SqlConn × State
  | .refused error => ({ error := error, id := s.globalId }, { s with globalId := s.globalId + 1 })
  | .accepted _ =>
    ({ ptr := some s.opened, id := s.globalId, pool := true },
      { s with globalId := s.globalId + 1, opened := s.opened + 1 })

/-- The return statement `getConn` leaves by. -/
inductive Answer where
  | reused
  | unopened
  | untested
  | created
  | failed
  deriving DecidableEq, Repr

def testFails (s : State) : Connecting → Bool
  | .refused _ => false
  | .accepted test => s.conf.testOnBorrow && !test

/-- `getConn` behind its loop, for a client that keeps the result at `a`.
`connId` is what `*idleConnections.begin()` gives. -/
def getConn (s : State) (a : Addr) (connId : Nat) (outcome : Connecting) :
    Option (Answer × State) :=
  if s.idleConnections.card > 0 then
    match s.connections connId with
    | none => none  -- connections.at throws
    | some conn =>
      some (.reused, { (s.setConnection connId none).setObj a (some conn) with
        idleConnections := s.idleConnections.erase connId
        usedConnections := insert connId s.usedConnections })
  else if s.total < s.conf.poolSize then
    let (conn, s') := newConnection s outcome
    if !conn.isOpen then some (.unopened, s'.setObj a (some conn))
    else if testFails s outcome then
      some (.untested, s'.setObj a (some { conn with error := "sql test fail".toList }))
    else
      some (.created, { s'.setObj a (some conn) with
        usedConnections := insert conn.id s.usedConnections })
  else
    some (.failed, ({ s with globalId := s.globalId + 1 } : State).setObj a
      (some { error := "failed to create new connection".toList, id := s.globalId }))

/-! ## releaseConn -/

/-- `releaseConn` on the object `conn` at `a`. The assignment into
`connections` moves out of the object and leaves it its id. -/
def releaseConn (s : State) (a : Addr) (conn : SqlConn) : State :=
  if conn.id ∈ s.usedConnections then
    { (s.setConnection conn.id (some conn)).setObj a (some conn.moved) with
      usedConnections := s.usedConnections.erase conn.id
      idleConnections := insert conn.id s.idleConnections }
  else s

def close (s : State) (a : Addr) (conn : SqlConn) : State :=
  if conn.pool then releaseConn s a conn else s

/-! ## Steps -/

inductive Label where
  | wait (t : Thread)
  | answer (t : Thread) (a : Addr) (ans : Answer)
  | move (a b : Addr)
  | assign (a b : Addr)
  | close (a : Addr)
  | release (a : Addr)
  | destroy (a : Addr)
  deriving DecidableEq, Repr

inductive Step : State → Label → State → Prop where
  | wait {s : State} {t : Thread} (hwait : MustWait s (round s t)) :
      Step s (.wait t) (s.setWaiting t (some (round s t)))
  | answer {s s' : State} {t : Thread} {a : Addr} {connId : Nat} {outcome : Connecting}
      {ans : Answer} (hexit : ¬ MustWait s (round s t)) (hfree : s.objs a = none)
      (hbegin : s.idleConnections.card > 0 → connId ∈ s.idleConnections)
      (hget : getConn s a connId outcome = some (ans, s')) :
      Step s (.answer t a ans) (s'.setWaiting t none)
  /-- `SqlConn b(std::move(a))` -/
  | move {s : State} {a b : Addr} {conn : SqlConn} (ha : s.objs a = some conn)
      (hb : s.objs b = none) :
      Step s (.move a b) ((s.setObj b (some conn)).setObj a (some conn.moved))
  /-- `b = std::move(a)`; the handle `b` has held is closed. -/
  | assign {s : State} {a b : Addr} {conn old : SqlConn} (ha : s.objs a = some conn)
      (hb : s.objs b = some old) (hne : a ≠ b) :
      Step s (.assign a b) ((s.setObj b (some conn)).setObj a (some conn.moved))
  | assign_self {s : State} {a : Addr} {conn : SqlConn} (ha : s.objs a = some conn) :
      Step s (.assign a a) s
  | close {s : State} {a : Addr} {conn : SqlConn} (ha : s.objs a = some conn) :
      Step s (.close a) (close s a conn)
  | release {s : State} {a : Addr} {conn : SqlConn} (ha : s.objs a = some conn) :
      Step s (.release a) (releaseConn s a conn)
  /-- The destructor closes a handle still held. -/
  | destroy {s : State} {a : Addr} {conn : SqlConn} (ha : s.objs a = some conn) :
      Step s (.destroy a) (s.setObj a none)

/-! ## Who holds a handle -/

inductive Owner where
  | client (a : Addr)
  | pooled (id : Nat)
  deriving DecidableEq, Repr

def held (s : State) : Owner → Option Handle
  | .client a => (s.objs a).bind SqlConn.ptr
  | .pooled id => (s.connections id).bind SqlConn.ptr

theorem held_setObj (s : State) (a : Addr) (conn : Option SqlConn) :
    held (s.setObj a conn) = Function.update (held s) (.client a) (conn.bind SqlConn.ptr) := by
  funext o
  cases o with
  | pooled id => simp [held, State.setObj]
  | client b =>
    by_cases h : b = a
    · subst h
      simp [held, State.setObj]
    · simp [held, State.setObj, h]

theorem held_setConnection (s : State) (id : Nat) (conn : Option SqlConn) :
    held (s.setConnection id conn) =
      Function.update (held s) (.pooled id) (conn.bind SqlConn.ptr) := by
  funext o
  cases o with
  | client a => simp [held, State.setConnection]
  | pooled i =>
    by_cases h : i = id
    · subst h
      simp [held, State.setConnection]
    · simp [held, State.setConnection, h]

end Pool

end TinyOrm

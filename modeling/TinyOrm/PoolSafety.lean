import TinyOrm.Pool
set_option autoImplicit false

/-!
What holds in every reachable state of the pool.
-/

namespace TinyOrm.Pool

open Ownership

/-- `idle` and `used` are apart, the stored connections are the idle ones, the
pool is not exceeded, and no handle has two holders. -/
structure Safe (s : State) : Prop where
  disjoint : Disjoint s.idleConnections s.usedConnections
  keys : ∀ id, (s.connections id).isSome ↔ id ∈ s.idleConnections
  size : s.idleConnections.card + s.usedConnections.card ≤ s.conf.poolSize
  exclusive : Exclusive (held s)

structure Inv (s : State) : Prop extends Safe s where
  idleIds : ∀ id ∈ s.idleConnections, id < s.globalId
  usedIds : ∀ id ∈ s.usedConnections, id < s.globalId
  handles : ∀ o h, held s o = some h → h < s.opened

theorem inv_init (conf : Settings) : Inv (init conf) := by
  have hheld : held (init conf) = fun _ => none := by
    funext o
    cases o <;> rfl
  constructor
  · constructor
    · simp [init]
    · simp [init]
    · simp [init]
    · rw [hheld]
      exact exclusive_none
  · simp [init]
  · simp [init]
  · simp [hheld]

/-- A change of the objects alone. -/
theorem Inv.of_held {s s' : State} (h : Inv s) (hconf : s'.conf = s.conf)
    (hidle : s'.idleConnections = s.idleConnections)
    (hused : s'.usedConnections = s.usedConnections) (hconn : s'.connections = s.connections)
    (hglobal : s.globalId ≤ s'.globalId) (hex : Exclusive (held s'))
    (hhandles : ∀ o x, held s' o = some x → x < s'.opened) : Inv s' := by
  refine ⟨⟨?_, ?_, ?_, hex⟩, ?_, ?_, hhandles⟩
  · rw [hidle, hused]
    exact h.disjoint
  · rw [hidle, hconn]
    exact h.keys
  · rw [hidle, hused, hconf]
    exact h.size
  · rw [hidle]
    exact fun id hid => Nat.lt_of_lt_of_le (h.idleIds id hid) hglobal
  · rw [hused]
    exact fun id hid => Nat.lt_of_lt_of_le (h.usedIds id hid) hglobal

theorem held_update_lt {s : State} (h : ∀ o x, held s o = some x → x < s.opened) {o : Owner}
    {r : Option Handle} {n : Nat} (hn : s.opened ≤ n) (hr : ∀ x, r = some x → x < n) (p : Owner)
    (x : Handle) (hx : Function.update (held s) o r p = some x) : x < n := by
  by_cases hpo : p = o
  · rw [hpo, Function.update_self] at hx
    exact hr x hx
  · rw [Function.update_of_ne hpo] at hx
    exact Nat.lt_of_lt_of_le (h p x hx) hn

theorem held_client {s : State} {a : Addr} {conn : SqlConn} (ha : s.objs a = some conn) :
    held s (.client a) = conn.ptr := by
  simp [held, ha]

/-- The object at `a` is moved to another place. -/
theorem Inv.move {s s' : State} (h : Inv s) {a : Addr} {conn : SqlConn}
    (ha : s.objs a = some conn) {o : Owner} (hne : Owner.client a ≠ o)
    (hheld : held s' = Function.update (Function.update (held s) o conn.ptr) (.client a) none) :
    Exclusive (held s') ∧ ∀ p x, held s' p = some x → x < s.opened := by
  rw [← held_client ha] at hheld
  rw [hheld]
  refine ⟨h.exclusive.move hne, ?_⟩
  intro p x hx
  by_cases hpa : p = .client a
  · simp [hpa] at hx
  · rw [Function.update_of_ne hpa] at hx
    exact held_update_lt h.handles (Nat.le_refl _) (fun y hy => h.handles _ y hy) p x hx

/-! ## getConn -/

/-- The ways out of `getConn`. -/
theorem getConn_cases {s s' : State} {a : Addr} {connId : Nat} {outcome : Connecting}
    {ans : Answer} (h : getConn s a connId outcome = some (ans, s')) :
    (∃ conn, s.idleConnections.card > 0 ∧ s.connections connId = some conn ∧ ans = .reused ∧
      s' = { (s.setConnection connId none).setObj a (some conn) with
        idleConnections := s.idleConnections.erase connId
        usedConnections := insert connId s.usedConnections }) ∨
    (s.idleConnections.card = 0 ∧ s.total < s.conf.poolSize ∧ ∃ error, ans = .unopened ∧
      s' = ({ s with globalId := s.globalId + 1 } : State).setObj a
        (some { error := error, id := s.globalId })) ∨
    (s.idleConnections.card = 0 ∧ s.total < s.conf.poolSize ∧ ∃ error, ans = .untested ∧
      s' = ({ s with globalId := s.globalId + 1, opened := s.opened + 1 } : State).setObj a
        (some { ptr := some s.opened, error := error, id := s.globalId, pool := true })) ∨
    (s.idleConnections.card = 0 ∧ s.total < s.conf.poolSize ∧ ans = .created ∧
      s' = { ({ s with globalId := s.globalId + 1, opened := s.opened + 1 } : State).setObj a
          (some { ptr := some s.opened, id := s.globalId, pool := true }) with
        usedConnections := insert s.globalId s.usedConnections }) ∨
    (s.idleConnections.card = 0 ∧ ¬ s.total < s.conf.poolSize ∧ ans = .failed ∧
      s' = ({ s with globalId := s.globalId + 1 } : State).setObj a
        (some { error := "failed to create new connection".toList, id := s.globalId })) := by
  unfold getConn at h
  by_cases hidle : s.idleConnections.card > 0
  · simp only [hidle, if_true] at h
    cases hc : s.connections connId with
    | none => simp [hc] at h
    | some conn =>
      simp only [hc, Option.some.injEq, Prod.mk.injEq] at h
      exact Or.inl ⟨conn, hidle, rfl, h.1.symm, h.2.symm⟩
  · have hzero : s.idleConnections.card = 0 := by omega
    simp only [hidle, if_false] at h
    by_cases hroom : s.total < s.conf.poolSize
    · simp only [hroom, if_true] at h
      cases outcome with
      | refused error =>
        simp only [newConnection, SqlConn.isOpen, Option.isSome_none, Bool.not_false, if_true,
          Option.some.injEq, Prod.mk.injEq] at h
        exact Or.inr (Or.inl ⟨hzero, hroom, error, h.1.symm, h.2.symm⟩)
      | accepted test =>
        simp only [newConnection, SqlConn.isOpen, Option.isSome_some, Bool.not_true,
          Bool.false_eq_true, if_false] at h
        by_cases htest : testFails s (.accepted test)
        · simp only [htest, if_true, Option.some.injEq, Prod.mk.injEq] at h
          exact Or.inr (Or.inr (Or.inl ⟨hzero, hroom, _, h.1.symm, h.2.symm⟩))
        · simp only [htest, Bool.false_eq_true, if_false, Option.some.injEq, Prod.mk.injEq] at h
          exact Or.inr (Or.inr (Or.inr (Or.inl ⟨hzero, hroom, h.1.symm, h.2.symm⟩)))
    · simp only [hroom, if_false, Option.some.injEq, Prod.mk.injEq] at h
      exact Or.inr (Or.inr (Or.inr (Or.inr ⟨hzero, hroom, h.1.symm, h.2.symm⟩)))

theorem held_reuse {s : State} {a : Addr} {connId : Nat} {conn : SqlConn}
    (hc : s.connections connId = some conn) :
    held { (s.setConnection connId none).setObj a (some conn) with
      idleConnections := s.idleConnections.erase connId
      usedConnections := insert connId s.usedConnections } =
      Function.update (Function.update (held s) (.client a) (held s (.pooled connId)))
        (.pooled connId) none := by
  have hptr : held s (.pooled connId) = conn.ptr := by simp [held, hc]
  have hswap := held_setObj (s.setConnection connId none) a (some conn)
  rw [held_setConnection] at hswap
  rw [hptr, Function.update_comm (by simp)]
  exact hswap

theorem keys_reuse {s : State} (h : ∀ id, (s.connections id).isSome ↔ id ∈ s.idleConnections)
    (connId id : Nat) : ((s.setConnection connId none).connections id).isSome ↔
      id ∈ s.idleConnections.erase connId := by
  by_cases hi : id = connId
  · simp [State.setConnection, hi]
  · simp [State.setConnection, hi, h]

theorem Inv.reuse {s : State} (h : Inv s) {a : Addr} {connId : Nat} {conn : SqlConn}
    (hid : connId ∈ s.idleConnections) (hc : s.connections connId = some conn) :
    Inv { (s.setConnection connId none).setObj a (some conn) with
      idleConnections := s.idleConnections.erase connId
      usedConnections := insert connId s.usedConnections } := by
  have hnot : connId ∉ s.usedConnections := Finset.disjoint_left.mp h.disjoint hid
  have hheld := held_reuse (a := a) hc
  constructor
  · constructor
    · simp only [Finset.disjoint_left, Finset.mem_erase, Finset.mem_insert, not_or]
      rintro id ⟨hne, hidle⟩
      exact ⟨hne, Finset.disjoint_left.mp h.disjoint hidle⟩
    · exact keys_reuse h.keys connId
    · have hcard := Finset.card_erase_of_mem hid
      have hpos : 0 < s.idleConnections.card := Finset.card_pos.mpr ⟨connId, hid⟩
      have hsize := h.size
      simp only [Finset.card_insert_of_notMem hnot, hcard]
      simp only [State.setObj, State.setConnection]
      omega
    · rw [hheld]
      exact h.exclusive.move (by simp)
  · intro id hi
    exact h.idleIds id (Finset.mem_of_mem_erase hi)
  · intro id hi
    rcases Finset.mem_insert.mp hi with rfl | hi
    · exact h.idleIds id hid
    · exact h.usedIds id hi
  · intro o x hx
    rw [hheld] at hx
    by_cases ho : o = .pooled connId
    · simp [ho] at hx
    · rw [Function.update_of_ne ho] at hx
      exact held_update_lt h.handles (Nat.le_refl _) (fun y hy => h.handles _ y hy) o x hx

/-- A client gets an object without a handle. -/
theorem Inv.give_closed {s : State} (h : Inv s) (a : Addr) (error : Str) :
    Inv (({ s with globalId := s.globalId + 1 } : State).setObj a
      (some { error := error, id := s.globalId })) := by
  have hheld : held (({ s with globalId := s.globalId + 1 } : State).setObj a
      (some { error := error, id := s.globalId })) = Function.update (held s) (.client a) none :=
    held_setObj _ _ _
  refine h.of_held rfl rfl rfl rfl (Nat.le_succ _) ?_ ?_
  · rw [hheld]
    exact h.exclusive.drop _
  · rw [hheld]
    exact held_update_lt h.handles (Nat.le_refl _) (by simp)

theorem Inv.give_open {s : State} (h : Inv s) (a : Addr) (error : Str) :
    Inv (({ s with globalId := s.globalId + 1, opened := s.opened + 1 } : State).setObj a
      (some { ptr := some s.opened, error := error, id := s.globalId, pool := true })) := by
  have hheld :
    held (({ s with globalId := s.globalId + 1, opened := s.opened + 1 } : State).setObj a
      (some { ptr := some s.opened, error := error, id := s.globalId, pool := true })) =
      Function.update (held s) (.client a) (some s.opened) :=
    held_setObj _ _ _
  refine h.of_held rfl rfl rfl rfl (Nat.le_succ _) ?_ ?_
  · rw [hheld]
    apply h.exclusive.take
    intro p hp
    exact Nat.lt_irrefl _ (h.handles p _ hp)
  · rw [hheld]
    exact held_update_lt h.handles (Nat.le_succ _) (by simp [State.setObj])

/-- The id of a new connection is registered. -/
theorem Inv.register {s : State} (h : Inv s) {id : Nat} (hidle : id ∉ s.idleConnections)
    (hlt : id < s.globalId) (hroom : s.idleConnections.card + s.usedConnections.card <
      s.conf.poolSize) : Inv { s with usedConnections := insert id s.usedConnections } := by
  constructor
  · constructor
    · rw [Finset.disjoint_insert_right]
      exact ⟨hidle, h.disjoint⟩
    · exact h.keys
    · have hcard := Finset.card_insert_le id s.usedConnections
      show s.idleConnections.card + (insert id s.usedConnections).card ≤ s.conf.poolSize
      omega
    · exact h.exclusive
  · exact h.idleIds
  · intro i hi
    rcases Finset.mem_insert.mp hi with rfl | hi
    · exact hlt
    · exact h.usedIds i hi
  · exact h.handles

theorem Inv.getConn {s s' : State} (h : Inv s) {a : Addr} {connId : Nat} {outcome : Connecting}
    {ans : Answer} (hbegin : s.idleConnections.card > 0 → connId ∈ s.idleConnections)
    (hget : getConn s a connId outcome = some (ans, s')) : Inv s' := by
  rcases getConn_cases hget with ⟨conn, hpos, hc, -, rfl⟩ | ⟨-, -, error, -, rfl⟩ |
    ⟨-, -, error, -, rfl⟩ | ⟨-, hroom, -, rfl⟩ | ⟨-, -, -, rfl⟩
  · exact h.reuse (hbegin hpos) hc
  · exact h.give_closed a error
  · exact h.give_open a error
  · have hidle : s.globalId ∉ s.idleConnections := by
      intro hmem
      exact Nat.lt_irrefl _ (h.idleIds _ hmem)
    exact (h.give_open a []).register hidle (Nat.lt_succ_self _) hroom
  · exact h.give_closed a _

/-! ## releaseConn and the moves -/

theorem held_releaseConn {s : State} {a : Addr} {conn : SqlConn}
    (hid : conn.id ∈ s.usedConnections) : held (releaseConn s a conn) =
      Function.update (Function.update (held s) (.pooled conn.id) conn.ptr) (.client a) none := by
  have hset := held_setObj (s.setConnection conn.id (some conn)) a (some conn.moved)
  rw [held_setConnection] at hset
  rw [Pool.releaseConn, if_pos hid]
  exact hset

theorem keys_releaseConn {s : State} (h : ∀ id, (s.connections id).isSome ↔ id ∈ s.idleConnections)
    (a : Addr) (conn : SqlConn) (id : Nat) : ((releaseConn s a conn).connections id).isSome ↔
      id ∈ (releaseConn s a conn).idleConnections := by
  unfold Pool.releaseConn
  by_cases hid : conn.id ∈ s.usedConnections
  · by_cases hi : id = conn.id
    · simp [hid, State.setObj, State.setConnection, hi]
    · simp [hid, State.setObj, State.setConnection, hi, h]
  · simp [hid, h]

theorem Inv.releaseConn {s : State} (h : Inv s) {a : Addr} {conn : SqlConn}
    (ha : s.objs a = some conn) : Inv (releaseConn s a conn) := by
  by_cases hid : conn.id ∈ s.usedConnections
  · have hnot : conn.id ∉ s.idleConnections := Finset.disjoint_right.mp h.disjoint hid
    obtain ⟨hex, hlt⟩ := h.move ha (by simp) (held_releaseConn hid)
    have hkeys := keys_releaseConn h.keys a conn
    simp only [Pool.releaseConn, hid, if_true] at hex hlt hkeys ⊢
    constructor
    · constructor
      · simp only [Finset.disjoint_left, Finset.mem_erase, Finset.mem_insert, not_and]
        rintro id (rfl | hidle)
        · exact fun hne => absurd rfl hne
        · exact fun _ => Finset.disjoint_left.mp h.disjoint hidle
      · exact hkeys
      · have hcard := Finset.card_erase_of_mem hid
        have hpos : 0 < s.usedConnections.card := Finset.card_pos.mpr ⟨conn.id, hid⟩
        have hsize := h.size
        simp only [Finset.card_insert_of_notMem hnot, hcard]
        simp only [State.setObj, State.setConnection]
        omega
      · exact hex
    · intro id hi
      rcases Finset.mem_insert.mp hi with rfl | hi
      · exact h.usedIds _ hid
      · exact h.idleIds id hi
    · intro id hi
      exact h.usedIds id (Finset.mem_of_mem_erase hi)
    · exact hlt
  · simpa only [Pool.releaseConn, hid, if_false] using h

theorem Inv.close {s : State} (h : Inv s) {a : Addr} {conn : SqlConn}
    (ha : s.objs a = some conn) : Inv (close s a conn) := by
  unfold Pool.close
  cases conn.pool with
  | true => exact h.releaseConn ha
  | false => exact h

theorem Inv.move_obj {s : State} (h : Inv s) {a b : Addr} {conn : SqlConn}
    (ha : s.objs a = some conn) (hne : a ≠ b) :
    Inv ((s.setObj b (some conn)).setObj a (some conn.moved)) := by
  have hheld : held ((s.setObj b (some conn)).setObj a (some conn.moved)) =
      Function.update (Function.update (held s) (.client b) conn.ptr) (.client a) none := by
    rw [held_setObj, held_setObj]
    rfl
  obtain ⟨hex, hlt⟩ := h.move ha (by simpa using hne) hheld
  exact h.of_held rfl rfl rfl rfl (Nat.le_refl _) hex hlt

theorem Inv.destroy {s : State} (h : Inv s) (a : Addr) : Inv (s.setObj a none) := by
  have hheld := held_setObj s a none
  refine h.of_held rfl rfl rfl rfl (Nat.le_refl _) ?_ ?_
  · rw [hheld]
    exact h.exclusive.drop _
  · rw [hheld]
    exact held_update_lt h.handles (Nat.le_refl _) (by simp)

theorem Inv.setWaiting {s : State} (h : Inv s) (t : Thread) (r : Option Nat) :
    Inv (s.setWaiting t r) :=
  h.of_held rfl rfl rfl rfl (Nat.le_refl _) h.exclusive h.handles

/-- Every step keeps the invariant. -/
theorem inv_step (s : State) (l : Label) (s' : State) (h : Inv s) (hstep : Step s l s') :
    Inv s' := by
  cases hstep with
  | wait => exact h.setWaiting _ _
  | answer hexit hfree hbegin hget => exact (h.getConn hbegin hget).setWaiting _ _
  | move ha hb =>
    apply h.move_obj ha
    rintro rfl
    rw [ha] at hb
    cases hb
  | assign ha hb hne => exact h.move_obj ha hne
  | assign_self ha => exact h
  | close ha => exact h.close ha
  | release ha => exact h.releaseConn ha
  | destroy ha => exact h.destroy _

theorem inv_reachable {conf : Settings} {s : State} {ls : List Label}
    (h : Execution Step (init conf) ls s) : Inv s :=
  h.preserves inv_step (inv_init conf)

/-- The failed answer is given only when nothing is idle and the pool is full. -/
theorem answer_failed {s s' : State} {t : Thread} {a : Addr}
    (h : Step s (.answer t a .failed) s') :
    s.idleConnections = ∅ ∧ s.conf.poolSize ≤ s.idleConnections.card + s.usedConnections.card := by
  cases h with
  | answer hexit hfree hbegin hget =>
    rcases getConn_cases hget with ⟨conn, -, -, hans, -⟩ | ⟨-, -, error, hans, -⟩ |
      ⟨-, -, error, hans, -⟩ | ⟨-, -, hans, -⟩ | ⟨hzero, hfull, -, -⟩
    · cases hans
    · cases hans
    · cases hans
    · cases hans
    · exact ⟨Finset.card_eq_zero.mp hzero, Nat.le_of_not_lt hfull⟩

theorem pool_safety {conf : Settings} {s : State} {ls : List Label}
    (h : Execution Step (init conf) ls s) :
    Safe s ∧ ∀ t a s', Step s (.answer t a .failed) s' →
      s.idleConnections = ∅ ∧
        s.conf.poolSize ≤ s.idleConnections.card + s.usedConnections.card :=
  ⟨(inv_reachable h).toSafe, fun _ _ _ hstep => answer_failed hstep⟩

/-- A connection is created, given back, borrowed again and closed twice. -/
theorem pool_safety_sample :
    ∃ s, Execution Step (init ⟨1, 5, true⟩)
      [.answer 0 0 .created, .close 0, .answer 1 1 .reused, .close 0, .close 1] s ∧ Safe s := by
  have h : Execution Step (init ⟨1, 5, true⟩)
      [.answer 0 0 .created, .close 0, .answer 1 1 .reused, .close 0, .close 1] _ :=
    .cons (@Step.answer _ _ 0 0 0 (.accepted true) .created (by decide) rfl (by decide) rfl)
      (.cons (.close rfl)
        (.cons (@Step.answer _ _ 1 1 1 (.accepted true) .reused (by decide) rfl (by decide) rfl)
          (.cons (.close rfl) (.cons (.close rfl) (.nil _)))))
  exact ⟨_, h, (pool_safety h).1⟩

end TinyOrm.Pool

import TinyOrm.PoolSafety
import TinyOrm.PoolTargets
set_option autoImplicit false

/-!
How long a thread waits for a connection, and when no thread ever gets one again.
-/

namespace TinyOrm.Pool

/-! ## Ids -/

/-- A stored connection has the id it is stored under, and an id is handed out once. -/
structure Ids (s : State) : Prop where
  stored : ∀ id conn, s.connections id = some conn → conn.id = id
  objs : ∀ a conn, s.objs a = some conn → conn.id < s.globalId

theorem ids_init (conf : Settings) : Ids (init conf) := by
  constructor
  · intro id conn h
    cases h
  · intro a conn h
    cases h

theorem objs_setObj {s : State} {a : Addr} {conn : Option SqlConn} {b : Addr} {c : SqlConn}
    (h : (s.setObj a conn).objs b = some c) : (b = a ∧ conn = some c) ∨ s.objs b = some c := by
  by_cases hb : b = a
  · subst hb
    exact .inl ⟨rfl, by simpa [State.setObj] using h⟩
  · exact .inr (by simpa [State.setObj, hb] using h)

theorem stored_setConnection {s : State} {id : Nat} {conn : Option SqlConn} {i : Nat}
    {c : SqlConn} (h : (s.setConnection id conn).connections i = some c) :
    (i = id ∧ conn = some c) ∨ s.connections i = some c := by
  by_cases hi : i = id
  · subst hi
    exact .inl ⟨rfl, by simpa [State.setConnection] using h⟩
  · exact .inr (by simpa [State.setConnection, hi] using h)

/-- An object with a new id. -/
theorem Ids.give {s : State} (h : Ids s) (a : Addr) (conn : SqlConn) (hid : conn.id = s.globalId)
    (n : Nat) : Ids (({ s with globalId := s.globalId + 1, opened := n } : State).setObj a
      (some conn)) := by
  refine ⟨h.stored, fun b c hc => ?_⟩
  rcases objs_setObj hc with ⟨-, heq⟩ | hold
  · rw [← Option.some.inj heq, hid]
    exact Nat.lt_succ_self _
  · exact Nat.lt_succ_of_lt (h.objs b c hold)

theorem Ids.getConn {s s' : State} (h : Ids s) {a : Addr} {connId : Nat} {outcome : Connecting}
    {ans : Answer} (hless : ∀ id ∈ s.idleConnections, id < s.globalId)
    (hbegin : s.idleConnections.card > 0 → connId ∈ s.idleConnections)
    (hget : getConn s a connId outcome = some (ans, s')) : Ids s' := by
  rcases getConn_cases hget with ⟨conn, hpos, hc, -, rfl⟩ | ⟨-, -, error, -, rfl⟩ |
    ⟨-, -, error, -, rfl⟩ | ⟨-, -, -, rfl⟩ | ⟨-, -, -, rfl⟩
  · refine ⟨fun id c hstored => ?_, fun b c hobj => ?_⟩
    · rcases stored_setConnection hstored with ⟨-, heq⟩ | hold
      · cases heq
      · exact h.stored id c hold
    · rcases objs_setObj hobj with ⟨-, heq⟩ | hold
      · rw [← Option.some.inj heq, h.stored connId conn hc]
        exact hless connId (hbegin hpos)
      · exact h.objs b c hold
  · exact h.give a _ rfl s.opened
  · exact h.give a _ rfl _
  · obtain ⟨hstored, hobjs⟩ :=
      h.give a { ptr := some s.opened, id := s.globalId, pool := true } rfl (s.opened + 1)
    exact ⟨hstored, hobjs⟩
  · exact h.give a _ rfl s.opened

/-- Objects that are copies of one another but for what they hold. -/
theorem Ids.setObj {s : State} (h : Ids s) (a : Addr) {conn : Option SqlConn}
    (hid : ∀ c, conn = some c → c.id < s.globalId) : Ids (s.setObj a conn) := by
  refine ⟨h.stored, fun b c hc => ?_⟩
  rcases objs_setObj hc with ⟨-, heq⟩ | hold
  · exact hid c heq
  · exact h.objs b c hold

theorem Ids.move_obj {s : State} (h : Ids s) {a b : Addr} {conn : SqlConn}
    (ha : s.objs a = some conn) : Ids ((s.setObj b (some conn)).setObj a (some conn.moved)) := by
  have hlt := h.objs a conn ha
  have hmoved (c : SqlConn) (hc : some conn.moved = some c) : c.id < s.globalId := by
    rw [← Option.some.inj hc]
    exact hlt
  have hb : Ids (s.setObj b (some conn)) := h.setObj b fun c hc => by
    rw [← Option.some.inj hc]
    exact hlt
  exact hb.setObj a hmoved

theorem Ids.releaseConn {s : State} (h : Ids s) {a : Addr} {conn : SqlConn}
    (ha : s.objs a = some conn) : Ids (releaseConn s a conn) := by
  unfold Pool.releaseConn
  split
  · refine ⟨fun id c hstored => ?_, fun b c hobj => ?_⟩
    · rcases stored_setConnection hstored with ⟨rfl, heq⟩ | hold
      · rw [Option.some.inj heq]
      · exact h.stored id c hold
    · rcases objs_setObj hobj with ⟨-, heq⟩ | hold
      · rw [← Option.some.inj heq]
        exact h.objs a conn ha
      · exact h.objs b c hold
  · exact h

theorem ids_step {s s' : State} {l : Label} (hinv : Inv s) (h : Ids s) (hstep : Step s l s') :
    Ids s' := by
  cases hstep with
  | wait => exact ⟨h.stored, h.objs⟩
  | answer hexit hfree hbegin hget =>
    obtain ⟨hstored, hobjs⟩ := h.getConn hinv.idleIds hbegin hget
    exact ⟨hstored, hobjs⟩
  | move ha hb => exact h.move_obj ha
  | assign ha hb hne => exact h.move_obj ha
  | assign_self ha => exact h
  | @close a conn ha =>
    unfold Pool.close
    split
    · exact h.releaseConn ha
    · exact h
  | release ha => exact h.releaseConn ha
  | destroy ha => exact h.setObj _ fun c hc => by cases hc

/-- What is known of a state that is reached. -/
structure Reached (s : State) : Prop where
  inv : Inv s
  shape : Shape s
  ids : Ids s

theorem reached_step (s : State) (l : Label) (s' : State) (h : Reached s) (hstep : Step s l s') :
    Reached s' :=
  ⟨inv_step s l s' h.inv hstep, (shape_step h.shape hstep).1, ids_step h.inv h.ids hstep⟩

theorem reached {conf : Settings} {s : State} {ls : List Label}
    (h : Execution Step (init conf) ls s) : Reached s := by
  refine h.preserves reached_step ⟨inv_init conf, ⟨?_, ?_, 0, fun a _ => rfl⟩, ids_init conf⟩
  · exact (inv_init conf).keys
  · exact (inv_init conf).handles

theorem conf_step {s s' : State} {l : Label} (hstep : Step s l s') : s'.conf = s.conf := by
  have hrelease (a : Addr) (conn : SqlConn) : (releaseConn s a conn).conf = s.conf := by
    unfold Pool.releaseConn
    split <;> rfl
  cases hstep with
  | answer hexit hfree hbegin hget =>
    rcases getConn_cases hget with ⟨conn, -, -, -, rfl⟩ | ⟨-, -, error, -, rfl⟩ |
      ⟨-, -, error, -, rfl⟩ | ⟨-, -, -, rfl⟩ | ⟨-, -, -, rfl⟩ <;> rfl
  | @close a conn ha =>
    unfold Pool.close
    split
    · exact hrelease a conn
    · rfl
  | @release a conn ha => exact hrelease a conn
  | _ => rfl

theorem conf_execution {s s' : State} {ls : List Label} (h : Execution Step s ls s') :
    s'.conf = s.conf :=
  h.preserves (P := fun t => t.conf = s.conf)
    (fun _ _ _ hconf hstep => (conf_step hstep).trans hconf) rfl

/-! ## Connections that are gone -/

/-- The place is taken, and there is no object left to give it back with. -/
def Stranded (s : State) (id : Nat) : Prop :=
  id ∈ s.usedConnections ∧ ∀ a conn, s.objs a = some conn → conn.id ≠ id

theorem stranded_step {s s' : State} {l : Label} (h : Reached s) (hstep : Step s l s') {id : Nat}
    (hid : Stranded s id) : Stranded s' id := by
  obtain ⟨hused, hobjs⟩ := hid
  have hne : s.globalId ≠ id := Nat.ne_of_gt (h.inv.usedIds id hused)
  have hset {t : State} {a : Addr} {conn : Option SqlConn} (ht : Stranded t id)
      (hconn : ∀ c, conn = some c → c.id ≠ id) : Stranded (t.setObj a conn) id := by
    refine ⟨ht.1, fun b c hc => ?_⟩
    rcases objs_setObj hc with ⟨-, heq⟩ | hold
    · exact hconn c heq
    · exact ht.2 b c hold
  have hmove {a b : Addr} {conn : SqlConn} (ha : s.objs a = some conn) :
      Stranded ((s.setObj b (some conn)).setObj a (some conn.moved)) id := by
    refine hset (hset ⟨hused, hobjs⟩ fun c hc => ?_) fun c hc => ?_
    · rw [← Option.some.inj hc]
      exact hobjs a conn ha
    · rw [← Option.some.inj hc]
      exact hobjs a conn ha
  have hrelease {a : Addr} {conn : SqlConn} (ha : s.objs a = some conn) :
      Stranded (releaseConn s a conn) id := by
    unfold Pool.releaseConn
    split
    · refine ⟨Finset.mem_erase.mpr ⟨(hobjs a conn ha).symm, hused⟩, fun b c hc => ?_⟩
      rcases objs_setObj hc with ⟨-, heq⟩ | hold
      · rw [← Option.some.inj heq]
        exact hobjs a conn ha
      · exact hobjs b c hold
    · exact ⟨hused, hobjs⟩
  cases hstep with
  | wait => exact ⟨hused, hobjs⟩
  | @answer s' t a connId outcome ans hexit hfree hbegin hget =>
    have hnew (conn : SqlConn) (hconn : conn.id = s.globalId) (g n : Nat) :
        Stranded (({ s with globalId := g, opened := n } : State).setObj a (some conn)) id := by
      refine hset (t := { s with globalId := g, opened := n }) ⟨hused, hobjs⟩ fun c hc => ?_
      rw [← Option.some.inj hc, hconn]
      exact hne
    rcases getConn_cases hget with ⟨conn, hpos, hc, -, rfl⟩ | ⟨-, -, error, -, rfl⟩ |
      ⟨-, -, error, -, rfl⟩ | ⟨-, -, -, rfl⟩ | ⟨-, -, -, rfl⟩
    · refine ⟨Finset.mem_insert_of_mem hused, fun b c hobj => ?_⟩
      rcases objs_setObj hobj with ⟨-, heq⟩ | hold
      · rw [← Option.some.inj heq, h.ids.stored connId conn hc]
        intro heq
        exact Finset.disjoint_left.mp h.inv.disjoint (hbegin hpos) (heq ▸ hused)
      · exact hobjs b c hold
    · exact hnew _ rfl _ _
    · exact hnew _ rfl _ _
    · obtain ⟨-, hobjs'⟩ := hnew { ptr := some s.opened, id := s.globalId, pool := true } rfl
        (s.globalId + 1) (s.opened + 1)
      exact ⟨Finset.mem_insert_of_mem hused, hobjs'⟩
    · exact hnew _ rfl _ _
  | move ha hb => exact hmove ha
  | assign ha hb hne => exact hmove ha
  | assign_self ha => exact ⟨hused, hobjs⟩
  | close ha =>
    unfold Pool.close
    split
    · exact hrelease ha
    · exact ⟨hused, hobjs⟩
  | release ha => exact hrelease ha
  | destroy ha => exact hset ⟨hused, hobjs⟩ fun c hc => by cases hc

open Classical in
/-- The places that are lost. -/
noncomputable def stranded (s : State) : Finset Nat := s.usedConnections.filter (Stranded s)

theorem mem_stranded {s : State} {id : Nat} : id ∈ stranded s ↔ Stranded s id := by
  classical
  simp only [stranded, Finset.mem_filter]
  exact and_iff_right_of_imp fun h => h.1

theorem stranded_execution {s s' : State} {ls : List Label} (h : Reached s)
    (hrun : Execution Step s ls s') : stranded s ⊆ stranded s' := by
  induction hrun with
  | nil => exact Finset.Subset.refl _
  | cons head tail ih =>
    refine Finset.Subset.trans (fun id hid => ?_) (ih (reached_step _ _ _ h head))
    exact mem_stranded.mpr (stranded_step h head (mem_stranded.mp hid))

/-- An answer with a connection of the pool. -/
def Answer.Serves (ans : Answer) : Prop := ans = .created ∨ ans = .reused

/-- A connection is handed out only where a place is not lost. -/
theorem serves_room {s s' : State} {t : Thread} {a : Addr} {ans : Answer} (h : Reached s)
    (hstep : Step s (.answer t a ans) s') (hans : ans.Serves) :
    (stranded s).card < s.conf.poolSize := by
  have hsub : (stranded s).card ≤ s.usedConnections.card :=
    Finset.card_le_card fun id hid => (mem_stranded.mp hid).1
  have hsize := h.inv.size
  cases hstep with
  | answer hexit hfree hbegin hget =>
    rcases getConn_cases hget with ⟨conn, hpos, -, -, -⟩ | ⟨-, hroom, -⟩ | ⟨-, hroom, -⟩ |
      ⟨-, hroom, -⟩ | ⟨-, -, rfl, -⟩
    · omega
    · unfold State.total at hroom
      omega
    · unfold State.total at hroom
      omega
    · unfold State.total at hroom
      omega
    · rcases hans with hans | hans <;> cases hans

/-- With an idle connection, or with room for one, any thread is served at once. -/
theorem serves_now {s : State} (h : Reached s) (t : Thread)
    (hroom : s.idleConnections.card > 0 ∨ s.total < s.conf.poolSize) :
    ∃ a ans s', Step s (.answer t a ans) s' ∧ ans.Serves := by
  obtain ⟨a, hfree⟩ := h.shape.room
  have hexit : ¬ MustWait s (round s t) := by
    intro hwait
    rcases hroom with hroom | hroom
    · exact absurd hwait.2.1 (by omega)
    · exact absurd hwait.2.2 (by omega)
  by_cases hidle : s.idleConnections.card > 0
  · obtain ⟨connId, hmem⟩ := Finset.card_pos.mp hidle
    obtain ⟨conn, hconn⟩ := Option.isSome_iff_exists.mp ((h.inv.keys connId).mpr hmem)
    obtain ⟨s', hget⟩ : ∃ s', getConn s a connId (.accepted true) = some (.reused, s') := by
      rw [getConn, if_pos hidle, hconn]
      exact ⟨_, rfl⟩
    exact ⟨a, .reused, _, .answer hexit (hfree a (Nat.le_refl _)) (fun _ => hmem) hget, .inr rfl⟩
  · have htotal : s.total < s.conf.poolSize := hroom.resolve_left hidle
    have htest : testFails s (.accepted true) = false := by simp [testFails]
    obtain ⟨s', hget⟩ : ∃ s', getConn s a 0 (.accepted true) = some (.created, s') := by
      simp only [getConn, hidle, if_false, htotal, if_true, newConnection, SqlConn.isOpen,
        Option.isSome_some, Bool.not_true, Bool.false_eq_true, htest]
      exact ⟨_, rfl⟩
    exact ⟨a, .created, _, .answer hexit (hfree a (Nat.le_refl _))
      (fun hpos => absurd hpos hidle) hget, .inl rfl⟩

theorem exists_dropped : ∃ s, Execution Step (init ⟨1, 5, true⟩)
    [.answer 0 0 .created, .destroy 0] s ∧ Stranded s 1 := by
  refine ⟨_, .cons
    (@Step.answer _ _ 0 0 0 (.accepted true) .created (by decide) rfl (by decide) rfl)
    (.cons (.destroy rfl) (.nil _)), Finset.mem_insert_self _ _, fun a conn ha => ?_⟩
  rcases objs_setObj ha with ⟨-, heq⟩ | hold
  · cases heq
  · rcases objs_setObj hold with ⟨rfl, -⟩ | hinit
    · simp [State.setObj] at ha
    · cases hinit

theorem round_step {s s' : State} {l : Label} (hstep : Step s l s') (t : Thread) :
    (l = .wait t ∧ round s' t = round s t + 1 ∧ round s t < s.conf.maxRetry) ∨
    (∃ a ans, l = .answer t a ans ∧ round s' t = 0) ∨
    (l ≠ .wait t ∧ round s' t = round s t) := by
  have hrelease (a : Addr) (conn : SqlConn) : round (releaseConn s a conn) t = round s t := by
    unfold Pool.releaseConn
    split <;> rfl
  cases hstep with
  | @wait u hwait =>
    by_cases hu : t = u
    · subst hu
      exact .inl ⟨rfl, by simp [round, State.setWaiting], hwait.1⟩
    · refine .inr (.inr ⟨fun heq => hu (Label.wait.inj heq).symm, ?_⟩)
      simp [round, State.setWaiting, hu]
  | @answer s' u a connId outcome ans hexit hfree hbegin hget =>
    by_cases hu : t = u
    · subst hu
      exact .inr (.inl ⟨a, ans, rfl, by simp [round, State.setWaiting]⟩)
    · refine .inr (.inr ⟨Label.noConfusion, ?_⟩)
      have hsame : s'.waiting = s.waiting := by
        rcases getConn_cases hget with ⟨conn, -, -, -, rfl⟩ | ⟨-, -, error, -, rfl⟩ |
          ⟨-, -, error, -, rfl⟩ | ⟨-, -, -, rfl⟩ | ⟨-, -, -, rfl⟩ <;> rfl
      simp [round, State.setWaiting, hu, hsame]
  | @close a conn ha =>
    refine .inr (.inr ⟨Label.noConfusion, ?_⟩)
    unfold Pool.close
    split
    · exact hrelease a conn
    · rfl
  | @release a conn ha => exact .inr (.inr ⟨Label.noConfusion, hrelease a conn⟩)
  | _ => exact .inr (.inr ⟨Label.noConfusion, rfl⟩)

/-- The round a thread is in is one of the loop. -/
def Within (conf : Settings) (t : Thread) (s : State) : Prop :=
  s.conf = conf ∧ round s t ≤ conf.maxRetry

theorem within_step {conf : Settings} {t : Thread} (s : State) (l : Label) (s' : State)
    (h : Within conf t s) (hstep : Step s l s') : Within conf t s' := by
  obtain ⟨hconf, hle⟩ := h
  refine ⟨(conf_step hstep).trans hconf, ?_⟩
  rcases round_step hstep t with ⟨-, hround, hlt⟩ | ⟨a, ans, -, hround⟩ | ⟨-, hround⟩
  · rw [hconf] at hlt
    omega
  · omega
  · omega

theorem round_execution {s s' : State} {ms : List Label} (h : Execution Step s ms s') {t : Thread}
    (hno : ∀ a ans, .answer t a ans ∉ ms) : round s' t = round s t + ms.count (.wait t) := by
  induction h with
  | nil => rfl
  | cons head tail ih =>
    have hrest := ih fun a ans hmem => hno a ans (List.mem_cons_of_mem _ hmem)
    rcases round_step head t with ⟨rfl, hround, -⟩ | ⟨a, ans, rfl, -⟩ | ⟨hne, hround⟩
    · rw [hrest, hround, List.count_cons_self]
      omega
    · exact absurd List.mem_cons_self (hno a ans)
    · rw [hrest, hround, List.count_cons_of_ne hne]

/-- Behind its loop `getConn` answers, whatever comes of connecting. -/
theorem answers_now {s : State} (h : Reached s) {t : Thread} (hexit : ¬ MustWait s (round s t))
    (outcome : Connecting) : ∃ a ans s', Step s (.answer t a ans) s' := by
  obtain ⟨a, hroom⟩ := h.shape.room
  have hfree := hroom a (Nat.le_refl _)
  by_cases hidle : s.idleConnections.card > 0
  · obtain ⟨connId, hmem⟩ := Finset.card_pos.mp hidle
    obtain ⟨conn, hconn⟩ := Option.isSome_iff_exists.mp ((h.inv.keys connId).mpr hmem)
    obtain ⟨s', hget⟩ : ∃ s', getConn s a connId outcome = some (.reused, s') := by
      rw [getConn, if_pos hidle, hconn]
      exact ⟨_, rfl⟩
    exact ⟨a, .reused, _, .answer hexit hfree (fun _ => hmem) hget⟩
  · obtain ⟨ans, s', hget⟩ : ∃ ans s', getConn s a 0 outcome = some (ans, s') := by
      rw [getConn, if_neg hidle]
      split
      · simp only []
        split
        · exact ⟨_, _, rfl⟩
        · split
          · exact ⟨_, _, rfl⟩
          · exact ⟨_, _, rfl⟩
      · exact ⟨_, _, rfl⟩
    exact ⟨a, ans, _, .answer hexit hfree (fun hpos => absurd hpos hidle) hget⟩

/-- Whatever the other threads do, a thread in `getConn` waits at most `maxRetry` times
before it answers, and it is never stuck. -/
theorem waits_bounded {conf : Settings} {s s' : State} {ls ms : List Label}
    (h : Execution Step (init conf) ls s) (hrun : Execution Step s ms s') {t : Thread}
    (hno : ∀ a ans, .answer t a ans ∉ ms) :
    ms.count (.wait t) ≤ conf.maxRetry ∧
      ((∃ a ans s'', Step s' (.answer t a ans) s'') ∨
        (ms.count (.wait t) < conf.maxRetry ∧ ∃ s'', Step s' (.wait t) s'')) := by
  have hreached' : Reached s' := hrun.preserves reached_step (reached h)
  have hconf : s'.conf = conf := (conf_execution hrun).trans (conf_execution h)
  have hcount := round_execution hrun hno
  have hwithin : Within conf t s := h.preserves within_step ⟨rfl, Nat.zero_le _⟩
  have hle : round s' t ≤ conf.maxRetry := (hrun.preserves within_step hwithin).2
  refine ⟨by omega, ?_⟩
  by_cases hwait : MustWait s' (round s' t)
  · have hlt := hwait.1
    rw [hconf] at hlt
    exact .inr ⟨by omega, _, .wait hwait⟩
  · exact .inl (answers_now hreached' hwait (.accepted true))

/-- The pool is full, and the second thread gives up after its two rounds. -/
theorem waits_bounded_full : ∃ s s', Execution Step (init ⟨1, 2, true⟩) [.answer 0 0 .created] s ∧
    Execution Step s [.wait 1, .wait 1] s' ∧ ∃ a ans s'', Step s' (.answer 1 a ans) s'' := by
  obtain ⟨s, h, hconf, hidle, htotal, hround⟩ :
      ∃ s, Execution Step (init ⟨1, 2, true⟩) [.answer 0 0 .created] s ∧ s.conf = ⟨1, 2, true⟩ ∧
        s.idleConnections.card = 0 ∧ s.total = 1 ∧ round s 1 = 0 :=
    ⟨_, .cons (@Step.answer _ _ 0 0 0 (.accepted true) .created (by decide) rfl (by decide) rfl)
      (.nil _), rfl, rfl, rfl, rfl⟩
  have hfirst : MustWait s (round s 1) := by
    rw [MustWait, hconf, hround]
    exact ⟨by decide, hidle, htotal⟩
  have hstep : Step s (.wait 1) (s.setWaiting 1 (some (round s 1))) := .wait hfirst
  have hsecond : MustWait (s.setWaiting 1 (some (round s 1)))
      (round (s.setWaiting 1 (some (round s 1))) 1) := by
    have hround' : round (s.setWaiting 1 (some (round s 1))) 1 = 1 := by
      rw [hround]
      simp [round, State.setWaiting]
    rw [hround']
    have hsame : (s.setWaiting 1 (some (round s 1))).conf = s.conf := rfl
    exact ⟨by rw [hsame, hconf]; decide, hidle, htotal.trans (by rw [hsame, hconf])⟩
  have hrun : Execution Step s [.wait 1, .wait 1] _ :=
    .cons hstep (.cons (.wait hsecond) (.nil _))
  refine ⟨s, _, h, hrun, ?_⟩
  have hbound := (waits_bounded h hrun (t := 1) (by simp)).2
  exact hbound.resolve_right fun hwait => absurd hwait.1 (by decide)

end TinyOrm.Pool

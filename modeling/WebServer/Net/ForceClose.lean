/-
# `Net.ForceClose` — a force-close and the session it was meant for

`forceClose` and `forceCloseWithDelay` bind `forceCloseInLoop` to an object;
when it runs, it looks at the object's `state_` and closes whatever session it
finds open.  The object may by then have been closed by its peer, returned, and
handed out again: the pool hands out the object last returned.

A bound call is `Current` when the object is still in the session in which the
call was bound.  Only `getNextFreeConnection` starts a session, so nothing else
makes a bound call stale (`Keeps`); and it makes none stale if no call is bound
to the object it hands out (`Unbound`).  `no_crossing` is the law for runs that
keep to that: no force-close ever closes another session than its own.

No assumption is made about which callbacks run on which objects, so the law
covers runs in which a batch dispatches a connection that it has closed.
-/
import WebServer.Net.Own
import WebServer.Net.Run

namespace WebServer

/-- The object a call is bound to. -/
def BoundCall.conn : BoundCall → ConnId
  | .forceCloseInLoop c _ => c

namespace ForceClose

open EventLoop

/-- The calls waiting in the queue and in the timers. -/
def bound (w : EventLoop) : List BoundCall := w.pendingFunctors ++ w.timers.map Prod.snd

/-- Every force-close so far closed the session in which it was issued. -/
def NoCrossing (w : EventLoop) : Prop :=
  ∀ c issued session, .forceClosed c issued session ∈ w.log → issued = session

/-- Every bound call is of its object's present session. -/
def Current (w : EventLoop) : Prop :=
  ∀ c issued, .forceCloseInLoop c issued ∈ bound w → issued = (w.conn c).session

/-- The object `getNextFreeConnection` would hand out. -/
def handedOut (w : EventLoop) : Option ConnId :=
  w.freeTcpConnection.map fun head => (w.takeFree head).2

/-- The object that `getNextFreeConnection` hands out has no call bound to
it. -/
def Unbound (w : EventLoop) (a : Act) : Prop :=
  a.connfd.isSome → ∀ cb ∈ bound w, handedOut w ≠ some cb.conn

instance (w : EventLoop) (a : Act) : Decidable (Unbound w a) :=
  inferInstanceAs (Decidable (_ → ∀ cb ∈ bound w, handedOut w ≠ some cb.conn))

/-! ## What leaves bound calls current -/

/-- From `w` to `w'` no session starts, the calls newly bound are of the present
sessions, and no force-close is recorded. -/
structure Keeps (w w' : EventLoop) : Prop where
  session : ∀ c, (w'.conn c).session = (w.conn c).session
  bound : ∀ c g, .forceCloseInLoop c g ∈ bound w' →
    .forceCloseInLoop c g ∈ bound w ∨ g = (w.conn c).session
  log : ∀ c g s, .forceClosed c g s ∈ w'.log → .forceClosed c g s ∈ w.log

namespace Keeps

theorem refl (w : EventLoop) : Keeps w w :=
  ⟨fun _ => rfl, fun _ _ h => Or.inl h, fun _ _ _ h => h⟩

theorem trans {w w' w'' : EventLoop} (h : Keeps w w') (h' : Keeps w' w'') : Keeps w w'' where
  session := fun c => (h'.session c).trans (h.session c)
  bound := fun c g hb => by
    rcases h'.bound c g hb with hb | hg
    · exact h.bound c g hb
    · exact Or.inr (hg.trans (h.session c))
  log := fun c g s hl => h.log c g s (h'.log c g s hl)

theorem current {w w' : EventLoop} (h : Keeps w w') (hc : Current w) : Current w' := by
  intro c g hb
  rw [h.session]
  rcases h.bound c g hb with hb | hg
  · exact hc c g hb
  · exact hg

theorem noCrossing {w w' : EventLoop} (h : Keeps w w') (hn : NoCrossing w) : NoCrossing w' :=
  fun c g s hl => hn c g s (h.log c g s hl)

end Keeps

section

variable {w w' : EventLoop} {c : ConnId}

theorem keeps_modify {f : TcpConnection → TcpConnection} (hf : ∀ tc, (f tc).session = tc.session) :
    Keeps w (w.modify c f) := by
  refine ⟨?_, fun _ _ h => Or.inl h, fun _ _ _ h => h⟩
  intro d
  by_cases hd : d = c
  · subst hd; rw [conn_modify_self, hf]
  · rw [conn_modify_ne w f hd]

theorem keeps_record {e : Event} (he : ∀ c g s, e ≠ .forceClosed c g s) : Keeps w (w.record e) := by
  refine ⟨fun _ => rfl, fun _ _ h => Or.inl h, ?_⟩
  intro c g s h
  rcases List.mem_append.mp h with h | h
  · exact h
  · exact absurd (List.mem_singleton.mp h).symm (he c g s)

theorem keeps_own (h : Own c w w') : Keeps w w' := by
  have hbound : bound w' = bound w := by rw [bound, bound, h.pendingFunctors, h.timers]
  exact ⟨h.session, fun _ _ hb => Or.inl (hbound ▸ hb), fun _ _ _ hl => h.log ▸ hl⟩

theorem keeps_setState {s : StateE} : Keeps w (w.setState c s) := keeps_modify fun _ => rfl

theorem keeps_setNextTcpConn {n : Option ConnId} : Keeps w (w.setNextTcpConn c n) :=
  keeps_modify fun _ => rfl

/-- A call bound now is of the present session. -/
theorem keeps_forceClose : Keeps w (w.forceClose c) := by
  unfold forceClose
  split
  · refine keeps_setState.trans ⟨fun _ => rfl, ?_, fun _ _ _ h => h⟩
    intro d g h
    simp only [bound, queueInLoop, List.mem_append, List.mem_singleton] at h ⊢
    rcases h with (h | h) | h
    · exact Or.inl (Or.inl h)
    · cases h
      exact Or.inr (keeps_setState.session c).symm
    · exact Or.inl (Or.inr h)
  · exact Keeps.refl w

theorem keeps_forceCloseWithDelay {delay : Nat} : Keeps w (w.forceCloseWithDelay c delay) := by
  unfold forceCloseWithDelay
  split
  · refine keeps_setState.trans ⟨fun _ => rfl, ?_, fun _ _ _ h => h⟩
    intro d g h
    simp only [bound, runAfter, List.map_append, List.mem_append, List.map_cons, List.map_nil,
      List.mem_singleton] at h ⊢
    rcases h with h | h | h
    · exact Or.inl (Or.inl h)
    · exact Or.inl (Or.inr h)
    · cases h
      exact Or.inr (keeps_setState.session c).symm
  · exact Keeps.refl w

theorem keeps_updateIdleTimeList (h : w.updateIdleTimeList c = some w') : Keeps w w' := by
  rcases updateIdleTimeList_cases h with rfl | ⟨nodes, rfl⟩
  · exact Keeps.refl w'
  · have hlist : Keeps w { w with connectionTimeList := nodes } :=
      ⟨fun _ => rfl, fun _ _ h => Or.inl h, fun _ _ _ h => h⟩
    exact hlist.trans (keeps_modify fun _ => rfl)

theorem keeps_returnBackConnection (h : w.returnBackConnection c = some w') : Keeps w w' := by
  obtain ⟨-, head, nodes, rfl⟩ := returnBackConnection_cases h
  have hlinks : Keeps w ((w.setNextTcpConn c (w.conn head).nextTcpConn).setNextTcpConn head
      (some c)) := keeps_setNextTcpConn.trans keeps_setNextTcpConn
  have hrest : ∀ (v : EventLoop) l, Keeps v { v with
      activeConnections := l, connectionTimeList := nodes } := fun v _ =>
    ⟨fun _ => rfl, fun _ _ h => Or.inl h, fun _ _ _ h => h⟩
  exact hlinks.trans (hrest _ _)

theorem keeps_closeSession : Keeps w (w.closeSession c) := by
  have hclose : ∀ (v : EventLoop) fd, Keeps v (v.closeFd fd) := fun v fd =>
    ⟨fun _ => rfl, fun _ _ h => Or.inl h, fun _ _ _ h => h⟩
  have hfd : ∀ (v : EventLoop) fd, Keeps v (v.setFd c fd) := fun v fd => keeps_modify fun _ => rfl
  have hdisable : ∀ v : EventLoop, Keeps v (v.disableAll c) := fun v =>
    keeps_own (own_updateInterest fun _ => rfl)
  refine keeps_setState.trans ((hdisable _).trans ((hclose _ _).trans
    ((hfd _ _).trans (keeps_modify ?_))))
  exact fun _ => rfl

theorem keeps_removeChannel : Keeps w (w.removeChannel c) := by
  refine ⟨?_, fun _ _ h => Or.inl h, fun _ _ _ h => h⟩
  intro d
  by_cases hd : d = c
  · subst hd; rw [removeChannel, conn_modify_self]; rfl
  · rw [removeChannel, conn_modify_ne _ _ hd]; rfl

theorem keeps_handleClose (h : w.handleClose c = some w') : Keeps w w' := by
  have hrecord : Keeps w (w.record (.closed c (w.conn c).session)) :=
    keeps_record fun _ _ _ => nofun
  exact hrecord.trans (keeps_closeSession.trans
    (keeps_removeChannel.trans (keeps_returnBackConnection h)))

theorem keeps_handleRead {r : ReadResult} {wr : WriteResult}
    (h : w.handleRead c r wr = some w') : Keeps w w' := by
  cases r with
  | data first rest =>
      obtain ⟨v, hv, h⟩ := Option.map_eq_some_iff.mp h
      subst h
      have hin : Keeps w (w.modify c fun tc =>
          { tc with inputBuffer := tc.inputBuffer ++ first :: rest }) := keeps_modify fun _ => rfl
      exact hin.trans ((keeps_updateIdleTimeList hv).trans
        (keeps_own own_echoMessageCallback))
  | eof =>
      obtain ⟨v, hv, h⟩ := Option.bind_eq_some_iff.mp h
      exact (keeps_updateIdleTimeList hv).trans (keeps_handleClose h)
  | fail => exact keeps_updateIdleTimeList h

theorem keeps_visitIdle {now : Int} : Keeps w (w.visitIdle now c).1 := by
  unfold visitIdle
  dsimp only
  split
  · split
    · exact (keeps_own own_shutdown).trans keeps_forceCloseWithDelay
    · exact Keeps.refl w
  · split
    · exact keeps_modify (f := fun tc =>
        { tc with timeNode := { tc.timeNode with lastReceiveTime := now } }) fun _ => rfl
    · exact Keeps.refl w

theorem keeps_removeExpiredLoop (now : Int) (ahead : List (Position × ConnId)) :
    ∀ w : EventLoop, Keeps w (w.removeExpiredLoop now ahead) := by
  induction ahead with
  | nil => intro w; exact Keeps.refl w
  | cons e ahead ih =>
      intro w
      obtain ⟨p, c⟩ := e
      unfold removeExpiredLoop
      split
      · dsimp only
        split
        · exact keeps_visitIdle.trans (ih _)
        · exact keeps_visitIdle
      · have hlist : ∀ l, Keeps w { w with connectionTimeList := l } := fun _ =>
          ⟨fun _ => rfl, fun _ _ h => Or.inl h, fun _ _ _ h => h⟩
        exact (hlist _).trans (ih _)

theorem keeps_removeExpiredConnection : Keeps w w.removeExpiredConnection := by
  unfold removeExpiredConnection
  split
  · exact Keeps.refl w
  · exact keeps_removeExpiredLoop _ _ w

end

/-! ## Opening a session, and firing a bound call -/

section

variable {w w' : EventLoop}

/-- Handing out an object leaves the sessions of the others as they were. -/
theorem session_takeFree (w : EventLoop) (head : ConnId) {d : ConnId}
    (hd : d ≠ (w.takeFree head).2) :
    ((w.takeFree head).1.conn d).session = (w.conn d).session := by
  cases hnext : (w.conn head).nextTcpConn with
  | none =>
      simp only [takeFree, hnext] at hd ⊢
      rw [conn_allocate, if_neg hd]
  | some tc =>
      simp only [takeFree, hnext]
      rw [conn_setNextTcpConn, conn_setNextTcpConn]

/-- The bound calls, and the history. -/
def agenda (w : EventLoop) : List BoundCall × List Event := (bound w, w.log)

theorem agenda_modify (w : EventLoop) (c : ConnId) (f : TcpConnection → TcpConnection) :
    agenda (w.modify c f) = agenda w := rfl

theorem agenda_updateChannel (w : EventLoop) (c : ConnId) :
    agenda (w.updateChannel c) = agenda w := rfl

theorem agenda_insert (w : EventLoop) (c : ConnId) : agenda (w.insert c) = agenda w := by
  unfold EventLoop.insert; split <;> rfl

theorem agenda_enlist (w : EventLoop) (c : ConnId) (fd : Int) :
    agenda (w.enlist c fd) = agenda w := rfl

theorem agenda_takeFree (w : EventLoop) (head : ConnId) :
    agenda (w.takeFree head).1 = agenda w := by
  unfold takeFree; split <;> rfl

/-- Opening a session binds nothing and records nothing. -/
theorem agenda_getNextFreeConnection {fd : Int} (h : w.getNextFreeConnection fd = some w') :
    agenda w' = agenda w := by
  unfold getNextFreeConnection at h
  split at h
  · cases h
  · cases h
    rw [openSession_eq, configEvent, enableReading, updateInterest, agenda_updateChannel,
      agenda_modify, agenda_updateChannel, agenda_insert, agenda_enlist, agenda_takeFree]

/-- The session started is one of an object to which no call is bound. -/
theorem current_getNextFreeConnection {fd : Int} (hc : Current w)
    (hu : Unbound w (.call (.getNextFreeConnection fd)))
    (h : w.getNextFreeConnection fd = some w') : Current w' := by
  have hagenda := agenda_getNextFreeConnection h
  unfold getNextFreeConnection at h
  split at h
  · cases h
  · rename_i head hhead
    intro c g hb
    have hb' : .forceCloseInLoop c g ∈ bound w := by
      rw [← show bound w' = bound w from congrArg Prod.fst hagenda]
      exact hb
    have hne : c ≠ (w.takeFree head).2 := fun e => hu rfl _ hb' (by rw [handedOut, hhead, e]; rfl)
    cases h
    rw [conn_openSession_ne hne, session_takeFree w head hne]
    exact hc c g hb'

/-- A bound call that is current closes its own session. -/
theorem noCrossing_runBoundCall {c : ConnId} {g : Nat} (hn : NoCrossing w) (hc : Current w)
    (hg : g = (w.conn c).session) (h : w.runBoundCall (.forceCloseInLoop c g) = some w') :
    NoCrossing w' ∧ Current w' := by
  have h' : w.forceCloseInLoop c g = some w' := h
  unfold forceCloseInLoop at h'
  split at h'
  · have hclose := keeps_handleClose h'
    refine ⟨hclose.noCrossing ?_, hclose.current hc⟩
    intro d i s hl
    rcases List.mem_append.mp hl with hl | hl
    · exact hn d i s hl
    · cases List.mem_singleton.mp hl
      exact hg
  · cases h'
    exact ⟨hn, hc⟩

/-- Taking calls off the agenda. -/
theorem keeps_drop {fs : List BoundCall} {ts : List (Int × BoundCall)}
    (hsub : ∀ cb, cb ∈ fs ++ ts.map Prod.snd → cb ∈ bound w) :
    Keeps w { w with pendingFunctors := fs, timers := ts } :=
  ⟨fun _ => rfl, fun _ _ h => Or.inl (hsub _ h), fun _ _ _ h => h⟩

/-- A callback taken off the timers or the pending functors is run. -/
theorem step_runBoundCall {v : EventLoop} {cb : BoundCall} (hn : NoCrossing w) (hc : Current w)
    (hmem : cb ∈ bound w) (hdrop : Keeps w v) (h : v.runBoundCall cb = some w') :
    NoCrossing w' ∧ Current w' := by
  obtain ⟨c, g⟩ := cb
  have hg : g = (v.conn c).session := (hc c g hmem).trans (hdrop.session c).symm
  exact noCrossing_runBoundCall (hdrop.noCrossing hn) (hdrop.current hc) hg h

theorem step_runTimer {i : Nat} (hn : NoCrossing w) (hc : Current w)
    (h : w.runTimer i = some w') : NoCrossing w' ∧ Current w' := by
  unfold runTimer at h
  split at h
  · rename_i cb hdue
    have hmem : cb ∈ bound w := by
      unfold due at hdue
      split at hdue
      · rename_i t cb hget
        split at hdue
        · cases hdue
          exact List.mem_append_right _ (List.mem_map_of_mem (List.mem_of_getElem? hget))
        · exact absurd hdue nofun
      · exact absurd hdue nofun
    refine step_runBoundCall hn hc hmem (keeps_drop ?_) h
    intro cb hcb
    rcases List.mem_append.mp hcb with hcb | hcb
    · exact List.mem_append_left _ hcb
    · obtain ⟨e, he, rfl⟩ := List.mem_map.mp hcb
      exact List.mem_append_right _ (List.mem_map_of_mem (List.mem_of_mem_eraseIdx he))
  · cases h
    exact ⟨hn, hc⟩

theorem step_runFunctor (hn : NoCrossing w) (hc : Current w)
    (h : w.runFunctor = some w') : NoCrossing w' ∧ Current w' := by
  unfold runFunctor at h
  split at h
  · rename_i cb rest hpend
    have hmem : cb ∈ bound w := by
      refine List.mem_append_left _ ?_
      rw [hpend]
      exact List.mem_cons_self
    refine step_runBoundCall hn hc hmem (keeps_drop ?_) h
    intro cb hcb
    rcases List.mem_append.mp hcb with hcb | hcb
    · refine List.mem_append_left _ ?_
      rw [hpend]
      exact List.mem_cons_of_mem _ hcb
    · exact List.mem_append_right _ hcb
  · cases h
    exact ⟨hn, hc⟩

theorem step_call {k : Call} (hn : NoCrossing w) (hc : Current w) (hu : Unbound w (.call k))
    (h : w.call k = some w') : NoCrossing w' ∧ Current w' := by
  have hkeep : ∀ {v}, Keeps w v → some v = some w' → NoCrossing w' ∧ Current w' := by
    intro v hv hvw
    cases hvw
    exact ⟨hv.noCrossing hn, hv.current hc⟩
  cases k with
  | getNextFreeConnection fd =>
      refine ⟨?_, current_getNextFreeConnection hc hu h⟩
      have hlog : w'.log = w.log := congrArg Prod.snd (agenda_getNextFreeConnection h)
      intro c g s hl
      exact hn c g s (hlog ▸ hl)
  | send c data wr => exact hkeep (keeps_own own_send) h
  | shutdown c => exact hkeep (keeps_own own_shutdown) h
  | forceClose c => exact hkeep keeps_forceClose h
  | forceCloseWithDelay c delay => exact hkeep keeps_forceCloseWithDelay h
  | removeExpiredConnection => exact hkeep keeps_removeExpiredConnection h
  | runTimer i => exact step_runTimer hn hc h
  | runFunctor => exact step_runFunctor hn hc h

theorem step_act {a : Act} (hn : NoCrossing w) (hc : Current w) (hu : Unbound w a)
    (h : w.act a = some w') : NoCrossing w' ∧ Current w' := by
  have hkeep : Keeps w w' → NoCrossing w' ∧ Current w' := fun hv =>
    ⟨hv.noCrossing hn, hv.current hc⟩
  have hrecord : ∀ kind c, Keeps w (w.record (.callback kind c)) := fun _ _ =>
    keeps_record fun _ _ _ => nofun
  cases a with
  | tick dt =>
      cases h
      exact hkeep ⟨fun _ => rfl, fun _ _ h => Or.inl h, fun _ _ _ h => h⟩
  | call k => exact step_call hn hc hu h
  | handleRead c r wr => exact hkeep ((hrecord _ _).trans (keeps_handleRead h))
  | handleWrite c wr =>
      cases h
      exact hkeep ((hrecord _ _).trans (keeps_own own_handleWrite))
  | handleClose c => exact hkeep ((hrecord _ _).trans (keeps_handleClose h))

end

/-- In every run in which no session is started on an object that still has a
force-close bound to it, every force-close closes the session in which it was
issued. -/
theorem no_crossing (idleSeconds now epollFd timerFd wakeupFd : Int) {acts : List Act}
    (hacts : Machine.Meets act Unbound (start idleSeconds now epollFd timerFd wakeupFd) acts) :
    Machine.Throughout act NoCrossing (start idleSeconds now epollFd timerFd wakeupFd) acts := by
  have hstarted := started_start idleSeconds now epollFd timerFd wakeupFd
  have hnone : NoCrossing (start idleSeconds now epollFd timerFd wakeupFd) := by
    rw [NoCrossing, hstarted.log]
    exact fun c g s hl => absurd hl List.not_mem_nil
  have hcur : Current (start idleSeconds now epollFd timerFd wakeupFd) := by
    rw [Current, bound, hstarted.pendingFunctors, hstarted.timers]
    exact fun c g hb => absurd hb List.not_mem_nil
  have hboth := Machine.throughout_of_meets (I := fun w => NoCrossing w ∧ Current w)
    (fun w a w' hI hu h => step_act hI.1 hI.2 hu h) hacts ⟨hnone, hcur⟩
  exact hboth.mono fun w hI => hI.1

/-- A session that a timer closes; then its object is handed out again. -/
theorem no_crossing_reuse : Machine.Throughout act NoCrossing (start 1 0 3 4 5)
    [.call (.getNextFreeConnection 7), .call (.forceCloseWithDelay 1 3500000), .tick 3500000,
      .call (.runTimer 0), .call (.getNextFreeConnection 7)] :=
  no_crossing 1 0 3 4 5 (by decide +kernel)

/-- An idle session is to be closed in 3.5 s; its peer closes it first, and the
object is handed out again before the timer fires. -/
theorem no_crossing_fails : ¬ ∀ (acts : List Act) (w : EventLoop),
    Machine.exec act (start 1 0 3 4 5) acts = some w → NoCrossing w := by
  intro hall
  have h := hall [.call (.getNextFreeConnection 7), .tick 2000000, .call .removeExpiredConnection,
    .handleRead 1 .eof (.wrote 0), .call (.getNextFreeConnection 7), .tick 3500000,
    .call (.runTimer 0)] _ (Option.some_get (by decide +kernel)).symm
  have hcross : (1 : Nat) = 2 := h 1 1 2 (by decide +kernel)
  exact absurd hcross (by decide)

end ForceClose

end WebServer

/-
# `Net.Idle` — what the scan for idle connections leaves behind

`removeExpiredConnection` walks the idle list from its oldest entry and stops at
the first that has not expired.  An expired connection that is `connected()` is
shut down and gets a timer that will force it closed; one that is not is passed
over.  `shutdown()` and `forceClose()` leave a connection in `KDisconnecting`
without such a timer, so one that has expired since is passed over by every
scan: it is `Adrift`.

`removeExpiredConnection_eq` says what a scan does: it expels the connections of
the list that are connected and have expired, all of them, although it stops
early.  That rests on the order of the list: the entries stand by the time they
were last heard of, none of it in the future (`InOrder`).  `closing_iff` is the
law for whole runs: every scan leaves a pending timer for each expired
connection exactly when no scan meets one that is adrift.
-/
import WebServer.Net.Batch
import WebServer.Net.ForceClose
import WebServer.Net.PoolCalls
import WebServer.Lib.OrderedSet

namespace WebServer

namespace Idle

open EventLoop Batch

structure State where
  loop : EventLoop
  /-- the last act was the scan -/
  scanned : Bool

/-- An act of the loop's thread, on descriptors that the kernel has granted. -/
def step (s : State) (a : Act) : Option State :=
  if Granted s.loop a then
    (s.loop.act a).map fun w => ⟨w, a = .call .removeExpiredConnection⟩
  else none

/-- A loop that has built its pool. -/
def start (idleSeconds now epollFd timerFd wakeupFd : Int) : State :=
  ⟨EventLoop.start idleSeconds now epollFd timerFd wakeupFd, false⟩

/-- When connection `c` was last heard of. -/
def lastReceiveTime (w : EventLoop) (c : ConnId) : Int := (w.conn c).timeNode.lastReceiveTime

/-- More than `idleSeconds_` have passed since. -/
def Expired (w : EventLoop) (c : ConnId) : Prop :=
  w.idleSeconds * kMicroSecondsPerSecond < w.now - lastReceiveTime w c

/-- A `forceCloseInLoop` of the connection waits in the timer queue. -/
def Scheduled (w : EventLoop) (c : ConnId) : Prop := ∃ tm ∈ w.timers, tm.2.conn = c

/-- Right after a scan every expired connection of the list is to be closed by
a timer. -/
def Closing (s : State) : Prop :=
  s.scanned = true → ∀ e ∈ s.loop.connectionTimeList, Expired s.loop e.2 → Scheduled s.loop e.2

/-- Expired, half closed, and no timer is going to close it. -/
def Adrift (w : EventLoop) (c : ConnId) : Prop :=
  Expired w c ∧ (w.conn c).state = .kDisconnecting ∧ ¬ Scheduled w c

/-- If the act is a scan, it meets no connection that is adrift. -/
def NoneAdrift (s : State) (a : Act) : Prop :=
  a = .call .removeExpiredConnection → ∀ e ∈ s.loop.connectionTimeList, ¬ Adrift s.loop e.2

instance (w : EventLoop) (c : ConnId) : Decidable (Expired w c) :=
  inferInstanceAs (Decidable (_ < _))

instance (w : EventLoop) (c : ConnId) : Decidable (Scheduled w c) :=
  inferInstanceAs (Decidable (∃ tm ∈ w.timers, tm.2.conn = c))

instance (w : EventLoop) (c : ConnId) : Decidable (Adrift w c) :=
  inferInstanceAs (Decidable (_ ∧ _ ∧ ¬ _))

instance (s : State) (a : Act) : Decidable (NoneAdrift s a) :=
  inferInstanceAs (Decidable (_ → ∀ e ∈ s.loop.connectionTimeList, ¬ Adrift s.loop e.2))

/-! ## What leaves the list and its times alone -/

structure Still (w w' : EventLoop) : Prop where
  now : w'.now = w.now
  list : w'.connectionTimeList = w.connectionTimeList
  node : ∀ c, (w'.conn c).timeNode = (w.conn c).timeNode

namespace Still

theorem refl (w : EventLoop) : Still w w := ⟨rfl, rfl, fun _ => rfl⟩

theorem trans {w w' w'' : EventLoop} (h : Still w w') (h' : Still w' w'') : Still w w'' where
  now := h'.now.trans h.now
  list := h'.list.trans h.list
  node := fun c => (h'.node c).trans (h.node c)

theorem lastReceiveTime {w w' : EventLoop} (h : Still w w') (c : ConnId) :
    lastReceiveTime w' c = lastReceiveTime w c :=
  congrArg TimeNode.lastReceiveTime (h.node c)

end Still

section

variable {w w' : EventLoop} {c : ConnId}

theorem still_own (h : Own c w w') : Still w w' := ⟨h.now, h.list, h.node⟩

theorem still_forceClose : Still w (w.forceClose c) := by
  unfold forceClose
  split
  · exact (still_own own_setState).trans ⟨rfl, rfl, fun _ => rfl⟩
  · exact Still.refl w

theorem still_forceCloseWithDelay {delay : Nat} : Still w (w.forceCloseWithDelay c delay) := by
  unfold forceCloseWithDelay
  split
  · exact (still_own own_setState).trans ⟨rfl, rfl, fun _ => rfl⟩
  · exact Still.refl w

end

/-! ## The order of the list -/

/-- The entries stand by the time they were last heard of, none of it in the
future. -/
structure InOrder (w : EventLoop) : Prop where
  sorted : w.connectionTimeList.Pairwise fun e f =>
    lastReceiveTime w e.2 ≤ lastReceiveTime w f.2
  heard : ∀ e ∈ w.connectionTimeList, lastReceiveTime w e.2 ≤ w.now

/-- The list is in the order in which the connections were last heard of, and a
connection no longer active names no node of it. -/
structure Clocked (w : EventLoop) : Prop extends InOrder w where
  idle : 0 < w.idleSeconds
  sound : w.Sound
  retired : ∀ c, c ∉ w.activeConnections → ∀ p, (w.conn c).timeNode.position = some p →
    p < w.nextPosition ∧ ∀ e ∈ w.connectionTimeList, e.1 ≠ p

section

variable {w w' : EventLoop} {c : ConnId}

namespace InOrder

/-- Entries go, time passes. -/
theorem sublist (h : InOrder w) (hlist : w'.connectionTimeList.Sublist w.connectionTimeList)
    (hsame : ∀ d, lastReceiveTime w' d = lastReceiveTime w d) (hnow : w.now ≤ w'.now) :
    InOrder w' := by
  constructor
  · simp only [hsame]
    exact h.sorted.sublist hlist
  · intro e he
    rw [hsame]
    exact Int.le_trans (h.heard e (hlist.subset he)) hnow

theorem still (h : InOrder w) (hs : Still w w') : InOrder w' :=
  h.sublist (hs.list ▸ List.Sublist.refl _) hs.lastReceiveTime (Int.le_of_eq hs.now.symm)

/-- Some of the entries at the same times, and one more at the tail that was
heard of just now. -/
theorem snoc {l : List (Position × ConnId)} {p : Position} (h : InOrder w)
    (hl : l.Sublist w.connectionTimeList) (hlist : w'.connectionTimeList = l ++ [(p, c)])
    (hsame : ∀ e ∈ l, lastReceiveTime w' e.2 = lastReceiveTime w e.2)
    (hself : lastReceiveTime w' c = w.now) (hnow : w'.now = w.now) : InOrder w' := by
  have hheard : ∀ e ∈ l, lastReceiveTime w' e.2 ≤ w.now := by
    intro e he
    rw [hsame e he]
    exact h.heard e (hl.subset he)
  constructor
  · rw [hlist]
    refine List.pairwise_append.mpr ⟨?_, List.pairwise_singleton _ _, ?_⟩
    · refine (h.sorted.sublist hl).imp_of_mem ?_
      intro e f he hf hle
      rw [hsame e he, hsame f hf]
      exact hle
    · intro e he f hf
      rw [List.mem_singleton.mp hf, hself]
      exact hheard e he
  · intro e he
    rw [hnow]
    rw [hlist] at he
    rcases List.mem_append.mp he with he | he
    · exact hheard e he
    · rw [List.mem_singleton.mp he]
      exact Int.le_of_eq hself

end InOrder

/-- The nodes but one are those of the other connections. -/
theorem mem_otherNodes (ht : w.Timed) (hc : c ∈ w.activeConnections) {e : Position × ConnId} :
    e ∈ w.otherNodes (w.conn c).timeNode.position ↔ e ∈ w.connectionTimeList ∧ e.2 ≠ c := by
  obtain ⟨p, hp, hmem⟩ := ht.entry c hc
  have hiff : e ∈ w.otherNodes (w.conn c).timeNode.position ↔
      e ∈ w.connectionTimeList ∧ e.1 ≠ p := by
    rw [hp, otherNodes, List.mem_filter]
    simp
  rw [hiff]
  refine and_congr_right fun he => not_congr ⟨?_, ?_⟩
  · intro hep
    exact congrArg Prod.snd (List.inj_on_of_nodup_map ht.nodes he hmem hep)
  · intro hec
    have hpos := (ht.owner e he).2
    rw [hec, hp] at hpos
    exact (Option.some.inj hpos).symm

/-- The connection that was heard of just now goes to the tail. -/
theorem inOrder_touch {p : Position} (h : InOrder w) (ht : w.Timed)
    (hp : (w.conn c).timeNode.position = some p) (hc : c ∈ w.activeConnections) :
    InOrder (w.touch p c) := by
  have hother : ∀ e ∈ w.otherNodes (some p), e.2 ≠ c := fun e he =>
    ((mem_otherNodes ht hc).mp (hp ▸ he)).2
  refine h.snoc (p := p) (c := c) (l := w.otherNodes (some p)) List.filter_sublist rfl ?_ ?_ rfl
  · intro e he
    rw [lastReceiveTime, touch, conn_modify_ne _ _ (hother e he)]
    rfl
  · rw [lastReceiveTime, touch, conn_modify_self]

theorem inOrder_issued (h : InOrder w) (hidle : 0 < w.idleSeconds) (ht : w.Timed)
    (hi : PoolCalls.Issued w c w') : InOrder w' := by
  refine h.snoc (List.Sublist.refl _) (hi.list hidle) ?_ ?_ hi.now
  · intro e he
    exact congrArg TimeNode.lastReceiveTime (hi.same _ (ht.owner e he).1)
  · exact congrArg TimeNode.lastReceiveTime (hi.self hidle)

namespace Clocked

theorem timed (h : Clocked w) : w.Timed := h.sound.timed h.idle

theorem quiet (h : Clocked w) (hq : Quiet w w') (ho : InOrder w') : Clocked w' where
  toInOrder := ho
  idle := hq.idleSeconds ▸ h.idle
  sound := h.sound.quiet hq
  retired := fun c hc p hp => by
    have hc' : c ∉ w.activeConnections := hq.active ▸ hc
    rw [hq.rest c hc'] at hp
    obtain ⟨hlt, hne⟩ := h.retired c hc' p hp
    exact ⟨hq.nextPosition ▸ hlt, fun e he => hne e (hq.list.mem_iff.mp he)⟩

theorem still (h : Clocked w) (hq : Quiet w w') (hs : Still w w') : Clocked w' :=
  h.quiet hq (h.toInOrder.still hs)

theorem record (h : Clocked w) {e : Event} (he : closedSessions [e] = []) :
    Clocked (w.record e) :=
  ⟨⟨h.sorted, h.heard⟩, h.idle, h.sound.record he, h.retired⟩

/-- Hearing of an active connection puts its entry at the tail. -/
theorem updateIdleTimeList (h : Clocked w) (hc : c ∈ w.activeConnections) :
    ∃ w', w.updateIdleTimeList c = some w' ∧ Quiet w w' ∧ Clocked w' := by
  obtain ⟨p, hp, hmem, heq⟩ := updateIdleTimeList_eq h.idle h.timed hc
  have hq : Quiet w (w.touch p c) := quiet_touch h.timed hmem
  exact ⟨w.touch p c, heq, hq, h.quiet hq (inOrder_touch h.toInOrder h.timed hp hc)⟩

/-- A stale position names no node. -/
theorem nodeAt_retired (h : Clocked w) (hc : c ∉ w.activeConnections) :
    w.nodeAt (w.conn c).timeNode.position = none := by
  refine List.find?_eq_none.mpr ?_
  intro e he heq
  exact (h.retired c hc e.1 (of_decide_eq_true heq).symm).2 e he rfl

theorem closed (h : Clocked w) (hc : c ∈ w.activeConnections) (hcl : Closed w c w')
    (hnow : w'.now = w.now) : Clocked w' := by
  have hlist := hcl.list h.idle
  have hnode : ∀ d, (w'.conn d).timeNode = (w.conn d).timeNode := by
    intro d
    by_cases hdc : d = c
    · obtain ⟨n, hn⟩ := hcl.self
      rw [hdc, hn]
      rfl
    · exact (hcl.same hdc).2.2.1
  have ho : InOrder w' := by
    refine h.toInOrder.sublist (hlist ▸ List.filter_sublist) ?_ (Int.le_of_eq hnow.symm)
    intro d
    exact congrArg TimeNode.lastReceiveTime (hnode d)
  have hsub : ∀ e ∈ w'.connectionTimeList, e ∈ w.connectionTimeList ∧ e.2 ≠ c := fun e he =>
    (mem_otherNodes h.timed hc).mp (hlist ▸ he)
  refine ⟨ho, hcl.idleSeconds ▸ h.idle, hcl.sound h.sound hc, ?_⟩
  intro d hd p hp
  rw [hnode] at hp
  rw [hcl.nextPosition]
  by_cases hdc : d = c
  · obtain ⟨q, hq, hmem⟩ := h.timed.entry c hc
    rw [hdc, hq] at hp
    cases hp
    refine ⟨h.timed.fresh _ hmem, ?_⟩
    intro e he hep
    obtain ⟨hemem, hec⟩ := hsub e he
    exact hec (congrArg Prod.snd (List.inj_on_of_nodup_map h.timed.nodes hemem hmem hep))
  · have hd' : d ∉ w.activeConnections := fun hact =>
      hd ((hcl.mem_active h.sound).mpr ⟨hdc, hact⟩)
    obtain ⟨hlt, hne⟩ := h.retired d hd' p hp
    exact ⟨hlt, fun e he => hne e (hsub e he).1⟩

theorem opened (h : Clocked w) {fd : Int} (hfd : 0 ≤ fd) (hnew : fd ∉ w.openFds)
    (ho : Opened w c fd w') (hi : PoolCalls.Issued w c w') : Clocked w' := by
  have hlist := ho.list h.idle
  have hord := inOrder_issued h.toInOrder h.idle h.timed hi
  refine ⟨hord, ho.idleSeconds ▸ h.idle, ho.sound h.sound hfd hnew, ?_⟩
  intro d hd p hp
  have hdc : d ≠ c := fun e => hd (ho.mem_active.mpr (Or.inr e))
  have hd' : d ∉ w.activeConnections := fun hact => hd (ho.mem_active.mpr (Or.inl hact))
  rw [(ho.same hdc).2.2.1] at hp
  obtain ⟨hlt, hne⟩ := h.retired d hd' p hp
  rw [ho.nextPosition h.idle, hlist]
  refine ⟨Nat.lt_succ_of_lt hlt, ?_⟩
  intro e he
  rcases List.mem_append.mp he with he | he
  · exact hne e he
  · rw [List.mem_singleton.mp he]
    exact hlt.ne'

end Clocked

/-! ## Every act keeps the order -/

theorem now_returnBackConnection (h : w.returnBackConnection c = some w') : w'.now = w.now := by
  obtain ⟨-, head, nodes, rfl⟩ := returnBackConnection_cases h
  rfl

theorem now_vacate (w : EventLoop) (c : ConnId) : (w.vacate c).now = w.now := by
  have hall : ∀ (v : EventLoop) f, (v.updateInterest c f).now = v.now := fun _ _ => rfl
  have hrm : ∀ v : EventLoop, (v.removeChannel c).now = v.now := fun _ => rfl
  have hmod : ∀ (v : EventLoop) f, (v.modify c f).now = v.now := fun _ _ => rfl
  have hfd : ∀ (v : EventLoop) fd, (v.closeFd fd).now = v.now := fun _ _ => rfl
  rw [vacate, closeSession, hrm, hmod, setFd, hmod, hfd, disableAll, hall, setState, hmod]
  rfl

theorem clocked_handleClose (h : Clocked w) (hw' : w.handleClose c = some w') : Clocked w' := by
  obtain ⟨hact, hcl⟩ := closed_of_handleClose h.sound hw'
  rw [handleClose_eq] at hw'
  exact h.closed hact hcl ((now_returnBackConnection hw').trans (now_vacate w c))

theorem clocked_forceCloseInLoop {g : Nat} (h : Clocked w)
    (hw' : w.forceCloseInLoop c g = some w') : Clocked w' := by
  unfold forceCloseInLoop at hw'
  split at hw'
  · exact clocked_handleClose (h.record rfl) hw'
  · cases hw'
    exact h

/-- Only an active connection can be heard of. -/
theorem nodeAt_of_updateIdleTimeList (hidle : 0 < w.idleSeconds)
    (h : w.updateIdleTimeList c = some w') : w.nodeAt (w.conn c).timeNode.position ≠ none := by
  intro hnone
  rw [updateIdleTimeList, if_neg (Int.not_le.mpr hidle)] at h
  simp only [hnone] at h
  cases h

theorem clocked_updateIdleTimeList (h : Clocked w) (hc : c ∈ w.activeConnections)
    (hw' : w.updateIdleTimeList c = some w') : Clocked w' := by
  obtain ⟨v, hv, -, hcl⟩ := h.updateIdleTimeList hc
  rw [hw'] at hv
  cases hv
  exact hcl

theorem clocked_handleRead {r : ReadResult} {wr : WriteResult} (h : Clocked w)
    (hw' : w.handleRead c r wr = some w') : Clocked w' := by
  have hact : w.nodeAt (w.conn c).timeNode.position ≠ none → c ∈ w.activeConnections := by
    intro hat
    by_contra hc
    exact hat (h.nodeAt_retired hc)
  cases r with
  | data first rest =>
      obtain ⟨v, hv, hvw⟩ := Option.map_eq_some_iff.mp hw'
      cases hvw
      have hin : Own c w (w.modify c fun tc =>
          { tc with inputBuffer := tc.inputBuffer ++ first :: rest }) := own_modify rfl
      have hat := nodeAt_of_updateIdleTimeList (hin.idleSeconds ▸ h.idle) hv
      rw [hin.node] at hat
      have hc := hact hat
      have hq := quiet_modify (f := fun tc =>
        { tc with inputBuffer := tc.inputBuffer ++ first :: rest }) hc rfl
      have hcl := clocked_updateIdleTimeList (h.still hq (still_own hin)) hc hv
      exact hcl.still (quiet_echoMessageCallback hcl.sound wr) (still_own own_echoMessageCallback)
  | eof =>
      obtain ⟨v, hv, hvw⟩ := Option.bind_eq_some_iff.mp hw'
      have hc := hact (nodeAt_of_updateIdleTimeList h.idle hv)
      exact clocked_handleClose (clocked_updateIdleTimeList h hc hv) hvw
  | fail =>
      have hc := hact (nodeAt_of_updateIdleTimeList h.idle hw')
      exact clocked_updateIdleTimeList h hc hw'

theorem clocked_getNextFreeConnection {fd : Int} (h : Clocked w) (hfd : 0 ≤ fd)
    (hnew : fd ∉ w.openFds) (hw' : w.getNextFreeConnection fd = some w') : Clocked w' := by
  obtain ⟨c, v, hv, ho⟩ := getNextFreeConnection_opened h.sound hfd hnew
  cases hw'.symm.trans hv
  obtain ⟨head, chain, hhead, hpool⟩ := h.sound.pool
  obtain ⟨d, u, hu, -, hi, -⟩ := PoolCalls.issued_getNextFreeConnection hhead hpool fd
  cases hw'.symm.trans hu
  -- one object was issued
  have hcd : c = d := by
    have hact := hi.active
    rw [ho.active] at hact
    exact List.singleton_inj.mp (List.append_cancel_left hact)
  exact h.opened hfd hnew ho (hcd ▸ hi)

/-! ## The scan -/

/-- `shutdown()` and `forceCloseWithDelay(3.5)`. -/
def expel (w : EventLoop) (c : ConnId) : EventLoop :=
  (w.shutdown c).forceCloseWithDelay c 3500000

/-- A connected connection after `shutdown()`. -/
def halfClosed (tc : TcpConnection) : TcpConnection :=
  { tc with
    state := .kDisconnecting
    socket := if tc.channel.isWriting then tc.socket
      else { tc.socket with shutWr := tc.socket.shutWr + 1 } }

/-- The connections of the list that are connected and have expired, in order. -/
def toExpel (w : EventLoop) : List ConnId :=
  (w.connectionTimeList.map Prod.snd).filter fun c =>
    decide (Expired w c) && (w.conn c).connected

/-- The connections `cs` were half closed and are to be closed in 3.5 s, and
nothing else was done. -/
structure Expelled (w w' : EventLoop) (cs : List ConnId) : Prop where
  frame : { w' with heap := w.heap, timers := w.timers } = w
  timers : w'.timers = w.timers ++
    cs.map fun c => (w.now + 3500000, .forceCloseInLoop c (w.conn c).session)
  down : ∀ c ∈ cs, w'.conn c = halfClosed (w.conn c)
  rest : ∀ c ∉ cs, w'.conn c = w.conn c

theorem Expelled.idleSeconds {cs : List ConnId} (h : Expelled w w' cs) :
    w'.idleSeconds = w.idleSeconds :=
  (congrArg EventLoop.idleSeconds h.frame :)

theorem shutdown_frame (w : EventLoop) (c : ConnId) : { w.shutdown c with heap := w.heap } = w := by
  unfold EventLoop.shutdown
  split
  · unfold shutdownInLoop
    split <;> rfl
  · rfl

theorem conn_shutdown (hconn : (w.conn c).connected = true) :
    (w.shutdown c).conn c = halfClosed (w.conn c) := by
  have hset : (w.setState c .kDisconnecting).conn c
      = { w.conn c with state := .kDisconnecting } := by
    rw [setState, conn_modify_self]
  rw [EventLoop.shutdown, if_pos hconn, shutdownInLoop, hset, halfClosed]
  split
  · exact hset
  · rw [conn_modify_self, hset]

theorem expel_connected (hconn : (w.conn c).connected = true) :
    Still w (expel w c) ∧ Expelled w (expel w c) [c] := by
  have hdown : Own c w (w.shutdown c) := own_shutdown
  have hset : Own c w ((w.shutdown c).setState c .kDisconnecting) := hdown.trans own_setState
  have hself := conn_shutdown hconn
  have hopen : ((w.shutdown c).conn c).isOpen = true := by
    rw [hself]
    rfl
  refine ⟨(still_own hdown).trans still_forceCloseWithDelay, ?_⟩
  rw [expel, forceCloseWithDelay, if_pos hopen]
  constructor
  · exact congrArg (fun v : EventLoop => { v with timers := w.timers }) (shutdown_frame w c)
  · rw [runAfter, hset.timers, hset.now, hdown.session]
    rfl
  · intro d hd
    rw [List.mem_singleton.mp hd]
    show ((w.shutdown c).setState c .kDisconnecting).conn c = _
    rw [setState, conn_modify_self, hself]
    rfl
  · intro d hd
    exact hset.others d fun hdc => hd (List.mem_singleton.mpr hdc)

theorem expel_foldl (cs : List ConnId) : ∀ {w : EventLoop}, cs.Nodup →
    (∀ c ∈ cs, (w.conn c).connected = true) →
    Still w (cs.foldl expel w) ∧ Expelled w (cs.foldl expel w) cs := by
  induction cs with
  | nil =>
      intro w _ _
      exact ⟨Still.refl w, rfl, (List.append_nil _).symm, fun _ hc => absurd hc List.not_mem_nil,
        fun _ _ => rfl⟩
  | cons c cs ih =>
      intro w hnd hconn
      obtain ⟨hc, hnd⟩ := List.nodup_cons.mp hnd
      obtain ⟨hst, hex⟩ := expel_connected (hconn c List.mem_cons_self)
      have hsame : ∀ d ∈ cs, (expel w c).conn d = w.conn d := by
        intro d hd
        exact hex.rest d fun hdc => hc (List.mem_singleton.mp hdc ▸ hd)
      obtain ⟨hst', hex'⟩ := ih (w := expel w c) hnd
        fun d hd => (hsame d hd).symm ▸ hconn d (List.mem_cons_of_mem _ hd)
      refine ⟨hst.trans hst', ?_, ?_, ?_, ?_⟩
      · have hframe := congrArg (fun v : EventLoop => { v with heap := w.heap, timers := w.timers })
          hex'.frame
        exact hframe.trans hex.frame
      · rw [List.foldl_cons, hex'.timers, hex.timers, hst.now, List.append_assoc]
        refine congrArg (w.timers ++ ·) (congrArg (_ :: ·) (List.map_congr_left ?_))
        intro d hd
        rw [hsame d hd]
      · intro d hd
        rw [List.foldl_cons]
        rcases List.mem_cons.mp hd with rfl | hd
        · exact (hex'.rest d hc).trans (hex.down d (List.mem_singleton.mpr rfl))
        · rw [hex'.down d hd, hsame d hd]
      · intro d hd
        obtain ⟨hdc, hd⟩ := not_or.mp (fun h => hd (List.mem_cons.mpr h))
        rw [List.foldl_cons, hex'.rest d hd]
        exact hex.rest d fun h => hdc (List.mem_singleton.mp h)

/-- The scan stops at an entry that has not expired. -/
theorem visit_recent {d : ConnId} (hexp : ¬Expired w d) (hheard : lastReceiveTime w d ≤ w.now) :
    w.visitIdle w.now d = (w, false) := by
  have hage : ¬ w.idleSeconds * kMicroSecondsPerSecond
      < w.now - (w.conn d).timeNode.lastReceiveTime := hexp
  have hpast : ¬ w.now - (w.conn d).timeNode.lastReceiveTime < 0 := by
    simp only [lastReceiveTime] at hheard
    omega
  rw [visitIdle, if_neg hage, if_neg hpast]

/-- What a scan does: it expels the connected ones of the expired entries that
come first. -/
theorem removeExpiredLoop_eq (ahead : List (Position × ConnId)) : ∀ {w : EventLoop},
    (∀ e ∈ ahead, (w.conn e.2).nextTcpConn = none) → (ahead.map Prod.snd).Nodup →
    (∀ e ∈ ahead, lastReceiveTime w e.2 ≤ w.now) →
    w.removeExpiredLoop w.now ahead =
      (((ahead.map Prod.snd).takeWhile fun c => decide (Expired w c)).filter
        fun c => (w.conn c).connected).foldl expel w := by
  induction ahead with
  | nil => intro w _ _ _; rfl
  | cons e ahead ih =>
      obtain ⟨p, d⟩ := e
      intro w hnext hnd hheard
      have hnone : (w.conn d).nextTcpConn = none := hnext (p, d) List.mem_cons_self
      have hnext' : ∀ e ∈ ahead, (w.conn e.2).nextTcpConn = none := fun e he =>
        hnext e (List.mem_cons_of_mem _ he)
      have hheard' : ∀ e ∈ ahead, lastReceiveTime w e.2 ≤ w.now := fun e he =>
        hheard e (List.mem_cons_of_mem _ he)
      obtain ⟨hd, hnd⟩ := List.nodup_cons.mp hnd
      rw [removeExpiredLoop]
      simp only [hnone]
      by_cases hexp : Expired w d
      · have hage : w.idleSeconds * kMicroSecondsPerSecond
            < w.now - (w.conn d).timeNode.lastReceiveTime := hexp
        have hfirst : ((p, d) :: ahead).map Prod.snd = d :: ahead.map Prod.snd := rfl
        rw [hfirst, List.takeWhile_cons, if_pos (decide_eq_true hexp), visitIdle, if_pos hage]
        by_cases hconn : (w.conn d).connected = true
        · rw [if_pos hconn, List.filter_cons, if_pos hconn, List.foldl_cons]
          obtain ⟨hst, hex⟩ := expel_connected hconn
          -- the entries ahead are other connections, at the same times
          have hsame : ∀ c ∈ ahead.map Prod.snd, (expel w d).conn c = w.conn c := by
            intro c hc
            exact hex.rest c fun hcd => hd (List.mem_singleton.mp hcd ▸ hc)
          have hmem : ∀ e ∈ ahead, (expel w d).conn e.2 = w.conn e.2 := fun e he =>
            hsame e.2 (List.mem_map_of_mem he)
          have hrest := ih (w := expel w d) (fun e he => (hmem e he).symm ▸ hnext' e he) hnd
            fun e he => by
              rw [hst.lastReceiveTime, hst.now]
              exact hheard' e he
          have hexp' : ∀ c, Expired (expel w d) c ↔ Expired w c := by
            intro c
            rw [Expired, Expired, hex.idleSeconds, hst.now, hst.lastReceiveTime]
          simp only [hexp', hst.now] at hrest
          refine Eq.trans hrest (congrArg (List.foldl expel _) (List.filter_congr ?_))
          intro c hc
          rw [hsame c ((List.takeWhile_sublist _).subset hc)]
        · rw [if_neg hconn, List.filter_cons, if_neg hconn]
          exact ih hnext' hnd hheard'
      · rw [visit_recent hexp (hheard (p, d) List.mem_cons_self), List.map_cons,
          List.takeWhile_cons, if_neg (fun h => hexp (of_decide_eq_true h))]
        rfl

/-- No connection has two entries. -/
theorem owners_nodup (ht : w.Timed) : (w.connectionTimeList.map Prod.snd).Nodup := by
  refine List.Nodup.map_on ?_ (List.Nodup.of_map _ ht.nodes)
  intro e he f hf hef
  have hpe := (ht.owner e he).2
  have hpf := (ht.owner f hf).2
  rw [hef, hpf] at hpe
  exact Prod.ext (Option.some.inj hpe).symm hef

theorem mem_owners (ht : w.Timed) : c ∈ w.connectionTimeList.map Prod.snd ↔
    c ∈ w.activeConnections := by
  rw [List.mem_map]
  constructor
  · rintro ⟨e, he, rfl⟩
    exact (ht.owner e he).1
  · intro hc
    obtain ⟨p, -, hmem⟩ := ht.entry c hc
    exact ⟨(p, c), hmem, rfl⟩

theorem mem_toExpel (ht : w.Timed) : c ∈ toExpel w ↔
    c ∈ w.activeConnections ∧ Expired w c ∧ (w.conn c).connected = true := by
  rw [toExpel, List.mem_filter, mem_owners ht, Bool.and_eq_true, decide_eq_true_eq]

/-- The order of the list makes the early stop harmless. -/
theorem removeExpiredConnection_eq (hidle : 0 < w.idleSeconds) (hpool : w.Pool) (ht : w.Timed)
    (ho : InOrder w) : w.removeExpiredConnection = (toExpel w).foldl expel w := by
  obtain ⟨head, chain, -, hpooled⟩ := hpool
  have hnext : ∀ e ∈ w.connectionTimeList, (w.conn e.2).nextTcpConn = none := fun e he =>
    hpooled.noNext e.2 (ht.owner e he).1
  have hsorted : (w.connectionTimeList.map Prod.snd).Pairwise fun c d =>
      decide (Expired w d) = true → decide (Expired w c) = true := by
    refine List.pairwise_map.mpr (ho.sorted.imp ?_)
    intro e f hle hexp
    have hexp' : Expired w f.2 := of_decide_eq_true hexp
    refine decide_eq_true ?_
    simp only [Expired] at hexp' ⊢
    omega
  rw [removeExpiredConnection, if_neg (Int.not_le.mpr hidle),
    removeExpiredLoop_eq _ hnext (owners_nodup ht) ho.heard, OrderedSet.takeWhile_eq_filter hsorted,
    List.filter_filter, toExpel]
  simp only [Bool.and_comm]

theorem expelled_removeExpiredConnection (hidle : 0 < w.idleSeconds) (hpool : w.Pool)
    (ht : w.Timed) (ho : InOrder w) : Still w w.removeExpiredConnection ∧
      Expelled w w.removeExpiredConnection (toExpel w) := by
  rw [removeExpiredConnection_eq hidle hpool ht ho]
  exact expel_foldl _ ((owners_nodup ht).filter _) fun c hc => ((mem_toExpel ht).mp hc).2.2

theorem removeExpiredConnection_spec (h : Clocked w) :
    Still w w.removeExpiredConnection ∧
      ∀ c, Scheduled w.removeExpiredConnection c ↔ Scheduled w c ∨ c ∈ toExpel w := by
  obtain ⟨hst, hex⟩ :=
    expelled_removeExpiredConnection h.idle h.sound.pool h.timed h.toInOrder
  refine ⟨hst, ?_⟩
  intro c
  simp only [Scheduled, hex.timers, List.mem_append, List.mem_map]
  constructor
  · rintro ⟨tm, hmem | ⟨d, hd, rfl⟩, hc⟩
    · exact Or.inl ⟨tm, hmem, hc⟩
    · exact Or.inr (hc ▸ hd)
  · rintro (⟨tm, hmem, hc⟩ | hc)
    · exact ⟨tm, Or.inl hmem, hc⟩
    · exact ⟨_, Or.inr ⟨c, hc, rfl⟩, rfl⟩

/-! ## Runs -/

theorem clocked_call {k : Call} (h : Clocked w) (hg : Granted w (.call k))
    (hw' : w.call k = some w') : Clocked w' := by
  -- timers and functors taken out of their queues
  have hpop : ∀ ts fs, Clocked { w with timers := ts, pendingFunctors := fs } := fun ts fs =>
    h.quiet ⟨rfl, rfl, rfl, fun _ => rfl, rfl, rfl, rfl, List.Perm.refl _, rfl, rfl,
      fun _ => rfl, fun _ _ => rfl⟩ ⟨h.sorted, h.heard⟩
  cases k with
  | getNextFreeConnection fd =>
      obtain ⟨hfd, hnew⟩ := hg fd rfl
      exact clocked_getNextFreeConnection h hfd hnew hw'
  | send c data wr =>
      cases hw'
      exact h.still (quiet_send h.sound data wr) (still_own own_send)
  | shutdown c =>
      cases hw'
      exact h.still (quiet_shutdown h.sound) (still_own own_shutdown)
  | forceClose c =>
      cases hw'
      exact h.still (quiet_forceClose h.sound) still_forceClose
  | forceCloseWithDelay c delay =>
      cases hw'
      exact h.still (quiet_forceCloseWithDelay h.sound delay) still_forceCloseWithDelay
  | removeExpiredConnection =>
      cases hw'
      exact h.still (quiet_removeExpiredConnection h.sound) (removeExpiredConnection_spec h).1
  | runTimer i =>
      simp only [call, runTimer] at hw'
      split at hw'
      · exact clocked_forceCloseInLoop (hpop _ w.pendingFunctors) hw'
      · cases hw'
        exact h
  | runFunctor =>
      simp only [call, runFunctor] at hw'
      split at hw'
      · exact clocked_forceCloseInLoop (hpop w.timers _) hw'
      · cases hw'
        exact h

theorem clocked_act {a : Act} (h : Clocked w) (hg : Granted w a) (hw' : w.act a = some w') :
    Clocked w' := by
  cases a with
  | tick dt =>
      cases hw'
      refine h.quiet ⟨rfl, rfl, rfl, fun _ => rfl, rfl, rfl, rfl, List.Perm.refl _, rfl, rfl,
        fun _ => rfl, fun _ _ => rfl⟩ ?_
      refine h.toInOrder.sublist (List.Sublist.refl _) (fun _ => rfl) ?_
      show w.now ≤ w.now + dt
      omega
  | call k => exact clocked_call h hg hw'
  | handleRead c r wr => exact clocked_handleRead (h.record rfl) hw'
  | handleWrite c wr =>
      cases hw'
      have hr : Clocked (w.record (.callback .write c)) := h.record rfl
      exact hr.still (quiet_handleWrite hr.sound wr) (still_own own_handleWrite)
  | handleClose c => exact clocked_handleClose (h.record rfl) hw'

/-- A listed connection is connected or half closed. -/
theorem Clocked.disconnecting_iff (h : Clocked w) {e : Position × ConnId}
    (he : e ∈ w.connectionTimeList) :
    (w.conn e.2).state = .kDisconnecting ↔ ¬ (w.conn e.2).connected = true := by
  have hopen := h.sound.opened e.2 (h.timed.owner e he).1
  simp only [TcpConnection.isOpen, Bool.or_eq_true, decide_eq_true_eq] at hopen
  rw [TcpConnection.connected, decide_eq_true_eq]
  rcases hopen with hs | hs <;> simp [hs]

theorem step_closing {s t : State} {a : Act} (h : Clocked s.loop) (hstep : step s a = some t) :
    Closing t ↔ NoneAdrift s a := by
  obtain ⟨-, hact⟩ := Option.ite_none_right_eq_some.mp hstep
  obtain ⟨w', hw', rfl⟩ := Option.map_eq_some_iff.mp hact
  by_cases ha : a = .call .removeExpiredConnection
  · subst ha
    cases hw'
    obtain ⟨hst, hsched⟩ := removeExpiredConnection_spec h
    have hidle : s.loop.removeExpiredConnection.idleSeconds = s.loop.idleSeconds :=
      (quiet_removeExpiredConnection h.sound).idleSeconds
    have hexp : ∀ c, Expired s.loop.removeExpiredConnection c ↔ Expired s.loop c := by
      intro c
      rw [Expired, Expired, hidle, hst.now, hst.lastReceiveTime]
    have hone : ∀ e ∈ s.loop.connectionTimeList,
        ((Expired s.loop.removeExpiredConnection e.2 → Scheduled s.loop.removeExpiredConnection e.2)
          ↔ ¬ Adrift s.loop e.2) := by
      intro e he
      have hact : e.2 ∈ s.loop.activeConnections := (h.timed.owner e he).1
      rw [hexp, hsched, mem_toExpel h.timed, Adrift, h.disconnecting_iff he]
      tauto
    simp only [Closing, NoneAdrift, decide_true, forall_const, hst.list]
    exact forall₂_congr hone
  · simp [Closing, NoneAdrift, ha]

end

theorem clocked_start {idleSeconds now epollFd timerFd wakeupFd : Int} (hidle : 0 < idleSeconds)
    (ht : 0 ≤ timerFd) (hw : 0 ≤ wakeupFd) (hne : timerFd ≠ wakeupFd) :
    Clocked (EventLoop.start idleSeconds now epollFd timerFd wakeupFd) := by
  have hsound : (EventLoop.start idleSeconds now epollFd timerFd wakeupFd).Sound :=
    sound_start ht hw hne
  have hpos : ∀ c,
      ((EventLoop.start idleSeconds now epollFd timerFd wakeupFd).conn c).timeNode.position = none :=
    forall_start (P := fun tc => tc.timeNode.position = none) rfl (fun _ _ _ h => h) _ _ _ _ _
  have hstarted := started_start idleSeconds now epollFd timerFd wakeupFd
  generalize EventLoop.start idleSeconds now epollFd timerFd wakeupFd = w at *
  have hlist := hstarted.connectionTimeList
  refine ⟨⟨?_, ?_⟩, hstarted.idleSeconds ▸ hidle, hsound, ?_⟩
  · rw [hlist]
    exact List.Pairwise.nil
  · rw [hlist]
    exact fun e he => absurd he List.not_mem_nil
  · intro c _ p hp
    rw [hpos c] at hp
    exact absurd hp nofun

/-- With an idle list, every scan leaves a pending timer for each expired
connection exactly when no scan meets a connection that is adrift. -/
theorem closing_iff {idleSeconds now epollFd timerFd wakeupFd : Int} (hidle : 0 < idleSeconds)
    (ht : 0 ≤ timerFd) (hw : 0 ≤ wakeupFd) (hne : timerFd ≠ wakeupFd) {acts : List Act} {s : State}
    (hrun : Machine.exec step (start idleSeconds now epollFd timerFd wakeupFd) acts = some s) :
    Machine.Throughout step Closing (start idleSeconds now epollFd timerFd wakeupFd) acts ↔
      Machine.Meets step NoneAdrift (start idleSeconds now epollFd timerFd wakeupFd) acts := by
  have hclocked : Clocked (EventLoop.start idleSeconds now epollFd timerFd wakeupFd) :=
    clocked_start hidle ht hw hne
  unfold start at *
  generalize EventLoop.start idleSeconds now epollFd timerFd wakeupFd = w at *
  refine Machine.throughout_iff_meets (J := fun s => Clocked s.loop) ?_ ?_ hclocked nofun hrun
  · intro s a t h hstep
    obtain ⟨hg, hact⟩ := Option.ite_none_right_eq_some.mp hstep
    obtain ⟨w', hw', rfl⟩ := Option.map_eq_some_iff.mp hact
    exact clocked_act h hg hw'
  · intro s a t h _ hstep
    exact step_closing h hstep

/-- A session goes idle and is force-closed; the session that reuses its object
has said nothing for a second and a half when the second scan comes. -/
theorem closing_two : Machine.Throughout step Closing (start 1 0 3 4 5)
    [.call (.getNextFreeConnection 7), .tick 1500000, .call .removeExpiredConnection,
      .tick 3500000, .call (.runTimer 0), .call (.getNextFreeConnection 7), .tick 1500000,
      .call .removeExpiredConnection] := by
  have hgo : (Machine.exec step (start 1 0 3 4 5)
      [.call (.getNextFreeConnection 7), .tick 1500000, .call .removeExpiredConnection,
        .tick 3500000, .call (.runTimer 0), .call (.getNextFreeConnection 7), .tick 1500000,
        .call .removeExpiredConnection]).isSome = true := by decide +kernel
  obtain ⟨s, hs⟩ := Option.isSome_iff_exists.mp hgo
  exact (closing_iff (by decide) (by decide) (by decide) (by decide) hs).mpr (by decide +kernel)

/-- The server has answered and shut down its side; its peer keeps the
connection open and says nothing more.  The scan passes it over. -/
theorem closing_fails : ¬ ∀ (acts : List Act) (s : State),
    Machine.exec step (start 1 0 3 4 5) acts = some s → Closing s := by
  intro hall
  have hgo : (Machine.exec step (start 1 0 3 4 5)
      [.call (.getNextFreeConnection 7), .call (.shutdown 1), .tick 1500000,
        .call .removeExpiredConnection]).map (fun s => (s.scanned, s.loop.connectionTimeList,
          decide (Expired s.loop 1), s.loop.timers.length)) =
      some (true, [(0, 1)], true, 0) := by
    decide +kernel
  obtain ⟨s, hs, heq⟩ := Option.map_eq_some_iff.mp hgo
  simp only [Prod.mk.injEq, decide_eq_true_eq] at heq
  obtain ⟨hscan, hlist, hexp, htimers⟩ := heq
  obtain ⟨tm, htm, -⟩ := hall _ s hs hscan (0, 1) (hlist ▸ List.mem_cons_self) hexp
  rw [List.length_eq_zero_iff.mp htimers] at htm
  exact absurd htm List.not_mem_nil

end Idle

end WebServer

/-
# `Net.Handover` — a session starts, a session ends

The two calls that are not quiet.  `getNextFreeConnection` takes an object at
rest and starts a session on it; `handleClose` ends the session and returns the
object.  `Opened` and `Closed` say everything about the state after; both hold
of a sound state (`getNextFreeConnection_opened`, `handleClose_closed`, where
`handleClose` of an open connection never goes wrong), and both lead to a sound
state (`Sound.opened`, `Sound.closed`).

A loop that has built its pool is sound (`sound_start`).
-/
import WebServer.Net.Sound

namespace WebServer

/-- What `handleClose` leaves of a connection but for its link. -/
def TcpConnection.vacant (tc : TcpConnection) : TcpConnection :=
  { tc with state := .kConnecting, channel := Channel.new (-1), inputBuffer := []
            outputBuffer := [] }

/-- A connection whose session has just started on descriptor `fd`. -/
def TcpConnection.begun (tc : TcpConnection) (fd : Int) (node : TimeNode) : TcpConnection :=
  { tc with state := .kConnected, channel := ⟨fd, (Channel.new fd).wantReading.events, .kAdded⟩
            session := tc.session + 1, socket := {}, timeNode := node }

namespace EventLoop

/-- The fields that neither a connection's own calls nor the poller's write. -/
structure Roster where
  activeConnections : List ConnId
  freeTcpConnection : Option ConnId
  allocated : ConnId
  idleSeconds : Int
  connectionTimeList : List (Position × ConnId)
  nextPosition : Position
  log : List Event

def roster (w : EventLoop) : Roster where
  activeConnections := w.activeConnections
  freeTcpConnection := w.freeTcpConnection
  allocated := w.allocated
  idleSeconds := w.idleSeconds
  connectionTimeList := w.connectionTimeList
  nextPosition := w.nextPosition
  log := w.log

/-! ## Small equations -/

theorem roster_modify (w : EventLoop) (c : ConnId) (f : TcpConnection → TcpConnection) :
    (w.modify c f).roster = w.roster := rfl

theorem roster_updateChannel (w : EventLoop) (c : ConnId) :
    (w.updateChannel c).roster = w.roster := rfl

theorem roster_removeChannel (w : EventLoop) (c : ConnId) :
    (w.removeChannel c).roster = w.roster := rfl

theorem roster_closeFd (w : EventLoop) (fd : Int) : (w.closeFd fd).roster = w.roster := rfl

theorem conn_setNextTcpConn (w : EventLoop) (c d : ConnId) (n : Option ConnId) :
    (w.setNextTcpConn c n).conn d
      = { w.conn d with nextTcpConn := (w.setNextTcpConn c n).next d } := by
  by_cases hd : d = c
  · subst hd
    rw [next, setNextTcpConn, conn_modify_self]
  · rw [next, setNextTcpConn, conn_modify_ne w _ hd]

theorem interest_add {κ : Type} {p : Epoller κ} {fd : Int} (hfree : p.interest fd = none)
    (hfd : 0 ≤ fd) (ev : Events) (ptr : κ) :
    (p.epollCtl .add fd ev ptr).interest = Function.update p.interest fd (some (ev, ptr)) := by
  simp [Epoller.epollCtl, hfree, hfd]

theorem interest_mod {κ : Type} {p : Epoller κ} {fd : Int} (hsome : p.interest fd ≠ none)
    (ev : Events) (ptr : κ) :
    (p.epollCtl .mod fd ev ptr).interest = Function.update p.interest fd (some (ev, ptr)) := by
  obtain ⟨r, hr⟩ := Option.ne_none_iff_exists'.mp hsome
  simp [Epoller.epollCtl, hr]

/-- `EPOLL_CTL_DEL`, then `::close`: the descriptor is watched no more. -/
theorem interest_del_closeFd {κ : Type} (p : Epoller κ) (fd : Int) (ev : Events) (ptr : κ) :
    ((p.epollCtl .del fd ev ptr).closeFd fd).interest = Function.update p.interest fd none := by
  unfold Epoller.epollCtl
  split <;> simp_all [Epoller.closeFd, Function.update_idem]

/-! ## Giving an object back -/

/-- Connection `c` was returned to the pool of `w`, giving `w'`: no object has
changed but in its link. -/
structure Returned (w : EventLoop) (c : ConnId) (w' : EventLoop) : Prop where
  pool : w'.Pool
  heap : ∀ d, ∃ n, w'.conn d = { w.conn d with nextTcpConn := n }
  unborn : ∀ d, w.allocated ≤ d → w'.conn d = w.conn d
  active : w'.activeConnections = w.activeConnections.erase c
  allocated : w'.allocated = w.allocated
  poller : w'.poller = w.poller
  openFds : w'.openFds = w.openFds
  idleSeconds : w'.idleSeconds = w.idleSeconds
  list : 0 < w.idleSeconds →
    w'.connectionTimeList = w.otherNodes (w.conn c).timeNode.position
  nextPosition : w'.nextPosition = w.nextPosition
  log : w'.log = w.log

variable {w : EventLoop} {c : ConnId}

/-- Both halves of `returnBackConnection` before the idle list. -/
def putBack (w : EventLoop) (head c : ConnId) : EventLoop :=
  { (w.setNextTcpConn c (w.conn head).nextTcpConn).setNextTcpConn head (some c) with
    activeConnections := w.activeConnections.erase c }

theorem conn_putBack (w : EventLoop) (head c d : ConnId) :
    (w.putBack head c).conn d = { w.conn d with nextTcpConn := (w.putBack head c).next d } := by
  show (EventLoop.setNextTcpConn _ _ _).conn d = _
  rw [conn_setNextTcpConn, conn_setNextTcpConn]
  rfl

theorem returned_putBack {head : ConnId} {chain : List ConnId} {nodes : List (Position × ConnId)}
    (hfree : w.freeTcpConnection = some head)
    (hpool : Pooled w.next head chain w.activeConnections w.allocated)
    (hc : c ∈ w.activeConnections)
    (hnodes : 0 < w.idleSeconds → nodes = w.otherNodes (w.conn c).timeNode.position) :
    Returned w c { w.putBack head c with connectionTimeList := nodes } where
  pool := ⟨head, c :: chain, hfree, pool_giveBack hpool hc⟩
  heap := fun d => ⟨_, conn_putBack w head c d⟩
  unborn := fun d hd => by
    have hne : ∀ e ∈ head :: chain ++ w.activeConnections, d ≠ e := fun e he hde =>
      Nat.not_lt.mpr hd (hde ▸ hpool.lt he)
    have hdh : d ≠ head := hne head (List.mem_append_left _ List.mem_cons_self)
    have hdc : d ≠ c := hne c (List.mem_append_right _ hc)
    show (EventLoop.setNextTcpConn _ _ _).conn d = _
    rw [setNextTcpConn, conn_modify_ne _ _ hdh, setNextTcpConn, conn_modify_ne _ _ hdc]
  active := rfl
  allocated := rfl
  poller := rfl
  openFds := rfl
  idleSeconds := rfl
  list := hnodes
  nextPosition := rfl
  log := rfl

/-- Returning an active connection whose node is in the idle list goes
through. -/
theorem returnBackConnection_returned (hpool : w.Pool) (hc : c ∈ w.activeConnections)
    (hnode : 0 < w.idleSeconds → (w.nodeAt (w.conn c).timeNode.position).isSome) :
    ∃ w', w.returnBackConnection c = some w' ∧ Returned w c w' := by
  obtain ⟨head, chain, hfree, hpool⟩ := hpool
  have hback : w.returnBackConnection c =
      if w.idleSeconds ≤ 0 then some (w.putBack head c)
      else (w.putBack head c).eraseNode ((w.putBack head c).conn c).timeNode.position := by
    rw [returnBackConnection, hfree]
    exact if_pos hc
  rw [hback]
  split
  · rename_i hidle
    refine ⟨_, rfl, returned_putBack hfree hpool hc ?_⟩
    intro hpos
    exact absurd hpos (Int.not_lt.mpr hidle)
  · rename_i hidle
    obtain ⟨e, he⟩ := Option.isSome_iff_exists.mp (hnode (Int.not_le.mp hidle))
    have hposition : ((w.putBack head c).conn c).timeNode.position
        = (w.conn c).timeNode.position := by rw [conn_putBack]
    have hat : (w.putBack head c).nodeAt (w.conn c).timeNode.position = some e := he
    refine ⟨_, by rw [eraseNode, hposition, hat], ?_⟩
    exact returned_putBack hfree hpool hc fun _ => rfl

/-- What `returnBackConnection` does when it goes through. -/
theorem returnBackConnection_cases {w' : EventLoop} (h : w.returnBackConnection c = some w') :
    c ∈ w.activeConnections ∧ ∃ head nodes,
      w' = { w.putBack head c with connectionTimeList := nodes } := by
  unfold returnBackConnection at h
  split at h
  · cases h
  · rename_i head _
    obtain ⟨hc, h⟩ := Option.ite_none_right_eq_some.mp h
    refine ⟨hc, head, ?_⟩
    dsimp only at h
    split at h
    · cases h
      exact ⟨_, rfl⟩
    · unfold eraseNode at h
      split at h
      · cases h
      · cases h
        exact ⟨_, rfl⟩

/-- What `updateIdleTimeList` does when it goes through. -/
theorem updateIdleTimeList_cases {w' : EventLoop} (h : w.updateIdleTimeList c = some w') :
    w' = w ∨ ∃ nodes, w' = { w with connectionTimeList := nodes }.modify c fun tc =>
      { tc with timeNode := { tc.timeNode with lastReceiveTime := w.now } } := by
  unfold updateIdleTimeList at h
  split at h
  · exact Or.inl (Option.some.inj h).symm
  · dsimp only at h
    split at h
    · cases h
    · exact Or.inr ⟨_, (Option.some.inj h).symm⟩

/-! ## Closing a session -/

/-- The session of connection `c` of `w` was closed and its object returned,
giving `w'`. -/
structure Closed (w : EventLoop) (c : ConnId) (w' : EventLoop) : Prop where
  pool : w'.Pool
  self : ∃ n, w'.conn c = { (w.conn c).vacant with nextTcpConn := n }
  others : ∀ d, d ≠ c → ∃ n, w'.conn d = { w.conn d with nextTcpConn := n }
  unborn : ∀ d, w.allocated ≤ d → w'.conn d = w.conn d
  active : w'.activeConnections = w.activeConnections.erase c
  allocated : w'.allocated = w.allocated
  interest : w'.poller.interest
    = Function.update w.poller.interest (w.conn c).channel.fd none
  channels : w'.poller.channels = Function.update w.poller.channels (-1) none
  openFds : w'.openFds = w.openFds.filter (· ≠ (w.conn c).channel.fd)
  idleSeconds : w'.idleSeconds = w.idleSeconds
  list : 0 < w.idleSeconds →
    w'.connectionTimeList = w.otherNodes (w.conn c).timeNode.position
  nextPosition : w'.nextPosition = w.nextPosition
  log : w'.log = w.log ++ [.closed c (w.conn c).session]

/-- `handleClose` before it returns the object. -/
def vacate (w : EventLoop) (c : ConnId) : EventLoop :=
  ((w.record (.closed c (w.conn c).session)).closeSession c).removeChannel c

theorem roster_vacate (w : EventLoop) (c : ConnId) :
    (w.vacate c).roster = (w.record (.closed c (w.conn c).session)).roster := by
  simp only [vacate, closeSession, setState, disableAll, updateInterest, setFd, roster_removeChannel,
    roster_modify, roster_closeFd, roster_updateChannel]

theorem handleClose_eq (w : EventLoop) (c : ConnId) :
    w.handleClose c = (w.vacate c).returnBackConnection c := rfl

section

variable (hadded : (w.conn c).channel.index = .kAdded)

include hadded

theorem heap_vacate : (w.vacate c).heap = Function.update w.heap c (w.conn c).vacant := by
  have hadd : (w.heap c).channel.index = .kAdded := hadded
  simp [vacate, record, closeSession, removeChannel, setState, disableAll, updateInterest,
    updateChannel, closeFd, setFd, modify, conn, Epoller.updateChannel, Epoller.removeChannel,
    Channel.dropAll, Channel.isNoneEvent, Channel.new, TcpConnection.reset, TcpConnection.vacant,
    hadd]

theorem interest_vacate : (w.vacate c).poller.interest
    = Function.update w.poller.interest (w.conn c).channel.fd none := by
  have hadd : (w.heap c).channel.index = .kAdded := hadded
  simp [vacate, record, closeSession, removeChannel, setState, disableAll, updateInterest,
    updateChannel, closeFd, setFd, modify, conn, Epoller.updateChannel, Epoller.removeChannel,
    Channel.dropAll, Channel.isNoneEvent, TcpConnection.reset, hadd, Epoller.update,
    interest_del_closeFd]

theorem channels_vacate : (w.vacate c).poller.channels
    = Function.update w.poller.channels (-1) none := by
  have hadd : (w.heap c).channel.index = .kAdded := hadded
  simp [vacate, record, closeSession, removeChannel, setState, disableAll, updateInterest,
    updateChannel, closeFd, setFd, modify, conn, Epoller.updateChannel, Epoller.removeChannel,
    Channel.dropAll, Channel.isNoneEvent, TcpConnection.reset, hadd, Epoller.update]

theorem openFds_vacate :
    (w.vacate c).openFds = w.openFds.filter (· ≠ (w.conn c).channel.fd) := by
  have hadd : (w.heap c).channel.index = .kAdded := hadded
  simp only [vacate, record, closeSession, removeChannel, setState, disableAll, updateInterest,
    updateChannel, closeFd, setFd, modify, conn, Epoller.updateChannel, Channel.dropAll,
    Channel.isNoneEvent, hadd, Function.update_self, decide_true, if_true]
  rfl

theorem conn_vacate_self : (w.vacate c).conn c = (w.conn c).vacant := by
  rw [conn, heap_vacate hadded, Function.update_self]

theorem conn_vacate_ne {d : ConnId} (hd : d ≠ c) : (w.vacate c).conn d = w.conn d := by
  rw [conn, heap_vacate hadded, Function.update_of_ne hd]
  rfl

theorem next_vacate : (w.vacate c).next = w.next := by
  funext d
  by_cases hd : d = c
  · subst hd
    rw [next, conn_vacate_self hadded]
    rfl
  · rw [next, conn_vacate_ne hadded hd]
    rfl

end

/-- Closing an open connection goes through. -/
theorem handleClose_closed (hs : w.Sound) (hc : c ∈ w.activeConnections) :
    ∃ w', w.handleClose c = some w' ∧ Closed w c w' := by
  have hadded := hs.watched.added c hc
  have hroster := roster_vacate w c
  have hact : (w.vacate c).activeConnections = w.activeConnections :=
    congrArg Roster.activeConnections hroster
  have hfree : (w.vacate c).freeTcpConnection = w.freeTcpConnection :=
    congrArg Roster.freeTcpConnection hroster
  have hall : (w.vacate c).allocated = w.allocated := congrArg Roster.allocated hroster
  have hidle : (w.vacate c).idleSeconds = w.idleSeconds := congrArg Roster.idleSeconds hroster
  have hlist : (w.vacate c).connectionTimeList = w.connectionTimeList :=
    congrArg Roster.connectionTimeList hroster
  have hpos : (w.vacate c).nextPosition = w.nextPosition := congrArg Roster.nextPosition hroster
  have hlog : (w.vacate c).log = w.log ++ [.closed c (w.conn c).session] :=
    congrArg Roster.log hroster
  obtain ⟨head, chain, hhead, hpooled⟩ := hs.pool
  have hposition : ((w.vacate c).conn c).timeNode = (w.conn c).timeNode := by
    rw [conn_vacate_self hadded]
    rfl
  have hpool : (w.vacate c).Pool := by
    refine ⟨head, chain, hfree.trans hhead, ?_⟩
    rw [next_vacate hadded, hact, hall]
    exact hpooled
  have hnode : 0 < (w.vacate c).idleSeconds →
      ((w.vacate c).nodeAt ((w.vacate c).conn c).timeNode.position).isSome := fun h => by
    rw [hidle] at h
    have ht := hs.timed h
    obtain ⟨p, hp, hmem⟩ := ht.entry c hc
    have hat : w.nodeAt (some p) = some (p, c) := nodeAt_eq_some ht hmem
    rw [nodeAt] at hat
    rw [hposition, hp, nodeAt, hlist, hat]
    rfl
  have hcv : c ∈ (w.vacate c).activeConnections := by rw [hact]; exact hc
  obtain ⟨w', hw', hret⟩ := returnBackConnection_returned hpool hcv hnode
  refine ⟨w', (handleClose_eq w c).trans hw', ?_⟩
  exact
    { pool := hret.pool
      self := by
        obtain ⟨n, hn⟩ := hret.heap c
        exact ⟨n, by rw [hn, conn_vacate_self hadded]⟩
      others := fun d hd => by
        obtain ⟨n, hn⟩ := hret.heap d
        exact ⟨n, by rw [hn, conn_vacate_ne hadded hd]⟩
      unborn := fun d hd => by
        have hdc : d ≠ c := fun e =>
          Nat.not_lt.mpr hd (e ▸ hpooled.lt (List.mem_append_right _ hc))
        rw [hret.unborn d (hall.trans_le hd), conn_vacate_ne hadded hdc]
      active := by rw [hret.active, hact]
      allocated := hret.allocated.trans hall
      interest := by rw [hret.poller]; exact interest_vacate hadded
      channels := by rw [hret.poller]; exact channels_vacate hadded
      openFds := by rw [hret.openFds]; exact openFds_vacate hadded
      idleSeconds := hret.idleSeconds.trans hidle
      list := fun h => by
        rw [hret.list (by rw [hidle]; exact h), hposition, otherNodes, otherNodes, hlist]
      nextPosition := hret.nextPosition.trans hpos
      log := hret.log.trans hlog }

/-- Only an open connection is closed. -/
theorem closed_of_handleClose {w w' : EventLoop} {c : ConnId} (hs : w.Sound)
    (h : w.handleClose c = some w') : c ∈ w.activeConnections ∧ Closed w c w' := by
  have hact : c ∈ w.activeConnections := by
    have hmem := (returnBackConnection_cases ((handleClose_eq w c).symm.trans h)).1
    have hsame : (w.vacate c).activeConnections = w.activeConnections :=
      congrArg Roster.activeConnections (roster_vacate w c)
    exact hsame ▸ hmem
  obtain ⟨v, hv, hcl⟩ := handleClose_closed hs hact
  rw [h] at hv
  cases hv
  exact ⟨hact, hcl⟩

/-! ## Opening a session -/

/-- A session was started on object `c` of `w` and descriptor `fd`, giving
`w'`. -/
structure Opened (w : EventLoop) (c : ConnId) (fd : Int) (w' : EventLoop) : Prop where
  pool : w'.Pool
  fresh : c ∉ w.activeConnections
  self : ∃ node n, w'.conn c = { (w.conn c).begun fd node with nextTcpConn := n } ∧
    (0 < w.idleSeconds → node.position = some w.nextPosition)
  others : ∀ d, d ≠ c → ∃ n, w'.conn d = { w.conn d with nextTcpConn := n }
  unborn : ∀ d, w'.allocated ≤ d → w.allocated ≤ d ∧ w'.conn d = w.conn d
  active : w'.activeConnections = w.activeConnections ++ [c]
  interest : w'.poller.interest = Function.update w.poller.interest fd
    (some ((Channel.new fd).wantReading.events, .conn c))
  channels : w'.poller.channels = Function.update w.poller.channels fd (some (.conn c))
  lookups : w.poller.channels fd = none → w'.poller.failedLookups = w.poller.failedLookups
  openFds : w'.openFds = fd :: w.openFds
  idleSeconds : w'.idleSeconds = w.idleSeconds
  list : 0 < w.idleSeconds →
    w'.connectionTimeList = w.connectionTimeList ++ [(w.nextPosition, c)]
  nextPosition : 0 < w.idleSeconds → w'.nextPosition = w.nextPosition + 1
  log : w'.log = w.log

/-- `configEvent()` of a channel the poller does not know: it is added, then
modified. -/
theorem interest_configEvent {fd : Int} (hch : (w.conn c).channel = Channel.new fd)
    (hfree : w.poller.interest fd = none) (hfd : 0 ≤ fd) :
    (w.configEvent c).poller.interest = Function.update w.poller.interest fd
      (some ((Channel.new fd).wantReading.events, .conn c)) := by
  have hch' : (w.heap c).channel = Channel.new fd := hch
  simp [configEvent, updateChannel, enableReading, updateInterest, modify, conn,
    Epoller.updateChannel, Channel.new, Channel.wantReading, Channel.isNoneEvent, Epoller.update,
    interest_mod, interest_add, hch', hfree, hfd]

theorem channels_configEvent {fd : Int} (hch : (w.conn c).channel = Channel.new fd) :
    (w.configEvent c).poller.channels = Function.update w.poller.channels fd (some (.conn c)) := by
  have hch' : (w.heap c).channel = Channel.new fd := hch
  simp [configEvent, updateChannel, enableReading, updateInterest, modify, conn,
    Epoller.updateChannel, Channel.new, Channel.wantReading, Channel.isNoneEvent, Epoller.update,
    hch']

theorem failedLookups_configEvent {fd : Int} (hch : (w.conn c).channel = Channel.new fd)
    (hnone : w.poller.channels fd = none) :
    (w.configEvent c).poller.failedLookups = w.poller.failedLookups := by
  have hch' : (w.heap c).channel = Channel.new fd := hch
  simp [configEvent, updateChannel, enableReading, updateInterest, modify, conn,
    Epoller.updateChannel, Channel.new, Channel.wantReading, Channel.isNoneEvent, Epoller.update,
    Epoller.checked, hch', hnone]

theorem conn_configEvent_self {fd : Int} (hch : (w.conn c).channel = Channel.new fd) :
    (w.configEvent c).conn c = { w.conn c with
      channel := ⟨fd, (Channel.new fd).wantReading.events, .kAdded⟩ } := by
  have hch' : (w.heap c).channel = Channel.new fd := hch
  simp [configEvent, updateChannel, enableReading, updateInterest, modify, conn,
    Epoller.updateChannel, Channel.new, Channel.wantReading, Channel.isNoneEvent, hch']

theorem conn_configEvent_ne {d : ConnId} (hd : d ≠ c) : (w.configEvent c).conn d = w.conn d := by
  rw [configEvent, enableReading, conn_updateInterest_ne _ _ hd, conn_updateChannel_ne _ hd]

theorem roster_configEvent (w : EventLoop) (c : ConnId) :
    (w.configEvent c).roster = w.roster := by
  simp only [configEvent, enableReading, updateInterest, roster_updateChannel, roster_modify]

theorem poller_insert (w : EventLoop) (c : ConnId) : (w.insert c).poller = w.poller := by
  unfold insert; split <;> rfl

theorem conn_insert_ne {d : ConnId} (hd : d ≠ c) : (w.insert c).conn d = w.conn d := by
  unfold insert
  split
  · rfl
  · rw [conn_modify_ne _ _ hd]
    rfl

theorem conn_insert_self (w : EventLoop) (c : ConnId) :
    ∃ node, (w.insert c).conn c = { w.conn c with timeNode := node } ∧
      (0 < w.idleSeconds → node.position = some w.nextPosition) := by
  unfold insert
  split
  · rename_i hidle
    exact ⟨(w.conn c).timeNode, rfl, fun h => absurd h (Int.not_lt.mpr hidle)⟩
  · exact ⟨⟨w.now, some w.nextPosition⟩, by rw [conn_modify_self]; rfl, fun _ => rfl⟩

/-- `openSession` before it touches the idle list and the poller. -/
def enlist (w : EventLoop) (c : ConnId) (fd : Int) : EventLoop :=
  { w with activeConnections := w.activeConnections ++ [c]
           openFds := fd :: w.openFds }.modify c fun t =>
    { t with state := .kConnected, channel := { t.channel with fd := fd }
             session := t.session + 1, socket := {} }

theorem openSession_eq (w : EventLoop) (c : ConnId) (fd : Int) :
    w.openSession c fd = ((w.enlist c fd).insert c).configEvent c := rfl

theorem conn_enlist_ne {fd : Int} {d : ConnId} (hd : d ≠ c) :
    (w.enlist c fd).conn d = w.conn d := by
  rw [enlist, conn_modify_ne _ _ hd]
  rfl

section

variable {fd : Int} (hrest : (w.conn c).Resting)

theorem conn_openSession_ne {d : ConnId} (hd : d ≠ c) :
    (w.openSession c fd).conn d = w.conn d := by
  rw [openSession_eq, conn_configEvent_ne hd, conn_insert_ne hd, conn_enlist_ne hd]

include hrest

theorem channel_enlist : (((w.enlist c fd).insert c).conn c).channel = Channel.new fd := by
  obtain ⟨node, hnode, -⟩ := conn_insert_self (w.enlist c fd) c
  have hch : (w.conn c).channel = Channel.new (-1) := hrest.2.1
  rw [hnode, enlist, conn_modify_self]
  show ({ (w.conn c).channel with fd := fd } : Channel) = _
  rw [hch]
  rfl

theorem conn_openSession_self (fd : Int) : ∃ node,
    (w.openSession c fd).conn c = (w.conn c).begun fd node ∧
      (0 < w.idleSeconds → node.position = some w.nextPosition) := by
  obtain ⟨node, hnode, hpos⟩ := conn_insert_self (w.enlist c fd) c
  refine ⟨node, ?_, hpos⟩
  rw [openSession_eq, conn_configEvent_self (channel_enlist hrest), hnode, enlist, conn_modify_self]
  rfl

theorem interest_openSession (hfree : w.poller.interest fd = none) (hfd : 0 ≤ fd) :
    (w.openSession c fd).poller.interest = Function.update w.poller.interest fd
      (some ((Channel.new fd).wantReading.events, .conn c)) := by
  have hpoller : ((w.enlist c fd).insert c).poller = w.poller := poller_insert _ _
  rw [openSession_eq, interest_configEvent (channel_enlist hrest) (by rw [hpoller]; exact hfree) hfd,
    hpoller]

theorem channels_openSession : (w.openSession c fd).poller.channels
    = Function.update w.poller.channels fd (some (.conn c)) := by
  have hpoller : ((w.enlist c fd).insert c).poller = w.poller := poller_insert _ _
  rw [openSession_eq, channels_configEvent (channel_enlist hrest), hpoller]

theorem failedLookups_openSession (hnone : w.poller.channels fd = none) :
    (w.openSession c fd).poller.failedLookups = w.poller.failedLookups := by
  have hpoller : ((w.enlist c fd).insert c).poller = w.poller := poller_insert _ _
  rw [openSession_eq, failedLookups_configEvent (channel_enlist hrest) (by rw [hpoller]; exact hnone),
    hpoller]

end

theorem roster_openSession (w : EventLoop) (c : ConnId) (fd : Int) :
    (w.openSession c fd).roster = ((w.enlist c fd).insert c).roster := by
  rw [openSession_eq, roster_configEvent]

theorem openFds_configEvent (w : EventLoop) (c : ConnId) :
    (w.configEvent c).openFds = w.openFds := rfl

theorem openFds_openSession (w : EventLoop) (c : ConnId) (fd : Int) :
    (w.openSession c fd).openFds = fd :: w.openFds := by
  rw [openSession_eq, openFds_configEvent, insert]
  split <;> rfl

/-- What `enlist` and `insert` write in the roster. -/
theorem roster_insert_enlist (w : EventLoop) (c : ConnId) (fd : Int) :
    ((w.enlist c fd).insert c).roster = { w.roster with
      activeConnections := w.activeConnections ++ [c]
      connectionTimeList := if w.idleSeconds ≤ 0 then w.connectionTimeList
        else w.connectionTimeList ++ [(w.nextPosition, c)]
      nextPosition := if w.idleSeconds ≤ 0 then w.nextPosition else w.nextPosition + 1 } := by
  by_cases hidle : w.idleSeconds ≤ 0
  · have hidle' : (w.enlist c fd).idleSeconds ≤ 0 := hidle
    rw [insert, if_pos hidle', if_pos hidle, if_pos hidle]
    rfl
  · have hidle' : ¬ (w.enlist c fd).idleSeconds ≤ 0 := hidle
    rw [insert, if_neg hidle', if_neg hidle, if_neg hidle]
    rfl

/-- What `takeFree` leaves: no object has changed but in its link, and perhaps
one was allocated. -/
structure Taken (w : EventLoop) (v : EventLoop) : Prop where
  heap : ∀ d, ∃ n, v.conn d = { w.conn d with nextTcpConn := n }
  unborn : ∀ d, v.allocated ≤ d → w.allocated ≤ d ∧ v.conn d = w.conn d
  roster : v.roster = { w.roster with allocated := v.allocated }
  poller : v.poller = w.poller
  openFds : v.openFds = w.openFds

theorem takeFree_taken (hs : w.Sound) {head : ConnId} {chain : List ConnId}
    (hpool : Pooled w.next head chain w.activeConnections w.allocated) :
    Taken w (w.takeFree head).1 := by
  cases hnext : (w.conn head).nextTcpConn with
  | none =>
      simp only [takeFree, hnext]
      refine ⟨fun d => ⟨(w.conn d).nextTcpConn, ?_⟩, ?_, rfl, rfl, rfl⟩
      · by_cases hd : d = w.allocated
        · subst hd
          rw [hs.unborn _ (Nat.le_refl _)]
          simp [allocate, conn]
        · simp [allocate, conn, Function.update_of_ne hd]
      · intro d hd
        have hlt : w.allocated < d := hd
        refine ⟨hlt.le, ?_⟩
        simp [allocate, conn, Function.update_of_ne hlt.ne']
  | some tc =>
      have hchain : chain.head? = some tc := hpool.linked.head?.symm.trans hnext
      simp only [takeFree, hnext]
      refine ⟨fun d => ⟨_, by rw [conn_setNextTcpConn, conn_setNextTcpConn]⟩,
        fun d hd => ⟨hd, ?_⟩, rfl, rfl, rfl⟩
      have hne : ∀ e ∈ head :: chain, d ≠ e := fun e he hde =>
        Nat.not_lt.mpr hd (hde ▸ hpool.lt (List.mem_append_left _ he))
      have hdtc : d ≠ tc := hne tc (List.mem_cons_of_mem _ (List.mem_of_mem_head? hchain))
      have hdh : d ≠ head := hne head List.mem_cons_self
      rw [setNextTcpConn, conn_modify_ne _ _ hdtc, setNextTcpConn, conn_modify_ne _ _ hdh]

theorem next_updateChannel (w : EventLoop) (c : ConnId) : (w.updateChannel c).next = w.next := by
  rw [updateChannel, next_modify _ _ rfl]
  rfl

theorem next_insert (w : EventLoop) (c : ConnId) : (w.insert c).next = w.next := by
  unfold insert
  split
  · rfl
  · rw [next_modify _ _ rfl]
    rfl

theorem next_openSession (w : EventLoop) (c : ConnId) (fd : Int) :
    (w.openSession c fd).next = w.next := by
  rw [openSession_eq, configEvent, enableReading, updateInterest, next_updateChannel,
    next_modify _ _ rfl, next_updateChannel, next_insert, enlist, next_modify _ _ rfl]
  rfl

/-- Opening a session on a descriptor not in use goes through. -/
theorem getNextFreeConnection_opened (hs : w.Sound) {fd : Int} (hfd : 0 ≤ fd)
    (hnew : fd ∉ w.openFds) :
    ∃ c w', w.getNextFreeConnection fd = some w' ∧ Opened w c fd w' := by
  obtain ⟨head, chain, hhead, hpool⟩ := hs.pool
  obtain ⟨hfresh, chain', hpool'⟩ := pool_takeFree hpool
  have ht := takeFree_taken hs hpool
  have hget : w.getNextFreeConnection fd
      = some ((w.takeFree head).1.openSession (w.takeFree head).2 fd) := by
    rw [getNextFreeConnection, hhead]
  generalize (w.takeFree head).1 = v at *
  generalize (w.takeFree head).2 = c at *
  refine ⟨c, _, hget, ?_⟩
  have hwatch : w.poller.interest fd = none := by
    by_contra hne
    exact hnew (hs.watched.openFd fd fun hnone => hne (Option.map_eq_none_iff.mp hnone))
  obtain ⟨n, hn⟩ := ht.heap c
  have hrest : (v.conn c).Resting := by
    rw [hn]
    exact hs.resting c hfresh
  have hvact : v.activeConnections = w.activeConnections :=
    congrArg Roster.activeConnections ht.roster
  have hvidle : v.idleSeconds = w.idleSeconds := congrArg Roster.idleSeconds ht.roster
  have hvpos : v.nextPosition = w.nextPosition := congrArg Roster.nextPosition ht.roster
  have hvlist : v.connectionTimeList = w.connectionTimeList :=
    congrArg Roster.connectionTimeList ht.roster
  have hvfree : v.freeTcpConnection = w.freeTcpConnection :=
    congrArg Roster.freeTcpConnection ht.roster
  have hroster := (roster_openSession v c fd).trans (roster_insert_enlist v c fd)
  have hact : (v.openSession c fd).activeConnections = w.activeConnections ++ [c] := by
    rw [← hvact]
    exact congrArg Roster.activeConnections hroster
  have hall : (v.openSession c fd).allocated = v.allocated := congrArg Roster.allocated hroster
  have hfree : (v.openSession c fd).freeTcpConnection = some head :=
    (congrArg Roster.freeTcpConnection hroster).trans (hvfree.trans hhead)
  obtain ⟨node, hnode, hpos⟩ := conn_openSession_self hrest fd
  rw [hvidle, hvpos] at hpos
  exact
    { pool := ⟨head, chain', hfree, by rw [next_openSession, hact, hall]; exact hpool'⟩
      fresh := hfresh
      self := ⟨node, n, by rw [hnode, hn]; rfl, hpos⟩
      others := fun d hd => by
        obtain ⟨m, hm⟩ := ht.heap d
        exact ⟨m, by rw [conn_openSession_ne hd, hm]⟩
      unborn := fun d hd => by
        rw [hall] at hd
        have hlt : c < v.allocated := hpool'.lt (List.mem_append_right _ (by simp))
        have hdc : d ≠ c := (Nat.lt_of_lt_of_le hlt hd).ne'
        obtain ⟨hle, hsame⟩ := ht.unborn d hd
        exact ⟨hle, by rw [conn_openSession_ne hdc, hsame]⟩
      active := hact
      interest := by
        rw [interest_openSession hrest (by rw [ht.poller]; exact hwatch) hfd, ht.poller]
      channels := by rw [channels_openSession hrest, ht.poller]
      lookups := fun hnone => by
        rw [failedLookups_openSession hrest (by rw [ht.poller]; exact hnone), ht.poller]
      openFds := by rw [openFds_openSession, ht.openFds]
      idleSeconds := (congrArg Roster.idleSeconds hroster).trans hvidle
      list := fun hidle => by
        have hlist := congrArg Roster.connectionTimeList hroster
        rw [← hvlist, ← hvpos]
        exact hlist.trans (if_neg (by rw [hvidle]; exact Int.not_le.mpr hidle))
      nextPosition := fun hidle => by
        have hnext := congrArg Roster.nextPosition hroster
        rw [← hvpos]
        exact hnext.trans (if_neg (by rw [hvidle]; exact Int.not_le.mpr hidle))
      log := (congrArg Roster.log hroster).trans (congrArg Roster.log ht.roster) }

end EventLoop

end WebServer

/-
# `Net.Sound` — the loop's invariant, and the calls that cannot touch it

`Sound w` ties together what the loop keeps in several places: the pool, the
connections' states, the poller's registrations, the idle list, and the
sessions closed so far.  The active connections are the open ones; every other
object is at rest, as the constructor or `handleClose` left it.

Of a connection `Sound` reads only its `Shape`.  `Quiet w w'` says that no
shape has changed, nor anything else `Sound` reads, and that the objects at
rest are untouched; `Sound.quiet` then carries the invariant over.  Every call
but the opening and the closing of a session is quiet, and this file says so,
one lemma a call.
-/
import WebServer.Net.Pool
import WebServer.Net.TcpConnection

namespace WebServer

/-- What the invariant reads of an active connection. -/
structure Shape where
  next : Option ConnId
  fd : Int
  index : PollIndex
  reading : Bool
  position : Option Position
  session : Nat
  isOpen : Bool

namespace TcpConnection

def shape (tc : TcpConnection) : Shape where
  next := tc.nextTcpConn
  fd := tc.channel.fd
  index := tc.channel.index
  reading := tc.channel.events.epollin
  position := tc.timeNode.position
  session := tc.session
  isOpen := tc.isOpen

/-- No session: the object is as it was made, or as `handleClose` left it. -/
def Resting (tc : TcpConnection) : Prop :=
  tc.state = .kConnecting ∧ tc.channel = Channel.new (-1) ∧ tc.inputBuffer = [] ∧
    tc.outputBuffer = []

theorem Resting.isOpen {tc : TcpConnection} (h : tc.Resting) : tc.isOpen = false := by
  simp [TcpConnection.isOpen, h.1]

theorem Resting.isWriting {tc : TcpConnection} (h : tc.Resting) :
    tc.channel.isWriting = false := by
  rw [h.2.1]
  rfl

theorem isOpen_of_connected {tc : TcpConnection} (h : tc.connected = true) : tc.isOpen = true := by
  have hs : tc.state = .kConnected := by simpa [connected] using h
  simp [isOpen, hs]

end TcpConnection

namespace EventLoop

/-! ## The invariant -/

/-- Whose channel the kernel watches at `fd`. -/
def watcher (w : EventLoop) (fd : Int) : Option ChannelRef := (w.poller.interest fd).map Prod.snd

theorem watcher_of_update {w w' : EventLoop} {fd : Int} {entry : Option (Events × ChannelRef)}
    (h : w'.poller.interest = Function.update w.poller.interest fd entry) (fd' : Int) :
    w'.watcher fd' = if fd' = fd then entry.map Prod.snd else w.watcher fd' := by
  rw [watcher, h]
  split
  · rename_i heq
    rw [heq, Function.update_self]
  · rename_i hne
    rw [Function.update_of_ne hne]
    rfl

/-- An open session is registered for reading at its own descriptor, and a
connection is registered nowhere else. -/
structure Watched (w : EventLoop) : Prop where
  added : ∀ c ∈ w.activeConnections, (w.conn c).channel.index = .kAdded
  reading : ∀ c ∈ w.activeConnections, (w.conn c).channel.events.epollin = true
  valid : ∀ c ∈ w.activeConnections, 0 ≤ (w.conn c).channel.fd
  here : ∀ c ∈ w.activeConnections, w.watcher (w.conn c).channel.fd = some (.conn c)
  owner : ∀ fd c, w.watcher fd = some (.conn c) →
    c ∈ w.activeConnections ∧ (w.conn c).channel.fd = fd
  openFd : ∀ fd, w.watcher fd ≠ none → fd ∈ w.openFds
  own : ∀ fd ref, w.poller.channels fd = some ref → (∀ c, ref ≠ .conn c) → w.watcher fd = some ref

/-- The idle list has one node for each active connection, which knows its
node. -/
structure Timed (w : EventLoop) : Prop where
  nodes : (w.connectionTimeList.map Prod.fst).Nodup
  fresh : ∀ e ∈ w.connectionTimeList, e.1 < w.nextPosition
  entry : ∀ c ∈ w.activeConnections,
    ∃ p, (w.conn c).timeNode.position = some p ∧ (p, c) ∈ w.connectionTimeList
  owner : ∀ e ∈ w.connectionTimeList,
    e.2 ∈ w.activeConnections ∧ (w.conn e.2).timeNode.position = some e.1

/-- The sessions closed so far, in order. -/
def closedSessions (log : List Event) : List (ConnId × Nat) :=
  log.filterMap fun
    | .closed c session => some (c, session)
    | _ => none

/-- No session was closed twice, and an open one was not closed. -/
structure Past (w : EventLoop) : Prop where
  once : (closedSessions w.log).Nodup
  before : ∀ c session, (c, session) ∈ closedSessions w.log → session ≤ (w.conn c).session
  unclosed : ∀ c ∈ w.activeConnections, (c, (w.conn c).session) ∉ closedSessions w.log

structure Sound (w : EventLoop) : Prop where
  pool : w.Pool
  unborn : ∀ c, w.allocated ≤ c → w.conn c = TcpConnection.new
  opened : ∀ c ∈ w.activeConnections, (w.conn c).isOpen = true
  resting : ∀ c, c ∉ w.activeConnections → (w.conn c).Resting
  watched : w.Watched
  timed : 0 < w.idleSeconds → w.Timed
  past : w.Past

theorem Sound.isOpen_iff {w : EventLoop} (hs : w.Sound) {c : ConnId} :
    (w.conn c).isOpen = true ↔ c ∈ w.activeConnections := by
  refine ⟨?_, hs.opened c⟩
  intro h
  by_contra hc
  rw [(hs.resting c hc).isOpen] at h
  exact absurd h (by decide)

/-! ## Quiet changes -/

structure Quiet (w w' : EventLoop) : Prop where
  idleSeconds : w'.idleSeconds = w.idleSeconds
  openFds : w'.openFds = w.openFds
  channels : w'.poller.channels = w.poller.channels
  watcher : ∀ fd, w'.watcher fd = w.watcher fd
  allocated : w'.allocated = w.allocated
  free : w'.freeTcpConnection = w.freeTcpConnection
  active : w'.activeConnections = w.activeConnections
  list : w'.connectionTimeList.Perm w.connectionTimeList
  nextPosition : w'.nextPosition = w.nextPosition
  log : w'.log = w.log
  shape : ∀ c, (w'.conn c).shape = (w.conn c).shape
  rest : ∀ c, c ∉ w.activeConnections → w'.conn c = w.conn c

namespace Quiet

theorem refl (w : EventLoop) : Quiet w w :=
  ⟨rfl, rfl, rfl, fun _ => rfl, rfl, rfl, rfl, List.Perm.refl _, rfl, rfl, fun _ => rfl,
    fun _ _ => rfl⟩

theorem trans {w w' w'' : EventLoop} (h : Quiet w w') (h' : Quiet w' w'') : Quiet w w'' where
  idleSeconds := h'.idleSeconds.trans h.idleSeconds
  openFds := h'.openFds.trans h.openFds
  channels := h'.channels.trans h.channels
  watcher := fun fd => (h'.watcher fd).trans (h.watcher fd)
  allocated := h'.allocated.trans h.allocated
  free := h'.free.trans h.free
  active := h'.active.trans h.active
  list := h'.list.trans h.list
  nextPosition := h'.nextPosition.trans h.nextPosition
  log := h'.log.trans h.log
  shape := fun c => (h'.shape c).trans (h.shape c)
  rest := fun c hc => (h'.rest c (h.active ▸ hc)).trans (h.rest c hc)

variable {w w' : EventLoop}

theorem next (h : Quiet w w') : w'.next = w.next := funext fun c => congrArg Shape.next (h.shape c)

theorem fd (h : Quiet w w') (c : ConnId) : (w'.conn c).channel.fd = (w.conn c).channel.fd :=
  congrArg Shape.fd (h.shape c)

theorem position (h : Quiet w w') (c : ConnId) :
    (w'.conn c).timeNode.position = (w.conn c).timeNode.position :=
  congrArg Shape.position (h.shape c)

theorem session (h : Quiet w w') (c : ConnId) : (w'.conn c).session = (w.conn c).session :=
  congrArg Shape.session (h.shape c)

theorem isOpen (h : Quiet w w') (c : ConnId) : (w'.conn c).isOpen = (w.conn c).isOpen :=
  congrArg Shape.isOpen (h.shape c)

theorem pool (h : Quiet w w') (hp : w.Pool) : w'.Pool := by
  obtain ⟨head, chain, hfree, hpool⟩ := hp
  refine ⟨head, chain, h.free.trans hfree, ?_⟩
  rw [h.next, h.active, h.allocated]
  exact hpool

theorem watched (h : Quiet w w') (hw : w.Watched) : w'.Watched where
  added := fun c hc => (congrArg Shape.index (h.shape c)).trans (hw.added c (h.active ▸ hc))
  reading := fun c hc => (congrArg Shape.reading (h.shape c)).trans (hw.reading c (h.active ▸ hc))
  valid := fun c hc => h.fd c ▸ hw.valid c (h.active ▸ hc)
  here := fun c hc => by rw [h.fd, h.watcher]; exact hw.here c (h.active ▸ hc)
  owner := fun fd c hfd => by
    rw [h.active, h.fd]
    exact hw.owner fd c (h.watcher fd ▸ hfd)
  openFd := fun fd hfd => h.openFds ▸ hw.openFd fd (h.watcher fd ▸ hfd)
  own := fun fd ref hch href => by
    rw [h.watcher]
    exact hw.own fd ref (h.channels ▸ hch) href

theorem timed (h : Quiet w w') (ht : w.Timed) : w'.Timed where
  nodes := (h.list.map Prod.fst).nodup_iff.mpr ht.nodes
  fresh := fun e he => h.nextPosition ▸ ht.fresh e (h.list.mem_iff.mp he)
  entry := fun c hc => by
    obtain ⟨p, hp, hmem⟩ := ht.entry c (h.active ▸ hc)
    exact ⟨p, (h.position c).trans hp, h.list.mem_iff.mpr hmem⟩
  owner := fun e he => by
    rw [h.active, h.position]
    exact ht.owner e (h.list.mem_iff.mp he)

theorem past (h : Quiet w w') (hp : w.Past) : w'.Past where
  once := h.log ▸ hp.once
  before := fun c s hcs => h.session c ▸ hp.before c s (h.log ▸ hcs)
  unclosed := fun c hc => by
    rw [h.log, h.session]
    exact hp.unclosed c (h.active ▸ hc)

end Quiet

theorem Sound.quiet {w w' : EventLoop} (hs : w.Sound) (h : Quiet w w') : w'.Sound where
  pool := h.pool hs.pool
  unborn := fun c hc => by
    have hle : w.allocated ≤ c := h.allocated ▸ hc
    have hclosed : (w.conn c).isOpen = false := by rw [hs.unborn c hle]; rfl
    have hrest : c ∉ w.activeConnections := fun hact => by
      rw [hs.opened c hact] at hclosed
      exact absurd hclosed (by decide)
    rw [h.rest c hrest, hs.unborn c hle]
  opened := fun c hc => (h.isOpen c).trans (hs.opened c (h.active ▸ hc))
  resting := fun c hc => by
    have hrest : c ∉ w.activeConnections := h.active ▸ hc
    rw [h.rest c hrest]
    exact hs.resting c hrest
  watched := h.watched hs.watched
  timed := fun hidle => h.timed (hs.timed (h.idleSeconds ▸ hidle))
  past := h.past hs.past

/-! ## The quiet calls -/

section

variable {w : EventLoop} {c : ConnId}

theorem quiet_modify {f : TcpConnection → TcpConnection} (hc : c ∈ w.activeConnections)
    (hf : (f (w.conn c)).shape = (w.conn c).shape) : Quiet w (w.modify c f) where
  idleSeconds := rfl
  openFds := rfl
  channels := rfl
  watcher := fun _ => rfl
  allocated := rfl
  free := rfl
  active := rfl
  list := List.Perm.refl _
  nextPosition := rfl
  log := rfl
  shape := fun d => by
    by_cases hd : d = c
    · subst hd; rw [conn_modify_self, hf]
    · rw [conn_modify_ne w f hd]
  rest := fun d hd => conn_modify_ne w f fun e => hd (e ▸ hc)

/-- Changing the interest of an open connection, reading kept: an
`EPOLL_CTL_MOD` at its own descriptor. -/
theorem quiet_updateInterest (hs : w.Sound) (hc : c ∈ w.activeConnections) {f : Channel → Channel}
    (hfd : ∀ ch, (f ch).fd = ch.fd) (hindex : ∀ ch, (f ch).index = ch.index)
    (hin : ∀ ch, (f ch).events.epollin = ch.events.epollin) : Quiet w (w.updateInterest c f) := by
  have hadded : (f (w.conn c).channel).index = .kAdded :=
    (hindex _).trans (hs.watched.added c hc)
  have hreading : (f (w.conn c).channel).events.epollin = true :=
    (hin _).trans (hs.watched.reading c hc)
  have hsome : (f (w.conn c).channel).isNoneEvent = false := by
    refine decide_eq_false ?_
    intro hnone
    rw [hnone] at hreading
    exact absurd hreading (by decide)
  obtain ⟨⟨ev, ref⟩, hint, href⟩ := Option.map_eq_some_iff.mp (hs.watched.here c hc)
  have hupd : w.poller.updateChannel (.conn c) (f (w.conn c).channel)
      = ((w.poller.checked (w.poller.channels (w.conn c).channel.fd = some (.conn c))).update .mod
          (.conn c) (f (w.conn c).channel), f (w.conn c).channel) := by
    simp [Epoller.updateChannel, hadded, hsome, hfd]
  refine
    { idleSeconds := rfl, openFds := rfl, channels := ?_, watcher := ?_, allocated := rfl
      free := rfl, active := rfl, list := List.Perm.refl _, nextPosition := rfl, log := rfl
      shape := ?_, rest := ?_ }
  · show ((w.modify c _).poller.updateChannel _ ((w.modify c _).conn c).channel).1.channels = _
    rw [conn_modify_self]
    show (w.poller.updateChannel (.conn c) (f (w.conn c).channel)).1.channels = _
    rw [hupd, Epoller.update, Epoller.channels_epollCtl, Epoller.channels_checked]
  · intro fd
    show (((w.modify c _).poller.updateChannel _ ((w.modify c _).conn c).channel).1.interest fd).map
      Prod.snd = _
    rw [conn_modify_self]
    show ((w.poller.updateChannel (.conn c) (f (w.conn c).channel)).1.interest fd).map Prod.snd = _
    rw [hupd, Epoller.update, hfd]
    by_cases heq : fd = (w.conn c).channel.fd
    · subst heq
      rw [hs.watched.here c hc]
      simp [Epoller.epollCtl, hint]
    · rw [Epoller.interest_epollCtl_ne _ _ _ _ heq, Epoller.interest_checked]
      rfl
  · intro d
    by_cases hd : d = c
    · subst hd
      rw [conn_updateInterest_self, hupd]
      simp [TcpConnection.shape, TcpConnection.isOpen, hfd, hindex, hin]
    · rw [conn_updateInterest_ne w f hd]
  · intro d hd
    exact conn_updateInterest_ne w f fun e => hd (e ▸ hc)

theorem quiet_enableWriting (hs : w.Sound) (hc : c ∈ w.activeConnections) :
    Quiet w (w.enableWriting c) :=
  quiet_updateInterest hs hc (fun _ => rfl) (fun _ => rfl) fun _ => rfl

theorem quiet_disableWriting (hs : w.Sound) (hc : c ∈ w.activeConnections) :
    Quiet w (w.disableWriting c) :=
  quiet_updateInterest hs hc (fun _ => rfl) (fun _ => rfl) fun _ => rfl

theorem quiet_accepted (hc : c ∈ w.activeConnections) (bs : Bytes) :
    Quiet w (w.accepted c bs) :=
  quiet_modify hc rfl

theorem quiet_keepRest (hs : w.Sound) (hc : c ∈ w.activeConnections) (data : Bytes)
    (a : WriteAttempt) : Quiet w (w.keepRest c data a) := by
  unfold keepRest
  split
  · have hbuf : Quiet w (w.modify c fun tc => { tc with
        outputBuffer := tc.outputBuffer ++ (data.drop a.nwrote).take a.remaining }) :=
      quiet_modify hc rfl
    dsimp only
    split
    · exact hbuf
    · exact hbuf.trans (quiet_enableWriting (hs.quiet hbuf) hc)
  · exact Quiet.refl w

theorem quiet_sendInLoop (hs : w.Sound) (hc : c ∈ w.activeConnections) (data : Bytes)
    (wr : WriteResult) : Quiet w (w.sendInLoop c data wr) := by
  unfold sendInLoop
  split
  · have hacc := quiet_accepted hc (data.take (WriteAttempt.of data.length wr).nwrote)
    exact hacc.trans (quiet_keepRest (hs.quiet hacc) hc data _)
  · exact quiet_keepRest hs hc data _

/-- A connected connection is active. -/
theorem Sound.active_of_connected (hs : w.Sound) (h : (w.conn c).connected = true) :
    c ∈ w.activeConnections :=
  hs.isOpen_iff.mp (TcpConnection.isOpen_of_connected h)

theorem quiet_send (hs : w.Sound) (data : Bytes) (wr : WriteResult) :
    Quiet w (w.send c data wr) := by
  unfold send
  split
  · rename_i hconn
    exact quiet_sendInLoop hs (hs.active_of_connected hconn) data wr
  · exact Quiet.refl w

theorem quiet_echoMessageCallback (hs : w.Sound) (wr : WriteResult) :
    Quiet w (w.echoMessageCallback c wr) := by
  unfold echoMessageCallback
  split
  · rename_i hconn
    have hc := hs.active_of_connected hconn
    have hsend := quiet_sendInLoop hs hc (w.conn c).inputBuffer wr
    exact hsend.trans (quiet_modify (hsend.active ▸ hc) rfl)
  · exact Quiet.refl w

theorem quiet_shutdownInLoop (hc : c ∈ w.activeConnections) : Quiet w (w.shutdownInLoop c) := by
  unfold shutdownInLoop
  split
  · exact Quiet.refl w
  · exact quiet_modify hc rfl

/-- `KConnected` to `KDisconnecting`: still open. -/
theorem quiet_setDisconnecting (hs : w.Sound) (hc : c ∈ w.activeConnections) :
    Quiet w (w.setState c .kDisconnecting) := by
  refine quiet_modify hc ?_
  have hopen := hs.opened c hc
  simp only [TcpConnection.shape, hopen]
  rfl

theorem quiet_shutdown (hs : w.Sound) : Quiet w (w.shutdown c) := by
  unfold shutdown
  split
  · rename_i hconn
    have hc := hs.active_of_connected hconn
    exact (quiet_setDisconnecting hs hc).trans (quiet_shutdownInLoop hc)
  · exact Quiet.refl w

theorem quiet_queueInLoop (w : EventLoop) (cb : BoundCall) : Quiet w (w.queueInLoop cb) := by
  exact ⟨rfl, rfl, rfl, fun _ => rfl, rfl, rfl, rfl, List.Perm.refl _, rfl, rfl, fun _ => rfl,
    fun _ _ => rfl⟩

theorem quiet_runAfter (w : EventLoop) (delay : Nat) (cb : BoundCall) :
    Quiet w (w.runAfter delay cb) := by
  exact ⟨rfl, rfl, rfl, fun _ => rfl, rfl, rfl, rfl, List.Perm.refl _, rfl, rfl, fun _ => rfl,
    fun _ _ => rfl⟩

theorem quiet_forceClose (hs : w.Sound) : Quiet w (w.forceClose c) := by
  unfold forceClose
  split
  · rename_i hopen
    exact (quiet_setDisconnecting hs (hs.isOpen_iff.mp hopen)).trans (quiet_queueInLoop _ _)
  · exact Quiet.refl w

theorem quiet_forceCloseWithDelay (hs : w.Sound) (delay : Nat) :
    Quiet w (w.forceCloseWithDelay c delay) := by
  unfold forceCloseWithDelay
  split
  · rename_i hopen
    exact (quiet_setDisconnecting hs (hs.isOpen_iff.mp hopen)).trans (quiet_runAfter _ _ _)
  · exact Quiet.refl w

theorem quiet_handleWrite (hs : w.Sound) (wr : WriteResult) : Quiet w (w.handleWrite c wr) := by
  unfold handleWrite
  split
  · rename_i hwriting
    have hc : c ∈ w.activeConnections := by
      by_contra hc
      rw [(hs.resting c hc).isWriting] at hwriting
      exact absurd hwriting (by decide)
    split
    · exact Quiet.refl w
    · exact Quiet.refl w
    · rename_i n _
      have hacc := quiet_accepted hc ((w.conn c).outputBuffer.take n)
      have hbuf : Quiet w ((w.accepted c ((w.conn c).outputBuffer.take n)).modify c
          fun tc => { tc with outputBuffer := tc.outputBuffer.drop n }) :=
        hacc.trans (quiet_modify (hacc.active ▸ hc) rfl)
      dsimp only
      split
      · have hdis := hbuf.trans (quiet_disableWriting (hs.quiet hbuf) hc)
        split
        · exact hdis.trans (quiet_shutdownInLoop hc)
        · exact hdis
      · exact hbuf
  · exact Quiet.refl w

/-! ## The idle list -/

theorem nodeAt_eq_some {p : Position} {d : ConnId} (ht : w.Timed)
    (hmem : (p, d) ∈ w.connectionTimeList) : w.nodeAt (some p) = some (p, d) := by
  have hfind : (w.nodeAt (some p)).isSome := by
    rw [nodeAt, List.find?_isSome]
    exact ⟨(p, d), hmem, by simp⟩
  obtain ⟨e, he⟩ := Option.isSome_iff_exists.mp hfind
  have hep : e.1 = p := by simpa using List.find?_some he
  have heq : e = (p, d) := List.inj_on_of_nodup_map ht.nodes (List.mem_of_find?_eq_some he) hmem hep
  rw [he, heq]

/-- Taking a node out and putting it at the tail reorders the list. -/
theorem otherNodes_perm {p : Position} {d : ConnId} (ht : w.Timed)
    (hmem : (p, d) ∈ w.connectionTimeList) :
    (w.otherNodes (some p) ++ [(p, d)]).Perm w.connectionTimeList := by
  have hfilter : w.connectionTimeList.filter (fun e => some e.1 = some p) = [(p, d)] := by
    have hnd : w.connectionTimeList.Nodup := List.Nodup.of_map _ ht.nodes
    refine List.perm_singleton.mp ((List.perm_ext_iff_of_nodup (hnd.filter _)
      (List.nodup_singleton _)).mpr ?_)
    intro e
    rw [List.mem_filter, List.mem_singleton]
    constructor
    · rintro ⟨he, hep⟩
      exact List.inj_on_of_nodup_map ht.nodes he hmem (by simpa using hep)
    · rintro rfl
      exact ⟨hmem, by simp⟩
  have hsplit := List.filter_append_perm (fun e : Position × ConnId => decide (some e.1 = some p))
    w.connectionTimeList
  rw [hfilter] at hsplit
  refine List.Perm.trans (List.perm_append_comm) ?_
  have hother : w.otherNodes (some p)
      = w.connectionTimeList.filter fun e => !decide (some e.1 = some p) := by
    simp [otherNodes]
  rw [hother]
  exact hsplit

/-- An active connection more, with a new node at the tail. -/
theorem Timed.enlist {w' : EventLoop} (ht : w.Timed)
    (hactive : w'.activeConnections = w.activeConnections ++ [c])
    (hlist : w'.connectionTimeList = w.connectionTimeList ++ [(w.nextPosition, c)])
    (hnext : w'.nextPosition = w.nextPosition + 1)
    (hself : (w'.conn c).timeNode.position = some w.nextPosition)
    (hsame : ∀ d ∈ w.activeConnections,
      (w'.conn d).timeNode.position = (w.conn d).timeNode.position) : w'.Timed := by
  have hmem : ∀ d, d ∈ w'.activeConnections ↔ d ∈ w.activeConnections ∨ d = c := by
    intro d
    rw [hactive, List.mem_append, List.mem_singleton]
  constructor
  · rw [hlist, List.map_append]
    refine List.nodup_append.mpr ⟨ht.nodes, List.nodup_singleton _, ?_⟩
    intro p hp q hq hpq
    obtain ⟨e, he, rfl⟩ := List.mem_map.mp hp
    have hlt := ht.fresh e he
    rw [hpq, List.mem_singleton.mp hq] at hlt
    exact Nat.lt_irrefl _ hlt
  · intro e he
    rw [hnext]
    rw [hlist] at he
    rcases List.mem_append.mp he with he | he
    · exact Nat.lt_succ_of_lt (ht.fresh e he)
    · rw [List.mem_singleton.mp he]
      exact Nat.lt_succ_self _
  · intro d hd
    rw [hlist]
    rcases (hmem d).mp hd with hd | rfl
    · obtain ⟨p, hp, hpd⟩ := ht.entry d hd
      exact ⟨p, (hsame d hd).trans hp, List.mem_append_left _ hpd⟩
    · exact ⟨_, hself, List.mem_append_right _ (List.mem_singleton.mpr rfl)⟩
  · intro e he
    rw [hlist] at he
    rcases List.mem_append.mp he with he | he
    · obtain ⟨hact, hp⟩ := ht.owner e he
      exact ⟨(hmem _).mpr (Or.inl hact), (hsame _ hact).trans hp⟩
    · rw [List.mem_singleton.mp he]
      exact ⟨(hmem _).mpr (Or.inr rfl), hself⟩

/-- An active connection less, and its node with it. -/
theorem Timed.delist {w' : EventLoop} (ht : w.Timed) (honce : w.activeConnections.Nodup)
    (hc : c ∈ w.activeConnections)
    (hactive : w'.activeConnections = w.activeConnections.erase c)
    (hlist : w'.connectionTimeList = w.otherNodes (w.conn c).timeNode.position)
    (hnext : w'.nextPosition = w.nextPosition)
    (hsame : ∀ d ∈ w.activeConnections, d ≠ c →
      (w'.conn d).timeNode.position = (w.conn d).timeNode.position) : w'.Timed := by
  obtain ⟨p, hp, hmem⟩ := ht.entry c hc
  have hlist' : ∀ e, e ∈ w'.connectionTimeList ↔ e ∈ w.connectionTimeList ∧ e.1 ≠ p := by
    intro e
    rw [hlist, hp, otherNodes, List.mem_filter]
    simp
  have hactive' : ∀ d, d ∈ w'.activeConnections ↔ d ≠ c ∧ d ∈ w.activeConnections := by
    intro d
    rw [hactive]
    exact honce.mem_erase_iff
  constructor
  · rw [hlist]
    exact ht.nodes.sublist (List.filter_sublist.map Prod.fst)
  · intro e he
    rw [hnext]
    exact ht.fresh e ((hlist' e).mp he).1
  · intro d hd
    obtain ⟨hdc, hd⟩ := (hactive' d).mp hd
    obtain ⟨q, hq, hqmem⟩ := ht.entry d hd
    refine ⟨q, (hsame d hd hdc).trans hq, (hlist' _).mpr ⟨hqmem, ?_⟩⟩
    intro hqp
    have heq := List.inj_on_of_nodup_map ht.nodes hqmem hmem hqp
    exact hdc (congrArg Prod.snd heq)
  · intro e he
    obtain ⟨he, hep⟩ := (hlist' e).mp he
    obtain ⟨hact, hpos⟩ := ht.owner e he
    have hdc : e.2 ≠ c := by
      intro heq
      rw [heq, hp] at hpos
      exact hep (Option.some.inj hpos).symm
    exact ⟨(hactive' _).mpr ⟨hdc, hact⟩, (hsame _ hact hdc).trans hpos⟩

/-- `updateIdleTimeList` for the connection `c`, whose node is `p`. -/
def touch (w : EventLoop) (p : Position) (c : ConnId) : EventLoop :=
  { w with connectionTimeList := w.otherNodes (some p) ++ [(p, c)] }.modify c
    fun tc => { tc with timeNode := { tc.timeNode with lastReceiveTime := w.now } }

/-- Of an active connection, `updateIdleTimeList` finds the node. -/
theorem updateIdleTimeList_eq (hidle : 0 < w.idleSeconds) (ht : w.Timed)
    (hc : c ∈ w.activeConnections) :
    ∃ p, (w.conn c).timeNode.position = some p ∧ (p, c) ∈ w.connectionTimeList ∧
      w.updateIdleTimeList c = some (w.touch p c) := by
  obtain ⟨p, hp, hmem⟩ := ht.entry c hc
  refine ⟨p, hp, hmem, ?_⟩
  rw [updateIdleTimeList, if_neg (Int.not_le.mpr hidle)]
  simp only [hp, nodeAt_eq_some ht hmem]
  rfl

theorem quiet_touch {p : Position} (ht : w.Timed) (hmem : (p, c) ∈ w.connectionTimeList) :
    Quiet w (w.touch p c) := by
  have hlist : Quiet w { w with connectionTimeList := w.otherNodes (some p) ++ [(p, c)] } :=
    ⟨rfl, rfl, rfl, fun _ => rfl, rfl, rfl, rfl, otherNodes_perm ht hmem, rfl, rfl, fun _ => rfl,
      fun _ _ => rfl⟩
  exact hlist.trans (quiet_modify (ht.owner _ hmem).1 rfl)

theorem updateIdleTimeList_quiet (hs : w.Sound) (hc : c ∈ w.activeConnections) :
    ∃ w', w.updateIdleTimeList c = some w' ∧ Quiet w w' := by
  by_cases hidle : w.idleSeconds ≤ 0
  · exact ⟨w, if_pos hidle, Quiet.refl w⟩
  · have hpos : 0 < w.idleSeconds := Int.not_le.mp hidle
    obtain ⟨p, -, hmem, heq⟩ := updateIdleTimeList_eq hpos (hs.timed hpos) hc
    exact ⟨w.touch p c, heq, quiet_touch (hs.timed hpos) hmem⟩

theorem quiet_visitIdle (hs : w.Sound) (now : Int) (hc : c ∈ w.activeConnections) :
    Quiet w (w.visitIdle now c).1 := by
  unfold visitIdle
  dsimp only
  split
  · split
    · have hdown := quiet_shutdown (c := c) hs
      exact hdown.trans (quiet_forceCloseWithDelay (hs.quiet hdown) _)
    · exact Quiet.refl w
  · split
    · exact quiet_modify (f := fun tc =>
        { tc with timeNode := { tc.timeNode with lastReceiveTime := now } }) hc rfl
    · exact Quiet.refl w

/-- The scan never meets an object of the free chain: the entries are those of
the active connections. -/
theorem quiet_removeExpiredLoop (now : Int) (ahead : List (Position × ConnId)) :
    ∀ {w : EventLoop}, w.Sound → (∀ e ∈ ahead, e.2 ∈ w.activeConnections) →
      Quiet w (w.removeExpiredLoop now ahead) := by
  induction ahead with
  | nil => intro w _ _; exact Quiet.refl w
  | cons e ahead ih =>
      intro w hs hact
      obtain ⟨p, c⟩ := e
      have hc : c ∈ w.activeConnections := hact (p, c) List.mem_cons_self
      obtain ⟨head, chain, hfree, hpool⟩ := hs.pool
      have hnone : (w.conn c).nextTcpConn = none := hpool.noNext c hc
      have hvisit := quiet_visitIdle hs now hc
      simp only [removeExpiredLoop, hnone]
      split
      · refine hvisit.trans (ih (hs.quiet hvisit) ?_)
        intro e he
        rw [hvisit.active]
        exact hact e (List.mem_cons_of_mem _ he)
      · exact hvisit

theorem quiet_removeExpiredConnection (hs : w.Sound) : Quiet w w.removeExpiredConnection := by
  unfold removeExpiredConnection
  split
  · exact Quiet.refl w
  · rename_i hidle
    exact quiet_removeExpiredLoop w.now _ hs fun e he =>
      ((hs.timed (Int.not_le.mp hidle)).owner e he).1

end

end EventLoop

end WebServer

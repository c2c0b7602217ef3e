/-
# `Net.EventLoop` — the state of one loop, its connection pool and its idle list

Everything one `EventLoop` owns, as its own thread sees it: the poller, the
`TcpConnection` objects (a heap of records addressed by `ConnId`), the chain of
free ones, the vector of active ones, the list that orders them by the time
they were last heard of, the functors queued on the loop and the timers it has
armed.  `none` as a result means undefined behaviour: a null pointer followed,
`end()` erased, an iterator used after its node is gone.

Three things are history and environment, read by no code: `session`, which
counts how often an object was handed out; `socket`, what the kernel has
accepted for the session's descriptor; and `log`, the handlers that ran.

The idle list is a `std::list` of `weak_ptr`; its iterators are node addresses,
`Position`, never used twice, so that a stale iterator names no node.  The
objects are owned by the pool and by the active vector and are never destroyed
while the loop runs, so locking a `weak_ptr` yields the object.
-/
import WebServer.Lib.Memory
import WebServer.Net.Epoller

namespace WebServer

/-- The address of a `TcpConnection` object. -/
abbrev ConnId := Nat

/-- The address of a node of `connectionTimeList_`. -/
abbrev Position := Nat

/-- Whose channel a channel pointer designates. -/
inductive ChannelRef where
  | wakeup
  | timer
  | conn (c : ConnId)
  deriving DecidableEq

inductive StateE where
  | kConnecting
  | kConnected
  | kDisconnecting
  | kDisconnected
  deriving DecidableEq

structure TimeNode where
  lastReceiveTime : Int
  position : Option Position
  deriving DecidableEq

/-- The kernel's record of a session's descriptor: the bytes `::write` has
accepted, and how often `SHUT_WR` was issued. -/
structure Socket where
  written : Bytes := []
  shutWr : Nat := 0
  deriving DecidableEq

structure TcpConnection where
  state : StateE
  index : Int
  nextTcpConn : Option ConnId
  channel : Channel
  timeNode : TimeNode
  inputBuffer : Bytes
  outputBuffer : Bytes
  session : Nat
  socket : Socket
  deriving DecidableEq

namespace TcpConnection

/-- The constructor. -/
def new : TcpConnection where
  state := .kConnecting
  index := -1
  nextTcpConn := none
  channel := Channel.new (-1)
  timeNode := ⟨0, none⟩
  inputBuffer := []
  outputBuffer := []
  session := 0
  socket := {}

/-- `state_ == KConnected || state_ == KDisconnecting`. -/
def isOpen (tc : TcpConnection) : Bool :=
  tc.state = .kConnected || tc.state = .kDisconnecting

def connected (tc : TcpConnection) : Bool := tc.state = .kConnected

def reset (tc : TcpConnection) : TcpConnection :=
  { tc with state := .kConnecting, inputBuffer := [], outputBuffer := [] }

end TcpConnection

/-- A bound call waiting in `pendingFunctors_` or in a timer, with the session
in which it was bound. -/
inductive BoundCall where
  | forceCloseInLoop (c : ConnId) (session : Nat)
  deriving DecidableEq

inductive CallbackKind where
  | read
  | write
  | close
  deriving DecidableEq

/-- What the history records. -/
inductive Event where
  /-- `poll` returned and a batch starts. -/
  | polled
  /-- a callback of a connection's channel starts -/
  | callback (kind : CallbackKind) (c : ConnId)
  /-- `handleClose` closed a session -/
  | closed (c : ConnId) (session : Nat)
  /-- `forceCloseInLoop`, bound in session `issued`, closed session `session` -/
  | forceClosed (c : ConnId) (issued session : Nat)
  deriving DecidableEq

structure EventLoop where
  idleSeconds : Int
  now : Int
  openFds : List Int
  poller : Epoller ChannelRef
  heap : ConnId → TcpConnection
  allocated : ConnId
  freeTcpConnection : Option ConnId
  activeConnections : List ConnId
  connectionTimeList : List (Position × ConnId)
  nextPosition : Position
  pendingFunctors : List BoundCall
  timers : List (Int × BoundCall)
  log : List Event

namespace EventLoop

/-! ## Reading and writing the heap -/

def conn (w : EventLoop) (c : ConnId) : TcpConnection := w.heap c

/-- Assign through the pointer `c`. -/
def modify (w : EventLoop) (c : ConnId) (f : TcpConnection → TcpConnection) : EventLoop :=
  { w with heap := Function.update w.heap c (f (w.heap c)) }

def record (w : EventLoop) (e : Event) : EventLoop := { w with log := w.log ++ [e] }

@[simp] theorem conn_modify_self (w : EventLoop) (c : ConnId) (f : TcpConnection → TcpConnection) :
    (w.modify c f).conn c = f (w.conn c) := by
  simp [modify, conn]

@[simp] theorem conn_modify_ne (w : EventLoop) {c d : ConnId} (f : TcpConnection → TcpConnection)
    (h : d ≠ c) : (w.modify c f).conn d = w.conn d := by
  simp [modify, conn, Function.update_of_ne h]

/-- `loop_->updateChannel(channel_.get())`. -/
def updateChannel (w : EventLoop) (c : ConnId) : EventLoop :=
  let r := w.poller.updateChannel (.conn c) (w.conn c).channel
  { w with poller := r.1 }.modify c fun tc => { tc with channel := r.2 }

/-- `EventLoop::removeChannel(channel)`. -/
def removeChannel (w : EventLoop) (c : ConnId) : EventLoop :=
  let r := w.poller.removeChannel (.conn c) (w.conn c).channel
  { w with poller := r.1 }.modify c fun tc => { tc with channel := r.2 }

/-- Change the channel's interest, then `Channel::update`. -/
def updateInterest (w : EventLoop) (c : ConnId) (f : Channel → Channel) : EventLoop :=
  (w.modify c fun tc => { tc with channel := f tc.channel }).updateChannel c

theorem conn_updateChannel_self (w : EventLoop) (c : ConnId) :
    (w.updateChannel c).conn c = { w.conn c with
      channel := (w.poller.updateChannel (.conn c) (w.conn c).channel).2 } := by
  rw [updateChannel, conn_modify_self]; rfl

theorem conn_updateChannel_ne (w : EventLoop) {c d : ConnId} (h : d ≠ c) :
    (w.updateChannel c).conn d = w.conn d := by
  rw [updateChannel, conn_modify_ne _ _ h]; rfl

theorem conn_updateInterest_self (w : EventLoop) (c : ConnId) (f : Channel → Channel) :
    (w.updateInterest c f).conn c = { w.conn c with
      channel := (w.poller.updateChannel (.conn c) (f (w.conn c).channel)).2 } := by
  rw [updateInterest, conn_updateChannel_self, conn_modify_self]; rfl

theorem conn_updateInterest_ne (w : EventLoop) {c d : ConnId} (f : Channel → Channel) (h : d ≠ c) :
    (w.updateInterest c f).conn d = w.conn d := by
  rw [updateInterest, conn_updateChannel_ne _ h, conn_modify_ne _ _ h]

def enableReading (w : EventLoop) (c : ConnId) : EventLoop := w.updateInterest c .wantReading
def enableWriting (w : EventLoop) (c : ConnId) : EventLoop := w.updateInterest c .wantWriting
def disableWriting (w : EventLoop) (c : ConnId) : EventLoop := w.updateInterest c .dropWriting
def disableAll (w : EventLoop) (c : ConnId) : EventLoop := w.updateInterest c .dropAll

/-! ## The idle list -/

/-- `insert(conn)`: a node at the tail, and its position in the time node. -/
def insert (w : EventLoop) (c : ConnId) : EventLoop :=
  if w.idleSeconds ≤ 0 then w
  else
    { w with
      connectionTimeList := w.connectionTimeList ++ [(w.nextPosition, c)]
      nextPosition := w.nextPosition + 1 }.modify c
        fun tc => { tc with timeNode := ⟨w.now, some w.nextPosition⟩ }

/-- The node an iterator designates, if it is still in the list. -/
def nodeAt (w : EventLoop) (p : Option Position) : Option (Position × ConnId) :=
  w.connectionTimeList.find? fun e => some e.1 = p

/-- The other nodes, in order. -/
def otherNodes (w : EventLoop) (p : Option Position) : List (Position × ConnId) :=
  w.connectionTimeList.filter fun e => some e.1 ≠ p

/-- `connectionTimeList_.erase(position)`. -/
def eraseNode (w : EventLoop) (p : Option Position) : Option EventLoop :=
  match w.nodeAt p with
  | none => none
  | some _ => some { w with connectionTimeList := w.otherNodes p }

/-- `updateIdleTimeList(node)` with the time node of `c`: stamp it and splice
its entry to the tail. -/
def updateIdleTimeList (w : EventLoop) (c : ConnId) : Option EventLoop :=
  if w.idleSeconds ≤ 0 then some w
  else
    let p := (w.conn c).timeNode.position
    match w.nodeAt p with
    | none => none
    | some e =>
        some ({ w with connectionTimeList := w.otherNodes p ++ [e] }.modify c fun tc =>
          { tc with timeNode := { tc.timeNode with lastReceiveTime := w.now } })

/-! ## The connection pool -/

def MaxConnectionPoolSize : Nat := 512

/-- `new TcpConnection(this)`, at an address never used before. -/
def allocate (w : EventLoop) : EventLoop :=
  { w with heap := Function.update w.heap w.allocated TcpConnection.new
           allocated := w.allocated + 1 }

def setNextTcpConn (w : EventLoop) (c : ConnId) (next : Option ConnId) : EventLoop :=
  w.modify c fun tc => { tc with nextTcpConn := next }

/-- The loop of `initConnectionPool`, at its `i`-th round, `n` rounds to go;
`tc` is the last object of the chain. -/
def initConnectionPoolLoop (w : EventLoop) (tc : ConnId) (i : Nat) : Nat → EventLoop
  | 0 => w
  | n + 1 =>
      let tct := w.allocated
      let w := w.allocate.modify tct fun t => { t with index := i }
      (w.setNextTcpConn tc (some tct)).initConnectionPoolLoop tct (i + 1) n

/-- `initConnectionPool()`, for a pool of `size` objects. -/
def initConnectionPool (w : EventLoop) (size : Nat) : EventLoop :=
  let head := w.allocated
  { w.allocate with freeTcpConnection := some head }.initConnectionPoolLoop head 0 size

/-- The first half of `getNextFreeConnection`: the first object of the chain,
or a new one. -/
def takeFree (w : EventLoop) (head : ConnId) : EventLoop × ConnId :=
  match (w.conn head).nextTcpConn with
  | some tc => ((w.setNextTcpConn head (w.conn tc).nextTcpConn).setNextTcpConn tc none, tc)
  | none => (w.allocate, w.allocated)

/-- `configEvent()`: the channel is shown to the poller, then set to read. -/
def configEvent (w : EventLoop) (c : ConnId) : EventLoop := (w.updateChannel c).enableReading c

/-- The second half of `getNextFreeConnection`: the session starts. -/
def openSession (w : EventLoop) (tc : ConnId) (connfd : Int) : EventLoop :=
  let w := { w with activeConnections := w.activeConnections ++ [tc]
                    openFds := connfd :: w.openFds }
  let w := w.modify tc fun t =>
    { t with state := .kConnected, channel := { t.channel with fd := connfd }
             session := t.session + 1, socket := {} }
  (w.insert tc).configEvent tc

/-- `getNextFreeConnection(connfd)`. -/
def getNextFreeConnection (w : EventLoop) (connfd : Int) : Option EventLoop :=
  match w.freeTcpConnection with
  | none => none
  | some head =>
      let r := w.takeFree head
      some (r.1.openSession r.2 connfd)

/-- `returnBackConnection(stc)`. -/
def returnBackConnection (w : EventLoop) (stc : ConnId) : Option EventLoop :=
  match w.freeTcpConnection with
  | none => none
  | some head =>
      let w := (w.setNextTcpConn stc (w.conn head).nextTcpConn).setNextTcpConn head (some stc)
      if stc ∈ w.activeConnections then
        let w := { w with activeConnections := w.activeConnections.erase stc }
        if w.idleSeconds ≤ 0 then some w else w.eraseNode (w.conn stc).timeNode.position
      else none

/-! ## Timers and functors -/

/-- `runAfter(delay, cb)`, the delay in microseconds. -/
def runAfter (w : EventLoop) (delay : Nat) (cb : BoundCall) : EventLoop :=
  { w with timers := w.timers ++ [(w.now + delay, cb)] }

/-- `queueInLoop(cb)`, in the loop's own thread. -/
def queueInLoop (w : EventLoop) (cb : BoundCall) : EventLoop :=
  { w with pendingFunctors := w.pendingFunctors ++ [cb] }

/-! ## A new loop -/

/-- The loop's own channel on `fd`, registered for reading. -/
def watch (p : Epoller ChannelRef) (ref : ChannelRef) (fd : Int) : Epoller ChannelRef :=
  (p.updateChannel ref (Channel.new fd).wantReading).1

/-- The constructor: the event descriptor and the timer descriptor are watched,
there is no pool yet. -/
def new (idleSeconds now epollFd timerFd wakeupFd : Int) : EventLoop where
  idleSeconds := idleSeconds
  now := now
  openFds := [epollFd, timerFd, wakeupFd]
  poller := watch (watch Epoller.new .timer timerFd) .wakeup wakeupFd
  heap := fun _ => TcpConnection.new
  allocated := 0
  freeTcpConnection := none
  activeConnections := []
  connectionTimeList := []
  nextPosition := 0
  pendingFunctors := []
  timers := []
  log := []

/-- A loop whose thread has built its pool. -/
def start (idleSeconds now epollFd timerFd wakeupFd : Int) : EventLoop :=
  (new idleSeconds now epollFd timerFd wakeupFd).initConnectionPool MaxConnectionPoolSize

end EventLoop

end WebServer

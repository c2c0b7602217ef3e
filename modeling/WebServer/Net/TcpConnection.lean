/-
# `Net.TcpConnection` — what a connection does in the loop's thread

The member functions of `TcpConnection`, on the loop that owns the object and
for the object at address `c`, each one as the source orders its effects.  The
kernel's answers are arguments: what `::write` returned, what `readv` returned.
The two byte buffers are byte queues here; `Base.Buffer` says when the class
they are made of is one.

`handleRead` hands what it read to `echoMessageCallback`, the callback the
source compiles in.
-/
import WebServer.Net.EventLoop

namespace WebServer

/-- The values of `errno` the code tells apart. -/
inductive Errno where
  | ewouldblock
  | epipe
  | econnreset
  | efault
  | eintr
  | other
  deriving DecidableEq

/-- What `::write(fd, data, len)` answers: how many bytes of the front it
accepted, or an error. -/
inductive WriteResult where
  | wrote (n : Nat)
  | fail (errno : Errno)
  deriving DecidableEq

/-- What reading a descriptor answers. -/
inductive ReadResult where
  /-- at least one byte -/
  | data (first : UInt8) (rest : Bytes)
  /-- zero bytes: the peer closed its side -/
  | eof
  | fail
  deriving DecidableEq

namespace EventLoop

/-! ## Sending -/

/-- `sendInLoop` knows these once it has tried to write at once. -/
structure WriteAttempt where
  nwrote : Nat
  remaining : Nat
  faultError : Bool
  deriving DecidableEq

/-- The first branch of `sendInLoop`: one `::write` of `len` bytes. -/
def WriteAttempt.of (len : Nat) : WriteResult → WriteAttempt
  | .wrote n => ⟨n, len - n, false⟩
  | .fail e =>
      ⟨0, 0, e != .ewouldblock && (e == .epipe || e == .econnreset || e == .efault || e == .eintr)⟩

/-- The local variables as they are initialised, when nothing is written. -/
def WriteAttempt.skipped : WriteAttempt := ⟨0, 0, false⟩

/-- The kernel accepts the bytes `bs` for the session's descriptor. -/
def accepted (w : EventLoop) (c : ConnId) (bs : Bytes) : EventLoop :=
  w.modify c fun tc => { tc with socket := { tc.socket with written := tc.socket.written ++ bs } }

/-- The condition of the first branch of `sendInLoop`. -/
def outputIdle (tc : TcpConnection) : Bool :=
  !tc.channel.isWriting && tc.outputBuffer.length == 0

/-- The second half of `sendInLoop`: what was not written is buffered. -/
def keepRest (w : EventLoop) (c : ConnId) (data : Bytes) (a : WriteAttempt) : EventLoop :=
  if !a.faultError && 0 < a.remaining then
    let rest := (data.drop a.nwrote).take a.remaining
    let w := w.modify c fun tc => { tc with outputBuffer := tc.outputBuffer ++ rest }
    if (w.conn c).channel.isWriting then w else w.enableWriting c
  else w

/-- `sendInLoop(data, len)`; `wr` is the answer of its `::write`, if it gets
that far. -/
def sendInLoop (w : EventLoop) (c : ConnId) (data : Bytes) (wr : WriteResult) : EventLoop :=
  if outputIdle (w.conn c) then
    let a := WriteAttempt.of data.length wr
    (w.accepted c (data.take a.nwrote)).keepRest c data a
  else w.keepRest c data .skipped

/-- `send(buf)` in the loop's thread, `data` being the readable bytes of `buf`. -/
def send (w : EventLoop) (c : ConnId) (data : Bytes) (wr : WriteResult) : EventLoop :=
  if (w.conn c).connected then w.sendInLoop c data wr else w

/-- `echoMessageCallback(&inputBuffer_)`: `send` of the input buffer, which is
emptied when the connection is connected. -/
def echoMessageCallback (w : EventLoop) (c : ConnId) (wr : WriteResult) : EventLoop :=
  if (w.conn c).connected then
    (w.sendInLoop c (w.conn c).inputBuffer wr).modify c fun tc => { tc with inputBuffer := [] }
  else w

/-! ## Shutting down and closing -/

/-- `shutdownInLoop()`. -/
def shutdownInLoop (w : EventLoop) (c : ConnId) : EventLoop :=
  if (w.conn c).channel.isWriting then w
  else w.modify c fun tc => { tc with socket := { tc.socket with shutWr := tc.socket.shutWr + 1 } }

def setState (w : EventLoop) (c : ConnId) (s : StateE) : EventLoop :=
  w.modify c fun tc => { tc with state := s }

/-- `shutdown()` in the loop's thread. -/
def shutdown (w : EventLoop) (c : ConnId) : EventLoop :=
  if (w.conn c).connected then (w.setState c .kDisconnecting).shutdownInLoop c else w

/-- `forceClose()`. -/
def forceClose (w : EventLoop) (c : ConnId) : EventLoop :=
  if (w.conn c).isOpen then
    (w.setState c .kDisconnecting).queueInLoop (.forceCloseInLoop c (w.conn c).session)
  else w

/-- `forceCloseWithDelay(delay)`, the delay in microseconds. -/
def forceCloseWithDelay (w : EventLoop) (c : ConnId) (delay : Nat) : EventLoop :=
  if (w.conn c).isOpen then
    (w.setState c .kDisconnecting).runAfter delay (.forceCloseInLoop c (w.conn c).session)
  else w

/-- `::close(fd)`, as the kernel and its epoll set see it. -/
def closeFd (w : EventLoop) (fd : Int) : EventLoop :=
  { w with openFds := w.openFds.filter (· ≠ fd), poller := w.poller.closeFd fd }

def setFd (w : EventLoop) (c : ConnId) (fd : Int) : EventLoop :=
  w.modify c fun tc => { tc with channel := { tc.channel with fd := fd } }

/-- `handleClose()` up to the two calls that give the object back. -/
def closeSession (w : EventLoop) (c : ConnId) : EventLoop :=
  let w := (w.setState c .kDisconnected).disableAll c
  let w := (w.closeFd (w.conn c).channel.fd).setFd c (-1)
  w.modify c TcpConnection.reset

/-- `handleClose()`. -/
def handleClose (w : EventLoop) (c : ConnId) : Option EventLoop :=
  let w := w.record (.closed c (w.conn c).session)
  ((w.closeSession c).removeChannel c).returnBackConnection c

/-- `forceCloseInLoop()`, bound in session `issued`. -/
def forceCloseInLoop (w : EventLoop) (c : ConnId) (issued : Nat) : Option EventLoop :=
  if (w.conn c).isOpen then
    (w.record (.forceClosed c issued (w.conn c).session)).handleClose c
  else some w

def runBoundCall (w : EventLoop) : BoundCall → Option EventLoop
  | .forceCloseInLoop c issued => w.forceCloseInLoop c issued

/-! ## The callbacks of the channel -/

/-- `handleWrite()`. -/
def handleWrite (w : EventLoop) (c : ConnId) (wr : WriteResult) : EventLoop :=
  if (w.conn c).channel.isWriting then
    match wr with
    | .fail _ => w
    | .wrote 0 => w
    | .wrote n =>
        let w := w.accepted c ((w.conn c).outputBuffer.take n)
        let w := w.modify c fun tc => { tc with outputBuffer := tc.outputBuffer.drop n }
        if (w.conn c).outputBuffer.length = 0 then
          let w := w.disableWriting c
          if (w.conn c).state = .kDisconnecting then w.shutdownInLoop c else w
        else w
  else w

/-- `handleRead()`: `r` is what `readFd` got, `wr` the answer to the `::write`
of the echo. -/
def handleRead (w : EventLoop) (c : ConnId) (r : ReadResult) (wr : WriteResult) :
    Option EventLoop :=
  match r with
  | .data first rest =>
      let w := w.modify c fun tc => { tc with inputBuffer := tc.inputBuffer ++ first :: rest }
      (w.updateIdleTimeList c).map fun w => w.echoMessageCallback c wr
  | .eof => (w.updateIdleTimeList c).bind fun w => w.handleClose c
  | .fail => w.updateIdleTimeList c

/-! ## The scan for idle connections -/

/-- Microseconds in a second. -/
def kMicroSecondsPerSecond : Int := 1000000

/-- What `removeExpiredConnection` does at one entry whose object is not on the
free chain; `false` ends the scan. -/
def visitIdle (w : EventLoop) (now : Int) (c : ConnId) : EventLoop × Bool :=
  let age := now - (w.conn c).timeNode.lastReceiveTime
  if w.idleSeconds * kMicroSecondsPerSecond < age then
    if (w.conn c).connected then ((w.shutdown c).forceCloseWithDelay c 3500000, true)
    else (w, true)
  else if age < 0 then
    (w.modify c fun tc => { tc with timeNode := { tc.timeNode with lastReceiveTime := now } }, true)
  else (w, false)

/-- The loop of `removeExpiredConnection`, over the entries still ahead. -/
def removeExpiredLoop (w : EventLoop) (now : Int) : List (Position × ConnId) → EventLoop
  | [] => w
  | (p, c) :: rest =>
      match (w.conn c).nextTcpConn with
      | none =>
          let r := w.visitIdle now c
          if r.2 then r.1.removeExpiredLoop now rest else r.1
      | some _ => { w with connectionTimeList := w.otherNodes (some p) }.removeExpiredLoop now rest

/-- `removeExpiredConnection()`. -/
def removeExpiredConnection (w : EventLoop) : EventLoop :=
  if w.idleSeconds ≤ 0 then w else w.removeExpiredLoop w.now w.connectionTimeList

end EventLoop

end WebServer

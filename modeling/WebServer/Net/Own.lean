/-
# `Net.Own` — what a connection's own calls can touch

Sending, shutting down and draining the output write the connection's record
and the poller, and nothing else of the loop.  `Own c w w'` says so: the rest of
the loop is as it was, so is every other connection, and `c` is still the same
object in the same session at the same place of the idle list.

What another module wants of these calls (that no session starts, that no time
is stamped) it reads off `Own`.
-/
import WebServer.Net.TcpConnection

namespace WebServer

/-- The fields that no call of a connection on itself writes. -/
structure Identity where
  index : Int
  next : Option ConnId
  fd : Int
  node : TimeNode
  session : Nat

def TcpConnection.identity (tc : TcpConnection) : Identity where
  index := tc.index
  next := tc.nextTcpConn
  fd := tc.channel.fd
  node := tc.timeNode
  session := tc.session

namespace EventLoop

structure Own (c : ConnId) (w w' : EventLoop) : Prop where
  frame : { w' with heap := w.heap, poller := w.poller } = w
  others : ∀ d, d ≠ c → w'.conn d = w.conn d
  self : (w'.conn c).identity = (w.conn c).identity

namespace Own

variable {c : ConnId} {w w' w'' : EventLoop}

theorem refl (c : ConnId) (w : EventLoop) : Own c w w := ⟨rfl, fun _ _ => rfl, rfl⟩

theorem trans (h : Own c w w') (h' : Own c w' w'') : Own c w w'' where
  frame := by
    have hw' := congrArg (fun v : EventLoop => { v with heap := w.heap, poller := w.poller })
      h'.frame
    exact hw'.trans h.frame
  others := fun d hd => (h'.others d hd).trans (h.others d hd)
  self := h'.self.trans h.self

theorem identity (h : Own c w w') (d : ConnId) : (w'.conn d).identity = (w.conn d).identity := by
  by_cases hd : d = c
  · rw [hd, h.self]
  · rw [h.others d hd]

theorem node (h : Own c w w') (d : ConnId) : (w'.conn d).timeNode = (w.conn d).timeNode :=
  congrArg Identity.node (h.identity d)

theorem session (h : Own c w w') (d : ConnId) : (w'.conn d).session = (w.conn d).session :=
  congrArg Identity.session (h.identity d)

theorem idleSeconds (h : Own c w w') : w'.idleSeconds = w.idleSeconds :=
  (congrArg EventLoop.idleSeconds h.frame :)

theorem now (h : Own c w w') : w'.now = w.now := (congrArg EventLoop.now h.frame :)

theorem list (h : Own c w w') : w'.connectionTimeList = w.connectionTimeList :=
  (congrArg EventLoop.connectionTimeList h.frame :)

theorem timers (h : Own c w w') : w'.timers = w.timers := (congrArg EventLoop.timers h.frame :)

theorem pendingFunctors (h : Own c w w') : w'.pendingFunctors = w.pendingFunctors :=
  (congrArg EventLoop.pendingFunctors h.frame :)

theorem log (h : Own c w w') : w'.log = w.log := (congrArg EventLoop.log h.frame :)

end Own

section

variable {w : EventLoop} {c : ConnId}

theorem own_modify {f : TcpConnection → TcpConnection}
    (hf : (f (w.conn c)).identity = (w.conn c).identity) : Own c w (w.modify c f) :=
  ⟨rfl, fun _ hd => conn_modify_ne w f hd, by rw [conn_modify_self, hf]⟩

theorem fd_updateChannel {κ : Type} [DecidableEq κ] (p : Epoller κ) (ptr : κ) (ch : Channel) :
    (p.updateChannel ptr ch).2.fd = ch.fd := by
  obtain ⟨index, hch⟩ := p.updateChannel_index ptr ch
  rw [hch]

theorem own_updateInterest {f : Channel → Channel} (hf : ∀ ch, (f ch).fd = ch.fd) :
    Own c w (w.updateInterest c f) := by
  refine ⟨rfl, fun _ hd => conn_updateInterest_ne w f hd, ?_⟩
  rw [conn_updateInterest_self, TcpConnection.identity, fd_updateChannel, hf]
  rfl

theorem own_accepted {bs : Bytes} : Own c w (w.accepted c bs) := own_modify rfl

theorem own_setState {s : StateE} : Own c w (w.setState c s) := own_modify rfl

theorem own_keepRest {data : Bytes} {a : WriteAttempt} : Own c w (w.keepRest c data a) := by
  unfold keepRest
  split
  · have hbuf : Own c w (w.modify c fun tc => { tc with
        outputBuffer := tc.outputBuffer ++ (data.drop a.nwrote).take a.remaining }) :=
      own_modify rfl
    dsimp only
    split
    · exact hbuf
    · exact hbuf.trans (own_updateInterest fun _ => rfl)
  · exact Own.refl c w

theorem own_sendInLoop {data : Bytes} {wr : WriteResult} : Own c w (w.sendInLoop c data wr) := by
  unfold sendInLoop
  split
  · exact own_accepted.trans own_keepRest
  · exact own_keepRest

theorem own_send {data : Bytes} {wr : WriteResult} : Own c w (w.send c data wr) := by
  unfold send
  split
  · exact own_sendInLoop
  · exact Own.refl c w

theorem own_echoMessageCallback {wr : WriteResult} : Own c w (w.echoMessageCallback c wr) := by
  unfold echoMessageCallback
  split
  · exact own_sendInLoop.trans (own_modify rfl)
  · exact Own.refl c w

theorem own_shutdownInLoop : Own c w (w.shutdownInLoop c) := by
  unfold shutdownInLoop
  split
  · exact Own.refl c w
  · exact own_modify rfl

theorem own_shutdown : Own c w (w.shutdown c) := by
  unfold shutdown
  split
  · exact own_setState.trans own_shutdownInLoop
  · exact Own.refl c w

theorem own_handleWrite {wr : WriteResult} : Own c w (w.handleWrite c wr) := by
  unfold handleWrite
  split
  · split
    · exact Own.refl c w
    · exact Own.refl c w
    · have hbuf : ∀ n, Own c w ((w.accepted c ((w.conn c).outputBuffer.take n)).modify c
          fun tc => { tc with outputBuffer := tc.outputBuffer.drop n }) := fun n =>
        own_accepted.trans (own_modify rfl)
      have hdis : ∀ v : EventLoop, Own c v (v.disableWriting c) := fun v =>
        own_updateInterest fun _ => rfl
      dsimp only
      split
      · split
        · exact (hbuf _).trans ((hdis _).trans own_shutdownInLoop)
        · exact (hbuf _).trans (hdis _)
      · exact hbuf _
  · exact Own.refl c w

end

end EventLoop

end WebServer

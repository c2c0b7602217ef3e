/-
# `Net.Relay` — a client is sent the bytes of its own session

The sessions of a loop share its objects, its buffers' memory and its thread.  What
was offered on a connection in a session is what was read from its descriptor and what
was given to `send`.  The bytes that its socket has accepted and those that still wait
in the two buffers are of that, in order and none twice (`relayed`), whatever the other
connections do and whoever had the object before.

A byte can be lost on the way (`Net.Output` says when); what comes out is a part of the
stream, and never one of another's.
-/
import WebServer.Net.LoopFds
import WebServer.Net.Output
import WebServer.Net.Own

namespace WebServer

/-- The bytes of a session, and whether it still takes any. -/
structure Traffic where
  written : Bytes
  outputBuffer : Bytes
  inputBuffer : Bytes
  connected : Bool
  session : Nat

def TcpConnection.traffic (tc : TcpConnection) : Traffic where
  written := tc.socket.written
  outputBuffer := tc.outputBuffer
  inputBuffer := tc.inputBuffer
  connected := tc.connected
  session := tc.session

namespace Traffic

/-- The bytes in the order in which they came. -/
def bytes (f : Traffic) : Bytes := f.written ++ f.outputBuffer ++ f.inputBuffer

/-- The input is handed on at once while the connection is connected. -/
def Drained (f : Traffic) : Prop := f.connected = true → f.inputBuffer = []

/-- A step in a session that is offered `data`. -/
structure Relays (f : Traffic) (data : Bytes) (g : Traffic) : Prop where
  bytes : g.bytes.Sublist (f.bytes ++ data)
  drained : g.Drained
  session : g.session = f.session

variable {f g k : Traffic} {data : Bytes}

theorem Drained.refl (h : f.Drained) : f.Relays [] f :=
  ⟨by rw [List.append_nil], h, rfl⟩

theorem Relays.trans {more : Bytes} (h : f.Relays data g) (h' : g.Relays more k) :
    f.Relays (data ++ more) k := by
  refine ⟨?_, h'.drained, h'.session.trans h.session⟩
  rw [← List.append_assoc]
  exact h'.bytes.trans (h.bytes.append_right more)

/-- The bytes stay where they are; the connection may stop taking any. -/
theorem Drained.drops (h : f.Drained) (b : Bool) (hb : b = true → f.connected = true) :
    f.Relays [] { f with connected := b } :=
  ⟨by rw [List.append_nil, bytes, bytes], fun hconn => h (hb hconn), rfl⟩

/-- `sendInLoop` of `data`: some of it is written or waits to be. -/
structure Sends (f : Traffic) (data : Bytes) (g : Traffic) : Prop where
  output : (g.written ++ g.outputBuffer).Sublist (f.written ++ f.outputBuffer ++ data)
  input : g.inputBuffer = f.inputBuffer
  session : g.session = f.session

theorem Sends.trans {more : Bytes} (h : f.Sends data g) (h' : g.Sends more k) :
    f.Sends (data ++ more) k where
  output := by
    rw [← List.append_assoc]
    exact h'.output.trans (h.output.append_right more)
  input := h'.input.trans h.input
  session := h'.session.trans h.session

/-- What is sent is the input buffer, which is then emptied. -/
theorem Sends.echo (h : f.Sends f.inputBuffer g) : f.Relays [] { g with inputBuffer := [] } := by
  refine ⟨?_, fun _ => rfl, h.session⟩
  rw [bytes, List.append_nil, List.append_nil]
  exact h.output

end Traffic

namespace Relay

open EventLoop Machine Traffic

/-! ## One connection -/

section

variable {w w' : EventLoop} {c : ConnId}

theorem traffic_updateInterest (w : EventLoop) (c : ConnId) (f : Channel → Channel) :
    ((w.updateInterest c f).conn c).traffic = (w.conn c).traffic := by
  rw [conn_updateInterest_self]
  rfl

theorem traffic_keepRest (w : EventLoop) (c : ConnId) (data : Bytes) (a : WriteAttempt) :
    ((w.keepRest c data a).conn c).traffic =
      if !a.faultError && 0 < a.remaining then
        { (w.conn c).traffic with
          outputBuffer := (w.conn c).outputBuffer ++ (data.drop a.nwrote).take a.remaining }
      else (w.conn c).traffic := by
  unfold keepRest
  split
  · dsimp only
    split
    · rw [conn_modify_self]
      rfl
    · rw [enableWriting, traffic_updateInterest, conn_modify_self]
      rfl
  · rfl

theorem sends_keepRest (w : EventLoop) (c : ConnId) (data : Bytes) (a : WriteAttempt) :
    (w.conn c).traffic.Sends (data.drop a.nwrote) ((w.keepRest c data a).conn c).traffic := by
  rw [traffic_keepRest]
  split
  · refine ⟨?_, rfl, rfl⟩
    show ((w.conn c).socket.written ++ ((w.conn c).outputBuffer ++
      (data.drop a.nwrote).take a.remaining)).Sublist _
    rw [← List.append_assoc]
    exact (List.take_sublist _ _).append_left _
  · exact ⟨List.sublist_append_left _ _, rfl, rfl⟩

theorem sends_sendInLoop (w : EventLoop) (c : ConnId) (data : Bytes) (wr : WriteResult) :
    (w.conn c).traffic.Sends data ((w.sendInLoop c data wr).conn c).traffic := by
  unfold sendInLoop
  split
  · rename_i hidle
    have hempty := (Output.outputIdle_iff.mp hidle).2
    dsimp only
    generalize WriteAttempt.of data.length wr = a
    have haccept : (w.conn c).traffic.Sends (data.take a.nwrote)
        ((w.accepted c (data.take a.nwrote)).conn c).traffic := by
      rw [accepted, conn_modify_self]
      refine ⟨?_, rfl, rfl⟩
      show ((w.conn c).socket.written ++ data.take a.nwrote ++ (w.conn c).outputBuffer).Sublist
        ((w.conn c).socket.written ++ (w.conn c).outputBuffer ++ data.take a.nwrote)
      rw [hempty, List.append_nil, List.append_nil]
    have hboth := haccept.trans (sends_keepRest _ c data a)
    rw [List.take_append_drop] at hboth
    exact hboth
  · exact sends_keepRest w c data .skipped

/-- The echo, with the bytes that were read in the input buffer. -/
theorem relays_echoMessageCallback (w : EventLoop) (c : ConnId) (wr : WriteResult) :
    (w.conn c).traffic.Relays [] ((w.echoMessageCallback c wr).conn c).traffic := by
  unfold echoMessageCallback
  split
  · have hsends := sends_sendInLoop w c (w.conn c).inputBuffer wr
    rw [conn_modify_self]
    exact hsends.echo
  · rename_i hconn
    exact Drained.refl fun h => absurd h hconn

theorem relays_setDisconnecting (h : (w.conn c).traffic.Drained) :
    (w.conn c).traffic.Relays [] ((w.setState c .kDisconnecting).conn c).traffic := by
  rw [setState, conn_modify_self]
  exact h.drops false (by simp)

theorem relays_forceClose (h : (w.conn c).traffic.Drained) :
    (w.conn c).traffic.Relays [] ((w.forceClose c).conn c).traffic := by
  unfold forceClose
  split
  · exact relays_setDisconnecting h
  · exact h.refl

theorem relays_forceCloseWithDelay (h : (w.conn c).traffic.Drained) (delay : Nat) :
    (w.conn c).traffic.Relays [] ((w.forceCloseWithDelay c delay).conn c).traffic := by
  unfold forceCloseWithDelay
  split
  · exact relays_setDisconnecting h
  · exact h.refl

end

/-! ## The loop -/

def AllDrained (w : EventLoop) : Prop := ∀ d, (w.conn d).traffic.Drained

/-- What each connection is offered by a step. -/
def Step (w : EventLoop) (data : ConnId → Bytes) (w' : EventLoop) : Prop :=
  ∀ d, (w.conn d).traffic.Relays (data d) (w'.conn d).traffic

/-- Bytes for one connection. -/
def only (c : ConnId) (data : Bytes) (d : ConnId) : Bytes := if d = c then data else []

/-- No connection is offered anything. -/
abbrev Still (w w' : EventLoop) : Prop := Step w (fun _ => []) w'

section

variable {w w' w'' : EventLoop} {c : ConnId} {data : Bytes}

theorem Step.allDrained {data : ConnId → Bytes} (h : Step w data w') : AllDrained w' :=
  fun d => (h d).drained

theorem Still.trans (h : Still w w') (h' : Still w' w'') : Still w w'' :=
  fun d => (h d).trans (h' d)

/-- Nothing of any connection's traffic changes. -/
theorem still_same (h : AllDrained w) (hsame : ∀ d, (w'.conn d).traffic = (w.conn d).traffic) :
    Still w w' := by
  intro d
  rw [hsame]
  exact (h d).refl

/-- The step of one connection. -/
theorem step_on (h : AllDrained w) (hother : ∀ d, d ≠ c → w'.conn d = w.conn d)
    (hself : (w.conn c).traffic.Relays data (w'.conn c).traffic) : Step w (only c data) w' := by
  intro d
  rw [only]
  by_cases hd : d = c
  · rw [if_pos hd, hd]
    exact hself
  · rw [if_neg hd, hother d hd]
    exact (h d).refl

theorem still_on (h : AllDrained w) (hother : ∀ d, d ≠ c → w'.conn d = w.conn d)
    (hself : (w.conn c).traffic.Relays [] (w'.conn c).traffic) : Still w w' := by
  have hstep := step_on h hother hself
  intro d
  have hd := hstep d
  rw [only, ite_self] at hd
  exact hd

theorem traffic_updateIdleTimeList (hw' : w.updateIdleTimeList c = some w') (d : ConnId) :
    (w'.conn d).traffic = (w.conn d).traffic := by
  rcases updateIdleTimeList_cases hw' with rfl | ⟨nodes, rfl⟩
  · rfl
  · by_cases hd : d = c
    · rw [hd, conn_modify_self]
      rfl
    · rw [conn_modify_ne _ _ hd]
      rfl

theorem still_forceClose (h : AllDrained w) (c : ConnId) : Still w (w.forceClose c) := by
  refine still_on h ?_ (relays_forceClose (h c))
  intro d hd
  unfold forceClose
  split
  · exact own_setState.others d hd
  · rfl

theorem still_forceCloseWithDelay (h : AllDrained w) (c : ConnId) (delay : Nat) :
    Still w (w.forceCloseWithDelay c delay) := by
  refine still_on h ?_ (relays_forceCloseWithDelay (h c) delay)
  intro d hd
  unfold forceCloseWithDelay
  split
  · exact own_setState.others d hd
  · rfl

/-- Closing drops what the buffers held. -/
theorem still_closed (h : AllDrained w) (hcl : Closed w c w') : Still w w' := by
  intro d
  by_cases hd : d = c
  · obtain ⟨n, hn⟩ := hcl.self
    rw [hd, hn]
    refine ⟨?_, nofun, rfl⟩
    show ((w.conn c).socket.written ++ [] ++ []).Sublist ((w.conn c).socket.written ++
      (w.conn c).outputBuffer ++ (w.conn c).inputBuffer ++ [])
    rw [List.append_nil, List.append_nil, List.append_nil, List.append_assoc]
    exact List.sublist_append_left _ _
  · obtain ⟨n, hn⟩ := hcl.others d hd
    rw [hn]
    exact (h d).refl

theorem still_handleClose (hs : w.Sound) (h : AllDrained w) (hw' : w.handleClose c = some w') :
    Still w w' := still_closed h (closed_of_handleClose hs hw').2

/-- What an act offers on a connection: what it reads there, or what it sends. -/
def offers : Act → ConnId → Bytes
  | .handleRead c (.data first rest) _ => only c (first :: rest)
  | .call (.send c data _) => only c data
  | _ => fun _ => []

/-- A session has started on the connection. -/
structure Fresh (f g : Traffic) : Prop where
  session : g.session ≠ f.session
  empty : g.bytes = []
  drained : g.Drained

theorem step_handleRead (hs : w.Sound) (h : AllDrained w) (hc : c ∈ w.activeConnections)
    {r : ReadResult} {wr : WriteResult} (hw' : w.handleRead c r wr = some w') :
    Step w (offers (.handleRead c r wr)) w' := by
  cases r with
  | data first rest =>
      obtain ⟨v, hv, rfl⟩ := Option.map_eq_some_iff.mp hw'
      have hother : ∀ d, d ≠ c → (v.conn d).traffic = (w.conn d).traffic := by
        intro d hd
        rw [traffic_updateIdleTimeList hv, conn_modify_ne _ _ hd]
      have hself : (v.conn c).traffic = { (w.conn c).traffic with
          inputBuffer := (w.conn c).inputBuffer ++ first :: rest } := by
        rw [traffic_updateIdleTimeList hv, conn_modify_self]
        rfl
      intro d
      show (w.conn d).traffic.Relays (only c (first :: rest) d) _
      rw [only]
      by_cases hd : d = c
      · -- what was read is behind all that came before
        subst hd
        rw [if_pos rfl]
        have hecho := relays_echoMessageCallback v d wr
        refine ⟨?_, hecho.drained, hecho.session.trans (congrArg Traffic.session hself :)⟩
        have hbytes : (v.conn d).traffic.bytes = (w.conn d).traffic.bytes ++ first :: rest := by
          rw [hself]
          exact (List.append_assoc _ _ _).symm
        rw [← hbytes, ← List.append_nil (v.conn d).traffic.bytes]
        exact hecho.bytes
      · rw [if_neg hd, own_echoMessageCallback.others d hd, hother d hd]
        exact (h d).refl
  | eof =>
      obtain ⟨v, hv, hvw⟩ := Option.bind_eq_some_iff.mp hw'
      obtain ⟨u, hu, hq⟩ := updateIdleTimeList_quiet hs hc
      cases hv.symm.trans hu
      have hidle := still_same h (traffic_updateIdleTimeList hv)
      exact hidle.trans (still_handleClose (hs.quiet hq) hidle.allDrained hvw)
  | fail => exact still_same h (traffic_updateIdleTimeList hw')

end

/-! ## Every run -/

/-- The loop, and what each connection has been offered in its session. -/
structure State where
  loop : EventLoop
  offered : ConnId → Bytes

def step (s : State) (a : Act) : Option State :=
  if s.loop.Proper a then
    (s.loop.act a).map fun w =>
      { loop := w
        offered := fun c =>
          if (w.conn c).session = (s.loop.conn c).session then s.offered c ++ offers a c else [] }
  else none

def start (idleSeconds now epollFd timerFd wakeupFd : Int) : State where
  loop := EventLoop.start idleSeconds now epollFd timerFd wakeupFd
  offered := fun _ => []

end Relay

end WebServer

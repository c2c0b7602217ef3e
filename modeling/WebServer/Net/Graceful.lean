/-
# `Net.Graceful` — the write side of a session is shut down once, and last

`SHUT_WR` is issued in one place, `shutdownInLoop`, and guarded there by the
write-interest bit alone.  Two calls lead to it: `shutdown()`, and the
`handleWrite()` that drains the output of a connection in `KDisconnecting`.

`calls w a` lists the `::write`s and the `SHUT_WR`s that act `a` issues in state
`w`, function by function as the source orders them; a run keeps them in its
`trace`, each with its connection and session.  Of a connection only its `Flow`
matters.  `Good` is the invariant of a flow: the bit is set exactly when output
is pending, and once the write side is shut down nothing is pending and nothing
new is accepted.  `Moved` says what a call does to a good flow, and
`never_cut_off` what every run comes to, over the closing of sessions and the
reuse of their objects.
-/
import WebServer.Net.Idle
import WebServer.Net.Output

namespace WebServer

/-- A system call on a session's descriptor. -/
inductive Syscall where
  /-- `::write`, and the bytes it accepted -/
  | write (taken : Bytes)
  /-- `SHUT_WR`, issued with `pending` in the output buffer -/
  | shutWr (pending : Bytes)
  deriving DecidableEq

def Socket.after (s : Socket) : Syscall → Socket
  | .write taken => { s with written := s.written ++ taken }
  | .shutWr _ => { s with shutWr := s.shutWr + 1 }

/-- What the sending and the shutting down of a connection read and write. -/
structure Flow where
  state : StateE
  writing : Bool
  outputBuffer : Bytes
  session : Nat
  socket : Socket

def TcpConnection.flow (tc : TcpConnection) : Flow where
  state := tc.state
  writing := tc.channel.isWriting
  outputBuffer := tc.outputBuffer
  session := tc.session
  socket := tc.socket

namespace Graceful

open EventLoop Idle Batch

/-! ## The system calls of one act -/

def sendInLoopCalls (w : EventLoop) (c : ConnId) (data : Bytes) (wr : WriteResult) :
    List Syscall :=
  if outputIdle (w.conn c) then [.write (data.take (WriteAttempt.of data.length wr).nwrote)] else []

def sendCalls (w : EventLoop) (c : ConnId) (data : Bytes) (wr : WriteResult) : List Syscall :=
  if (w.conn c).connected then sendInLoopCalls w c data wr else []

def echoCalls (w : EventLoop) (c : ConnId) (wr : WriteResult) : List Syscall :=
  if (w.conn c).connected then sendInLoopCalls w c (w.conn c).inputBuffer wr else []

def shutdownInLoopCalls (w : EventLoop) (c : ConnId) : List Syscall :=
  if (w.conn c).channel.isWriting then [] else [.shutWr (w.conn c).outputBuffer]

def shutdownCalls (w : EventLoop) (c : ConnId) : List Syscall :=
  if (w.conn c).connected then shutdownInLoopCalls (w.setState c .kDisconnecting) c else []

def handleWriteCalls (w : EventLoop) (c : ConnId) (wr : WriteResult) : List Syscall :=
  if (w.conn c).channel.isWriting then
    match wr with
    | .fail _ => [.write []]
    | .wrote 0 => [.write []]
    | .wrote n =>
        let taken := (w.conn c).outputBuffer.take n
        let w := w.accepted c taken
        let w := w.modify c fun tc => { tc with outputBuffer := tc.outputBuffer.drop n }
        if (w.conn c).outputBuffer.length = 0 then
          let w := w.disableWriting c
          if (w.conn c).state = .kDisconnecting then .write taken :: shutdownInLoopCalls w c
          else [.write taken]
        else [.write taken]
  else []

def handleReadCalls (w : EventLoop) (c : ConnId) (r : ReadResult) (wr : WriteResult) :
    List Syscall :=
  match r with
  | .data first rest =>
      let w := w.modify c fun tc => { tc with inputBuffer := tc.inputBuffer ++ first :: rest }
      match w.updateIdleTimeList c with
      | some w => echoCalls w c wr
      | none => []
  | _ => []

/-- The calls `cs`, made on connection `c`. -/
def on (c : ConnId) (cs : List Syscall) : List (ConnId × Syscall) := cs.map fun x => (c, x)

def visitIdleCalls (w : EventLoop) (now : Int) (c : ConnId) : List (ConnId × Syscall) :=
  if w.idleSeconds * kMicroSecondsPerSecond < now - (w.conn c).timeNode.lastReceiveTime then
    if (w.conn c).connected then on c (shutdownCalls w c) else []
  else []

def removeExpiredCalls (w : EventLoop) (now : Int) : List (Position × ConnId) →
    List (ConnId × Syscall)
  | [] => []
  | (p, c) :: rest =>
      match (w.conn c).nextTcpConn with
      | none =>
          let r := w.visitIdle now c
          visitIdleCalls w now c ++ if r.2 then removeExpiredCalls r.1 now rest else []
      | some _ => removeExpiredCalls { w with connectionTimeList := w.otherNodes (some p) } now rest

def calls (w : EventLoop) : Act → List (ConnId × Syscall)
  | .call (.send c data wr) => on c (sendCalls w c data wr)
  | .call (.shutdown c) => on c (shutdownCalls w c)
  | .call .removeExpiredConnection =>
      if w.idleSeconds ≤ 0 then [] else removeExpiredCalls w w.now w.connectionTimeList
  | .handleRead c r wr => on c (handleReadCalls (w.record (.callback .read c)) c r wr)
  | .handleWrite c wr => on c (handleWriteCalls (w.record (.callback .write c)) c wr)
  | _ => []

/-! ## Runs with their system calls -/

structure State where
  loop : EventLoop
  /-- the system calls so far, each with its connection and session -/
  trace : List (ConnId × Nat × Syscall)

/-- What the kernel promises: `accept` returns a descriptor not in use, and
reading from descriptor -1 fails. -/
def Legal (w : EventLoop) (a : Act) : Prop :=
  Granted w a ∧ ∀ c r wr, a = .handleRead c r wr → (w.conn c).channel.fd < 0 → r = .fail

instance (w : EventLoop) : ∀ a, Decidable (Legal w a)
  | .handleRead c r wr => decidable_of_iff
      (Granted w (.handleRead c r wr) ∧ ((w.conn c).channel.fd < 0 → r = .fail))
      ⟨fun h => ⟨h.1, fun _ _ _ e hfd => by cases e; exact h.2 hfd⟩,
        fun h => ⟨h.1, h.2 c r wr rfl⟩⟩
  | .tick dt => decidable_of_iff (Granted w (.tick dt)) ⟨fun h => ⟨h, nofun⟩, fun h => h.1⟩
  | .call k => decidable_of_iff (Granted w (.call k)) ⟨fun h => ⟨h, nofun⟩, fun h => h.1⟩
  | .handleWrite c wr =>
      decidable_of_iff (Granted w (.handleWrite c wr)) ⟨fun h => ⟨h, nofun⟩, fun h => h.1⟩
  | .handleClose c =>
      decidable_of_iff (Granted w (.handleClose c)) ⟨fun h => ⟨h, nofun⟩, fun h => h.1⟩

def step (s : State) (a : Act) : Option State :=
  if Legal s.loop a then
    (s.loop.act a).map fun w =>
      ⟨w, s.trace ++ (calls s.loop a).map fun e => (e.1, (s.loop.conn e.1).session, e.2)⟩
  else none

def start (idleSeconds now epollFd timerFd wakeupFd : Int) : State :=
  ⟨EventLoop.start idleSeconds now epollFd timerFd wakeupFd, []⟩

/-- The system calls of session `g` of connection `c`, in order. -/
def State.syscalls (s : State) (c : ConnId) (g : Nat) : List Syscall :=
  s.trace.filterMap fun e => if e.1 = c ∧ e.2.1 = g then some e.2.2 else none

/-! ## Calls in a good order -/

/-- `SHUT_WR` comes with nothing pending, and nothing comes after it. -/
def Last (cs : List Syscall) : Prop :=
  ∀ before pending after, cs = before ++ .shutWr pending :: after → pending = [] ∧ after = []

theorem last_nil : Last [] := by
  intro before pending after h
  exact absurd h.symm (by simp)

theorem last_write (taken : Bytes) : Last [.write taken] := by
  intro before pending after h
  rcases List.cons_eq_append_iff.mp h with ⟨-, h⟩ | ⟨_, -, h⟩
  · exact absurd h (by simp)
  · exact absurd h (by simp)

theorem last_shutWr : Last [.shutWr []] := by
  intro before pending after h
  rcases List.cons_eq_append_iff.mp h with ⟨-, h⟩ | ⟨_, -, h⟩
  · cases h
    exact ⟨rfl, rfl⟩
  · exact absurd h (by simp)

/-- What comes after calls none of which is a `SHUT_WR`. -/
theorem Last.append {cs ds : List Syscall} (hnone : ∀ pending, .shutWr pending ∉ cs)
    (h : Last ds) : Last (cs ++ ds) := by
  intro before pending after heq
  rcases List.append_eq_append_iff.mp heq with ⟨mid, -, hds⟩ | ⟨mid, hcs, hds⟩
  · exact h mid pending after hds
  · cases mid with
    | nil => exact h [] pending after hds.symm
    | cons x mid =>
        obtain rfl := (List.cons.inj hds).1
        exact absurd (hcs ▸ List.mem_append_right _ List.mem_cons_self) (hnone pending)

theorem Last.countP_le {cs : List Syscall} (h : Last cs) :
    (cs.countP fun x => x matches .shutWr _) ≤ 1 := by
  induction cs with
  | nil => exact Nat.zero_le 1
  | cons x cs ih =>
      cases x with
      | write taken =>
          have hcs : Last cs := by
            intro before pending after heq
            exact h (.write taken :: before) pending after (by rw [heq]; rfl)
          simpa using ih hcs
      | shutWr pending =>
          rw [(h [] pending cs rfl).2]
          exact Nat.le_refl 1

theorem shutWr_foldl (cs : List Syscall) : ∀ s : Socket,
    (cs.foldl Socket.after s).shutWr = s.shutWr + cs.countP fun x => x matches .shutWr _ := by
  induction cs with
  | nil => intro s; rfl
  | cons x cs ih =>
      intro s
      rw [List.foldl_cons, ih]
      cases x with
      | write taken => simp [Socket.after]
      | shutWr pending =>
          simp only [Socket.after, List.countP_cons]
          simp
          omega

/-- The kernel has seen no `SHUT_WR`: there was none. -/
theorem no_shutWr {cs : List Syscall} {s : Socket} (h : (cs.foldl Socket.after s).shutWr = 0) :
    ∀ pending, .shutWr pending ∉ cs := by
  intro pending hmem
  rw [shutWr_foldl] at h
  have hpos : 0 < cs.countP fun x => x matches .shutWr _ :=
    List.countP_pos_iff.mpr ⟨_, hmem, rfl⟩
  omega

/-! ## What a call does to its connection -/

/-- The write-interest bit is set exactly when output is pending; once the write
side is shut down the bit is clear, and nothing can be sent. -/
structure Good (f : Flow) : Prop where
  bit : f.writing = true ↔ f.outputBuffer ≠ []
  shut : 0 < f.socket.shutWr → f.writing = false ∧ f.state ≠ .kConnected

/-- A connection in flow `f` made the calls `cs`, and came to flow `g`. -/
structure Moved (f g : Flow) (cs : List Syscall) : Prop where
  session : g.session = f.session
  socket : g.socket = cs.foldl Socket.after f.socket
  good : Good g
  silent : 0 < f.socket.shutWr → cs = []
  last : Last cs

theorem Good.refl {f : Flow} (h : Good f) : Moved f f [] := ⟨rfl, rfl, h, fun _ => rfl, last_nil⟩

/-- A connection whose write side is open. -/
theorem Good.open_of_connected {f : Flow} (h : Good f) (hs : f.state = .kConnected) :
    f.socket.shutWr = 0 := by
  by_contra hne
  exact (h.shut (Nat.pos_of_ne_zero hne)).2 hs

theorem Good.open_of_writing {f : Flow} (h : Good f) (hw : f.writing = true) :
    f.socket.shutWr = 0 := by
  by_contra hne
  rw [(h.shut (Nat.pos_of_ne_zero hne)).1] at hw
  exact absurd hw (by decide)

namespace Moved

variable {f g k : Flow} {cs ds : List Syscall}

theorem trans (h : Moved f g cs) (h' : Moved g k ds) : Moved f k (cs ++ ds) where
  session := h'.session.trans h.session
  socket := by rw [h'.socket, h.socket, List.foldl_append]
  good := h'.good
  silent := fun hpos => by
    have hcs := h.silent hpos
    have hsame : g.socket = f.socket := by rw [h.socket, hcs]; rfl
    rw [hcs, h'.silent (hsame ▸ hpos), List.append_nil]
  last := by
    by_cases hds : ds = []
    · rw [hds, List.append_nil]
      exact h.last
    · have hzero : g.socket.shutWr = 0 := by
        by_contra hne
        exact hds (h'.silent (Nat.pos_of_ne_zero hne))
      exact h'.last.append (no_shutWr (h.socket ▸ hzero))

/-- A change that makes no system call. -/
theorem still (hsession : g.session = f.session) (hsocket : g.socket = f.socket) (hg : Good g) :
    Moved f g [] := ⟨hsession, hsocket, hg, fun _ => rfl, last_nil⟩

/-- A call made while the write side is open. -/
theorem ofOpen (hopen : f.socket.shutWr = 0) (hsession : g.session = f.session)
    (hsocket : g.socket = cs.foldl Socket.after f.socket) (hg : Good g) (hlast : Last cs) :
    Moved f g cs :=
  ⟨hsession, hsocket, hg, fun hpos => absurd hopen (Nat.pos_iff_ne_zero.mp hpos), hlast⟩

end Moved

section

variable {w : EventLoop} {c : ConnId}

theorem isWriting_updateChannel {κ : Type} [DecidableEq κ] (p : Epoller κ) (ptr : κ)
    (ch : Channel) : (p.updateChannel ptr ch).2.isWriting = ch.isWriting := by
  obtain ⟨index, hch⟩ := p.updateChannel_index ptr ch
  rw [hch]
  rfl

theorem flow_updateInterest (w : EventLoop) (c : ConnId) (f : Channel → Channel) :
    ((w.updateInterest c f).conn c).flow =
      { (w.conn c).flow with writing := (f (w.conn c).channel).isWriting } := by
  rw [conn_updateInterest_self, TcpConnection.flow, isWriting_updateChannel]
  rfl

theorem flow_disableWriting (w : EventLoop) (c : ConnId) :
    ((w.disableWriting c).conn c).flow = { (w.conn c).flow with writing := false } :=
  flow_updateInterest w c Channel.dropWriting

/-- What `keepRest` buffers, and the bit it sets. -/
theorem flow_keepRest (w : EventLoop) (c : ConnId) (data : Bytes) (a : WriteAttempt) :
    ((w.keepRest c data a).conn c).flow =
      if !a.faultError && 0 < a.remaining then
        { (w.conn c).flow with
          writing := true
          outputBuffer := (w.conn c).outputBuffer ++ (data.drop a.nwrote).take a.remaining }
      else (w.conn c).flow := by
  unfold keepRest
  split
  · dsimp only
    split
    · rename_i hwriting
      rw [conn_modify_self] at hwriting ⊢
      simp only [TcpConnection.flow, hwriting]
    · rw [enableWriting, flow_updateInterest, conn_modify_self]
      rfl
  · rfl

/-- `sendInLoop` on a connected connection. -/
theorem moved_sendInLoop (h : Good (w.conn c).flow) (hconn : (w.conn c).connected = true)
    (data : Bytes) (wr : WriteResult) :
    Moved (w.conn c).flow ((w.sendInLoop c data wr).conn c).flow (sendInLoopCalls w c data wr) := by
  have hstate : (w.conn c).flow.state = .kConnected := of_decide_eq_true hconn
  have hopen := h.open_of_connected hstate
  unfold sendInLoop sendInLoopCalls
  split
  · rename_i hidle
    obtain ⟨hbit, hempty⟩ := Output.outputIdle_iff.mp hidle
    have hacc : ((w.accepted c (data.take (WriteAttempt.of data.length wr).nwrote)).conn c).flow =
        { (w.conn c).flow with
          socket := (w.conn c).socket.after
            (.write (data.take (WriteAttempt.of data.length wr).nwrote)) } := by
      rw [accepted, conn_modify_self]
      rfl
    refine Moved.ofOpen hopen ?_ ?_ ?_ (last_write _)
    all_goals rw [flow_keepRest, hacc]
    · split <;> rfl
    · split <;> rfl
    · have hrest : ∀ a : WriteAttempt, a = WriteAttempt.of data.length wr → 0 < a.remaining →
          (data.drop a.nwrote).take a.remaining ≠ [] := by
        rintro a rfl hpos hnil
        cases wr with
        | wrote n =>
            have hlt : 0 < data.length - n := hpos
            have hlen := congrArg List.length hnil
            simp only [WriteAttempt.of, List.length_take, List.length_drop, List.length_nil] at hlen
            omega
        | fail e => exact absurd hpos (Nat.lt_irrefl 0)
      split
      · rename_i hkeep
        have hpos : 0 < (WriteAttempt.of data.length wr).remaining := by
          simp only [Bool.and_eq_true, decide_eq_true_eq] at hkeep
          exact hkeep.2
        refine ⟨⟨fun _ => List.append_ne_nil_of_right_ne_nil _ (hrest _ rfl hpos),
          fun _ => rfl⟩, ?_⟩
        intro hshut
        exact absurd hopen (Nat.pos_iff_ne_zero.mp hshut)
      · refine ⟨h.bit, ?_⟩
        intro hshut
        exact absurd hopen (Nat.pos_iff_ne_zero.mp hshut)
  · have hskip : w.keepRest c data .skipped = w := Output.keepRest_none w c data rfl
    rw [hskip]
    exact h.refl

theorem moved_send (h : Good (w.conn c).flow) (data : Bytes) (wr : WriteResult) :
    Moved (w.conn c).flow ((w.send c data wr).conn c).flow (sendCalls w c data wr) := by
  unfold send sendCalls
  split
  · rename_i hconn
    exact moved_sendInLoop h hconn data wr
  · exact h.refl

theorem moved_echoMessageCallback (h : Good (w.conn c).flow) (wr : WriteResult) :
    Moved (w.conn c).flow ((w.echoMessageCallback c wr).conn c).flow (echoCalls w c wr) := by
  unfold echoMessageCallback echoCalls
  split
  · rename_i hconn
    rw [conn_modify_self]
    exact moved_sendInLoop h hconn (w.conn c).inputBuffer wr
  · exact h.refl

/-- `shutdownInLoop` on a connection that nothing can be sent on any more. -/
theorem moved_shutdownInLoop (h : Good (w.conn c).flow) (hopen : (w.conn c).socket.shutWr = 0)
    (hstate : (w.conn c).state ≠ .kConnected) :
    Moved (w.conn c).flow ((w.shutdownInLoop c).conn c).flow (shutdownInLoopCalls w c) := by
  unfold shutdownInLoop shutdownInLoopCalls
  split
  · exact h.refl
  · rename_i hbit
    have hempty : (w.conn c).outputBuffer = [] := not_not.mp fun hne => hbit (h.bit.mpr hne)
    rw [hempty]
    refine Moved.ofOpen hopen ?_ ?_ ?_ last_shutWr
    all_goals rw [conn_modify_self]
    · rfl
    · rfl
    · exact ⟨h.bit, fun _ => ⟨eq_false_of_ne_true hbit, hstate⟩⟩

theorem flow_setState (w : EventLoop) (c : ConnId) (s : StateE) :
    ((w.setState c s).conn c).flow = { (w.conn c).flow with state := s } := by
  rw [setState, conn_modify_self]
  rfl

/-- Leaving `KConnected`. -/
theorem Good.disconnecting {f : Flow} (h : Good f) : Good { f with state := .kDisconnecting } :=
  ⟨h.bit, fun hpos => ⟨(h.shut hpos).1, nofun⟩⟩

theorem moved_setDisconnecting (h : Good (w.conn c).flow) :
    Moved (w.conn c).flow ((w.setState c .kDisconnecting).conn c).flow [] := by
  rw [flow_setState]
  exact Moved.still rfl rfl h.disconnecting

theorem moved_shutdown (h : Good (w.conn c).flow) :
    Moved (w.conn c).flow ((w.shutdown c).conn c).flow (shutdownCalls w c) := by
  unfold EventLoop.shutdown shutdownCalls
  split
  · rename_i hconn
    have hopen := h.open_of_connected (of_decide_eq_true hconn)
    have hset := moved_setDisconnecting (c := c) h
    have hzero : ((w.setState c .kDisconnecting).conn c).flow.socket.shutWr = 0 := by
      rw [hset.socket]
      exact hopen
    have hstate : ((w.setState c .kDisconnecting).conn c).flow.state ≠ .kConnected := by
      rw [flow_setState]
      exact nofun
    exact hset.trans (moved_shutdownInLoop hset.good hzero hstate)
  · exact h.refl

theorem moved_forceClose (h : Good (w.conn c).flow) :
    Moved (w.conn c).flow ((w.forceClose c).conn c).flow [] := by
  unfold forceClose
  split
  · exact moved_setDisconnecting h
  · exact h.refl

theorem moved_forceCloseWithDelay (h : Good (w.conn c).flow) (delay : Nat) :
    Moved (w.conn c).flow ((w.forceCloseWithDelay c delay).conn c).flow [] := by
  unfold forceCloseWithDelay
  split
  · exact moved_setDisconnecting h
  · exact h.refl

/-- A write of `n > 0` bytes, before the bit is looked at again. -/
theorem flow_drain (w : EventLoop) (c : ConnId) (n : Nat) :
    (((w.accepted c ((w.conn c).outputBuffer.take n)).modify c
      fun tc => { tc with outputBuffer := tc.outputBuffer.drop n }).conn c).flow =
        { (w.conn c).flow with
          outputBuffer := (w.conn c).outputBuffer.drop n
          socket := (w.conn c).socket.after (.write ((w.conn c).outputBuffer.take n)) } := by
  rw [conn_modify_self, accepted, conn_modify_self]
  rfl

theorem after_write_nil (s : Socket) : s.after (.write []) = s := by
  simp [Socket.after]

theorem moved_handleWrite (h : Good (w.conn c).flow) (wr : WriteResult) :
    Moved (w.conn c).flow ((w.handleWrite c wr).conn c).flow (handleWriteCalls w c wr) := by
  unfold handleWrite handleWriteCalls
  split
  · rename_i hbit
    have hopen := h.open_of_writing hbit
    have hnone : Moved (w.conn c).flow (w.conn c).flow [.write []] :=
      Moved.ofOpen hopen rfl (after_write_nil _).symm h (last_write [])
    rcases wr with (_ | m) | e
    · exact hnone
    · have hdrain := flow_drain w c (m + 1)
      simp only
      generalize ((w.accepted c ((w.conn c).outputBuffer.take (m + 1))).modify c
        fun tc => { tc with outputBuffer := tc.outputBuffer.drop (m + 1) }) = v at hdrain ⊢
      have hout : (v.conn c).outputBuffer = (w.conn c).outputBuffer.drop (m + 1) :=
        congrArg Flow.outputBuffer hdrain
      have hsocket : (v.conn c).flow.socket =
          [Syscall.write ((w.conn c).outputBuffer.take (m + 1))].foldl Socket.after
            (w.conn c).flow.socket :=
        congrArg Flow.socket hdrain
      have hsession : (v.conn c).flow.session = (w.conn c).flow.session := by rw [hdrain]
      have hzero : (v.conn c).flow.socket.shutWr = 0 := by rw [hsocket]; exact hopen
      split
      · -- the output is drained
        rename_i hlen
        have hempty : (v.conn c).flow.outputBuffer = [] := List.length_eq_zero_iff.mp hlen
        have hoff := flow_disableWriting v c
        have hgood : Good ((v.disableWriting c).conn c).flow := by
          rw [hoff]
          refine ⟨⟨fun hoff => Bool.noConfusion hoff, fun hne => absurd hempty hne⟩, ?_⟩
          intro hpos
          exact absurd hzero (Nat.pos_iff_ne_zero.mp hpos)
        have hwrite : Moved (w.conn c).flow ((v.disableWriting c).conn c).flow
            [.write ((w.conn c).outputBuffer.take (m + 1))] := by
          refine Moved.ofOpen hopen ?_ ?_ hgood (last_write _)
          · rw [hoff]
            exact hsession
          · rw [hoff]
            exact hsocket
        split
        · rename_i hstate
          refine hwrite.trans (moved_shutdownInLoop hgood ?_ ?_)
          · have hsame := congrArg Flow.socket hoff
            exact (congrArg Socket.shutWr hsame).trans hzero
          · rw [hstate]
            decide
        · exact hwrite
      · -- output remains pending
        rename_i hlen
        refine Moved.ofOpen hopen hsession hsocket ?_ (last_write _)
        have hne : (v.conn c).outputBuffer ≠ [] := fun e => hlen (by rw [e]; rfl)
        have hon : (v.conn c).flow.writing = true := by
          rw [hdrain]
          exact hbit
        refine ⟨⟨fun _ => hne, fun _ => hon⟩, ?_⟩
        intro hpos
        exact absurd hzero (Nat.pos_iff_ne_zero.mp hpos)
    · exact hnone
  · exact h.refl

end

/-! ## What an act does to every connection -/

/-- Those of the calls that were made on connection `d`. -/
def callsOn (cs : List (ConnId × Syscall)) (d : ConnId) : List Syscall :=
  cs.filterMap fun e => if e.1 = d then some e.2 else none

theorem callsOn_append (cs ds : List (ConnId × Syscall)) (d : ConnId) :
    callsOn (cs ++ ds) d = callsOn cs d ++ callsOn ds d := List.filterMap_append

theorem callsOn_self (c : ConnId) (cs : List Syscall) : callsOn (on c cs) c = cs := by
  simp [callsOn, on, List.filterMap_map]

theorem callsOn_ne {c d : ConnId} (h : d ≠ c) (cs : List Syscall) : callsOn (on c cs) d = [] := by
  simp [callsOn, on, List.filterMap_map, h.symm]

def AllGood (w : EventLoop) : Prop := ∀ d, Good (w.conn d).flow

/-- Every connection moved, by the calls made on it. -/
def Moves (w w' : EventLoop) (cs : List (ConnId × Syscall)) : Prop :=
  ∀ d, Moved (w.conn d).flow (w'.conn d).flow (callsOn cs d)

section

variable {w w' w'' : EventLoop} {c : ConnId} {cs ds : List (ConnId × Syscall)}

theorem Moves.allGood (h : Moves w w' cs) : AllGood w' := fun d => (h d).good

theorem Moves.trans (h : Moves w w' cs) (h' : Moves w' w'' ds) : Moves w w'' (cs ++ ds) := by
  intro d
  rw [callsOn_append]
  exact (h d).trans (h' d)

/-- The flows are as they were. -/
theorem moves_still (h : AllGood w) (hsame : ∀ d, (w'.conn d).flow = (w.conn d).flow) :
    Moves w w' [] := by
  intro d
  rw [hsame d]
  exact (h d).refl

/-- A call on one connection. -/
theorem moves_on {cs : List Syscall} (h : AllGood w) (hother : ∀ d, d ≠ c → w'.conn d = w.conn d)
    (hself : Moved (w.conn c).flow (w'.conn c).flow cs) : Moves w w' (on c cs) := by
  intro d
  by_cases hd : d = c
  · rw [hd, callsOn_self]
    exact hself
  · rw [callsOn_ne hd, hother d hd]
    exact (h d).refl

theorem moves_forceClose (h : AllGood w) (c : ConnId) : Moves w (w.forceClose c) [] := by
  show Moves w (w.forceClose c) (on c [])
  refine moves_on h ?_ (moved_forceClose (h c))
  intro d hd
  unfold forceClose
  split
  · exact own_setState.others d hd
  · rfl

theorem moves_forceCloseWithDelay (h : AllGood w) (c : ConnId) (delay : Nat) :
    Moves w (w.forceCloseWithDelay c delay) [] := by
  show Moves w (w.forceCloseWithDelay c delay) (on c [])
  refine moves_on h ?_ (moved_forceCloseWithDelay (h c) delay)
  intro d hd
  unfold forceCloseWithDelay
  split
  · exact own_setState.others d hd
  · rfl

theorem flow_updateIdleTimeList (h : w.updateIdleTimeList c = some w') (d : ConnId) :
    (w'.conn d).flow = (w.conn d).flow := by
  rcases updateIdleTimeList_cases h with rfl | ⟨nodes, rfl⟩
  · rfl
  · by_cases hd : d = c
    · rw [hd, conn_modify_self]
      rfl
    · rw [conn_modify_ne _ _ hd]
      rfl

/-- A closed connection keeps its session's number and its socket's record. -/
theorem moves_closed (h : AllGood w) (hcl : Closed w c w') : Moves w w' [] := by
  intro d
  by_cases hd : d = c
  · obtain ⟨n, hn⟩ := hcl.self
    have hflow : (w'.conn d).flow =
        { (w.conn d).flow with state := .kConnecting, writing := false, outputBuffer := [] } := by
      rw [hd, hn]
      rfl
    rw [hflow]
    exact Moved.still rfl rfl ⟨⟨nofun, fun hne => absurd rfl hne⟩, fun _ => ⟨rfl, nofun⟩⟩
  · obtain ⟨n, hn⟩ := hcl.others d hd
    rw [hn]
    exact (h d).refl

theorem moves_visitIdle (h : AllGood w) (now : Int) (c : ConnId) :
    Moves w (w.visitIdle now c).1 (visitIdleCalls w now c) := by
  unfold visitIdle visitIdleCalls
  dsimp only
  split
  · split
    · have hdown : Moves w (w.shutdown c) (on c (shutdownCalls w c)) :=
        moves_on h (fun d hd => own_shutdown.others d hd) (moved_shutdown (h c))
      have hboth := hdown.trans (moves_forceCloseWithDelay hdown.allGood c 3500000)
      rw [List.append_nil] at hboth
      exact hboth
    · exact moves_still h fun _ => rfl
  · split
    · refine moves_still h ?_
      intro d
      by_cases hd : d = c
      · rw [hd, conn_modify_self]
        rfl
      · rw [conn_modify_ne _ _ hd]
    · exact moves_still h fun _ => rfl

theorem moves_removeExpiredLoop (now : Int) (ahead : List (Position × ConnId)) :
    ∀ {w : EventLoop}, AllGood w →
      Moves w (w.removeExpiredLoop now ahead) (removeExpiredCalls w now ahead) := by
  induction ahead with
  | nil => intro w h; exact moves_still h fun _ => rfl
  | cons e ahead ih =>
      obtain ⟨p, c⟩ := e
      intro w h
      cases hnext : (w.conn c).nextTcpConn with
      | none =>
          simp only [removeExpiredLoop, removeExpiredCalls, hnext]
          have hvisit := moves_visitIdle h now c
          split
          · exact hvisit.trans (ih hvisit.allGood)
          · rw [List.append_nil]
            exact hvisit
      | some next =>
          simp only [removeExpiredLoop, removeExpiredCalls, hnext]
          have hskip := ih (w := { w with connectionTimeList := w.otherNodes (some p) }) h
          exact hskip

/-- A session has started on the connection, and no call was made on it. -/
structure Started (f g : Flow) (cs : List Syscall) : Prop where
  none : cs = []
  session : g.session = f.session + 1
  socket : g.socket = {}
  good : Good g

/-- What a legal act leads to. -/
structure Acted (w w' : EventLoop) (cs : List (ConnId × Syscall)) : Prop where
  sound : w'.Sound
  idleSeconds : w'.idleSeconds = w.idleSeconds
  flows : ∀ d, Moved (w.conn d).flow (w'.conn d).flow (callsOn cs d) ∨
    Started (w.conn d).flow (w'.conn d).flow (callsOn cs d)

theorem acted_quiet (hs : w.Sound) (hq : Quiet w w') (hm : Moves w w' cs) : Acted w w' cs :=
  ⟨hs.quiet hq, hq.idleSeconds, fun d => Or.inl (hm d)⟩

theorem acted_opened {fd : Int} (hs : w.Sound) (hfd : 0 ≤ fd) (hnew : fd ∉ w.openFds)
    (h : AllGood w) (ho : Opened w c fd w') : Acted w w' [] := by
  refine ⟨ho.sound hs hfd hnew, ho.idleSeconds, fun d => ?_⟩
  by_cases hd : d = c
  · right
    obtain ⟨node, n, hn, -⟩ := ho.self
    have hempty : (w.conn c).outputBuffer = [] := (hs.resting c ho.fresh).2.2.2
    rw [hd, hn]
    refine ⟨rfl, rfl, rfl, ⟨⟨nofun, ?_⟩, fun hpos => absurd hpos (Nat.lt_irrefl 0)⟩⟩
    intro hne
    exact absurd hempty hne
  · left
    obtain ⟨n, hn⟩ := ho.others d hd
    rw [hn]
    exact (h d).refl

theorem acted_handleClose (hs : w.Sound) (h : AllGood w) (hw' : w.handleClose c = some w') :
    Acted w w' [] := by
  obtain ⟨hact, hcl⟩ := closed_of_handleClose hs hw'
  exact ⟨hcl.sound hs hact, hcl.idleSeconds, fun d => Or.inl (moves_closed h hcl d)⟩

theorem acted_runBoundCall {cb : BoundCall} (hs : w.Sound) (h : AllGood w)
    (hw' : w.runBoundCall cb = some w') : Acted w w' [] := by
  obtain ⟨c, g⟩ := cb
  have hforce : w.forceCloseInLoop c g = some w' := hw'
  unfold forceCloseInLoop at hforce
  split at hforce
  · have hr := acted_handleClose (hs.record rfl) h hforce
    exact ⟨hr.sound, hr.idleSeconds, hr.flows⟩
  · cases hforce
    exact acted_quiet hs (Quiet.refl w) (moves_still h fun _ => rfl)

/-- Reading from a connection that is not open fails, and changes nothing. -/
theorem handleRead_fail (hs : w.Sound) (hclocked : 0 < w.idleSeconds → Clocked w)
    (hw' : w.updateIdleTimeList c = some w') : Quiet w w' := by
  by_cases hc : c ∈ w.activeConnections
  · obtain ⟨v, hv, hq⟩ := updateIdleTimeList_quiet hs hc
    rw [hw'] at hv
    cases hv
    exact hq
  · by_cases hidle : w.idleSeconds ≤ 0
    · rw [updateIdleTimeList, if_pos hidle] at hw'
      cases hw'
      exact Quiet.refl w
    · have hpos := Int.not_le.mp hidle
      exact absurd ((hclocked hpos).nodeAt_retired hc) (nodeAt_of_updateIdleTimeList hpos hw')

theorem acted_handleRead {r : ReadResult} {wr : WriteResult} (hs : w.Sound)
    (hclocked : 0 < w.idleSeconds → Clocked w) (h : AllGood w)
    (hfail : (w.conn c).channel.fd < 0 → r = .fail) (hw' : w.handleRead c r wr = some w') :
    Acted w w' (on c (handleReadCalls w c r wr)) := by
  have hactive : r ≠ .fail → c ∈ w.activeConnections := by
    intro hr
    by_contra hc
    have hfd : (w.conn c).channel.fd = -1 := by rw [(hs.resting c hc).2.1]; rfl
    exact hr (hfail (by rw [hfd]; decide))
  cases r with
  | data first rest =>
      have hc := hactive nofun
      obtain ⟨v, hv, hvw⟩ := Option.map_eq_some_iff.mp hw'
      cases hvw
      have hin : Quiet w (w.modify c fun tc =>
          { tc with inputBuffer := tc.inputBuffer ++ first :: rest }) := quiet_modify hc rfl
      have hinflow : Moves w (w.modify c fun tc =>
          { tc with inputBuffer := tc.inputBuffer ++ first :: rest }) [] := by
        refine moves_still h ?_
        intro d
        by_cases hd : d = c
        · rw [hd, conn_modify_self]
          rfl
        · rw [conn_modify_ne _ _ hd]
      obtain ⟨u, hu, hidle⟩ := updateIdleTimeList_quiet (hs.quiet hin) hc
      rw [hv] at hu
      cases hu
      have hq := hin.trans hidle
      have hmoves := hinflow.trans (moves_still hinflow.allGood (flow_updateIdleTimeList hv))
      have hecho : Moves v (v.echoMessageCallback c wr) (on c (echoCalls v c wr)) :=
        moves_on hmoves.allGood (fun d hd => own_echoMessageCallback.others d hd)
          (moved_echoMessageCallback (hmoves.allGood c) wr)
      have hcalls : handleReadCalls w c (.data first rest) wr = echoCalls v c wr := by
        simp only [handleReadCalls, hv]
      rw [hcalls]
      exact acted_quiet hs (hq.trans (quiet_echoMessageCallback (hs.quiet hq) wr))
        (hmoves.trans hecho)
  | eof =>
      have hc := hactive nofun
      obtain ⟨v, hv, hvw⟩ := Option.bind_eq_some_iff.mp hw'
      have hq := handleRead_fail hs hclocked hv
      have hmoves := moves_still h (flow_updateIdleTimeList hv)
      have hclose := acted_handleClose (hs.quiet hq) hmoves.allGood hvw
      refine ⟨hclose.sound, hclose.idleSeconds.trans hq.idleSeconds, ?_⟩
      intro d
      rw [← flow_updateIdleTimeList hv d]
      exact hclose.flows d
  | fail =>
      exact acted_quiet hs (handleRead_fail hs hclocked hw')
        (moves_still h (flow_updateIdleTimeList hw'))

theorem acted_call {k : Call} (hs : w.Sound) (h : AllGood w) (hg : Granted w (.call k))
    (hw' : w.call k = some w') : Acted w w' (calls w (.call k)) := by
  have hpop : ∀ ts fs, Quiet w { w with timers := ts, pendingFunctors := fs } := fun ts fs =>
    ⟨rfl, rfl, rfl, fun _ => rfl, rfl, rfl, rfl, List.Perm.refl _, rfl, rfl, fun _ => rfl,
      fun _ _ => rfl⟩
  cases k with
  | getNextFreeConnection fd =>
      obtain ⟨hfd, hnew⟩ := hg fd rfl
      obtain ⟨c, v, hv, ho⟩ := getNextFreeConnection_opened hs hfd hnew
      have hvw : v = w' := Option.some.inj (hv.symm.trans hw')
      exact acted_opened hs hfd hnew h (hvw ▸ ho)
  | send c data wr =>
      cases hw'
      exact acted_quiet hs (quiet_send hs data wr)
        (moves_on h (fun d hd => own_send.others d hd) (moved_send (h c) data wr))
  | shutdown c =>
      cases hw'
      exact acted_quiet hs (quiet_shutdown hs)
        (moves_on h (fun d hd => own_shutdown.others d hd) (moved_shutdown (h c)))
  | forceClose c =>
      cases hw'
      exact acted_quiet hs (quiet_forceClose hs) (moves_forceClose h c)
  | forceCloseWithDelay c delay =>
      cases hw'
      exact acted_quiet hs (quiet_forceCloseWithDelay hs delay)
        (moves_forceCloseWithDelay h c delay)
  | removeExpiredConnection =>
      cases hw'
      refine acted_quiet hs (quiet_removeExpiredConnection hs) ?_
      unfold removeExpiredConnection calls
      split
      · exact moves_still h fun _ => rfl
      · exact moves_removeExpiredLoop w.now _ h
  | runTimer i =>
      simp only [call, runTimer] at hw'
      split at hw'
      · have hrun := acted_runBoundCall
          (hs.quiet (hpop (w.timers.eraseIdx i) w.pendingFunctors)) h hw'
        exact ⟨hrun.sound, hrun.idleSeconds, hrun.flows⟩
      · cases hw'
        exact acted_quiet hs (Quiet.refl w) (moves_still h fun _ => rfl)
  | runFunctor =>
      simp only [call, runFunctor] at hw'
      split at hw'
      · rename_i cb rest _
        have hrun := acted_runBoundCall (hs.quiet (hpop w.timers rest)) h hw'
        exact ⟨hrun.sound, hrun.idleSeconds, hrun.flows⟩
      · cases hw'
        exact acted_quiet hs (Quiet.refl w) (moves_still h fun _ => rfl)

theorem acted_act {a : Act} (hs : w.Sound) (hclocked : 0 < w.idleSeconds → Clocked w)
    (h : AllGood w) (hl : Legal w a) (hw' : w.act a = some w') : Acted w w' (calls w a) := by
  cases a with
  | tick dt =>
      cases hw'
      exact acted_quiet hs ⟨rfl, rfl, rfl, fun _ => rfl, rfl, rfl, rfl, List.Perm.refl _, rfl, rfl,
        fun _ => rfl, fun _ _ => rfl⟩ (moves_still h fun _ => rfl)
  | call k => exact acted_call hs h hl.1 hw'
  | handleRead c r wr =>
      have hread := acted_handleRead (w := w.record (.callback .read c)) (hs.record rfl)
        (fun hidle => (hclocked hidle).record rfl) h (hl.2 c r wr rfl) hw'
      exact ⟨hread.sound, hread.idleSeconds, hread.flows⟩
  | handleWrite c wr =>
      cases hw'
      have hr : (w.record (.callback .write c)).Sound := hs.record rfl
      have hwrite := acted_quiet hr (quiet_handleWrite (c := c) hr wr) (moves_on h
        (fun d hd => own_handleWrite.others d hd)
        (moved_handleWrite (w := w.record (.callback .write c)) (h c) wr))
      exact ⟨hwrite.sound, hwrite.idleSeconds, hwrite.flows⟩
  | handleClose c =>
      have hclose := acted_handleClose (w := w.record (.callback .close c)) (hs.record rfl) h hw'
      exact ⟨hclose.sound, hclose.idleSeconds, hclose.flows⟩

end

/-! ## Every run -/

/-- The trace tells what the kernel has seen of each session. -/
structure Told (s : State) : Prop where
  sound : s.loop.Sound
  clocked : 0 < s.loop.idleSeconds → Clocked s.loop
  good : AllGood s.loop
  socket : ∀ c, (s.loop.conn c).socket =
    (s.syscalls c (s.loop.conn c).session).foldl Socket.after {}
  later : ∀ c g, (s.loop.conn c).session < g → s.syscalls c g = []
  last : ∀ c g, Last (s.syscalls c g)

variable {s t : State}

/-- The calls of an act belong to the sessions that are open then. -/
theorem syscalls_append (s : State) (w : EventLoop) (cs : List (ConnId × Syscall)) (c : ConnId)
    (g : Nat) :
    (⟨w, s.trace ++ cs.map fun e => (e.1, (s.loop.conn e.1).session, e.2)⟩ : State).syscalls c g =
      s.syscalls c g ++ if g = (s.loop.conn c).session then callsOn cs c else [] := by
  have hnew : (cs.map fun e => (e.1, (s.loop.conn e.1).session, e.2)).filterMap
      (fun e => if e.1 = c ∧ e.2.1 = g then some e.2.2 else none) =
        if g = (s.loop.conn c).session then callsOn cs c else [] := by
    rw [List.filterMap_map]
    split
    · rename_i hg
      refine List.filterMap_congr ?_
      intro e _
      by_cases hec : e.1 = c
      · simp [Function.comp, hec, hg]
      · simp [Function.comp, hec]
    · rename_i hg
      refine List.filterMap_eq_nil_iff.mpr ?_
      intro e _
      refine if_neg ?_
      rintro ⟨rfl, heg⟩
      exact hg heg.symm
  rw [State.syscalls, List.filterMap_append, hnew]
  rfl

theorem step_told {a : Act} (h : Told s) (hstep : step s a = some t) : Told t := by
  obtain ⟨hl, hact⟩ := Option.ite_none_right_eq_some.mp hstep
  obtain ⟨w, hw, rfl⟩ := Option.map_eq_some_iff.mp hact
  have ha := acted_act h.sound h.clocked h.good hl hw
  have hclocked : 0 < w.idleSeconds → Clocked w := fun hidle =>
    clocked_act (h.clocked (ha.idleSeconds ▸ hidle)) hl.1 hw
  have hgood : AllGood w := by
    intro d
    rcases ha.flows d with hm | hst
    · exact hm.good
    · exact hst.good
  refine ⟨ha.sound, hclocked, hgood, ?_, ?_, ?_⟩
  · intro c
    rw [syscalls_append]
    rcases ha.flows c with hm | hst
    · have hsession : (w.conn c).session = (s.loop.conn c).session := hm.session
      have hsocket : (w.conn c).socket =
          (callsOn (calls s.loop a) c).foldl Socket.after (s.loop.conn c).socket := hm.socket
      rw [hsession, if_pos rfl, List.foldl_append, ← h.socket c]
      exact hsocket
    · have hsession : (w.conn c).session = (s.loop.conn c).session + 1 := hst.session
      have hsocket : (w.conn c).socket = {} := hst.socket
      rw [hsession, if_neg (Nat.succ_ne_self _), h.later c _ (Nat.lt_succ_self _)]
      exact hsocket
  · intro c g hg
    rw [syscalls_append]
    have hge : (s.loop.conn c).session < g := by
      rcases ha.flows c with hm | hst
      · have hsession : (w.conn c).session = (s.loop.conn c).session := hm.session
        exact hsession ▸ hg
      · have hsession : (w.conn c).session = (s.loop.conn c).session + 1 := hst.session
        have hlt : (w.conn c).session < g := hg
        omega
    rw [h.later c g hge, if_neg hge.ne']
    rfl
  · intro c g
    rw [syscalls_append]
    split
    · rename_i hg
      rcases ha.flows c with hm | hst
      · by_cases hnil : callsOn (calls s.loop a) c = []
        · rw [hnil, List.append_nil]
          exact h.last c g
        · have hzero : (s.loop.conn c).socket.shutWr = 0 := by
            by_contra hne
            exact hnil (hm.silent (Nat.pos_of_ne_zero hne))
          rw [h.socket c, ← hg] at hzero
          exact hm.last.append (no_shutWr hzero)
      · rw [hst.none, List.append_nil]
        exact h.last c g
    · rw [List.append_nil]
      exact h.last c g

theorem told_start {idleSeconds now epollFd timerFd wakeupFd : Int} (ht : 0 ≤ timerFd)
    (hw : 0 ≤ wakeupFd) (hne : timerFd ≠ wakeupFd) :
    Told (start idleSeconds now epollFd timerFd wakeupFd) := by
  have hsound : (EventLoop.start idleSeconds now epollFd timerFd wakeupFd).Sound :=
    sound_start ht hw hne
  have hstarted := started_start idleSeconds now epollFd timerFd wakeupFd
  have hclocked : 0 < idleSeconds →
      Clocked (EventLoop.start idleSeconds now epollFd timerFd wakeupFd) := fun hpos =>
    clocked_start hpos ht hw hne
  have hnew : ∀ c, ((EventLoop.start idleSeconds now epollFd timerFd wakeupFd).conn c).flow =
      TcpConnection.new.flow :=
    forall_start (P := fun tc => tc.flow = TcpConnection.new.flow) rfl (fun _ _ _ h => h) _ _ _ _ _
  unfold start
  generalize EventLoop.start idleSeconds now epollFd timerFd wakeupFd = w at *
  refine ⟨hsound, fun hpos => hclocked (hstarted.idleSeconds ▸ hpos), ?_, ?_,
    fun _ _ _ => rfl, fun _ _ => last_nil⟩
  · intro c
    rw [hnew c]
    exact ⟨⟨nofun, fun hne => absurd rfl hne⟩, fun hpos => absurd hpos (Nat.lt_irrefl 0)⟩
  · intro c
    exact congrArg Flow.socket (hnew c)

/-- In every run of the loop's thread, over any number of sessions and whatever
the kernel answers: a connection's write-interest bit is set exactly when output
is pending; what `send`, `handleWrite` and `shutdownInLoop` have done to its socket
is what the system calls of the session do; `SHUT_WR` is issued at most once in a
session, with nothing pending; and after it no `::write`. -/
theorem never_cut_off {idleSeconds now epollFd timerFd wakeupFd : Int} (ht : 0 ≤ timerFd)
    (hw : 0 ≤ wakeupFd) (hne : timerFd ≠ wakeupFd)
    (h : Machine.Reachable step (start idleSeconds now epollFd timerFd wakeupFd) s) :
    (∀ c, (s.loop.conn c).channel.isWriting = true ↔ (s.loop.conn c).outputBuffer ≠ []) ∧
      (∀ c, (s.loop.conn c).socket =
        (s.syscalls c (s.loop.conn c).session).foldl Socket.after {}) ∧
      ∀ c g, ((s.syscalls c g).countP fun x => x matches .shutWr _) ≤ 1 ∧
        (∀ pending, .shutWr pending ∈ s.syscalls c g → pending = []) ∧
        ∀ before pending after, s.syscalls c g = before ++ .shutWr pending :: after →
          ∀ taken, .write taken ∉ after := by
  have htold : Told s := h.invariant (fun _ _ _ hs hstep => step_told hs hstep)
    (told_start ht hw hne)
  refine ⟨fun c => (htold.good c).bit, htold.socket, ?_⟩
  refine fun c g => ⟨(htold.last c g).countP_le, ?_, ?_⟩
  · intro pending hmem
    obtain ⟨before, after, hsplit⟩ := List.append_of_mem hmem
    exact (htold.last c g before pending after hsplit).1
  · intro before pending after hsplit taken hmem
    rw [(htold.last c g before pending after hsplit).2] at hmem
    exact absurd hmem List.not_mem_nil

/-- Three bytes go out in two writes, the server having shut down in between; the
peer closes, and the next session of the object is shut down at once. -/
theorem never_cut_off_reuse : ∃ s, Machine.exec step (start 60 0 3 4 5)
      [.call (.getNextFreeConnection 7), .call (.send 1 [72, 105, 10] (.wrote 1)),
        .call (.shutdown 1), .handleWrite 1 (.wrote 2), .handleRead 1 .eof (.wrote 0),
        .call (.getNextFreeConnection 7), .call (.shutdown 1)] = some s ∧
    s.syscalls 1 1 = [.write [72], .write [105, 10], .shutWr []] ∧
      s.syscalls 1 2 = [.shutWr []] ∧ (s.loop.conn 1).session = 2 ∧
        (s.loop.conn 1).socket.shutWr = 1 ∧
          ((s.syscalls 1 1).countP fun x => x matches .shutWr _) ≤ 1 := by
  have hgo : (Machine.exec step (start 60 0 3 4 5)
      [.call (.getNextFreeConnection 7), .call (.send 1 [72, 105, 10] (.wrote 1)),
        .call (.shutdown 1), .handleWrite 1 (.wrote 2), .handleRead 1 .eof (.wrote 0),
        .call (.getNextFreeConnection 7), .call (.shutdown 1)]).map
          (fun s => (s.syscalls 1 1, s.syscalls 1 2, (s.loop.conn 1).session)) =
      some ([.write [72], .write [105, 10], .shutWr []], [.shutWr []], 2) := by
    decide +kernel
  obtain ⟨s, hs, heq⟩ := Option.map_eq_some_iff.mp hgo
  obtain ⟨hfirst, hrest⟩ := Prod.mk.inj heq
  obtain ⟨hsecond, hsession⟩ := Prod.mk.inj hrest
  have hall := never_cut_off (by decide) (by decide) (by decide) ⟨_, hs⟩
  have htie := hall.2.1 1
  rw [hsession, hsecond] at htie
  exact ⟨s, hs, hfirst, hsecond, hsession, by rw [htie]; rfl, (hall.2.2 1 1).1⟩

end Graceful

end WebServer

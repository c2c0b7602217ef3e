/-
# `Net.Run` — what the loop's thread does, one act at a time

An `Act` is one thing that happens in the loop's thread: time passes, one of
its functions is called (by a handler, a timer or a queued functor), or a
callback of a connection's channel runs.  `act` is its effect, `none` being
undefined behaviour.  `runTimer` and `runFunctor` run what waits in the timer
queue and in `pendingFunctors_`; a timer that is not due does nothing.

`closes w a` is the connection whose session the act ends, if it ends one: it
is read off the state before.  `act_after` says what an act does to a sound
loop: where the kernel's descriptor is new and a callback is one of an open
connection (`Proper`), it goes through, the loop stays sound, and no session
ends but the one `closes` names.
-/
import WebServer.Lib.Machine
import WebServer.Net.Sessions

namespace WebServer

inductive Call where
  | getNextFreeConnection (connfd : Int)
  | send (c : ConnId) (data : Bytes) (wr : WriteResult)
  | shutdown (c : ConnId)
  | forceClose (c : ConnId)
  | forceCloseWithDelay (c : ConnId) (delay : Nat)
  | removeExpiredConnection
  | runTimer (i : Nat)
  | runFunctor
  deriving DecidableEq

inductive Act where
  | tick (dt : Nat)
  | call (k : Call)
  | handleRead (c : ConnId) (r : ReadResult) (wr : WriteResult)
  | handleWrite (c : ConnId) (wr : WriteResult)
  | handleClose (c : ConnId)
  deriving DecidableEq

/-- The descriptor on which an act opens a session. -/
def Act.connfd : Act → Option Int
  | .call (.getNextFreeConnection fd) => some fd
  | _ => none

/-- The callback an act is. -/
def Act.callback : Act → Option (CallbackKind × ConnId)
  | .handleRead c _ _ => some (.read, c)
  | .handleWrite c _ => some (.write, c)
  | .handleClose c => some (.close, c)
  | _ => none

/-- The callback's record in the history, when the act is one. -/
def Act.started (a : Act) : List Event :=
  match a.callback with
  | some (kind, c) => [.callback kind c]
  | none => []

namespace EventLoop

/-- The `i`-th pending timer, if it is due. -/
def due (w : EventLoop) (i : Nat) : Option BoundCall :=
  match w.timers[i]? with
  | some (t, cb) => if t ≤ w.now then some cb else none
  | none => none

/-- One expired timer: it leaves the queue and its callback runs. -/
def runTimer (w : EventLoop) (i : Nat) : Option EventLoop :=
  match w.due i with
  | some cb => { w with timers := w.timers.eraseIdx i }.runBoundCall cb
  | none => some w

/-- One queued functor. -/
def runFunctor (w : EventLoop) : Option EventLoop :=
  match w.pendingFunctors with
  | cb :: rest => { w with pendingFunctors := rest }.runBoundCall cb
  | [] => some w

def call (w : EventLoop) : Call → Option EventLoop
  | .getNextFreeConnection fd => w.getNextFreeConnection fd
  | .send c data wr => some (w.send c data wr)
  | .shutdown c => some (w.shutdown c)
  | .forceClose c => some (w.forceClose c)
  | .forceCloseWithDelay c delay => some (w.forceCloseWithDelay c delay)
  | .removeExpiredConnection => some w.removeExpiredConnection
  | .runTimer i => w.runTimer i
  | .runFunctor => w.runFunctor

def act (w : EventLoop) : Act → Option EventLoop
  | .tick dt => some { w with now := w.now + dt }
  | .call k => w.call k
  | .handleRead c r wr => (w.record (.callback .read c)).handleRead c r wr
  | .handleWrite c wr => some ((w.record (.callback .write c)).handleWrite c wr)
  | .handleClose c => (w.record (.callback .close c)).handleClose c

/-! ## What an act closes -/

/-- The connection a bound call would close. -/
def closedBy (w : EventLoop) : BoundCall → Option ConnId
  | .forceCloseInLoop c _ => if (w.conn c).isOpen then some c else none

def closes (w : EventLoop) : Act → Option ConnId
  | .handleRead c .eof _ => some c
  | .handleClose c => some c
  | .call (.runTimer i) => (w.due i).bind w.closedBy
  | .call .runFunctor => w.pendingFunctors.head?.bind w.closedBy
  | _ => none

def Proper (w : EventLoop) : Act → Prop
  | .call (.getNextFreeConnection fd) => 0 ≤ fd ∧ fd ∉ w.openFds
  | .handleRead c _ _ => c ∈ w.activeConnections
  | .handleWrite c _ => c ∈ w.activeConnections
  | .handleClose c => c ∈ w.activeConnections
  | _ => True

/-! ## One act -/

/-- What an act does to a sound loop. -/
structure After (w : EventLoop) (a : Act) (w' : EventLoop) : Prop where
  sound : w'.Sound
  log : ∃ es, w'.log = w.log ++ a.started ++ es ∧
    ∀ e ∈ es, (∃ c s, e = .closed c s ∧ w.closes a = some c) ∨ ∃ c g s, e = .forceClosed c g s
  stays : ∀ d ∈ w.activeConnections, w.closes a ≠ some d → d ∈ w'.activeConnections

variable {w w' : EventLoop} {a : Act} {c : ConnId}

/-- Recording anything but a closing changes nothing the invariant reads. -/
theorem Sound.record (hs : w.Sound) {e : Event} (he : closedSessions [e] = []) :
    (w.record e).Sound := by
  have hlog : closedSessions (w.record e).log = closedSessions w.log := by
    show closedSessions (w.log ++ [e]) = _
    rw [closedSessions_append, he, List.append_nil]
  obtain ⟨pool, unborn, opened, resting, ⟨h₁, h₂, h₃, h₄, h₅, h₆, h₇⟩, timed, past⟩ := hs
  refine ⟨pool, unborn, opened, resting, ⟨h₁, h₂, h₃, h₄, h₅, h₆, h₇⟩, ?_, ?_⟩
  · intro hidle
    obtain ⟨t₁, t₂, t₃, t₄⟩ := timed hidle
    exact ⟨t₁, t₂, t₃, t₄⟩
  · refine ⟨?_, ?_, ?_⟩
    · rw [hlog]; exact past.once
    · rw [hlog]; exact past.before
    · rw [hlog]; exact past.unclosed

theorem after_quiet (hs : w.Sound) (hcb : a.callback = none) (hq : Quiet w w') : After w a w' where
  sound := hs.quiet hq
  log := ⟨[], by simp [hq.log, Act.started, hcb], fun e he => absurd he List.not_mem_nil⟩
  stays := fun d hd _ => by rw [hq.active]; exact hd

/-- A callback that is quiet once it has been recorded. -/
theorem after_callback (hs : w.Sound) {kind : CallbackKind} (hcb : a.callback = some (kind, c))
    (hq : Quiet (w.record (.callback kind c)) w') : After w a w' where
  sound := (hs.record rfl).quiet hq
  log := by
    refine ⟨[], ?_, fun e he => absurd he List.not_mem_nil⟩
    simp only [hq.log, Act.started, hcb, List.append_nil]
    rfl
  stays := fun d hd _ => by rw [hq.active]; exact hd

/-- A callback that closes its connection, after changes that are quiet. -/
theorem after_close (hs : w.Sound) {kind : CallbackKind} (hcb : a.callback = some (kind, c))
    (hcl : w.closes a = some c) (hc : c ∈ w.activeConnections) {v : EventLoop}
    (hq : Quiet (w.record (.callback kind c)) v) :
    ∃ w', v.handleClose c = some w' ∧ After w a w' := by
  have hv : v.Sound := (hs.record rfl).quiet hq
  have hcv : c ∈ v.activeConnections := by rw [hq.active]; exact hc
  obtain ⟨w', hw', hclosed⟩ := handleClose_closed hv hcv
  refine ⟨w', hw', hclosed.sound hv hcv, ⟨[.closed c (v.conn c).session], ?_, ?_⟩, ?_⟩
  · simp only [hclosed.log, hq.log, Act.started, hcb]
    rfl
  · intro e he
    exact Or.inl ⟨c, _, List.mem_singleton.mp he, hcl⟩
  · intro d hd hne
    refine (hclosed.mem_active hv).mpr ⟨fun e => hne (hcl.trans (congrArg some e.symm)), ?_⟩
    rw [hq.active]
    exact hd

/-- A bound call fires, after changes that are quiet. -/
theorem after_runBoundCall (hs : w.Sound) {cb : BoundCall} (hcb : a.callback = none)
    (hcl : w.closes a = w.closedBy cb) {v : EventLoop} (hq : Quiet w v) :
    ∃ w', v.runBoundCall cb = some w' ∧ After w a w' := by
  obtain ⟨c, g⟩ := cb
  have hopen : (v.conn c).isOpen = (w.conn c).isOpen := hq.isOpen c
  have hv : v.Sound := hs.quiet hq
  show ∃ w', v.forceCloseInLoop c g = some w' ∧ After w a w'
  unfold forceCloseInLoop
  rw [hopen]
  split
  · rename_i hcopen
    have hclc : w.closes a = some c := by rw [hcl, closedBy, if_pos hcopen]
    have hcv : c ∈ v.activeConnections := by rw [hq.active]; exact hs.isOpen_iff.mp hcopen
    have hr : (v.record (.forceClosed c g (v.conn c).session)).Sound := hv.record rfl
    obtain ⟨w', hw', hclosed⟩ := handleClose_closed hr hcv
    refine ⟨w', hw', hclosed.sound hr hcv,
      ⟨[.forceClosed c g (v.conn c).session, .closed c (v.conn c).session], ?_, ?_⟩, ?_⟩
    · simp only [hclosed.log, Act.started, hcb, List.append_nil, ← hq.log]
      exact List.append_assoc v.log [_] [_]
    · intro e he
      rcases List.mem_cons.mp he with rfl | he
      · exact Or.inr ⟨c, g, _, rfl⟩
      · exact Or.inl ⟨c, _, List.mem_singleton.mp he, hclc⟩
    · intro d hd hne
      refine (hclosed.mem_active hr).mpr ⟨fun e => hne (hclc.trans (congrArg some e.symm)), ?_⟩
      show d ∈ v.activeConnections
      rw [hq.active]
      exact hd
  · exact ⟨v, rfl, after_quiet hs hcb hq⟩

theorem after_handleRead (hs : w.Sound) (hc : c ∈ w.activeConnections) (r : ReadResult)
    (wr : WriteResult) :
    ∃ w', w.act (.handleRead c r wr) = some w' ∧ After w (.handleRead c r wr) w' := by
  have hr : (w.record (.callback .read c)).Sound := hs.record rfl
  cases r with
  | data first rest =>
      have hin : Quiet (w.record (.callback .read c)) ((w.record (.callback .read c)).modify c
          fun tc => { tc with inputBuffer := tc.inputBuffer ++ first :: rest }) :=
        quiet_modify hc rfl
      obtain ⟨v, hv, hidle⟩ := updateIdleTimeList_quiet (hr.quiet hin) hc
      have hboth := hin.trans hidle
      have hecho := quiet_echoMessageCallback (c := c) (hr.quiet hboth) wr
      refine ⟨v.echoMessageCallback c wr, ?_, after_callback hs rfl (hboth.trans hecho)⟩
      simp only [act, handleRead, hv, Option.map_some]
  | eof =>
      obtain ⟨v, hv, hidle⟩ := updateIdleTimeList_quiet hr hc
      obtain ⟨w', hw', hafter⟩ :=
        after_close (a := .handleRead c .eof wr) hs rfl rfl hc hidle
      exact ⟨w', by simp only [act, handleRead, hv, Option.bind_some, hw'], hafter⟩
  | fail =>
      obtain ⟨v, hv, hidle⟩ := updateIdleTimeList_quiet hr hc
      exact ⟨v, hv, after_callback hs rfl hidle⟩

theorem after_call (hs : w.Sound) {k : Call} (hp : w.Proper (.call k)) :
    ∃ w', w.call k = some w' ∧ After w (.call k) w' := by
  cases k with
  | getNextFreeConnection fd =>
      obtain ⟨hfd, hnew⟩ := hp
      obtain ⟨c, w', hw', ho⟩ := getNextFreeConnection_opened hs hfd hnew
      refine ⟨w', hw', ho.sound hs hfd hnew, ⟨[], ?_, fun e he => absurd he List.not_mem_nil⟩,
        fun d hd _ => ho.mem_active.mpr (Or.inl hd)⟩
      simp [ho.log, Act.started, Act.callback]
  | send c data wr => exact ⟨_, rfl, after_quiet hs rfl (quiet_send hs data wr)⟩
  | shutdown c => exact ⟨_, rfl, after_quiet hs rfl (quiet_shutdown hs)⟩
  | forceClose c => exact ⟨_, rfl, after_quiet hs rfl (quiet_forceClose hs)⟩
  | forceCloseWithDelay c delay =>
      exact ⟨_, rfl, after_quiet hs rfl (quiet_forceCloseWithDelay hs delay)⟩
  | removeExpiredConnection =>
      exact ⟨_, rfl, after_quiet hs rfl (quiet_removeExpiredConnection hs)⟩
  | runTimer i =>
      show ∃ w', w.runTimer i = some w' ∧ _
      unfold runTimer
      cases hdue : w.due i with
      | none => exact ⟨w, rfl, after_quiet hs rfl (Quiet.refl w)⟩
      | some cb =>
          refine after_runBoundCall hs rfl ?_ (v := { w with timers := w.timers.eraseIdx i }) ?_
          · simp only [closes, hdue, Option.bind_some]
          · exact ⟨rfl, rfl, rfl, fun _ => rfl, rfl, rfl, rfl, List.Perm.refl _, rfl, rfl,
              fun _ => rfl, fun _ _ => rfl⟩
  | runFunctor =>
      show ∃ w', w.runFunctor = some w' ∧ _
      unfold runFunctor
      cases hpend : w.pendingFunctors with
      | nil => exact ⟨w, rfl, after_quiet hs rfl (Quiet.refl w)⟩
      | cons cb rest =>
          refine after_runBoundCall hs rfl ?_ (v := { w with pendingFunctors := rest }) ?_
          · simp only [closes, hpend, List.head?_cons, Option.bind_some]
          · exact ⟨rfl, rfl, rfl, fun _ => rfl, rfl, rfl, rfl, List.Perm.refl _, rfl, rfl,
              fun _ => rfl, fun _ _ => rfl⟩

/-- A proper act on a sound loop goes through. -/
theorem act_after (hs : w.Sound) (hp : w.Proper a) : ∃ w', w.act a = some w' ∧ After w a w' := by
  cases a with
  | tick dt =>
      refine ⟨_, rfl, after_quiet hs rfl ?_⟩
      exact ⟨rfl, rfl, rfl, fun _ => rfl, rfl, rfl, rfl, List.Perm.refl _, rfl, rfl, fun _ => rfl,
        fun _ _ => rfl⟩
  | call k => exact after_call hs hp
  | handleRead c r wr => exact after_handleRead hs hp r wr
  | handleWrite c wr =>
      exact ⟨_, rfl, after_callback hs rfl (quiet_handleWrite (hs.record rfl) wr)⟩
  | handleClose c => exact after_close hs rfl rfl hp (Quiet.refl _)

end EventLoop

end WebServer

/-
# `Net.LoopFds` — the descriptors of one loop

An act of the loop's thread that opens no session is `Calm`, or it is so up to
one `handleClose` (`Effect`): it closes the descriptor of one session
(`closedFds`), or leaves all descriptors, and whose they are, alone
(`Released`).  A loop that was never given a connection stays as it was made
(`Bare`).
-/
import WebServer.Net.Run

namespace WebServer

namespace EventLoop

variable {w w' : EventLoop} {a : Act} {c d : ConnId}

instance (w : EventLoop) : (a : Act) → Decidable (w.Proper a)
  | .call (.getNextFreeConnection _) => inferInstanceAs (Decidable (_ ∧ _))
  | .handleRead _ _ _ => inferInstanceAs (Decidable (_ ∈ _))
  | .handleWrite _ _ => inferInstanceAs (Decidable (_ ∈ _))
  | .handleClose _ => inferInstanceAs (Decidable (_ ∈ _))
  | .tick _ => isTrue trivial
  | .call (.send _ _ _) => isTrue trivial
  | .call (.shutdown _) => isTrue trivial
  | .call (.forceClose _) => isTrue trivial
  | .call (.forceCloseWithDelay _ _) => isTrue trivial
  | .call .removeExpiredConnection => isTrue trivial
  | .call (.runTimer _) => isTrue trivial
  | .call .runFunctor => isTrue trivial

/-! ## The descriptors -/

/-- The descriptors of the open sessions. -/
def sessionFds (w : EventLoop) : List Int := w.activeConnections.map fun c => (w.conn c).channel.fd

theorem mem_sessionFds {fd : Int} :
    fd ∈ w.sessionFds ↔ ∃ c ∈ w.activeConnections, (w.conn c).channel.fd = fd := List.mem_map

/-- No two sessions have one descriptor. -/
theorem Sound.fd_inj (hs : w.Sound) (hc : c ∈ w.activeConnections) (hd : d ∈ w.activeConnections)
    (h : (w.conn c).channel.fd = (w.conn d).channel.fd) : c = d := by
  have hwatch := hs.watched.here c hc
  rw [h, hs.watched.here d hd] at hwatch
  exact (ChannelRef.conn.inj (Option.some.inj hwatch)).symm

theorem Sound.sessionFds_open (hs : w.Sound) {fd : Int} (h : fd ∈ w.sessionFds) :
    fd ∈ w.openFds := by
  obtain ⟨c, hc, rfl⟩ := mem_sessionFds.mp h
  refine hs.watched.openFd _ ?_
  rw [hs.watched.here c hc]
  exact nofun

theorem Closed.sessions (h : Closed w c w') (hs : w.Sound) (hc : c ∈ w.activeConnections)
    (fd : Int) : fd ∈ w'.sessionFds ↔ fd ∈ w.sessionFds ∧ fd ≠ (w.conn c).channel.fd := by
  rw [mem_sessionFds, mem_sessionFds]
  constructor
  · rintro ⟨d, hd, rfl⟩
    obtain ⟨hdc, hd⟩ := (h.mem_active hs).mp hd
    rw [(h.same hdc).2.1]
    exact ⟨⟨d, hd, rfl⟩, fun hfd => hdc (hs.fd_inj hd hc hfd)⟩
  · rintro ⟨⟨d, hd, rfl⟩, hfd⟩
    have hdc : d ≠ c := fun e => hfd (e ▸ rfl)
    exact ⟨d, (h.mem_active hs).mpr ⟨hdc, hd⟩, by rw [(h.same hdc).2.1]⟩

theorem Opened.sessions {fd : Int} (h : Opened w c fd w') (x : Int) :
    x ∈ w'.sessionFds ↔ x ∈ w.sessionFds ∨ x = fd := by
  have hself : (w'.conn c).channel.fd = fd := by rw [h.channel]
  rw [mem_sessionFds, mem_sessionFds]
  constructor
  · rintro ⟨d, hd, rfl⟩
    rcases h.mem_active.mp hd with hold | rfl
    · exact Or.inl ⟨d, hold, by rw [(h.same (h.ne hold)).2.1]⟩
    · exact Or.inr hself
  · rintro (⟨d, hd, rfl⟩ | rfl)
    · exact ⟨d, h.mem_active.mpr (Or.inl hd), by rw [(h.same (h.ne hd)).2.1]⟩
    · exact ⟨c, h.mem_active.mpr (Or.inr rfl), hself⟩

/-! ## Acts that open no session -/

/-- No session has begun or ended, and the pool and the descriptors are as they were. -/
structure Calm (w w' : EventLoop) : Prop where
  openFds : w'.openFds = w.openFds
  allocated : w'.allocated = w.allocated
  free : w'.freeTcpConnection = w.freeTcpConnection
  active : w'.activeConnections = w.activeConnections
  closed : closedSessions w'.log = closedSessions w.log
  shape : ∀ c, (w'.conn c).shape = (w.conn c).shape

namespace Calm

theorem refl (w : EventLoop) : Calm w w := ⟨rfl, rfl, rfl, rfl, rfl, fun _ => rfl⟩

theorem trans {w'' : EventLoop} (h : Calm w w') (h' : Calm w' w'') : Calm w w'' where
  openFds := h'.openFds.trans h.openFds
  allocated := h'.allocated.trans h.allocated
  free := h'.free.trans h.free
  active := h'.active.trans h.active
  closed := h'.closed.trans h.closed
  shape := fun c => (h'.shape c).trans (h.shape c)

theorem quiet (h : Quiet w w') : Calm w w' :=
  ⟨h.openFds, h.allocated, h.free, h.active, congrArg closedSessions h.log, h.shape⟩

theorem record (w : EventLoop) {e : Event} (he : closedSessions [e] = []) :
    Calm w (w.record e) := by
  refine ⟨rfl, rfl, rfl, rfl, ?_, fun _ => rfl⟩
  show closedSessions (w.log ++ [e]) = _
  rw [closedSessions_append, he, List.append_nil]

theorem fd (h : Calm w w') (c : ConnId) : (w'.conn c).channel.fd = (w.conn c).channel.fd :=
  congrArg Shape.fd (h.shape c)

theorem sessionFds (h : Calm w w') : w'.sessionFds = w.sessionFds := by
  rw [EventLoop.sessionFds, h.active]
  exact List.map_congr_left fun c _ => h.fd c

end Calm

/-- What an act that opens no session comes to: one session ends, or none. -/
inductive Effect (w : EventLoop) (a : Act) (w' : EventLoop) : Prop where
  | calm (closes : w.closes a = none) (same : Calm w w')
  | close (c : ConnId) (v : EventLoop) (closes : w.closes a = some c)
      (mem : c ∈ w.activeConnections) (same : Calm w v) (sound : v.Sound)
      (call : v.handleClose c = some w')

theorem effect_runBoundCall (hs : w.Sound) {cb : BoundCall} (hcl : w.closes a = w.closedBy cb)
    {v : EventLoop} (hq : Quiet w v) (h : v.runBoundCall cb = some w') : Effect w a w' := by
  obtain ⟨c, g⟩ := cb
  have hopen : (v.conn c).isOpen = (w.conn c).isOpen := hq.isOpen c
  simp only [runBoundCall, forceCloseInLoop, hopen] at h
  rw [closedBy] at hcl
  split at h
  · rename_i hcopen
    rw [if_pos hcopen] at hcl
    exact .close c _ hcl (hs.isOpen_iff.mp hcopen) ((Calm.quiet hq).trans (.record v rfl))
      ((hs.quiet hq).record rfl) h
  · rename_i hclosed
    rw [if_neg hclosed] at hcl
    cases h
    exact .calm hcl (.quiet hq)

theorem effect_handleRead (hs : w.Sound) (hc : c ∈ w.activeConnections) {r : ReadResult}
    {wr : WriteResult} (h : w.act (.handleRead c r wr) = some w') :
    Effect w (.handleRead c r wr) w' := by
  have hrec : Calm w (w.record (.callback .read c)) := .record w rfl
  have hr : (w.record (.callback .read c)).Sound := hs.record rfl
  cases r with
  | data first rest =>
      have hin : Quiet (w.record (.callback .read c)) ((w.record (.callback .read c)).modify c
          fun tc => { tc with inputBuffer := tc.inputBuffer ++ first :: rest }) :=
        quiet_modify hc rfl
      obtain ⟨v, hv, hidle⟩ := updateIdleTimeList_quiet (hr.quiet hin) hc
      have hboth := hin.trans hidle
      have hecho := quiet_echoMessageCallback (c := c) (hr.quiet hboth) wr
      simp only [act, handleRead, hv, Option.map_some] at h
      cases h
      exact .calm rfl (hrec.trans (.quiet (hboth.trans hecho)))
  | eof =>
      obtain ⟨v, hv, hidle⟩ := updateIdleTimeList_quiet hr hc
      simp only [act, handleRead, hv, Option.bind_some] at h
      exact .close c v rfl hc (hrec.trans (.quiet hidle)) (hr.quiet hidle) h
  | fail =>
      obtain ⟨v, hv, hidle⟩ := updateIdleTimeList_quiet hr hc
      simp only [act, handleRead, hv] at h
      cases h
      exact .calm rfl (hrec.trans (.quiet hidle))

theorem effect_act (hs : w.Sound) (hp : w.Proper a) (ha : a.connfd = none)
    (h : w.act a = some w') : Effect w a w' := by
  have hquiet : ∀ {v}, w.closes a = none → Quiet w v → Effect w a v := fun hcl hq =>
    .calm hcl (.quiet hq)
  cases a with
  | tick dt =>
      cases h
      exact .calm rfl ⟨rfl, rfl, rfl, rfl, rfl, fun _ => rfl⟩
  | call k =>
      cases k with
      | getNextFreeConnection fd => exact absurd ha nofun
      | send c data wr => cases h; exact hquiet rfl (quiet_send hs data wr)
      | shutdown c => cases h; exact hquiet rfl (quiet_shutdown hs)
      | forceClose c => cases h; exact hquiet rfl (quiet_forceClose hs)
      | forceCloseWithDelay c delay =>
          cases h
          exact hquiet rfl (quiet_forceCloseWithDelay hs delay)
      | removeExpiredConnection =>
          cases h
          exact hquiet rfl (quiet_removeExpiredConnection hs)
      | runTimer i =>
          simp only [act, call, runTimer] at h
          split at h
          · rename_i cb hdue
            refine effect_runBoundCall hs ?_ (v := { w with timers := w.timers.eraseIdx i }) ?_ h
            · simp only [closes, hdue, Option.bind_some]
            · exact ⟨rfl, rfl, rfl, fun _ => rfl, rfl, rfl, rfl, List.Perm.refl _, rfl, rfl,
                fun _ => rfl, fun _ _ => rfl⟩
          · rename_i hdue
            cases h
            exact .calm (by simp only [closes, hdue, Option.bind_none]) (.refl w)
      | runFunctor =>
          simp only [act, call, runFunctor] at h
          split at h
          · rename_i cb rest hpend
            refine effect_runBoundCall hs ?_ (v := { w with pendingFunctors := rest }) ?_ h
            · simp only [closes, hpend, List.head?_cons, Option.bind_some]
            · exact ⟨rfl, rfl, rfl, fun _ => rfl, rfl, rfl, rfl, List.Perm.refl _, rfl, rfl,
                fun _ => rfl, fun _ _ => rfl⟩
          · rename_i hpend
            cases h
            exact .calm (by simp only [closes, hpend, List.head?_nil, Option.bind_none]) (.refl w)
  | handleRead c r wr => exact effect_handleRead hs hp h
  | handleWrite c wr =>
      cases h
      exact .calm rfl
        ((Calm.record w rfl).trans (.quiet (quiet_handleWrite (hs.record rfl) wr)))
  | handleClose c => exact .close c _ rfl hp (.record w rfl) (hs.record rfl) h

/-- What it does to the descriptors. -/
inductive Released (w : EventLoop) (a : Act) (w' : EventLoop) : Prop where
  | none (closes : w.closes a = .none) (same : Calm w w')
  | one (c : ConnId) (closes : w.closes a = some c) (mem : c ∈ w.activeConnections)
      (openFds : w'.openFds = w.openFds.filter (· ≠ (w.conn c).channel.fd))
      (sessions : ∀ fd, fd ∈ w'.sessionFds ↔ fd ∈ w.sessionFds ∧ fd ≠ (w.conn c).channel.fd)

theorem released_act (hs : w.Sound) (hp : w.Proper a) (ha : a.connfd = none)
    (h : w.act a = some w') : Released w a w' := by
  cases effect_act hs hp ha h with
  | calm hcl hsame => exact .none hcl hsame
  | close c v hcl hc hsame hv hclose =>
      obtain ⟨hcv, hclosed⟩ := closed_of_handleClose hv hclose
      refine .one c hcl hc ?_ fun fd => ?_
      · rw [hclosed.openFds, hsame.openFds, hsame.fd]
      · rw [hclosed.sessions hv hcv, hsame.sessionFds, hsame.fd]

/-- The descriptor that an act closes, if it closes one. -/
def closedFds (w : EventLoop) (a : Act) : List Int :=
  ((w.closes a).map fun c => (w.conn c).channel.fd).toList

/-! ## The base loop -/

/-- A loop as it was made, but for the time. -/
def Bare (w : EventLoop) : Prop := ∃ idleSeconds now epollFd timerFd wakeupFd,
  w = new idleSeconds now epollFd timerFd wakeupFd

/-- A loop without a session has none that an act could touch. -/
theorem Bare.act (hb : w.Bare) (hp : w.Proper a) (ha : a.connfd = none) (h : w.act a = some w') :
    w'.Bare ∧ w.closes a = none ∧ w'.openFds = w.openFds := by
  obtain ⟨idleSeconds, now, epollFd, timerFd, wakeupFd, rfl⟩ := hb
  have hsame : ∀ v, v = new idleSeconds now epollFd timerFd wakeupFd →
      v.Bare ∧ v.openFds = (new idleSeconds now epollFd timerFd wakeupFd).openFds := by
    rintro v rfl
    exact ⟨⟨_, _, _, _, _, rfl⟩, rfl⟩
  cases a with
  | tick dt =>
      cases h
      exact ⟨⟨idleSeconds, now + dt, epollFd, timerFd, wakeupFd, rfl⟩, rfl, rfl⟩
  | call k =>
      cases k with
      | getNextFreeConnection fd => exact absurd ha nofun
      | send c data wr =>
          cases h
          exact ⟨(hsame _ rfl).1, rfl, rfl⟩
      | shutdown c =>
          cases h
          exact ⟨(hsame _ rfl).1, rfl, rfl⟩
      | forceClose c =>
          cases h
          exact ⟨(hsame _ rfl).1, rfl, rfl⟩
      | forceCloseWithDelay c delay =>
          cases h
          exact ⟨(hsame _ rfl).1, rfl, rfl⟩
      | removeExpiredConnection =>
          have hnone : (new idleSeconds now epollFd timerFd wakeupFd).removeExpiredConnection =
              new idleSeconds now epollFd timerFd wakeupFd := by
            rw [removeExpiredConnection]
            split <;> rfl
          cases h
          obtain ⟨hbare, hfds⟩ := hsame _ hnone
          exact ⟨hbare, rfl, hfds⟩
      | runTimer i =>
          cases h
          exact ⟨(hsame _ rfl).1, rfl, rfl⟩
      | runFunctor =>
          cases h
          exact ⟨(hsame _ rfl).1, rfl, rfl⟩
  | handleRead c r wr => exact absurd hp List.not_mem_nil
  | handleWrite c wr => exact absurd hp List.not_mem_nil
  | handleClose c => exact absurd hp List.not_mem_nil

end EventLoop

end WebServer

/-
# `Net.Registry` — the poller's map and the open sessions

The calls considered are the opening of a session on a descriptor not in use,
`enableWriting`, `disableWriting` and `handleClose`, in any order.  `Agrees`
says that the map's entries for connections are the open sessions', each under
its own descriptor, and that no lookup the poller asserts has failed.

Opening and writing keep it.  `handleClose` sets the channel's descriptor to
`-1` before it calls `removeChannel`, which erases by descriptor: the entry of
the closed session stays (`closed_not_agrees`).  Hence `agrees_iff`: the map
agrees with the sessions throughout a run exactly when the run closes none.
-/
import WebServer.Lib.Machine
import WebServer.Net.Sessions

namespace WebServer

namespace Registry

open EventLoop

inductive Op where
  | getNextFreeConnection (connfd : Int)
  | enableWriting (c : ConnId)
  | disableWriting (c : ConnId)
  | handleClose (c : ConnId)
  deriving DecidableEq

/-- One call: a session is opened on a valid descriptor that is not in use, and
the other calls are made on open sessions. -/
def step (w : EventLoop) : Op → Option EventLoop
  | .getNextFreeConnection fd =>
      if 0 ≤ fd ∧ fd ∉ w.openFds then w.getNextFreeConnection fd else none
  | .enableWriting c => if (w.conn c).isOpen then some (w.enableWriting c) else none
  | .disableWriting c => if (w.conn c).isOpen then some (w.disableWriting c) else none
  | .handleClose c => if (w.conn c).isOpen then w.handleClose c else none

structure Agrees (w : EventLoop) : Prop where
  entries : ∀ fd c, w.poller.channels fd = some (.conn c) ↔
    (w.conn c).isOpen = true ∧ (w.conn c).channel.fd = fd
  lookups : w.poller.failedLookups = 0

variable {w t : EventLoop} {c : ConnId} {fd : Int}

/-! ## One call -/

/-- A descriptor not in use has no entry. -/
theorem Agrees.free (h : Agrees w) (hs : w.Sound) (hnew : fd ∉ w.openFds) :
    w.poller.channels fd = none := by
  by_contra hne
  obtain ⟨ref, href⟩ := Option.ne_none_iff_exists'.mp hne
  have hwatch : w.watcher fd = some ref := by
    cases ref with
    | wakeup => exact hs.watched.own fd _ href fun _ => nofun
    | timer => exact hs.watched.own fd _ href fun _ => nofun
    | conn c =>
        obtain ⟨hopen, rfl⟩ := (h.entries fd c).mp href
        exact hs.watched.here c (hs.isOpen_iff.mp hopen)
  exact hnew (hs.watched.openFd fd (by rw [hwatch]; exact nofun))

theorem opened_agrees (h : Agrees w) (hs : w.Sound) (hnew : fd ∉ w.openFds)
    (ho : Opened w c fd t) : Agrees t := by
  have hself : ∀ fd', (t.conn c).isOpen = true ∧ (t.conn c).channel.fd = fd' ↔ fd' = fd := by
    intro fd'
    obtain ⟨node, n, hn, -⟩ := ho.self
    rw [hn]
    exact ⟨fun hfd => hfd.2.symm, fun hfd => ⟨rfl, hfd.symm⟩⟩
  have hold : ∀ d, d ≠ c → ((t.conn d).isOpen = true ∧ (t.conn d).channel.fd = fd → False) := by
    rintro d hdc ⟨hopen, hfd⟩
    rw [(ho.same hdc).1] at hopen
    rw [(ho.same hdc).2.1] at hfd
    have hentry := (h.entries fd d).mpr ⟨hopen, hfd⟩
    rw [h.free hs hnew] at hentry
    exact absurd hentry nofun
  refine ⟨?_, (ho.lookups (h.free hs hnew)).trans h.lookups⟩
  intro fd' d
  rw [ho.channels]
  by_cases hdc : d = c
  · subst hdc
    rw [hself]
    by_cases hfd : fd' = fd
    · rw [hfd, Function.update_self]
      exact ⟨fun _ => rfl, fun _ => rfl⟩
    · rw [Function.update_of_ne hfd]
      refine ⟨fun hentry => absurd ((h.entries fd' d).mp hentry).1 ?_, fun e => absurd e hfd⟩
      rw [(hs.resting d ho.fresh).isOpen]
      decide
  · by_cases hfd : fd' = fd
    · subst hfd
      rw [Function.update_self]
      refine ⟨?_, fun hopen => (hold d hdc hopen).elim⟩
      intro hentry
      exact absurd (ChannelRef.conn.inj (Option.some.inj hentry)).symm hdc
    · rw [Function.update_of_ne hfd, (ho.same hdc).1, (ho.same hdc).2.1]
      exact h.entries fd' d

/-- A call that leaves the map, the lookups and the shapes alone. -/
theorem quiet_agrees (h : Agrees w) (hq : Quiet w t)
    (hlookups : t.poller.failedLookups = w.poller.failedLookups) : Agrees t := by
  refine ⟨?_, hlookups.trans h.lookups⟩
  intro fd c
  rw [hq.channels, hq.isOpen, hq.fd]
  exact h.entries fd c

/-- The lookup a change of interest asserts succeeds. -/
theorem failedLookups_updateInterest (h : Agrees w) (hs : w.Sound) (hc : c ∈ w.activeConnections)
    {f : Channel → Channel} (hfd : ∀ ch, (f ch).fd = ch.fd)
    (hindex : ∀ ch, (f ch).index = ch.index) :
    (w.updateInterest c f).poller.failedLookups = w.poller.failedLookups := by
  have hentry := (h.entries _ c).mpr ⟨hs.opened c hc, rfl⟩
  have hadded : (f (w.conn c).channel).index = .kAdded := (hindex _).trans (hs.watched.added c hc)
  show ((w.modify c _).poller.updateChannel _ ((w.modify c _).conn c).channel).1.failedLookups = _
  rw [conn_modify_self]
  show (w.poller.updateChannel (.conn c) (f (w.conn c).channel)).1.failedLookups = _
  simp only [Epoller.updateChannel, hadded, hfd, hentry, Epoller.checked, decide_true, if_true]
  split <;> exact Epoller.failedLookups_epollCtl ..

/-- The entry of a session that has been closed is still there. -/
theorem closed_not_agrees (h : Agrees w) (hs : w.Sound) (hc : c ∈ w.activeConnections)
    (hcl : Closed w c t) : ¬ Agrees t := by
  intro ht
  have hentry := (h.entries _ c).mpr ⟨hs.opened c hc, rfl⟩
  have hfd : (w.conn c).channel.fd ≠ -1 := by
    have hvalid := hs.watched.valid c hc
    omega
  have hstale : t.poller.channels (w.conn c).channel.fd = some (.conn c) := by
    rw [hcl.channels, Function.update_of_ne hfd]
    exact hentry
  have hopen := (hcl.sound hs hc).isOpen_iff.mp ((ht.entries _ c).mp hstale).1
  exact ((hcl.mem_active hs).mp hopen).1 rfl

/-! ## Runs -/

theorem step_sound {op : Op} (hs : w.Sound) (h : step w op = some t) : t.Sound := by
  cases op with
  | getNextFreeConnection fd =>
      simp only [step, Option.ite_none_right_eq_some] at h
      obtain ⟨⟨hfd, hnew⟩, h⟩ := h
      obtain ⟨c, w', hget, ho⟩ := getNextFreeConnection_opened hs hfd hnew
      rw [hget] at h
      cases h
      exact ho.sound hs hfd hnew
  | enableWriting c =>
      simp only [step, Option.ite_none_right_eq_some] at h
      obtain ⟨hopen, h⟩ := h
      cases h
      exact hs.quiet (quiet_enableWriting hs (hs.isOpen_iff.mp hopen))
  | disableWriting c =>
      simp only [step, Option.ite_none_right_eq_some] at h
      obtain ⟨hopen, h⟩ := h
      cases h
      exact hs.quiet (quiet_disableWriting hs (hs.isOpen_iff.mp hopen))
  | handleClose c =>
      simp only [step, Option.ite_none_right_eq_some] at h
      obtain ⟨hopen, h⟩ := h
      have hc := hs.isOpen_iff.mp hopen
      obtain ⟨w', hclose, hcl⟩ := handleClose_closed hs hc
      rw [hclose] at h
      cases h
      exact hcl.sound hs hc

theorem step_agrees {op : Op} (hs : w.Sound) (h : Agrees w) (hstep : step w op = some t) :
    Agrees t ↔ ∀ c, op ≠ .handleClose c := by
  cases op with
  | getNextFreeConnection fd =>
      simp only [step, Option.ite_none_right_eq_some] at hstep
      obtain ⟨⟨hfd, hnew⟩, hstep⟩ := hstep
      obtain ⟨c, w', hget, ho⟩ := getNextFreeConnection_opened hs hfd hnew
      rw [hget] at hstep
      cases hstep
      exact ⟨fun _ _ => nofun, fun _ => opened_agrees h hs hnew ho⟩
  | enableWriting c =>
      simp only [step, Option.ite_none_right_eq_some] at hstep
      obtain ⟨hopen, hstep⟩ := hstep
      cases hstep
      have hc := hs.isOpen_iff.mp hopen
      refine ⟨fun _ _ => nofun, fun _ => quiet_agrees h (quiet_enableWriting hs hc) ?_⟩
      exact failedLookups_updateInterest h hs hc (fun _ => rfl) fun _ => rfl
  | disableWriting c =>
      simp only [step, Option.ite_none_right_eq_some] at hstep
      obtain ⟨hopen, hstep⟩ := hstep
      cases hstep
      have hc := hs.isOpen_iff.mp hopen
      refine ⟨fun _ _ => nofun, fun _ => quiet_agrees h (quiet_disableWriting hs hc) ?_⟩
      exact failedLookups_updateInterest h hs hc (fun _ => rfl) fun _ => rfl
  | handleClose c =>
      simp only [step, Option.ite_none_right_eq_some] at hstep
      obtain ⟨hopen, hstep⟩ := hstep
      have hc := hs.isOpen_iff.mp hopen
      obtain ⟨w', hclose, hcl⟩ := handleClose_closed hs hc
      rw [hclose] at hstep
      cases hstep
      exact ⟨fun ht => absurd ht (closed_not_agrees h hs hc hcl), fun hne => absurd rfl (hne c)⟩

theorem agrees_start (idleSeconds now epollFd : Int) {timerFd wakeupFd : Int} (ht : 0 ≤ timerFd)
    (hw : 0 ≤ wakeupFd) (hne : timerFd ≠ wakeupFd) :
    Agrees (start idleSeconds now epollFd timerFd wakeupFd) := by
  have hs : (start idleSeconds now epollFd timerFd wakeupFd).Sound := sound_start ht hw hne
  obtain ⟨heap, k, hstart⟩ := start_eq idleSeconds now epollFd timerFd wakeupFd
  constructor
  · intro fd c
    constructor
    · intro hentry
      rw [hstart] at hentry
      have hnew := hentry.symm.trans (channels_new idleSeconds now epollFd timerFd wakeupFd fd)
      split at hnew
      · exact absurd hnew nofun
      · split at hnew <;> exact absurd hnew nofun
    · rintro ⟨hopen, -⟩
      have hc := hs.isOpen_iff.mp hopen
      rw [hstart] at hc
      exact absurd hc List.not_mem_nil
  · rw [hstart]
    exact failedLookups_new idleSeconds now epollFd hne

/-- The poller's map agrees with the open sessions in every state of a run
exactly when the run closes no session. -/
theorem agrees_iff {idleSeconds now epollFd timerFd wakeupFd : Int} (ht : 0 ≤ timerFd)
    (hw : 0 ≤ wakeupFd) (hne : timerFd ≠ wakeupFd) {ops : List Op} {w : EventLoop}
    (h : Machine.exec step (start idleSeconds now epollFd timerFd wakeupFd) ops = some w) :
    Machine.Throughout step Agrees (start idleSeconds now epollFd timerFd wakeupFd) ops ↔
      ∀ op ∈ ops, ∀ c, op ≠ .handleClose c := by
  rw [← Machine.meets_iff_forall h]
  exact Machine.throughout_iff_meets (fun _ _ _ hs ha => step_sound hs ha)
    (fun _ _ _ hs hag ha => step_agrees hs hag ha) (sound_start ht hw hne)
    (agrees_start idleSeconds now epollFd ht hw hne) h

/-- Two sessions, one of which asks to write. -/
theorem agrees_two : Machine.Throughout step Agrees (start (-1) 0 3 4 5)
    [.getNextFreeConnection 7, .getNextFreeConnection 8, .enableWriting 1] :=
  (agrees_iff (by decide) (by decide) (by decide)
    (Option.some_get (by decide +kernel)).symm).mpr (by simp)

/-- A session is opened on descriptor 7 and closed. -/
theorem agrees_fails : ¬ ∀ (ops : List Op) (w : EventLoop),
    Machine.exec step (start (-1) 0 3 4 5) ops = some w → Agrees w := by
  intro hall
  have h := hall [.getNextFreeConnection 7, .handleClose 1] _
    (Option.some_get (by decide +kernel)).symm
  have hopen := ((h.entries 7 1).mp (by decide +kernel)).1
  exact absurd hopen (by decide +kernel)

end Registry

end WebServer

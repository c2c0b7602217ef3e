/-
# `Net.Sessions` — opening and closing keep the invariant, and it holds at the start

`Opened.sound` and `Closed.sound` go through the parts of `Sound` for the two
calls that are not quiet.  Both have the same argument at their core: the
session concerned has a descriptor, a node of the idle list and a number of its
own, and no other session shares any of them.

`sound_start` is the base case, the loop of a thread that has built its pool.
-/
import WebServer.Net.Handover

namespace WebServer

namespace EventLoop

/-! ## Opening and closing keep the invariant -/

theorem closedSessions_append (log log' : List Event) :
    closedSessions (log ++ log') = closedSessions log ++ closedSessions log' :=
  List.filterMap_append

section

variable {w w' : EventLoop} {c : ConnId} {fd : Int}

/-- An object other than the closed one keeps everything but its link. -/
theorem Closed.same (h : Closed w c w') {d : ConnId} (hd : d ≠ c) :
    (w'.conn d).isOpen = (w.conn d).isOpen ∧ (w'.conn d).channel = (w.conn d).channel ∧
      (w'.conn d).timeNode = (w.conn d).timeNode ∧ (w'.conn d).session = (w.conn d).session := by
  obtain ⟨n, hn⟩ := h.others d hd
  rw [hn]
  exact ⟨rfl, rfl, rfl, rfl⟩

theorem Closed.mem_active (h : Closed w c w') (hs : w.Sound) {d : ConnId} :
    d ∈ w'.activeConnections ↔ d ≠ c ∧ d ∈ w.activeConnections := by
  obtain ⟨head, chain, -, hpool⟩ := hs.pool
  rw [h.active]
  exact hpool.active_nodup.mem_erase_iff

theorem Closed.watcher (h : Closed w c w') (fd : Int) :
    w'.watcher fd = if fd = (w.conn c).channel.fd then none else w.watcher fd :=
  watcher_of_update h.interest fd

theorem Closed.watched (h : Closed w c w') (hs : w.Sound) (hc : c ∈ w.activeConnections) :
    w'.Watched := by
  have hw := hs.watched
  -- nobody but `c` is watched at its descriptor
  have hfd : ∀ d ∈ w.activeConnections, d ≠ c →
      (w.conn d).channel.fd ≠ (w.conn c).channel.fd := by
    intro d hd hdc heq
    have hhere := hw.here c hc
    rw [← heq, hw.here d hd] at hhere
    exact hdc (ChannelRef.conn.inj (Option.some.inj hhere))
  constructor
  · intro d hd
    obtain ⟨hdc, hd⟩ := (h.mem_active hs).mp hd
    rw [(h.same hdc).2.1]
    exact hw.added d hd
  · intro d hd
    obtain ⟨hdc, hd⟩ := (h.mem_active hs).mp hd
    rw [(h.same hdc).2.1]
    exact hw.reading d hd
  · intro d hd
    obtain ⟨hdc, hd⟩ := (h.mem_active hs).mp hd
    rw [(h.same hdc).2.1]
    exact hw.valid d hd
  · intro d hd
    obtain ⟨hdc, hd⟩ := (h.mem_active hs).mp hd
    rw [(h.same hdc).2.1, h.watcher, if_neg (hfd d hd hdc)]
    exact hw.here d hd
  · intro fd d hwatch
    rw [h.watcher] at hwatch
    split at hwatch
    · exact absurd hwatch nofun
    · rename_i hne
      obtain ⟨hd, hdfd⟩ := hw.owner fd d hwatch
      have hdc : d ≠ c := by
        rintro rfl
        exact hne hdfd.symm
      exact ⟨(h.mem_active hs).mpr ⟨hdc, hd⟩, by rw [(h.same hdc).2.1]; exact hdfd⟩
  · intro fd hwatch
    rw [h.watcher] at hwatch
    split at hwatch
    · exact absurd rfl hwatch
    · rename_i hne
      rw [h.openFds, List.mem_filter]
      exact ⟨hw.openFd fd hwatch, by simpa using hne⟩
  · intro fd ref hch href
    have hold : w.poller.channels fd = some ref := by
      rw [h.channels] at hch
      by_cases heq : fd = -1
      · rw [heq, Function.update_self] at hch
        exact absurd hch nofun
      · rwa [Function.update_of_ne heq] at hch
    have hwatch := hw.own fd ref hold href
    rw [h.watcher, if_neg]
    · exact hwatch
    · rintro rfl
      rw [hw.here c hc] at hwatch
      exact href c (Option.some.inj hwatch).symm

theorem Closed.timed (h : Closed w c w') (hs : w.Sound) (hc : c ∈ w.activeConnections)
    (hidle : 0 < w.idleSeconds) : w'.Timed := by
  obtain ⟨head, chain, -, hpool⟩ := hs.pool
  refine (hs.timed hidle).delist hpool.active_nodup hc h.active (h.list hidle) h.nextPosition ?_
  intro d _ hdc
  rw [(h.same hdc).2.2.1]

theorem Closed.past (h : Closed w c w') (hs : w.Sound) (hc : c ∈ w.activeConnections) :
    w'.Past := by
  have hp := hs.past
  have hsess : ∀ d, (w'.conn d).session = (w.conn d).session := by
    intro d
    by_cases hdc : d = c
    · subst hdc
      obtain ⟨n, hn⟩ := h.self
      rw [hn]
      rfl
    · exact (h.same hdc).2.2.2
  have hlog : closedSessions w'.log = closedSessions w.log ++ [(c, (w.conn c).session)] := by
    rw [h.log, closedSessions_append]
    rfl
  constructor
  · rw [hlog]
    refine List.nodup_append.mpr ⟨hp.once, List.nodup_singleton _, ?_⟩
    intro a ha b hb hab
    rw [hab, List.mem_singleton.mp hb] at ha
    exact hp.unclosed c hc ha
  · intro d s hds
    rw [hsess]
    rw [hlog] at hds
    rcases List.mem_append.mp hds with hold | hnew
    · exact hp.before d s hold
    · cases List.mem_singleton.mp hnew
      exact Nat.le_refl _
  · intro d hd
    obtain ⟨hdc, hd⟩ := (h.mem_active hs).mp hd
    rw [hsess, hlog]
    intro hmem
    rcases List.mem_append.mp hmem with hold | hnew
    · exact hp.unclosed d hd hold
    · exact hdc (congrArg Prod.fst (List.mem_singleton.mp hnew))

theorem Closed.sound (h : Closed w c w') (hs : w.Sound) (hc : c ∈ w.activeConnections) :
    w'.Sound where
  pool := h.pool
  unborn := fun d hd => by
    rw [h.allocated] at hd
    rw [h.unborn d hd, hs.unborn d hd]
  opened := fun d hd => by
    obtain ⟨hdc, hd⟩ := (h.mem_active hs).mp hd
    rw [(h.same hdc).1]
    exact hs.opened d hd
  resting := fun d hd => by
    by_cases hdc : d = c
    · subst hdc
      obtain ⟨n, hn⟩ := h.self
      rw [hn]
      exact ⟨rfl, rfl, rfl, rfl⟩
    · obtain ⟨n, hn⟩ := h.others d hdc
      rw [hn]
      exact hs.resting d fun hact => hd ((h.mem_active hs).mpr ⟨hdc, hact⟩)
  watched := h.watched hs hc
  timed := fun hidle => h.timed hs hc (by rw [← h.idleSeconds]; exact hidle)
  past := h.past hs hc

/-- An object other than the opened one keeps everything but its link. -/
theorem Opened.same (h : Opened w c fd w') {d : ConnId} (hd : d ≠ c) :
    (w'.conn d).isOpen = (w.conn d).isOpen ∧ (w'.conn d).channel = (w.conn d).channel ∧
      (w'.conn d).timeNode = (w.conn d).timeNode ∧ (w'.conn d).session = (w.conn d).session := by
  obtain ⟨n, hn⟩ := h.others d hd
  rw [hn]
  exact ⟨rfl, rfl, rfl, rfl⟩

theorem Opened.mem_active (h : Opened w c fd w') {d : ConnId} :
    d ∈ w'.activeConnections ↔ d ∈ w.activeConnections ∨ d = c := by
  rw [h.active, List.mem_append, List.mem_singleton]

theorem Opened.ne (h : Opened w c fd w') {d : ConnId} (hd : d ∈ w.activeConnections) : d ≠ c :=
  fun e => h.fresh (e ▸ hd)

theorem Opened.channel (h : Opened w c fd w') :
    (w'.conn c).channel = ⟨fd, (Channel.new fd).wantReading.events, .kAdded⟩ := by
  obtain ⟨node, n, hn, -⟩ := h.self
  rw [hn]
  rfl

theorem Opened.watcher (h : Opened w c fd w') (fd' : Int) :
    w'.watcher fd' = if fd' = fd then some (.conn c) else w.watcher fd' :=
  watcher_of_update h.interest fd'

theorem Opened.watched (h : Opened w c fd w') (hs : w.Sound) (hfd : 0 ≤ fd)
    (hnew : fd ∉ w.openFds) : w'.Watched := by
  have hw := hs.watched
  have hnone : w.watcher fd = none := by
    by_contra hne
    exact hnew (hw.openFd fd hne)
  have hne : ∀ fd' ref, w.watcher fd' = some ref → fd' ≠ fd := by
    rintro fd' ref hwatch rfl
    rw [hnone] at hwatch
    exact absurd hwatch nofun
  constructor
  · intro d hd
    rcases h.mem_active.mp hd with hd | rfl
    · rw [(h.same (h.ne hd)).2.1]
      exact hw.added d hd
    · rw [h.channel]
  · intro d hd
    rcases h.mem_active.mp hd with hd | rfl
    · rw [(h.same (h.ne hd)).2.1]
      exact hw.reading d hd
    · rw [h.channel]
      rfl
  · intro d hd
    rcases h.mem_active.mp hd with hd | rfl
    · rw [(h.same (h.ne hd)).2.1]
      exact hw.valid d hd
    · rw [h.channel]
      exact hfd
  · intro d hd
    rcases h.mem_active.mp hd with hd | rfl
    · rw [(h.same (h.ne hd)).2.1, h.watcher, if_neg (hne _ _ (hw.here d hd))]
      exact hw.here d hd
    · rw [h.channel, h.watcher, if_pos rfl]
  · intro fd' d hwatch
    rw [h.watcher] at hwatch
    split at hwatch
    · rename_i heq
      cases hwatch
      exact ⟨h.mem_active.mpr (Or.inr rfl), by rw [h.channel, heq]⟩
    · obtain ⟨hd, hdfd⟩ := hw.owner fd' d hwatch
      exact ⟨h.mem_active.mpr (Or.inl hd), by rw [(h.same (h.ne hd)).2.1]; exact hdfd⟩
  · intro fd' hwatch
    rw [h.watcher] at hwatch
    rw [h.openFds]
    split at hwatch
    · rename_i heq
      exact heq ▸ List.mem_cons_self
    · exact List.mem_cons_of_mem _ (hw.openFd fd' hwatch)
  · intro fd' ref hch href
    rw [h.channels] at hch
    by_cases heq : fd' = fd
    · rw [heq, Function.update_self] at hch
      exact absurd (Option.some.inj hch).symm (href c)
    · rw [Function.update_of_ne heq] at hch
      rw [h.watcher, if_neg heq]
      exact hw.own fd' ref hch href

theorem Opened.timed (h : Opened w c fd w') (hs : w.Sound) (hidle : 0 < w.idleSeconds) :
    w'.Timed := by
  obtain ⟨node, n, hn, hpos⟩ := h.self
  refine (hs.timed hidle).enlist h.active (h.list hidle) (h.nextPosition hidle) ?_ ?_
  · rw [hn]
    exact hpos hidle
  · intro d hd
    rw [(h.same (h.ne hd)).2.2.1]

/-- A session's number is one more than the object's last. -/
theorem Opened.session (h : Opened w c fd w') : (w'.conn c).session = (w.conn c).session + 1 := by
  obtain ⟨node, n, hn, -⟩ := h.self
  rw [hn]
  rfl

theorem Opened.past (h : Opened w c fd w') (hs : w.Sound) : w'.Past := by
  have hp := hs.past
  constructor
  · rw [h.log]
    exact hp.once
  · intro d s hds
    rw [h.log] at hds
    have hle := hp.before d s hds
    by_cases hdc : d = c
    · subst hdc
      rw [h.session]
      exact Nat.le_succ_of_le hle
    · rw [(h.same hdc).2.2.2]
      exact hle
  · intro d hd
    rw [h.log]
    rcases h.mem_active.mp hd with hd | rfl
    · rw [(h.same (h.ne hd)).2.2.2]
      exact hp.unclosed d hd
    · rw [h.session]
      intro hmem
      exact absurd (hp.before d _ hmem) (Nat.not_succ_le_self _)

theorem Opened.sound (h : Opened w c fd w') (hs : w.Sound) (hfd : 0 ≤ fd)
    (hnew : fd ∉ w.openFds) : w'.Sound where
  pool := h.pool
  unborn := fun d hd => by
    obtain ⟨hle, hsame⟩ := h.unborn d hd
    rw [hsame, hs.unborn d hle]
  opened := fun d hd => by
    rcases h.mem_active.mp hd with hd | rfl
    · rw [(h.same (h.ne hd)).1]
      exact hs.opened d hd
    · obtain ⟨node, n, hn, -⟩ := h.self
      rw [hn]
      rfl
  resting := fun d hd => by
    have hdc : d ≠ c := fun e => hd (h.mem_active.mpr (Or.inr e))
    obtain ⟨n, hn⟩ := h.others d hdc
    rw [hn]
    exact hs.resting d fun hact => hd (h.mem_active.mpr (Or.inl hact))
  watched := h.watched hs hfd hnew
  timed := fun hidle => h.timed hs (by rw [← h.idleSeconds]; exact hidle)
  past := h.past hs

end

/-! ## The loop at its start -/

/-- Building the pool writes the heap and nothing else of a loop. -/
theorem initConnectionPoolLoop_eq (n : Nat) : ∀ (w : EventLoop) (tc : ConnId) (i : Nat),
    ∃ heap k, w.initConnectionPoolLoop tc i n = { w with heap := heap, allocated := k } := by
  induction n with
  | zero => intro w _ _; exact ⟨w.heap, w.allocated, rfl⟩
  | succ n ih =>
      intro w tc i
      obtain ⟨heap, k, h⟩ := ih _ w.allocated (i + 1)
      exact ⟨heap, k, h⟩

/-- No object has a session, and no object is there before it is allocated. -/
def Blank (w : EventLoop) : Prop :=
  (∀ c, (w.conn c).Resting) ∧ ∀ c, w.allocated ≤ c → w.conn c = TcpConnection.new

theorem conn_allocate (w : EventLoop) (c : ConnId) :
    w.allocate.conn c = if c = w.allocated then TcpConnection.new else w.conn c := by
  simp only [allocate, conn, Function.update_apply]

/-- What holds of a new object, whatever its index and link, holds of all the
objects of a pool. -/
theorem forall_initConnectionPoolLoop {P : TcpConnection → Prop} (hnew : P TcpConnection.new)
    (hlink : ∀ tc k m, P tc → P { tc with index := k, nextTcpConn := m }) (n : Nat) :
    ∀ (w : EventLoop) (tc : ConnId) (i : Nat), (∀ c, P (w.conn c)) →
      ∀ c, P ((w.initConnectionPoolLoop tc i n).conn c) := by
  induction n with
  | zero => intro w _ _ h; exact h
  | succ n ih =>
      intro w tc i h
      refine ih _ w.allocated (i + 1) ?_
      intro c
      rw [conn_setNextTcpConn]
      by_cases hc : c = w.allocated
      · rw [hc, conn_modify_self, conn_allocate, if_pos rfl]
        exact hlink TcpConnection.new i _ hnew
      · rw [conn_modify_ne _ _ hc, conn_allocate, if_neg hc]
        exact hlink _ (w.conn c).index _ (h c)

theorem forall_start {P : TcpConnection → Prop} (hnew : P TcpConnection.new)
    (hlink : ∀ tc k m, P tc → P { tc with index := k, nextTcpConn := m })
    (idleSeconds now epollFd timerFd wakeupFd : Int) (c : ConnId) :
    P ((start idleSeconds now epollFd timerFd wakeupFd).conn c) := by
  rw [start, initConnectionPool]
  refine forall_initConnectionPoolLoop hnew hlink _ _ _ _ ?_ c
  intro c
  show P ((new idleSeconds now epollFd timerFd wakeupFd).allocate.conn c)
  rw [conn_allocate]
  split
  · exact hnew
  · exact hnew

theorem unborn_initConnectionPoolLoop (n : Nat) : ∀ (w : EventLoop) (tc : ConnId) (i : Nat),
    (∀ c, w.allocated ≤ c → w.conn c = TcpConnection.new) → tc < w.allocated →
      ∀ c, (w.initConnectionPoolLoop tc i n).allocated ≤ c →
        (w.initConnectionPoolLoop tc i n).conn c = TcpConnection.new := by
  induction n with
  | zero => intro w _ _ h _; exact h
  | succ n ih =>
      intro w tc i h htc
      refine ih _ w.allocated (i + 1) ?_ (Nat.lt_succ_self _)
      intro c hc
      have hlt : w.allocated < c := hc
      have hctc : c ≠ tc := (htc.trans hlt).ne'
      rw [setNextTcpConn, conn_modify_ne _ _ hctc, conn_modify_ne _ _ hlt.ne', conn_allocate,
        if_neg hlt.ne', h c hlt.le]

theorem blank_initConnectionPoolLoop {w : EventLoop} {tc : ConnId} (n i : Nat) (h : w.Blank)
    (htc : tc < w.allocated) : (w.initConnectionPoolLoop tc i n).Blank :=
  ⟨forall_initConnectionPoolLoop ⟨rfl, rfl, rfl, rfl⟩ (fun _ _ _ h => h) n w tc i h.1,
    unborn_initConnectionPoolLoop n w tc i h.2 htc⟩

/-- But for the pool, the loop is the constructor's. -/
theorem start_eq (idleSeconds now epollFd timerFd wakeupFd : Int) : ∃ heap k,
    start idleSeconds now epollFd timerFd wakeupFd = { new idleSeconds now epollFd timerFd wakeupFd
      with freeTcpConnection := some 0, heap := heap, allocated := k } :=
  initConnectionPoolLoop_eq MaxConnectionPoolSize
    { (new idleSeconds now epollFd timerFd wakeupFd).allocate with freeTcpConnection := some 0 } 0 0

/-- What a loop holds once its pool is built: no connection, and nothing to do. -/
structure Started (idleSeconds : Int) (w : EventLoop) : Prop where
  idleSeconds : w.idleSeconds = idleSeconds
  activeConnections : w.activeConnections = []
  connectionTimeList : w.connectionTimeList = []
  pendingFunctors : w.pendingFunctors = []
  timers : w.timers = []
  log : w.log = []

theorem started_start (idleSeconds now epollFd timerFd wakeupFd : Int) :
    Started idleSeconds (start idleSeconds now epollFd timerFd wakeupFd) := by
  obtain ⟨heap, k, hstart⟩ := start_eq idleSeconds now epollFd timerFd wakeupFd
  rw [hstart]
  exact ⟨rfl, rfl, rfl, rfl, rfl, rfl⟩

theorem Started.not_mem {idleSeconds : Int} {w : EventLoop} (h : Started idleSeconds w)
    (c : ConnId) : c ∉ w.activeConnections := by
  rw [h.activeConnections]
  exact List.not_mem_nil

theorem Started.timed {idleSeconds : Int} {w : EventLoop} (h : Started idleSeconds w) :
    w.Timed := by
  have hnone : ∀ e, e ∉ w.connectionTimeList := by
    rw [h.connectionTimeList]
    exact fun e => List.not_mem_nil
  refine ⟨?_, fun e he => absurd he (hnone e), fun c hc => absurd hc (h.not_mem c),
    fun e he => absurd he (hnone e)⟩
  rw [h.connectionTimeList]
  exact List.nodup_nil

theorem Started.past {idleSeconds : Int} {w : EventLoop} (h : Started idleSeconds w) :
    w.Past := by
  refine ⟨?_, ?_, fun c hc => absurd hc (h.not_mem c)⟩
  · rw [h.log]
    exact List.nodup_nil
  · rw [h.log]
    exact fun c s hcs => absurd hcs List.not_mem_nil

/-- The map of a new loop, the wakeup descriptor and the timer's. -/
theorem channels_new (idleSeconds now epollFd timerFd wakeupFd fd : Int) :
    (new idleSeconds now epollFd timerFd wakeupFd).poller.channels fd
      = if fd = wakeupFd then some .wakeup else if fd = timerFd then some .timer else none := by
  simp only [new, watch, Epoller.updateChannel, Channel.new, Channel.wantReading, Epoller.update,
    Epoller.channels_epollCtl, Epoller.new, Epoller.channels_checked, Function.update_apply]

theorem failedLookups_new (idleSeconds now epollFd : Int) {timerFd wakeupFd : Int}
    (hne : timerFd ≠ wakeupFd) :
    (new idleSeconds now epollFd timerFd wakeupFd).poller.failedLookups = 0 := by
  simp [new, watch, Epoller.updateChannel, Channel.new, Channel.wantReading, Epoller.update,
    Epoller.checked, Epoller.new, Function.update_of_ne hne.symm]

theorem watcher_new (idleSeconds now epollFd : Int) {timerFd wakeupFd : Int} (ht : 0 ≤ timerFd)
    (hw : 0 ≤ wakeupFd) (hne : timerFd ≠ wakeupFd) (fd : Int) :
    (new idleSeconds now epollFd timerFd wakeupFd).watcher fd
      = if fd = wakeupFd then some .wakeup else if fd = timerFd then some .timer else none := by
  simp [new, watcher, watch, Epoller.updateChannel, Epoller.new, Channel.new, Channel.wantReading,
    Epoller.update, Epoller.epollCtl, Epoller.checked, ht, hw, hne.symm, Function.update_apply]
  split <;> (try split) <;> simp_all

/-- At the start no connection is registered, and the three descriptors are the
kernel's. -/
theorem watched_start {idleSeconds now epollFd timerFd wakeupFd : Int} (ht : 0 ≤ timerFd)
    (hw : 0 ≤ wakeupFd) (hne : timerFd ≠ wakeupFd)
    (hnone : ∀ c, c ∉ (start idleSeconds now epollFd timerFd wakeupFd).activeConnections) :
    (start idleSeconds now epollFd timerFd wakeupFd).Watched := by
  obtain ⟨heap, k, hstart⟩ := start_eq idleSeconds now epollFd timerFd wakeupFd
  have hwatch : ∀ fd, (start idleSeconds now epollFd timerFd wakeupFd).watcher fd
      = if fd = wakeupFd then some .wakeup else if fd = timerFd then some .timer else none := by
    intro fd
    rw [hstart]
    exact watcher_new idleSeconds now epollFd ht hw hne fd
  refine ⟨fun c hc => absurd hc (hnone c), fun c hc => absurd hc (hnone c),
    fun c hc => absurd hc (hnone c), fun c hc => absurd hc (hnone c), ?_, ?_, ?_⟩
  · intro fd c hfd
    rw [hwatch] at hfd
    split at hfd
    · exact absurd hfd nofun
    · split at hfd <;> exact absurd hfd nofun
  · intro fd hfd
    rw [hwatch] at hfd
    rw [hstart]
    show fd ∈ [epollFd, timerFd, wakeupFd]
    split at hfd
    · simp_all
    · split at hfd
      · simp_all
      · exact absurd rfl hfd
  · intro fd ref hch _
    rw [hwatch]
    rw [hstart] at hch
    rw [← channels_new idleSeconds now epollFd timerFd wakeupFd fd]
    exact hch

theorem blank_start (idleSeconds now epollFd timerFd wakeupFd : Int) :
    (start idleSeconds now epollFd timerFd wakeupFd).Blank := by
  refine blank_initConnectionPoolLoop _ _ ⟨?_, ?_⟩ (Nat.lt_succ_self _)
  · intro c
    show ((new idleSeconds now epollFd timerFd wakeupFd).allocate.conn c).Resting
    rw [conn_allocate]
    split <;> exact ⟨rfl, rfl, rfl, rfl⟩
  · intro c _
    show (new idleSeconds now epollFd timerFd wakeupFd).allocate.conn c = _
    rw [conn_allocate]
    split <;> rfl

/-- The loop of a thread that has built its pool, none of the kernel's three
descriptors being another. -/
theorem sound_start {idleSeconds now epollFd timerFd wakeupFd : Int} (ht : 0 ≤ timerFd)
    (hw : 0 ≤ wakeupFd) (hne : timerFd ≠ wakeupFd) :
    (start idleSeconds now epollFd timerFd wakeupFd).Sound := by
  have hblank := blank_start idleSeconds now epollFd timerFd wakeupFd
  have hstarted := started_start idleSeconds now epollFd timerFd wakeupFd
  exact
    { pool := pool_initConnectionPool MaxConnectionPoolSize rfl rfl
      unborn := hblank.2
      opened := fun c hc => absurd hc (hstarted.not_mem c)
      resting := fun c _ => hblank.1 c
      watched := watched_start ht hw hne hstarted.not_mem
      timed := fun _ => hstarted.timed
      past := hstarted.past }

end EventLoop

end WebServer

/-
# `Net.Reactor` — what an io thread's loop holds

A loop of `Net.StartUp` with its queue and its thread.  It holds the descriptors
that are open in it, its own three included, and those that wait in its queue
(`held`); the connections among them are what it carries (`carried`).

`Tended` is its invariant: how far its thread has come, a `Sound` loop once the pool
is built, and nothing held twice.  What the results on one loop ask of a new
descriptor, that it is valid and not open there, `Tended` promises for the ones that
wait in the queue, so the session that a functor opens is opened well
(`Tended.turn`).
-/
import WebServer.Net.LoopFds
import WebServer.Net.StartUp
import Mathlib.Data.List.Nodup

namespace WebServer

namespace StartUp

open EventLoop Machine

/-! ## The descriptors of the server -/

/-- The descriptors of a new loop are three, and valid. -/
structure Kernel.Valid (k : Kernel) : Prop where
  timer : 0 ≤ k.timerFd
  wakeup : 0 ≤ k.wakeupFd
  three : [k.epollFd, k.timerFd, k.wakeupFd].Nodup

/-- A step of the loop's thread takes the functor it starts out of the queue. -/
theorem step_started {q q' : TaskQueue.State Int} {a : TaskQueue.Action Int}
    (hq : TaskQueue.Sound q) (ha : ofLoop a = true) (h : TaskQueue.step q a = some q') :
    (started q a = none ∧ q'.queued = q.queued) ∨
      ∃ fd, started q a = some fd ∧ q.queued = fd :: q'.queued := by
  rcases TaskQueue.step_queued hq h with ⟨t, cb, rfl, -, -⟩ | ⟨cb, rfl, hcons, -⟩ | ⟨hsame, -⟩
  · exact absurd ha nofun
  · refine Or.inr ⟨cb, ?_, hcons⟩
    rw [TaskQueue.step] at h
    split at h
    · rename_i hplace hfunctors
      rw [TaskQueue.State.queued, hfunctors] at hcons
      rw [started, if_pos hplace, hfunctors]
      exact congrArg some (List.cons.inj hcons).1
    · rename_i hfunctors
      cases h
      rw [TaskQueue.State.queued, TaskQueue.State.queued] at hcons
      exact absurd (congrArg List.length hcons) (by simp)
    · cases h
  · refine Or.inl ⟨?_, hsame⟩
    cases a with
    | run =>
        rw [TaskQueue.step] at h
        split at h
        · rename_i hfunctors
          cases h
          rw [TaskQueue.State.queued, TaskQueue.State.queued, hfunctors] at hsame
          exact absurd (congrArg List.length hsame) (by simp)
        · rename_i hfunctors
          rw [started, hfunctors]
          split <;> rfl
        · cases h
    | _ => rfl

theorem waking_ofLoop {q q' : TaskQueue.State Int} {a : TaskQueue.Action Int}
    (ha : ofLoop a = true) (h : TaskQueue.step q a = some q') : q'.waking = q.waking := by
  cases a with
  | queueInLoop thread cb => exact absurd ha nofun
  | quit thread => exact absurd ha nofun
  | wakeup thread => exact absurd ha nofun
  | handle | handled | run =>
      rw [TaskQueue.step] at h
      split at h <;> first | (cases h; rfl) | cases h
  | _ =>
      obtain ⟨-, h⟩ := Option.ite_none_right_eq_some.mp h
      cases h
      rfl

instance (k : Kernel) : Decidable k.Valid :=
  decidable_of_iff (0 ≤ k.timerFd ∧ 0 ≤ k.wakeupFd ∧ [k.epollFd, k.timerFd, k.wakeupFd].Nodup)
    ⟨fun h => ⟨h.1, h.2.1, h.2.2⟩, fun h => ⟨h.timer, h.wakeup, h.three⟩⟩

namespace Reactor

/-- What is open in the loop, and what waits in its queue. -/
def held (r : Reactor) : List Int :=
  if r.phase = .unborn then [] else r.loop.openFds ++ r.queue.queued

/-- The connections among it. -/
def carried (r : Reactor) : List Int := r.loop.sessionFds ++ r.queue.queued

/-- How far the thread of a loop has come, and what is in the loop by then. -/
def Staged (r : Reactor) : Prop :=
  match r.phase with
  | .unborn => r.loop.activeConnections = [] ∧ r.queue.queued = []
  | .constructed => ∃ idle k, k.Valid ∧ r.loop = construct idle k
  | .published => ∃ idle k, k.Valid ∧ r.loop = construct idle k
  | .building tc i => r.loop.activeConnections = [] ∧ i ≤ MaxConnectionPoolSize ∧
      ∃ idle k, k.Valid ∧ r.loop.initConnectionPoolLoop tc i (MaxConnectionPoolSize - i) =
        (construct idle k).initConnectionPool MaxConnectionPoolSize
  | .looping => r.loop.Sound

/-- The loop of an io thread; `waking` says whether the acceptor is about to wake it. -/
structure Tended (r : Reactor) (waking : Bool) : Prop where
  staged : r.Staged
  queue : TaskQueue.Sound r.queue
  waking : r.queue.waking (.foreign 0) = waking
  valid : ∀ fd ∈ r.queue.queued, 0 ≤ fd
  once : r.held.Nodup

section

variable {r r' : Reactor} {b : Bool} {fd : Int}

theorem held_of_born (h : r.phase ≠ .unborn) : r.held = r.loop.openFds ++ r.queue.queued := if_neg h

/-- There is no session before the loop runs. -/
theorem Staged.noSession (hs : r.Staged) (h : r.phase ≠ .looping) :
    r.loop.activeConnections = [] := by
  rw [Staged] at hs
  cases hphase : r.phase with
  | unborn =>
      rw [hphase] at hs
      exact hs.1
  | constructed | published =>
      rw [hphase] at hs
      obtain ⟨idle, k, -, hloop⟩ := hs
      rw [hloop]
      rfl
  | building tc i =>
      rw [hphase] at hs
      exact hs.1
  | looping => exact absurd hphase h

theorem Staged.noTask (hs : r.Staged) (h : r.phase = .unborn) : r.queue.queued = [] := by
  rw [Staged, h] at hs
  exact hs.2

theorem Staged.sound (hs : r.Staged) (h : r.phase = .looping) : r.loop.Sound := by
  rw [Staged, h] at hs
  exact hs

theorem Tended.carried_held (h : r.Tended b) (hfd : fd ∈ r.carried) : fd ∈ r.held := by
  rcases List.mem_append.mp hfd with hsession | hqueued
  · by_cases hloop : r.phase = .looping
    · rw [held_of_born (by rw [hloop]; exact nofun)]
      exact List.mem_append_left _ ((h.staged.sound hloop).sessionFds_open hsession)
    · rw [sessionFds, h.staged.noSession hloop] at hsession
      exact absurd hsession List.not_mem_nil
  · by_cases hborn : r.phase = .unborn
    · rw [h.staged.noTask hborn] at hqueued
      exact absurd hqueued List.not_mem_nil
    · rw [held_of_born hborn]
      exact List.mem_append_right _ hqueued

/-- What a step of `threadFunc` leaves of the loop and the queue. -/
theorem proceed_same (h : r.proceed = some r') : r.phase ≠ .unborn ∧ r'.phase ≠ .unborn ∧
    r'.loop.openFds = r.loop.openFds ∧ r'.loop.activeConnections = r.loop.activeConnections ∧
    r'.queue = r.queue := by
  obtain ⟨phase, w, q, built⟩ := r
  cases phase with
  | unborn => exact absurd h.symm (Option.some_ne_none _)
  | constructed => cases h; exact ⟨nofun, nofun, rfl, rfl, rfl⟩
  | published => cases h; exact ⟨nofun, nofun, rfl, rfl, rfl⟩
  | building tc i =>
      by_cases hlt : i < MaxConnectionPoolSize
      · have hround := (if_pos hlt).symm.trans h
        cases hround
        exact ⟨nofun, nofun, rfl, rfl, rfl⟩
      · have hround := (if_neg hlt).symm.trans h
        cases hround
        exact ⟨nofun, nofun, rfl, rfl, rfl⟩
  | looping => exact absurd h.symm (Option.some_ne_none _)

theorem staged_proceed (hs : r.Staged) (h : r.proceed = some r') : r'.Staged := by
  obtain ⟨phase, w, q, built⟩ := r
  cases phase with
  | unborn => exact absurd h.symm (Option.some_ne_none _)
  | constructed =>
      cases h
      exact hs
  | published =>
      cases h
      obtain ⟨idle, k, hk, hw⟩ := hs
      dsimp only at hw
      subst hw
      exact ⟨rfl, Nat.zero_le _, idle, k, hk, rfl⟩
  | building tc i =>
      obtain ⟨hnone, hi, idle, k, hk, hw⟩ := hs
      dsimp only at hnone hw
      by_cases hlt : i < MaxConnectionPoolSize
      · have hround := (if_pos hlt).symm.trans h
        cases hround
        refine ⟨hnone, hlt, idle, k, hk, ?_⟩
        rw [← hw, show MaxConnectionPoolSize - i = MaxConnectionPoolSize - (i + 1) + 1 by omega,
          initConnectionPoolLoop]
      · have hround := (if_neg hlt).symm.trans h
        cases hround
        have hdone : MaxConnectionPoolSize - i = 0 := by omega
        rw [hdone, initConnectionPoolLoop] at hw
        have hthree := hk.three
        rw [List.nodup_cons, List.nodup_cons, List.mem_singleton] at hthree
        show w.Sound
        rw [hw]
        exact sound_start hk.timer hk.wakeup hthree.2.1
  | looping => exact absurd h.symm (Option.some_ne_none _)

theorem Tended.proceed (h : r.Tended b) (hr : r.proceed = some r') :
    r'.Tended b ∧ r'.held = r.held ∧ ∀ fd, fd ∈ r'.carried ↔ fd ∈ r.carried := by
  obtain ⟨hborn, hborn', hopen, hactive, hqueue⟩ := proceed_same hr
  have hheld : r'.held = r.held := by
    rw [held_of_born hborn, held_of_born hborn', hopen, hqueue]
  have hstaged := staged_proceed h.staged hr
  refine ⟨⟨hstaged, hqueue ▸ h.queue, hqueue ▸ h.waking, hqueue ▸ h.valid, hheld ▸ h.once⟩,
    hheld, ?_⟩
  intro fd
  have hloop : r.phase ≠ .looping := by
    intro hloop
    rw [Reactor.proceed, hloop] at hr
    exact absurd hr.symm (Option.some_ne_none _)
  have hnone := h.staged.noSession hloop
  rw [carried, carried, sessionFds, sessionFds, hactive, hnone, hqueue]
  exact Iff.rfl

/-- The acceptor has pushed a descriptor, and not yet woken the loop. -/
def pushed (r : Reactor) (fd : Int) : Reactor :=
  { r with queue := TaskQueue.queueInLoop r.queue (.foreign 0) fd }

def woken (r : Reactor) : Reactor := { r with queue := TaskQueue.wakeup r.queue (.foreign 0) }

theorem queued_pushed : (r.pushed fd).queue.queued = r.queue.queued ++ [fd] :=
  (List.append_assoc _ _ _).symm

theorem held_pushed (hborn : r.phase ≠ .unborn) : (r.pushed fd).held = r.held ++ [fd] := by
  have hborn' : (r.pushed fd).phase ≠ .unborn := hborn
  rw [held_of_born hborn, held_of_born hborn', queued_pushed, List.append_assoc]
  rfl

theorem carried_pushed : (r.pushed fd).carried = r.carried ++ [fd] := by
  rw [carried, carried, queued_pushed, List.append_assoc]
  rfl

theorem Tended.push (h : r.Tended false) (hborn : r.phase ≠ .unborn) (hfd : 0 ≤ fd)
    (hnew : fd ∉ r.held) : (r.pushed fd).Tended true := by
  have hfree : r.queue.free (.foreign 0) = true := by
    rw [TaskQueue.State.free, h.waking]
    rfl
  refine ⟨?_, TaskQueue.sound_queueInLoop h.queue hfree fd, ?_, ?_, ?_⟩
  · have hstaged := h.staged
    obtain ⟨phase, w, q, built⟩ := r
    cases phase with
    | unborn => exact absurd rfl hborn
    | _ => exact hstaged
  · show Function.update r.queue.waking (.foreign 0) _ (.foreign 0) = true
    rw [Function.update_self]
    rfl
  · intro fd' hfd'
    rw [queued_pushed] at hfd'
    rcases List.mem_append.mp hfd' with hold | hlast
    · exact h.valid fd' hold
    · rw [List.mem_singleton.mp hlast]
      exact hfd
  · rw [held_pushed hborn]
    refine List.nodup_append.mpr ⟨h.once, List.nodup_singleton fd, ?_⟩
    intro x hx y hy hxy
    exact hnew (List.mem_singleton.mp hy ▸ hxy ▸ hx)

theorem Tended.wake (h : r.Tended true) : r.woken.Tended false := by
  refine ⟨h.staged, TaskQueue.sound_wakeup h.queue h.waking, ?_, h.valid, h.once⟩
  show Function.update r.queue.waking (.foreign 0) false (.foreign 0) = false
  rw [Function.update_self]

/-- The loop's thread takes a step, and opens a session if that starts a functor. -/
theorem Tended.turn (h : r.Tended b) (hloop : r.phase = .looping) {a : TaskQueue.Action Int}
    {q : TaskQueue.State Int} (ha : ofLoop a = true) (hq : TaskQueue.step r.queue a = some q) :
    ∃ w, (match started r.queue a with
        | some fd => r.loop.getNextFreeConnection fd = some w
        | none => w = r.loop) ∧
      ({ r with queue := q, loop := w } : Reactor).Tended b ∧
      (∀ fd, fd ∈ ({ r with queue := q, loop := w } : Reactor).held ↔ fd ∈ r.held) ∧
      ∀ fd, fd ∈ ({ r with queue := q, loop := w } : Reactor).carried ↔ fd ∈ r.carried := by
  obtain ⟨phase, w, queue, built⟩ := r
  dsimp only at hloop hq
  subst hloop
  have hsound : w.Sound := h.staged
  have hqueue := TaskQueue.step_sound h.queue hq
  have hwaking := (congrFun (waking_ofLoop ha hq) (.foreign 0)).trans h.waking
  have hheld : (w.openFds ++ queue.queued).Nodup := h.once
  rcases step_started h.queue ha hq with ⟨hnone, hsame⟩ | ⟨fd, hsome, hcons⟩
  · refine ⟨w, ?_, ⟨hsound, hqueue, hwaking, ?_, ?_⟩, ?_, ?_⟩
    · dsimp only
      rw [hnone]
    · intro fd hfd
      exact h.valid fd (hsame ▸ hfd)
    · show (w.openFds ++ q.queued).Nodup
      rw [hsame]
      exact hheld
    · intro fd
      show fd ∈ w.openFds ++ q.queued ↔ fd ∈ w.openFds ++ queue.queued
      rw [hsame]
    · intro fd
      show fd ∈ w.sessionFds ++ q.queued ↔ fd ∈ w.sessionFds ++ queue.queued
      rw [hsame]
  · have hvalid : ∀ x ∈ fd :: q.queued, 0 ≤ x := by
      rw [← hcons]
      exact h.valid
    rw [hcons] at hheld
    have hperm : (fd :: (w.openFds ++ q.queued)).Perm (w.openFds ++ fd :: q.queued) :=
      List.perm_middle.symm
    have honce := hperm.nodup_iff.mpr hheld
    have hnew : fd ∉ w.openFds := fun hfd =>
      (List.nodup_cons.mp honce).1 (List.mem_append_left _ hfd)
    have hfd : 0 ≤ fd := hvalid fd List.mem_cons_self
    obtain ⟨c, w', hw', ho⟩ := getNextFreeConnection_opened hsound hfd hnew
    have hopen : w'.openFds ++ q.queued = fd :: (w.openFds ++ q.queued) := by
      rw [ho.openFds]
      rfl
    refine ⟨w', ?_, ⟨ho.sound hsound hfd hnew, hqueue, hwaking, ?_, ?_⟩, ?_, ?_⟩
    · dsimp only
      rw [hsome]
      exact hw'
    · exact fun x hx => hvalid x (List.mem_cons_of_mem _ hx)
    · show (w'.openFds ++ q.queued).Nodup
      rw [hopen]
      exact honce
    · intro x
      show x ∈ w'.openFds ++ q.queued ↔ x ∈ w.openFds ++ queue.queued
      rw [hopen, hcons]
      exact hperm.mem_iff
    · intro x
      show x ∈ w'.sessionFds ++ q.queued ↔ x ∈ w.sessionFds ++ queue.queued
      rw [List.mem_append, List.mem_append, ho.sessions, hcons, List.mem_cons]
      tauto

/-- What else the loop's thread does closes a session, or leaves the descriptors alone. -/
theorem Tended.act (h : r.Tended b) (hloop : r.phase = .looping) {a : Act} {w : EventLoop}
    (hp : r.loop.Proper a) (ha : a.connfd = none) (hw : r.loop.act a = some w) :
    ({ r with loop := w } : Reactor).Tended b ∧
      (∀ fd ∈ ({ r with loop := w } : Reactor).held, fd ∈ r.held) ∧
      (∀ fd ∈ r.loop.closedFds a, fd ∈ r.carried) ∧
      ∀ fd, fd ∈ ({ r with loop := w } : Reactor).carried ↔
        fd ∈ r.carried ∧ fd ∉ r.loop.closedFds a := by
  obtain ⟨phase, v, q, built⟩ := r
  dsimp only at hloop hp hw
  subst hloop
  have hsound : v.Sound := h.staged
  have honce : (v.openFds ++ q.queued).Nodup := h.once
  have hw' : w.Sound := by
    obtain ⟨w', hact, hafter⟩ := act_after hsound hp
    rw [hw] at hact
    cases hact
    exact hafter.sound
  cases released_act hsound hp ha hw with
  | none closes same =>
      have hnone : v.closedFds a = [] := by
        rw [closedFds, closes]
        rfl
      have hheld : w.openFds ++ q.queued = v.openFds ++ q.queued := by rw [same.openFds]
      refine ⟨⟨hw', h.queue, h.waking, h.valid, ?_⟩, ?_, ?_, ?_⟩
      · show (w.openFds ++ q.queued).Nodup
        rw [hheld]
        exact honce
      · intro fd hfd
        show fd ∈ v.openFds ++ q.queued
        rw [← hheld]
        exact hfd
      · exact fun fd hfd => absurd (hnone ▸ hfd) List.not_mem_nil
      · intro fd
        show fd ∈ w.sessionFds ++ q.queued ↔ fd ∈ v.sessionFds ++ q.queued ∧ fd ∉ v.closedFds a
        rw [same.sessionFds, hnone]
        exact ⟨fun hfd => ⟨hfd, List.not_mem_nil⟩, fun hfd => hfd.1⟩
  | one c closes mem openFds sessions =>
      have hone : v.closedFds a = [(v.conn c).channel.fd] := by
        rw [closedFds, closes]
        rfl
      have hmem : (v.conn c).channel.fd ∈ v.sessionFds := mem_sessionFds.mpr ⟨c, mem, rfl⟩
      have hqueued : (v.conn c).channel.fd ∉ q.queued := fun hfd =>
        (List.nodup_append.mp honce).2.2 _ (hsound.sessionFds_open hmem) _ hfd rfl
      have hheld : (w.openFds ++ q.queued).Sublist (v.openFds ++ q.queued) := by
        rw [openFds]
        exact List.filter_sublist.append_right _
      refine ⟨⟨hw', h.queue, h.waking, h.valid, honce.sublist hheld⟩, ?_, ?_, ?_⟩
      · exact fun fd hfd => hheld.subset hfd
      · intro fd hfd
        rw [hone] at hfd
        rw [List.mem_singleton.mp hfd]
        exact List.mem_append_left _ hmem
      · intro fd
        show fd ∈ w.sessionFds ++ q.queued ↔ fd ∈ v.sessionFds ++ q.queued ∧ fd ∉ v.closedFds a
        rw [List.mem_append, List.mem_append, sessions, hone, List.mem_singleton]
        constructor
        · rintro (⟨hfd, hne⟩ | hfd)
          · exact ⟨Or.inl hfd, hne⟩
          · exact ⟨Or.inr hfd, fun e => hqueued (e ▸ hfd)⟩
        · rintro ⟨hfd | hfd, hne⟩
          · exact Or.inl ⟨hfd, hne⟩
          · exact Or.inr hfd

end

end Reactor

end StartUp

end WebServer

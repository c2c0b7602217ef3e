/-
# `Net.TaskQueue` — tasks handed to a loop from any thread

`EventLoop::loop` with `queueInLoop`, `quit` and the eventfd that wakes it, for
any number of threads.  A step is what one thread does without another being
able to come between: a critical section of `mutex_`, a read or a write of the
eventfd, an assignment.  So `queueInLoop` is two steps, the push and then the
write of `wakeup`, and so is `quit`; `waking` says which threads have that write
ahead of them.

`runInLoop` is `queueInLoop` in another thread; in the loop thread it calls the
functor at once, which is then part of the handler or functor that called it.

`ran` holds the functors that have been started, `functors` the rest of the
batch that `doPendingFunctors` has swapped out, and `enqueued` every functor
pushed, in the order in which the pushes got the lock.

    nothing lost, run twice or out of order   ran ++ functors ++ pending = enqueued
    nothing left asleep                       at `poll` with work to do, the eventfd
                                              is positive or a write to it is ahead

Both are parts of `Sound`, which every step keeps (`step_sound`): between the
swap and the next `poll` the loop does not read the eventfd, so a push that the
swap missed still has its write, or what the write left, waiting.  Seen from
outside, the batch and what is pending are one queue (`step_queued`), which is
how the models of the timers and of the connections have it.
-/
import WebServer.Lib.Machine
import Mathlib.Algebra.Ring.Nat
import Mathlib.Logic.Function.Basic

namespace WebServer

namespace TaskQueue

open Machine

inductive Thread where
  | loop
  | foreign (n : Nat)
  deriving DecidableEq

/-- What `poll` reports: the eventfd's channel, or another one. -/
inductive Ready where
  | wakeup
  | other
  deriving DecidableEq

/-- Where the loop thread stands. -/
inductive Place where
  /-- At the condition of the loop. -/
  | condition
  | poll
  /-- Between two handlers, with the channels still to be handled. -/
  | dispatch (active : List Ready)
  /-- In the handler of a channel. -/
  | handler (active : List Ready)
  /-- In `doPendingFunctors`, before the swap. -/
  | swap
  /-- Between two functors. -/
  | batch
  | functor
  /-- Out of the loop. -/
  | over
  deriving DecidableEq

structure State (Task : Type) where
  place : Place
  quit : Bool
  callingPendingFunctors : Bool
  pendingFunctors : List Task
  functors : List Task
  /-- The counter of the eventfd. -/
  eventfd : Nat
  /-- The threads that are in `wakeup`, before the write. -/
  waking : Thread → Bool
  ran : List Task
  enqueued : List Task

variable {Task : Type}

/-- A loop that nothing has happened to, at the start of `loop()`. -/
def start : State Task where
  place := .condition
  quit := false
  callingPendingFunctors := false
  pendingFunctors := []
  functors := []
  eventfd := 0
  waking := fun _ => false
  ran := []
  enqueued := []

inductive Action (Task : Type) where
  /-- Test `quit_`. -/
  | test
  /-- `poll` returns; it may have woken up for nothing, or for the timeout. -/
  | poll (active : List Ready)
  /-- Take the next active channel, or leave for `doPendingFunctors`. -/
  | handle
  /-- A handler returns. -/
  | handled
  | swap
  /-- Start the next functor, or leave `doPendingFunctors`. -/
  | run
  /-- A functor returns. -/
  | finish
  | queueInLoop (thread : Thread) (cb : Task)
  | quit (thread : Thread)
  | wakeup (thread : Thread)

/-! ## The steps -/

/-- The loop thread makes its calls from a handler or a functor. -/
def Place.inCallback : Place → Bool
  | .handler _ => true
  | .functor => true
  | _ => false

/-- Whether a thread can make a call: it is not in another one. -/
def State.free (s : State Task) (thread : Thread) : Bool :=
  !s.waking thread && (thread ≠ .loop || s.place.inCallback)

/-- The push of `queueInLoop`, and the test before its `wakeup`. -/
def queueInLoop (s : State Task) (thread : Thread) (cb : Task) : State Task :=
  { s with
    pendingFunctors := s.pendingFunctors ++ [cb]
    enqueued := s.enqueued ++ [cb]
    waking := Function.update s.waking thread (thread ≠ .loop || s.callingPendingFunctors) }

/-- The assignment of `quit`, and the test before its `wakeup`. -/
def quit (s : State Task) (thread : Thread) : State Task :=
  { s with quit := true, waking := Function.update s.waking thread (thread ≠ .loop) }

/-- What an eventfd can count to; a write beyond it fails with `EAGAIN`. -/
def eventfdMax : Nat := 2 ^ 64 - 2

/-- The write of `wakeup`. -/
def wakeup (s : State Task) (thread : Thread) : State Task :=
  { s with
    eventfd := if s.eventfd < eventfdMax then s.eventfd + 1 else s.eventfd
    waking := Function.update s.waking thread false }

/-- `EventLoop::handleRead()`: a read empties the counter. -/
def handleRead (s : State Task) : State Task := { s with eventfd := 0 }

/-- One step; `none` where the thread that should take it is somewhere else. -/
def step (s : State Task) : Action Task → Option (State Task)
  | .test =>
      if s.place = .condition then some { s with place := if s.quit then .over else .poll }
      else none
  | .poll active => if s.place = .poll then some { s with place := .dispatch active } else none
  | .handle =>
      match s.place with
      | .dispatch (.wakeup :: active) => some { handleRead s with place := .dispatch active }
      | .dispatch (.other :: active) => some { s with place := .handler active }
      | .dispatch [] => some { s with place := .swap, callingPendingFunctors := true }
      | _ => none
  | .handled =>
      match s.place with
      | .handler active => some { s with place := .dispatch active }
      | _ => none
  | .swap =>
      if s.place = .swap then
        some { s with place := .batch, functors := s.pendingFunctors, pendingFunctors := [] }
      else none
  | .run =>
      match s.place, s.functors with
      | .batch, cb :: functors =>
          some { s with place := .functor, functors := functors, ran := s.ran ++ [cb] }
      | .batch, [] => some { s with place := .condition, callingPendingFunctors := false }
      | _, _ => none
  | .finish =>
      if s.place = .functor ∧ s.waking .loop = false then some { s with place := .batch }
      else none
  | .queueInLoop thread cb => if s.free thread then some (queueInLoop s thread cb) else none
  | .quit thread => if s.free thread then some (quit s thread) else none
  | .wakeup thread => if s.waking thread then some (wakeup s thread) else none

/-! ## The invariant -/

/-- The loop is in `doPendingFunctors`. -/
def Place.inPending : Place → Bool
  | .swap => true
  | .batch => true
  | .functor => true
  | _ => false

/-- The places after a swap and before the eventfd can be read again: what is
pending there was pushed after the swap. -/
def Place.watched : Place → Bool
  | .condition => true
  | .poll => true
  | .batch => true
  | .functor => true
  | _ => false

/-- The eventfd wakes the loop, or will. -/
def State.Alarmed (s : State Task) : Prop := 0 < s.eventfd ∨ ∃ t, s.waking t = true

structure Sound (s : State Task) : Prop where
  order : s.ran ++ s.functors ++ s.pendingFunctors = s.enqueued
  swapped : s.place ≠ .batch → s.place ≠ .functor → s.functors = []
  calling : s.callingPendingFunctors = s.place.inPending
  waking : s.waking .loop = true → s.place = .functor
  awake : s.place.watched = true → s.pendingFunctors ≠ [] → s.Alarmed
  leaving : s.place = .poll → s.quit = true → s.Alarmed

theorem sound_start : Sound (start : State Task) :=
  ⟨rfl, fun _ _ => rfl, rfl, nofun, fun _ h => absurd rfl h, nofun⟩

/-! ## What one step preserves -/

/-- A loop thread that can make a call is in a handler or a functor. -/
theorem free_loop {s : State Task} (h : s.free .loop = true) :
    s.waking .loop = false ∧ s.place.inCallback = true := by
  simpa [State.free] using h

theorem Place.of_inCallback {p : Place} (h : p.inCallback = true) :
    (∃ active, p = .handler active) ∨ p = .functor := by
  cases p with
  | handler active => exact Or.inl ⟨active, rfl⟩
  | functor => exact Or.inr rfl
  | _ => exact absurd h nofun

/-- What a foreign thread does leaves the loop thread where it was. -/
theorem update_foreign (waking : Thread → Bool) (n : Nat) (b : Bool) :
    Function.update waking (.foreign n) b .loop = waking .loop :=
  Function.update_of_ne (show Thread.loop ≠ .foreign n from nofun) b waking

theorem queueInLoop_waking (s : State Task) (n : Nat) (cb : Task) :
    (queueInLoop s (.foreign n) cb).waking .loop = s.waking .loop := by
  simp only [queueInLoop, update_foreign]

theorem quit_waking (s : State Task) (n : Nat) :
    (quit s (.foreign n)).waking .loop = s.waking .loop := by
  simp only [quit, update_foreign]

theorem wakeup_waking (s : State Task) (n : Nat) :
    (wakeup s (.foreign n)).waking .loop = s.waking .loop := by
  simp only [wakeup, update_foreign]

/-- A foreign thread's push, and the loop's own from a functor, go on to a write. -/
theorem queueInLoop_alarmed {s : State Task} (hs : Sound s) {t : Thread}
    (hfree : s.free t = true) (cb : Task) (hwatched : s.place.watched = true) :
    (queueInLoop s t cb).Alarmed := by
  refine Or.inr ⟨t, ?_⟩
  show Function.update s.waking t (t ≠ .loop || s.callingPendingFunctors) t = true
  rw [Function.update_self]
  cases t with
  | foreign n => rfl
  | loop =>
      obtain ⟨-, hplace⟩ := free_loop hfree
      rcases Place.of_inCallback hplace with ⟨active, hhandler⟩ | hfunctor
      · rw [hhandler] at hwatched
        exact absurd hwatched nofun
      · rw [hs.calling, hfunctor]
        rfl

theorem sound_queueInLoop {s : State Task} (hs : Sound s) {t : Thread} (hfree : s.free t = true)
    (cb : Task) : Sound (queueInLoop s t cb) where
  order := by
    show s.ran ++ s.functors ++ (s.pendingFunctors ++ [cb]) = s.enqueued ++ [cb]
    rw [← List.append_assoc, hs.order]
  swapped := hs.swapped
  calling := hs.calling
  waking := by
    intro hwaking
    cases t with
    | foreign n =>
        rw [queueInLoop_waking] at hwaking
        exact hs.waking hwaking
    | loop =>
        obtain ⟨-, hplace⟩ := free_loop hfree
        have hcalling : s.callingPendingFunctors = true := by
          simpa [queueInLoop] using hwaking
        rcases Place.of_inCallback hplace with ⟨active, hhandler⟩ | hfunctor
        · rw [hs.calling, hhandler] at hcalling
          exact absurd hcalling nofun
        · exact hfunctor
  awake := fun hwatched _ => queueInLoop_alarmed hs hfree cb hwatched
  leaving := fun hplace _ => queueInLoop_alarmed hs hfree cb (by
    show s.place.watched = true
    rw [show s.place = .poll from hplace]
    rfl)

theorem sound_quit {s : State Task} (hs : Sound s) {t : Thread} (hfree : s.free t = true) :
    Sound (quit s t) := by
  cases t with
  | foreign n =>
      have halarm : (quit s (.foreign n)).Alarmed := Or.inr ⟨.foreign n, Function.update_self _ _ _⟩
      refine ⟨hs.order, hs.swapped, hs.calling, ?_, fun _ _ => halarm, fun _ _ => halarm⟩
      intro hwaking
      rw [quit_waking] at hwaking
      exact hs.waking hwaking
  | loop =>
      obtain ⟨hwaking, hplace⟩ := free_loop hfree
      have hsame : Function.update s.waking .loop (Thread.loop ≠ .loop) = s.waking := by
        rw [Function.update_eq_self_iff, hwaking]
        rfl
      have hawake : s.Alarmed → (quit s .loop).Alarmed := by
        intro h
        rw [State.Alarmed, quit, hsame]
        exact h
      refine ⟨hs.order, hs.swapped, hs.calling, ?_, fun h h' => hawake (hs.awake h h'), ?_⟩
      · intro h
        rw [quit, hsame] at h
        exact hs.waking h
      · intro h
        rw [show s.place = .poll from h] at hplace
        exact absurd hplace nofun

theorem sound_wakeup {s : State Task} (hs : Sound s) {t : Thread} (h : s.waking t = true) :
    Sound (wakeup s t) := by
  have halarm : (wakeup s t).Alarmed := by
    refine Or.inl ?_
    show 0 < if s.eventfd < eventfdMax then s.eventfd + 1 else s.eventfd
    split
    · omega
    · rename_i hfull
      have hmax : 0 < eventfdMax := by decide
      omega
  refine ⟨hs.order, hs.swapped, hs.calling, ?_, fun _ _ => halarm, fun _ _ => halarm⟩
  intro hloop
  cases t with
  | foreign n =>
      rw [wakeup_waking] at hloop
      exact hs.waking hloop
  | loop => exact hs.waking h

theorem Sound.idle {s : State Task} (hs : Sound s) (h : s.place ≠ .functor) :
    s.waking .loop = false := by
  cases hw : s.waking .loop with
  | false => rfl
  | true => exact absurd (hs.waking hw) h

/-- The loop thread goes from one place to another and does nothing else. -/
theorem Sound.move {s : State Task} (hs : Sound s) {p : Place} (hidle : s.waking .loop = false)
    (hswapped : p ≠ .batch → p ≠ .functor → s.functors = [])
    (hcalling : s.place.inPending = p.inPending)
    (hawake : p.watched = true → s.pendingFunctors ≠ [] → s.Alarmed)
    (hleaving : p = .poll → s.quit = true → s.Alarmed) : Sound { s with place := p } where
  order := hs.order
  swapped := hswapped
  calling := hs.calling.trans hcalling
  waking := fun h => absurd (hidle.symm.trans h) nofun
  awake := hawake
  leaving := hleaving

theorem sound_handle {s s' : State Task} (hs : Sound s) (h : step s .handle = some s') :
    Sound s' := by
  rw [step] at h
  cases hplace : s.place with
  | dispatch active =>
      have hidle := hs.idle (by rw [hplace]; nofun)
      have hfunctors := hs.swapped (by rw [hplace]; nofun) (by rw [hplace]; nofun)
      have hcalling : s.callingPendingFunctors = false := by rw [hs.calling, hplace]; rfl
      rw [hplace] at h
      cases active with
      | nil =>
          cases h
          exact ⟨hs.order, fun _ _ => hfunctors, rfl, fun hw => absurd (hidle.symm.trans hw) nofun,
            nofun, nofun⟩
      | cons c active =>
          cases c with
          | wakeup =>
              cases h
              exact ⟨hs.order, fun _ _ => hfunctors, hcalling,
                fun hw => absurd (hidle.symm.trans hw) nofun, nofun, nofun⟩
          | other =>
              cases h
              exact hs.move hidle (fun _ _ => hfunctors) (by rw [hplace]; rfl) nofun nofun
  | _ => rw [hplace] at h; exact absurd h nofun

theorem sound_run {s s' : State Task} (hs : Sound s) (h : step s .run = some s') :
    Sound s' := by
  rw [step] at h
  cases hplace : s.place with
  | batch =>
      have hidle := hs.idle (by rw [hplace]; nofun)
      have hawake := hs.awake (by rw [hplace]; rfl)
      have hcalling : s.callingPendingFunctors = true := by rw [hs.calling, hplace]; rfl
      have horder := hs.order
      rw [hplace] at h
      cases hfunctors : s.functors with
      | nil =>
          rw [hfunctors] at h horder
          cases h
          exact ⟨horder, fun _ _ => rfl, rfl, fun hw => absurd (hidle.symm.trans hw) nofun,
            fun _ => hawake, nofun⟩
      | cons cb functors =>
          rw [hfunctors] at h horder
          cases h
          refine ⟨?_, fun _ h => absurd rfl h, hcalling, fun _ => rfl, fun _ => hawake, nofun⟩
          show s.ran ++ [cb] ++ functors ++ s.pendingFunctors = s.enqueued
          rw [← horder, List.append_assoc s.ran, List.singleton_append]
  | _ => rw [hplace] at h; exact absurd h nofun

/-- Every step keeps the invariant. -/
theorem step_sound {s s' : State Task} (hs : Sound s) {a : Action Task}
    (h : step s a = some s') : Sound s' := by
  cases a with
  | queueInLoop t cb =>
      obtain ⟨hfree, hs'⟩ := Option.ite_none_right_eq_some.mp h
      exact Option.some.inj hs' ▸ sound_queueInLoop hs hfree cb
  | quit t =>
      obtain ⟨hfree, hs'⟩ := Option.ite_none_right_eq_some.mp h
      exact Option.some.inj hs' ▸ sound_quit hs hfree
  | wakeup t =>
      obtain ⟨hwaking, hs'⟩ := Option.ite_none_right_eq_some.mp h
      exact Option.some.inj hs' ▸ sound_wakeup hs hwaking
  | test =>
      obtain ⟨hplace, hs'⟩ := Option.ite_none_right_eq_some.mp h
      have hidle := hs.idle (by rw [hplace]; nofun)
      have hfunctors := hs.swapped (by rw [hplace]; nofun) (by rw [hplace]; nofun)
      have hawake := hs.awake (by rw [hplace]; rfl)
      cases hs'
      by_cases hquit : s.quit = true
      · rw [if_pos hquit]
        exact hs.move hidle (fun _ _ => hfunctors) (by rw [hplace]; rfl) nofun nofun
      · rw [if_neg hquit]
        exact hs.move hidle (fun _ _ => hfunctors) (by rw [hplace]; rfl) (fun _ => hawake)
          fun _ hq => absurd hq hquit
  | poll active =>
      obtain ⟨hplace, hs'⟩ := Option.ite_none_right_eq_some.mp h
      cases hs'
      exact hs.move (hs.idle (by rw [hplace]; nofun))
        (fun _ _ => hs.swapped (by rw [hplace]; nofun) (by rw [hplace]; nofun))
        (by rw [hplace]; rfl) nofun nofun
  | handle => exact sound_handle hs h
  | handled =>
      rw [step] at h
      cases hplace : s.place with
      | handler active =>
          rw [hplace] at h
          cases h
          exact hs.move (hs.idle (by rw [hplace]; nofun))
            (fun _ _ => hs.swapped (by rw [hplace]; nofun) (by rw [hplace]; nofun))
            (by rw [hplace]; rfl) nofun nofun
      | _ => rw [hplace] at h; exact absurd h nofun
  | swap =>
      obtain ⟨hplace, hs'⟩ := Option.ite_none_right_eq_some.mp h
      have hfunctors := hs.swapped (by rw [hplace]; nofun) (by rw [hplace]; nofun)
      have hidle := hs.idle (by rw [hplace]; nofun)
      have horder := hs.order
      cases hs'
      refine ⟨?_, fun h => absurd rfl h, by rw [hs.calling, hplace]; rfl,
        fun hw => absurd (hidle.symm.trans hw) nofun, fun _ h => absurd rfl h, nofun⟩
      show s.ran ++ s.pendingFunctors ++ [] = s.enqueued
      rw [← horder, hfunctors, List.append_nil, List.append_nil]
  | run => exact sound_run hs h
  | finish =>
      obtain ⟨⟨hplace, hidle⟩, hs'⟩ := Option.ite_none_right_eq_some.mp h
      cases hs'
      exact hs.move hidle (fun h => absurd rfl h) (by rw [hplace]; rfl)
        (fun _ => hs.awake (by rw [hplace]; rfl)) nofun

/-! ## As one queue -/

/-- The functors that are still to be run, in order. -/
def State.queued (s : State Task) : List Task := s.functors ++ s.pendingFunctors

/-- Seen from outside, the batch and the pending functors are one queue: a push
puts a functor at its end, a start takes one from its front, and nothing else
changes it. -/
theorem step_queued {s s' : State Task} (hs : Sound s) {a : Action Task}
    (h : step s a = some s') :
    (∃ t cb, a = .queueInLoop t cb ∧ s'.queued = s.queued ++ [cb] ∧ s'.ran = s.ran) ∨
    (∃ cb, a = .run ∧ s.queued = cb :: s'.queued ∧ s'.ran = s.ran ++ [cb]) ∨
    (s'.queued = s.queued ∧ s'.ran = s.ran) := by
  cases a with
  | queueInLoop t cb =>
      obtain ⟨-, h⟩ := Option.ite_none_right_eq_some.mp h
      cases h
      exact Or.inl ⟨t, cb, rfl, (List.append_assoc _ _ _).symm, rfl⟩
  | run =>
      rw [step] at h
      cases hplace : s.place with
      | batch =>
          rw [hplace] at h
          cases hfunctors : s.functors with
          | nil =>
              rw [hfunctors] at h
              cases h
              exact Or.inr (Or.inr ⟨by rw [State.queued, State.queued, hfunctors], rfl⟩)
          | cons cb functors =>
              rw [hfunctors] at h
              cases h
              exact Or.inr (Or.inl ⟨cb, rfl, by rw [State.queued, hfunctors]; rfl, rfl⟩)
      | _ => rw [hplace] at h; exact absurd h nofun
  | swap =>
      obtain ⟨hplace, h⟩ := Option.ite_none_right_eq_some.mp h
      have hfunctors := hs.swapped (by rw [hplace]; nofun) (by rw [hplace]; nofun)
      cases h
      refine Or.inr (Or.inr ⟨?_, rfl⟩)
      rw [State.queued, State.queued, hfunctors, List.append_nil]
      rfl
  | handle =>
      rw [step] at h
      split at h
      · cases h; exact Or.inr (Or.inr ⟨rfl, rfl⟩)
      · cases h; exact Or.inr (Or.inr ⟨rfl, rfl⟩)
      · cases h; exact Or.inr (Or.inr ⟨rfl, rfl⟩)
      · exact absurd h nofun
  | handled =>
      rw [step] at h
      split at h
      · cases h; exact Or.inr (Or.inr ⟨rfl, rfl⟩)
      · exact absurd h nofun
  | _ =>
      obtain ⟨-, h⟩ := Option.ite_none_right_eq_some.mp h
      cases h
      exact Or.inr (Or.inr ⟨rfl, rfl⟩)

/-! ## Every run -/

theorem sound_reachable {s : State Task} (h : Reachable step start s) : Sound s :=
  h.invariant (fun _ _ _ hs hstep => step_sound hs hstep) sound_start

/-- After any steps of any threads: what has been run, what is left of the batch
and what is pending are the pushes in order; and a loop that is about to poll
with something pending, or with `quit_` set, will be woken. -/
theorem never_lost_nor_asleep {s : State Task} (h : Reachable step start s) :
    s.ran ++ s.functors ++ s.pendingFunctors = s.enqueued ∧
      (s.place = .poll → s.pendingFunctors ≠ [] ∨ s.quit = true →
        0 < s.eventfd ∨ ∃ n, s.waking (.foreign n) = true) := by
  have hs := sound_reachable h
  refine ⟨hs.order, ?_⟩
  intro hplace hwork
  have halarm : s.Alarmed := by
    rcases hwork with hpending | hquit
    · exact hs.awake (by rw [hplace]; rfl) hpending
    · exact hs.leaving hplace hquit
  rcases halarm with hpos | ⟨t, ht⟩
  · exact Or.inl hpos
  · cases t with
    | foreign n => exact Or.inr ⟨n, ht⟩
    | loop => exact absurd ((hs.waking ht).symm.trans hplace) nofun

/-- A push after the loop has run a batch, and before it polls again. -/
theorem never_lost_nor_asleep_push : ∃ s, exec step (start : State Nat)
    [.queueInLoop (.foreign 1) 5, .test, .wakeup (.foreign 1), .poll [.wakeup], .handle, .handle,
      .swap, .run, .queueInLoop .loop 6, .wakeup .loop, .finish, .run,
      .queueInLoop (.foreign 2) 7, .test] = some s ∧
    s.ran = [5] ∧ s.ran ++ s.functors ++ s.pendingFunctors = s.enqueued ∧
      (0 < s.eventfd ∨ ∃ n, s.waking (.foreign n) = true) :=
  have hrun := @never_lost_nor_asleep Nat _ ⟨
    [.queueInLoop (.foreign 1) 5, .test, .wakeup (.foreign 1), .poll [.wakeup], .handle, .handle,
      .swap, .run, .queueInLoop .loop 6, .wakeup .loop, .finish, .run,
      .queueInLoop (.foreign 2) 7, .test], rfl⟩
  ⟨_, rfl, rfl, hrun.1, hrun.2 rfl (Or.inl nofun)⟩

end TaskQueue

end WebServer

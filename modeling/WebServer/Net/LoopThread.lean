/-
# `Net.LoopThread` — a loop on the stack of its thread, and the object that starts it

`EventLoopThread::threadFunc` has its `EventLoop` on its stack and lends it out through
`loop_`: set under the mutex when the loop is constructed, and set back to null, without
the mutex, when `loop()` has returned.  `startLoop` waits for the pointer; the destructor
uses it to quit the loop (`Net.TaskQueue`), and joins the thread.  Or it does not, when it
finds null: because `startLoop` was never called, or because the loop is over already.

A step is a critical section, an assignment, or one use of the loop; `uses` notes for each
use that the owner makes of it, whether the pointer was set and the loop was there.  If
nobody but the destructor quits the loop, it is there for as long as the owner has not set
`quit_` (`Owner.sees`), and the only uses that can come too late are the rest of `quit`,
the test `isInLoopThread()` and the write of `wakeup`: from the assignment on the loop may
come to its end by itself.
-/
import WebServer.Lib.Progress
import WebServer.Net.Quit

namespace WebServer

namespace EventLoopThread

open Machine

/-- Where the owner of the object is. -/
inductive Owner where
  | outside
  /-- In `startLoop`, at the condition of its loop. -/
  | testing
  /-- In `cond_.wait()`. -/
  | waiting (notified : Bool)
  /-- Before `return loop_`, without the mutex. -/
  | returning
  /-- In the destructor, before `quit_ = true`. -/
  | quitting
  /-- In `quit`, before `isInLoopThread()`. -/
  | checking
  /-- In `wakeup`, before the write. -/
  | waking
  /-- In `thread_.join()`. -/
  | joining
  /-- The object is destroyed. -/
  | gone
  deriving DecidableEq

/-- Where the thread is in `threadFunc`. -/
inductive Child where
  | unborn
  /-- Before the constructor of the loop. -/
  | born
  /-- Before `loop_ = &loop`. -/
  | constructed
  /-- Before `initConnectionPool()`. -/
  | published
  /-- In `loop()`. -/
  | looping
  /-- Before `loop_ = NULL`. -/
  | returned
  /-- Before the destructor of the loop. -/
  | cleared
  | ended
  deriving DecidableEq

/-- `loop_ != NULL`. -/
def Child.lends : Child → Bool
  | .published | .looping | .returned => true
  | _ => false

/-- There is a loop, and others may have its address. -/
def Child.shared : Child → Bool
  | .published | .looping | .returned | .cleared => true
  | _ => false

/-- What the owner does with the loop. -/
inductive Use where
  /-- `return loop_`. -/
  | ret
  /-- `quit_ = true`. -/
  | quit
  /-- The read of `threadId_` in `isInLoopThread()`. -/
  | threadId
  /-- The write to `wakeupFd_`. -/
  | wakeup
  deriving DecidableEq

structure State (Task : Type) where
  loop_ : Bool
  owner : Owner
  child : Child
  queue : TaskQueue.State Task
  /-- The owner's uses of the loop, and whether it was there. -/
  uses : List (Use × Bool)
  /-- The thread used the object when it was destroyed. -/
  stray : Bool

variable {Task : Type}

def new : State Task := ⟨false, .outside, .unborn, TaskQueue.start, [], false⟩

/-- The thread of the owner. -/
def caller : TaskQueue.Thread := .foreign 0

inductive Action (Task : Type) where
  /-- `startLoop()`, in which `pthread_create` may fail. -/
  | startLoop (created : Bool)
  | test
  /-- Back from `cond_.wait()`, maybe without having been notified. -/
  | wake
  | ret
  | construct
  | publish
  | initConnectionPool
  /-- A step of the loop, or of a thread that has its address. -/
  | turn (a : TaskQueue.Action Task)
  /-- `loop()` returns. -/
  | leave
  | clear
  /-- `~EventLoop()`, and the thread ends. -/
  | destruct
  /-- `~EventLoopThread()`, up to its test of `loop_`; not from within another call. -/
  | destroy
  | quit
  /-- The test in `quit`; what it reads of a loop that is gone can be anything. -/
  | isInLoopThread (answer : Bool)
  | wakeup
  | joined

/-! ## The steps -/

/-- The thread uses the object. -/
def State.touch (s : State Task) : State Task := { s with stray := s.stray || s.owner = .gone }

/-- The thread that takes a step. -/
def performer : TaskQueue.Action Task → TaskQueue.Thread
  | .queueInLoop thread _ | .quit thread | .wakeup thread => thread
  | .test | .poll _ | .handle | .handled | .swap | .run | .finish => .loop

/-- The loop's thread is in `loop()`; the others use the loop while it is there, the owner
between its calls of the object. -/
def State.Allows (s : State Task) : TaskQueue.Thread → Prop
  | .loop => s.child = .looping
  | .foreign 0 => s.child.shared ∧ s.owner = .outside
  | .foreign (_ + 1) => s.child.shared

instance (s : State Task) (thread : TaskQueue.Thread) : Decidable (s.Allows thread) := by
  unfold State.Allows
  split <;> infer_instance

/-- `cond_.notify()`. -/
def Owner.notify : Owner → Owner
  | .waiting _ => .waiting true
  | o => o

def step (s : State Task) : Action Task → Option (State Task)
  | .startLoop created =>
      if s.owner = .outside ∧ s.child = .unborn then
        some { s with owner := .testing, child := if created then .born else .unborn }
      else none
  | .test =>
      if s.owner = .testing then
        some { s with owner := if s.loop_ then .returning else .waiting false }
      else none
  | .wake =>
      if s.owner = .waiting true ∨ s.owner = .waiting false then some { s with owner := .testing }
      else none
  | .ret =>
      if s.owner = .returning then
        some { s with owner := .outside, uses := s.uses ++ [(.ret, s.loop_)] }
      else none
  | .construct => if s.child = .born then some { s.touch with child := .constructed } else none
  | .publish =>
      if s.child = .constructed then
        some { s.touch with child := .published, loop_ := true, owner := s.owner.notify }
      else none
  | .initConnectionPool =>
      if s.child = .published then some { s with child := .looping } else none
  | .turn a =>
      if s.Allows (performer a) then
        (TaskQueue.step s.queue a).map fun queue => { s with queue }
      else none
  | .leave =>
      if s.child = .looping ∧ s.queue.place = .over then some { s with child := .returned }
      else none
  | .clear =>
      if s.child = .returned then some { s.touch with child := .cleared, loop_ := false } else none
  | .destruct => if s.child = .cleared then some { s with child := .ended } else none
  | .destroy =>
      if s.owner = .outside ∧ s.queue.waking caller = false then
        some { s with owner := if s.loop_ then .quitting else .gone }
      else none
  | .quit =>
      if s.owner = .quitting then
        (if s.loop_ then TaskQueue.step s.queue (.quit caller) else some s.queue).map fun queue =>
          { s with queue, owner := .checking, uses := s.uses ++ [(.quit, s.loop_)] }
      else none
  | .isInLoopThread answer =>
      if s.owner = .checking ∧ (s.child.shared → answer = false) then
        some { s with
          owner := if answer then .joining else .waking
          uses := s.uses ++ [(.threadId, s.child.shared)] }
      else none
  | .wakeup =>
      if s.owner = .waking then
        (if s.child.shared then TaskQueue.step s.queue (.wakeup caller) else some s.queue).map
          fun queue =>
            { s with queue, owner := .joining, uses := s.uses ++ [(.wakeup, s.child.shared)] }
      else none
  | .joined =>
      if s.owner = .joining ∧ s.child = .ended then some { s with owner := .gone } else none

/-! ## What the thread can rely on -/

/-- The thread will use the object. -/
def Child.needs : Child → Bool
  | .born | .constructed | .published | .looping | .returned => true
  | .unborn | .cleared | .ended => false

/-- In `startLoop`, before the pointer has been seen. -/
def Owner.awaits : Owner → Bool
  | .testing | .waiting _ => true
  | _ => false

theorem notify_eq {o : Owner} (p : Owner) (hp : ∀ b, p ≠ .waiting b) : o.notify = p ↔ o = p := by
  cases o with
  | waiting b => exact ⟨fun h => absurd h.symm (hp true), fun h => absurd h.symm (hp b)⟩
  | _ => exact Iff.rfl

structure Kept (s : State Task) : Prop where
  loop_ : s.loop_ = s.child.lends
  /-- A thread that has not lent its loop has an owner that waits for it. -/
  awaits : s.child.needs → s.child.lends = false → s.owner.awaits
  needs : s.owner = .gone → s.child.needs = false
  stray : s.stray = false

theorem kept_new : Kept (new : State Task) := ⟨rfl, nofun, nofun, rfl⟩

section

variable {s t : State Task} {a : Action Task}

/-- As long as the thread needs the object, it is there. -/
theorem Kept.touch (hs : Kept s) (hneeds : s.child.needs) : s.touch = s := by
  have hgone : s.owner ≠ .gone := fun hgone => by
    rw [hs.needs hgone] at hneeds
    cases hneeds
  rw [State.touch, decide_eq_false hgone, Bool.or_false]

/-- The owner goes on: in `startLoop`, from outside of it, or when the loop is lent. -/
theorem Kept.move (hs : Kept s) (o : Owner)
    (hawaits : o.awaits ∨ s.owner.awaits = false ∨ s.child.lends)
    (hgone : o = .gone → s.child.needs = false) (uses : List (Use × Bool))
    (queue : TaskQueue.State Task) : Kept { s with owner := o, uses, queue } where
  loop_ := hs.loop_
  awaits := fun hneeds hlends => by
    rcases hawaits with h | h | h
    · exact h
    · exact Bool.noConfusion ((hs.awaits hneeds hlends).symm.trans h)
    · exact Bool.noConfusion (hlends.symm.trans h)
  needs := hgone
  stray := hs.stray

/-- The thread goes on. -/
theorem Kept.proceed {c d : Child} {b : Bool} (hs : Kept s) (hchild : s.child = c)
    (hloop : b = d.lends) (hneeds : d.needs → c.needs) (hlends : d.needs → d.lends = c.lends) :
    Kept { s with child := d, loop_ := b } := by
  subst hchild
  exact
    { loop_ := hloop
      awaits := fun h hnot => hs.awaits (hneeds h) ((hlends h).symm.trans hnot)
      needs := fun h => Bool.eq_false_iff.mpr fun hd =>
        Bool.noConfusion ((hs.needs h).symm.trans (hneeds hd))
      stray := hs.stray }

end

/-! ## What the owner can rely on -/

/-- Someone else quits the loop, or the loop itself does. -/
def Action.quits : Action Task → Bool
  | .turn (.quit _) => true
  | _ => false

/-- Where the thread can be for an owner at this point, if only the destructor quits. -/
def Owner.sees : Owner → List Child
  | .outside => [.unborn, .published, .looping]
  | .testing | .waiting _ => [.unborn, .born, .constructed, .published, .looping]
  | .returning | .quitting => [.published, .looping]
  | .checking | .waking | .joining => [.published, .looping, .returned, .cleared, .ended]
  | .gone => [.unborn, .ended]

/-- The destructor has set `quit_`. -/
def Owner.told : Owner → Bool
  | .checking | .waking | .joining => true
  | _ => false

/-- It has the write of `wakeup` ahead of it. -/
def Owner.wakes : Owner → Bool
  | .checking | .waking => true
  | _ => false

structure Sound (s : State Task) : Prop where
  queue : TaskQueue.Sound s.queue
  loop_ : s.loop_ = s.child.lends
  sees : s.child ∈ s.owner.sees
  notified : ∀ b, s.owner = .waiting b → b = s.loop_
  told : s.owner.told → s.queue.quit
  quit : s.queue.quit → s.owner.told ∨ s.owner = .gone
  ends : s.queue.place = .over → s.queue.quit
  unborn : s.child = .unborn → s.queue.waking caller = false
  waking : s.owner ≠ .outside → s.child ≠ .ended →
    s.queue.waking caller = s.owner.wakes
  uses : ∀ u ∈ s.uses, u.1 = .ret ∨ u.1 = .quit → u.2

theorem sound_new : Sound (new : State Task) where
  queue := TaskQueue.sound_start
  loop_ := rfl
  sees := List.mem_cons_self
  notified := nofun
  told := nofun
  quit := nofun
  ends := nofun
  unborn := fun _ => rfl
  waking := fun h => absurd rfl h
  uses := nofun

/-! ## One step -/

/-- Where the thread comes to by itself. -/
def Child.next : Child → Child
  | .born => .constructed
  | .constructed => .published
  | .published => .looping
  | .returned => .cleared
  | .cleared => .ended
  | c => c

theorem sees_next {o : Owner} {c : Child} (h : c ∈ o.sees) : c.next ∈ o.sees := by
  cases o <;> cases c <;> simp_all [Owner.sees, Child.next]

theorem sees_notify (o : Owner) : o.notify.sees = o.sees := by cases o <;> rfl

theorem told_notify (o : Owner) : o.notify.told = o.told := by cases o <;> rfl

theorem wakes_notify (o : Owner) : o.notify.wakes = o.wakes := by cases o <;> rfl

theorem notify_waiting {o : Owner} {b : Bool} (h : o.notify = .waiting b) : b = true := by
  cases o with
  | waiting b' => cases h; rfl
  | _ => cases h

section

variable {s t : State Task}

/-- Before the destructor has set `quit_`, nobody has. -/
theorem Sound.running (hs : Sound s) (htold : s.owner.told = false) (hgone : s.owner ≠ .gone) :
    s.queue.quit = false := by
  cases hquit : s.queue.quit with
  | false => rfl
  | true =>
      rcases hs.quit hquit with h | h
      · rw [htold] at h
        cases h
      · exact absurd h hgone

/-- The owner goes on, and the loop does not notice. -/
theorem Sound.move (hs : Sound s) (o : Owner) (hsees : s.child ∈ o.sees)
    (hnotified : ∀ b, o = .waiting b → b = s.loop_) (htold : o.told = s.owner.told)
    (hgone : s.owner ≠ .gone) (hwaking : o ≠ .outside → s.queue.waking caller = false)
    (howner : o.wakes = false) (uses : List (Use × Bool))
    (huses : ∀ u ∈ uses, u.1 = .ret ∨ u.1 = .quit → u.2) : Sound { s with owner := o, uses } :=
  { hs with
    sees := hsees
    notified := hnotified
    told := fun h => hs.told (htold ▸ h)
    quit := fun h => Or.inl (htold ▸ (hs.quit h).resolve_right hgone)
    waking := fun h _ => (hwaking h).trans howner.symm
    uses := huses }

theorem sound_startLoop {created : Bool} (hs : Sound s)
    (h : step s (.startLoop created) = some t) : Sound t := by
  obtain ⟨⟨howner, hchild⟩, h⟩ := Option.ite_none_right_eq_some.mp h
  have hquit := hs.running (by rw [howner]; rfl) (by rw [howner]; nofun)
  have hwaking := hs.unborn hchild
  have hloop : s.loop_ = false := by rw [hs.loop_, hchild]; rfl
  cases h
  exact
    { hs with
      loop_ := by cases created <;> exact hloop
      sees := by cases created <;> simp [Owner.sees]
      notified := nofun
      told := nofun
      quit := fun h => absurd (hquit.symm.trans h) nofun
      unborn := fun _ => hwaking
      waking := fun _ _ => hwaking }

/-- In a call, the owner has no write ahead of it but that of the destructor. -/
theorem Sound.idle (hs : Sound s) {o : Owner} (howner : s.owner = o) (hsees : .ended ∉ o.sees)
    (hwaking : o.wakes = false) (ho : o ≠ .outside) :
    s.queue.waking caller = false := by
  subst howner
  exact (hs.waking ho fun h => hsees (h ▸ hs.sees)).trans hwaking

theorem sound_test (hs : Sound s) (h : step s .test = some t) : Sound t := by
  obtain ⟨howner, h⟩ := Option.ite_none_right_eq_some.mp h
  have hsees := hs.sees
  have hwaking := hs.idle howner (by decide) rfl nofun
  rw [howner] at hsees
  cases hloop : s.loop_ with
  | false =>
      rw [if_neg (by rw [hloop]; nofun)] at h
      cases h
      exact hs.move (.waiting false) hsees (fun b hb => by cases hb; exact hloop.symm)
        (by rw [howner]; rfl) (by rw [howner]; nofun) (fun _ => hwaking) rfl s.uses hs.uses
  | true =>
      rw [if_pos hloop] at h
      cases h
      have hlends : s.child.lends := hs.loop_ ▸ hloop
      refine hs.move .returning ?_ nofun (by rw [howner]; rfl) (by rw [howner]; nofun)
        (fun _ => hwaking) rfl s.uses hs.uses
      cases hchild : s.child <;> rw [hchild] at hsees hlends <;>
        simp_all [Owner.sees, Child.lends]

theorem sound_wake (hs : Sound s) (h : step s .wake = some t) : Sound t := by
  obtain ⟨howner, h⟩ := Option.ite_none_right_eq_some.mp h
  have hwaits : ∃ b, s.owner = .waiting b := howner.elim (fun h => ⟨_, h⟩) fun h => ⟨_, h⟩
  obtain ⟨b, howner⟩ := hwaits
  have hsees := hs.sees
  have hwaking := hs.idle howner (by cases b <;> decide) rfl nofun
  rw [howner] at hsees
  cases h
  exact hs.move .testing hsees nofun (by rw [howner]; rfl) (by rw [howner]; nofun)
    (fun _ => hwaking) rfl s.uses hs.uses

/-- What the thread lends is there. -/
theorem Sound.lent (hs : Sound s) {o : Owner} (howner : s.owner = o)
    (ho : o.sees = [.published, .looping]) : s.loop_ = true := by
  have hsees := hs.sees
  rw [howner, ho] at hsees
  rw [hs.loop_]
  rcases List.mem_pair.mp hsees with h | h <;> rw [h] <;> rfl

theorem uses_concat {uses : List (Use × Bool)} (huses : ∀ u ∈ uses, u.1 = .ret ∨ u.1 = .quit → u.2)
    {k : Use} {b : Bool} (h : k = .ret ∨ k = .quit → b) :
    ∀ u ∈ uses ++ [(k, b)], u.1 = .ret ∨ u.1 = .quit → u.2 := by
  intro u hu
  rcases List.mem_append.mp hu with hu | hu
  · exact huses u hu
  · cases List.mem_singleton.mp hu
    exact h

theorem sound_ret (hs : Sound s) (h : step s .ret = some t) : Sound t := by
  obtain ⟨howner, h⟩ := Option.ite_none_right_eq_some.mp h
  have hloop := hs.lent howner rfl
  have hsees := hs.sees
  rw [howner] at hsees
  cases h
  refine hs.move .outside ?_ nofun (by rw [howner]; rfl) (by rw [howner]; nofun)
    (fun h => absurd rfl h) rfl _ (uses_concat hs.uses fun _ => hloop)
  exact List.mem_cons_of_mem _ hsees

/-! ### The thread -/

/-- The thread goes on, and `loop_` is as before. -/
theorem Sound.proceed {c : Child} (hs : Sound s) (hchild : s.child = c)
    (hnext : c.next ≠ .unborn) (hloop : c.next.lends = c.lends) (stray : Bool) :
    Sound { s with child := c.next, stray } := by
  subst hchild
  exact
    { hs with
      loop_ := hs.loop_.trans hloop.symm
      sees := sees_next hs.sees
      unborn := fun h => absurd h hnext
      waking := fun h hended => hs.waking h fun h => hended (by rw [h]; rfl) }

theorem sound_construct (hs : Sound s) (h : step s .construct = some t) : Sound t := by
  obtain ⟨hchild, h⟩ := Option.ite_none_right_eq_some.mp h
  cases h
  exact hs.proceed hchild nofun rfl _

theorem sound_initConnectionPool (hs : Sound s) (h : step s .initConnectionPool = some t) :
    Sound t := by
  obtain ⟨hchild, h⟩ := Option.ite_none_right_eq_some.mp h
  cases h
  exact hs.proceed hchild nofun rfl _

theorem sound_destruct (hs : Sound s) (h : step s .destruct = some t) : Sound t := by
  obtain ⟨hchild, h⟩ := Option.ite_none_right_eq_some.mp h
  cases h
  exact hs.proceed hchild nofun rfl _

theorem sound_publish (hs : Sound s) (h : step s .publish = some t) : Sound t := by
  obtain ⟨hchild, h⟩ := Option.ite_none_right_eq_some.mp h
  have hsees := sees_next hs.sees
  rw [hchild] at hsees
  cases h
  exact
    { hs with
      loop_ := rfl
      sees := by rw [sees_notify]; exact hsees
      notified := fun b hb => by
        show b = true
        exact notify_waiting hb
      told := fun h => hs.told (told_notify s.owner ▸ h)
      quit := fun h => by
        show s.owner.notify.told = true ∨ s.owner.notify = .gone
        rw [told_notify, notify_eq .gone nofun]
        exact hs.quit h
      unborn := nofun
      waking := fun h _ => by
        have hne : s.owner ≠ .outside := fun ho => h ((notify_eq .outside nofun).mpr ho)
        refine (hs.waking hne (by rw [hchild]; nofun)).trans ?_
        exact (wakes_notify s.owner).symm }

theorem sound_leave (hs : Sound s) (h : step s .leave = some t) : Sound t := by
  obtain ⟨⟨hchild, hplace⟩, h⟩ := Option.ite_none_right_eq_some.mp h
  have hsees := hs.sees
  have hloop := hs.loop_
  rw [hchild] at hsees hloop
  cases h
  refine
    { hs with
      loop_ := hloop
      sees := ?_
      unborn := nofun
      waking := fun h _ => hs.waking h (by rw [hchild]; nofun) }
  rcases hs.quit (hs.ends hplace) with htold | hgone
  · cases howner : s.owner <;> rw [howner] at htold <;> simp_all [Owner.sees, Owner.told]
  · rw [hgone] at hsees
    simp [Owner.sees] at hsees

theorem sound_clear (hs : Sound s) (h : step s .clear = some t) : Sound t := by
  obtain ⟨hchild, h⟩ := Option.ite_none_right_eq_some.mp h
  have hsees := hs.sees
  have hnext := sees_next hs.sees
  rw [hchild] at hsees hnext
  cases h
  exact
    { hs with
      loop_ := rfl
      sees := hnext
      notified := fun b hb => by
        rw [show s.owner = .waiting b from hb] at hsees
        simp [Owner.sees] at hsees
      unborn := nofun
      waking := fun h _ => hs.waking h (by rw [hchild]; nofun) }

/-! ### The loop, and the destructor -/

variable {q r : TaskQueue.State Task} {a : TaskQueue.Action Task}

/-- What a step leaves alone: the writes of the other threads, and `quit_`, without which the
loop does not come to its end. -/
theorem frame_turn (h : TaskQueue.step q a = some r) :
    (∀ thread, thread ≠ performer a → r.waking thread = q.waking thread) ∧
      (r.quit = q.quit ∨ ∃ thread, a = .quit thread) ∧
      (r.place = .over → q.quit = true ∨ q.place = .over) := by
  cases a with
  | test =>
      obtain ⟨-, h⟩ := Option.ite_none_right_eq_some.mp h
      cases h
      refine ⟨fun _ _ => rfl, Or.inl rfl, fun hplace => Or.inl ?_⟩
      by_contra hquit
      simp [hquit] at hplace
  | queueInLoop thread cb =>
      obtain ⟨-, h⟩ := Option.ite_none_right_eq_some.mp h
      cases h
      exact ⟨fun _ hne => Function.update_of_ne hne _ _, Or.inl rfl, Or.inr⟩
  | quit thread =>
      obtain ⟨-, h⟩ := Option.ite_none_right_eq_some.mp h
      cases h
      exact ⟨fun _ hne => Function.update_of_ne hne _ _, Or.inr ⟨thread, rfl⟩, Or.inr⟩
  | wakeup thread =>
      obtain ⟨-, h⟩ := Option.ite_none_right_eq_some.mp h
      cases h
      exact ⟨fun _ hne => Function.update_of_ne hne _ _, Or.inl rfl, Or.inr⟩
  | handle | handled | run =>
      rw [TaskQueue.step] at h
      split at h <;> cases h <;> exact ⟨fun _ _ => rfl, Or.inl rfl, TaskQueue.Place.noConfusion⟩
  | poll _ | swap | finish =>
      obtain ⟨-, h⟩ := Option.ite_none_right_eq_some.mp h
      cases h
      exact ⟨fun _ _ => rfl, Or.inl rfl, TaskQueue.Place.noConfusion⟩

/-- A loop that is over has been told to quit, and stays so. -/
theorem over_turn (hover : q.place = .over → q.quit = true) (h : TaskQueue.step q a = some r)
    (hplace : r.place = .over) : r.quit = true := by
  obtain ⟨-, hquit, hend⟩ := frame_turn h
  rcases hquit with hquit | ⟨thread, rfl⟩
  · exact hquit.trans ((hend hplace).elim id hover)
  · obtain ⟨-, h⟩ := Option.ite_none_right_eq_some.mp h
    cases h
    rfl

/-- The loop, and those that use it, do not come into the owner's way. -/
theorem sound_turn (hs : Sound s) (ha : (Action.turn a).quits = false)
    (h : step s (.turn a) = some t) : Sound t := by
  obtain ⟨hallows, h⟩ := Option.ite_none_right_eq_some.mp h
  obtain ⟨r, hr, rfl⟩ := Option.map_eq_some_iff.mp h
  obtain ⟨hwaking, hquit, -⟩ := frame_turn hr
  have hsame : r.quit = s.queue.quit := by
    rcases hquit with hquit | ⟨thread, rfl⟩
    · exact hquit
    · cases ha
  have hother : s.owner ≠ .outside ∨ s.child = .unborn → caller ≠ performer a := by
    intro hbusy hme
    rw [← hme] at hallows
    obtain ⟨hshared, houtside⟩ := hallows
    rcases hbusy with hbusy | hunborn
    · exact hbusy houtside
    · rw [hunborn] at hshared
      cases hshared
  exact
    { hs with
      queue := TaskQueue.step_sound hs.queue hr
      told := fun h => hsame.trans (hs.told h)
      quit := fun h => hs.quit (hsame.symm.trans h)
      ends := over_turn hs.ends hr
      unborn := fun h => (hwaking _ (hother (Or.inr h))).trans (hs.unborn h)
      waking := fun h hended => (hwaking _ (hother (Or.inl h))).trans (hs.waking h hended) }

theorem sound_destroy (hs : Sound s) (h : step s .destroy = some t) : Sound t := by
  obtain ⟨⟨howner, hwaking⟩, h⟩ := Option.ite_none_right_eq_some.mp h
  have hsees := hs.sees
  rw [howner] at hsees
  cases hloop : s.loop_ with
  | true =>
      rw [if_pos hloop] at h
      cases h
      have hlends : s.child.lends := hs.loop_ ▸ hloop
      refine hs.move .quitting ?_ nofun (by rw [howner]; rfl) (by rw [howner]; nofun)
        (fun _ => hwaking) rfl s.uses hs.uses
      cases hchild : s.child <;> rw [hchild] at hsees hlends <;>
        simp_all [Owner.sees, Child.lends]
  | false =>
      rw [if_neg (by rw [hloop]; nofun)] at h
      cases h
      have hlends : s.child.lends = false := hs.loop_ ▸ hloop
      refine hs.move .gone ?_ nofun (by rw [howner]; rfl) (by rw [howner]; nofun)
        (fun _ => hwaking) rfl s.uses hs.uses
      cases hchild : s.child <;> rw [hchild] at hsees hlends <;>
        simp_all [Owner.sees, Child.lends]

theorem waking_quit : (TaskQueue.quit q caller).waking caller = true := by
  show Function.update q.waking caller (caller ≠ .loop) caller = true
  rw [Function.update_self]
  rfl

theorem waking_wakeup : (TaskQueue.wakeup q caller).waking caller = false := by
  show Function.update q.waking caller false caller = false
  rw [Function.update_self]

/-- The destructor finds the loop there, to set `quit_`. -/
theorem sound_quit (hs : Sound s) (h : step s .quit = some t) : Sound t := by
  obtain ⟨howner, h⟩ := Option.ite_none_right_eq_some.mp h
  have hloop := hs.lent howner rfl
  have hsees := hs.sees
  rw [howner] at hsees
  rw [if_pos hloop] at h
  obtain ⟨r, hr, rfl⟩ := Option.map_eq_some_iff.mp h
  have hsound := TaskQueue.step_sound hs.queue hr
  obtain ⟨-, hr⟩ := Option.ite_none_right_eq_some.mp hr
  cases hr
  exact
    { hs with
      queue := hsound
      sees := by
        have hmore : ∀ c ∈ Owner.quitting.sees, c ∈ Owner.checking.sees := by decide
        exact hmore _ hsees
      notified := nofun
      told := fun _ => rfl
      quit := fun _ => Or.inl rfl
      ends := fun _ => rfl
      unborn := fun h => by
        rw [h] at hsees
        simp [Owner.sees] at hsees
      waking := fun _ _ => waking_quit
      uses := uses_concat hs.uses fun _ => hloop }

/-- Once `quit_` is set, a loop that the owner does not find any more has come to its end. -/
theorem ended_of_sees {o : Owner} {c : Child} (hsees : c ∈ o.sees) (htold : o.told)
    (hshared : c.shared = false) : c = .ended := by
  cases o <;> cases c <;> simp_all [Owner.sees, Owner.told, Child.shared]

/-- The test in `quit`. -/
theorem sound_isInLoopThread {answer : Bool} (hs : Sound s)
    (h : step s (.isInLoopThread answer) = some t) : Sound t := by
  obtain ⟨⟨howner, hanswer⟩, h⟩ := Option.ite_none_right_eq_some.mp h
  have hsees := hs.sees
  have htold := hs.told (by rw [howner]; rfl)
  have hwaking := hs.waking (by rw [howner]; exact Owner.noConfusion)
  have huses : ∀ u ∈ s.uses ++ [(Use.threadId, s.child.shared)], u.1 = .ret ∨ u.1 = .quit → u.2 :=
    uses_concat hs.uses fun h => absurd h (by decide)
  rw [howner] at hsees hwaking
  cases h
  cases answer with
  | false =>
      exact
        { hs with
          sees := hsees
          notified := fun b hb => Owner.noConfusion hb
          told := fun _ => htold
          quit := fun _ => Or.inl rfl
          waking := fun _ => hwaking
          uses := huses }
  | true =>
      have hshared : s.child.shared = false := Bool.eq_false_iff.mpr fun h =>
        Bool.noConfusion (hanswer h)
      have hended := ended_of_sees hsees rfl hshared
      exact
        { hs with
          sees := hsees
          notified := fun b hb => Owner.noConfusion hb
          told := fun _ => htold
          quit := fun _ => Or.inl rfl
          waking := fun _ hne => absurd hended hne
          uses := huses }

/-- The write of `wakeup`; if the loop is not there any more, nothing else is wrong. -/
theorem sound_wakeup (hs : Sound s) (h : step s .wakeup = some t) : Sound t := by
  obtain ⟨howner, h⟩ := Option.ite_none_right_eq_some.mp h
  have hsees := hs.sees
  have htold := hs.told (by rw [howner]; rfl)
  rw [howner] at hsees
  obtain ⟨r, hr, rfl⟩ := Option.map_eq_some_iff.mp h
  have huses : ∀ u ∈ s.uses ++ [(Use.wakeup, s.child.shared)], u.1 = .ret ∨ u.1 = .quit → u.2 :=
    uses_concat hs.uses fun h => absurd h (by decide)
  have hunborn : s.child ≠ .unborn := fun h => by
    rw [h] at hsees
    simp [Owner.sees] at hsees
  cases hshared : s.child.shared with
  | true =>
      rw [if_pos hshared] at hr
      have hsound := TaskQueue.step_sound hs.queue hr
      obtain ⟨-, hr⟩ := Option.ite_none_right_eq_some.mp hr
      cases hr
      exact
        { hs with
          queue := hsound
          sees := hsees
          notified := nofun
          told := fun _ => htold
          quit := fun _ => Or.inl rfl
          ends := fun _ => htold
          unborn := fun h => absurd h hunborn
          waking := fun _ _ => waking_wakeup
          uses := hshared ▸ huses }
  | false =>
      rw [if_neg (by rw [hshared]; nofun)] at hr
      cases hr
      have hended := ended_of_sees hsees rfl hshared
      exact
        { hs with
          sees := hsees
          notified := nofun
          told := fun _ => htold
          quit := fun _ => Or.inl rfl
          waking := fun _ hne => absurd hended hne
          uses := hshared ▸ huses }

theorem sound_joined (hs : Sound s) (h : step s .joined = some t) : Sound t := by
  obtain ⟨⟨-, hchild⟩, h⟩ := Option.ite_none_right_eq_some.mp h
  cases h
  exact
    { hs with
      sees := by
        rw [hchild]
        exact List.mem_of_getLast? rfl
      notified := nofun
      told := nofun
      quit := fun _ => Or.inr rfl
      waking := fun _ hne => absurd hchild hne }

theorem sound_step {a : Action Task} (hs : Sound s) (ha : a.quits = false)
    (h : step s a = some t) : Sound t := by
  cases a with
  | startLoop created => exact sound_startLoop hs h
  | test => exact sound_test hs h
  | wake => exact sound_wake hs h
  | ret => exact sound_ret hs h
  | construct => exact sound_construct hs h
  | publish => exact sound_publish hs h
  | initConnectionPool => exact sound_initConnectionPool hs h
  | turn a => exact sound_turn hs ha h
  | leave => exact sound_leave hs h
  | clear => exact sound_clear hs h
  | destruct => exact sound_destruct hs h
  | destroy => exact sound_destroy hs h
  | quit => exact sound_quit hs h
  | isInLoopThread answer => exact sound_isInLoopThread hs h
  | wakeup => exact sound_wakeup hs h
  | joined => exact sound_joined hs h

end

/-! ## Getting to the end of a call -/

/-- The steps that the owner has left in its call. -/
def Owner.left (loop_ : Bool) : Owner → Nat
  | .outside | .gone => 0
  | .returning | .joining => 1
  | .testing => if loop_ then 2 else 4
  | .waking => 2
  | .waiting _ | .checking => 3
  | .quitting => 4

/-- The steps that the thread has left, without those in `loop()`. -/
def Child.left : Child → Nat
  | .unborn | .ended => 0
  | .cleared => 1
  | .returned => 2
  | .looping => 3
  | .published => 4
  | .constructed => 5
  | .born => 6

/-- What there is to do until the owner is out of its call. -/
def State.left (s : State Task) : Nat := s.owner.left s.loop_ + s.child.left + s.queue.left

/-- The steps that get it there: those of the owner and of the thread, if a wait wakes up only
when it is notified, and those by which a loop that has been told to quit comes to its end. -/
def Prompt (s : State Task) : Action Task → Prop
  | .startLoop _ | .destroy => False
  | .wake => s.owner = .waiting true
  | .turn a => s.queue.quit = true ∧ TaskQueue.Prompt s.queue a
  | _ => True

section

variable {s t : State Task} {a : Action Task}

theorem prompt_quits (h : Prompt s a) : a.quits = false := by
  cases a with
  | turn a =>
      cases a with
      | quit thread => exact h.2.elim
      | _ => rfl
  | _ => rfl

theorem left_notify (o : Owner) : o.notify.left true ≤ o.left false := by
  cases o <;> decide +revert

theorem left_quit (q : TaskQueue.State Task) : (TaskQueue.quit q caller).left = q.left := by
  have hloop : (TaskQueue.quit q caller).waking .loop = q.waking .loop :=
    TaskQueue.quit_waking q 0
  rw [TaskQueue.State.left, hloop]
  rfl

theorem left_wakeup (q : TaskQueue.State Task) : (TaskQueue.wakeup q caller).left ≤ q.left := by
  have hloop : (TaskQueue.wakeup q caller).waking .loop = q.waking .loop :=
    TaskQueue.wakeup_waking q 0
  have hround : (TaskQueue.wakeup q caller).round = q.round := rfl
  have hplace : (TaskQueue.wakeup q caller).place = q.place := rfl
  have hcount : q.eventfd ≤ (TaskQueue.wakeup q caller).eventfd := by
    show q.eventfd ≤ if q.eventfd < TaskQueue.eventfdMax then q.eventfd + 1 else q.eventfd
    split <;> omega
  rw [TaskQueue.State.left, TaskQueue.State.left, hloop, hround, hplace]
  refine Nat.add_le_add_left ?_ _
  by_cases hasleep : q.place = .poll ∧ (TaskQueue.wakeup q caller).eventfd = 0
  · rw [if_pos hasleep, if_pos ⟨hasleep.1, by omega⟩]
  · rw [if_neg hasleep]
    exact Nat.zero_le _

/-- Each prompt step brings the owner nearer to the end of its call. -/
theorem left_step (hs : Sound s) (hprompt : Prompt s a) (h : step s a = some t) :
    t.left < s.left := by
  have hloop := hs.loop_
  cases a with
  | startLoop _ | destroy => exact hprompt.elim
  | test =>
      obtain ⟨howner, h⟩ := Option.ite_none_right_eq_some.mp h
      cases h
      rw [State.left, State.left, howner]
      cases s.loop_ <;> simp [Owner.left]
  | wake =>
      have howner : s.owner = .waiting true := hprompt
      have hset := hs.notified true howner
      obtain ⟨-, h⟩ := Option.ite_none_right_eq_some.mp h
      cases h
      simp [State.left, howner, ← hset, Owner.left]
  | ret =>
      obtain ⟨howner, h⟩ := Option.ite_none_right_eq_some.mp h
      cases h
      simp [State.left, howner, Owner.left]
  | construct | initConnectionPool | destruct =>
      obtain ⟨hchild, h⟩ := Option.ite_none_right_eq_some.mp h
      cases h
      simp [State.left, State.touch, hchild, Child.left]
  | publish =>
      obtain ⟨hchild, h⟩ := Option.ite_none_right_eq_some.mp h
      rw [hchild] at hloop
      have hnotify := left_notify s.owner
      cases h
      rw [State.left, State.left, hchild, hloop]
      simp only [State.touch, Child.left, Child.lends]
      omega
  | turn a =>
      obtain ⟨-, h⟩ := Option.ite_none_right_eq_some.mp h
      obtain ⟨r, hr, rfl⟩ := Option.map_eq_some_iff.mp h
      have hless := TaskQueue.left_step hs.queue hprompt.1 hprompt.2 hr
      exact Nat.add_lt_add_left hless _
  | leave =>
      obtain ⟨⟨hchild, -⟩, h⟩ := Option.ite_none_right_eq_some.mp h
      cases h
      simp [State.left, hchild, Child.left]
  | clear =>
      obtain ⟨hchild, h⟩ := Option.ite_none_right_eq_some.mp h
      have hsees := hs.sees
      rw [hchild] at hsees
      cases h
      rw [State.left, State.left, hchild]
      cases howner : s.owner <;> rw [howner] at hsees <;>
        simp_all [State.touch, Owner.left, Owner.sees, Child.left]
  | quit =>
      obtain ⟨howner, h⟩ := Option.ite_none_right_eq_some.mp h
      rw [if_pos (hs.lent howner rfl)] at h
      obtain ⟨r, hr, rfl⟩ := Option.map_eq_some_iff.mp h
      obtain ⟨-, hr⟩ := Option.ite_none_right_eq_some.mp hr
      cases hr
      simp [State.left, howner, Owner.left, left_quit]
  | isInLoopThread answer =>
      obtain ⟨⟨howner, -⟩, h⟩ := Option.ite_none_right_eq_some.mp h
      cases h
      cases answer <;> simp [State.left, howner, Owner.left]
  | wakeup =>
      obtain ⟨howner, h⟩ := Option.ite_none_right_eq_some.mp h
      obtain ⟨r, hr, rfl⟩ := Option.map_eq_some_iff.mp h
      have hle : r.left ≤ s.queue.left := by
        split at hr
        · obtain ⟨-, hr⟩ := Option.ite_none_right_eq_some.mp hr
          cases hr
          exact left_wakeup s.queue
        · cases hr
          exact Nat.le_refl _
      simp only [State.left, howner, Owner.left]
      omega
  | joined =>
      obtain ⟨⟨howner, -⟩, h⟩ := Option.ite_none_right_eq_some.mp h
      cases h
      simp [State.left, howner, Owner.left]

/-- Where the thread is for an owner that waits for its end. -/
theorem exists_prompt_joining (hs : Sound s) (howner : s.owner = .joining) :
    ∃ a t, Prompt s a ∧ step s a = some t := by
  have hsees := hs.sees
  have hquit := hs.told (by rw [howner]; rfl)
  rw [howner] at hsees
  cases hchild : s.child with
  | unborn | born | constructed =>
      rw [hchild] at hsees
      simp [Owner.sees] at hsees
  | published => exact ⟨.initConnectionPool, _, trivial, if_pos hchild⟩
  | returned => exact ⟨.clear, _, trivial, if_pos hchild⟩
  | cleared => exact ⟨.destruct, _, trivial, if_pos hchild⟩
  | ended => exact ⟨.joined, _, trivial, if_pos ⟨howner, hchild⟩⟩
  | looping =>
      by_cases hplace : s.queue.place = .over
      · exact ⟨.leave, _, trivial, if_pos ⟨hchild, hplace⟩⟩
      · obtain ⟨a, r, ha, hr⟩ := TaskQueue.exists_prompt hs.queue hquit hplace
        have hallows : s.Allows (performer a) := by
          cases a with
          | wakeup thread =>
              obtain ⟨hwaking, -⟩ := Option.ite_none_right_eq_some.mp hr
              match thread with
              | .loop => exact hchild
              | .foreign 0 =>
                  have hidle := hs.waking (by rw [howner]; nofun) (by rw [hchild]; nofun)
                  rw [howner] at hidle
                  exact absurd (hidle.symm.trans hwaking) nofun
              | .foreign (n + 1) => show s.child.shared = true; rw [hchild]; rfl
          | queueInLoop _ _ | quit _ => exact ha.elim
          | _ => exact hchild
        refine ⟨.turn a, { s with queue := r }, ⟨hquit, ha⟩, ?_⟩
        rw [step, if_pos hallows, hr]
        rfl

/-- There is one, as long as the owner is in a call and the thread was created. -/
theorem exists_prompt (hs : Sound s) (hchild : s.child ≠ .unborn)
    (hcall : ¬(s.owner = .outside ∨ s.owner = .gone)) : ∃ a t, Prompt s a ∧ step s a = some t := by
  have hsees := hs.sees
  cases howner : s.owner with
  | outside => exact absurd (Or.inl howner) hcall
  | gone => exact absurd (Or.inr howner) hcall
  | testing => exact ⟨.test, _, trivial, if_pos howner⟩
  | returning => exact ⟨.ret, _, trivial, if_pos howner⟩
  | joining => exact exists_prompt_joining hs howner
  | waiting b =>
      cases b with
      | true => exact ⟨.wake, _, howner, if_pos (Or.inl howner)⟩
      | false =>
          have hloop := (hs.notified false howner).trans hs.loop_
          rw [howner] at hsees
          cases h : s.child with
          | born => exact ⟨.construct, _, trivial, if_pos h⟩
          | constructed => exact ⟨.publish, _, trivial, if_pos h⟩
          | unborn => exact absurd h hchild
          | published | looping | returned =>
              rw [h] at hloop
              exact Bool.noConfusion hloop
          | cleared | ended =>
              rw [h] at hsees
              simp [Owner.sees] at hsees
  | quitting =>
      have hidle := hs.idle howner (by decide) rfl Owner.noConfusion
      have hfree : s.queue.free caller = true := by
        rw [TaskQueue.State.free, hidle]
        rfl
      have hstep : TaskQueue.step s.queue (.quit caller) = some (TaskQueue.quit s.queue caller) :=
        if_pos hfree
      exact ⟨.quit, _, trivial, by
        rw [step, if_pos howner, if_pos (hs.lent howner rfl), hstep]
        rfl⟩
  | checking => exact ⟨.isInLoopThread false, _, trivial, if_pos ⟨howner, fun _ => rfl⟩⟩
  | waking =>
      cases hshared : s.child.shared with
      | false => exact ⟨.wakeup, _, trivial, by rw [step, if_pos howner, hshared]; rfl⟩
      | true =>
          have hended : s.child ≠ .ended := fun h => by
            rw [h] at hshared
            cases hshared
          have hwaking := hs.waking (by rw [howner]; exact Owner.noConfusion) hended
          rw [howner] at hwaking
          have hstep : TaskQueue.step s.queue (.wakeup caller) =
              some (TaskQueue.wakeup s.queue caller) := if_pos hwaking
          exact ⟨.wakeup, _, trivial, by
            rw [step, if_pos howner, hshared, if_pos rfl, hstep]
            rfl⟩

theorem born_step (hchild : s.child ≠ .unborn) (hprompt : Prompt s a) (h : step s a = some t) :
    t.child ≠ .unborn := by
  cases a with
  | startLoop _ | destroy => exact hprompt.elim
  | test | wake | ret | isInLoopThread _ | joined =>
      obtain ⟨-, h⟩ := Option.ite_none_right_eq_some.mp h
      cases h
      exact hchild
  | construct | publish | initConnectionPool | leave | clear | destruct =>
      obtain ⟨-, h⟩ := Option.ite_none_right_eq_some.mp h
      cases h
      exact Child.noConfusion
  | turn _ | quit | wakeup =>
      obtain ⟨-, h⟩ := Option.ite_none_right_eq_some.mp h
      obtain ⟨r, -, rfl⟩ := Option.map_eq_some_iff.mp h
      exact hchild

theorem prompt_step (s : State Task) (a : Action Task) (t : State Task)
    (hs : Sound s ∧ s.child ≠ .unborn) (hprompt : Prompt s a) (h : step s a = some t) :
    (Sound t ∧ t.child ≠ .unborn) ∧ t.left < s.left :=
  ⟨⟨sound_step hs.1 (prompt_quits hprompt) h, born_step hs.2 hprompt h⟩, left_step hs.1 hprompt h⟩

/-! ## Every run -/

/-- A handler that quits the loop may leave the destructor with a null pointer. -/
example : (exec step (new : State Nat)
    [.startLoop true, .construct, .publish, .test, .ret, .initConnectionPool, .turn .test,
      .turn (.poll [.other]), .turn .handle, .turn (.quit .loop), .turn .handled, .turn .handle,
      .turn .swap, .turn .run, .turn .test, .leave, .destroy, .clear, .quit]).map State.uses =
    some [(.ret, true), (.quit, false)] := rfl

end

end EventLoopThread

end WebServer

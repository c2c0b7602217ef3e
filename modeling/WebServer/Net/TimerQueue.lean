/-
# `Net.TimerQueue` — timers, and the threads that add and cancel them

The class of `TimerQueue.{h,cc}` on a heap of `Timer`s.  A `Timer*` is an address
(`Addr`), which `new` may give out again once the timer there has been deleted;
a pointer to a deleted timer must not be followed, and a function that follows
one is undefined (`none`).  Times are in microseconds, and intervals too, though
the code gets them in seconds; `interval_` is an `int`, so it keeps the whole
seconds only.  An interval of 2^31 seconds or more, which no `int` holds, is
undefined there; here a `Timer` keeps it all the same.

`State` adds who uses the queue.  A foreign thread's `addTimer` is three steps:
it creates the timer, it enqueues `addTimerInLoop`, and it reads `sequence()` for
the `TimerId` it returns.  The loop thread runs the queued functors in order, and
`handleRead` in between; the callbacks that `handleRead` runs, and whatever else
the loop thread runs outside it, add and cancel timers at once.
-/
import WebServer.Lib.OrderedSet
import WebServer.Lib.Machine
import Mathlib.Algebra.Ring.Nat
import Mathlib.Data.Prod.Lex
import Mathlib.Logic.Function.Basic

namespace WebServer

namespace Timers

/-! ## Timers -/

/-- A `Timer*`. -/
abbrev Addr := Nat

structure Timer where
  sequence : Nat
  repeats : Bool
  interval : Int
  expiration : Int
  deriving DecidableEq

def microSecondsPerSecond : Int := 1000000

namespace Timer

/-- The constructor, with the sequence number it takes; `interval` is below 2^31
seconds (`toInt` of `Net.Interval`). -/
def new (sequence : Nat) (when interval : Int) : Timer where
  sequence := sequence
  repeats := 0 < interval
  interval := interval.tdiv microSecondsPerSecond
  expiration := when

/-- `restart(now)`. -/
def restart (t : Timer) (now : Int) : Timer :=
  if t.repeats then { t with expiration := now + t.interval * microSecondsPerSecond }
  else { t with expiration := 0 }

@[simp] theorem sequence_restart (t : Timer) (now : Int) :
    (t.restart now).sequence = t.sequence := by
  unfold restart
  split <;> rfl

end Timer

/-- An element of `timers_`. -/
structure Entry where
  when : Int
  timer : Addr
  deriving DecidableEq

instance : LinearOrder Entry :=
  LinearOrder.lift' (fun e => toLex (e.when, e.timer)) fun e f h => by
    cases e
    cases f
    simpa using h

/-- An element of `activeTimers_` or of `cancelingTimers_`. -/
structure ActiveTimer where
  timer : Addr
  sequence : Nat
  deriving DecidableEq

instance : LinearOrder ActiveTimer :=
  LinearOrder.lift' (fun t => toLex (t.timer, t.sequence)) fun t u h => by
    cases t
    cases u
    simpa using h

/-- What `addTimer` returns: the pointer and the sequence of a timer. -/
abbrev TimerId := ActiveTimer

/-! ## The queue -/

structure TimerQueue where
  heap : Addr → Option Timer
  sqe_numCreated : Nat
  callingExpiredTimers : Bool
  timers : List Entry
  activeTimers : List ActiveTimer
  cancelingTimers : List ActiveTimer
  /-- When the timerfd was last set to go off. -/
  timerfd : Option Int

namespace TimerQueue

def new : TimerQueue where
  heap := fun _ => none
  sqe_numCreated := 0
  callingExpiredTimers := false
  timers := []
  activeTimers := []
  cancelingTimers := []
  timerfd := none

/-- `new Timer(cb, when, interval)`, at that address. -/
def create (q : TimerQueue) (timer : Addr) (when interval : Int) : TimerQueue :=
  { q with
    heap := Function.update q.heap timer (some (Timer.new (q.sqe_numCreated + 1) when interval))
    sqe_numCreated := q.sqe_numCreated + 1 }

/-- `delete timer`. -/
def delete (q : TimerQueue) (timer : Addr) : TimerQueue :=
  { q with heap := Function.update q.heap timer none }

/-- `resetTimerfd(timerfd_, expiration)`, at that time. -/
def resetTimerfd (q : TimerQueue) (clock expiration : Int) : TimerQueue :=
  { q with timerfd := some (clock + max 100 (expiration - clock)) }

/-- `insert(timer)`, and whether the earliest timer has changed. -/
def insert (q : TimerQueue) (timer : Addr) : Option (TimerQueue × Bool) := do
  let t ← q.heap timer
  let earliestChanged := match q.timers with
    | [] => true
    | e :: _ => decide (t.expiration < e.when)
  some ({ q with
    timers := OrderedSet.insert ⟨t.expiration, timer⟩ q.timers
    activeTimers := OrderedSet.insert ⟨timer, t.sequence⟩ q.activeTimers }, earliestChanged)

def addTimerInLoop (q : TimerQueue) (timer : Addr) (clock : Int) : Option TimerQueue := do
  let (q, earliestChanged) ← q.insert timer
  if earliestChanged then
    let t ← q.heap timer
    some (q.resetTimerfd clock t.expiration)
  else some q

def cancelInLoop (q : TimerQueue) (timerId : TimerId) : Option TimerQueue :=
  if timerId ∈ q.activeTimers then do
    let t ← q.heap timerId.timer
    some { q.delete timerId.timer with
      timers := q.timers.erase ⟨t.expiration, timerId.timer⟩
      activeTimers := q.activeTimers.erase timerId }
  else if q.callingExpiredTimers then
    some { q with cancelingTimers := OrderedSet.insert timerId q.cancelingTimers }
  else some q

/-- The loop of `getExpired` that erases from `activeTimers_`. -/
def eraseActive (q : TimerQueue) (e : Entry) : Option TimerQueue := do
  let t ← q.heap e.timer
  some { q with activeTimers := q.activeTimers.erase ⟨e.timer, t.sequence⟩ }

/-- `UINTPTR_MAX`. -/
def uintptrMax : Addr := 2 ^ 64 - 1

/-- `getExpired(now)`. -/
def getExpired (q : TimerQueue) (now : Int) : Option (TimerQueue × List Entry) := do
  let sentry : Entry := ⟨now, uintptrMax⟩
  let expired := OrderedSet.below sentry q.timers
  let q ← expired.foldlM eraseActive { q with timers := OrderedSet.rest sentry q.timers }
  some (q, expired)

/-- The loop of `reset`. -/
def resetOne (now : Int) (q : TimerQueue) (e : Entry) : Option TimerQueue := do
  let t ← q.heap e.timer
  if t.repeats ∧ ⟨e.timer, t.sequence⟩ ∉ q.cancelingTimers then
    let q := { q with heap := Function.update q.heap e.timer (some (t.restart now)) }
    (q.insert e.timer).map Prod.fst
  else some (q.delete e.timer)

/-- `reset(expired, now)`; the timerfd is set at `clock`. -/
def reset (q : TimerQueue) (expired : List Entry) (now clock : Int) : Option TimerQueue := do
  let q ← expired.foldlM (resetOne now) q
  match q.timers with
  | [] => some q
  | e :: _ =>
      let t ← q.heap e.timer
      some (if 0 < t.expiration then q.resetTimerfd clock t.expiration else q)

end TimerQueue

/-! ## Its users -/

inductive Functor where
  | addTimerInLoop (timer : Addr)
  | cancelInLoop (timerId : TimerId)
  deriving DecidableEq

/-- A `handleRead` that has called `getExpired`: its `now`, and its `expired`, as
the entries whose callbacks it has started and those it has not. -/
structure Batch where
  now : Int
  started : List Entry
  waiting : List Entry
  deriving DecidableEq

structure State where
  queue : TimerQueue
  /-- The `handleRead` that is running. -/
  batch : Option Batch
  /-- The functors that are queued on the loop. -/
  functors : List Functor
  /-- The timers that foreign threads have created and not enqueued. -/
  made : List Addr
  /-- The timers that foreign threads have enqueued, before the `TimerId` is built. -/
  owed : List Addr
  /-- The ids that `addTimer` has returned. -/
  returned : List TimerId
  /-- The ids that `cancelInLoop` has returned for. -/
  cancelled : List TimerId
  /-- The callbacks started after `cancelInLoop` had returned for their timers. -/
  late : List TimerId

def start : State where
  queue := .new
  batch := none
  functors := []
  made := []
  owed := []
  returned := []
  cancelled := []
  late := []

inductive Action where
  /-- `addTimer` in the loop thread. -/
  | addTimer (timer : Addr) (when interval clock : Int)
  /-- `cancel` in the loop thread. -/
  | cancel (timerId : TimerId)
  /-- The three steps of `addTimer` in a foreign thread. -/
  | create (timer : Addr) (when interval : Int)
  | enqueue (timer : Addr)
  | build (timer : Addr)
  /-- `cancel` in a foreign thread. -/
  | queueCancel (timerId : TimerId)
  /-- The loop thread runs the first functor. -/
  | runFunctor (clock : Int)
  /-- `handleRead` up to its loop. -/
  | handleRead (now : Int)
  /-- It starts the next callback. -/
  | run
  /-- It leaves its loop and calls `reset`. -/
  | reset (clock : Int)
  deriving DecidableEq

/-- An address `new` can return. -/
def State.vacant (s : State) (timer : Addr) : Prop :=
  s.queue.heap timer = none ∧ 0 < timer ∧ timer < TimerQueue.uintptrMax

instance (s : State) (timer : Addr) : Decidable (s.vacant timer) :=
  inferInstanceAs (Decidable (_ ∧ _ ∧ _))

/-- The loop thread runs code of its users: outside `handleRead`, or in a
callback that `handleRead` has started. -/
def State.inUserCode (s : State) : Bool :=
  match s.batch with
  | none => true
  | some b => !b.started.isEmpty

/-- `cancelInLoop`, and the note that it has returned. -/
def State.cancelInLoop (s : State) (timerId : TimerId) : Option State := do
  let q ← s.queue.cancelInLoop timerId
  some { s with queue := q, cancelled := timerId :: s.cancelled }

def step (s : State) : Action → Option State
  | .addTimer timer when interval clock =>
      if s.inUserCode ∧ s.vacant timer then do
        let q := s.queue.create timer when interval
        let q ← q.addTimerInLoop timer clock
        let t ← q.heap timer
        some { s with queue := q, returned := ⟨timer, t.sequence⟩ :: s.returned }
      else none
  | .cancel timerId =>
      if s.inUserCode ∧ timerId ∈ s.returned then s.cancelInLoop timerId else none
  | .create timer when interval =>
      if s.vacant timer then
        some { s with queue := s.queue.create timer when interval, made := timer :: s.made }
      else none
  | .enqueue timer =>
      if timer ∈ s.made then
        some { s with
          made := s.made.erase timer
          functors := s.functors ++ [.addTimerInLoop timer], owed := timer :: s.owed }
      else none
  | .build timer =>
      if timer ∈ s.owed then do
        let t ← s.queue.heap timer
        some { s with
          owed := s.owed.erase timer, returned := ⟨timer, t.sequence⟩ :: s.returned }
      else none
  | .queueCancel timerId =>
      if timerId ∈ s.returned then
        some { s with functors := s.functors ++ [.cancelInLoop timerId] }
      else none
  | .runFunctor clock =>
      match s.batch, s.functors with
      | none, .addTimerInLoop timer :: functors => do
          let q ← s.queue.addTimerInLoop timer clock
          some { s with queue := q, functors := functors }
      | none, .cancelInLoop timerId :: functors =>
          { s with functors := functors }.cancelInLoop timerId
      | _, _ => none
  | .handleRead now =>
      match s.batch with
      | none => do
          let (q, expired) ← s.queue.getExpired now
          some { s with
            queue := { q with callingExpiredTimers := true, cancelingTimers := [] }
            batch := some ⟨now, [], expired⟩ }
      | some _ => none
  | .run =>
      match s.batch with
      | some ⟨now, started, e :: waiting⟩ => do
          let t ← s.queue.heap e.timer
          let timerId : TimerId := ⟨e.timer, t.sequence⟩
          some { s with
            batch := some ⟨now, started ++ [e], waiting⟩
            late := if timerId ∈ s.cancelled then timerId :: s.late else s.late }
      | _ => none
  | .reset clock =>
      match s.batch with
      | some ⟨now, started, []⟩ => do
          let q ← { s.queue with callingExpiredTimers := false }.reset started now clock
          some { s with queue := q, batch := none }
      | _ => none

end Timers

end WebServer

/-
# `Net.StartUp` — the pool of a loop exists before it is used

A server starts `n` io threads one after another and then accepts connections on
its own loop, the base loop.  An io thread publishes the address of its loop
before it builds the pool, so the acceptor can hand it a connection in between:
`runInLoop` pushes the call of `getNextFreeConnection` on the queue of the loop
(`Net.TaskQueue`), and the queue is read in `loop()`, which the thread enters
when the pool is built.  Without io threads the acceptor hands the connections
to the base loop, by a direct call; and the base loop never builds a pool.

A step is what one thread does without another being able to come between.
`initConnectionPool` is one step for each object of the pool.  Loops are told
apart by `Option Nat`: the base loop, and that of the `i`-th thread.

`calls` records, for each call of `getNextFreeConnection`, what it finds:
whether `initConnectionPool` has returned, and `freeTcpConnection_`.  `ready_iff`
is the law for whole runs: every call finds the pool built exactly when there
is an io thread, or no connection is handed on.
-/
import WebServer.Net.Own
import WebServer.Net.Run
import WebServer.Net.TaskQueue

namespace WebServer

namespace EventLoop

/-! ## The head of the pool stays -/

variable {w w' : EventLoop} {c : ConnId}

theorem Own.free (h : Own c w w') : w'.freeTcpConnection = w.freeTcpConnection :=
  (congrArg EventLoop.freeTcpConnection h.frame :)

theorem free_getNextFreeConnection {fd : Int} (h : w.getNextFreeConnection fd = some w') :
    w'.freeTcpConnection = w.freeTcpConnection := by
  have htake : ∀ head, (w.takeFree head).1.freeTcpConnection = w.freeTcpConnection := by
    intro head
    unfold takeFree
    split <;> rfl
  unfold getNextFreeConnection at h
  split at h
  · cases h
  · rename_i head _
    cases h
    have hopen := (roster_openSession (w.takeFree head).1 (w.takeFree head).2 fd).trans
      (roster_insert_enlist _ _ _)
    exact (congrArg Roster.freeTcpConnection hopen).trans (htake head)

theorem free_returnBackConnection (h : w.returnBackConnection c = some w') :
    w'.freeTcpConnection = w.freeTcpConnection := by
  obtain ⟨-, head, nodes, rfl⟩ := returnBackConnection_cases h
  rfl

theorem free_handleClose (h : w.handleClose c = some w') :
    w'.freeTcpConnection = w.freeTcpConnection := by
  rw [handleClose_eq] at h
  exact (free_returnBackConnection h).trans
    (congrArg Roster.freeTcpConnection (roster_vacate w c) :)

theorem free_updateIdleTimeList (h : w.updateIdleTimeList c = some w') :
    w'.freeTcpConnection = w.freeTcpConnection := by
  rcases updateIdleTimeList_cases h with rfl | ⟨nodes, rfl⟩
  · rfl
  · rfl

theorem free_handleRead {r : ReadResult} {wr : WriteResult} (h : w.handleRead c r wr = some w') :
    w'.freeTcpConnection = w.freeTcpConnection := by
  cases r with
  | data first rest =>
      obtain ⟨v, hv, rfl⟩ := Option.map_eq_some_iff.mp h
      exact own_echoMessageCallback.free.trans (free_updateIdleTimeList hv :)
  | eof =>
      obtain ⟨v, hv, hvw⟩ := Option.bind_eq_some_iff.mp h
      exact (free_handleClose hvw).trans (free_updateIdleTimeList hv)
  | fail => exact free_updateIdleTimeList h

theorem free_forceCloseWithDelay {delay : Nat} :
    (w.forceCloseWithDelay c delay).freeTcpConnection = w.freeTcpConnection := by
  unfold forceCloseWithDelay
  split <;> rfl

theorem free_visitIdle {now : Int} :
    (w.visitIdle now c).1.freeTcpConnection = w.freeTcpConnection := by
  unfold visitIdle
  dsimp only
  split
  · split
    · exact free_forceCloseWithDelay.trans own_shutdown.free
    · rfl
  · split <;> rfl

theorem free_removeExpiredLoop (now : Int) (ahead : List (Position × ConnId)) :
    ∀ {w : EventLoop}, (w.removeExpiredLoop now ahead).freeTcpConnection = w.freeTcpConnection := by
  induction ahead with
  | nil => intro w; rfl
  | cons e ahead ih =>
      intro w
      obtain ⟨p, d⟩ := e
      unfold removeExpiredLoop
      split
      · dsimp only
        split
        · exact ih.trans free_visitIdle
        · exact free_visitIdle
      · exact ih

theorem free_runBoundCall {cb : BoundCall} (h : w.runBoundCall cb = some w') :
    w'.freeTcpConnection = w.freeTcpConnection := by
  obtain ⟨c, g⟩ := cb
  simp only [runBoundCall, forceCloseInLoop] at h
  split at h
  · exact (free_handleClose h :)
  · cases h
    rfl

theorem free_call {k : Call} (h : w.call k = some w') :
    w'.freeTcpConnection = w.freeTcpConnection := by
  cases k with
  | getNextFreeConnection fd => exact free_getNextFreeConnection h
  | send c data wr => cases h; exact own_send.free
  | shutdown c => cases h; exact own_shutdown.free
  | forceClose c =>
      cases h
      unfold forceClose
      split <;> rfl
  | forceCloseWithDelay c delay => cases h; exact free_forceCloseWithDelay
  | removeExpiredConnection =>
      cases h
      unfold removeExpiredConnection
      split
      · rfl
      · exact free_removeExpiredLoop w.now _
  | runTimer i =>
      simp only [call, runTimer] at h
      split at h
      · exact (free_runBoundCall h :)
      · cases h
        rfl
  | runFunctor =>
      simp only [call, runFunctor] at h
      split at h
      · exact (free_runBoundCall h :)
      · cases h
        rfl

/-- Nothing that the loop's thread does writes `freeTcpConnection_`. -/
theorem free_act {a : Act} (h : w.act a = some w') :
    w'.freeTcpConnection = w.freeTcpConnection := by
  cases a with
  | tick dt => cases h; rfl
  | call k => exact free_call h
  | handleRead c r wr => exact (free_handleRead h :)
  | handleWrite c wr => cases h; exact (own_handleWrite.free :)
  | handleClose c => exact (free_handleClose h :)

end EventLoop

namespace StartUp

open EventLoop Machine

/-! ## The threads -/

/-- What the constructor of a loop gets from the kernel. -/
structure Kernel where
  now : Int
  epollFd : Int
  timerFd : Int
  wakeupFd : Int
  deriving DecidableEq

/-- `EventLoop loop;` or `EventLoop loop(idleSeconds_);`. -/
def construct (idleSeconds : Int) (k : Kernel) : EventLoop :=
  EventLoop.new (if idleSeconds ≤ 0 then -1 else idleSeconds) k.now k.epollFd k.timerFd k.wakeupFd

/-- Where a loop's thread stands. -/
inductive Phase where
  /-- The thread has not been started. -/
  | unborn
  /-- The loop is constructed. -/
  | constructed
  /-- `loop_` is set. -/
  | published
  /-- In `initConnectionPool`, before the `i`-th round; `tc` is the last object
  of the chain. -/
  | building (tc : ConnId) (i : Nat)
  /-- In `loop()`. -/
  | looping
  deriving DecidableEq

/-- `loop_ != NULL`. -/
def Phase.isPublished : Phase → Bool
  | .unborn => false
  | .constructed => false
  | _ => true

/-- A loop, its queue of tasks from other threads (the descriptors bound to
`getNextFreeConnection`), and its thread. -/
structure Reactor where
  phase : Phase
  loop : EventLoop
  queue : TaskQueue.State Int
  /-- `initConnectionPool` has returned -/
  poolBuilt : Bool

/-- A loop at its constructor. -/
def Reactor.new (phase : Phase) (idleSeconds : Int) (k : Kernel) : Reactor where
  phase := phase
  loop := construct idleSeconds k
  queue := TaskQueue.start
  poolBuilt := false

/-- Where the main thread stands. -/
inductive Main where
  /-- In `EventLoopThreadPool::start`, before its `i`-th round. -/
  | starting (i : Nat)
  /-- In `startLoop` of the `i`-th thread, at its condition. -/
  | waiting (i : Nat)
  /-- In `loop()` of the base loop, with the acceptor registered. -/
  | serving
  /-- In `handleNewConn`, in `wakeup` of the loop of the `i`-th thread. -/
  | waking (i : Nat)
  deriving DecidableEq

/-- What a call of `getNextFreeConnection` finds. -/
structure LoopCall where
  loop : Option Nat
  poolBuilt : Bool
  freeTcpConnection : Option ConnId
  deriving DecidableEq

structure State where
  numThreads : Nat
  idleSeconds : Int
  main : Main
  /-- `loops_`, as the numbers of the threads -/
  loops : List Nat
  next : Nat
  reactors : Option Nat → Reactor
  calls : List LoopCall
  /-- a null pointer was followed -/
  dead : Bool

/-- `main` has constructed the base loop and the server, and calls `start()`. -/
def start (numThreads : Nat) (idleSeconds baseIdleSeconds : Int) (k : Kernel) : State where
  numThreads := numThreads
  idleSeconds := idleSeconds
  main := .starting 0
  loops := []
  next := 0
  reactors := fun l =>
    match l with
    | none => Reactor.new .constructed baseIdleSeconds k
    | some _ => Reactor.new .unborn idleSeconds k
  calls := []
  dead := false

namespace State

def reactor (s : State) (l : Option Nat) : Reactor := s.reactors l

def setReactor (s : State) (l : Option Nat) (r : Reactor) : State :=
  { s with reactors := Function.update s.reactors l r }

end State

/-! ## The steps -/

inductive Action where
  /-- The main thread starts the next io thread, which constructs its loop. -/
  | startThread (k : Kernel)
  /-- `startLoop` returns. -/
  | loopStarted
  /-- The pool of threads is started: `TcpServer::start` registers the acceptor,
  and `main` enters `loop()`. -/
  | serve
  /-- The next step of `threadFunc` of the `i`-th thread, up to `loop()`. -/
  | proceed (i : Nat)
  /-- A step of the thread of a loop in `loop()`. -/
  | turn (l : Option Nat) (a : TaskQueue.Action Int)
  /-- What else its handlers and functors do. -/
  | act (l : Option Nat) (a : Act)
  /-- One round of `handleNewConn`: `accept` returns `connfd`, and
  `setSocketNonBlocking` succeeds or not. -/
  | accept (connfd : Int) (nonBlocking : Bool)
  /-- The write of `wakeup`, after a push on another loop's queue. -/
  | wakeup

/-- A step of `threadFunc`. -/
def Reactor.proceed (r : Reactor) : Option Reactor :=
  match r.phase with
  | .constructed => some { r with phase := .published }
  | .published =>
      let head := r.loop.allocated
      some { r with phase := .building head 0
                    loop := { r.loop.allocate with freeTcpConnection := some head } }
  | .building tc i =>
      if i < MaxConnectionPoolSize then
        let tct := r.loop.allocated
        let w := r.loop.allocate.modify tct fun t => { t with index := i }
        some { r with phase := .building tct (i + 1), loop := w.setNextTcpConn tc (some tct) }
      else some { r with phase := .looping, poolBuilt := true }
  | _ => none

/-- The steps that the thread of a loop takes itself. -/
def ofLoop : TaskQueue.Action Int → Bool
  | .queueInLoop _ _ => false
  | .quit _ => false
  | .wakeup _ => false
  | _ => true

/-- The functor that a step of the loop starts. -/
def started (q : TaskQueue.State Int) : TaskQueue.Action Int → Option Int
  | .run => if q.place = .batch then q.functors.head? else none
  | _ => none

/-- `getNextFreeConnection(connfd)` of the loop `l`, in its thread. -/
def getNextFreeConnection (s : State) (l : Option Nat) (connfd : Int) : State :=
  let r := s.reactor l
  let s : State := { s with calls := s.calls ++ [⟨l, r.poolBuilt, r.loop.freeTcpConnection⟩] }
  match r.loop.getNextFreeConnection connfd with
  | some w => s.setReactor l { r with loop := w }
  | none => { s with dead := true }

/-- `EventLoopThreadPool::getNextLoop()`: the loop, and `next_` after it. -/
def getNextLoop (s : State) : Option (Option Nat × Nat) :=
  if s.loops = [] then some (none, s.next)
  else (s.loops[s.next]?).map fun i => (some i, (s.next + 1) % s.numThreads)

/-- `runInLoop` of the bound call, in the main thread: the base loop is its own. -/
def runInLoop (s : State) (connfd : Int) : Option Nat → State
  | none => getNextFreeConnection s none connfd
  | some i =>
      let r := s.reactor (some i)
      { s.setReactor (some i) { r with
          queue := TaskQueue.queueInLoop r.queue (.foreign 0) connfd } with main := .waking i }

/-- `maxFds_`. -/
def maxFds : Int := 100000

/-- `accept` has returned a descriptor that the server keeps, and the connection
is handed to a loop. -/
def HandedOn : Action → Prop
  | .accept connfd nonBlocking => 0 < connfd ∧ connfd < maxFds ∧ nonBlocking = true
  | _ => False

/-- One round of `handleNewConn()`. -/
def handleNewConn (s : State) (connfd : Int) (nonBlocking : Bool) : Option State :=
  if connfd ≤ 0 ∨ maxFds ≤ connfd then some s
  else (getNextLoop s).map fun r =>
    if nonBlocking then runInLoop { s with next := r.2 } connfd r.1 else { s with next := r.2 }

def step (s : State) (a : Action) : Option State :=
  if s.dead then none
  else
    match a with
    | .startThread k =>
        match s.main with
        | .starting i =>
            if i < s.numThreads then
              some { s.setReactor (some i) (Reactor.new .constructed s.idleSeconds k) with
                main := .waiting i }
            else none
        | _ => none
    | .loopStarted =>
        match s.main with
        | .waiting i =>
            if (s.reactor (some i)).phase.isPublished then
              some { s with main := .starting (i + 1), loops := s.loops ++ [i] }
            else none
        | _ => none
    | .serve =>
        match s.main with
        | .starting i =>
            if i < s.numThreads then none
            else some { s.setReactor none { s.reactor none with phase := .looping } with
              main := .serving }
        | _ => none
    | .proceed i =>
        ((s.reactor (some i)).proceed).map fun r => s.setReactor (some i) r
    | .turn l a =>
        let r := s.reactor l
        if r.phase = .looping ∧ ofLoop a ∧ (l = none → s.main = .serving) then
          (TaskQueue.step r.queue a).map fun q =>
            let s := s.setReactor l { r with queue := q }
            match started r.queue a with
            | some connfd => getNextFreeConnection s l connfd
            | none => s
        else none
    | .act l a =>
        let r := s.reactor l
        if r.phase = .looping ∧ a.connfd = none ∧ (l = none → s.main = .serving) then
          (r.loop.act a).map fun w => s.setReactor l { r with loop := w }
        else none
    | .accept connfd nonBlocking =>
        match s.main, (s.reactor none).queue.place with
        | .serving, .handler _ => handleNewConn s connfd nonBlocking
        | _, _ => none
    | .wakeup =>
        match s.main with
        | .waking i =>
            let r := s.reactor (some i)
            some { s.setReactor (some i) { r with
              queue := TaskQueue.wakeup r.queue (.foreign 0) } with main := .serving }
        | _ => none

/-- Every call of `getNextFreeConnection` found the pool of its loop built. -/
def Ready (s : State) : Prop :=
  ∀ k ∈ s.calls, k.poolBuilt = true ∧ k.freeTcpConnection ≠ none

/-- There is an io thread, or the step hands no connection on. -/
def Served (s : State) (a : Action) : Prop := 0 < s.numThreads ∨ ¬ HandedOn a

instance (a : Action) : Decidable (HandedOn a) :=
  match a with
  | .accept connfd nonBlocking =>
      inferInstanceAs (Decidable (0 < connfd ∧ connfd < maxFds ∧ nonBlocking = true))
  | .startThread _ => inferInstanceAs (Decidable False)
  | .loopStarted => inferInstanceAs (Decidable False)
  | .serve => inferInstanceAs (Decidable False)
  | .proceed _ => inferInstanceAs (Decidable False)
  | .turn _ _ => inferInstanceAs (Decidable False)
  | .act _ _ => inferInstanceAs (Decidable False)
  | .wakeup => inferInstanceAs (Decidable False)

instance (s : State) (a : Action) : Decidable (Served s a) :=
  inferInstanceAs (Decidable (_ ∨ ¬ HandedOn a))

/-! ## The invariant -/

/-- How far a thread has come with the pool of its loop. -/
def Stage (r : Reactor) : Prop :=
  match r.phase with
  | .unborn => True
  | .constructed => ∃ idle k, r.loop = construct idle k
  | .published => ∃ idle k, r.loop = construct idle k
  | .building tc i => i ≤ MaxConnectionPoolSize ∧ ∃ idle k,
      r.loop.initConnectionPoolLoop tc i (MaxConnectionPoolSize - i) =
        (construct idle k).initConnectionPool MaxConnectionPoolSize
  | .looping => r.poolBuilt = true ∧ r.loop.freeTcpConnection ≠ none

/-- The loops that the main thread has been given. -/
def Rounds (s : State) : Prop :=
  match s.main with
  | .starting i => s.loops = List.range i ∧ i ≤ s.numThreads
  | .waiting i => s.loops = List.range i ∧ i < s.numThreads
  | .serving => s.loops = List.range s.numThreads
  | .waking _ => s.loops = List.range s.numThreads

structure Inv (s : State) : Prop where
  threads : ∀ i, Stage (s.reactor (some i))
  base : (s.reactor none).poolBuilt = false
  noTask : (s.reactor none).queue.pendingFunctors = [] ∧ (s.reactor none).queue.functors = []
  rounds : Rounds s

section

variable {s t : State} {l : Option Nat} {r r' : Reactor}

@[simp] theorem reactor_setReactor_self : (s.setReactor l r).reactor l = r :=
  Function.update_self ..

theorem reactor_setReactor_ne {m : Option Nat} (h : m ≠ l) :
    (s.setReactor l r).reactor m = s.reactor m :=
  Function.update_of_ne h ..

/-- A step of `threadFunc` brings the pool of the loop a step on; when
`initConnectionPool` returns, it is built. -/
theorem stage_proceed (h : Stage r) (hr : r.proceed = some r') : Stage r' := by
  obtain ⟨phase, w, q, b⟩ := r
  cases phase with
  | unborn => exact absurd hr.symm (Option.some_ne_none _)
  | constructed =>
      cases hr
      exact h
  | published =>
      cases hr
      obtain ⟨idle, k, hw⟩ := h
      refine ⟨Nat.zero_le _, idle, k, ?_⟩
      dsimp only at hw ⊢
      rw [hw, Nat.sub_zero, initConnectionPool]
  | building tc i =>
      obtain ⟨hi, idle, k, hw⟩ := h
      dsimp only at hw
      by_cases hlt : i < MaxConnectionPoolSize
      · have hround := (if_pos hlt).symm.trans hr
        cases hround
        refine ⟨hlt, idle, k, ?_⟩
        rw [← hw, show MaxConnectionPoolSize - i = MaxConnectionPoolSize - (i + 1) + 1 by omega,
          initConnectionPoolLoop]
      · have hround := (if_neg hlt).symm.trans hr
        cases hround
        have hdone : MaxConnectionPoolSize - i = 0 := by omega
        rw [hdone, initConnectionPoolLoop] at hw
        refine ⟨rfl, ?_⟩
        obtain ⟨head, -, hfree, -⟩ :=
          pool_initConnectionPool (w := construct idle k) MaxConnectionPoolSize rfl rfl
        rw [hw, hfree]
        exact Option.some_ne_none head
  | looping => exact absurd hr.symm (Option.some_ne_none _)

namespace Inv

theorem thread (h : Inv s) {i : Nat} (hr : Stage r) : Inv (s.setReactor (some i) r) where
  threads := fun j => by
    by_cases hj : j = i
    · rw [hj, reactor_setReactor_self]
      exact hr
    · rw [reactor_setReactor_ne fun e => hj (Option.some.inj e)]
      exact h.threads j
  base := by
    rw [reactor_setReactor_ne (Option.some_ne_none i).symm]
    exact h.base
  noTask := by
    rw [reactor_setReactor_ne (Option.some_ne_none i).symm]
    exact h.noTask
  rounds := h.rounds

theorem baseLoop (h : Inv s) (hb : r.poolBuilt = false)
    (hq : r.queue.pendingFunctors = [] ∧ r.queue.functors = []) : Inv (s.setReactor none r) where
  threads := fun j => by
    rw [reactor_setReactor_ne (Option.some_ne_none j)]
    exact h.threads j
  base := by rw [reactor_setReactor_self]; exact hb
  noTask := by rw [reactor_setReactor_self]; exact hq
  rounds := h.rounds

end Inv

/-! ## The calls -/

theorem calls_getNextFreeConnection (s : State) (l : Option Nat) (connfd : Int) :
    (getNextFreeConnection s l connfd).calls =
      s.calls ++ [⟨l, (s.reactor l).poolBuilt, (s.reactor l).loop.freeTcpConnection⟩] := by
  unfold getNextFreeConnection
  dsimp only
  split <;> rfl

theorem ready_getNextFreeConnection (hs : Ready s) (connfd : Int) :
    Ready (getNextFreeConnection s l connfd) ↔
      (s.reactor l).poolBuilt = true ∧ (s.reactor l).loop.freeTcpConnection ≠ none := by
  rw [Ready, calls_getNextFreeConnection]
  constructor
  · intro h
    exact h _ (List.mem_append_right _ List.mem_cons_self)
  · intro h k hk
    rcases List.mem_append.mp hk with hk | hk
    · exact hs k hk
    · rw [List.mem_singleton.mp hk]
      exact h

theorem inv_getNextFreeConnection (h : Inv s) (connfd : Int)
    (hl : ∀ i, l = some i → (s.reactor l).phase = .looping) :
    Inv (getNextFreeConnection s l connfd) := by
  have hcalls : ∀ cs, Inv { s with calls := cs } := fun _ =>
    ⟨h.threads, h.base, h.noTask, h.rounds⟩
  unfold getNextFreeConnection
  dsimp only
  split
  · rename_i w hw
    cases l with
    | none => exact (hcalls _).baseLoop h.base h.noTask
    | some i =>
        refine (hcalls _).thread ?_
        have hst := h.threads i
        rw [Stage, hl i rfl] at hst
        rw [Stage, hl i rfl]
        exact ⟨hst.1, (free_getNextFreeConnection hw).symm ▸ hst.2⟩
  · exact ⟨h.threads, h.base, h.noTask, h.rounds⟩

/-- A loop with no task stays so, and starts none, when nobody pushes one. -/
theorem noTask_turn {q q' : TaskQueue.State Int} {a : TaskQueue.Action Int}
    (hq : q.pendingFunctors = [] ∧ q.functors = []) (ha : ofLoop a = true)
    (hstep : TaskQueue.step q a = some q') :
    (q'.pendingFunctors = [] ∧ q'.functors = []) ∧ started q a = none := by
  have hnone : started q .run = none := by
    rw [started, hq.2]
    split <;> rfl
  cases a with
  | test =>
      obtain ⟨-, hq'⟩ := Option.ite_none_right_eq_some.mp hstep
      cases hq'
      exact ⟨hq, rfl⟩
  | poll active =>
      obtain ⟨-, hq'⟩ := Option.ite_none_right_eq_some.mp hstep
      cases hq'
      exact ⟨hq, rfl⟩
  | handle =>
      simp only [TaskQueue.step] at hstep
      split at hstep
      · cases hstep
        exact ⟨hq, rfl⟩
      · cases hstep
        exact ⟨hq, rfl⟩
      · cases hstep
        exact ⟨hq, rfl⟩
      · cases hstep
  | handled =>
      simp only [TaskQueue.step] at hstep
      split at hstep
      · cases hstep
        exact ⟨hq, rfl⟩
      · cases hstep
  | swap =>
      obtain ⟨-, hq'⟩ := Option.ite_none_right_eq_some.mp hstep
      cases hq'
      exact ⟨⟨rfl, hq.1⟩, rfl⟩
  | run =>
      simp only [TaskQueue.step, hq.2] at hstep
      split at hstep
      · rename_i hcons
        cases hcons
      · cases hstep
        exact ⟨⟨hq.1, rfl⟩, hnone⟩
      · cases hstep
  | finish =>
      obtain ⟨-, hq'⟩ := Option.ite_none_right_eq_some.mp hstep
      cases hq'
      exact ⟨hq, rfl⟩
  | queueInLoop thread cb => exact Bool.noConfusion ha
  | quit thread => exact Bool.noConfusion ha
  | wakeup thread => exact Bool.noConfusion ha

/-! ## Every step -/

/-- What a step leads to. -/
structure After (s : State) (a : Action) (t : State) : Prop where
  inv : Inv t
  ready : Ready s → (Ready t ↔ Served s a)

/-- A step without a call. -/
theorem After.of_quiet {a : Action} (ha : ¬ HandedOn a) (ht : Inv t)
    (hcalls : t.calls = s.calls) : After s a t := by
  refine ⟨ht, fun hs => ⟨fun _ => Or.inr ha, fun _ => ?_⟩⟩
  rw [Ready, hcalls]
  exact hs

theorem after_turn (hi : Inv s) {a : TaskQueue.Action Int}
    {q : TaskQueue.State Int} (hloop : (s.reactor l).phase = .looping) (ha : ofLoop a = true)
    (hq : TaskQueue.step (s.reactor l).queue a = some q) :
    After s (.turn l a) (match started (s.reactor l).queue a with
      | some connfd =>
          getNextFreeConnection (s.setReactor l { s.reactor l with queue := q }) l connfd
      | none => s.setReactor l { s.reactor l with queue := q }) := by
  cases l with
  | none =>
      obtain ⟨htask, hstarted⟩ := noTask_turn hi.noTask ha hq
      rw [hstarted]
      exact .of_quiet id (hi.baseLoop hi.base htask) rfl
  | some i =>
      have hst := hi.threads i
      have hset : Inv (s.setReactor (some i) { s.reactor (some i) with queue := q }) :=
        hi.thread hst
      split
      · rename_i connfd _
        refine ⟨inv_getNextFreeConnection hset connfd ?_,
          fun hs => ⟨fun _ => Or.inr id, fun _ => ?_⟩⟩
        · intro j hj
          rw [reactor_setReactor_self]
          exact hloop
        · refine (ready_getNextFreeConnection (l := some i) ?_ connfd).mpr ?_
          · exact hs
          · rw [reactor_setReactor_self]
            rw [Stage, hloop] at hst
            exact hst
      · exact .of_quiet id hset rfl

/-- The acceptor hands the connection to an io thread, if there is one, and else
to the base loop, which has no pool. -/
theorem after_handleNewConn (hi : Inv s) (hmain : s.main = .serving) {connfd : Int}
    {nonBlocking : Bool} (h : handleNewConn s connfd nonBlocking = some t) :
    After s (.accept connfd nonBlocking) t := by
  have hloops : s.loops = List.range s.numThreads := by
    have hrounds := hi.rounds
    rw [Rounds, hmain] at hrounds
    exact hrounds
  unfold handleNewConn at h
  split at h
  · rename_i hout
    cases h
    refine .of_quiet ?_ hi rfl
    rintro ⟨hpos, hmax, -⟩
    rcases hout with hout | hout
    · omega
    · omega
  · rename_i hin
    obtain ⟨⟨l, next⟩, hl, rfl⟩ := Option.map_eq_some_iff.mp h
    have hnext : Inv { s with next := next } := ⟨hi.threads, hi.base, hi.noTask, hi.rounds⟩
    cases nonBlocking with
    | false => exact .of_quiet (fun hh => Bool.noConfusion hh.2.2) hnext rfl
    | true =>
        have hhanded : HandedOn (.accept connfd true) := by
          refine ⟨?_, ?_, rfl⟩
          · omega
          · omega
        unfold getNextLoop at hl
        split at hl
        · -- no io thread: a direct call on the base loop
          rename_i hnil
          cases hl
          have hzero : s.numThreads = 0 := List.range_eq_nil.mp (hloops.symm.trans hnil)
          refine ⟨inv_getNextFreeConnection hnext connfd nofun, ?_⟩
          intro hs
          constructor
          · intro hready
            have hbuilt := ((ready_getNextFreeConnection (l := none) (s := { s with next := s.next })
              hs connfd).mp hready).1
            rw [show (State.reactor { s with next := s.next } none).poolBuilt = false from hi.base]
              at hbuilt
            exact Bool.noConfusion hbuilt
          · rintro (hpos | hnot)
            · omega
            · exact absurd hhanded hnot
        · -- the push on the queue of an io thread's loop
          rename_i hsome
          obtain ⟨i, hmem, hil⟩ := Option.map_eq_some_iff.mp hl
          cases hil
          have hpos : 0 < s.numThreads := by
            refine Nat.pos_of_ne_zero ?_
            intro hzero
            rw [hzero] at hloops
            exact hsome hloops
          have hpush : Inv (runInLoop { s with next := (s.next + 1) % s.numThreads } connfd
              (some i)) := by
            have hthread := hnext.thread (i := i) (r := { s.reactor (some i) with
              queue := TaskQueue.queueInLoop (s.reactor (some i)).queue (.foreign 0) connfd })
              (hi.threads i)
            exact ⟨hthread.threads, hthread.base, hthread.noTask, hloops⟩
          exact ⟨hpush, fun hs => ⟨fun _ => Or.inl hpos, fun _ => hs⟩⟩

theorem after_step (hi : Inv s) {a : Action} (h : step s a = some t) :
    After s a t := by
  unfold step at h
  split at h
  · cases h
  · cases a with
    | startThread k =>
        dsimp only at h
        split at h
        · rename_i i hmain
          obtain ⟨hlt, ht⟩ := Option.ite_none_right_eq_some.mp h
          cases ht
          have hrounds := hi.rounds
          rw [Rounds, hmain] at hrounds
          have hthread := hi.thread (i := i) (r := .new .constructed s.idleSeconds k)
            ⟨s.idleSeconds, k, rfl⟩
          exact .of_quiet id ⟨hthread.threads, hthread.base, hthread.noTask, hrounds.1, hlt⟩ rfl
        · cases h
    | loopStarted =>
        dsimp only at h
        split at h
        · rename_i i hmain
          obtain ⟨-, ht⟩ := Option.ite_none_right_eq_some.mp h
          cases ht
          have hrounds := hi.rounds
          rw [Rounds, hmain] at hrounds
          refine .of_quiet id ⟨hi.threads, hi.base, hi.noTask, ?_, hrounds.2⟩ rfl
          show s.loops ++ [i] = List.range (i + 1)
          rw [hrounds.1, List.range_succ]
        · cases h
    | serve =>
        dsimp only at h
        split at h
        · rename_i i hmain
          obtain ⟨hge, ht⟩ := Option.ite_none_left_eq_some.mp h
          cases ht
          have hrounds := hi.rounds
          rw [Rounds, hmain] at hrounds
          have hbase := hi.baseLoop (r := { s.reactor none with phase := .looping })
            hi.base hi.noTask
          refine .of_quiet id ⟨hbase.threads, hbase.base, hbase.noTask, ?_⟩ rfl
          have hn : i = s.numThreads := by omega
          exact hn ▸ hrounds.1
        · cases h
    | proceed i =>
        obtain ⟨r, hr, rfl⟩ := Option.map_eq_some_iff.mp h
        exact .of_quiet id (hi.thread (stage_proceed (hi.threads i) hr)) rfl
    | turn l a =>
        obtain ⟨⟨hloop, ha, -⟩, ht⟩ := Option.ite_none_right_eq_some.mp h
        obtain ⟨q, hq, rfl⟩ := Option.map_eq_some_iff.mp ht
        exact after_turn hi hloop ha hq
    | act l a =>
        obtain ⟨⟨hloop, -, -⟩, ht⟩ := Option.ite_none_right_eq_some.mp h
        obtain ⟨w, hw, rfl⟩ := Option.map_eq_some_iff.mp ht
        refine .of_quiet id ?_ rfl
        cases l with
        | none => exact hi.baseLoop hi.base hi.noTask
        | some i =>
            refine hi.thread ?_
            have hst := hi.threads i
            rw [Stage, hloop] at hst
            rw [Stage, hloop]
            exact ⟨hst.1, (free_act hw).symm ▸ hst.2⟩
    | accept connfd nonBlocking =>
        dsimp only at h
        split at h
        · rename_i hmain _
          exact after_handleNewConn hi hmain h
        · cases h
    | wakeup =>
        dsimp only at h
        split at h
        · rename_i i hmain
          cases h
          have hrounds := hi.rounds
          rw [Rounds, hmain] at hrounds
          have hthread := hi.thread (i := i) (r := { s.reactor (some i) with
            queue := TaskQueue.wakeup (s.reactor (some i)).queue (.foreign 0) }) (hi.threads i)
          exact .of_quiet id ⟨hthread.threads, hthread.base, hthread.noTask, hrounds⟩ rfl
        · cases h

theorem inv_start (numThreads : Nat) (idleSeconds baseIdleSeconds : Int) (k : Kernel) :
    Inv (start numThreads idleSeconds baseIdleSeconds k) :=
  ⟨fun _ => trivial, rfl, ⟨rfl, rfl⟩, rfl, Nat.zero_le _⟩

/-- Every call of `getNextFreeConnection` finds the pool of its loop built
exactly when there is an io thread, or no connection is handed on. -/
theorem ready_iff {numThreads : Nat} {idleSeconds baseIdleSeconds : Int} {k : Kernel}
    {acts : List Action}
    (hrun : exec step (start numThreads idleSeconds baseIdleSeconds k) acts = some s) :
    Throughout step Ready (start numThreads idleSeconds baseIdleSeconds k) acts ↔
      Meets step Served (start numThreads idleSeconds baseIdleSeconds k) acts :=
  throughout_iff_meets (fun _ _ _ hi hstep => (after_step hi hstep).inv)
    (fun _ _ _ hi hs hstep => (after_step hi hstep).ready hs) (inv_start ..) nofun hrun

end

/-- A connection is handed to the loop of the only io thread before its pool is
built. -/
def early : List Action :=
  [.startThread ⟨0, 6, 7, 8⟩, .proceed 0, .loopStarted, .serve, .turn none .test,
    .turn none (.poll [.other]), .turn none .handle, .accept 9 true, .wakeup] ++
  List.replicate 514 (.proceed 0) ++
  [.turn (some 0) .test, .turn (some 0) (.poll [.wakeup]), .turn (some 0) .handle,
    .turn (some 0) .handle, .turn (some 0) .swap, .turn (some 0) .run]

/-- It waits for the pool. -/
theorem ready_early : ∃ s, exec step (start 1 60 (-1) ⟨0, 3, 4, 5⟩) early = some s ∧
    s.calls = [⟨some 0, true, some 0⟩] ∧
    Throughout step Ready (start 1 60 (-1) ⟨0, 3, 4, 5⟩) early := by
  have hgo : (exec step (start 1 60 (-1) ⟨0, 3, 4, 5⟩) early).map State.calls =
      some [⟨some 0, true, some 0⟩] := by
    decide +kernel
  obtain ⟨s, hs, hcalls⟩ := Option.map_eq_some_iff.mp hgo
  exact ⟨s, hs, hcalls, (ready_iff hs).mpr (by decide +kernel)⟩

/-- Without io threads the first connection goes to the base loop, which has no
pool. -/
theorem ready_fails : ¬ ∀ (acts : List Action) (s : State),
    exec step (start 0 60 (-1) ⟨0, 3, 4, 5⟩) acts = some s → Ready s := by
  intro hall
  have hgo : (exec step (start 0 60 (-1) ⟨0, 3, 4, 5⟩)
      [.serve, .turn none .test, .turn none (.poll [.other]), .turn none .handle,
        .accept 9 true]).map State.calls = some [⟨none, false, none⟩] := by
    decide +kernel
  obtain ⟨s, hs, hcalls⟩ := Option.map_eq_some_iff.mp hgo
  have hready := hall _ s hs ⟨none, false, none⟩ (hcalls ▸ List.mem_cons_self)
  exact Bool.noConfusion hready.1

end StartUp

end WebServer

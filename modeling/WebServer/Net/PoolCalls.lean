/-
# `Net.PoolCalls` — the pool under any sequence of its two calls

`getNextFreeConnection` on any descriptors and `returnBackConnection` of active
connections, in any order, on a loop that has built its pool.  Nothing else is
assumed of the loop: the objects go back as they are, without `handleClose`, and
a descriptor may be given twice.

`Lent` is all that the two calls need of each other: a sound pool (`Net.Pool`)
and, with an idle list, a node in it for each active connection.  `onDemand`
counts the objects allocated because the chain was empty.
-/
import WebServer.Lib.Machine
import WebServer.Net.Sessions

namespace WebServer

namespace PoolCalls

open EventLoop Machine

structure State where
  loop : EventLoop
  onDemand : Nat

inductive Op where
  | getNextFreeConnection (connfd : Int)
  | returnBackConnection (c : ConnId)
  deriving DecidableEq

/-- The object that `getNextFreeConnection` returns. -/
def handedOut (w : EventLoop) : Option ConnId :=
  w.freeTcpConnection.map fun head => (w.takeFree head).2

def step (s : State) : Op → Option State
  | .getNextFreeConnection fd => do
      let head ← s.loop.freeTcpConnection
      let w ← s.loop.getNextFreeConnection fd
      some ⟨w, if (s.loop.conn head).nextTcpConn = none then s.onDemand + 1 else s.onDemand⟩
  | .returnBackConnection c =>
      if c ∈ s.loop.activeConnections then do
        let w ← s.loop.returnBackConnection c
        some { s with loop := w }
      else none

/-- A loop that has built its pool. -/
def start (idleSeconds now epollFd timerFd wakeupFd : Int) : State :=
  ⟨EventLoop.start idleSeconds now epollFd timerFd wakeupFd, 0⟩

/-! ## The invariant -/

structure Lent (s : State) : Prop where
  pool : s.loop.Pool
  timed : 0 < s.loop.idleSeconds → s.loop.Timed
  allocated : s.loop.allocated = MaxConnectionPoolSize + 1 + s.onDemand

theorem allocated_initConnectionPoolLoop (n : Nat) : ∀ (w : EventLoop) (tc : ConnId) (i : Nat),
    (w.initConnectionPoolLoop tc i n).allocated = w.allocated + n := by
  induction n with
  | zero => intro w tc i; rfl
  | succ n ih =>
      intro w tc i
      rw [initConnectionPoolLoop, ih]
      show w.allocated + 1 + n = w.allocated + (n + 1)
      rw [Nat.add_assoc, Nat.add_comm 1 n]

theorem allocated_start (idleSeconds now epollFd timerFd wakeupFd : Int) :
    (EventLoop.start idleSeconds now epollFd timerFd wakeupFd).allocated =
      MaxConnectionPoolSize + 1 := by
  rw [EventLoop.start, initConnectionPool, allocated_initConnectionPoolLoop, Nat.add_comm]
  rfl

theorem lent_start (idleSeconds now epollFd timerFd wakeupFd : Int) :
    Lent (start idleSeconds now epollFd timerFd wakeupFd) := by
  have hpool : (EventLoop.start idleSeconds now epollFd timerFd wakeupFd).Pool :=
    pool_initConnectionPool MaxConnectionPoolSize rfl rfl
  have hallocated := allocated_start idleSeconds now epollFd timerFd wakeupFd
  have hstarted := started_start idleSeconds now epollFd timerFd wakeupFd
  unfold start
  generalize EventLoop.start idleSeconds now epollFd timerFd wakeupFd = w at *
  exact ⟨hpool, fun _ => hstarted.timed, hallocated⟩

/-! ## The two calls -/

theorem roster_takeFree (w : EventLoop) (head : ConnId) :
    (w.takeFree head).1.roster =
      { w.roster with allocated := (w.takeFree head).1.allocated } := by
  unfold takeFree
  split <;> rfl

theorem allocated_takeFree (w : EventLoop) (head : ConnId) : (w.takeFree head).1.allocated =
    if (w.conn head).nextTcpConn = none then w.allocated + 1 else w.allocated := by
  unfold takeFree
  split
  · rename_i hnext
    rw [hnext, if_neg nofun]
    rfl
  · rename_i hnext
    rw [hnext, if_pos rfl]
    rfl

theorem timeNode_takeFree (w : EventLoop) (head : ConnId) {d : ConnId} (hd : d < w.allocated) :
    ((w.takeFree head).1.conn d).timeNode = (w.conn d).timeNode := by
  unfold takeFree
  split
  · rw [conn_setNextTcpConn, conn_setNextTcpConn]
  · show (Function.update w.heap w.allocated TcpConnection.new d).timeNode = _
    rw [Function.update_of_ne hd.ne]
    rfl

theorem timeNode_configEvent (w : EventLoop) (c : ConnId) :
    ((w.configEvent c).conn c).timeNode = (w.conn c).timeNode := by
  rw [configEvent, enableReading, conn_updateInterest_self, conn_updateChannel_self]

theorem timeNode_openSession (w : EventLoop) (c : ConnId) (fd : Int) (hidle : 0 < w.idleSeconds) :
    ((w.openSession c fd).conn c).timeNode = ⟨w.now, some w.nextPosition⟩ := by
  have hins : ∀ u : EventLoop, 0 < u.idleSeconds →
      ((u.insert c).conn c).timeNode = ⟨u.now, some u.nextPosition⟩ := by
    intro u hu
    rw [EventLoop.insert, if_neg (Int.not_le.mpr hu), conn_modify_self]
  rw [openSession_eq, timeNode_configEvent]
  exact hins _ hidle

theorem now_takeFree (w : EventLoop) (head : ConnId) : (w.takeFree head).1.now = w.now := by
  unfold takeFree
  split <;> rfl

theorem now_openSession (w : EventLoop) (c : ConnId) (fd : Int) :
    (w.openSession c fd).now = w.now := by
  have hcfg : ∀ u : EventLoop, (u.configEvent c).now = u.now := fun _ => rfl
  rw [openSession_eq, hcfg]
  unfold EventLoop.insert
  split <;> rfl

/-- What `getNextFreeConnection` does to the pool and to the idle list, when `c`
is the object it issues. -/
structure Issued (w : EventLoop) (c : ConnId) (w' : EventLoop) : Prop where
  fresh : c ∉ w.activeConnections
  pool : w'.Pool
  active : w'.activeConnections = w.activeConnections ++ [c]
  idleSeconds : w'.idleSeconds = w.idleSeconds
  now : w'.now = w.now
  list : 0 < w.idleSeconds →
    w'.connectionTimeList = w.connectionTimeList ++ [(w.nextPosition, c)]
  nextPosition : 0 < w.idleSeconds → w'.nextPosition = w.nextPosition + 1
  self : 0 < w.idleSeconds → (w'.conn c).timeNode = ⟨w.now, some w.nextPosition⟩
  same : ∀ d ∈ w.activeConnections, (w'.conn d).timeNode = (w.conn d).timeNode

theorem Issued.timed {w w' : EventLoop} {c : ConnId} (h : Issued w c w')
    (hidle : 0 < w.idleSeconds) (ht : w.Timed) : w'.Timed :=
  ht.enlist h.active (h.list hidle) (h.nextPosition hidle)
    (congrArg TimeNode.position (h.self hidle))
    fun d hd => congrArg TimeNode.position (h.same d hd)

theorem issued_getNextFreeConnection {w : EventLoop} {head : ConnId} {chain : List ConnId}
    (hhead : w.freeTcpConnection = some head)
    (hpool : Pooled w.next head chain w.activeConnections w.allocated) (fd : Int) :
    ∃ c w', w.getNextFreeConnection fd = some w' ∧ handedOut w = some c ∧ Issued w c w' ∧
      w'.allocated =
        if (w.conn head).nextTcpConn = none then w.allocated + 1 else w.allocated := by
  obtain ⟨hfresh, chain', hpool'⟩ := pool_takeFree hpool
  have hget : w.getNextFreeConnection fd =
      some ((w.takeFree head).1.openSession (w.takeFree head).2 fd) := by
    rw [getNextFreeConnection, hhead]
  have hout : handedOut w = some (w.takeFree head).2 := by
    rw [handedOut, hhead]
    rfl
  have hroster := roster_takeFree w head
  have hallocated := allocated_takeFree w head
  have hnow := now_takeFree w head
  have hnode : ∀ d ∈ w.activeConnections,
      ((w.takeFree head).1.conn d).timeNode = (w.conn d).timeNode := by
    intro d hd
    exact timeNode_takeFree w head (hpool.lt (List.mem_append_right _ hd))
  generalize (w.takeFree head).1 = v at *
  generalize (w.takeFree head).2 = c at *
  have hopen := (roster_openSession v c fd).trans (roster_insert_enlist v c fd)
  have hidle : v.idleSeconds = w.idleSeconds := congrArg Roster.idleSeconds hroster
  have hactive : v.activeConnections = w.activeConnections :=
    congrArg Roster.activeConnections hroster
  have hlist : v.connectionTimeList = w.connectionTimeList :=
    congrArg Roster.connectionTimeList hroster
  have hposition : v.nextPosition = w.nextPosition := congrArg Roster.nextPosition hroster
  have hfree : v.freeTcpConnection = w.freeTcpConnection :=
    congrArg Roster.freeTcpConnection hroster
  have hactive' : (v.openSession c fd).activeConnections = w.activeConnections ++ [c] := by
    rw [← hactive]
    exact congrArg Roster.activeConnections hopen
  have hallocated' : (v.openSession c fd).allocated = v.allocated :=
    congrArg Roster.allocated hopen
  have hwith : 0 < w.idleSeconds → ¬v.idleSeconds ≤ 0 := by
    intro hpos
    rw [hidle]
    exact Int.not_le.mpr hpos
  refine ⟨c, v.openSession c fd, hget, hout, ?_, hallocated'.trans hallocated⟩
  refine
    { fresh := hfresh
      pool := ⟨head, chain', ?_, ?_⟩
      active := hactive'
      idleSeconds := (congrArg Roster.idleSeconds hopen).trans hidle
      now := (now_openSession v c fd).trans hnow
      list := ?_, nextPosition := ?_, self := ?_, same := ?_ }
  · exact ((congrArg Roster.freeTcpConnection hopen).trans hfree).trans hhead
  · rw [next_openSession, hactive', hallocated']
    exact hpool'
  · intro hpos
    rw [← hlist, ← hposition]
    exact (congrArg Roster.connectionTimeList hopen).trans (if_neg (hwith hpos))
  · intro hpos
    rw [← hposition]
    exact (congrArg Roster.nextPosition hopen).trans (if_neg (hwith hpos))
  · intro hpos
    rw [timeNode_openSession v c fd (hidle ▸ hpos), hnow, hposition]
  · intro d hd
    have hdc : d ≠ c := fun e => hfresh (e ▸ hd)
    rw [conn_openSession_ne hdc, hnode d hd]

variable {s s' : State}

/-- What `getNextFreeConnection` does to a loop whose objects are `Lent`. -/
theorem lent_getNextFreeConnection (hs : Lent s) (fd : Int) :
    ∃ s' c, step s (.getNextFreeConnection fd) = some s' ∧ Lent s' ∧
      handedOut s.loop = some c ∧ c ∉ s.loop.activeConnections ∧
      s'.loop.activeConnections = s.loop.activeConnections ++ [c] := by
  obtain ⟨head, chain, hhead, hpool⟩ := hs.pool
  obtain ⟨c, w, hget, hout, hiss, hallocated⟩ := issued_getNextFreeConnection hhead hpool fd
  refine ⟨⟨w, if (s.loop.conn head).nextTcpConn = none then s.onDemand + 1 else s.onDemand⟩, c,
    ?_, ⟨hiss.pool, ?_, ?_⟩, hout, hiss.fresh, hiss.active⟩
  · rw [step, hhead, hget]
    rfl
  · intro hpos
    have hidle : 0 < s.loop.idleSeconds := hiss.idleSeconds ▸ hpos
    exact hiss.timed hidle (hs.timed hidle)
  · show w.allocated = _
    rw [hallocated, hs.allocated]
    split <;> rfl

/-- An active connection goes back, and its node leaves the idle list. -/
theorem returned_of_active {w : EventLoop} {c : ConnId} (hpool : w.Pool)
    (ht : 0 < w.idleSeconds → w.Timed) (hc : c ∈ w.activeConnections) :
    ∃ w', w.returnBackConnection c = some w' ∧ Returned w c w' ∧
      (0 < w.idleSeconds → w'.Timed) := by
  have hnode : 0 < w.idleSeconds → (w.nodeAt (w.conn c).timeNode.position).isSome := by
    intro hidle
    obtain ⟨p, hp, hmem⟩ := (ht hidle).entry c hc
    rw [hp, nodeAt_eq_some (ht hidle) hmem]
    rfl
  obtain ⟨w', hw', hret⟩ := returnBackConnection_returned hpool hc hnode
  obtain ⟨head, chain, -, hpooled⟩ := hpool
  refine ⟨w', hw', hret, ?_⟩
  intro hidle
  refine (ht hidle).delist hpooled.active_nodup hc hret.active (hret.list hidle)
    hret.nextPosition ?_
  intro d _ _
  obtain ⟨n, hn⟩ := hret.heap d
  rw [hn]

theorem lent_returnBackConnection (hs : Lent s) {c : ConnId} (hc : c ∈ s.loop.activeConnections) :
    ∃ s', step s (.returnBackConnection c) = some s' ∧ Lent s' := by
  obtain ⟨w, hw, hret, htimed⟩ := returned_of_active hs.pool hs.timed hc
  refine ⟨{ s with loop := w }, ?_, hret.pool, ?_, hret.allocated.trans hs.allocated⟩
  · rw [step, if_pos hc, hw]
    rfl
  · intro hpos
    exact htimed (hret.idleSeconds ▸ hpos)

theorem step_lent (hs : Lent s) {op : Op} (h : step s op = some s') : Lent s' := by
  cases op with
  | getNextFreeConnection fd =>
      obtain ⟨t, c, ht, hlent, -⟩ := lent_getNextFreeConnection hs fd
      exact Option.some.inj (ht.symm.trans h) ▸ hlent
  | returnBackConnection c =>
      have hc := (Option.ite_none_right_eq_some.mp h).1
      obtain ⟨t, ht, hlent⟩ := lent_returnBackConnection hs hc
      exact Option.some.inj (ht.symm.trans h) ▸ hlent

/-! ## Every run -/

/-- The chain from `freeTcpConnection_`, and the active connections. -/
structure Accounted (s : State) (head : ConnId) (chain : List ConnId) : Prop where
  free : s.loop.freeTcpConnection = some head
  linked : Chain.Linked s.loop.next head chain
  acyclic : (head :: chain).Nodup
  activeOnce : s.loop.activeConnections.Nodup
  apart : ∀ c ∈ s.loop.activeConnections, c ∉ head :: chain
  noNext : ∀ c ∈ s.loop.activeConnections, (s.loop.conn c).nextTcpConn = none
  all : chain.length + s.loop.activeConnections.length = MaxConnectionPoolSize + s.onDemand

/-- After any sequence of the two calls the pool is accounted for, and either
call goes through again; the object handed out was not active. -/
theorem never_shared {idleSeconds now epollFd timerFd wakeupFd : Int}
    (h : Reachable step (start idleSeconds now epollFd timerFd wakeupFd) s) :
    (∃ head chain, Accounted s head chain) ∧
      (∀ fd, ∃ s' c, step s (.getNextFreeConnection fd) = some s' ∧
        handedOut s.loop = some c ∧ c ∉ s.loop.activeConnections ∧
        s'.loop.activeConnections = s.loop.activeConnections ++ [c]) ∧
      ∀ c ∈ s.loop.activeConnections, ∃ s', step s (.returnBackConnection c) = some s' := by
  have hs : Lent s := h.invariant (fun _ _ _ hs hstep => step_lent hs hstep) (lent_start ..)
  refine ⟨?_, ?_, ?_⟩
  · obtain ⟨head, chain, hfree, hpool⟩ := hs.pool
    refine ⟨head, chain, hfree, hpool.linked, hpool.linked.nodup, hpool.active_nodup, ?_,
      hpool.noNext, ?_⟩
    · intro c hc hmem
      exact hpool.apart hmem hc
    · have hcount := hpool.count
      rw [hs.allocated] at hcount
      omega
  · intro fd
    obtain ⟨s', c, hstep, -, hout, hfresh, hactive⟩ := lent_getNextFreeConnection hs fd
    exact ⟨s', c, hstep, hout, hfresh, hactive⟩
  · intro c hc
    obtain ⟨s', hstep, -⟩ := lent_returnBackConnection hs hc
    exact ⟨s', hstep⟩

/-- Two objects are handed out, the first goes back and is handed out again. -/
theorem never_shared_reuse : ∃ s, exec step (start 60 0 3 4 5)
      [.getNextFreeConnection 7, .getNextFreeConnection 8, .returnBackConnection 1,
        .getNextFreeConnection 7] = some s ∧
    s.loop.activeConnections = [2, 1] ∧ ∃ head chain, Accounted s head chain := by
  have hactive : (exec step (start 60 0 3 4 5)
      [.getNextFreeConnection 7, .getNextFreeConnection 8, .returnBackConnection 1,
        .getNextFreeConnection 7]).map (fun s => s.loop.activeConnections) = some [2, 1] := by
    decide +kernel
  obtain ⟨s, hrun, hs⟩ := Option.map_eq_some_iff.mp hactive
  exact ⟨s, hrun, hs, (never_shared ⟨_, hrun⟩).1⟩

end PoolCalls

end WebServer

/-
# `Net.IdleCalls` — the idle list under any sequence of calls

Connections are issued, heard of, shut down and given back in any order, the
scan runs at any time, and the clock does not go back.  Nothing else is assumed
of the loop: a connection may go back while it is connected, and be issued
again.

`Listed` is the invariant: a sound pool, an entry for each active connection,
and the entries in order (`Net.Idle`).  What the iterators stored in the time
nodes designate is part of it, so that `splice` and `erase` find their nodes;
and the order is what the early `break` of the scan needs.  `list_and_scan`
reads both off it, for the state after any run.
-/
import WebServer.Net.Idle

namespace WebServer

namespace IdleCalls

open EventLoop Machine Idle

inductive Op where
  | getNextFreeConnection (connfd : Int)
  | updateIdleTimeList (c : ConnId)
  | returnBackConnection (c : ConnId)
  | shutdown (c : ConnId)
  | removeExpiredConnection
  | tick (dt : Nat)
  deriving DecidableEq

/-- Only an active connection is heard of, and given back. -/
def Allowed (w : EventLoop) : Op → Prop
  | .updateIdleTimeList c => c ∈ w.activeConnections
  | .returnBackConnection c => c ∈ w.activeConnections
  | _ => True

instance (w : EventLoop) (op : Op) : Decidable (Allowed w op) :=
  match op with
  | .updateIdleTimeList c => inferInstanceAs (Decidable (c ∈ w.activeConnections))
  | .returnBackConnection c => inferInstanceAs (Decidable (c ∈ w.activeConnections))
  | .getNextFreeConnection _ => inferInstanceAs (Decidable True)
  | .shutdown _ => inferInstanceAs (Decidable True)
  | .removeExpiredConnection => inferInstanceAs (Decidable True)
  | .tick _ => inferInstanceAs (Decidable True)

def run (w : EventLoop) : Op → Option EventLoop
  | .getNextFreeConnection fd => w.getNextFreeConnection fd
  | .updateIdleTimeList c => w.updateIdleTimeList c
  | .returnBackConnection c => w.returnBackConnection c
  | .shutdown c => some (w.shutdown c)
  | .removeExpiredConnection => some w.removeExpiredConnection
  | .tick dt => some { w with now := w.now + dt }

def step (w : EventLoop) (op : Op) : Option EventLoop :=
  if Allowed w op then run w op else none

/-! ## What the list is to be -/

/-- A `shared_ptr` to the object is held: by the active vector, as the head of
the pool, or by an object that is held itself. -/
inductive Held (w : EventLoop) : ConnId → Prop
  | active {c : ConnId} : c ∈ w.activeConnections → Held w c
  | free {c : ConnId} : w.freeTcpConnection = some c → Held w c
  | next {c d : ConnId} : Held w d → (w.conn d).nextTcpConn = some c → Held w c

/-- The idle list represents the active connections. -/
structure Represents (w : EventLoop) : Prop where
  /-- one entry for each active connection -/
  entries : (w.connectionTimeList.map Prod.snd).Perm w.activeConnections
  once : w.activeConnections.Nodup
  /-- every object allocated is alive, those of the entries among them -/
  alive : ∀ c < w.allocated, Held w c
  locks : ∀ e ∈ w.connectionTimeList, e.2 < w.allocated
  position : ∀ c ∈ w.activeConnections,
    ∃ p, (w.conn c).timeNode.position = some p ∧ w.nodeAt (some p) = some (p, c)
  sorted : w.connectionTimeList.Pairwise fun e f =>
    lastReceiveTime w e.2 ≤ lastReceiveTime w f.2

/-- A scan calls `shutdown()` and schedules a forced close, once each, on the
active connections that are connected and have expired, and does nothing else. -/
structure Scans (w : EventLoop) : Prop where
  calls : w.removeExpiredConnection = (toExpel w).foldl expel w
  exactly : ∀ c, c ∈ toExpel w ↔
    c ∈ w.activeConnections ∧ Expired w c ∧ (w.conn c).connected = true
  once : (toExpel w).Nodup
  effect : Expelled w w.removeExpiredConnection (toExpel w)

/-! ## The invariant -/

structure Listed (w : EventLoop) : Prop where
  idle : 0 < w.idleSeconds
  pool : w.Pool
  timed : w.Timed
  inOrder : InOrder w

variable {w w' : EventLoop} {c : ConnId}

/-- What leaves the pool and the idle list alone. -/
structure Calm (w w' : EventLoop) : Prop where
  roster : w'.roster = w.roster
  next : w'.next = w.next
  node : ∀ c, (w'.conn c).timeNode = (w.conn c).timeNode
  now : w.now ≤ w'.now

namespace Listed

theorem calm (h : Listed w) (hc : Calm w w') : Listed w' := by
  have hactive : w'.activeConnections = w.activeConnections :=
    congrArg Roster.activeConnections hc.roster
  have hlist : w'.connectionTimeList = w.connectionTimeList :=
    congrArg Roster.connectionTimeList hc.roster
  have hposition : w'.nextPosition = w.nextPosition := congrArg Roster.nextPosition hc.roster
  have hidle : w'.idleSeconds = w.idleSeconds := congrArg Roster.idleSeconds hc.roster
  have hallocated : w'.allocated = w.allocated := congrArg Roster.allocated hc.roster
  obtain ⟨head, chain, hhead, hpool⟩ := h.pool
  refine ⟨hidle ▸ h.idle,
    ⟨head, chain, (congrArg Roster.freeTcpConnection hc.roster).trans hhead, ?_⟩, ?_, ?_⟩
  · rw [hc.next, hactive, hallocated]
    exact hpool
  · constructor
    · exact hlist ▸ h.timed.nodes
    · rw [hlist, hposition]
      exact h.timed.fresh
    · intro c hact
      rw [hc.node, hlist]
      exact h.timed.entry c (hactive ▸ hact)
    · intro e he
      rw [hc.node, hactive]
      exact h.timed.owner e (hlist ▸ he)
  · exact h.inOrder.sublist (hlist ▸ List.Sublist.refl _)
      (fun d => congrArg TimeNode.lastReceiveTime (hc.node d)) hc.now

theorem getNextFreeConnection (h : Listed w) (fd : Int) :
    ∃ w', w.getNextFreeConnection fd = some w' ∧ Listed w' := by
  obtain ⟨head, chain, hhead, hpool⟩ := h.pool
  obtain ⟨c, w', hget, -, hi, -⟩ := PoolCalls.issued_getNextFreeConnection hhead hpool fd
  exact ⟨w', hget, hi.idleSeconds ▸ h.idle, hi.pool, hi.timed h.idle h.timed,
    inOrder_issued h.inOrder h.idle h.timed hi⟩

theorem updateIdleTimeList (h : Listed w) (hc : c ∈ w.activeConnections) :
    ∃ w', w.updateIdleTimeList c = some w' ∧ Listed w' := by
  obtain ⟨p, hp, hmem, heq⟩ := updateIdleTimeList_eq h.idle h.timed hc
  have hq : Quiet w (w.touch p c) := quiet_touch h.timed hmem
  exact ⟨w.touch p c, heq, h.idle, hq.pool h.pool, hq.timed h.timed,
    inOrder_touch h.inOrder h.timed hp hc⟩

theorem returnBackConnection (h : Listed w) (hc : c ∈ w.activeConnections) :
    ∃ w', w.returnBackConnection c = some w' ∧ Listed w' := by
  obtain ⟨w', hw', hret, htimed⟩ := PoolCalls.returned_of_active h.pool (fun _ => h.timed) hc
  refine ⟨w', hw', hret.idleSeconds ▸ h.idle, hret.pool, htimed h.idle, ?_⟩
  refine h.inOrder.sublist (hret.list h.idle ▸ List.filter_sublist) ?_
    (Int.le_of_eq (now_returnBackConnection hw').symm)
  intro d
  obtain ⟨n, hn⟩ := hret.heap d
  rw [lastReceiveTime, hn]
  rfl

theorem scan (h : Listed w) :
    Still w w.removeExpiredConnection ∧ Expelled w w.removeExpiredConnection (toExpel w) :=
  expelled_removeExpiredConnection h.idle h.pool h.timed h.inOrder

end Listed

theorem calm_shutdown : Calm w (w.shutdown c) := by
  have hown : Own c w (w.shutdown c) := own_shutdown
  refine ⟨(congrArg EventLoop.roster (shutdown_frame w c) :), ?_, hown.node,
    Int.le_of_eq hown.now.symm⟩
  funext d
  exact congrArg Identity.next (hown.identity d)

theorem calm_scan (h : Listed w) : Calm w w.removeExpiredConnection := by
  obtain ⟨hst, hex⟩ := h.scan
  refine ⟨(congrArg EventLoop.roster hex.frame :), ?_, hst.node, Int.le_of_eq hst.now.symm⟩
  funext d
  by_cases hd : d ∈ toExpel w
  · exact (congrArg TcpConnection.nextTcpConn (hex.down d hd) :)
  · exact congrArg TcpConnection.nextTcpConn (hex.rest d hd)

/-- Every call that is allowed goes through, and keeps the invariant. -/
theorem step_listed (h : Listed w) {op : Op} (ha : Allowed w op) :
    ∃ w', step w op = some w' ∧ Listed w' := by
  rw [step, if_pos ha]
  cases op with
  | getNextFreeConnection fd => exact h.getNextFreeConnection fd
  | updateIdleTimeList c => exact h.updateIdleTimeList ha
  | returnBackConnection c => exact h.returnBackConnection ha
  | shutdown c => exact ⟨_, rfl, h.calm calm_shutdown⟩
  | removeExpiredConnection => exact ⟨_, rfl, h.calm (calm_scan h)⟩
  | tick dt => exact ⟨_, rfl, h.calm ⟨rfl, rfl, fun _ => rfl, Int.le_add_of_nonneg_right
      (Int.natCast_nonneg dt)⟩⟩

/-! ## What the invariant says -/

/-- The head of the pool keeps the whole chain alive. -/
theorem held_chain {chain : List ConnId} : ∀ {head : ConnId}, Held w head →
    Chain.Linked w.next head chain → ∀ c ∈ chain, Held w c := by
  induction chain with
  | nil =>
      intro head _ _ c hc
      exact absurd hc List.not_mem_nil
  | cons d chain ih =>
      intro head hh hl c hc
      have hd : Held w d := .next hh hl.1
      rcases List.mem_cons.mp hc with rfl | hc
      · exact hd
      · exact ih hd hl.2 c hc

theorem Listed.represents (h : Listed w) : Represents w := by
  obtain ⟨head, chain, hhead, hpool⟩ := h.pool
  refine ⟨?_, hpool.active_nodup, ?_, ?_, ?_, h.inOrder.sorted⟩
  · refine (List.perm_ext_iff_of_nodup (owners_nodup h.timed) hpool.active_nodup).mpr ?_
    intro c
    exact mem_owners h.timed
  · intro c hc
    rcases List.mem_append.mp (hpool.all.mem_iff.mpr (List.mem_range.mpr hc)) with hfree | hact
    · have hh : Held w head := .free hhead
      rcases List.mem_cons.mp hfree with rfl | hfree
      · exact hh
      · exact held_chain hh hpool.linked c hfree
    · exact .active hact
  · intro e he
    exact hpool.lt (List.mem_append_right _ (h.timed.owner e he).1)
  · intro c hc
    obtain ⟨p, hp, hmem⟩ := h.timed.entry c hc
    exact ⟨p, hp, nodeAt_eq_some h.timed hmem⟩

theorem Listed.scans (h : Listed w) : Scans w where
  calls := removeExpiredConnection_eq h.idle h.pool h.timed h.inOrder
  exactly := fun _ => mem_toExpel h.timed
  once := (owners_nodup h.timed).filter _
  effect := h.scan.2

theorem listed_start {idleSeconds now epollFd timerFd wakeupFd : Int} (hidle : 0 < idleSeconds) :
    Listed (EventLoop.start idleSeconds now epollFd timerFd wakeupFd) := by
  have hlent := PoolCalls.lent_start idleSeconds now epollFd timerFd wakeupFd
  have hstarted := started_start idleSeconds now epollFd timerFd wakeupFd
  unfold PoolCalls.start at hlent
  generalize EventLoop.start idleSeconds now epollFd timerFd wakeupFd = w at *
  have hpos : 0 < w.idleSeconds := hstarted.idleSeconds ▸ hidle
  refine ⟨hpos, hlent.pool, hlent.timed hpos, ?_, ?_⟩
  · rw [hstarted.connectionTimeList]
    exact List.Pairwise.nil
  · rw [hstarted.connectionTimeList]
    exact fun e he => absurd he List.not_mem_nil

/-- After any sequence of the calls the idle list represents the active
connections, a scan expels those that are connected and have expired, and every
call that is allowed goes through. -/
theorem list_and_scan {idleSeconds now epollFd timerFd wakeupFd : Int} (hidle : 0 < idleSeconds)
    (h : Reachable step (EventLoop.start idleSeconds now epollFd timerFd wakeupFd) w) :
    Represents w ∧ Scans w ∧ ∀ op, Allowed w op → ∃ w', step w op = some w' := by
  have hl : Listed w := by
    refine h.invariant ?_ (listed_start hidle)
    intro v op v' hv hstep
    obtain ⟨u, hu, hlisted⟩ := step_listed hv (Option.ite_none_right_eq_some.mp hstep).1
    exact Option.some.inj (hu.symm.trans hstep) ▸ hlisted
  refine ⟨hl.represents, hl.scans, ?_⟩
  intro op ha
  obtain ⟨w', hw', -⟩ := step_listed hl ha
  exact ⟨w', hw'⟩

/-- Two connections, of which the first is heard of again: the scan expels the
second. -/
theorem list_and_scan_two : ∃ w, exec step (EventLoop.start 1 0 3 4 5)
      [.getNextFreeConnection 7, .getNextFreeConnection 8, .tick 600000, .updateIdleTimeList 1,
        .tick 600000] = some w ∧
    toExpel w = [2] ∧ Represents w ∧ Scans w := by
  have hgo : (exec step (EventLoop.start 1 0 3 4 5)
      [.getNextFreeConnection 7, .getNextFreeConnection 8, .tick 600000, .updateIdleTimeList 1,
        .tick 600000]).map toExpel = some [2] := by
    decide +kernel
  obtain ⟨w, hw, hexpel⟩ := Option.map_eq_some_iff.mp hgo
  obtain ⟨hrep, hscan, -⟩ := list_and_scan (by decide) ⟨_, hw⟩
  exact ⟨w, hw, hexpel, hrep, hscan⟩

end IdleCalls

end WebServer

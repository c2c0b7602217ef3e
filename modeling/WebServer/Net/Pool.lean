/-
# `Net.Pool` — the free chain and the active vector own every object once

The `TcpConnection` objects of a loop are the chain's head, the free ones
behind it, and the active ones.  `Pooled` says it of the links, the chain, the
active vector and the number of objects allocated: the chain is sound, an
active object points nowhere, and chain and vector together are the objects
`0, …, n-1`, each once.  Its three rules are about those values alone: a new
object is made active (`Pooled.fresh`), the node behind the head is
(`Pooled.take`), an active one goes back behind the head (`Pooled.giveBack`).

`Pool w` is the same of a loop.  `initConnectionPool` establishes it
(`pool_initConnectionPool`); the two calls that move an object keep it
(`pool_takeFree`, `pool_giveBack`).
-/
import Mathlib.Data.List.Perm.Basic
import Mathlib.Data.List.Range
import WebServer.Lib.Chain
import WebServer.Net.EventLoop

namespace WebServer

/-! ## The pool as values -/

structure Pooled (next : ConnId → Option ConnId) (head : ConnId) (chain active : List ConnId)
    (n : Nat) : Prop where
  linked : Chain.Linked next head chain
  noNext : ∀ c ∈ active, next c = none
  all : (head :: chain ++ active).Perm (List.range n)

namespace Pooled

variable {next : ConnId → Option ConnId} {head tc : ConnId} {chain active : List ConnId} {n : Nat}

theorem once (h : Pooled next head chain active n) : (head :: chain ++ active).Nodup :=
  h.all.nodup_iff.mpr List.nodup_range

theorem active_nodup (h : Pooled next head chain active n) : active.Nodup :=
  (List.nodup_append.mp h.once).2.1

theorem apart (h : Pooled next head chain active n) {c : ConnId} (hc : c ∈ head :: chain) :
    c ∉ active :=
  fun hact => (List.nodup_append.mp h.once).2.2 c hc c hact rfl

theorem lt (h : Pooled next head chain active n) {c : ConnId}
    (hc : c ∈ head :: chain ++ active) : c < n :=
  List.mem_range.mp (h.all.mem_iff.mp hc)

/-- The objects behind the head and the active ones are all but one. -/
theorem count (h : Pooled next head chain active n) : chain.length + active.length + 1 = n := by
  have hlen := h.all.length_eq
  simp only [List.length_append, List.length_cons, List.length_range] at hlen
  omega

theorem fresh (h : Pooled next head [] active n) :
    Pooled (Function.update next n none) head [] (active ++ [n]) (n + 1) := by
  have hold : ∀ c ∈ head :: [] ++ active, Function.update next n none c = next c := fun c hc =>
    Function.update_of_ne (Nat.ne_of_lt (h.lt hc)) _ _
  refine ⟨(hold head (List.mem_append_left _ List.mem_cons_self)).trans h.linked, ?_, ?_⟩
  · intro c hc
    rcases List.mem_append.mp hc with hact | hnew
    · exact (hold c (List.mem_append_right _ hact)).trans (h.noNext c hact)
    · rw [List.mem_singleton.mp hnew, Function.update_self]
  · rw [List.range_succ, ← List.append_assoc]
    exact h.all.append_right [n]

theorem take (h : Pooled next head (tc :: chain) active n) :
    Pooled (Function.update (Function.update next head (next tc)) tc none) head chain
      (active ++ [tc]) n := by
  obtain ⟨hhead, hrest⟩ := List.nodup_cons.mp h.linked.nodup
  obtain ⟨htc, -⟩ := List.nodup_cons.mp hrest
  have hne : head ≠ tc := fun e => hhead (e ▸ List.mem_cons_self)
  refine ⟨h.linked.pop ?_ ?_, ?_, ?_⟩
  · rw [Function.update_of_ne hne, Function.update_self]
  · intro a ha
    have hatc : a ≠ tc := fun e => htc (e ▸ ha)
    have hah : a ≠ head := fun e => hhead (e ▸ List.mem_cons_of_mem _ ha)
    rw [Function.update_of_ne hatc, Function.update_of_ne hah]
  · intro c hc
    by_cases hctc : c = tc
    · rw [hctc, Function.update_self]
    · have hact : c ∈ active :=
        (List.mem_append.mp hc).resolve_right fun hnew => hctc (List.mem_singleton.mp hnew)
      have hch : c ≠ head := fun e => h.apart List.mem_cons_self (e ▸ hact)
      rw [Function.update_of_ne hctc, Function.update_of_ne hch, h.noNext c hact]
  · refine List.Perm.trans ?_ h.all
    refine List.Perm.cons head ?_
    show (chain ++ (active ++ [tc])).Perm (tc :: (chain ++ active))
    rw [← List.append_assoc]
    exact List.perm_append_singleton tc (chain ++ active)

theorem giveBack (h : Pooled next head chain active n) (hact : tc ∈ active) :
    Pooled (Function.update (Function.update next tc (next head)) head (some tc)) head (tc :: chain)
      (active.erase tc) n := by
  have htc : tc ∉ head :: chain := fun hc => h.apart hc hact
  have hne : tc ≠ head := fun e => htc (e ▸ List.mem_cons_self)
  have hhead : head ∉ chain := (List.nodup_cons.mp h.linked.nodup).1
  refine ⟨h.linked.push htc ?_ ?_ ?_, ?_, ?_⟩
  · rw [Function.update_self]
  · rw [Function.update_of_ne hne, Function.update_self]
  · intro a ha
    have hah : a ≠ head := fun e => hhead (e ▸ ha)
    have hatc : a ≠ tc := fun e => htc (e ▸ List.mem_cons_of_mem _ ha)
    rw [Function.update_of_ne hah, Function.update_of_ne hatc]
  · intro c hc
    obtain ⟨hctc, hc⟩ := h.active_nodup.mem_erase_iff.mp hc
    have hch : c ≠ head := fun e => h.apart List.mem_cons_self (e ▸ hc)
    rw [Function.update_of_ne hch, Function.update_of_ne hctc, h.noNext c hc]
  · refine List.Perm.trans (List.Perm.cons head ?_) h.all
    have hperm : (tc :: chain ++ active.erase tc).Perm (chain ++ tc :: active.erase tc) :=
      List.perm_middle.symm
    exact hperm.trans ((List.perm_cons_erase hact).symm.append_left chain)

/-- A node hung on the end of the chain, a new object. -/
theorem extend (h : Pooled next head chain [] n) {last : ConnId}
    (hlast : (head :: chain).getLast? = some last) :
    Pooled (Function.update (Function.update next n none) last (some n)) head (chain ++ [n]) []
      (n + 1) := by
  have hlt : ∀ c ∈ head :: chain, c ≠ n := fun c hc =>
    Nat.ne_of_lt (h.lt (List.mem_append_left _ hc))
  have hlastn : last ≠ n := hlt last (List.mem_of_getLast? hlast)
  refine ⟨h.linked.snoc hlast ?_ ?_ ?_, fun c hc => absurd hc List.not_mem_nil, ?_⟩
  · rw [Function.update_self]
  · rw [Function.update_of_ne hlastn.symm, Function.update_self]
  · intro a ha hal
    rw [Function.update_of_ne hal, Function.update_of_ne (hlt a ha)]
  · have hall := h.all.append_right [n]
    rw [← List.range_succ] at hall
    simpa using hall

end Pooled

namespace EventLoop

/-- The links of the heap. -/
def next (w : EventLoop) (c : ConnId) : Option ConnId := (w.conn c).nextTcpConn

/-- The pool of the loop is sound. -/
def Pool (w : EventLoop) : Prop :=
  ∃ head chain, w.freeTcpConnection = some head ∧
    Pooled w.next head chain w.activeConnections w.allocated

/-! ## What the operations do to the links -/

theorem next_modify (w : EventLoop) (c : ConnId) {f : TcpConnection → TcpConnection}
    (hf : (f (w.conn c)).nextTcpConn = (w.conn c).nextTcpConn) : (w.modify c f).next = w.next := by
  funext d
  by_cases hd : d = c
  · subst hd
    rw [next, conn_modify_self, hf]
    rfl
  · rw [next, conn_modify_ne w f hd]
    rfl

theorem next_setNextTcpConn (w : EventLoop) (c : ConnId) (n : Option ConnId) :
    (w.setNextTcpConn c n).next = Function.update w.next c n := by
  funext d
  by_cases hd : d = c
  · subst hd
    rw [Function.update_self, next, setNextTcpConn, conn_modify_self]
  · rw [Function.update_of_ne hd, next, setNextTcpConn, conn_modify_ne w _ hd]
    rfl

theorem next_allocate (w : EventLoop) :
    w.allocate.next = Function.update w.next w.allocated none := by
  funext d
  by_cases hd : d = w.allocated
  · subst hd
    simp [next, conn, allocate, TcpConnection.new]
  · simp [next, conn, allocate, Function.update_of_ne hd]

/-! ## The calls that move an object -/

/-- The object handed out was not active, and counted as active it leaves a
sound pool. -/
theorem pool_takeFree {w : EventLoop} {head : ConnId} {chain : List ConnId}
    (h : Pooled w.next head chain w.activeConnections w.allocated) :
    (w.takeFree head).2 ∉ w.activeConnections ∧
      ∃ chain', Pooled (w.takeFree head).1.next head chain'
        (w.activeConnections ++ [(w.takeFree head).2]) (w.takeFree head).1.allocated := by
  have hhead : w.next head = chain.head? := h.linked.head?
  cases chain with
  | nil =>
      have hnone : (w.conn head).nextTcpConn = none := hhead
      simp only [takeFree, hnone]
      refine ⟨?_, [], ?_⟩
      · intro hmem
        exact Nat.lt_irrefl _ (h.lt (List.mem_append_right _ hmem))
      · rw [next_allocate]
        exact h.fresh
  | cons tc chain =>
      have hsome : (w.conn head).nextTcpConn = some tc := hhead
      simp only [takeFree, hsome]
      refine ⟨h.apart (List.mem_cons_of_mem _ List.mem_cons_self), chain, ?_⟩
      rw [next_setNextTcpConn, next_setNextTcpConn]
      exact h.take

/-- Putting `c` behind the head. -/
theorem pool_giveBack {w : EventLoop} {head c : ConnId} {chain : List ConnId}
    (h : Pooled w.next head chain w.activeConnections w.allocated)
    (hc : c ∈ w.activeConnections) :
    Pooled ((w.setNextTcpConn c (w.conn head).nextTcpConn).setNextTcpConn head (some c)).next head
      (c :: chain) (w.activeConnections.erase c) w.allocated := by
  rw [next_setNextTcpConn, next_setNextTcpConn]
  exact h.giveBack hc

/-! ## The pool at the start -/

theorem pool_initConnectionPoolLoop {w : EventLoop} {head tc : ConnId} {chain : List ConnId}
    (n i : Nat) (h : Pooled w.next head chain [] w.allocated)
    (hlast : (head :: chain).getLast? = some tc) (hact : w.activeConnections = [])
    (hfree : w.freeTcpConnection = some head) : (w.initConnectionPoolLoop tc i n).Pool := by
  induction n generalizing w tc chain i with
  | zero => exact ⟨head, chain, hfree, by rw [initConnectionPoolLoop, hact]; exact h⟩
  | succ n ih =>
      have hnext := h.extend hlast
      have hend : (head :: (chain ++ [w.allocated])).getLast? = some w.allocated := by
        rw [← List.cons_append, List.getLast?_concat]
      refine ih (i + 1) ?_ hend hact hfree
      rw [next_setNextTcpConn, next_modify _ _ rfl, next_allocate]
      exact hnext

theorem pool_initConnectionPool {w : EventLoop} (size : Nat) (h : w.allocated = 0)
    (hact : w.activeConnections = []) : (w.initConnectionPool size).Pool := by
  have hlast : ([w.allocated] : List ConnId).getLast? = some w.allocated := rfl
  refine pool_initConnectionPoolLoop size 0 ?_ hlast hact rfl
  refine ⟨?_, fun c hc => absurd hc List.not_mem_nil, ?_⟩
  · show w.allocate.next w.allocated = none
    rw [next_allocate, Function.update_self]
  · show ([w.allocated] : List ConnId).Perm (List.range (w.allocated + 1))
    rw [h]
    exact List.Perm.refl _

end EventLoop

end WebServer

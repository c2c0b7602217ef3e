/-
# `Net.Recycle` — how many objects a loop makes, and which it uses again

`getNextFreeConnection` takes the object behind the head of the chain, or makes
one; `returnBackConnection` puts one there.  So the chain is a stack, on top of
the objects of `initConnectionPool` that no session has had yet, in the order in
which they were made (`Stacked`).  Over a run of the loop's thread the objects
that have had a session are then as few as they can be: as many as there have
been sessions at once (`fewest_objects`).
-/
import WebServer.Lib.Peak
import WebServer.Net.LoopFds
import WebServer.Net.PoolCalls

namespace WebServer

namespace EventLoop

open Machine

variable {w w' : EventLoop} {head c : ConnId} {chain : List ConnId}

/-! ## The chain, exactly -/

theorem pooled_takeFree (h : Pooled w.next head chain w.activeConnections w.allocated) :
    Pooled (w.takeFree head).1.next head chain.tail
      (w.activeConnections ++ [(w.takeFree head).2]) (w.takeFree head).1.allocated ∧
    (w.takeFree head).2 = chain.head?.getD w.allocated ∧
    (w.takeFree head).1.allocated = if chain = [] then w.allocated + 1 else w.allocated := by
  have hhead : w.next head = chain.head? := h.linked.head?
  cases chain with
  | nil =>
      have hnone : (w.conn head).nextTcpConn = none := hhead
      simp only [takeFree, hnone]
      refine ⟨?_, rfl, rfl⟩
      rw [next_allocate]
      exact h.fresh
  | cons tc chain =>
      have hsome : (w.conn head).nextTcpConn = some tc := hhead
      simp only [takeFree, hsome]
      refine ⟨?_, rfl, rfl⟩
      rw [next_setNextTcpConn, next_setNextTcpConn]
      exact h.take

/-- The chain gives its first object, or stays empty. -/
theorem pooled_getNextFreeConnection {fd : Int} (hfree : w.freeTcpConnection = some head)
    (h : Pooled w.next head chain w.activeConnections w.allocated)
    (hget : w.getNextFreeConnection fd = some w') :
    w'.freeTcpConnection = some head ∧
    w'.activeConnections = w.activeConnections ++ [chain.head?.getD w.allocated] ∧
    w'.allocated = (if chain = [] then w.allocated + 1 else w.allocated) ∧
    Pooled w'.next head chain.tail w'.activeConnections w'.allocated := by
  obtain ⟨hpooled, hout, hallocated⟩ := pooled_takeFree h
  have htaken := PoolCalls.roster_takeFree w head
  rw [getNextFreeConnection, hfree] at hget
  cases hget
  rw [hout] at hpooled ⊢
  generalize (w.takeFree head).1 = v at *
  have hroster := (roster_openSession v (chain.head?.getD w.allocated) fd).trans
    (roster_insert_enlist v _ fd)
  have hact : (v.openSession (chain.head?.getD w.allocated) fd).activeConnections =
      w.activeConnections ++ [chain.head?.getD w.allocated] := by
    have hv : v.activeConnections = w.activeConnections :=
      congrArg Roster.activeConnections htaken
    rw [← hv]
    exact congrArg Roster.activeConnections hroster
  have hall : (v.openSession (chain.head?.getD w.allocated) fd).allocated = v.allocated :=
    congrArg Roster.allocated hroster
  refine ⟨?_, hact, hall.trans hallocated, ?_⟩
  · exact (congrArg Roster.freeTcpConnection hroster).trans
      ((congrArg Roster.freeTcpConnection htaken).trans hfree)
  · rw [next_openSession, hact, hall]
    exact hpooled

/-- The object comes first in the chain. -/
theorem pooled_handleClose (hs : w.Sound) (hc : c ∈ w.activeConnections)
    (hfree : w.freeTcpConnection = some head)
    (h : Pooled w.next head chain w.activeConnections w.allocated)
    (hclose : w.handleClose c = some w') :
    w'.freeTcpConnection = some head ∧
      Pooled w'.next head (c :: chain) w'.activeConnections w'.allocated := by
  have hroster := roster_vacate w c
  have hact : (w.vacate c).activeConnections = w.activeConnections :=
    congrArg Roster.activeConnections hroster
  have hvfree : (w.vacate c).freeTcpConnection = some head :=
    (congrArg Roster.freeTcpConnection hroster).trans hfree
  have hall : (w.vacate c).allocated = w.allocated := congrArg Roster.allocated hroster
  have hnext := next_vacate (hs.watched.added c hc)
  rw [← hact, ← hall, ← hnext] at h
  rw [← hact] at hc
  rw [handleClose_eq] at hclose
  generalize w.vacate c = v at *
  have hback := pool_giveBack h hc
  have hput : v.returnBackConnection c = if v.idleSeconds ≤ 0 then some (v.putBack head c)
      else (v.putBack head c).eraseNode ((v.putBack head c).conn c).timeNode.position := by
    rw [returnBackConnection, hvfree]
    exact if_pos hc
  rw [hput] at hclose
  split at hclose
  · cases hclose
    exact ⟨hvfree, hback⟩
  · unfold eraseNode at hclose
    split at hclose
    · cases hclose
    · cases hclose
      exact ⟨hvfree, hback⟩

/-! ## The stack -/

/-- The objects whose sessions have ended, in that order. -/
def ended (w : EventLoop) : List ConnId := (closedSessions w.log).map Prod.fst

/-- The first `k` objects after the head have had a session.  Of them, those that have none
now come first in the chain, the one whose session ended last before the others. -/
structure Stacked (w : EventLoop) (k : Nat) : Prop where
  sound : w.Sound
  free : w.freeTcpConnection = some 0
  linked : Chain.Linked w.next 0
    (w.ended.latest w.activeConnections ++ List.range' (k + 1) (w.allocated - (k + 1)))
  made : max (MaxConnectionPoolSize + 1) (k + 1) = w.allocated
  used : ∀ c : Nat, 0 < (w.conn c).session ↔ 1 ≤ c ∧ c ≤ k
  lived : ∀ c, c ∈ w.activeConnections ∨ c ∈ w.ended → 0 < (w.conn c).session

namespace Stacked

variable {k : Nat}

theorem pooled (h : w.Stacked k) : Pooled w.next 0
    (w.ended.latest w.activeConnections ++ List.range' (k + 1) (w.allocated - (k + 1)))
    w.activeConnections w.allocated := by
  obtain ⟨head, chain, hhead, hpooled⟩ := h.sound.pool
  obtain rfl : head = 0 := Option.some.inj (hhead.symm.trans h.free)
  rwa [h.linked.unique hpooled.linked]

theorem count (h : w.Stacked k) :
    (w.ended.latest w.activeConnections).length + w.activeConnections.length = k := by
  have hcount := h.pooled.count
  have hmade := h.made
  rw [List.length_append, List.length_range'] at hcount
  omega

theorem bound (h : w.Stacked k) : w.activeConnections.length ≤ k := by
  have hcount := h.count
  omega

theorem calm (h : w.Stacked k) (hcalm : Calm w w') (hs : w'.Sound) : w'.Stacked k := by
  have hnext : w'.next = w.next := funext fun c => congrArg Shape.next (hcalm.shape c)
  have hended : w'.ended = w.ended := congrArg (List.map Prod.fst) hcalm.closed
  have hsession : ∀ c, (w'.conn c).session = (w.conn c).session := fun c =>
    congrArg Shape.session (hcalm.shape c)
  refine ⟨hs, hcalm.free.trans h.free, ?_, h.made.trans hcalm.allocated.symm, fun c => ?_,
    fun c hc => ?_⟩
  · rw [hnext, hended, hcalm.active, hcalm.allocated]
    exact h.linked
  · rw [hsession]
    exact h.used c
  · rw [hcalm.active, hended] at hc
    rw [hsession]
    exact h.lived c hc

/-- The object on top gets a session. -/
theorem reopened {fd : Int} {rest : List ConnId} (h : w.Stacked k) (hs : w'.Sound)
    (ho : Opened w c fd w') (hlatest : w.ended.latest w.activeConnections = c :: rest)
    (hfree : w'.freeTcpConnection = some 0) (hallocated : w'.allocated = w.allocated)
    (hlinked : Chain.Linked w'.next 0
      (rest ++ List.range' (k + 1) (w.allocated - (k + 1)))) : w'.Stacked k := by
  have hended : w'.ended = w.ended := congrArg (fun log => (closedSessions log).map Prod.fst) ho.log
  have hc : 0 < (w.conn c).session :=
    h.lived c (Or.inr (List.mem_latest.mp (hlatest ▸ List.mem_cons_self)).1)
  have hsession : ∀ d, 0 < (w'.conn d).session ↔ 0 < (w.conn d).session := by
    intro d
    by_cases hd : d = c
    · rw [hd, ho.session]
      omega
    · rw [(ho.same hd).2.2.2]
  refine ⟨hs, hfree, ?_, h.made.trans hallocated.symm, fun d => (hsession d).trans (h.used d),
    fun d hd => (hsession d).mpr ?_⟩
  · rw [hended, ho.active, List.latest_take hlatest, hallocated]
    exact hlinked
  · rw [ho.active, hended, List.mem_append, List.mem_singleton] at hd
    rcases hd with (hd | rfl) | hd
    · exact h.lived d (Or.inl hd)
    · exact hc
    · exact h.lived d (Or.inr hd)

/-- An object gets its first session: all that have had one have one now. -/
theorem begun {fd : Int} (h : w.Stacked k) (hs : w'.Sound) (ho : Opened w (k + 1) fd w')
    (hlatest : w.ended.latest w.activeConnections = [])
    (hfree : w'.freeTcpConnection = some 0)
    (hallocated : max (MaxConnectionPoolSize + 1) (k + 2) = w'.allocated)
    (hlinked : Chain.Linked w'.next 0 (List.range' (k + 2) (w'.allocated - (k + 2)))) :
    w'.Stacked (k + 1) := by
  have hended : w'.ended = w.ended := congrArg (fun log => (closedSessions log).map Prod.fst) ho.log
  have hnever : k + 1 ∉ w.ended := fun hmem =>
    absurd ((h.used _).mp (h.lived _ (Or.inr hmem))).2 (by omega)
  have hsession : ∀ d : Nat, 0 < (w'.conn d).session ↔ d = k + 1 ∨ 0 < (w.conn d).session := by
    intro d
    by_cases hd : d = k + 1
    · rw [hd, ho.session]
      omega
    · rw [(ho.same hd).2.2.2]
      omega
  refine ⟨hs, hfree, ?_, hallocated, fun d => ?_, fun d hd => (hsession d).mpr ?_⟩
  · rw [hended, ho.active, List.latest_fresh hnever, hlatest]
    exact hlinked
  · rw [hsession, h.used]
    omega
  · rw [ho.active, hended, List.mem_append, List.mem_singleton] at hd
    rcases hd with (hd | rfl) | hd
    · exact Or.inr (h.lived d (Or.inl hd))
    · exact Or.inl rfl
    · exact Or.inr (h.lived d (Or.inr hd))

theorem opened {fd : Int} (h : w.Stacked k) (hfd : 0 ≤ fd) (hnew : fd ∉ w.openFds)
    (hget : w.getNextFreeConnection fd = some w') :
    w'.Stacked (max k w'.activeConnections.length) := by
  obtain ⟨c, v, hv, ho⟩ := getNextFreeConnection_opened h.sound hfd hnew
  obtain rfl : v = w' := Option.some.inj (hv.symm.trans hget)
  have hs := ho.sound h.sound hfd hnew
  obtain ⟨hfree, hactive, hallocated, hpooled⟩ :=
    pooled_getNextFreeConnection h.free h.pooled hget
  have hlength : v.activeConnections.length = w.activeConnections.length + 1 := by
    rw [ho.active, List.length_append, List.length_singleton]
  have hcount := h.count
  have hc : c = _ := (List.cons.inj (List.append_cancel_left (ho.active.symm.trans hactive))).1
  cases hlatest : w.ended.latest w.activeConnections with
  | cons d rest =>
      rw [hlatest] at hc hallocated hpooled hcount
      obtain rfl : c = d := hc
      rw [List.length_cons] at hcount
      rw [Nat.max_eq_left (by omega)]
      exact h.reopened hs ho hlatest hfree hallocated hpooled.linked
  | nil =>
      rw [hlatest, List.nil_append] at hc hallocated hpooled
      rw [hlatest, List.length_nil, Nat.zero_add] at hcount
      rw [Nat.max_eq_right (by omega), hlength, hcount]
      have hfull : ∀ n : Nat, max (MaxConnectionPoolSize + 1) (k + 1) = n → n - (k + 1) = 0 →
          n = k + 1 ∧ max (MaxConnectionPoolSize + 1) (k + 2) = n + 1 := by omega
      have hleft : ∀ n m : Nat, max (MaxConnectionPoolSize + 1) (k + 1) = n →
          n - (k + 1) = m + 1 → max (MaxConnectionPoolSize + 1) (k + 2) = n ∧ n - (k + 2) = m := by
        omega
      cases hrest : w.allocated - (k + 1) with
      | zero =>
          rw [hrest, List.range'_zero] at hc hallocated hpooled
          obtain ⟨hlast, hmade⟩ := hfull _ h.made hrest
          have hck : c = k + 1 := hc.trans hlast
          rw [if_pos rfl] at hallocated
          refine h.begun hs (hck ▸ ho) hlatest hfree (hmade.trans hallocated.symm) ?_
          rw [hallocated, hlast, Nat.sub_self]
          exact hpooled.linked
      | succ n =>
          rw [hrest, List.range'_succ] at hc hallocated hpooled
          obtain ⟨hmade, hless⟩ := hleft _ n h.made hrest
          have hck : c = k + 1 := hc
          have hall : v.allocated = w.allocated := hallocated
          refine h.begun hs (hck ▸ ho) hlatest hfree (hmade.trans hall.symm) ?_
          rw [hall, hless]
          exact hpooled.linked

theorem closed (h : w.Stacked k) (hclose : w.handleClose c = some w') : w'.Stacked k := by
  obtain ⟨hc, hcl⟩ := closed_of_handleClose h.sound hclose
  obtain ⟨hfree, hpooled⟩ := pooled_handleClose h.sound hc h.free h.pooled hclose
  have hended : w'.ended = w.ended ++ [c] := by
    rw [ended, hcl.log, closedSessions_append, List.map_append]
    rfl
  have hsession : ∀ d, (w'.conn d).session = (w.conn d).session := by
    intro d
    by_cases hd : d = c
    · obtain ⟨n, hn⟩ := hcl.self
      rw [hd, hn]
      rfl
    · obtain ⟨n, hn⟩ := hcl.others d hd
      rw [hn]
  refine ⟨hcl.sound h.sound hc, hfree, ?_, h.made.trans hcl.allocated.symm, fun d => ?_,
    fun d hd => ?_⟩
  · rw [hended, hcl.active, List.latest_give h.pooled.active_nodup hc, hcl.allocated]
    exact hpooled.linked
  · rw [hsession]
    exact h.used d
  · rw [hsession]
    rw [hended, hcl.active, List.mem_append, List.mem_singleton] at hd
    rcases hd with hd | hd | rfl
    · exact h.lived d (Or.inl (List.mem_of_mem_erase hd))
    · exact h.lived d (Or.inr hd)
    · exact h.lived d (Or.inl hc)

theorem step {a : Act} (h : w.Stacked k) (hp : w.Proper a) (hact : w.act a = some w') :
    w'.Stacked (max k w'.activeConnections.length) := by
  cases hfd : a.connfd with
  | some fd =>
      cases a with
      | call call =>
          cases call with
          | getNextFreeConnection fd => exact h.opened hp.1 hp.2 hact
          | _ => cases hfd
      | _ => cases hfd
  | none =>
      obtain ⟨v, hv, hafter⟩ := act_after h.sound hp
      obtain rfl : v = w' := Option.some.inj (hv.symm.trans hact)
      have hk : v.Stacked k := by
        cases effect_act h.sound hp hfd hact with
        | calm _ hsame => exact h.calm hsame hafter.sound
        | close c u _ _ hsame hu hclose => exact (h.calm hsame hu).closed hclose
      rwa [Nat.max_eq_left hk.bound]

end Stacked

/-! ## Every run -/

theorem pooled_initConnectionPoolLoop {tc : ConnId} (n i : Nat)
    (h : Pooled w.next head chain [] w.allocated)
    (hlast : (head :: chain).getLast? = some tc) :
    Pooled (w.initConnectionPoolLoop tc i n).next head (chain ++ List.range' w.allocated n) []
      (w.allocated + n) := by
  induction n generalizing w tc chain i with
  | zero =>
      rw [List.range'_zero, List.append_nil]
      exact h
  | succ n ih =>
      have hnext := h.extend hlast
      have hend : (head :: (chain ++ [w.allocated])).getLast? = some w.allocated := by
        rw [← List.cons_append, List.getLast?_concat]
      have hsum : w.allocated + (n + 1) = w.allocated + 1 + n := Nat.add_right_comm w.allocated n 1
      rw [List.range'_succ, hsum, List.append_cons]
      refine ih (w := EventLoop.setNextTcpConn _ _ _) (i + 1) ?_ hend
      rw [next_setNextTcpConn, next_modify _ _ rfl, next_allocate]
      exact hnext

theorem linked_start (idleSeconds now epollFd timerFd wakeupFd : Int) :
    Chain.Linked (start idleSeconds now epollFd timerFd wakeupFd).next 0
      (List.range' 1 MaxConnectionPoolSize) := by
  have hempty : Pooled ({ (new idleSeconds now epollFd timerFd wakeupFd).allocate with
      freeTcpConnection := some 0 } : EventLoop).next 0 [] [] 1 := by
    refine ⟨?_, fun c hc => absurd hc List.not_mem_nil, List.Perm.refl _⟩
    show (new idleSeconds now epollFd timerFd wakeupFd).allocate.next 0 = none
    rw [next_allocate]
    exact Function.update_self ..
  exact (pooled_initConnectionPoolLoop MaxConnectionPoolSize 0 hempty rfl).linked

theorem stacked_start {idleSeconds now epollFd timerFd wakeupFd : Int} (ht : 0 ≤ timerFd)
    (hw : 0 ≤ wakeupFd) (hne : timerFd ≠ wakeupFd) :
    (start idleSeconds now epollFd timerFd wakeupFd).Stacked 0 := by
  have hsound : (start idleSeconds now epollFd timerFd wakeupFd).Sound := sound_start ht hw hne
  have hstarted := started_start idleSeconds now epollFd timerFd wakeupFd
  have hallocated := PoolCalls.allocated_start idleSeconds now epollFd timerFd wakeupFd
  have hsession := forall_start (P := fun tc => tc.session = 0) rfl (fun _ _ _ h => h)
    idleSeconds now epollFd timerFd wakeupFd
  have hlinked := linked_start idleSeconds now epollFd timerFd wakeupFd
  have hfree : (start idleSeconds now epollFd timerFd wakeupFd).freeTcpConnection = some 0 := by
    obtain ⟨heap, k, hstart⟩ := start_eq idleSeconds now epollFd timerFd wakeupFd
    rw [hstart]
  generalize start idleSeconds now epollFd timerFd wakeupFd = w at *
  have hended : w.ended = [] := by
    rw [ended, hstarted.log]
    rfl
  refine ⟨hsound, hfree, ?_, hallocated.symm, fun c => ?_, fun c hc => ?_⟩
  · rw [hended, hallocated]
    exact hlinked
  · rw [hsession c]
    omega
  · rw [hended] at hc
    rcases hc with hc | hc
    · exact absurd hc (hstarted.not_mem c)
    · exact absurd hc List.not_mem_nil

/-- The object for the next session. -/
theorem Stacked.handedOut {k : Nat} (h : w.Stacked k) :
    PoolCalls.handedOut w = (w.ended.latest w.activeConnections ++ [k + 1]).head? := by
  obtain ⟨-, hout, -⟩ := pooled_takeFree h.pooled
  rw [PoolCalls.handedOut, h.free, Option.map_some, hout]
  cases hlatest : w.ended.latest w.activeConnections with
  | cons c rest => rfl
  | nil =>
      have hlast : ∀ n : Nat, max (MaxConnectionPoolSize + 1) (k + 1) = n → n - (k + 1) = 0 →
          n = k + 1 := by omega
      cases hrest : w.allocated - (k + 1) with
      | zero => exact congrArg some (hlast _ h.made hrest)
      | succ n => rfl

/-- In every run of the loop's thread in which the kernel hands out descriptors that are not
open and runs callbacks of open connections only, whatever else it answers: the objects that
have had a session are the first ones after the head, as many as there have been sessions at
once; more than the pool's are made only for that; the ones that have none now are used again
before any other, the one whose session ended last first. -/
theorem fewest_objects {idleSeconds now epollFd timerFd wakeupFd : Int} (ht : 0 ≤ timerFd)
    (hw : 0 ≤ wakeupFd) (hne : timerFd ≠ wakeupFd) {acts : List Act}
    (hproper : Meets act Proper (start idleSeconds now epollFd timerFd wakeupFd) acts) :
    ∃ w n, exec act (start idleSeconds now epollFd timerFd wakeupFd) acts = some w ∧
      n = peak act (fun w => w.activeConnections.length)
        (start idleSeconds now epollFd timerFd wakeupFd) acts ∧
      w.allocated = max (MaxConnectionPoolSize + 1) (n + 1) ∧
      (∀ c : Nat, 0 < (w.conn c).session ↔ 1 ≤ c ∧ c ≤ n) ∧
      Chain.Linked w.next 0
        (w.ended.latest w.activeConnections ++ List.range' (n + 1) (w.allocated - (n + 1))) ∧
      PoolCalls.handedOut w = (w.ended.latest w.activeConnections ++ [n + 1]).head? := by
  have hstart : (start idleSeconds now epollFd timerFd wakeupFd).Stacked 0 :=
    stacked_start ht hw hne
  obtain ⟨w, hrun, -, -⟩ := exec_progress (C := Proper) (I := Sound)
    (fun w a hs hp => (act_after hs hp).imp fun _ h => ⟨h.1, h.2.sound⟩) hproper hstart.sound
  have hw := exec_peak (I := Stacked) (f := fun w => w.activeConnections.length)
    (fun _ _ h => h.bound) (fun _ _ _ _ h hp hact => h.step hp hact) hproper hstart hrun
  rw [Nat.zero_max] at hw
  exact ⟨w, _, hrun, rfl, hw.made.symm, hw.used, hw.linked, hw.handedOut⟩

/-- Two sessions end, the second first, and a third has the object of the first. -/
theorem fewest_objects_two : ∃ w, exec act (start 60 0 3 4 5)
      [.call (.getNextFreeConnection 7), .call (.getNextFreeConnection 8), .handleClose 2,
        .handleClose 1, .call (.getNextFreeConnection 9)] = some w ∧
    w.activeConnections = [1] ∧ w.allocated = 513 ∧
    ∀ c : Nat, 0 < (w.conn c).session ↔ 1 ≤ c ∧ c ≤ 2 := by
  have hproper : Meets act Proper (start 60 0 3 4 5)
      [.call (.getNextFreeConnection 7), .call (.getNextFreeConnection 8), .handleClose 2,
        .handleClose 1, .call (.getNextFreeConnection 9)] := by
    decide +kernel
  have hactive : (exec act (start 60 0 3 4 5)
      [.call (.getNextFreeConnection 7), .call (.getNextFreeConnection 8), .handleClose 2,
        .handleClose 1, .call (.getNextFreeConnection 9)]).map
          (fun w => w.activeConnections) = some [1] := by
    decide +kernel
  have hpeak : peak act (fun w => w.activeConnections.length) (start 60 0 3 4 5)
      [.call (.getNextFreeConnection 7), .call (.getNextFreeConnection 8), .handleClose 2,
        .handleClose 1, .call (.getNextFreeConnection 9)] = 2 := by
    decide +kernel
  obtain ⟨w, n, hrun, hn, hallocated, hused, -⟩ :=
    fewest_objects (by decide) (by decide) (by decide) hproper
  rw [hpeak] at hn
  rw [hrun] at hactive
  subst hn
  exact ⟨w, hrun, Option.some.inj hactive, hallocated, hused⟩

end EventLoop

end WebServer

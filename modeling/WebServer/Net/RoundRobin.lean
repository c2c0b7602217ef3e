/-
# `Net.RoundRobin` — how the connections are dealt to the io threads

`getNextLoop` gives the loops in turn, and `handleNewConn` asks it once for each
descriptor below the limit, before `setSocketNonBlocking` is tried.  So the loop of the
`i`-th thread is given the rounds `i`, `i + n`, `i + 2 * n`, and so on (`Lib.Deal`), and
of these it gets, in order, the connections that were made non-blocking
(`dealt_in_turn`), whatever the threads do meanwhile.
-/
import WebServer.Lib.Deal
import WebServer.Net.Accept
import WebServer.Net.Reactor

namespace WebServer

namespace StartUp

open Machine

/-- The descriptor for which a step asks for a loop, and whether it could be made
non-blocking. -/
def round : Action → List (Int × Bool)
  | .accept connfd nonBlocking =>
      if 0 < connfd ∧ connfd < maxFds then [(connfd, nonBlocking)] else []
  | _ => []

/-- The connections that the loop of the `i`-th of `n` threads gets. -/
def dealtTo (n i : Nat) (rounds : List (Int × Bool)) : List Int :=
  ((Deal.share n i rounds).filter Prod.snd).map Prod.fst

/-- The queue of an io thread's loop, after these pushes. -/
structure Fed (q : TaskQueue.State Int) (waking : Bool) (conns : List Int) : Prop where
  sound : TaskQueue.Sound q
  waking : q.waking (.foreign 0) = waking
  enqueued : q.enqueued = conns

/-- In `EventLoopThreadPool::start`. -/
def Main.inStart : Main → Bool
  | .starting _ => true
  | .waiting _ => true
  | _ => false

/-- The state after these rounds. -/
structure Dealt (n : Nat) (s : State) (rounds : List (Int × Bool)) : Prop where
  threads : s.numThreads = n
  next : s.next = rounds.length % n
  early : s.main.inStart = true → rounds = []
  fed : ∀ i, Fed (s.reactor (some i)).queue (decide (s.main = .waking i)) (dealtTo n i rounds)

section

variable {n : Nat} {s t : State} {rounds : List (Int × Bool)} {connfd : Int} {nonBlocking : Bool}

theorem dealtTo_concat (i : Nat) : dealtTo n i (rounds ++ [(connfd, nonBlocking)]) =
    dealtTo n i rounds ++
      if rounds.length % n = i ∧ nonBlocking = true then [connfd] else [] := by
  rw [dealtTo, Deal.share_concat, List.filter_append, List.map_append, dealtTo]
  by_cases hi : rounds.length % n = i
  · cases nonBlocking <;> simp [hi]
  · simp [hi]

/-! ## What one thread does to its queue -/

theorem enqueued_ofLoop {q q' : TaskQueue.State Int} {a : TaskQueue.Action Int}
    (ha : ofLoop a = true) (h : TaskQueue.step q a = some q') : q'.enqueued = q.enqueued := by
  cases a with
  | queueInLoop thread cb => exact absurd ha nofun
  | quit thread => exact absurd ha nofun
  | wakeup thread => exact absurd ha nofun
  | handle | handled | run =>
      rw [TaskQueue.step] at h
      split at h <;> first | (cases h; rfl) | cases h
  | _ =>
      obtain ⟨-, h⟩ := Option.ite_none_right_eq_some.mp h
      cases h
      rfl

theorem Fed.ofLoop {q q' : TaskQueue.State Int} {b : Bool} {conns : List Int}
    (hq : Fed q b conns) {a : TaskQueue.Action Int} (ha : ofLoop a = true)
    (h : TaskQueue.step q a = some q') : Fed q' b conns where
  sound := TaskQueue.step_sound hq.sound h
  waking := (congrFun (waking_ofLoop ha h) _).trans hq.waking
  enqueued := (enqueued_ofLoop ha h).trans hq.enqueued

theorem Fed.push {q : TaskQueue.State Int} {conns : List Int} (hq : Fed q false conns)
    (connfd : Int) :
    Fed (TaskQueue.queueInLoop q (.foreign 0) connfd) true (conns ++ [connfd]) where
  sound := by
    refine TaskQueue.sound_queueInLoop hq.sound ?_ connfd
    rw [TaskQueue.State.free, hq.waking]
    rfl
  waking := by
    show Function.update q.waking (.foreign 0) _ (.foreign 0) = true
    rw [Function.update_self]
    rfl
  enqueued := congrArg (· ++ [connfd]) hq.enqueued

theorem Fed.wake {q : TaskQueue.State Int} {conns : List Int} (hq : Fed q true conns) :
    Fed (TaskQueue.wakeup q (.foreign 0)) false conns where
  sound := TaskQueue.sound_wakeup hq.sound hq.waking
  waking := by
    show Function.update q.waking (.foreign 0) false (.foreign 0) = false
    rw [Function.update_self]
  enqueued := hq.enqueued

/-! ## One step -/

/-- The queues after a change in one loop. -/
theorem Dealt.fed_set (h : Dealt n s rounds) {l : Option Nat} {r : Reactor}
    (hr : ∀ i, l = some i → Fed r.queue (decide (s.main = .waking i))
      (dealtTo n i rounds)) (i : Nat) :
    Fed ((s.setReactor l r).reactor (some i)).queue (decide (s.main = .waking i))
      (dealtTo n i rounds) := by
  by_cases hl : some i = l
  · subst hl
    rw [reactor_setReactor_self]
    exact hr i rfl
  · rw [reactor_setReactor_ne hl]
    exact h.fed i

/-- A step of a loop's thread that keeps the order of its queue. -/
theorem Dealt.set (h : Dealt n s rounds) {l : Option Nat} {r : Reactor}
    (hr : ∀ i, l = some i → Fed r.queue (decide (s.main = .waking i)) (dealtTo n i rounds)) :
    Dealt n (s.setReactor l r) rounds where
  threads := h.threads
  next := h.next
  early := h.early
  fed := h.fed_set hr

theorem queue_getNextFreeConnection (l : Option Nat) (connfd : Int) (m : Option Nat) :
    ((getNextFreeConnection s l connfd).reactor m).queue = (s.reactor m).queue := by
  unfold getNextFreeConnection
  dsimp only
  split
  · by_cases hm : m = l
    · subst hm
      rw [reactor_setReactor_self]
    · rw [reactor_setReactor_ne hm]
      rfl
  · rfl

theorem main_getNextFreeConnection (l : Option Nat) (connfd : Int) :
    (getNextFreeConnection s l connfd).main = s.main := by
  unfold getNextFreeConnection
  dsimp only
  split <;> rfl

theorem Dealt.getNextFreeConnection (h : Dealt n s rounds) {l : Option Nat} :
    Dealt n (StartUp.getNextFreeConnection s l connfd) rounds := by
  obtain ⟨hnext, hnum⟩ := next_getNextFreeConnection (s := s) l connfd
  have hmain := main_getNextFreeConnection (s := s) l connfd
  refine ⟨hnum.trans h.threads, hnext.trans h.next, ?_, ?_⟩
  · rw [hmain]
    exact h.early
  · intro i
    rw [queue_getNextFreeConnection, hmain]
    exact h.fed i

/-- The thread whose turn it is gets the connection, if it gets any. -/
theorem dealt_handleNewConn (hn : 0 < n) (hi : Inv s) (h : Dealt n s rounds)
    (hmain : s.main = .serving)
    (ht : handleNewConn s connfd nonBlocking = some t) :
    Dealt n t (rounds ++ round (.accept connfd nonBlocking)) := by
  unfold handleNewConn at ht
  split at ht
  · rename_i hout
    cases ht
    have hnone : round (.accept connfd nonBlocking) = [] := by
      refine if_neg ?_
      rintro ⟨hpos, hmax⟩
      omega
    rw [hnone, List.append_nil]
    exact h
  · rename_i hin
    have hround : round (.accept connfd nonBlocking) = [(connfd, nonBlocking)] :=
      if_pos ⟨by omega, by omega⟩
    have hloops : s.loops = List.range s.numThreads := by
      have hrounds := hi.rounds
      rw [Rounds, hmain] at hrounds
      exact hrounds
    have hlt : s.next < s.numThreads := by
      rw [h.next, h.threads]
      exact Nat.mod_lt _ hn
    have hget : getNextLoop s = some (some s.next, (s.next + 1) % s.numThreads) := by
      have hnil : s.loops ≠ [] := by
        rw [hloops]
        exact List.ne_nil_of_mem (List.mem_range.mpr hlt)
      rw [getNextLoop, if_neg hnil, hloops, List.getElem?_range hlt]
      rfl
    have hnext : (s.next + 1) % s.numThreads =
        (rounds ++ [(connfd, nonBlocking)]).length % n := by
      rw [List.length_append, List.length_singleton, h.next, h.threads, Nat.mod_add_mod]
    have hserving : ∀ j, decide (s.main = .waking j) = false := by
      intro j
      rw [hmain]
      rfl
    rw [hget] at ht
    cases ht
    rw [hround]
    cases nonBlocking with
    | false =>
        refine ⟨h.threads, hnext, ?_, fun j => ?_⟩
        · intro hstart
          rw [hmain] at hstart
          cases hstart
        · rw [dealtTo_concat, if_neg fun e => Bool.noConfusion e.2, List.append_nil]
          exact h.fed j
    | true =>
        refine ⟨h.threads, hnext, Bool.noConfusion, fun j => ?_⟩
        have hold := h.fed j
        rw [hserving] at hold
        show Fed ((s.setReactor (some s.next) _).reactor (some j)).queue
          (decide (Main.waking s.next = .waking j)) (dealtTo n j _)
        rw [dealtTo_concat, ← h.next]
        by_cases hj : s.next = j
        · subst hj
          rw [reactor_setReactor_self, if_pos ⟨rfl, rfl⟩, decide_eq_true rfl]
          exact hold.push connfd
        · rw [reactor_setReactor_ne fun e => hj (Option.some.inj e).symm,
            if_neg fun e => hj e.1, List.append_nil,
            decide_eq_false fun e => hj (Main.waking.inj e)]
          exact hold

theorem dealt_step (hn : 0 < n) (hi : Inv s) (h : Dealt n s rounds) {a : Action}
    (ha : step s a = some t) :
    Dealt n t (rounds ++ round a) := by
  unfold step at ha
  split at ha
  · cases ha
  · cases a with
    | startThread k =>
        rw [show round (.startThread k) = [] from rfl, List.append_nil]
        dsimp only at ha
        split at ha
        · rename_i i hmain
          obtain ⟨-, ht⟩ := Option.ite_none_right_eq_some.mp ha
          cases ht
          have hnone := h.early (hmain ▸ rfl)
          subst hnone
          refine ⟨h.threads, h.next, fun _ => rfl, fun j => ?_⟩
          have hfed := h.fed_set (l := some i) (r := .new .constructed s.idleSeconds k)
            (fun j _ => ⟨TaskQueue.sound_start, by rw [hmain]; rfl, rfl⟩) j
          rw [hmain] at hfed
          exact hfed
        · cases ha
    | loopStarted =>
        rw [show round .loopStarted = [] from rfl, List.append_nil]
        dsimp only at ha
        split at ha
        · rename_i i hmain
          obtain ⟨-, ht⟩ := Option.ite_none_right_eq_some.mp ha
          cases ht
          refine ⟨h.threads, h.next, fun _ => h.early (hmain ▸ rfl), fun j => ?_⟩
          have hfed := h.fed j
          rw [hmain] at hfed
          exact hfed
        · cases ha
    | serve =>
        rw [show round .serve = [] from rfl, List.append_nil]
        dsimp only at ha
        split at ha
        · rename_i i hmain
          obtain ⟨-, ht⟩ := Option.ite_none_left_eq_some.mp ha
          cases ht
          refine ⟨h.threads, h.next, nofun, fun j => ?_⟩
          have hfed := h.fed_set (l := none) (r := { s.reactor none with phase := .looping })
            (fun _ hl => nomatch hl) j
          rw [hmain] at hfed
          exact hfed
        · cases ha
    | proceed i =>
        rw [show round (.proceed i) = [] from rfl, List.append_nil]
        obtain ⟨r, hr, rfl⟩ := Option.map_eq_some_iff.mp ha
        refine h.set fun j hj => ?_
        cases hj
        rw [(Reactor.proceed_same hr).2.2.2.2]
        exact h.fed i
    | turn l a =>
        rw [show round (.turn l a) = [] from rfl, List.append_nil]
        obtain ⟨⟨-, hloop, -⟩, ht⟩ := Option.ite_none_right_eq_some.mp ha
        obtain ⟨q, hq, rfl⟩ := Option.map_eq_some_iff.mp ht
        have hset : Dealt n (s.setReactor l { s.reactor l with queue := q }) rounds := by
          refine h.set fun j hj => ?_
          subst hj
          exact (h.fed j).ofLoop hloop hq
        dsimp only
        split
        · exact hset.getNextFreeConnection
        · exact hset
    | act l a =>
        rw [show round (.act l a) = [] from rfl, List.append_nil]
        obtain ⟨-, ht⟩ := Option.ite_none_right_eq_some.mp ha
        obtain ⟨w, -, rfl⟩ := Option.map_eq_some_iff.mp ht
        refine h.set fun j hj => ?_
        subst hj
        exact h.fed j
    | accept connfd nonBlocking =>
        dsimp only at ha
        split at ha
        · rename_i hmain _
          exact dealt_handleNewConn hn hi h hmain ha
        · cases ha
    | wakeup =>
        rw [show round .wakeup = [] from rfl, List.append_nil]
        dsimp only at ha
        split at ha
        · rename_i i hmain
          cases ha
          refine ⟨h.threads, h.next, nofun, fun j => ?_⟩
          have hold := h.fed j
          rw [hmain] at hold
          show Fed ((s.setReactor (some i) _).reactor (some j)).queue
            (decide (Main.serving = .waking j)) (dealtTo n j rounds)
          by_cases hj : i = j
          · subst hj
            rw [decide_eq_true rfl] at hold
            rw [reactor_setReactor_self]
            exact hold.wake
          · rw [decide_eq_false fun e => hj (Main.waking.inj e)] at hold
            rw [reactor_setReactor_ne fun e => hj (Option.some.inj e).symm]
            exact hold
        · cases ha

/-! ## Every run -/

theorem dealt_exec (hn : 0 < n) {acts : List Action} : ∀ {s t : State} {rounds : List (Int × Bool)},
    Inv s → Dealt n s rounds → exec step s acts = some t →
      Dealt n t (rounds ++ acts.flatMap round) := by
  induction acts with
  | nil =>
      intro s t rounds _ h ht
      cases ht
      rw [List.flatMap_nil, List.append_nil]
      exact h
  | cons a acts ih =>
      intro s t rounds hi h ht
      obtain ⟨u, hu, ht⟩ := exec_cons.mp ht
      rw [List.flatMap_cons, ← List.append_assoc]
      exact ih (after_step hi hu).inv (dealt_step hn hi h hu) ht

theorem dealt_start (idleSeconds baseIdleSeconds : Int) (k : Kernel) :
    Dealt n (start n idleSeconds baseIdleSeconds k) [] :=
  ⟨rfl, (Nat.zero_mod _).symm, fun _ => rfl, fun _ => ⟨TaskQueue.sound_start, rfl, rfl⟩⟩

end

/-- What the threads get between them. -/
theorem perm_dealtTo {n : Nat} (hn : 0 < n) (rounds : List (Int × Bool)) :
    ((List.range n).flatMap fun i => dealtTo n i rounds).Perm
      ((rounds.filter Prod.snd).map Prod.fst) := by
  simp only [dealtTo]
  rw [← List.map_flatMap, ← List.filter_flatMap]
  exact ((Deal.perm_shares hn rounds).filter _).map _

/-- In every run of a server with io threads, whatever the threads do and in whatever
order: the loop of the `i`-th thread has started, or has waiting, the connections of the
rounds `i`, `i + n`, `i + 2 * n`, …, in order, but for those that could not be made
non-blocking; the rounds are shared out evenly; and no connection is left out or dealt
twice. -/
theorem dealt_in_turn {numThreads : Nat} {idleSeconds baseIdleSeconds : Int} {k : Kernel}
    {acts : List Action} {s : State} (hn : 0 < numThreads)
    (hrun : exec step (start numThreads idleSeconds baseIdleSeconds k) acts = some s) :
    let rounds := acts.flatMap round
    (∀ i < numThreads,
      let q := (s.reactor (some i)).queue
      q.ran ++ q.functors ++ q.pendingFunctors =
          ((Deal.share numThreads i rounds).filter Prod.snd).map Prod.fst ∧
        (Deal.share numThreads i rounds).length =
          rounds.length / numThreads + if i < rounds.length % numThreads then 1 else 0) ∧
    ((List.range numThreads).flatMap fun i =>
      let q := (s.reactor (some i)).queue
      q.ran ++ q.functors ++ q.pendingFunctors).Perm
        ((rounds.filter Prod.snd).map Prod.fst) := by
  intro rounds
  have hdealt := dealt_exec hn (inv_start ..) (dealt_start idleSeconds baseIdleSeconds k) hrun
  have hqueue : ∀ i, (s.reactor (some i)).queue.ran ++ (s.reactor (some i)).queue.functors ++
      (s.reactor (some i)).queue.pendingFunctors = dealtTo numThreads i rounds :=
    fun i => (hdealt.fed i).sound.order.trans (hdealt.fed i).enqueued
  refine ⟨fun i hi => ⟨hqueue i, Deal.length_share hi rounds⟩, ?_⟩
  simp only [hqueue]
  exact perm_dealtTo hn rounds

/-- Two threads and three connections, of which the second cannot be made non-blocking:
the first thread gets the other two. -/
theorem dealt_in_turn_three : ∃ s,
    exec step (start 2 60 (-1) ⟨0, 3, 4, 5⟩) (Accept.served ++
      [.turn none .test, .turn none (.poll [.other]), .turn none .handle, .accept 12 true, .wakeup,
        .accept 13 false, .accept 14 true, .wakeup]) = some s ∧
      (s.reactor (some 0)).queue.ran ++ (s.reactor (some 0)).queue.functors ++
        (s.reactor (some 0)).queue.pendingFunctors = [12, 14] := by
  have hgo : (exec step (start 2 60 (-1) ⟨0, 3, 4, 5⟩) (Accept.served ++
      [.turn none .test, .turn none (.poll [.other]), .turn none .handle, .accept 12 true, .wakeup,
        .accept 13 false, .accept 14 true, .wakeup])).isSome = true := by
    decide +kernel
  obtain ⟨s, hs⟩ := Option.isSome_iff_exists.mp hgo
  exact ⟨s, hs, ((dealt_in_turn (by decide) hs).1 0 (by decide)).1⟩

end StartUp

end WebServer

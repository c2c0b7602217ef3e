/-
# `Base.Blocked` — when a thread of the pool waits for ever

Three states in which no thread of a `ThreadPool` will wake another that waits:

* a task is queued, and every worker is blocked on `notEmpty_`;
* a slot is free, no producer is notified, and one is blocked on `notFull_`;
* after `stop`, every worker has left, and a producer is blocked on `notFull_`.

The first two are never reached, for a worker blocks only when the ring is empty,
and while a producer is blocked there is a notified one for each free slot
(`Wakeful`).  The third is: `stop` notifies `notEmpty_` only, and `run` does not
test `running_`.  It is reached exactly by a worker that leaves as the last one
and by a producer that finds the ring full after that (`Attended` excludes both).
-/
import WebServer.Base.ThreadPool

namespace WebServer

namespace ThreadPool

open Machine Condition

variable {Task : Type} {n m : Nat}

/-- After `stop`, a producer that nobody is left to wake. -/
def Abandoned (s : State Task n m) : Prop :=
  s.pool.running = false ∧ (∀ w, s.workers w = .finished) ∧ ∃ i, s.notFull i = .blocked

structure Unstuck (s : State Task n m) : Prop where
  worker : ¬(s.pool.running = true ∧ 0 < s.pool.currentSize ∧ ∀ w, s.notEmpty w = .blocked)
  producer : ¬((∃ i, s.notFull i = .blocked) ∧ s.pool.currentSize < s.pool.maxQueueSize ∧
    ∀ i, s.notFull i ≠ .notified)
  stopped : ¬Abandoned s

/-- The last worker that leaves leaves no producer blocked, and no producer finds
the ring full after that. -/
def Attended (s : State Task n m) : Action Task n m → Prop
  | .loop w => s.pool.running = false → (∀ w', w' ≠ w → s.workers w' = .finished) →
      ∀ i, s.notFull i ≠ .blocked
  | .run _ _ => (∀ w, s.workers w = .finished) → s.pool.isFullWithLock = false
  | _ => True

instance decidableAttended [DecidableEq Task] (s : State Task n m) :
    ∀ a, Decidable (Attended s a)
  | .loop w => inferInstanceAs (Decidable (s.pool.running = false →
      (∀ w', w' ≠ w → s.workers w' = .finished) → ∀ i, s.notFull i ≠ .blocked))
  | .run _ _ => inferInstanceAs (Decidable
      ((∀ w, s.workers w = .finished) → s.pool.isFullWithLock = false))
  | .call _ _ | .take _ _ _ | .execute _ | .stop | .wakeProducer _ | .wakeWorker _ =>
      isTrue trivial

/-! ## Whoever is needed is awake -/

/-- The number of free slots. -/
def free (p : ThreadPool Task) : Nat := (p.maxQueueSize - p.currentSize).toNat

theorem Put.free {p q : ThreadPool Task} {task : Task} (h : Put p task q)
    (hfree : p.currentSize < p.maxQueueSize) : p.free = q.free + 1 := by
  rw [ThreadPool.free, ThreadPool.free, h.maxQueueSize, h.currentSize]
  omega

theorem Got.free {p q : ThreadPool Task} {task : Option Task} (h : Got p task q)
    (hle : p.currentSize ≤ p.maxQueueSize) : q.free = p.free + 1 := by
  rw [ThreadPool.free, ThreadPool.free, h.maxQueueSize, h.currentSize]
  omega

structure Wakeful (s : State Task n m) : Prop where
  valid : s.pool.Valid
  awake : 0 < s.pool.currentSize → ∃ w, s.notEmpty w ≠ .blocked
  covered : s.notFull.Covered s.pool.free
  running : ∀ w, s.workers w = .finished → s.pool.running = false

theorem wakeful_init {max : Nat} (hpos : 0 < max) (hint : max < 2 ^ 31) :
    Wakeful (State.init max : State Task n m) where
  valid := valid_start hpos hint
  awake := fun h => absurd h (lt_irrefl _)
  covered := covered_idle
  running := fun _ h => absurd h nofun

/-! A worker that has moved on has not left. -/

theorem update_ne_finished (workers : Fin n → Worker Task) (w : Fin n) (place : Worker Task)
    (hplace : place ≠ .finished) : Function.update workers w place w ≠ .finished := by
  rw [Function.update_self]
  exact hplace

theorem finished_of_update (workers : Fin n → Worker Task) (w : Fin n) (place : Worker Task)
    (hplace : place ≠ .finished) {w' : Fin n}
    (h : Function.update workers w place w' = .finished) : workers w' = .finished := by
  by_cases hw : w' = w
  · subst hw
    exact absurd h (update_ne_finished workers w' place hplace)
  · rwa [Function.update_of_ne hw] at h

theorem run_wakeful (hn : 0 < n) {s t : State Task n m} (hs : Wakeful s) {i : Fin m}
    {task : Task} {choice : Option (Fin n)} (h : run s i task choice = some t) : Wakeful t := by
  rcases run_cases hs.valid h with
    ⟨hzero, -⟩ | ⟨hfull, rfl⟩ | ⟨hfree, pool, notEmpty, hput, hnotify, rfl⟩
  · exact absurd hn (by omega)
  · refine ⟨hs.valid, hs.awake, ?_, hs.running⟩
    have hzero : s.pool.free = 0 := by
      rw [free, hfull, Int.sub_self]
      rfl
    exact hzero ▸ covered_zero
  · have : Nonempty (Fin n) := ⟨⟨0, hn⟩⟩
    refine ⟨hput.valid, fun _ => exists_awake_notify hnotify, ?_, ?_⟩
    · exact (hput.free hfree ▸ hs.covered).leave
    · exact fun w hw => hput.running.trans (hs.running w hw)

theorem take_wakeful {s t : State Task n m} (hs : Wakeful s) {w : Fin n}
    {left : Option Task} {choice : Option (Fin m)} (h : take s w left choice = some t) :
    Wakeful t := by
  rcases take_cases hs.valid h with
    ⟨hempty, -, rfl⟩ | ⟨hempty, -, rfl⟩ | ⟨-, task, pool, notFull, hgot, hnotify, rfl⟩
  · exact ⟨hs.valid, fun hsome => absurd hempty (ne_of_gt hsome), hs.covered, hs.running⟩
  · refine ⟨hs.valid, fun hsome => absurd hempty (ne_of_gt hsome), hs.covered, ?_⟩
    intro w' hw'
    exact hs.running w' (finished_of_update s.workers w (.execute none) nofun hw')
  · refine ⟨hgot.valid, fun _ => ⟨w, leave_ne_blocked⟩, ?_, ?_⟩
    · exact hgot.free hs.valid.le ▸ hs.covered.notify hnotify
    · intro w' hw'
      exact hgot.running.trans
        (hs.running w' (finished_of_update s.workers w (.execute task) nofun hw'))

theorem step_wakeful (hn : 0 < n) {s t : State Task n m} (hs : Wakeful s)
    {a : Action Task n m} (h : step s a = some t) : Wakeful t := by
  cases a with
  | call i task =>
      obtain ⟨-, h⟩ := Option.ite_none_right_eq_some.mp h
      cases h
      exact { hs with }
  | run i choice =>
      obtain ⟨task, h⟩ := run_of_step h
      exact run_wakeful hn hs h
  | loop w =>
      cases loop_of_step h
      refine { hs with running := fun w' hw' => ?_ }
      cases hrunning : s.pool.running with
      | false => rfl
      | true =>
          simp only [hrunning, if_true] at hw'
          exact hrunning.symm.trans
            (hs.running w' (finished_of_update s.workers w .take (by simp) hw'))
  | take w left choice => exact take_wakeful hs (take_of_step h)
  | execute w =>
      cases execute_of_step h
      refine { hs with running := fun w' hw' => ?_ }
      exact hs.running w' (finished_of_update s.workers w .loop (by simp) hw')
  | stop =>
      cases h
      exact ⟨{ hs.valid with }, fun _ => ⟨⟨0, hn⟩, notifyAll_ne_blocked⟩, hs.covered,
        fun _ _ => rfl⟩
  | wakeProducer i =>
      obtain ⟨hi, h⟩ := Option.ite_none_right_eq_some.mp h
      cases h
      exact { hs with covered := hs.covered.wake hi }
  | wakeWorker w =>
      obtain ⟨-, h⟩ := Option.ite_none_right_eq_some.mp h
      cases h
      exact { hs with awake := fun _ => ⟨w, leave_ne_blocked⟩ }

/-- The first two states are never reached. -/
theorem unstuck_iff {s : State Task n m} (hs : Wakeful s) : Unstuck s ↔ ¬Abandoned s := by
  refine ⟨fun h => h.stopped, fun h => ⟨?_, ?_, h⟩⟩
  · rintro ⟨-, hsome, hall⟩
    obtain ⟨w, hw⟩ := hs.awake hsome
    exact hw (hall w)
  · rintro ⟨hblocked, hfree, hnone⟩
    have hcount : s.pool.free ≤ s.notFull.notified := hs.covered hblocked
    have hzero : s.notFull.notified = 0 :=
      Finset.card_eq_zero.mpr (Finset.filter_eq_empty_iff.mpr fun i _ => hnone i)
    rw [hzero, free] at hcount
    omega

/-! ## The steps that abandon a producer -/

theorem run_abandoned (hn : 0 < n) {s t : State Task n m} (hs : Wakeful s)
    (hnot : ¬Abandoned s) {i : Fin m} {task : Task} {choice : Option (Fin n)}
    (h : run s i task choice = some t) :
    ¬Abandoned t ↔ Attended s (.run i choice) := by
  rcases run_cases hs.valid h with
    ⟨hzero, -⟩ | ⟨hfull, rfl⟩ | ⟨hfree, pool, notEmpty, hput, -, rfl⟩
  · exact absurd hn (by omega)
  · have hfull' : s.pool.isFullWithLock = true := (isFullWithLock_iff hs.valid).mpr hfull
    constructor
    · intro ht hall
      exact absurd ⟨hs.running ⟨0, hn⟩ (hall ⟨0, hn⟩), hall, i, wait_self⟩ ht
    · rintro hattended ⟨-, hall, -⟩
      exact Bool.noConfusion (hfull'.symm.trans (hattended hall))
  · refine iff_of_true ?_ fun _ => ?_
    · rintro ⟨hstopped, hall, j, hj⟩
      exact hnot ⟨hput.running.symm.trans hstopped, hall, j, (blocked_leave.mp hj).2⟩
    · exact Bool.eq_false_iff.mpr
        (mt (isFullWithLock_iff hs.valid).mp (ne_of_lt hfree))

theorem loop_abandoned {s t : State Task n m} {w : Fin n}
    (h : step s (.loop w) = some t) : ¬Abandoned t ↔ Attended s (.loop w) := by
  cases loop_of_step h
  cases hrunning : s.pool.running with
  | true =>
      refine iff_of_true ?_ fun hstopped => ?_
      · exact fun ht => Bool.noConfusion (hrunning.symm.trans ht.1)
      · exact Bool.noConfusion (hrunning.symm.trans hstopped)
  | false =>
      constructor
      · intro ht _ hall i hi
        have hall' : ∀ w', Function.update s.workers w .finished w' = .finished := by
          intro w'
          rw [Function.update_apply]
          split
          · rfl
          · exact hall w' ‹_›
        exact ht ⟨hrunning, hall', i, hi⟩
      · rintro hattended ⟨-, hall, i, hi⟩
        refine hattended hrunning (fun w' hne => ?_) i hi
        have hw' : Function.update s.workers w .finished w' = .finished := hall w'
        rwa [Function.update_of_ne hne] at hw'

theorem take_abandoned {s t : State Task n m} (hs : Wakeful s) (hnot : ¬Abandoned s)
    {w : Fin n} {left : Option Task} {choice : Option (Fin m)}
    (h : take s w left choice = some t) : ¬Abandoned t := by
  rcases take_cases hs.valid h with
    ⟨-, -, rfl⟩ | ⟨-, -, rfl⟩ | ⟨-, task, pool, notFull, -, -, rfl⟩
  · exact hnot
  · exact fun ht => update_ne_finished s.workers w (.execute none) nofun (ht.2.1 w)
  · exact fun ht => update_ne_finished s.workers w (.execute task) nofun (ht.2.1 w)

theorem step_abandoned (hn : 0 < n) {s t : State Task n m} (hs : Wakeful s)
    (hnot : ¬Abandoned s) {a : Action Task n m} (h : step s a = some t) :
    ¬Abandoned t ↔ Attended s a := by
  cases a with
  | call i task =>
      obtain ⟨-, h⟩ := Option.ite_none_right_eq_some.mp h
      cases h
      exact iff_of_true hnot trivial
  | run i choice =>
      obtain ⟨task, h⟩ := run_of_step h
      exact run_abandoned hn hs hnot h
  | loop w => exact loop_abandoned h
  | take w left choice => exact iff_of_true (take_abandoned hs hnot (take_of_step h)) trivial
  | execute w =>
      cases execute_of_step h
      refine iff_of_true (fun ht => ?_) trivial
      exact update_ne_finished s.workers w .loop (by simp) (ht.2.1 w)
  | stop =>
      cases h
      refine iff_of_true ?_ trivial
      rintro ⟨-, hall, hblocked⟩
      exact hnot ⟨hs.running ⟨0, hn⟩ (hall ⟨0, hn⟩), hall, hblocked⟩
  | wakeProducer i =>
      obtain ⟨-, h⟩ := Option.ite_none_right_eq_some.mp h
      cases h
      refine iff_of_true ?_ trivial
      rintro ⟨hstopped, hall, j, hj⟩
      exact hnot ⟨hstopped, hall, j, (blocked_leave.mp hj).2⟩
  | wakeWorker w =>
      obtain ⟨-, h⟩ := Option.ite_none_right_eq_some.mp h
      cases h
      exact iff_of_true hnot trivial

/-! ## Runs -/

/-- A run reaches none of the three states exactly when all of its steps are
attended. -/
theorem unstuck_throughout_iff {max : Nat} (hn : 1 ≤ n) (hpos : 1 ≤ max) (hint : max < 2 ^ 31)
    {as : List (Action Task n m)} {t : State Task n m}
    (h : exec step (State.init max) as = some t) :
    Throughout step Unstuck (State.init max) as ↔ Meets step Attended (State.init max) as := by
  have hinit : Wakeful (State.init max : State Task n m) := wakeful_init hpos hint
  have hnot : ¬Abandoned (State.init max : State Task n m) := fun hs => absurd hs.1 nofun
  refine throughout_iff_meets (J := Wakeful) (fun s a t hs ha => step_wakeful hn hs ha) ?_
    hinit ((unstuck_iff hinit).mpr hnot) h
  intro s a t hs hI ha
  rw [unstuck_iff (step_wakeful hn hs ha)]
  exact step_abandoned hn hs hI.stopped ha

/-- A worker that is in `take` when `stop` is called wakes the producer, and leaves after that. -/
theorem unstuck_late : ∃ (as : List (Action Nat 1 1)) (t : State Nat 1 1),
    exec step (State.init 1) as = some t ∧ t.pool.running = false ∧
      Throughout step Unstuck (State.init 1) as := by
  have h : (exec step (State.init 1 : State Nat 1 1)
      [.call 0 5, .run 0 none, .loop 0, .take 0 none none, .call 0 6, .run 0 none, .call 0 7,
        .run 0 none, .execute 0, .loop 0, .stop, .take 0 none (some 0), .run 0 none, .execute 0,
        .loop 0]).map (fun s => s.pool.running) = some false := by decide +kernel
  obtain ⟨t, ht, hstopped⟩ := Option.map_eq_some_iff.mp h
  exact ⟨_, t, ht, hstopped, (unstuck_throughout_iff (le_refl 1) (le_refl 1) (by decide) ht).mpr
    (by decide +kernel)⟩

/-- The worker is at its task when `stop` is called, the ring is full, and a producer waits. -/
theorem unstuck_fails : ¬∀ (n m max : Nat) (s : State Nat n m), 1 ≤ n → 1 ≤ m → 1 ≤ max →
    max < 2 ^ 31 → Reachable step (State.init max) s → Unstuck s := by
  intro hall
  have h : (exec step (State.init 1 : State Nat 1 1)
      [.call 0 5, .run 0 none, .loop 0, .take 0 none none, .call 0 6, .run 0 none, .call 0 7,
        .run 0 none, .stop, .execute 0, .loop 0]).map
      (fun s => (s.pool.running, s.workers 0, s.notFull 0)) =
        some (false, .finished, .blocked) := by decide +kernel
  obtain ⟨s, hs, hfields⟩ := Option.map_eq_some_iff.mp h
  obtain ⟨hstopped, hfields⟩ := Prod.mk.inj hfields
  obtain ⟨hworker, hblocked⟩ := Prod.mk.inj hfields
  have hworkers : ∀ w, s.workers w = .finished := fun w => Subsingleton.elim 0 w ▸ hworker
  have hunstuck := hall 1 1 1 s (le_refl 1) (le_refl 1) (le_refl 1) (by decide) ⟨_, hs⟩
  exact hunstuck.stopped ⟨hstopped, hworkers, 0, hblocked⟩

end ThreadPool

end WebServer

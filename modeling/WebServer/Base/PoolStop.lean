/-
# `Base.PoolStop` — the workers after `stop`

`stop` clears `running_`, notifies all that wait on `notEmpty_` and joins the workers.  From
then on no worker waits: one in `take` takes a task if there is one and calls it, and each
comes to its test of `running_`, which is its last step.  So a worker has three steps left at
most, and always the next of them (`Stopped.next`); those in `take` take one more task each,
and what is in the ring after that stays there, with all that `run` still accepts.
-/
import WebServer.Base.ThreadPool
import WebServer.Lib.Progress
import Mathlib.Algebra.Order.BigOperators.Group.Finset

namespace WebServer

namespace ThreadPool

open Machine Condition

variable {Task : Type} {n m : Nat}

/-- The worker that takes the step. -/
def Action.worker? : Action Task n m → Option (Fin n)
  | .loop w | .take w _ _ | .execute w => some w
  | .call _ _ | .run _ _ | .stop | .wakeProducer _ | .wakeWorker _ => none

/-- The steps a worker has left. -/
def Worker.left : Worker Task → Nat
  | .take => 3
  | .execute _ => 2
  | .loop => 1
  | .finished => 0

/-- The tasks a worker still finishes. -/
def Worker.unfinished : Worker Task → Nat
  | .take | .execute _ => 1
  | .loop | .finished => 0

/-- The action finishes a task of the worker. -/
def Action.finishes (w : Fin n) : Action Task n m → Bool
  | .execute v => v = w
  | _ => false

def State.left (s : State Task n m) : Nat := ∑ w, (s.workers w).left

/-- Those that will take from the ring. -/
def State.takers (s : State Task n m) : Finset (Fin n) :=
  Finset.univ.filter fun w => (s.workers w).left = 3

/-! ## Nobody waits -/

/-- Workers wait while the pool is running. -/
structure Quiet (s : State Task n m) : Prop where
  sound : Sound s
  running : ∀ w, s.notEmpty w = .blocked → s.pool.running = true

variable {s t : State Task n m} {a : Action Task n m}

theorem quiet_init {max : Nat} (hpos : 0 < max) (hint : max < 2 ^ 31) :
    Quiet (State.init max : State Task n m) :=
  ⟨sound_init hpos hint, fun _ h => absurd h nofun⟩

theorem running_notify {c c' : Condition (Fin n)} {choice : Option (Fin n)}
    (h : c.notify choice = some c') {w : Fin n} (hw : c' w = .blocked) : c w = .blocked := by
  rcases notify_cases h with ⟨i, -, rfl⟩ | ⟨-, rfl⟩
  · by_cases hwi : w = i
    · subst hwi
      rw [Function.update_self] at hw
      cases hw
    · rwa [Function.update_of_ne hwi] at hw
  · exact hw

theorem quiet_step (hs : Quiet s) (h : step s a = some t) : Quiet t := by
  refine ⟨step_sound hs.sound h, fun w hw => ?_⟩
  cases a with
  | call i task =>
      obtain ⟨-, h⟩ := Option.ite_none_right_eq_some.mp h
      cases h
      exact hs.running w hw
  | run i choice =>
      obtain ⟨task, h⟩ := run_of_step h
      rcases run_cases hs.sound.valid h with ⟨-, rfl⟩ | ⟨-, rfl⟩ | ⟨-, pool, c, hput, hnotify, rfl⟩
      · exact hs.running w hw
      · exact hs.running w hw
      · exact hput.running.trans (hs.running w (running_notify hnotify hw))
  | loop w' =>
      cases loop_of_step h
      exact hs.running w hw
  | take w' left choice =>
      rcases take_cases hs.sound.valid (take_of_step h) with
        ⟨-, hrunning, rfl⟩ | ⟨-, -, rfl⟩ | ⟨-, task, pool, c, hgot, -, rfl⟩
      · exact hrunning
      · exact hs.running w (blocked_leave.mp hw).2
      · exact hgot.running.trans (hs.running w (blocked_leave.mp hw).2)
  | execute w' =>
      cases execute_of_step h
      exact hs.running w hw
  | stop =>
      cases h
      exact absurd hw notifyAll_ne_blocked
  | wakeProducer i =>
      obtain ⟨-, h⟩ := Option.ite_none_right_eq_some.mp h
      cases h
      exact hs.running w hw
  | wakeWorker w' =>
      obtain ⟨-, h⟩ := Option.ite_none_right_eq_some.mp h
      cases h
      exact hs.running w (blocked_leave.mp hw).2

/-- `stop` has been called. -/
structure Stopped (s : State Task n m) : Prop extends Quiet s where
  stopped : s.pool.running = false

theorem Stopped.awake (hs : Stopped s) (w : Fin n) : s.notEmpty w ≠ .blocked := fun hw =>
  Bool.noConfusion (hs.stopped.symm.trans (hs.running w hw))

/-! ## What a step does to the workers -/

/-- What happens to the workers, and to what they take. -/
inductive Moved (s t : State Task n m) : Option (Fin n) → Prop where
  | rest (workers : t.workers = s.workers) (taken : t.taken = s.taken) : Moved s t none
  | leave (w : Fin n) (place : s.workers w = .loop)
      (workers : t.workers = Function.update s.workers w .finished)
      (taken : t.taken = s.taken) : Moved s t (some w)
  | took (w : Fin n) (task : Option Task) (place : s.workers w = .take)
      (workers : t.workers = Function.update s.workers w (.execute task))
      (taken : t.taken = s.taken ++ [task]) : Moved s t (some w)
  | back (w : Fin n) (task : Option Task) (place : s.workers w = .execute task)
      (workers : t.workers = Function.update s.workers w .loop)
      (taken : t.taken = s.taken) : Moved s t (some w)

theorem stopped_step (hs : Stopped s) (h : step s a = some t) :
    Stopped t ∧ Moved s t a.worker? := by
  suffices hmoved : t.pool.running = false ∧ Moved s t a.worker? from
    ⟨⟨quiet_step hs.toQuiet h, hmoved.1⟩, hmoved.2⟩
  cases a with
  | call i task =>
      obtain ⟨-, h⟩ := Option.ite_none_right_eq_some.mp h
      cases h
      exact ⟨hs.stopped, .rest rfl rfl⟩
  | run i choice =>
      obtain ⟨task, h⟩ := run_of_step h
      rcases run_cases hs.sound.valid h with ⟨-, rfl⟩ | ⟨-, rfl⟩ | ⟨-, pool, c, hput, -, rfl⟩
      · exact ⟨hs.stopped, .rest rfl rfl⟩
      · exact ⟨hs.stopped, .rest rfl rfl⟩
      · exact ⟨hput.running.trans hs.stopped, .rest rfl rfl⟩
  | loop w =>
      have hplace : s.workers w = .loop := by
        rw [step] at h
        split at h
        · assumption
        · cases h
      cases loop_of_step h
      exact ⟨hs.stopped, .leave w hplace (by rw [hs.stopped, if_neg (by simp)]) rfl⟩
  | take w left choice =>
      have hplace : s.workers w = .take := by
        rw [step] at h
        split at h
        · assumption
        · cases h
      rcases take_cases hs.sound.valid (take_of_step h) with
        ⟨-, hrunning, -⟩ | ⟨-, -, rfl⟩ | ⟨-, task, pool, c, hgot, -, rfl⟩
      · exact Bool.noConfusion (hs.stopped.symm.trans hrunning)
      · exact ⟨hs.stopped, .took w none hplace rfl rfl⟩
      · exact ⟨hgot.running.trans hs.stopped, .took w task hplace rfl rfl⟩
  | execute w =>
      cases hplace : s.workers w with
      | execute task =>
          cases execute_of_step h
          exact ⟨hs.stopped, .back w task hplace rfl rfl⟩
      | loop | take | finished =>
          rw [step, hplace] at h
          cases h
  | stop =>
      cases h
      exact ⟨rfl, .rest rfl rfl⟩
  | wakeProducer i =>
      obtain ⟨-, h⟩ := Option.ite_none_right_eq_some.mp h
      cases h
      exact ⟨hs.stopped, .rest rfl rfl⟩
  | wakeWorker w =>
      obtain ⟨-, h⟩ := Option.ite_none_right_eq_some.mp h
      cases h
      exact ⟨hs.stopped, .rest rfl rfl⟩

/-! ## What is left -/

/-- A step of a worker leaves it one less, and the others as many. -/
theorem Moved.left {v : Option (Fin n)} (h : Moved s t v) (w : Fin n) :
    (t.workers w).left + (if v = some w then 1 else 0) = (s.workers w).left := by
  have hmove : ∀ {v : Fin n} {p : Worker Task}, t.workers = Function.update s.workers v p →
      p.left + 1 = (s.workers v).left →
      (t.workers w).left + (if some v = some w then 1 else 0) = (s.workers w).left := by
    intro v p hworkers hp
    rw [hworkers, Function.update_apply]
    by_cases hw : w = v
    · rw [if_pos hw, if_pos (congrArg some hw.symm), hp, hw]
    · rw [if_neg hw, if_neg fun h => hw (Option.some.inj h).symm, Nat.add_zero]
  cases h with
  | rest workers => rw [workers]; rfl
  | leave v place workers => exact hmove workers (by rw [place]; rfl)
  | took v task place workers => exact hmove workers (by rw [place]; rfl)
  | back v task place workers => exact hmove workers (by rw [place]; rfl)

/-- No worker gets a task to finish but by taking it, for which it is counted already. -/
theorem Moved.unfinished {v : Option (Fin n)} (h : Moved s t v) (w : Fin n) :
    (t.workers w).unfinished ≤ (s.workers w).unfinished := by
  have hmove : ∀ {v : Fin n} {p : Worker Task}, t.workers = Function.update s.workers v p →
      p.unfinished ≤ (s.workers v).unfinished →
      (t.workers w).unfinished ≤ (s.workers w).unfinished := by
    intro v p hworkers hp
    rw [hworkers, Function.update_apply]
    by_cases hw : w = v
    · rw [if_pos hw, hw]
      exact hp
    · rw [if_neg hw]
  cases h with
  | rest workers => rw [workers]
  | leave v place workers => exact hmove workers (by rw [place]; exact Nat.le_refl 0)
  | took v task place workers => exact hmove workers (by rw [place]; exact Nat.le_refl 1)
  | back v task place workers => exact hmove workers (Nat.zero_le _)

theorem takers_update {w : Fin n} {p : Worker Task}
    (hworkers : t.workers = Function.update s.workers w p) (hp : p.left ≠ 3) :
    t.takers = s.takers.erase w := by
  ext w'
  rw [Finset.mem_erase, State.takers, State.takers, Finset.mem_filter, Finset.mem_filter, hworkers]
  by_cases hw : w' = w
  · subst hw
    rw [Function.update_self]
    simp [hp]
  · rw [Function.update_of_ne hw]
    simp [hw]

/-- Who takes, takes once. -/
theorem Moved.takers {w : Option (Fin n)} (h : Moved s t w) :
    ∃ got, t.taken = s.taken ++ got ∧ got.length + t.takers.card = s.takers.card := by
  have hout : ∀ {w : Fin n} {p : Worker Task}, s.workers w = p → p.left ≠ 3 → w ∉ s.takers := by
    intro w p hplace hp hmem
    rw [State.takers, Finset.mem_filter, hplace] at hmem
    exact hp hmem.2
  cases h with
  | rest workers taken =>
      refine ⟨[], taken.trans (List.append_nil _).symm, ?_⟩
      rw [State.takers, State.takers, workers, List.length_nil, Nat.zero_add]
  | leave w place workers taken =>
      refine ⟨[], taken.trans (List.append_nil _).symm, ?_⟩
      rw [takers_update workers (by simp [Worker.left]),
        Finset.erase_eq_of_notMem (hout place (by simp [Worker.left])), List.length_nil,
        Nat.zero_add]
  | took w task place workers taken =>
      have hmem : w ∈ s.takers := by
        rw [State.takers, Finset.mem_filter, place]
        exact ⟨Finset.mem_univ w, rfl⟩
      refine ⟨[task], taken, ?_⟩
      rw [takers_update workers (by simp [Worker.left]), List.length_singleton, Nat.add_comm]
      exact Finset.card_erase_add_one hmem
  | back w task place workers taken =>
      refine ⟨[], taken.trans (List.append_nil _).symm, ?_⟩
      rw [takers_update workers (by simp [Worker.left]),
        Finset.erase_eq_of_notMem (hout place (by simp [Worker.left])), List.length_nil,
        Nat.zero_add]

theorem exec_takers {more : List (Action Task n m)} : ∀ {s : State Task n m}, Stopped s →
    exec step s more = some t →
    Stopped t ∧ ∃ got, t.taken = s.taken ++ got ∧ got.length + t.takers.card = s.takers.card := by
  induction more with
  | nil =>
      intro s hs h
      cases h
      exact ⟨hs, [], (List.append_nil _).symm, Nat.zero_add _⟩
  | cons a more ih =>
      intro s hs h
      obtain ⟨u, hu, h⟩ := exec_cons.mp h
      obtain ⟨hsu, hmoved⟩ := stopped_step hs hu
      obtain ⟨got, hgot, hcard⟩ := hmoved.takers
      obtain ⟨ht, got', hgot', hcard'⟩ := ih hsu h
      refine ⟨ht, got ++ got', ?_, ?_⟩
      · rw [hgot', hgot, List.append_assoc]
      · rw [List.length_append]
        omega

/-! ## There is always a next step -/

theorem exists_notify (c : Condition (Fin m)) : ∃ choice c', c.notify choice = some c' := by
  by_cases h : ∃ i, c i = .blocked
  · obtain ⟨i, hi⟩ := h
    exact ⟨some i, _, if_pos hi⟩
  · exact ⟨none, c, if_pos (not_exists.mp h)⟩

theorem exists_take (hs : Stopped s) (w : Fin n) : ∃ choice t, take s w none choice = some t := by
  by_cases hempty : s.pool.isEmptyWithLock = true
  · have hnot : (s.pool.isEmptyWithLock && s.pool.running) ≠ true := by
      rw [hs.stopped, Bool.and_false]
      nofun
    exact ⟨none, _, (if_neg hnot).trans (if_pos hempty)⟩
  · have hsome : 0 < s.pool.currentSize :=
      lt_of_le_of_ne hs.sound.valid.nonneg
        (Ne.symm (mt (isEmptyWithLock_iff hs.sound.valid).mpr hempty))
    obtain ⟨task, pool, hget, -⟩ := get_spec hs.sound.valid hsome none
    obtain ⟨choice, c, hnotify⟩ : ∃ choice c, notifyNotFull pool s.notFull choice = some c := by
      by_cases hfree : sizeT pool.currentSize < pool.maxQueueSize
      · obtain ⟨choice, c, hc⟩ := exists_notify s.notFull
        exact ⟨choice, c, (if_pos hfree).trans hc⟩
      · exact ⟨none, s.notFull, if_neg hfree⟩
    have hnot : (s.pool.isEmptyWithLock && s.pool.running) ≠ true := fun h =>
      hempty (Bool.and_eq_true_iff.mp h).1
    refine ⟨choice, { s with
      pool, notFull := c, notEmpty := s.notEmpty.leave w
      workers := Function.update s.workers w (.execute task)
      taken := s.taken ++ [task] }, (if_neg hnot).trans ((if_neg hempty).trans ?_)⟩
    exact Option.bind_eq_some_iff.mpr ⟨_, hget, Option.bind_eq_some_iff.mpr ⟨c, hnotify, rfl⟩⟩

theorem Stopped.next (hs : Stopped s) {w : Fin n} (hw : s.workers w ≠ .finished) :
    ∃ a t, a.worker? = some w ∧ step s a = some t := by
  cases hplace : s.workers w with
  | loop => exact ⟨.loop w, _, rfl, by rw [step, hplace]⟩
  | take =>
      obtain ⟨choice, t, ht⟩ := exists_take hs w
      refine ⟨.take w none choice, t, rfl, ?_⟩
      rw [step, hplace]
      exact (if_pos (hs.awake w)).trans ht
  | execute task => exact ⟨.execute w, _, rfl, by rw [step, hplace]⟩
  | finished => exact absurd hplace hw

/-! ## Every run -/

theorem own_step (w : Fin n) (s : State Task n m) (a : Action Task n m) (t : State Task n m)
    (hs : Stopped s) (h : step s a = some t) :
    Stopped t ∧ (t.workers w).left ≤ (s.workers w).left ∧
      (decide (a.worker? = some w) = true → (t.workers w).left < (s.workers w).left) := by
  obtain ⟨ht, hmoved⟩ := stopped_step hs h
  have hleft := hmoved.left w
  refine ⟨ht, by omega, fun hworker => ?_⟩
  rw [if_pos (of_decide_eq_true hworker)] at hleft
  omega

theorem finishes_step (w : Fin n) (s : State Task n m) (a : Action Task n m) (t : State Task n m)
    (hs : Stopped s) (h : step s a = some t) :
    Stopped t ∧ (t.workers w).unfinished ≤ (s.workers w).unfinished ∧
      (a.finishes w = true → (t.workers w).unfinished < (s.workers w).unfinished) := by
  obtain ⟨ht, hmoved⟩ := stopped_step hs h
  refine ⟨ht, hmoved.unfinished w, fun hfinishes => ?_⟩
  cases a with
  | execute v =>
      obtain rfl : v = w := of_decide_eq_true hfinishes
      cases hplace : s.workers v with
      | execute task =>
          cases execute_of_step h
          dsimp only
          rw [Function.update_self]
          exact Nat.zero_lt_one
      | loop | take | finished =>
          rw [step, hplace] at h
          cases h
  | _ => exact absurd hfinishes Bool.false_ne_true

theorem exists_finished (hs : Stopped s) : ∃ more t, (∀ a ∈ more, a.worker?.isSome) ∧
    exec step s more = some t ∧ ∀ w, t.workers w = .finished := by
  have hstep : ∀ (s : State Task n m) (a : Action Task n m) t, Stopped s → a.worker?.isSome →
      step s a = some t → Stopped t ∧ t.left < s.left := by
    intro s a t hs hworker h
    obtain ⟨ht, hmoved⟩ := stopped_step hs h
    obtain ⟨w, hw⟩ := Option.isSome_iff_exists.mp hworker
    refine ⟨ht, Finset.sum_lt_sum (fun v _ => (own_step v s a t hs h).2.1)
      ⟨w, Finset.mem_univ w, (own_step w s a t hs h).2.2 (decide_eq_true hw)⟩⟩
  have hgo : ∀ s : State Task n m, Stopped s → (¬∀ w, s.workers w = .finished) →
      ∃ a t, a.worker?.isSome ∧ step s a = some t := by
    intro s hs hnot
    obtain ⟨w, hw⟩ := not_forall.mp hnot
    obtain ⟨a, t, hworker, ht⟩ := hs.next hw
    exact ⟨a, t, by rw [hworker]; rfl, ht⟩
  obtain ⟨more, t, hmeets, ht, hall⟩ := exists_exec hstep hgo hs
  exact ⟨more, t, (meets_iff_forall ht).mp hmeets, ht, hall⟩

theorem countP_worker_le (hs : Stopped s) {more : List (Action Task n m)}
    (h : exec step s more = some t) (w : Fin n) :
    more.countP (fun a => a.worker? = some w) ≤ 3 ∧ more.countP (Action.finishes w) ≤ 1 := by
  have hsteps := countP_le (own_step w) hs h
  have htasks := countP_le (finishes_step w) hs h
  have hbounds : (s.workers w).left ≤ 3 ∧ (s.workers w).unfinished ≤ 1 := by
    cases s.workers w <;> simp [Worker.left, Worker.unfinished]
  exact ⟨by omega, by omega⟩

/-- In every run of a pool in which `stop` has been called: a worker that has not left has a
step it can take at once; whatever the others do, it takes three steps at most from there,
and finishes one more task at most, and those that are in `take` take one more each; and
there are steps of theirs after which all have left, so that `stop` returns. -/
theorem stops {max : Nat} (hpos : 1 ≤ max) (hint : max < 2 ^ 31) {acts : List (Action Task n m)}
    (h : exec step (State.init max) acts = some s) (hstopped : s.pool.running = false) :
    (∀ w, s.workers w ≠ .finished → ∃ a t, a.worker? = some w ∧ step s a = some t) ∧
      (∀ more t, exec step s more = some t →
        (∀ w, more.countP (fun a => a.worker? = some w) ≤ 3 ∧
          more.countP (Action.finishes w) ≤ 1) ∧
        ∃ got, t.taken = s.taken ++ got ∧ got.length ≤ s.takers.card ∧
          (t.taken.filter Option.isSome) ++ t.pool.contents = t.accepted.map some) ∧
      ∃ more t, (∀ a ∈ more, a.worker?.isSome) ∧ exec step s more = some t ∧
        ∀ w, t.workers w = .finished := by
  have hquiet : Quiet s := exec_invariant (fun _ _ _ hs _ ha => quiet_step hs ha)
    (meets_true _ _) (quiet_init hpos hint) h
  have hs : Stopped s := ⟨hquiet, hstopped⟩
  refine ⟨fun w => hs.next, fun more t ht => ⟨countP_worker_le hs ht, ?_⟩, exists_finished hs⟩
  obtain ⟨hst, got, htaken, hcard⟩ := exec_takers hs ht
  exact ⟨got, htaken, by omega, hst.sound.lossless⟩

/-- One worker is at a task, the other waits for one, and another task comes after `stop`. -/
theorem stops_two : ∃ s : State Nat 2 1, s.takers.card = 1 ∧
    ∃ more t, (∀ a ∈ more, a.worker?.isSome) ∧ exec step s more = some t ∧
      ∀ w, t.workers w = .finished := by
  have hgo : (exec step (State.init 2 : State Nat 2 1)
      [.loop 1, .take 1 none none, .call 0 5, .run 0 (some 1), .loop 0, .take 0 none none,
        .stop, .call 0 6, .run 0 none]).map
      (fun s => (s.pool.running, s.takers.card)) = some (false, 1) := by
    decide +kernel
  obtain ⟨s, hs, hfields⟩ := Option.map_eq_some_iff.mp hgo
  obtain ⟨hstopped, htakers⟩ := Prod.mk.inj hfields
  exact ⟨s, htakers, (stops (by decide) (by decide) hs hstopped).2.2⟩

end ThreadPool

end WebServer

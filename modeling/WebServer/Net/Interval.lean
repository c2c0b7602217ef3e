/-
# `Net.Interval` — the period of a repeating timer

`addTimer` gets its interval in seconds, as a `double`, and a `Timer` keeps it as
an `int`.  What `restart` adds to `now` is therefore the whole seconds of the
interval, and an interval of less than a second is none at all: the timer goes
back into the queue with an expiration that has already come.

`intervals` lists what the timers of a run were given, in the order of their
sequence numbers, and `Given` says that every timer in the heap has the interval
it was given, cut to whole seconds.  What a step can do to a timer is in
`step_timer`: nothing, unless it creates it, deletes it or restarts it at the end
of a batch it was taken for.  So once a timer has been put back for a time, it is
not taken for a batch before that time (`Later`, `later_step`).
-/
import WebServer.Net.Deadline
import Mathlib.Data.List.TakeWhile
import Mathlib.Algebra.Ring.Int.Defs

namespace WebServer

namespace Timers

/-! ## Restarting -/

/-- The initialisation of `interval_`, a `double` of seconds converted to an
`int`; undefined when the whole seconds are no `int`. -/
def toInt (interval : Int) : Option Int :=
  let seconds := interval.tdiv microSecondsPerSecond
  if -2 ^ 31 ≤ seconds ∧ seconds < 2 ^ 31 then some seconds else none

theorem Timer.restart_restart (t : Timer) (now : Int) :
    (t.restart now).restart now = t.restart now := by
  cases hrepeats : t.repeats with
  | true => simp [Timer.restart, hrepeats]
  | false => simp [Timer.restart, hrepeats]

theorem Timer.restart_repeats {t : Timer} (h : t.repeats = true) (now : Int) :
    t.restart now = { t with expiration := now + t.interval * microSecondsPerSecond } :=
  if_pos h

namespace Calls

open Machine TimerQueue

variable {q q' : TimerQueue}

/-- What `resetOne` does to the heap: the timer is restarted or deleted. -/
theorem resetOne_heap {now : Int} {e : Entry} (h : TimerQueue.resetOne now q e = some q') :
    q'.cancelingTimers = q.cancelingTimers ∧ q'.sqe_numCreated = q.sqe_numCreated ∧
      (∀ f ∈ q.timers, f ∈ q'.timers) ∧
      ∃ t, q.heap e.timer = some t ∧
        ((t.repeats = true ∧ ⟨e.timer, t.sequence⟩ ∉ q.cancelingTimers ∧
            ⟨(t.restart now).expiration, e.timer⟩ ∈ q'.timers ∧
            q'.heap = Function.update q.heap e.timer (some (t.restart now))) ∨
          (¬(t.repeats = true ∧ ⟨e.timer, t.sequence⟩ ∉ q.cancelingTimers) ∧
            q'.heap = Function.update q.heap e.timer none)) := by
  obtain ⟨t, ht, h⟩ := Option.bind_eq_some_iff.mp h
  split at h
  · rename_i hagain
    obtain ⟨⟨r, changed⟩, hinsert, h⟩ := Option.map_eq_some_iff.mp h
    cases h
    obtain ⟨changed', hentered⟩ := insert_eq
      (q := { q with heap := Function.update q.heap e.timer (some (t.restart now)) })
      (Function.update_self e.timer (some (t.restart now)) q.heap)
    cases hinsert.symm.trans hentered
    exact ⟨rfl, rfl, fun f hf => OrderedSet.mem_insert.mpr (Or.inr hf), t, ht,
      Or.inl ⟨hagain.1, hagain.2, OrderedSet.mem_insert.mpr (Or.inl rfl), rfl⟩⟩
  · rename_i hdone
    cases h
    exact ⟨rfl, rfl, fun f hf => hf, t, ht, Or.inr ⟨hdone, rfl⟩⟩

/-- What the loop of `reset` leaves of a timer is the timer, or it restarted. -/
theorem resetAll_timer {now : Int} (es : List Entry) : ∀ {q : TimerQueue},
    es.foldlM (TimerQueue.resetOne now) q = some q' →
    q'.sqe_numCreated = q.sqe_numCreated ∧ ∀ {a : Addr} {t' : Timer}, q'.heap a = some t' →
      ∃ t, q.heap a = some t ∧
        (t' = t ∨ (t.repeats = true ∧ a ∈ es.map Entry.timer ∧ t' = t.restart now)) := by
  induction es with
  | nil =>
      intro q h
      cases h
      exact ⟨rfl, fun ht' => ⟨_, ht', Or.inl rfl⟩⟩
  | cons e es ih =>
      intro q h
      rw [List.foldlM_cons] at h
      obtain ⟨r, hone, h⟩ := Option.bind_eq_some_iff.mp h
      obtain ⟨hnum, hrest⟩ := ih h
      obtain ⟨-, hnum', -, t, ht, hheap⟩ := resetOne_heap hone
      refine ⟨hnum.trans hnum', ?_⟩
      intro a t' ht'
      obtain ⟨u, hu, hcases⟩ := hrest ht'
      have hkept : a ≠ e.timer → q.heap a = some u := by
        intro hne
        rcases hheap with ⟨-, -, -, hheap⟩ | ⟨-, hheap⟩ <;> rw [hheap] at hu <;>
          exact (Function.update_of_ne hne _ _).symm.trans hu
      by_cases hae : a = e.timer
      · subst hae
        rcases hheap with ⟨hrepeats, -, -, hheap⟩ | ⟨-, hheap⟩
        · rw [hheap] at hu
          cases (Function.update_self _ _ _).symm.trans hu
          refine ⟨t, ht, Or.inr ⟨hrepeats, List.mem_cons_self, ?_⟩⟩
          rcases hcases with rfl | ⟨-, -, rfl⟩
          · rfl
          · exact t.restart_restart now
        · rw [hheap] at hu
          exact absurd ((Function.update_self _ _ _).symm.trans hu) (Option.some_ne_none u).symm
      · refine ⟨u, hkept hae, hcases.imp_right ?_⟩
        rintro ⟨hrepeats, hmem, heq⟩
        exact ⟨hrepeats, List.mem_cons_of_mem _ hmem, heq⟩

/-- A timer that the loop of `reset` has put back stays as it is. -/
theorem resetAll_keeps {now : Int} {a : Addr} {t : Timer} (hrepeats : t.repeats = true)
    (es : List Entry) : ∀ {q : TimerQueue},
    es.foldlM (TimerQueue.resetOne now) q = some q' →
    ⟨a, t.sequence⟩ ∉ q.cancelingTimers → q.heap a = some (t.restart now) →
    ⟨(t.restart now).expiration, a⟩ ∈ q.timers →
    q'.heap a = some (t.restart now) ∧ ⟨(t.restart now).expiration, a⟩ ∈ q'.timers := by
  induction es with
  | nil =>
      intro q h _ hheap htimers
      cases h
      exact ⟨hheap, htimers⟩
  | cons e es ih =>
      intro q h hcancel hheap htimers
      rw [List.foldlM_cons] at h
      obtain ⟨r, hone, h⟩ := Option.bind_eq_some_iff.mp h
      obtain ⟨hcanceling, -, hsub, u, hu, hcases⟩ := resetOne_heap hone
      refine ih h (hcanceling ▸ hcancel) ?_ (hsub _ htimers)
      by_cases hae : a = e.timer
      · subst hae
        cases hheap.symm.trans hu
        rcases hcases with ⟨-, -, -, hr⟩ | ⟨hdone, -⟩
        · rw [hr, t.restart_restart]
          exact Function.update_self _ _ _
        · refine absurd ⟨?_, ?_⟩ hdone
          · rw [Timer.restart_repeats hrepeats]
            exact hrepeats
          · rw [Timer.sequence_restart]
            exact hcancel
      · rcases hcases with ⟨-, -, -, hr⟩ | ⟨-, hr⟩ <;> rw [hr] <;>
          exact (Function.update_of_ne hae _ _).trans hheap

/-- A repeating timer of the batch that was not cancelled is restarted. -/
theorem resetAll_restarts {now : Int} {a : Addr} {t : Timer} (hrepeats : t.repeats = true)
    (es : List Entry) : ∀ {q : TimerQueue},
    es.foldlM (TimerQueue.resetOne now) q = some q' → a ∈ es.map Entry.timer →
    ⟨a, t.sequence⟩ ∉ q.cancelingTimers → q.heap a = some t →
    q'.heap a = some (t.restart now) ∧ ⟨(t.restart now).expiration, a⟩ ∈ q'.timers := by
  induction es with
  | nil => exact fun _ hmem => absurd hmem List.not_mem_nil
  | cons e es ih =>
      intro q h hmem hcancel hheap
      rw [List.foldlM_cons] at h
      obtain ⟨r, hone, h⟩ := Option.bind_eq_some_iff.mp h
      obtain ⟨hcanceling, -, -, u, hu, hcases⟩ := resetOne_heap hone
      by_cases hae : a = e.timer
      · subst hae
        cases hheap.symm.trans hu
        rcases hcases with ⟨-, -, htimers, hr⟩ | ⟨hdone, -⟩
        · refine resetAll_keeps hrepeats es h (hcanceling ▸ hcancel) ?_ htimers
          rw [hr]
          exact Function.update_self _ _ _
        · exact absurd ⟨hrepeats, hcancel⟩ hdone
      · refine ih h ((List.mem_cons.mp hmem).resolve_left hae) (hcanceling ▸ hcancel) ?_
        rcases hcases with ⟨-, -, -, hr⟩ | ⟨-, hr⟩ <;> rw [hr] <;>
          exact (Function.update_of_ne hae _ _).trans hheap

/-! ## What a step does to a timer -/

theorem addTimerInLoop_heap {a : Addr} {clock : Int} (h : q.addTimerInLoop a clock = some q') :
    q'.heap = q.heap ∧ q'.sqe_numCreated = q.sqe_numCreated := by
  obtain ⟨⟨r, changed⟩, hinsert, h⟩ := Option.bind_eq_some_iff.mp h
  have hr : r.heap = q.heap ∧ r.sqe_numCreated = q.sqe_numCreated := by
    obtain ⟨t, -, hinsert⟩ := Option.bind_eq_some_iff.mp hinsert
    cases hinsert
    exact ⟨rfl, rfl⟩
  cases changed with
  | true =>
      obtain ⟨u, -, h⟩ := Option.bind_eq_some_iff.mp h
      cases h
      exact hr
  | false =>
      cases h
      exact hr

theorem cancelInLoop_heap {id : TimerId} (h : q.cancelInLoop id = some q') :
    (∀ {a t}, q'.heap a = some t → q.heap a = some t) ∧
      q'.sqe_numCreated = q.sqe_numCreated := by
  rw [TimerQueue.cancelInLoop] at h
  split at h
  · obtain ⟨t, -, h⟩ := Option.bind_eq_some_iff.mp h
    cases h
    refine ⟨?_, rfl⟩
    intro a u hu
    have hne : a ≠ id.timer := by
      rintro rfl
      exact absurd ((Function.update_self _ _ _).symm.trans hu) (Option.some_ne_none u).symm
    exact (Function.update_of_ne hne _ _).symm.trans hu
  · split at h <;> cases h <;> exact ⟨fun ht => ht, rfl⟩

/-- `getExpired` takes timers that are due. -/
theorem getExpired_due {now : Int} {expired : List Entry}
    (h : q.getExpired now = some (q', expired)) :
    q'.heap = q.heap ∧ q'.sqe_numCreated = q.sqe_numCreated ∧
      ∀ e ∈ expired, e ∈ q.timers ∧ e.when ≤ now := by
  obtain ⟨r, hfold, h⟩ := Option.bind_eq_some_iff.mp h
  cases h
  obtain ⟨active, rfl, -⟩ := eraseActive_frame _ hfold
  refine ⟨rfl, rfl, ?_⟩
  intro e he
  have hlt : e < (⟨now, uintptrMax⟩ : Entry) := by simpa using List.mem_takeWhile_imp he
  exact ⟨(List.takeWhile_sublist _).mem he, Entry.when_le hlt.le⟩

theorem reset_heap {es : List Entry} {now clock : Int} (h : q.reset es now clock = some q') :
    ∃ r, es.foldlM (TimerQueue.resetOne now) q = some r ∧ q'.heap = r.heap ∧
      q'.timers = r.timers ∧ q'.sqe_numCreated = r.sqe_numCreated := by
  obtain ⟨r, hfold, h⟩ := Option.bind_eq_some_iff.mp h
  refine ⟨r, hfold, ?_⟩
  cases htimers : r.timers with
  | nil =>
      rw [htimers] at h
      cases h
      exact ⟨rfl, htimers, rfl⟩
  | cons e rest =>
      rw [htimers] at h
      obtain ⟨t, -, h⟩ := Option.bind_eq_some_iff.mp h
      split at h <;> cases h <;> exact ⟨rfl, htimers, rfl⟩

/-- The interval an operation gives to the timer it creates. -/
def Op.interval? : Op → Option Int
  | .create _ _ interval => some interval
  | _ => none

variable {s s' : State} {op : Op}

/-- What a step can do to a timer that is there after it. -/
inductive Stepped (s s' : State) (op : Op) (a : Addr) (t' : Timer) : Prop where
  | same (h : s.queue.heap a = some t')
  | restarted (b : Batch) (t : Timer) (hbatch : s.batch = some b) (hdone : s'.batch = none)
      (h : s.queue.heap a = some t) (hrepeats : t.repeats = true)
      (hstarted : a ∈ b.started.map Entry.timer) (ht' : t' = t.restart b.now)
  | created (when interval : Int) (hop : op = .create a when interval)
      (ht' : t' = Timer.new (s.queue.sqe_numCreated + 1) when interval)

theorem step_timer (h : step s op = some s') :
    s'.queue.sqe_numCreated = s.queue.sqe_numCreated + op.interval?.toList.length ∧
      ∀ {a t'}, s'.queue.heap a = some t' → Stepped s s' op a t' := by
  obtain ⟨hallows, h⟩ := Option.ite_none_right_eq_some.mp h
  cases op with
  | create timer when interval =>
      cases h
      refine ⟨rfl, ?_⟩
      intro a t' ht'
      by_cases ha : a = timer
      · subst ha
        exact .created when interval rfl
          (Option.some.inj ((Function.update_self a _ s.queue.heap).symm.trans ht')).symm
      · exact .same ((Function.update_of_ne ha _ _).symm.trans ht')
  | addTimerInLoop id clock =>
      obtain ⟨q, hadd, h⟩ := Option.bind_eq_some_iff.mp h
      cases h
      obtain ⟨hheap, hnum⟩ := addTimerInLoop_heap hadd
      refine ⟨hnum, ?_⟩
      intro a t' ht'
      exact .same ((congrFun hheap a).symm.trans ht')
  | cancelInLoop id =>
      obtain ⟨q, hcancel, h⟩ := Option.bind_eq_some_iff.mp h
      cases h
      obtain ⟨hheap, hnum⟩ := cancelInLoop_heap hcancel
      exact ⟨hnum, fun ht' => .same (hheap ht')⟩
  | handleRead now read =>
      obtain ⟨⟨q, expired⟩, hget, h⟩ := Option.bind_eq_some_iff.mp h
      cases h
      obtain ⟨hheap, hnum, -⟩ := getExpired_due hget
      refine ⟨hnum, ?_⟩
      intro a t' ht'
      exact .same ((congrFun hheap a).symm.trans ht')
  | run =>
      rw [State.perform] at h
      cases hbatch : s.batch with
      | none => rw [hbatch] at h; cases h
      | some b =>
          obtain ⟨now, started, waiting⟩ := b
          cases waiting with
          | nil => rw [hbatch] at h; cases h
          | cons e waiting =>
              rw [hbatch] at h
              obtain ⟨t, -, h⟩ := Option.bind_eq_some_iff.mp h
              cases h
              exact ⟨rfl, fun ht' => .same ht'⟩
  | reset clock =>
      rw [State.perform] at h
      cases hbatch : s.batch with
      | none => rw [hbatch] at h; cases h
      | some b =>
          obtain ⟨now, started, waiting⟩ := b
          rw [hbatch] at h
          obtain ⟨q, hreset, h⟩ := Option.bind_eq_some_iff.mp h
          cases h
          obtain ⟨r, hfold, hheap, -, hnum⟩ := reset_heap hreset
          obtain ⟨hnum', htimer⟩ := resetAll_timer _ hfold
          refine ⟨hnum.trans hnum', ?_⟩
          intro a t' ht'
          obtain ⟨t, ht, rfl | ⟨hrepeats, hmem, rfl⟩⟩ := htimer ((congrFun hheap a).symm.trans ht')
          · exact .same ht
          · exact .restarted ⟨now, started, waiting⟩ t hbatch rfl ht hrepeats hmem rfl

/-! ## The intervals of a run -/

/-- The intervals the timers of a run were given; the timer with sequence number
`i + 1` was given the one at `i`. -/
def intervals (ops : List Op) : List Int := ops.filterMap Op.interval?

/-- Every timer has the interval it was given, in whole seconds. -/
structure Given (given : List Int) (s : State) : Prop where
  count : s.queue.sqe_numCreated = given.length
  timer : ∀ a t, s.queue.heap a = some t → ∃ i d, t.sequence = i + 1 ∧ given[i]? = some d ∧
    t.repeats = decide (0 < d) ∧ t.interval = d.tdiv microSecondsPerSecond

theorem given_start : Given [] start := ⟨rfl, nofun⟩

theorem step_given {given : List Int} (hs : Given given s) (h : step s op = some s') :
    Given (given ++ op.interval?.toList) s' := by
  obtain ⟨hnum, htimer⟩ := step_timer h
  refine ⟨by rw [hnum, hs.count, List.length_append], ?_⟩
  intro a t' ht'
  have hold : ∀ {t : Timer}, s.queue.heap a = some t → ∃ i d, t.sequence = i + 1 ∧
      (given ++ op.interval?.toList)[i]? = some d ∧ t.repeats = decide (0 < d) ∧
      t.interval = d.tdiv microSecondsPerSecond := by
    intro t ht
    obtain ⟨i, d, hseq, hget, hrest⟩ := hs.timer a t ht
    refine ⟨i, d, hseq, ?_, hrest⟩
    rw [List.getElem?_append_left (List.getElem?_eq_some_iff.mp hget).1]
    exact hget
  cases htimer ht' with
  | same ht => exact hold ht
  | restarted b t hbatch hdone ht hrepeats hstarted heq =>
      obtain ⟨i, d, hseq, hget, hrep, hinterval⟩ := hold ht
      rw [Timer.restart_repeats hrepeats] at heq
      exact ⟨i, d, heq ▸ hseq, hget, heq ▸ hrep, heq ▸ hinterval⟩
  | created when interval hop heq =>
      subst hop heq
      refine ⟨given.length, interval, congrArg (· + 1) hs.count, ?_, rfl, rfl⟩
      rw [List.getElem?_append_right (Nat.le_refl _), Nat.sub_self]
      rfl

theorem exec_given {ops : List Op} : ∀ {given : List Int} {s s' : State}, Given given s →
    exec step s ops = some s' → Given (given ++ intervals ops) s' := by
  induction ops with
  | nil =>
      intro given s s' hs h
      cases h
      rw [intervals, List.filterMap_nil, List.append_nil]
      exact hs
  | cons op ops ih =>
      intro given s s' hs h
      obtain ⟨u, hstep, hrun⟩ := exec_cons.mp h
      have hrest := ih (step_given hs hstep) hrun
      rw [List.append_assoc] at hrest
      have hintervals : intervals (op :: ops) = op.interval?.toList ++ intervals ops := by
        rw [intervals, intervals, List.filterMap_cons]
        cases op.interval? <;> rfl
      rw [hintervals]
      exact hrest

/-! ## A timer that has been put back -/

/-- The timer is not due before time `m`, and in no batch before `m`. -/
structure Later (id : TimerId) (m : Int) (s : State) : Prop where
  old : id.sequence ≤ s.queue.sqe_numCreated
  timer : ∀ t, s.queue.heap id.timer = some t → t.sequence = id.sequence → m ≤ t.expiration
  batch : ∀ b, s.batch = some b → id.timer ∈ (b.started ++ b.waiting).map Entry.timer →
    s.queue.Live id → m ≤ b.now

/-- A batch is the one before the step, or holds timers that are due. -/
theorem step_batch (h : step s op = some s') {b' : Batch} (hb' : s'.batch = some b') :
    (∃ b, s.batch = some b ∧ b'.now = b.now ∧
      b'.started ++ b'.waiting = b.started ++ b.waiting) ∨
    ((∃ now read, op = .handleRead now read) ∧ s'.queue.heap = s.queue.heap ∧
      ∀ e ∈ b'.started ++ b'.waiting, e ∈ s.queue.timers ∧ e.when ≤ b'.now) := by
  obtain ⟨hallows, h⟩ := Option.ite_none_right_eq_some.mp h
  cases op with
  | create timer when interval =>
      cases h
      exact Or.inl ⟨b', hb', rfl, rfl⟩
  | addTimerInLoop id clock =>
      obtain ⟨q, hadd, h⟩ := Option.bind_eq_some_iff.mp h
      cases h
      exact Or.inl ⟨b', hb', rfl, rfl⟩
  | cancelInLoop id =>
      obtain ⟨q, hcancel, h⟩ := Option.bind_eq_some_iff.mp h
      cases h
      exact Or.inl ⟨b', hb', rfl, rfl⟩
  | handleRead now read =>
      obtain ⟨⟨q, expired⟩, hget, h⟩ := Option.bind_eq_some_iff.mp h
      cases h
      cases hb'
      obtain ⟨hheap, -, hdue⟩ := getExpired_due hget
      exact Or.inr ⟨⟨now, read, rfl⟩, hheap, hdue⟩
  | run =>
      rw [State.perform] at h
      cases hbatch : s.batch with
      | none => rw [hbatch] at h; cases h
      | some b =>
          obtain ⟨now, started, waiting⟩ := b
          cases waiting with
          | nil => rw [hbatch] at h; cases h
          | cons e waiting =>
              rw [hbatch] at h
              obtain ⟨t, -, h⟩ := Option.bind_eq_some_iff.mp h
              cases h
              cases hb'
              exact Or.inl ⟨_, rfl, rfl, List.append_assoc _ _ _⟩
  | reset clock =>
      rw [State.perform] at h
      cases hbatch : s.batch with
      | none => rw [hbatch] at h; cases h
      | some b =>
          rw [hbatch] at h
          obtain ⟨q, -, h⟩ := Option.bind_eq_some_iff.mp h
          cases h
          cases hb'

theorem later_step {given : List Int} {id : TimerId} {m : Int} (hs : Sound s)
    (hgiven : Given given s) (hlater : Later id m s) (h : step s op = some s') :
    Later id m s' := by
  obtain ⟨hnum, htimer⟩ := step_timer h
  -- the timer with the id, after the step, is the one there was
  have hback : ∀ t', s'.queue.heap id.timer = some t' → t'.sequence = id.sequence →
      Stepped s s' op id.timer t' ∧ s.queue.Live id := by
    intro t' ht' hseq
    refine ⟨htimer ht', ?_⟩
    cases htimer ht' with
    | same ht => exact ⟨t', ht, hseq⟩
    | restarted b t _ _ ht _ _ heq =>
        refine ⟨t, ht, ?_⟩
        rw [← hseq, heq, Timer.sequence_restart]
    | created when interval _ heq =>
        have hnew : t'.sequence = s.queue.sqe_numCreated + 1 := heq ▸ rfl
        have hold := hlater.old
        omega
  refine ⟨by have := hlater.old; omega, ?_, ?_⟩
  · intro t' ht' hseq
    obtain ⟨hstepped, hlive⟩ := hback t' ht' hseq
    cases hstepped with
    | same ht => exact hlater.timer t' ht hseq
    | restarted b t hbatch _ ht hrepeats hstarted heq =>
        have hnow : m ≤ b.now := by
          refine hlater.batch b hbatch ?_ hlive
          rw [List.map_append]
          exact List.mem_append_left _ hstarted
        obtain ⟨i, d, -, -, hpos, hinterval⟩ := hgiven.timer _ t ht
        have hd : 0 < d := by
          rw [hrepeats] at hpos
          exact of_decide_eq_true hpos.symm
        have hperiod : 0 ≤ t.interval * microSecondsPerSecond := by
          rw [hinterval]
          exact Int.mul_nonneg (Int.tdiv_nonneg hd.le (by decide)) (by decide)
        rw [heq, Timer.restart_repeats hrepeats]
        dsimp only
        omega
    | created when interval _ heq =>
        have hnew : t'.sequence = s.queue.sqe_numCreated + 1 := heq ▸ rfl
        have hold := hlater.old
        omega
  · rintro b' hb' hmem ⟨t', ht', hseq⟩
    obtain ⟨-, hlive⟩ := hback t' ht' hseq
    rcases step_batch h hb' with ⟨b, hb, hnow, hsame⟩ | ⟨-, hheap, hdue⟩
    · rw [hnow]
      exact hlater.batch b hb (hsame ▸ hmem) hlive
    · obtain ⟨e, he, hid⟩ := List.mem_map.mp hmem
      obtain ⟨hold, hwhen⟩ := hdue e he
      obtain ⟨t, ht, hkey⟩ := hs.holds.keys e hold
      rw [hid] at ht
      rw [hheap] at ht'
      cases ht.symm.trans ht'
      have := hlater.timer t' ht hseq
      omega

theorem later_run {id : TimerId} {m : Int} {ops : List Op} : ∀ {given : List Int}
    {s s' : State}, Sound s → Given given s → Later id m s → exec step s ops = some s' →
    Later id m s' := by
  induction ops with
  | nil =>
      intro given s s' _ _ hlater h
      cases h
      exact hlater
  | cons op ops ih =>
      intro given s s' hs hgiven hlater h
      obtain ⟨u, hstep, hrun⟩ := exec_cons.mp h
      exact ih (step_sound hs hstep) (step_given hgiven hstep) (later_step hs hgiven hlater hstep)
        hrun

/-! ## The period -/

/-- Every time a timer that was given `d` fires, in a batch at `now`, and is not
cancelled in it, it is put back for `now + d`, which is to come, and is in no
later batch before that. -/
def KeepsInterval (d : Int) : Prop :=
  ∀ ops s clock s' b e t i, exec step start ops = some s →
    step s (.reset clock) = some s' → s.batch = some b → e ∈ b.started →
    s.queue.heap e.timer = some t → t.sequence = i + 1 → (intervals ops)[i]? = some d →
    ⟨e.timer, t.sequence⟩ ∉ s.queue.cancelingTimers →
    (∃ t', s'.queue.heap e.timer = some t' ∧ t'.sequence = t.sequence ∧
      t'.expiration = b.now + d ∧ ⟨t'.expiration, e.timer⟩ ∈ s'.queue.timers ∧
      b.now < t'.expiration) ∧
    ∀ ops' u b' e', exec step s' ops' = some u → u.batch = some b' →
      e' ∈ b'.started ++ b'.waiting → e'.timer = e.timer →
      u.queue.Live ⟨e.timer, t.sequence⟩ → b.now + d ≤ b'.now

/-- What `reset` does to a timer of the batch that repeats and is not cancelled. -/
theorem reset_restarts {clock : Int} (h : step s (.reset clock) = some s') {b : Batch}
    (hbatch : s.batch = some b) {e : Entry} (he : e ∈ b.started) {t : Timer}
    (ht : s.queue.heap e.timer = some t) (hrepeats : t.repeats = true)
    (hcancel : ⟨e.timer, t.sequence⟩ ∉ s.queue.cancelingTimers) :
    s'.batch = none ∧ s'.queue.heap e.timer = some (t.restart b.now) ∧
      ⟨(t.restart b.now).expiration, e.timer⟩ ∈ s'.queue.timers := by
  obtain ⟨-, h⟩ := Option.ite_none_right_eq_some.mp h
  rw [State.perform, hbatch] at h
  obtain ⟨now, started, waiting⟩ := b
  obtain ⟨q, hreset, h⟩ := Option.bind_eq_some_iff.mp h
  cases h
  obtain ⟨r, hfold, hheap, htimers, -⟩ := reset_heap hreset
  have hrestarts := resetAll_restarts hrepeats started hfold (List.mem_map_of_mem he) hcancel ht
  refine ⟨rfl, (congrFun hheap _).trans hrestarts.1, ?_⟩
  show _ ∈ q.timers
  rw [htimers]
  exact hrestarts.2

theorem reachable_given {ops : List Op} (h : exec step start ops = some s) :
    Sound s ∧ Given (intervals ops) s :=
  ⟨sound_reachable ⟨ops, h⟩, by simpa using exec_given given_start h⟩

/-- A whole number of seconds is kept. -/
theorem keeps_whole {d : Int} (hd : 0 < d) (hwhole : microSecondsPerSecond ∣ d) :
    KeepsInterval d := by
  intro ops s clock s' b e t i hrun hstep hbatch he ht hseq hget hcancel
  obtain ⟨hs, hgiven⟩ := reachable_given hrun
  obtain ⟨j, d', hseq', hget', hrep, hinterval⟩ := hgiven.timer e.timer t ht
  have hij : i = j := Nat.succ.inj (hseq.symm.trans hseq')
  subst hij
  cases hget.symm.trans hget'
  have hrepeats : t.repeats = true := hrep.trans (decide_eq_true hd)
  obtain ⟨hdone, hheap, htimers⟩ := reset_restarts hstep hbatch he ht hrepeats hcancel
  have hexpiration : (t.restart b.now).expiration = b.now + d := by
    rw [Timer.restart_repeats hrepeats, hinterval]
    show b.now + d.tdiv microSecondsPerSecond * microSecondsPerSecond = _
    rw [Int.tdiv_mul_cancel hwhole]
  refine ⟨⟨t.restart b.now, hheap, t.sequence_restart _, hexpiration, htimers, by omega⟩, ?_⟩
  intro ops' u b' e' hrun' hb' he' htimer hlive
  obtain ⟨hnum, -⟩ := step_timer hstep
  have hlater : Later ⟨e.timer, t.sequence⟩ (b.now + d) s' := by
    refine ⟨?_, ?_, fun b hb => absurd (hdone.symm.trans hb) (Option.some_ne_none b).symm⟩
    · have := hs.holds.numbered e.timer t ht
      dsimp only
      omega
    · intro t' ht' _
      cases hheap.symm.trans ht'
      exact hexpiration.ge
  have hlater' := later_run (step_sound hs hstep) (step_given hgiven hstep) hlater hrun'
  refine hlater'.batch b' hb' ?_ hlive
  rw [← htimer]
  exact List.mem_map_of_mem he'

/-- A timer with that interval, up to the end of its first batch. -/
def firing (d : Int) : List Op :=
  [.create 1 1 d, .addTimerInLoop ⟨1, 1⟩ 0, .handleRead 1 1, .run]

theorem firing_goes (d : Int) : ∃ s, exec step start (firing d) = some s ∧
    s.batch = some ⟨1, [⟨1, 1⟩], []⟩ ∧ s.queue.heap 1 = some (Timer.new 1 1 d) ∧
    s.queue.cancelingTimers = [] := by
  refine ⟨_, rfl, ?_, ?_, ?_⟩ <;> rfl

/-- An interval that is kept is a whole number of seconds. -/
theorem whole_of_keeps {d : Int} (hd : 0 < d) (h : KeepsInterval d) :
    microSecondsPerSecond ∣ d := by
  obtain ⟨s, hrun, hbatch, hheap, hcanceling⟩ := firing_goes d
  have hallows : s.Allows (.reset 1) := by
    refine ⟨by rw [hbatch]; rfl, ?_⟩
    rw [State.waiting, hbatch]
  obtain ⟨s', hperform, -⟩ := perform_sound (sound_reachable ⟨_, hrun⟩) hallows
  have hstep : step s (.reset 1) = some s' := (if_pos hallows).trans hperform
  have hcancel : (⟨1, 1⟩ : ActiveTimer) ∉ s.queue.cancelingTimers :=
    hcanceling ▸ List.not_mem_nil
  obtain ⟨⟨t', ht', -, hexpiration, -⟩, -⟩ := h (firing d) s 1 s' _ ⟨1, 1⟩ (Timer.new 1 1 d) 0 hrun
    hstep hbatch List.mem_cons_self hheap rfl rfl hcancel
  have hrepeats : (Timer.new 1 1 d).repeats = true := decide_eq_true hd
  obtain ⟨-, hrestart, -⟩ :=
    reset_restarts hstep hbatch (e := ⟨1, 1⟩) List.mem_cons_self hheap hrepeats hcancel
  cases ht'.symm.trans hrestart
  rw [Timer.restart_repeats hrepeats] at hexpiration
  have hperiod : d.tdiv microSecondsPerSecond * microSecondsPerSecond = d :=
    Int.add_left_cancel hexpiration
  exact ⟨d.tdiv microSecondsPerSecond, by rw [Int.mul_comm]; exact hperiod.symm⟩

theorem toInt_isSome {d : Int} (hd : 0 < d) :
    (toInt d).isSome ↔ d < 2 ^ 31 * microSecondsPerSecond := by
  have hdiv : d.tdiv microSecondsPerSecond = d / 1000000 := Int.tdiv_eq_ediv_of_nonneg hd.le
  rw [toInt, hdiv]
  split
  · rename_i hrange
    exact ⟨fun _ => by rw [microSecondsPerSecond]; omega, fun _ => rfl⟩
  · rename_i hrange
    refine ⟨fun h => Bool.noConfusion h, fun hlt => absurd ?_ hrange⟩
    rw [microSecondsPerSecond] at hlt
    omega

/-- The constructor is defined and the interval is kept, in every run, exactly
when the interval is a whole number of seconds and an `int`. -/
theorem keeps_interval_iff {d : Int} (hd : 0 < d) : (toInt d).isSome ∧ KeepsInterval d ↔
    microSecondsPerSecond ∣ d ∧ d < 2 ^ 31 * microSecondsPerSecond := by
  rw [toInt_isSome hd]
  constructor
  · rintro ⟨hlt, hkeeps⟩
    exact ⟨whole_of_keeps hd hkeeps, hlt⟩
  · rintro ⟨hwhole, hlt⟩
    exact ⟨hlt, keeps_whole hd hwhole⟩

/-- Every two seconds. -/
theorem keeps_interval_two : (toInt 2000000).isSome ∧ KeepsInterval 2000000 :=
  (keeps_interval_iff (by decide)).mpr ⟨⟨2, rfl⟩, by decide⟩

/-- A timer of half a second fires at 1, and is put back for 1. -/
theorem keeps_interval_fails :
    (((exec step start (firing 500000)).bind fun s => step s (.reset 1)).bind fun s =>
      s.queue.heap 1) = some ⟨1, true, 0, 1⟩ ∧ ¬∀ d, 0 < d → KeepsInterval d := by
  refine ⟨by decide +kernel, ?_⟩
  intro h
  exact absurd (whole_of_keeps (by decide) (h 500000 (by decide))) (by decide)

end Calls

end Timers

end WebServer

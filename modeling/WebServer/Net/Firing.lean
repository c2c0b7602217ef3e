/-
# `Net.Firing` — when the timers of a run fire

A run of the timer queue under any calls of its loop thread (`Net.TimerCalls`), with the
record of every callback that `handleRead` starts: whose timer it is, when that was due,
and the `now` of the batch.  Timers are told apart by their sequence numbers, which
their addresses may not do.

`OnTime` carries the record through the run: what a timer has done so far is a sequence
of `Lib.Schedule`, and unless it is in a batch that has started it, its expiration is
when it is due next.  From it `on_schedule`: a timer never fires early, one that does not
repeat fires at most once, and a repeating one is due again the whole seconds of its
interval after the batch that it fired in.  The intervals are those a `Timer` is defined
for, below 2^31 seconds.
-/
import WebServer.Lib.Schedule
import WebServer.Net.Expired

namespace WebServer

namespace Timers

namespace Calls

open Machine TimerQueue Schedule

/-- A callback that was started. -/
structure Firing where
  sequence : Nat
  event : Schedule.Event
  deriving DecidableEq

/-- What an operation starts. -/
def fired (s : State) : Op → List Firing
  | .run =>
      match s.batch with
      | some ⟨now, _, e :: _⟩ =>
          match s.queue.heap e.timer with
          | some t => [⟨t.sequence, t.expiration, now⟩]
          | none => []
      | _ => []
  | _ => []

/-- What a run starts. -/
def firings : State → List Op → List Firing
  | _, [] => []
  | s, op :: ops =>
      fired s op ++ match step s op with
        | some t => firings t ops
        | none => []

/-- What the timer with that sequence number has done. -/
def history (log : List Firing) (sequence : Nat) : List Schedule.Event :=
  (log.filter fun f => f.sequence = sequence).map Firing.event

/-- When the timer that an operation creates is due, and its interval. -/
def Op.given? : Op → Option (Int × Int)
  | .create _ when interval => some (when, interval)
  | _ => none

/-- The timer with sequence number `i + 1` was given the pair at `i`. -/
def givens (ops : List Op) : List (Int × Int) := ops.filterMap Op.given?

/-- The period of a timer: the whole seconds of its interval. -/
def period (interval : Int) : Int := interval.tdiv microSecondsPerSecond * microSecondsPerSecond

/-! ## The record -/

section

variable {log : List Firing} {n : Nat}

theorem history_append (log more : List Firing) (n : Nat) :
    history (log ++ more) n = history log n ++ history more n := by
  rw [history, List.filter_append, List.map_append]
  rfl

theorem history_self (n : Nat) (e : Schedule.Event) : history [⟨n, e⟩] n = [e] := by
  rw [history, List.filter_singleton]
  simp

theorem history_other {m : Nat} (h : m ≠ n) (e : Schedule.Event) : history [⟨m, e⟩] n = [] := by
  rw [history, List.filter_singleton]
  simp [h]

theorem history_nil (h : ∀ f ∈ log, f.sequence ≠ n) : history log n = [] := by
  rw [history, List.map_eq_nil_iff, List.filter_eq_nil_iff]
  intro f hf
  simpa using h f hf

end

/-! ## The invariant -/

/-- The timers of the batch whose callbacks have been started. -/
def State.begun (s : State) : List Addr := s.started.map Entry.timer

/-- How far a timer is that was given `w` and `d`. -/
structure Timing (given : List (Int × Int)) (log : List Firing) (s : State) (a : Addr) (t : Timer)
    (i : Nat) (w d : Int) : Prop where
  sequence : t.sequence = i + 1
  given : given[i]? = some (w, d)
  repeats : t.repeats = decide (0 < d)
  interval : t.interval = d.tdiv microSecondsPerSecond
  /-- It is waiting for its next time, -/
  due : a ∉ s.begun →
    t.expiration = next (period d) w (history log (i + 1)) ∧ (history log (i + 1) ≠ [] → 0 < d)
  /-- or it has fired in this batch. -/
  begun : a ∈ s.begun → ∃ b es e, s.batch = some b ∧ history log (i + 1) = es ++ [e] ∧
    e.done = b.now

structure OnTime (given : List (Int × Int)) (log : List Firing) (s : State) : Prop where
  count : s.queue.sqe_numCreated = given.length
  /-- No firing is of a timer to come. -/
  old : ∀ f ∈ log, f.sequence ≤ given.length
  kept : ∀ {i w d}, given[i]? = some (w, d) →
    Kept (decide (0 < d)) (period d) w (history log (i + 1))
  timer : ∀ a t, s.queue.heap a = some t → ∃ i w d, Timing given log s a t i w d
  /-- What waits in the batch is due. -/
  waiting : ∀ b, s.batch = some b → ∀ e ∈ b.waiting, ∃ t, s.queue.heap e.timer = some t ∧
    t.expiration ≤ b.now

theorem onTime_start : OnTime [] [] start := ⟨rfl, nofun, nofun, nofun, nofun⟩

/-! ## One step -/

section

variable {given : List (Int × Int)} {log : List Firing} {s s' : State} {op : Op} {a : Addr}
  {t : Timer} {i : Nat} {w d : Int}

theorem begun_eq (h : s'.batch = s.batch) : s'.begun = s.begun := by
  rw [State.begun, State.begun, State.started, State.started, h]

theorem getElem_append {x : Int × Int} (h : given[i]? = some x) (more : List (Int × Int)) :
    (given ++ more)[i]? = some x := by
  rw [List.getElem?_append_left (List.getElem?_eq_some_iff.mp h).1]
  exact h

/-- A timer that the step leaves as it is. -/
theorem Timing.mono (h : Timing given log s a t i w d) (s' : State) (hbatch : s'.batch = s.batch)
    (more : List (Int × Int)) : Timing (given ++ more) log s' a t i w d where
  sequence := h.sequence
  given := getElem_append h.given more
  repeats := h.repeats
  interval := h.interval
  due := by
    rw [begun_eq hbatch]
    exact h.due
  begun := by
    rw [begun_eq hbatch, hbatch]
    exact h.begun

/-- A step that changes no timer and starts none. -/
theorem OnTime.quiet (h : OnTime given log s) (hs' : Sound s')
    (hbatch : s'.batch = s.batch) (hcount : s'.queue.sqe_numCreated = s.queue.sqe_numCreated)
    (hheap : ∀ {a t}, s'.queue.heap a = some t → s.queue.heap a = some t) :
    OnTime given log s' where
  count := hcount.trans h.count
  old := h.old
  kept := h.kept
  timer := fun a t ht => by
    obtain ⟨i, w, d, htiming⟩ := h.timer a t (hheap ht)
    refine ⟨i, w, d, ?_⟩
    have hmono := htiming.mono s' hbatch []
    rwa [List.append_nil] at hmono
  waiting := fun b hb e he => by
    obtain ⟨t, ht, hdue⟩ := h.waiting b (hbatch ▸ hb) e he
    have hmem : e.timer ∈ s'.expired := by
      rw [State.expired, State.waiting, hb]
      exact List.mem_append_right _ (List.mem_map_of_mem he)
    obtain ⟨⟨u, hu⟩, -⟩ := hs'.holds.outside (List.mem_append_left _ hmem)
    cases ht.symm.trans (hheap hu)
    exact ⟨t, hu, hdue⟩

/-- A timer of the batch is there. -/
theorem begun_alive (hs : Sound s) (ha : a ∈ s.begun) : ∃ t, s.queue.heap a = some t :=
  (hs.holds.outside (List.mem_append_left _ (List.mem_append_left _ ha))).1

theorem onTime_create (h : OnTime given log s) (hsound : Sound s) {timer : Addr}
    {when interval : Int}
    (hs : step s (.create timer when interval) = some s') :
    OnTime (given ++ [(when, interval)]) log s' := by
  obtain ⟨⟨hvacant, -⟩, hs⟩ := Option.ite_none_right_eq_some.mp hs
  have hbatch : s'.batch = s.batch := by cases hs; rfl
  have hcount : s'.queue.sqe_numCreated = s.queue.sqe_numCreated + 1 := by cases hs; rfl
  have hheap : s'.queue.heap = Function.update s.queue.heap timer
      (some (Timer.new (s.queue.sqe_numCreated + 1) when interval)) := by cases hs; rfl
  have hnone : history log (given.length + 1) = [] := by
    refine history_nil fun f hf => ?_
    have hold := h.old f hf
    omega
  refine ⟨?_, ?_, ?_, ?_, ?_⟩
  · rw [hcount, h.count, List.length_append]
    rfl
  · intro f hf
    rw [List.length_append]
    exact Nat.le_add_right_of_le (h.old f hf)
  · intro i w d hi
    rcases Nat.lt_trichotomy i given.length with hlt | rfl | hlt
    · rw [List.getElem?_append_left hlt] at hi
      exact h.kept hi
    · rw [hnone]
      exact trivial
    · rw [List.getElem?_eq_none (by rw [List.length_append]; exact hlt)] at hi
      cases hi
  · intro a t ht
    rw [hheap] at ht
    by_cases ha : a = timer
    · subst ha
      cases (Function.update_self _ _ _).symm.trans ht
      refine ⟨given.length, when, interval, congrArg (· + 1) h.count, ?_, rfl, rfl, ?_, ?_⟩
      · rw [List.getElem?_append_right (Nat.le_refl _), Nat.sub_self]
        rfl
      · intro _
        rw [hnone]
        exact ⟨rfl, fun hne => absurd rfl hne⟩
      · intro hbegun
        obtain ⟨t, ht⟩ := begun_alive hsound (begun_eq hbatch ▸ hbegun)
        exact absurd (hvacant.symm.trans ht) (by simp)
    · obtain ⟨i, w, d, htiming⟩ := h.timer a t ((Function.update_of_ne ha _ _).symm.trans ht)
      exact ⟨i, w, d, htiming.mono s' hbatch _⟩
  · intro b hb e he
    obtain ⟨t, ht, hdue⟩ := h.waiting b (hbatch ▸ hb) e he
    rw [hheap]
    refine ⟨t, (Function.update_of_ne ?_ _ _).trans ht, hdue⟩
    intro heq
    rw [heq, hvacant] at ht
    cases ht

theorem onTime_handleRead (h : OnTime given log s) (hsound : Sound s) {now read : Int}
    (hs : step s (.handleRead now read) = some s') : OnTime given log s' := by
  obtain ⟨hbatch, hs⟩ := Option.ite_none_right_eq_some.mp hs
  have hbatch : s.batch = none := hbatch
  obtain ⟨⟨q, expired⟩, hget, hs⟩ := Option.bind_eq_some_iff.mp hs
  cases hs
  obtain ⟨hheap, hcount, hdue⟩ := getExpired_due hget
  have hnone : s.begun = [] := by
    rw [State.begun, State.started, hbatch]
    rfl
  refine ⟨hcount.trans h.count, h.old, h.kept, ?_, ?_⟩
  · intro a t ht
    obtain ⟨i, w, d, htiming⟩ := h.timer a t ((congrFun hheap a).symm.trans ht)
    refine ⟨i, w, d, htiming.sequence, htiming.given, htiming.repeats, htiming.interval, ?_, ?_⟩
    · intro _
      exact htiming.due (hnone ▸ List.not_mem_nil)
    · exact fun ha => absurd ha List.not_mem_nil
  · intro b hb e he
    cases hb
    obtain ⟨htimers, hnow⟩ := hdue e he
    obtain ⟨t, ht, hwhen⟩ := hsound.holds.keys e htimers
    exact ⟨t, (congrFun hheap _).trans ht, hwhen ▸ hnow⟩

/-- Two timers that are there have different sequence numbers. -/
theorem sequence_unique (hs : Sound s) {a b : Addr} {t u : Timer} (ht : s.queue.heap a = some t)
    (hu : s.queue.heap b = some u) (h : t.sequence = u.sequence) : a = b := by
  have honce : (s.known.map ActiveTimer.sequence).Nodup :=
    (List.nodup_append.mp (hs.ledger.nodup_iff.mpr List.nodup_range')).2.1
  have ha : (⟨a, t.sequence⟩ : TimerId) ∈ s.known := hs.mem_known.mpr ⟨t, ht, rfl⟩
  have hb : (⟨b, u.sequence⟩ : TimerId) ∈ s.known := hs.mem_known.mpr ⟨u, hu, rfl⟩
  exact congrArg ActiveTimer.timer (List.inj_on_of_nodup_map honce ha hb h)

theorem run_spec (h : step s .run = some s') : ∃ now started e waiting t,
    s.batch = some ⟨now, started, e :: waiting⟩ ∧ s.queue.heap e.timer = some t ∧
      s' = { s with batch := some ⟨now, started ++ [e], waiting⟩ } := by
  obtain ⟨-, h⟩ := Option.ite_none_right_eq_some.mp h
  rw [State.perform] at h
  cases hbatch : s.batch with
  | none => rw [hbatch] at h; cases h
  | some b =>
      obtain ⟨now, started, waiting⟩ := b
      cases waiting with
      | nil => rw [hbatch] at h; cases h
      | cons e waiting =>
          rw [hbatch] at h
          obtain ⟨t, ht, h⟩ := Option.bind_eq_some_iff.mp h
          exact ⟨now, started, e, waiting, t, rfl, ht, (Option.some.inj h).symm⟩

theorem onTime_run (h : OnTime given log s) (hsound : Sound s) (hs : step s .run = some s') :
    OnTime given (log ++ fired s .run) s' := by
  obtain ⟨now, started, e, waiting, t, hbatch, ht, hs'⟩ := run_spec hs
  obtain ⟨i, w, d, htiming⟩ := h.timer e.timer t ht
  have hfired : fired s .run = [⟨i + 1, t.expiration, now⟩] := by
    rw [fired, hbatch]
    dsimp only
    rw [ht]
    dsimp only
    rw [htiming.sequence]
  have hbegun : s.begun = started.map Entry.timer := by
    rw [State.begun, State.started, hbatch]
  have hbegun' : s'.begun = s.begun ++ [e.timer] := by
    rw [hbegun, hs', State.begun, State.started, List.map_append]
    rfl
  have hnot : e.timer ∉ s.begun := by
    intro hmem
    have hexpired : s.expired = s.begun ++ e.timer :: waiting.map Entry.timer := by
      rw [State.expired, State.waiting, hbatch]
      rfl
    have hout : e.timer ∈ s.expired ++ s.pending.map ActiveTimer.timer := by
      rw [hexpired]
      exact List.mem_append_left _ (List.mem_append_right _ List.mem_cons_self)
    have hone := hsound.holds.count_outside hout
    have hpos := List.count_pos_iff.mpr hmem
    rw [hexpired, List.count_append, List.count_append, List.count_cons_self] at hone
    omega
  obtain ⟨hdue, hagain⟩ := htiming.due hnot
  have hnow : t.expiration ≤ now := by
    obtain ⟨u, hu, hle⟩ := h.waiting _ hbatch e List.mem_cons_self
    cases ht.symm.trans hu
    exact hle
  have hself : history (log ++ fired s .run) (i + 1) =
      history log (i + 1) ++ [⟨t.expiration, now⟩] := by
    rw [hfired, history_append, history_self]
  have hother : ∀ {j}, j ≠ i → history (log ++ fired s .run) (j + 1) = history log (j + 1) := by
    intro j hj
    rw [hfired, history_append, history_other (by omega), List.append_nil]
  refine ⟨hs' ▸ h.count, ?_, ?_, ?_, ?_⟩
  · intro f hf
    rcases List.mem_append.mp hf with hf | hf
    · exact h.old f hf
    · rw [hfired, List.mem_singleton] at hf
      rw [hf]
      exact (List.getElem?_eq_some_iff.mp htiming.given).1
  · intro j v c hj
    by_cases hji : j = i
    · subst hji
      cases htiming.given.symm.trans hj
      rw [hself]
      exact (h.kept hj).append (fun hne => decide_eq_true (hagain hne)) hdue hnow
    · rw [hother hji]
      exact h.kept hj
  · intro a u hu
    have hu : s.queue.heap a = some u := by
      rw [hs'] at hu
      exact hu
    by_cases ha : a = e.timer
    · subst ha
      cases ht.symm.trans hu
      refine ⟨i, w, d, htiming.sequence, htiming.given, htiming.repeats, htiming.interval, ?_, ?_⟩
      · intro hnone
        rw [hbegun'] at hnone
        exact absurd (List.mem_append_right _ (List.mem_singleton.mpr rfl)) hnone
      · intro _
        exact ⟨⟨now, started ++ [e], waiting⟩, _, _, by rw [hs'], hself, rfl⟩
    · obtain ⟨j, v, c, hother'⟩ := h.timer a u hu
      have hji : j ≠ i := by
        rintro rfl
        exact ha (sequence_unique hsound hu ht (hother'.sequence.trans htiming.sequence.symm))
      have hmem : a ∈ s'.begun ↔ a ∈ s.begun := by
        rw [hbegun', List.mem_append, List.mem_singleton]
        exact or_iff_left ha
      refine ⟨j, v, c, hother'.sequence, hother'.given, hother'.repeats, hother'.interval, ?_, ?_⟩
      · rw [hmem, hother hji]
        exact hother'.due
      · rw [hmem, hother hji]
        intro hin
        obtain ⟨b, es, f, hb, hes, hdone⟩ := hother'.begun hin
        cases hbatch.symm.trans hb
        exact ⟨⟨now, started ++ [e], waiting⟩, es, f, by rw [hs'], hes, hdone⟩
  · intro b hb f hf
    have hb : (⟨now, started ++ [e], waiting⟩ : Batch) = b := by
      rw [hs'] at hb
      exact Option.some.inj hb
    subst hb
    rw [hs']
    exact h.waiting _ hbatch f (List.mem_cons_of_mem _ hf)

/-- What the loop of `reset` leaves of a timer of the batch has been restarted. -/
theorem resetAll_started {now : Int} {a : Addr} {t' : Timer} (es : List Entry) :
    ∀ {q q' : TimerQueue}, es.foldlM (TimerQueue.resetOne now) q = some q' →
      (es.map Entry.timer).Nodup → a ∈ es.map Entry.timer → q'.heap a = some t' →
      ∃ t, q.heap a = some t ∧ t.repeats = true ∧ t' = t.restart now := by
  induction es with
  | nil => exact fun _ _ hmem => absurd hmem List.not_mem_nil
  | cons e es ih =>
      intro q q' h honce hmem ht'
      rw [List.foldlM_cons] at h
      obtain ⟨r, hone, h⟩ := Option.bind_eq_some_iff.mp h
      obtain ⟨hnot, honce⟩ := List.nodup_cons.mp honce
      obtain ⟨-, -, -, t, ht, hcases⟩ := resetOne_heap hone
      rcases List.mem_cons.mp hmem with rfl | hmem
      · obtain ⟨u, hu, hsame⟩ := (resetAll_timer es h).2 ht'
        have hsame : t' = u := hsame.resolve_right fun hrestarted => hnot hrestarted.2.1
        rcases hcases with ⟨hrepeats, -, -, hr⟩ | ⟨-, hr⟩ <;> rw [hr] at hu
        · cases (Function.update_self _ _ _).symm.trans hu
          exact ⟨t, ht, hrepeats, hsame⟩
        · exact absurd ((Function.update_self _ _ _).symm.trans hu) (by simp)
      · have hne : a ≠ e.timer := fun heq => hnot (heq ▸ hmem)
        obtain ⟨u, hu, hrest⟩ := ih h honce hmem ht'
        refine ⟨u, ?_, hrest⟩
        rcases hcases with ⟨-, -, -, hr⟩ | ⟨-, hr⟩ <;> rw [hr] at hu <;>
          exact (Function.update_of_ne hne _ _).symm.trans hu

theorem reset_spec {clock : Int} (h : step s (.reset clock) = some s') :
    ∃ now started r, s.batch = some ⟨now, started, []⟩ ∧ s'.batch = none ∧
      started.foldlM (TimerQueue.resetOne now)
        { s.queue with callingExpiredTimers := false, timerfd := none } = some r ∧
      s'.queue.heap = r.heap ∧ s'.queue.sqe_numCreated = r.sqe_numCreated := by
  obtain ⟨⟨-, hwaiting⟩, h⟩ := Option.ite_none_right_eq_some.mp h
  rw [State.perform] at h
  cases hbatch : s.batch with
  | none => rw [hbatch] at h; cases h
  | some b =>
      obtain ⟨now, started, waiting⟩ := b
      rw [State.waiting, hbatch] at hwaiting
      have hwaiting : waiting = [] := hwaiting
      subst hwaiting
      rw [hbatch] at h
      obtain ⟨q, hreset, h⟩ := Option.bind_eq_some_iff.mp h
      cases h
      obtain ⟨r, hfold, hheap, -, hcount⟩ := reset_heap hreset
      exact ⟨now, started, r, rfl, rfl, hfold, hheap, hcount⟩

/-- The timers of the batch are due a period after its `now`; the others wait as before. -/
theorem onTime_reset (h : OnTime given log s) (hsound : Sound s) {clock : Int}
    (hs : step s (.reset clock) = some s') : OnTime given log s' := by
  obtain ⟨now, started, r, hbatch, hnone, hfold, hheap, hcount⟩ := reset_spec hs
  obtain ⟨hcount', htimer⟩ := resetAll_timer started hfold
  have hbegun : s.begun = started.map Entry.timer := by
    rw [State.begun, State.started, hbatch]
  have hbegun' : s'.begun = [] := by
    rw [State.begun, State.started, hnone]
    rfl
  have honce : (started.map Entry.timer).Nodup := by
    rw [List.nodup_iff_count_le_one]
    intro a
    by_cases ha : a ∈ s.begun
    · have hone := hsound.holds.count_outside (List.mem_append_left _ (List.mem_append_left _ ha))
      rw [State.expired, List.count_append, List.count_append] at hone
      rw [hbegun.symm, State.begun]
      omega
    · rw [hbegun] at ha
      rw [List.count_eq_zero.mpr ha]
      exact Nat.zero_le 1
  refine ⟨hcount.trans (hcount'.trans h.count), h.old, h.kept, ?_, ?_⟩
  · intro a t' ht'
    rw [hheap] at ht'
    by_cases ha : a ∈ s.begun
    · obtain ⟨t, ht, hrepeats, rfl⟩ := resetAll_started started hfold honce (hbegun ▸ ha) ht'
      obtain ⟨i, w, d, htiming⟩ := h.timer a t ht
      obtain ⟨b, es, e, hb, hes, hdone⟩ := htiming.begun ha
      cases hbatch.symm.trans hb
      have hd : 0 < d := of_decide_eq_true (htiming.repeats.symm.trans hrepeats)
      rw [Timer.restart_repeats hrepeats]
      refine ⟨i, w, d, htiming.sequence, htiming.given, htiming.repeats, htiming.interval, ?_, ?_⟩
      · intro _
        rw [hes, next_append, hdone, period, htiming.interval]
        exact ⟨rfl, fun _ => hd⟩
      · exact fun hin => absurd (hbegun' ▸ hin) List.not_mem_nil
    · obtain ⟨t, ht, hsame⟩ := htimer ht'
      have hsame : t' = t := hsame.resolve_right fun hstarted => ha (hbegun ▸ hstarted.2.1)
      subst hsame
      obtain ⟨i, w, d, htiming⟩ := h.timer a t' ht
      refine ⟨i, w, d, htiming.sequence, htiming.given, htiming.repeats, htiming.interval, ?_, ?_⟩
      · exact fun _ => htiming.due ha
      · exact fun hin => absurd (hbegun' ▸ hin) List.not_mem_nil
  · intro b hb
    cases hnone.symm.trans hb

theorem onTime_step (h : OnTime given log s) (hsound : Sound s) (hs : step s op = some s') :
    OnTime (given ++ op.given?.toList) (log ++ fired s op) s' := by
  have hsound' := step_sound hsound hs
  cases op with
  | create timer when interval =>
      show OnTime (given ++ [(when, interval)]) (log ++ []) s'
      rw [List.append_nil]
      exact onTime_create h hsound hs
  | addTimerInLoop id clock =>
      show OnTime (given ++ []) (log ++ []) s'
      rw [List.append_nil, List.append_nil]
      obtain ⟨-, hs⟩ := Option.ite_none_right_eq_some.mp hs
      obtain ⟨q, hadd, hs⟩ := Option.bind_eq_some_iff.mp hs
      obtain ⟨hheap, hcount⟩ := addTimerInLoop_heap hadd
      cases hs
      exact h.quiet hsound' rfl hcount fun ht => (congrFun hheap _).symm.trans ht
  | cancelInLoop id =>
      show OnTime (given ++ []) (log ++ []) s'
      rw [List.append_nil, List.append_nil]
      obtain ⟨-, hs⟩ := Option.ite_none_right_eq_some.mp hs
      obtain ⟨q, hcancel, hs⟩ := Option.bind_eq_some_iff.mp hs
      obtain ⟨hheap, hcount⟩ := cancelInLoop_heap hcancel
      cases hs
      exact h.quiet hsound' rfl hcount hheap
  | handleRead now read =>
      show OnTime (given ++ []) (log ++ []) s'
      rw [List.append_nil, List.append_nil]
      exact onTime_handleRead h hsound hs
  | run =>
      show OnTime (given ++ []) _ s'
      rw [List.append_nil]
      exact onTime_run h hsound hs
  | reset clock =>
      show OnTime (given ++ []) (log ++ []) s'
      rw [List.append_nil, List.append_nil]
      exact onTime_reset h hsound hs

end

/-! ## Every run -/

theorem onTime_exec {ops : List Op} : ∀ {given : List (Int × Int)} {log : List Firing}
    {s s' : State}, OnTime given log s → Sound s → exec step s ops = some s' →
    OnTime (given ++ givens ops) (log ++ firings s ops) s' := by
  induction ops with
  | nil =>
      intro given log s s' h _ hs
      cases hs
      rw [givens, firings, List.filterMap_nil, List.append_nil, List.append_nil]
      exact h
  | cons op ops ih =>
      intro given log s s' h hsound hs
      obtain ⟨u, hstep, hrun⟩ := exec_cons.mp hs
      have hrest := ih (onTime_step h hsound hstep) (step_sound hsound hstep) hrun
      have hgivens : givens (op :: ops) = op.given?.toList ++ givens ops := by
        rw [givens, givens, List.filterMap_cons]
        cases op.given? <;> rfl
      have hfirings : firings s (op :: ops) = fired s op ++ firings u ops := by
        rw [firings, hstep]
      rw [hgivens, hfirings, ← List.append_assoc, ← List.append_assoc]
      exact hrest

theorem period_nonneg {d : Int} (h : 0 < d) : 0 ≤ period d :=
  Int.mul_nonneg (Int.tdiv_nonneg h.le (by decide)) (by decide)

/-- What the runs make of a timer that was given `w` and `d`. -/
structure Scheduled (w d : Int) (es : List Schedule.Event) : Prop where
  /-- Its first time is `w`, and each further one a period after it has fired. -/
  kept : Kept (decide (0 < d)) (period d) w es
  early : ∀ e ∈ es, e.due ≤ e.done
  once : d ≤ 0 → es.length ≤ 1
  spaced : es.Pairwise fun e f => e.done + period d ≤ f.done

theorem Scheduled.of_kept {w d : Int} {es : List Schedule.Event}
    (h : Kept (decide (0 < d)) (period d) w es) : Scheduled w d es where
  kept := h
  early := h.due_le
  once := fun hd => by
    rw [decide_eq_false (Int.not_lt.mpr hd)] at h
    exact h.once
  spaced := by
    by_cases hd : 0 < d
    · exact h.spaced (period_nonneg hd)
    · rw [decide_eq_false hd] at h
      have honce := h.once
      match es, honce with
      | [], _ => exact List.Pairwise.nil
      | [e], _ => exact List.pairwise_singleton _ e

/-- In every run, each timer has fired on its schedule, and if it is in the queue, what it
is in `timers_` for is the next time of it.  Intervals are below 2^31 seconds. -/
theorem on_schedule (ops : List Op) (s : State) (h : exec step start ops = some s) :
    (∀ i w d, (givens ops)[i]? = some (w, d) →
      Scheduled w d (history (firings start ops) (i + 1))) ∧
    ∀ e ∈ s.queue.timers, ∃ i w d t, s.queue.heap e.timer = some t ∧ t.sequence = i + 1 ∧
      (givens ops)[i]? = some (w, d) ∧
      e.when = next (period d) w (history (firings start ops) (i + 1)) := by
  have htime := onTime_exec onTime_start sound_start h
  rw [List.nil_append, List.nil_append] at htime
  have hsound := sound_reachable ⟨ops, h⟩
  refine ⟨fun i w d hgiven => Scheduled.of_kept (htime.kept hgiven), ?_⟩
  intro e he
  obtain ⟨t, ht, hwhen⟩ := hsound.holds.keys e he
  obtain ⟨i, w, d, htiming⟩ := htime.timer e.timer t ht
  have hout : e.timer ∉ s.begun := by
    intro hmem
    have hoff := hsound.holds.outside (List.mem_append_left _ (List.mem_append_left _ hmem))
    exact hoff.2.2 (List.mem_map_of_mem he)
  exact ⟨i, w, d, t, ht, htiming.sequence, htiming.given, hwhen ▸ (htiming.due hout).1⟩

/-- One that fires twice, late the second time, and one that fires once. -/
theorem on_schedule_two : ∃ s, exec step start
    [.create 8 10 2500000, .create 9 10 0, .addTimerInLoop ⟨8, 1⟩ 0, .addTimerInLoop ⟨9, 2⟩ 0,
      .handleRead 20 21, .run, .run, .reset 22, .handleRead 2000500 2000501, .run,
      .reset 2000502] = some s ∧
    Scheduled 10 2500000 [⟨10, 20⟩, ⟨2000020, 2000500⟩] ∧ Scheduled 10 0 [⟨10, 20⟩] ∧
    s.queue.timers = [⟨4000500, 8⟩] :=
  have hrun := on_schedule
    [.create 8 10 2500000, .create 9 10 0, .addTimerInLoop ⟨8, 1⟩ 0, .addTimerInLoop ⟨9, 2⟩ 0,
      .handleRead 20 21, .run, .run, .reset 22, .handleRead 2000500 2000501, .run,
      .reset 2000502] _ rfl
  ⟨_, rfl, hrun.1 0 10 2500000 rfl, hrun.1 1 10 0 rfl, by decide +kernel⟩

end Calls

end Timers

end WebServer

/-
# `Net.Deadline` — the timerfd is set while timers wait

`insert` sets the timerfd when the new timer comes before all others, `reset`
sets it for the first of the timers that are left, and nothing else does: a
`cancel` leaves it as it is.  A setting `Covers` the queue when no timer has to
wait for it longer than it should.  By the order of `timers_` it is enough to
look at the first one (`covers_of_first`), and a later first timer only makes it
easier; so a covered queue stays covered until `handleRead` takes the setting.

In `handleRead` the timerfd may be unset.  `getExpired` has left only timers
after `now`, so what is at or before time zero has been added by a callback, and
its `insert` has set the timerfd.  That is why `reset` may pass over a first
timer whose expiration is not valid (`Timely.armed`).

The intervals are those a `Timer` is defined for, below 2^31 seconds.
-/
import WebServer.Net.TimerCalls

namespace WebServer

namespace Timers

open Machine TimerQueue

/-! ## The order of `timers_` -/

theorem Entry.when_le {e f : Entry} (h : e ≤ f) : e.when ≤ f.when := by
  have hlex : toLex (e.when, e.timer) ≤ toLex (f.when, f.timer) := h
  rcases Prod.Lex.toLex_le_toLex.mp hlex with hlt | ⟨heq, -⟩
  · exact le_of_lt hlt
  · exact le_of_eq heq

namespace Calls

/-- No timer waits for the timerfd longer than until its expiration, or the 100
microseconds that every setting has at least. -/
def Covers (setting : Setting) (timers : List Entry) : Prop :=
  ∀ e ∈ timers, setting.deadline ≤ max e.when (setting.time + 100)

variable {s s' : State} {setting : Setting} {timers : List Entry}

theorem covers_of_first {e : Entry} (h : setting.deadline ≤ max e.when (setting.time + 100))
    (hfirst : ∀ f ∈ timers, e.when ≤ f.when) : Covers setting timers := by
  intro f hf
  have := hfirst f hf
  omega

/-- The deadline that `resetTimerfd` sets for an expiration. -/
theorem covers_resetTimerfd (clock expiration : Int)
    (hfirst : ∀ f ∈ timers, expiration ≤ f.when) :
    Covers ⟨clock, clock + max 100 (expiration - clock)⟩ timers := by
  intro f hf
  have := hfirst f hf
  dsimp only
  omega

/-- `timers_` is in order, and no timer repeats into the past. -/
structure Orderly (q : TimerQueue) : Prop where
  sorted : q.timers.Pairwise (· ≤ ·)
  repeating : ∀ a t, q.heap a = some t → t.repeats = true → 0 ≤ t.interval

structure Timely (s : State) : Prop extends Orderly s.queue where
  positive : ∀ b, s.batch = some b → 0 < b.now
  armed : ∀ e ∈ s.queue.timers, s.batch = none ∨ e.when ≤ 0 →
    ∃ setting, s.timerfd = some setting ∧ Covers setting s.queue.timers

theorem timely_start : Timely start where
  sorted := List.Pairwise.nil
  repeating := nofun
  positive := nofun
  armed := nofun

/-! ## What the functions do to `timers_` and to the timerfd -/

variable {q q' : TimerQueue}

theorem Orderly.update (h : Orderly q) (a : Addr) {v : Option Timer} (n : Nat)
    (hv : ∀ t, v = some t → t.repeats = true → 0 ≤ t.interval) :
    Orderly { q with heap := Function.update q.heap a v, sqe_numCreated := n } where
  sorted := h.sorted
  repeating := by
    intro b t hb
    by_cases hba : b = a
    · subst hba
      exact hv t ((Function.update_self b v q.heap).symm.trans hb)
    · exact h.repeating b t ((Function.update_of_ne hba v q.heap).symm.trans hb)

theorem Orderly.create (h : Orderly q) (a : Addr) (when interval : Int) :
    Orderly (q.create a when interval) := by
  refine h.update a _ ?_
  rintro t ⟨⟩ hrepeats
  have hpos : 0 < interval := by simpa [Timer.new] using hrepeats
  exact Int.tdiv_nonneg hpos.le (by decide)

/-- `insert` tells whether the new timer comes first. -/
theorem insert_cases (h : Orderly q) {a : Addr} {changed : Bool}
    (hinsert : q.insert a = some (q', changed)) :
    ∃ t, q.heap a = some t ∧ q'.heap = q.heap ∧ q'.timerfd = q.timerfd ∧
      q'.timers = OrderedSet.insert ⟨t.expiration, a⟩ q.timers ∧
      (changed = true → ∀ f ∈ q.timers, t.expiration ≤ f.when) ∧
      (changed = false → ∃ e ∈ q.timers, e.when ≤ t.expiration) := by
  obtain ⟨t, ht, hinsert⟩ := Option.bind_eq_some_iff.mp hinsert
  cases hinsert
  refine ⟨t, ht, rfl, rfl, rfl, ?_, ?_⟩
  · intro hchanged f hf
    cases htimers : q.timers with
    | nil => rw [htimers] at hf; exact absurd hf List.not_mem_nil
    | cons e rest =>
        have hsorted := h.sorted
        rw [htimers] at hchanged hf hsorted
        have hlt : t.expiration < e.when := by simpa using hchanged
        rcases List.mem_cons.mp hf with rfl | hf
        · exact hlt.le
        · exact hlt.le.trans (Entry.when_le ((List.pairwise_cons.mp hsorted).1 f hf))
  · intro hchanged
    cases htimers : q.timers with
    | nil => rw [htimers] at hchanged; exact absurd hchanged nofun
    | cons e rest =>
        rw [htimers] at hchanged
        exact ⟨e, List.mem_cons_self, by simpa using hchanged⟩

theorem Orderly.insert (h : Orderly q) {a : Addr} {changed : Bool}
    (hinsert : q.insert a = some (q', changed)) : Orderly q' := by
  obtain ⟨t, -, hheap, -, htimers, -, -⟩ := insert_cases h hinsert
  refine ⟨htimers ▸ OrderedSet.pairwise_insert h.sorted _, ?_⟩
  rw [hheap]
  exact h.repeating

theorem addTimerInLoop_cases (h : Orderly q) (hfd : q.timerfd = none) {a : Addr} {clock : Int}
    (hadd : q.addTimerInLoop a clock = some q') :
    Orderly q' ∧ ∃ t : Timer, q'.timers = OrderedSet.insert ⟨t.expiration, a⟩ q.timers ∧
      ((q'.timerfd = some (clock + max 100 (t.expiration - clock)) ∧
          ∀ f ∈ q.timers, t.expiration ≤ f.when) ∨
        (q'.timerfd = none ∧ ∃ e ∈ q.timers, e.when ≤ t.expiration)) := by
  obtain ⟨⟨r, changed⟩, hinsert, hadd⟩ := Option.bind_eq_some_iff.mp hadd
  have hr := h.insert hinsert
  obtain ⟨t, ht, hheap, hfd', htimers, hfirst, hlater⟩ := insert_cases h hinsert
  cases changed with
  | true =>
      obtain ⟨u, hu, hadd⟩ := Option.bind_eq_some_iff.mp hadd
      rw [hheap, ht] at hu
      cases hu
      cases hadd
      exact ⟨⟨hr.sorted, hr.repeating⟩, t, htimers, Or.inl ⟨rfl, hfirst rfl⟩⟩
  | false =>
      cases hadd
      exact ⟨hr, t, htimers, Or.inr ⟨hfd'.trans hfd, hlater rfl⟩⟩

theorem cancelInLoop_cases (h : Orderly q) {id : TimerId} (hcancel : q.cancelInLoop id = some q') :
    Orderly q' ∧ ∀ e ∈ q'.timers, e ∈ q.timers := by
  rw [TimerQueue.cancelInLoop] at hcancel
  split at hcancel
  · obtain ⟨t, -, hcancel⟩ := Option.bind_eq_some_iff.mp hcancel
    cases hcancel
    have hdelete := h.update id.timer q.sqe_numCreated (v := none) fun t hnone =>
      absurd hnone (Option.some_ne_none t).symm
    exact ⟨⟨h.sorted.sublist List.erase_sublist, hdelete.repeating⟩,
      fun e he => List.mem_of_mem_erase he⟩
  · split at hcancel <;> cases hcancel <;> exact ⟨⟨h.sorted, h.repeating⟩, fun e he => he⟩

/-- The loop of `getExpired` takes elements out of `activeTimers_`, and does nothing
else. -/
theorem eraseActive_frame (es : List Entry) : ∀ {q : TimerQueue},
    es.foldlM TimerQueue.eraseActive q = some q' →
      ∃ active, q' = { q with activeTimers := active } ∧ active.Sublist q.activeTimers := by
  induction es with
  | nil =>
      intro q h
      cases h
      exact ⟨_, rfl, List.Sublist.refl _⟩
  | cons e es ih =>
      intro q h
      rw [List.foldlM_cons] at h
      obtain ⟨r, hone, h⟩ := Option.bind_eq_some_iff.mp h
      obtain ⟨t, -, hone⟩ := Option.bind_eq_some_iff.mp hone
      cases hone
      obtain ⟨active, rfl, hsub⟩ := ih h
      exact ⟨active, rfl, hsub.trans List.erase_sublist⟩

theorem getExpired_cases (h : Orderly q) {now : Int} {expired : List Entry}
    (hget : q.getExpired now = some (q', expired)) :
    Orderly q' ∧ ∀ e ∈ q'.timers, now ≤ e.when := by
  obtain ⟨r, hfold, hget⟩ := Option.bind_eq_some_iff.mp hget
  cases hget
  obtain ⟨active, rfl, -⟩ := eraseActive_frame _ hfold
  refine ⟨⟨OrderedSet.pairwise_rest h.sorted _, h.repeating⟩, ?_⟩
  intro e he
  exact Entry.when_le (OrderedSet.le_of_mem_rest h.sorted he)

/-- `reset` puts timers back after time zero. -/
theorem resetOne_cases (h : Orderly q) {now : Int} (hnow : 0 < now) {e : Entry}
    (hreset : TimerQueue.resetOne now q e = some q') :
    Orderly q' ∧ q'.timerfd = q.timerfd ∧ ∀ f ∈ q'.timers, f ∈ q.timers ∨ 0 < f.when := by
  obtain ⟨t, ht, hreset⟩ := Option.bind_eq_some_iff.mp hreset
  split at hreset
  · rename_i hagain
    obtain ⟨⟨r, changed⟩, hinsert, hreset⟩ := Option.map_eq_some_iff.mp hreset
    cases hreset
    have hinterval := h.repeating e.timer t ht hagain.1
    have hrestart := h.update e.timer (v := some (t.restart now)) q.sqe_numCreated (by
      rintro u ⟨⟩ -
      rw [Timer.restart, if_pos hagain.1]
      exact hinterval)
    obtain ⟨u, hu, -, hfd, htimers, -, -⟩ := insert_cases hrestart hinsert
    cases (Function.update_self e.timer (some (t.restart now)) q.heap).symm.trans hu
    refine ⟨hrestart.insert hinsert, hfd, ?_⟩
    intro f hf
    rw [htimers] at hf
    rcases OrderedSet.mem_insert.mp hf with rfl | hf
    · right
      show 0 < (t.restart now).expiration
      rw [Timer.restart, if_pos hagain.1]
      show 0 < now + t.interval * microSecondsPerSecond
      have : 0 ≤ t.interval * microSecondsPerSecond := Int.mul_nonneg hinterval (by decide)
      omega
    · exact Or.inl hf
  · cases hreset
    have hdelete := h.update e.timer q.sqe_numCreated (v := none) nofun
    exact ⟨⟨h.sorted, hdelete.repeating⟩, rfl, fun f hf => Or.inl hf⟩

theorem resetAll_cases {now : Int} (hnow : 0 < now) (es : List Entry) : ∀ {q : TimerQueue},
    Orderly q → es.foldlM (TimerQueue.resetOne now) q = some q' →
    Orderly q' ∧ q'.timerfd = q.timerfd ∧ ∀ f ∈ q'.timers, f ∈ q.timers ∨ 0 < f.when := by
  induction es with
  | nil => intro q h hfold; cases hfold; exact ⟨h, rfl, fun f hf => Or.inl hf⟩
  | cons e es ih =>
      intro q h hfold
      rw [List.foldlM_cons] at hfold
      obtain ⟨r, hone, hfold⟩ := Option.bind_eq_some_iff.mp hfold
      obtain ⟨hr, hfd, hnew⟩ := resetOne_cases h hnow hone
      obtain ⟨hq', hfd', hnew'⟩ := ih hr hfold
      refine ⟨hq', hfd'.trans hfd, ?_⟩
      intro f hf
      rcases hnew' f hf with hf | hpos
      · exact hnew f hf
      · exact Or.inr hpos

/-! ## What one step preserves -/

/-- The clock is positive when `handleRead` reads it. -/
def Positive (_ : State) : Op → Prop
  | .handleRead now _ => 0 < now
  | _ => True

instance (s : State) : ∀ op, Decidable (Positive s op)
  | .handleRead now _ => inferInstanceAs (Decidable (0 < now))
  | .create _ _ _ | .addTimerInLoop _ _ | .cancelInLoop _ | .run | .reset _ => isTrue trivial

theorem timely_addTimerInLoop (ht : Timely s) {id : TimerId} {clock : Int}
    (h : s.perform (.addTimerInLoop id clock) = some s') : Timely s' := by
  obtain ⟨q, hadd, h⟩ := Option.bind_eq_some_iff.mp h
  cases h
  have hcleared : Orderly { s.queue with timerfd := none } := ⟨ht.sorted, ht.repeating⟩
  obtain ⟨hq, t, htimers, ⟨hfd, hfirst⟩ | ⟨hfd, e, he, hle⟩⟩ :=
    addTimerInLoop_cases hcleared rfl hadd
  · refine ⟨hq, ht.positive, ?_⟩
    intro _ _ _
    refine ⟨⟨clock, clock + max 100 (t.expiration - clock)⟩, ?_, ?_⟩
    · show s.setting q clock = _
      rw [State.setting, hfd]
    · show Covers _ q.timers
      refine covers_resetTimerfd clock t.expiration ?_
      intro f hf
      rw [htimers] at hf
      rcases OrderedSet.mem_insert.mp hf with rfl | hf
      · exact le_rfl
      · exact hfirst f hf
  · refine ⟨hq, ht.positive, ?_⟩
    intro f hf hwhen
    -- the timerfd has been set for `e`, and the new timer comes after it
    have hsome : s.batch = none ∨ ∃ g ∈ s.queue.timers, g.when ≤ 0 := by
      refine hwhen.imp_right fun hneg => ?_
      rw [show State.queue _ = q from rfl, htimers] at hf
      rcases OrderedSet.mem_insert.mp hf with rfl | hf
      · exact ⟨e, he, hle.trans hneg⟩
      · exact ⟨f, hf, hneg⟩
    have harmed : ∃ setting, s.timerfd = some setting ∧ Covers setting s.queue.timers := by
      rcases hsome with hnone | ⟨g, hg, hneg⟩
      · exact ht.armed e he (Or.inl hnone)
      · exact ht.armed g hg (Or.inr hneg)
    obtain ⟨setting, hset, hcovers⟩ := harmed
    refine ⟨setting, ?_, ?_⟩
    · show s.setting q clock = _
      rw [State.setting, hfd]
      exact hset
    · intro g hg
      rw [show State.queue _ = q from rfl, htimers] at hg
      rcases OrderedSet.mem_insert.mp hg with rfl | hg
      · have := hcovers e he
        dsimp only
        omega
      · exact hcovers g hg

theorem timely_cancelInLoop (ht : Timely s) {id : TimerId}
    (h : s.perform (.cancelInLoop id) = some s') : Timely s' := by
  obtain ⟨q, hcancel, h⟩ := Option.bind_eq_some_iff.mp h
  cases h
  obtain ⟨hq, hsub⟩ := cancelInLoop_cases ht.toOrderly hcancel
  refine ⟨hq, ht.positive, ?_⟩
  intro e he hwhen
  obtain ⟨setting, hset, hcovers⟩ := ht.armed e (hsub e he) hwhen
  exact ⟨setting, hset, fun f hf => hcovers f (hsub f hf)⟩

theorem timely_handleRead (ht : Timely s) {now read : Int} (hnow : 0 < now)
    (h : s.perform (.handleRead now read) = some s') : Timely s' := by
  obtain ⟨⟨q, expired⟩, hget, h⟩ := Option.bind_eq_some_iff.mp h
  cases h
  obtain ⟨hq, hlater⟩ := getExpired_cases ht.toOrderly hget
  refine ⟨⟨hq.sorted, hq.repeating⟩, ?_, ?_⟩
  · rintro b ⟨⟩
    exact hnow
  · intro e he hwhen
    rcases hwhen with hnone | hneg
    · exact absurd hnone nofun
    · have := hlater e he
      omega

theorem timely_run (ht : Timely s) (h : s.perform .run = some s') : Timely s' := by
  rw [State.perform] at h
  cases hbatch : s.batch with
  | none => rw [hbatch] at h; cases h
  | some b =>
      obtain ⟨now, started, waiting⟩ := b
      cases waiting with
      | nil => rw [hbatch] at h; cases h
      | cons e waiting =>
          rw [hbatch] at h
          obtain ⟨t, -, h⟩ := Option.bind_eq_some_iff.mp h
          cases h
          refine ⟨ht.toOrderly, ?_, ?_⟩
          · rintro b ⟨⟩
            exact ht.positive ⟨now, started, e :: waiting⟩ hbatch
          · intro f hf hwhen
            exact ht.armed f hf (hwhen.imp_left fun hnone => absurd hnone (Option.some_ne_none _))

/-- `reset` sets the timerfd for the first of the timers that are left, or that
timer is not valid. -/
theorem reset_cases (h : Orderly q) {es : List Entry} {out : List Addr}
    (hholds : q.Holds (es.map Entry.timer ++ out)) {now clock : Int} (hnow : 0 < now)
    (hreset : q.reset es now clock = some q') :
    Orderly q' ∧
      ((∃ expiration, q'.timerfd = some (clock + max 100 (expiration - clock)) ∧
          ∀ f ∈ q'.timers, expiration ≤ f.when) ∨
        (q'.timerfd = q.timerfd ∧
          ∀ f ∈ q'.timers, ∃ e ∈ q.timers, e.when ≤ 0 ∧ ∀ g ∈ q'.timers, e.when ≤ g.when)) := by
  obtain ⟨r, hfold, hreset⟩ := Option.bind_eq_some_iff.mp hreset
  obtain ⟨hr, hfd, hnew⟩ := resetAll_cases hnow es h hfold
  obtain ⟨r', hfold', hkeys, -⟩ := hholds.resetAll now es
  cases hfold.symm.trans hfold'
  cases htimers : r.timers with
  | nil =>
      rw [htimers] at hreset
      cases hreset
      refine ⟨hr, Or.inr ⟨hfd, ?_⟩⟩
      intro f hf
      rw [htimers] at hf
      exact absurd hf List.not_mem_nil
  | cons e rest =>
      have he : e ∈ r.timers := htimers ▸ List.mem_cons_self
      have hfirst : ∀ f ∈ r.timers, e.when ≤ f.when := by
        intro f hf
        have hsorted := hr.sorted
        rw [htimers] at hf hsorted
        rcases List.mem_cons.mp hf with rfl | hf
        · exact le_rfl
        · exact Entry.when_le ((List.pairwise_cons.mp hsorted).1 f hf)
      obtain ⟨t, ht, hwhen⟩ := hkeys.keys e he
      rw [htimers] at hreset
      dsimp only at hreset
      rw [ht] at hreset
      have hset : (if 0 < t.expiration then r.resetTimerfd clock t.expiration else r) = q' :=
        Option.some.inj hreset
      subst hset
      by_cases hvalid : 0 < t.expiration
      · rw [if_pos hvalid]
        exact ⟨⟨hr.sorted, hr.repeating⟩, Or.inl ⟨t.expiration, rfl, hwhen ▸ hfirst⟩⟩
      · rw [if_neg hvalid]
        refine ⟨hr, Or.inr ⟨hfd, ?_⟩⟩
        intro f _
        exact ⟨e, (hnew e he).resolve_right (by omega), by omega, hfirst⟩

theorem timely_reset (hs : Sound s) (ht : Timely s) {clock : Int} (hwaiting : s.waiting = [])
    (h : s.perform (.reset clock) = some s') : Timely s' := by
  rw [State.perform] at h
  cases hbatch : s.batch with
  | none => rw [hbatch] at h; cases h
  | some b =>
      obtain ⟨now, started, waiting⟩ := b
      have hholds := hs.holds
      have hexpired : s.expired = started.map Entry.timer := by
        rw [State.expired, hwaiting, State.started, hbatch]
        exact List.append_nil _
      rw [hexpired] at hholds
      rw [hbatch] at h
      obtain ⟨q, hreset, h⟩ := Option.bind_eq_some_iff.mp h
      cases h
      have hcleared : Orderly { s.queue with
          callingExpiredTimers := false, timerfd := none } := ⟨ht.sorted, ht.repeating⟩
      obtain ⟨hq, ⟨expiration, hfd, hfirst⟩ | ⟨hfd, hold⟩⟩ := reset_cases hcleared
        ⟨hholds.placed, hholds.paired, hholds.keys, hholds.ids, hholds.numbered⟩
        (ht.positive _ hbatch) hreset
      · refine ⟨hq, fun b hnone => absurd hnone (Option.some_ne_none b).symm, ?_⟩
        intro _ _ _
        refine ⟨⟨clock, clock + max 100 (expiration - clock)⟩, ?_,
          covers_resetTimerfd clock expiration hfirst⟩
        show s.setting q clock = _
        rw [State.setting, hfd]
      · refine ⟨hq, fun b hnone => absurd hnone (Option.some_ne_none b).symm, ?_⟩
        intro f hf _
        obtain ⟨e, he, hneg, hfirst⟩ := hold f hf
        obtain ⟨setting, hset, hcovers⟩ := ht.armed e he (Or.inr hneg)
        refine ⟨setting, ?_, covers_of_first (hcovers e he) hfirst⟩
        show s.setting q clock = _
        rw [State.setting, hfd]
        exact hset

theorem step_timely (hs : Sound s) (ht : Timely s) {op : Op} (hpositive : Positive s op)
    (h : step s op = some s') : Timely s' := by
  obtain ⟨hallows, h⟩ := Option.ite_none_right_eq_some.mp h
  cases op with
  | create timer when interval =>
      cases h
      have hq := ht.toOrderly.create timer when interval
      exact ⟨⟨hq.sorted, hq.repeating⟩, ht.positive, ht.armed⟩
  | addTimerInLoop id clock => exact timely_addTimerInLoop ht h
  | cancelInLoop id => exact timely_cancelInLoop ht h
  | handleRead now read => exact timely_handleRead ht hpositive h
  | run => exact timely_run ht h
  | reset clock => exact timely_reset hs ht hallows.2 h

/-! ## Every run -/

/-- Outside `handleRead`, with timers waiting, the timerfd is set, and for no
later than the first of them, or 100 microseconds after it was set.  Intervals
are below 2^31 seconds. -/
theorem never_unarmed {ops : List Op} (h : Meets step Positive start ops) :
    Throughout step (fun s => s.batch = none → s.queue.timers ≠ [] →
      ∃ setting, s.timerfd = some setting ∧
        ∀ e ∈ s.queue.timers, setting.deadline ≤ max e.when (setting.time + 100)) start ops := by
  have hboth : Throughout step (fun s => Sound s ∧ Timely s) start ops :=
    throughout_of_meets (fun s op t hs hpositive hstep =>
      ⟨step_sound hs.1 hstep, step_timely hs.1 hs.2 hpositive hstep⟩) h ⟨sound_start, timely_start⟩
  refine hboth.mono ?_
  intro s hs hbatch hne
  obtain ⟨e, he⟩ := List.exists_mem_of_ne_nil _ hne
  exact hs.2.armed e he (Or.inl hbatch)

/-- The first timer is cancelled, and a callback adds one that is already past. -/
theorem never_unarmed_past : Throughout step (fun s => s.batch = none → s.queue.timers ≠ [] →
      ∃ setting, s.timerfd = some setting ∧
        ∀ e ∈ s.queue.timers, setting.deadline ≤ max e.when (setting.time + 100)) start
    [.create 8 10 0, .create 9 900 5000000, .addTimerInLoop ⟨8, 1⟩ 5, .addTimerInLoop ⟨9, 2⟩ 6,
      .cancelInLoop ⟨8, 1⟩, .handleRead 950 951, .run, .create 8 (-3) 0,
      .addTimerInLoop ⟨8, 3⟩ 960, .reset 970] :=
  never_unarmed (by decide +kernel)

end Calls

end Timers

end WebServer

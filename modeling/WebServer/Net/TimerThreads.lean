/-
# `Net.TimerThreads` — what threads do to the timer queue, as calls of its loop thread

`Net.TimerQueue` has threads and functors in it, `Net.TimerCalls` only what the loop thread
calls.  A step of the first is a run of the second, of no call, one or two: an `addTimer`
creates a timer and inserts it, a functor is the call it was bound to, and what a foreign
thread does by itself is none.  `Embeds` relates the states: the queue and the batch are
the same, and the timers not inserted yet are those a functor or a foreign thread points to.
The timerfd is left out, as no operation reads it (`Alike`).

So every run of threads is one of calls (`exec_embeds`), and what holds of the calls holds
of the threads: where their pointers are (`Tracked.holds`).
-/
import WebServer.Net.TimerCalls

namespace WebServer

namespace Timers

open Machine TimerQueue

/-! ## The timerfd -/

namespace TimerQueue

/-- The queues differ in what their timerfd was last set to. -/
def Alike (q r : TimerQueue) : Prop := ∃ timerfd, r = { q with timerfd }

variable {q q' r : TimerQueue}

theorem Alike.refl (q : TimerQueue) : Alike q q := ⟨q.timerfd, rfl⟩

theorem Alike.heap (h : Alike q r) : r.heap = q.heap := by
  obtain ⟨timerfd, rfl⟩ := h
  rfl

theorem Alike.clear (h : Alike q r) : Alike q { r with timerfd := none } := by
  obtain ⟨timerfd, rfl⟩ := h
  exact ⟨none, rfl⟩

theorem Alike.create (h : Alike q r) (timer : Addr) (when interval : Int) :
    Alike (q.create timer when interval) (r.create timer when interval) := by
  obtain ⟨timerfd, rfl⟩ := h
  exact ⟨timerfd, rfl⟩

theorem Alike.resetTimerfd (h : Alike q r) (clock expiration : Int) :
    Alike (q.resetTimerfd clock expiration) (r.resetTimerfd clock expiration) := by
  obtain ⟨timerfd, rfl⟩ := h
  exact ⟨some (clock + max 100 (expiration - clock)), rfl⟩

theorem Alike.insert (h : Alike q r) {timer : Addr} {changed : Bool}
    (hq : q.insert timer = some (q', changed)) :
    ∃ r', r.insert timer = some (r', changed) ∧ Alike q' r' := by
  obtain ⟨timerfd, rfl⟩ := h
  obtain ⟨t, ht, hq⟩ := Option.bind_eq_some_iff.mp hq
  cases hq
  exact ⟨_, Option.bind_eq_some_iff.mpr ⟨t, ht, rfl⟩, timerfd, rfl⟩

theorem Alike.addTimerInLoop (h : Alike q r) {timer : Addr} {clock : Int}
    (hq : q.addTimerInLoop timer clock = some q') :
    ∃ r', r.addTimerInLoop timer clock = some r' ∧ Alike q' r' := by
  obtain ⟨⟨p, changed⟩, hp, hq⟩ := Option.bind_eq_some_iff.mp hq
  obtain ⟨p', hp', hsame⟩ := h.insert hp
  cases changed with
  | false =>
      cases hq
      exact ⟨p', Option.bind_eq_some_iff.mpr ⟨_, hp', rfl⟩, hsame⟩
  | true =>
      obtain ⟨t, ht, hq⟩ := Option.bind_eq_some_iff.mp hq
      cases hq
      have ht' : p'.heap timer = some t := hsame.heap ▸ ht
      exact ⟨_, Option.bind_eq_some_iff.mpr ⟨_, hp', Option.bind_eq_some_iff.mpr ⟨t, ht', rfl⟩⟩,
        hsame.resetTimerfd _ _⟩

theorem Alike.cancelInLoop (h : Alike q r) {timerId : TimerId}
    (hq : q.cancelInLoop timerId = some q') :
    ∃ r', r.cancelInLoop timerId = some r' ∧ Alike q' r' := by
  obtain ⟨timerfd, rfl⟩ := h
  unfold TimerQueue.cancelInLoop at hq ⊢
  dsimp only
  by_cases hactive : timerId ∈ q.activeTimers
  · rw [if_pos hactive] at hq ⊢
    obtain ⟨t, ht, hq⟩ := Option.bind_eq_some_iff.mp hq
    cases hq
    exact ⟨_, Option.bind_eq_some_iff.mpr ⟨t, ht, rfl⟩, timerfd, rfl⟩
  · rw [if_neg hactive] at hq ⊢
    split at hq <;> rename_i hcalling
    · cases hq
      exact ⟨_, if_pos hcalling, timerfd, rfl⟩
    · cases hq
      exact ⟨_, if_neg hcalling, timerfd, rfl⟩

/-- The loops over the batch. -/
theorem Alike.foldlM {f : TimerQueue → Entry → Option TimerQueue}
    (hf : ∀ {q r q' : TimerQueue} {e : Entry}, Alike q r → f q e = some q' →
      ∃ r', f r e = some r' ∧ Alike q' r') (es : List Entry) :
    ∀ {q r q' : TimerQueue}, Alike q r → es.foldlM f q = some q' →
      ∃ r', es.foldlM f r = some r' ∧ Alike q' r' := by
  induction es with
  | nil =>
      intro q r q' h hq
      cases hq
      exact ⟨r, rfl, h⟩
  | cons e es ih =>
      intro q r q' h hq
      obtain ⟨p, hp, hq⟩ := Option.bind_eq_some_iff.mp hq
      obtain ⟨p', hp', hsame⟩ := hf h hp
      obtain ⟨r', hr', hsame'⟩ := ih hsame hq
      exact ⟨r', Option.bind_eq_some_iff.mpr ⟨p', hp', hr'⟩, hsame'⟩

theorem Alike.eraseActive (h : Alike q r) {e : Entry} (hq : q.eraseActive e = some q') :
    ∃ r', r.eraseActive e = some r' ∧ Alike q' r' := by
  obtain ⟨timerfd, rfl⟩ := h
  obtain ⟨t, ht, hq⟩ := Option.bind_eq_some_iff.mp hq
  cases hq
  exact ⟨_, Option.bind_eq_some_iff.mpr ⟨t, ht, rfl⟩, timerfd, rfl⟩

theorem Alike.getExpired (h : Alike q r) {now : Int} {expired : List Entry}
    (hq : q.getExpired now = some (q', expired)) :
    ∃ r', r.getExpired now = some (r', expired) ∧ Alike q' r' := by
  obtain ⟨timerfd, rfl⟩ := h
  obtain ⟨p, hp, hq⟩ := Option.bind_eq_some_iff.mp hq
  cases hq
  have hstart : Alike { q with timers := OrderedSet.rest ⟨now, uintptrMax⟩ q.timers }
      { q with timers := OrderedSet.rest ⟨now, uintptrMax⟩ q.timers, timerfd } := ⟨timerfd, rfl⟩
  obtain ⟨p', hp', hsame⟩ := Alike.foldlM (f := TimerQueue.eraseActive)
    (fun h hq => Alike.eraseActive h hq) _ hstart hp
  exact ⟨p', Option.bind_eq_some_iff.mpr ⟨p', hp', rfl⟩, hsame⟩

theorem Alike.resetOne (h : Alike q r) {now : Int} {e : Entry}
    (hq : q.resetOne now e = some q') : ∃ r', r.resetOne now e = some r' ∧ Alike q' r' := by
  obtain ⟨timerfd, rfl⟩ := h
  obtain ⟨t, ht, hq⟩ := Option.bind_eq_some_iff.mp hq
  by_cases hagain : t.repeats ∧ ⟨e.timer, t.sequence⟩ ∉ q.cancelingTimers
  · rw [if_pos hagain] at hq
    obtain ⟨⟨p, changed⟩, hp, rfl⟩ := Option.map_eq_some_iff.mp hq
    have hstart : Alike
        { q with heap := Function.update q.heap e.timer (some (t.restart now)) }
        { q with heap := Function.update q.heap e.timer (some (t.restart now)), timerfd } :=
      ⟨timerfd, rfl⟩
    obtain ⟨p', hp', hsame⟩ := hstart.insert hp
    exact ⟨p', Option.bind_eq_some_iff.mpr ⟨t, ht, (if_pos hagain).trans
      (Option.map_eq_some_iff.mpr ⟨_, hp', rfl⟩)⟩, hsame⟩
  · rw [if_neg hagain] at hq
    cases hq
    exact ⟨_, Option.bind_eq_some_iff.mpr ⟨t, ht, if_neg hagain⟩, timerfd, rfl⟩

theorem Alike.reset (h : Alike q r) {expired : List Entry} {now clock : Int}
    (hq : q.reset expired now clock = some q') :
    ∃ r', r.reset expired now clock = some r' ∧ Alike q' r' := by
  obtain ⟨p, hp, hq⟩ := Option.bind_eq_some_iff.mp hq
  obtain ⟨p', hp', hsame⟩ := Alike.foldlM (f := TimerQueue.resetOne now)
    (fun h hq => Alike.resetOne h hq) _ h hp
  obtain ⟨timerfd, rfl⟩ := hsame
  cases htimers : p.timers with
  | nil =>
      rw [htimers] at hq
      cases hq
      refine ⟨{ q' with timerfd }, Option.bind_eq_some_iff.mpr ⟨_, hp', ?_⟩, timerfd, rfl⟩
      dsimp only
      rw [htimers]
  | cons e es =>
      rw [htimers] at hq
      obtain ⟨t, ht, hq⟩ := Option.bind_eq_some_iff.mp hq
      cases hq
      refine ⟨if 0 < t.expiration then
          ({ p with timerfd } : TimerQueue).resetTimerfd clock t.expiration
        else { p with timerfd }, Option.bind_eq_some_iff.mpr ⟨_, hp', ?_⟩, ?_⟩
      · dsimp only
        rw [htimers]
        exact Option.bind_eq_some_iff.mpr ⟨t, ht, rfl⟩
      · split
        · exact Alike.resetTimerfd ⟨timerfd, rfl⟩ _ _
        · exact ⟨timerfd, rfl⟩

theorem Alike.live (h : Alike q r) {id : TimerId} : r.Live id ↔ q.Live id := by
  rw [Live, Live, h.heap]

theorem Alike.holds (h : Alike q r) {out : List Addr} (hr : r.Holds out) : q.Holds out := by
  obtain ⟨timerfd, rfl⟩ := h
  exact ⟨hr.placed, hr.paired, hr.keys, hr.ids, hr.numbered⟩

end TimerQueue

/-! ## The states of the two machines -/

/-- The pointer a queued functor holds. -/
def Functor.pointer : Functor → Option Addr
  | .addTimerInLoop timer => some timer
  | .cancelInLoop _ => none

namespace State

/-- The entries of the batch whose callbacks have been started. -/
def started (s : State) : List Entry :=
  match s.batch with
  | none => []
  | some b => b.started

/-- The entries of the batch whose callbacks have not. -/
def waiting (s : State) : List Entry :=
  match s.batch with
  | none => []
  | some b => b.waiting

/-- The timers that are created and not inserted. -/
def pending (s : State) : List Addr := s.functors.filterMap Functor.pointer ++ s.made

/-- The pointers held outside the queue. -/
def outside (s : State) : List Addr :=
  s.started.map Entry.timer ++ (s.waiting.map Entry.timer ++ s.pending)

end State

/-- What the loop thread sees of the threads. -/
structure Embeds (s : State) (c : Calls.State) : Prop where
  queue : Alike s.queue c.queue
  batch : c.batch = s.batch
  pending : (c.pending.map ActiveTimer.timer).Perm s.pending

variable {s s' : State} {c : Calls.State}

theorem embeds_start : Embeds start Calls.start := ⟨Alike.refl _, rfl, List.Perm.refl _⟩

theorem Embeds.inUserCode (h : Embeds s c) : c.inUserCode = s.inUserCode := by
  have hbatch := h.batch
  cases hs : s.batch with
  | none => rw [Calls.State.inUserCode, State.inUserCode, hbatch, hs]
  | some b => rw [Calls.State.inUserCode, State.inUserCode, hbatch, hs]

theorem Embeds.expired (h : Embeds s c) :
    c.expired = s.started.map Entry.timer ++ s.waiting.map Entry.timer := by
  have hbatch := h.batch
  cases hs : s.batch with
  | none =>
      rw [Calls.State.expired, Calls.State.started, Calls.State.waiting, State.started,
        State.waiting, hbatch, hs]
  | some b =>
      rw [Calls.State.expired, Calls.State.started, Calls.State.waiting, State.started,
        State.waiting, hbatch, hs]

/-- A call that is allowed is performed. -/
theorem Calls.exec_one {op : Calls.Op} {c' : Calls.State} (hallows : c.Allows op)
    (hperform : c.perform op = some c') : exec Calls.step c [op] = some c' :=
  exec_cons.mpr ⟨c', by rw [Calls.step, if_pos hallows, hperform], rfl⟩

/-! ## What a step is -/

theorem embeds_create (h : Embeds s c) {timer : Addr} {when interval : Int}
    (hstep : step s (.create timer when interval) = some s') :
    ∃ ops c', exec Calls.step c ops = some c' ∧ Embeds s' c' := by
  obtain ⟨hvacant, hstep⟩ := Option.ite_none_right_eq_some.mp hstep
  cases hstep
  refine ⟨[.create timer when interval], _, Calls.exec_one ⟨?_, hvacant.2⟩ rfl,
    h.queue.create timer when interval, h.batch, ?_⟩
  · exact h.queue.heap ▸ hvacant.1
  · exact (h.pending.cons timer).trans List.perm_middle.symm

/-- `addTimerInLoop` of a timer that is pending. -/
theorem embeds_insert (h : Embeds s c) (huser : s.inUserCode) {timer : Addr} {clock : Int}
    {q : TimerQueue} {pending : List Addr} (hpending : s.pending.Perm (timer :: pending))
    (hq : s.queue.addTimerInLoop timer clock = some q) (hs' : s'.queue = q)
    (hbatch : s'.batch = s.batch) (hleft : s'.pending = pending) :
    ∃ ops c', exec Calls.step c ops = some c' ∧ Embeds s' c' := by
  have hmem : timer ∈ c.pending.map ActiveTimer.timer :=
    (h.pending.trans hpending).mem_iff.mpr List.mem_cons_self
  obtain ⟨id, hid, rfl⟩ := List.mem_map.mp hmem
  obtain ⟨r, hr, hsame⟩ := h.queue.clear.addTimerInLoop hq
  refine ⟨[.addTimerInLoop id clock], _,
    Calls.exec_one ⟨h.inUserCode.trans huser, hid⟩ (Option.bind_eq_some_iff.mpr ⟨r, hr, rfl⟩),
    hs' ▸ hsame, h.batch.trans hbatch.symm, ?_⟩
  have herase := (List.perm_cons_erase hid).map ActiveTimer.timer
  rw [hleft]
  exact ((herase.symm.trans h.pending).trans hpending).cons_inv

theorem embeds_cancel (h : Embeds s c) (huser : s.inUserCode) {id : TimerId}
    (hstep : s.cancelInLoop id = some s') :
    ∃ ops c', exec Calls.step c ops = some c' ∧ Embeds s' c' := by
  obtain ⟨q, hq, hstep⟩ := Option.bind_eq_some_iff.mp hstep
  cases hstep
  obtain ⟨r, hr, hsame⟩ := h.queue.cancelInLoop hq
  exact ⟨[.cancelInLoop id], c.leave r, Calls.exec_one (h.inUserCode.trans huser)
    (Option.bind_eq_some_iff.mpr ⟨r, hr, rfl⟩), hsame, h.batch, h.pending⟩

theorem embeds_addTimer (h : Embeds s c) {timer : Addr} {when interval clock : Int}
    (hstep : step s (.addTimer timer when interval clock) = some s') :
    ∃ ops c', exec Calls.step c ops = some c' ∧ Embeds s' c' := by
  obtain ⟨⟨huser, hvacant⟩, hstep⟩ := Option.ite_none_right_eq_some.mp hstep
  obtain ⟨q, hq, hstep⟩ := Option.bind_eq_some_iff.mp hstep
  obtain ⟨t, -, hstep⟩ := Option.bind_eq_some_iff.mp hstep
  cases hstep
  obtain ⟨ops, c', hops, h'⟩ := embeds_create h
    (Option.ite_none_right_eq_some.mpr ⟨hvacant, rfl⟩ :
      step s (.create timer when interval) = some _)
  obtain ⟨ops', c'', hops', h''⟩ : ∃ ops c'', exec Calls.step c' ops = some c'' ∧
      Embeds { s with queue := q, returned := ⟨timer, t.sequence⟩ :: s.returned } c'' :=
    embeds_insert h' huser List.perm_middle hq rfl rfl rfl
  exact ⟨ops ++ ops', c'', exec_append.mpr ⟨c', hops, hops'⟩, h''⟩

theorem embeds_enqueue (h : Embeds s c) {timer : Addr}
    (hstep : step s (.enqueue timer) = some s') : Embeds s' c := by
  obtain ⟨hmade, hstep⟩ := Option.ite_none_right_eq_some.mp hstep
  cases hstep
  refine ⟨h.queue, h.batch, h.pending.trans ?_⟩
  have hfunctors : (s.functors ++ [Functor.addTimerInLoop timer]).filterMap Functor.pointer =
      s.functors.filterMap Functor.pointer ++ [timer] := by
    rw [List.filterMap_append]
    rfl
  show (s.functors.filterMap Functor.pointer ++ s.made).Perm
    ((s.functors ++ [Functor.addTimerInLoop timer]).filterMap Functor.pointer ++
      s.made.erase timer)
  rw [hfunctors, List.append_assoc, List.singleton_append]
  exact List.Perm.append_left _ (List.perm_cons_erase hmade)

theorem embeds_queueCancel (h : Embeds s c) {id : TimerId}
    (hstep : step s (.queueCancel id) = some s') : Embeds s' c := by
  obtain ⟨-, hstep⟩ := Option.ite_none_right_eq_some.mp hstep
  cases hstep
  have hfunctors : (s.functors ++ [Functor.cancelInLoop id]).filterMap Functor.pointer =
      s.functors.filterMap Functor.pointer := by
    rw [List.filterMap_append]
    exact List.append_nil _
  refine ⟨h.queue, h.batch, ?_⟩
  rw [State.pending, hfunctors]
  exact h.pending

/-- A cancel that is queued holds no pointer. -/
theorem Embeds.popCancel (h : Embeds s c) {id : TimerId} {functors : List Functor}
    (hfunctors : s.functors = .cancelInLoop id :: functors) :
    Embeds { s with functors := functors } c := by
  have hpending : s.pending = (Functor.cancelInLoop id :: functors).filterMap Functor.pointer ++
      s.made := by
    rw [State.pending, hfunctors]
  exact ⟨h.queue, h.batch, h.pending.trans (List.Perm.of_eq hpending)⟩

theorem embeds_runFunctor (h : Embeds s c) {clock : Int}
    (hstep : step s (.runFunctor clock) = some s') :
    ∃ ops c', exec Calls.step c ops = some c' ∧ Embeds s' c' := by
  rw [step] at hstep
  cases hbatch : s.batch with
  | some b => rw [hbatch] at hstep; cases hstep
  | none =>
      have huser : s.inUserCode := by rw [State.inUserCode, hbatch]
      cases hfunctors : s.functors with
      | nil => rw [hbatch, hfunctors] at hstep; cases hstep
      | cons f functors =>
          have hpending : s.pending = (f :: functors).filterMap Functor.pointer ++ s.made := by
            rw [State.pending, hfunctors]
          rw [hbatch, hfunctors] at hstep
          cases f with
          | addTimerInLoop timer =>
              obtain ⟨q, hq, hstep⟩ := Option.bind_eq_some_iff.mp hstep
              cases hstep
              exact embeds_insert h huser (List.Perm.of_eq hpending) hq rfl hbatch.symm rfl
          | cancelInLoop id =>
              exact embeds_cancel (h.popCancel hfunctors) huser (by rw [hbatch]; exact hstep)

theorem embeds_handleRead (h : Embeds s c) {now : Int}
    (hstep : step s (.handleRead now) = some s') :
    ∃ ops c', exec Calls.step c ops = some c' ∧ Embeds s' c' := by
  rw [step] at hstep
  cases hbatch : s.batch with
  | some b => rw [hbatch] at hstep; cases hstep
  | none =>
      rw [hbatch] at hstep
      obtain ⟨⟨q, expired⟩, hq, hstep⟩ := Option.bind_eq_some_iff.mp hstep
      cases hstep
      obtain ⟨r, hr, timerfd, rfl⟩ := h.queue.getExpired hq
      exact ⟨[.handleRead now now], _, Calls.exec_one (h.batch.trans hbatch)
        (Option.bind_eq_some_iff.mpr ⟨_, hr, rfl⟩), ⟨timerfd, rfl⟩, rfl, h.pending⟩

theorem embeds_run (h : Embeds s c) (hstep : step s .run = some s') :
    ∃ ops c', exec Calls.step c ops = some c' ∧ Embeds s' c' := by
  rw [step] at hstep
  cases hbatch : s.batch with
  | none => rw [hbatch] at hstep; cases hstep
  | some b =>
      obtain ⟨now, started, waiting⟩ := b
      cases waiting with
      | nil => rw [hbatch] at hstep; cases hstep
      | cons e waiting =>
          rw [hbatch] at hstep
          obtain ⟨t, ht, hstep⟩ := Option.bind_eq_some_iff.mp hstep
          cases hstep
          have hcalls : c.batch = some ⟨now, started, e :: waiting⟩ := h.batch.trans hbatch
          have hallows : c.Allows .run := by
            rw [Calls.State.Allows, Calls.State.waiting, hcalls]
            exact ⟨rfl, List.cons_ne_nil _ _⟩
          have hperform : c.perform .run =
              some { c with batch := some ⟨now, started ++ [e], waiting⟩ } := by
            rw [Calls.State.perform, hcalls]
            exact Option.bind_eq_some_iff.mpr ⟨t, h.queue.heap ▸ ht, rfl⟩
          exact ⟨[.run], _, Calls.exec_one hallows hperform, h.queue, rfl, h.pending⟩

theorem embeds_reset (h : Embeds s c) {clock : Int} (hstep : step s (.reset clock) = some s') :
    ∃ ops c', exec Calls.step c ops = some c' ∧ Embeds s' c' := by
  rw [step] at hstep
  cases hbatch : s.batch with
  | none => rw [hbatch] at hstep; cases hstep
  | some b =>
      obtain ⟨now, started, waiting⟩ := b
      cases waiting with
      | cons e waiting => rw [hbatch] at hstep; cases hstep
      | nil =>
          rw [hbatch] at hstep
          obtain ⟨q, hq, hstep⟩ := Option.bind_eq_some_iff.mp hstep
          cases hstep
          have hcalls : c.batch = some ⟨now, started, []⟩ := h.batch.trans hbatch
          have hallows : c.Allows (.reset clock) := by
            rw [Calls.State.Allows, Calls.State.waiting, hcalls]
            exact ⟨rfl, rfl⟩
          have hcleared : Alike { s.queue with callingExpiredTimers := false }
              { c.queue with callingExpiredTimers := false, timerfd := none } := by
            obtain ⟨timerfd, hqueue⟩ := h.queue
            exact ⟨none, by rw [hqueue]⟩
          obtain ⟨r, hr, hsame⟩ := hcleared.reset hq
          have hperform : c.perform (.reset clock) = some { c.leave r with
              batch := none, taken := [], timerfd := c.setting r clock } := by
            rw [Calls.State.perform, hcalls]
            exact Option.bind_eq_some_iff.mpr ⟨r, hr, rfl⟩
          exact ⟨[.reset clock], _, Calls.exec_one hallows hperform, hsame, rfl, h.pending⟩

/-- A step of the threads is a run of calls. -/
theorem step_embeds {a : Action} (h : Embeds s c) (hstep : step s a = some s') :
    ∃ ops c', exec Calls.step c ops = some c' ∧ Embeds s' c' := by
  cases a with
  | addTimer timer when interval clock => exact embeds_addTimer h hstep
  | cancel id =>
      obtain ⟨⟨huser, -⟩, hstep⟩ := Option.ite_none_right_eq_some.mp hstep
      exact embeds_cancel h huser hstep
  | create timer when interval => exact embeds_create h hstep
  | enqueue timer => exact ⟨[], c, rfl, embeds_enqueue h hstep⟩
  | build timer =>
      obtain ⟨-, hstep⟩ := Option.ite_none_right_eq_some.mp hstep
      obtain ⟨t, -, hstep⟩ := Option.bind_eq_some_iff.mp hstep
      cases hstep
      exact ⟨[], c, rfl, h.queue, h.batch, h.pending⟩
  | queueCancel id => exact ⟨[], c, rfl, embeds_queueCancel h hstep⟩
  | runFunctor clock => exact embeds_runFunctor h hstep
  | handleRead now => exact embeds_handleRead h hstep
  | run => exact embeds_run h hstep
  | reset clock => exact embeds_reset h hstep

/-! ## What a run is -/

/-- Whatever the threads do, the queue is as after some calls of the loop thread. -/
theorem exec_embeds {as : List Action} (h : exec step start as = some s) :
    ∃ ops c, exec Calls.step Calls.start ops = some c ∧ Embeds s c :=
  exec_simulation (fun _ _ _ _ h hstep => step_embeds h hstep) embeds_start h

/-- The calls that are behind a state. -/
def Tracked (s : State) : Prop := ∃ c, Reachable Calls.step Calls.start c ∧ Embeds s c

theorem tracked_start : Tracked start := ⟨Calls.start, ⟨[], rfl⟩, embeds_start⟩

theorem Tracked.step {a : Action} (h : Tracked s) (hstep : step s a = some s') : Tracked s' := by
  obtain ⟨c, ⟨ops, hops⟩, hembeds⟩ := h
  obtain ⟨ops', c', hops', hembeds'⟩ := step_embeds hembeds hstep
  exact ⟨c', ⟨ops ++ ops', exec_append.mpr ⟨c, hops, hops'⟩⟩, hembeds'⟩

theorem Tracked.popCancel (h : Tracked s) {id : TimerId} {functors : List Functor}
    (hfunctors : s.functors = .cancelInLoop id :: functors) :
    Tracked { s with functors := functors } :=
  h.imp fun _ hc => ⟨hc.1, hc.2.popCancel hfunctors⟩

/-- Every timer is in the queue, or a pointer to it is held outside. -/
theorem Tracked.holds (h : Tracked s) : s.queue.Holds s.outside := by
  obtain ⟨c, hc, hembeds⟩ := h
  refine (hembeds.queue.holds (Calls.sound_reachable hc).holds).perm ?_
  rw [hembeds.expired, State.outside, List.append_assoc]
  exact (hembeds.pending.append_left _).append_left _

end Timers

end WebServer

/-
# `Net.Cancel` — a cancelled timer, and when its callback starts again

`cancelInLoop` deletes a timer that is in `activeTimers_`; any other it notes in
`cancelingTimers_`, which `reset` consults once the callbacks of the batch have
run.  So it comes too late for a timer of the batch that is still to be started,
and too early for one whose `addTimerInLoop` is still queued: both are started
after `cancelInLoop` has returned (`cancel_not_final`).

`Ready` leaves these two out: the timer is deleted already, or active, or in the
batch and started.  `Gone` is what a cancel that meets it leaves behind, until
the timer is deleted and after: the timer is dead, or noted and started, and then
`reset` deletes it.  In a run all of whose cancels are `Ready`, every cancelled
timer stays `Gone`, and no callback starts late (`cancel_final`).
-/
import WebServer.Net.TimerThreads

namespace WebServer

namespace Timers

open Machine TimerQueue

/-! ## The condition -/

namespace State

/-- A cancel finds the timer deleted, active, or in the batch and started. -/
def Ready (s : State) (id : TimerId) : Prop :=
  s.queue.Live id → id ∈ s.queue.activeTimers ∨ id.timer ∈ s.started.map Entry.timer

instance (s : State) (id : TimerId) : Decidable (s.Ready id) :=
  inferInstanceAs (Decidable (_ → _))

/-- If the step runs `cancelInLoop`, it is ready. -/
def Settles (s : State) : Action → Prop
  | .cancel id => s.Ready id
  | .runFunctor _ =>
      match s.functors with
      | .cancelInLoop id :: _ => s.Ready id
      | _ => True
  | _ => True

instance (s : State) (a : Action) : Decidable (s.Settles a) := by
  unfold Settles
  split
  · infer_instance
  · split <;> infer_instance
  · infer_instance

/-! ## The invariant -/

/-- The timer of an id that has been cancelled: it is dead, or it will be when
the batch is over, and is not started until then. -/
def Gone (s : State) (id : TimerId) : Prop :=
  id.sequence ≤ s.queue.sqe_numCreated ∧ (s.queue.Live id →
    id ∈ s.queue.cancelingTimers ∧ id.timer ∈ s.started.map Entry.timer)

end State

structure Sound (s : State) : Prop where
  tracked : Tracked s
  calling : s.queue.callingExpiredTimers = s.batch.isSome
  known : ∀ id ∈ s.returned, id.sequence ≤ s.queue.sqe_numCreated
  queued : ∀ id, .cancelInLoop id ∈ s.functors → id ∈ s.returned
  gone : ∀ id ∈ s.cancelled, s.Gone id
  onTime : s.late = []

theorem sound_start : Sound start where
  tracked := tracked_start
  calling := rfl
  known := nofun
  queued := nofun
  gone := nofun
  onTime := rfl

theorem Sound.holds {s : State} (hs : Sound s) : s.queue.Holds s.outside := hs.tracked.holds

/-- A step that brings no old timer back to life, forgets no cancel and no start
keeps a timer gone. -/
theorem State.Gone.mono {s s' : State} {id : TimerId} (h : s.Gone id)
    (hnum : s.queue.sqe_numCreated ≤ s'.queue.sqe_numCreated)
    (hlive : id.sequence ≤ s.queue.sqe_numCreated → s'.queue.Live id → s.queue.Live id)
    (hcanceling : ∀ x ∈ s.queue.cancelingTimers, x ∈ s'.queue.cancelingTimers)
    (hstarted : ∀ e ∈ s.started, e ∈ s'.started) : s'.Gone id := by
  refine ⟨Nat.le_trans h.1 hnum, ?_⟩
  intro hid
  obtain ⟨hnoted, hmem⟩ := h.2 (hlive h.1 hid)
  obtain ⟨e, he, heq⟩ := List.mem_map.mp hmem
  exact ⟨hcanceling id hnoted, List.mem_map.mpr ⟨e, hstarted e he, heq⟩⟩

/-! ## What one step preserves -/

theorem sound_addTimer {s s' : State} (hs : Sound s) {timer : Addr} {when interval clock : Int}
    (h : step s (.addTimer timer when interval clock) = some s') : Sound s' := by
  have htracked := hs.tracked.step h
  obtain ⟨⟨-, hvacant⟩, h⟩ := Option.ite_none_right_eq_some.mp h
  have hcreate := hs.holds.create hvacant.1 when interval
  obtain ⟨q, hadd, hholds, hheap, hcanceling, hcalling, hnum⟩ := hcreate.addTimerInLoop clock
  obtain ⟨q', hadd', h⟩ := Option.bind_eq_some_iff.mp h
  cases hadd.symm.trans hadd'
  obtain ⟨t, ht, h⟩ := Option.bind_eq_some_iff.mp h
  cases h
  have hcount : s.queue.sqe_numCreated + 1 = q.sqe_numCreated := hnum.symm
  refine ⟨htracked, hcalling.trans hs.calling, ?_, ?_, ?_, hs.onTime⟩
  · intro id hid
    rcases List.mem_cons.mp hid with rfl | hid
    · exact hholds.numbered timer t ht
    · have := hs.known id hid
      show id.sequence ≤ q.sqe_numCreated
      omega
  · intro id hid
    exact .tail _ (hs.queued id hid)
  · intro id hid
    refine (hs.gone id hid).mono (by show _ ≤ q.sqe_numCreated; omega) ?_
      (fun x hx => hcanceling ▸ hx) fun e he => he
    intro hle hlive
    obtain ⟨u, hu, hseq⟩ := hlive
    rcases live_create ⟨u, hheap ▸ hu, hseq⟩ with hold | hnew
    · exact hold
    · omega

/-- `cancelInLoop` of an id that is ready. -/
theorem sound_cancelInLoop {s s' : State} (hs : Sound s) {id : TimerId} (hid : id ∈ s.returned)
    (hready : s.Ready id) (h : s.cancelInLoop id = some s') (htracked : Tracked s') :
    Sound s' := by
  obtain ⟨q, hcancel, -, hcalling, hnum, hlive, hcanceling, hself⟩ := hs.holds.cancelInLoop id
  obtain ⟨q', hcancel', h⟩ := Option.bind_eq_some_iff.mp h
  cases hcancel.symm.trans hcancel'
  cases h
  refine ⟨htracked, hcalling.trans hs.calling, ?_, hs.queued, ?_, hs.onTime⟩
  · intro x hx
    exact hnum ▸ hs.known x hx
  · intro x hx
    rcases List.mem_cons.mp hx with rfl | hx
    · refine ⟨hnum ▸ hs.known x hid, ?_⟩
      intro hx'
      obtain ⟨hnot, hnoted⟩ := hself hx'
      have hstarted := (hready (hlive x hx')).resolve_left hnot
      refine ⟨hnoted ?_, hstarted⟩
      rw [hs.calling]
      cases hbatch : s.batch with
      | some b => rfl
      | none =>
          rw [State.started, hbatch] at hstarted
          exact absurd hstarted List.not_mem_nil
    · exact (hs.gone x hx).mono (Nat.le_of_eq hnum.symm) (fun _ => hlive x) hcanceling
        fun e he => he

theorem sound_create {s s' : State} (hs : Sound s) {timer : Addr} {when interval : Int}
    (h : step s (.create timer when interval) = some s') : Sound s' := by
  have htracked := hs.tracked.step h
  obtain ⟨-, h⟩ := Option.ite_none_right_eq_some.mp h
  cases h
  refine ⟨htracked, hs.calling, fun id hid => Nat.le_succ_of_le (hs.known id hid), hs.queued, ?_,
    hs.onTime⟩
  intro id hid
  refine (hs.gone id hid).mono (Nat.le_succ _) ?_ (fun _ hx => hx) fun e he => he
  intro hle hlive
  rcases live_create hlive with hold | hnew
  · exact hold
  · omega

theorem sound_enqueue {s s' : State} (hs : Sound s) {timer : Addr}
    (h : step s (.enqueue timer) = some s') : Sound s' := by
  have htracked := hs.tracked.step h
  obtain ⟨-, h⟩ := Option.ite_none_right_eq_some.mp h
  cases h
  refine ⟨htracked, hs.calling, hs.known, ?_, hs.gone, hs.onTime⟩
  intro id hid
  rcases List.mem_append.mp hid with hid | hid
  · exact hs.queued id hid
  · exact absurd (List.mem_singleton.mp hid) nofun

theorem sound_build {s s' : State} (hs : Sound s) {timer : Addr}
    (h : step s (.build timer) = some s') : Sound s' := by
  have htracked := hs.tracked.step h
  obtain ⟨-, h⟩ := Option.ite_none_right_eq_some.mp h
  obtain ⟨t, ht, h⟩ := Option.bind_eq_some_iff.mp h
  cases h
  refine ⟨htracked, hs.calling, ?_, fun id hid => .tail _ (hs.queued id hid), hs.gone,
    hs.onTime⟩
  intro id hid
  rcases List.mem_cons.mp hid with rfl | hid
  · exact hs.holds.numbered timer t ht
  · exact hs.known id hid

theorem sound_queueCancel {s s' : State} (hs : Sound s) {id : TimerId}
    (h : step s (.queueCancel id) = some s') : Sound s' := by
  have htracked := hs.tracked.step h
  obtain ⟨hid, h⟩ := Option.ite_none_right_eq_some.mp h
  cases h
  refine ⟨htracked, hs.calling, hs.known, ?_, hs.gone, hs.onTime⟩
  intro x hx
  rcases List.mem_append.mp hx with hx | hx
  · exact hs.queued x hx
  · cases List.mem_singleton.mp hx
    exact hid

theorem sound_runFunctor {s s' : State} (hs : Sound s) {clock : Int}
    (hsettles : s.Settles (.runFunctor clock)) (h : step s (.runFunctor clock) = some s') :
    Sound s' := by
  have htracked := hs.tracked.step h
  rw [step] at h
  cases hbatch : s.batch with
  | some b => rw [hbatch] at h; cases h
  | none =>
      cases hfunctors : s.functors with
      | nil => rw [hbatch, hfunctors] at h; cases h
      | cons f functors =>
          rw [hbatch, hfunctors] at h
          have hqueued : ∀ id, .cancelInLoop id ∈ functors → id ∈ s.returned := fun id hid =>
            hs.queued id (hfunctors ▸ .tail _ hid)
          cases f with
          | addTimerInLoop timer =>
              have hmem : timer ∈ s.outside := by
                rw [State.outside, State.pending, hfunctors]
                exact List.mem_append_right _ (List.mem_append_right _ List.mem_cons_self)
              obtain ⟨q, hadd, -, hheap, hcanceling, hcalling, hnum⟩ :=
                (hs.holds.perm (List.perm_cons_erase hmem)).addTimerInLoop clock
              obtain ⟨q', hadd', h⟩ := Option.bind_eq_some_iff.mp h
              cases hadd.symm.trans hadd'
              cases h
              rw [← hbatch] at htracked ⊢
              refine ⟨htracked, hcalling.trans hs.calling, fun id hid => hnum ▸ hs.known id hid,
                hqueued, ?_, hs.onTime⟩
              intro id hid
              refine (hs.gone id hid).mono (Nat.le_of_eq hnum.symm) ?_
                (fun x hx => hcanceling ▸ hx) fun e he => he
              intro _ hlive
              obtain ⟨t, ht, hseq⟩ := hlive
              exact ⟨t, hheap ▸ ht, hseq⟩
          | cancelInLoop id =>
              rw [State.Settles, hfunctors] at hsettles
              have hid : id ∈ s.returned := hs.queued id (hfunctors ▸ .head _)
              have hpopped : Tracked { s with functors := functors } :=
                hs.tracked.popCancel hfunctors
              exact sound_cancelInLoop (s := { s with functors := functors })
                ⟨hpopped, hs.calling, hs.known, hqueued, hs.gone, hs.onTime⟩ hid hsettles
                (by rw [hbatch]; exact h) htracked

theorem sound_handleRead {s s' : State} (hs : Sound s) {now : Int}
    (h : step s (.handleRead now) = some s') : Sound s' := by
  have htracked := hs.tracked.step h
  rw [step] at h
  cases hbatch : s.batch with
  | some b => rw [hbatch] at h; cases h
  | none =>
      rw [hbatch] at h
      obtain ⟨q, expired, hget, -, hheap, hnum⟩ := hs.holds.getExpired now
      obtain ⟨r, hget', h⟩ := Option.bind_eq_some_iff.mp h
      cases hget.symm.trans hget'
      cases h
      have hstarted : s.started = [] := by rw [State.started, hbatch]
      refine ⟨htracked, rfl, fun id hid => hnum ▸ hs.known id hid, hs.queued, ?_, hs.onTime⟩
      intro id hid
      refine ⟨hnum ▸ (hs.gone id hid).1, ?_⟩
      intro hlive
      obtain ⟨t, ht, hseq⟩ := hlive
      obtain ⟨-, hmem⟩ := (hs.gone id hid).2 ⟨t, hheap ▸ ht, hseq⟩
      rw [hstarted] at hmem
      exact absurd hmem List.not_mem_nil

/-- A callback that is started has not been cancelled. -/
theorem sound_run {s s' : State} (hs : Sound s) (h : step s .run = some s') : Sound s' := by
  have htracked := hs.tracked.step h
  rw [step] at h
  cases hbatch : s.batch with
  | none => rw [hbatch] at h; cases h
  | some b =>
      obtain ⟨now, started, waiting⟩ := b
      cases waiting with
      | nil => rw [hbatch] at h; cases h
      | cons e waiting =>
          rw [hbatch] at h
          obtain ⟨t, ht, h⟩ := Option.bind_eq_some_iff.mp h
          have hstarted : s.started = started := by rw [State.started, hbatch]
          have hwaiting : s.waiting = e :: waiting := by rw [State.waiting, hbatch]
          have hplaced := hs.holds.placed e.timer
          rw [State.outside, hstarted, hwaiting, ht, List.count_append, List.map_cons,
            List.cons_append, List.count_cons_self] at hplaced
          simp only [Option.isSome_some, if_true] at hplaced
          have hfresh : (⟨e.timer, t.sequence⟩ : TimerId) ∉ s.cancelled := by
            intro hcancelled
            obtain ⟨-, hmem⟩ := (hs.gone _ hcancelled).2 ⟨t, ht, rfl⟩
            rw [hstarted] at hmem
            have hpos := List.count_pos_iff.mpr hmem
            dsimp only at hpos
            omega
          simp only [if_neg hfresh] at h
          cases h
          refine ⟨htracked, hs.calling.trans (by rw [hbatch]; rfl), hs.known, hs.queued, ?_,
            hs.onTime⟩
          intro id hid
          refine (hs.gone id hid).mono (Nat.le_refl _) (fun _ hl => hl) (fun _ hx => hx) ?_
          intro e' he'
          rw [hstarted] at he'
          exact List.mem_append_left _ he'

/-- `reset` deletes the timers of the batch that were cancelled. -/
theorem sound_reset {s s' : State} (hs : Sound s) {clock : Int}
    (h : step s (.reset clock) = some s') : Sound s' := by
  have htracked := hs.tracked.step h
  rw [step] at h
  cases hbatch : s.batch with
  | none => rw [hbatch] at h; cases h
  | some b =>
      obtain ⟨now, started, waiting⟩ := b
      cases waiting with
      | cons e waiting => rw [hbatch] at h; cases h
      | nil =>
          rw [hbatch] at h
          have hstarted : s.started = started := by rw [State.started, hbatch]
          have hwaiting : s.waiting = [] := by rw [State.waiting, hbatch]
          have hholds := hs.holds
          rw [State.outside, hstarted, hwaiting] at hholds
          have hqueue : ({ s.queue with callingExpiredTimers := false } : TimerQueue).Holds _ :=
            ⟨hholds.placed, hholds.paired, hholds.keys, hholds.ids, hholds.numbered⟩
          obtain ⟨q, hreset, -, hcalling, hnum, hlive, hgone⟩ := hqueue.reset now clock
          obtain ⟨q', hreset', h⟩ := Option.bind_eq_some_iff.mp h
          cases hreset.symm.trans hreset'
          cases h
          refine ⟨htracked, hcalling, fun id hid => hnum ▸ hs.known id hid, hs.queued, ?_,
            hs.onTime⟩
          intro id hid
          refine ⟨hnum ▸ (hs.gone id hid).1, ?_⟩
          intro hid'
          obtain ⟨hnoted, hmem⟩ := (hs.gone id hid).2 (hlive id hid')
          rw [hstarted] at hmem
          exact absurd hid' (hgone id hnoted hmem)

theorem step_sound {s s' : State} (hs : Sound s) {a : Action} (hsettles : s.Settles a)
    (h : step s a = some s') : Sound s' := by
  have htracked := hs.tracked.step h
  cases a with
  | addTimer timer when interval clock => exact sound_addTimer hs h
  | cancel id =>
      obtain ⟨⟨-, hid⟩, h⟩ := Option.ite_none_right_eq_some.mp h
      exact sound_cancelInLoop hs hid hsettles h htracked
  | create timer when interval => exact sound_create hs h
  | enqueue timer => exact sound_enqueue hs h
  | build timer => exact sound_build hs h
  | queueCancel id => exact sound_queueCancel hs h
  | runFunctor clock => exact sound_runFunctor hs hsettles h
  | handleRead now => exact sound_handleRead hs h
  | run => exact sound_run hs h
  | reset clock => exact sound_reset hs h

/-! ## Every run -/

/-- In a run whose cancels are ready, no callback is ever started once
`cancelInLoop` has returned for its timer. -/
theorem cancel_final {as : List Action} (h : Meets step State.Settles start as) :
    Throughout step (fun s => s.late = []) start as := by
  have hsound : Throughout step Sound start as :=
    throughout_of_meets (fun s a t hs hC hstep => step_sound hs hC hstep) h sound_start
  exact hsound.mono fun s hs => hs.onTime

/-- A repeating timer whose callback cancels it, and an active one that the same
callback cancels. -/
theorem cancel_final_self : Throughout step (fun s => s.late = []) start
    [.addTimer 8 10 5000000 0, .addTimer 9 30 0 0, .handleRead 20, .run, .cancel ⟨8, 1⟩,
      .cancel ⟨9, 2⟩, .reset 21, .handleRead 6000000, .reset 6000001] :=
  cancel_final (by decide +kernel)

/-- Two timers of one batch, of which the first cancels the second. -/
theorem cancel_not_final : ¬∀ as s, exec step start as = some s → s.late = [] := by
  intro hall
  have hlate : (exec step start [.addTimer 8 10 0 0, .addTimer 9 10 0 0, .handleRead 20, .run,
      .cancel ⟨9, 2⟩, .run]).map State.late = some [⟨9, 2⟩] := by
    decide +kernel
  obtain ⟨s, hrun, hs⟩ := Option.map_eq_some_iff.mp hlate
  exact absurd ((hall _ s hrun).symm.trans hs) nofun

/-- A timer that a foreign thread has added, cancelled before it is inserted. -/
example : (exec step start [.create 8 10 0, .enqueue 8, .build 8, .cancel ⟨8, 1⟩, .runFunctor 0,
    .handleRead 20, .run]).map State.late = some [⟨8, 1⟩] := by
  decide +kernel

end Timers

end WebServer

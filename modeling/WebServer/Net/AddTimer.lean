/-
# `Net.AddTimer` — `addTimer` in a foreign thread

`addTimer` creates the timer, hands the pointer to the loop, and then reads
`sequence()` through the pointer once more, for the `TimerId` it returns.  In a
foreign thread the loop can do a great deal between these two: run
`addTimerInLoop`, find the timer expired, run its callback, and delete it.

The loop is that of `Net.TimerCalls`; here are the functors on its queue and the
foreign threads.  A pointer is written with the sequence number its timer was
created with, so that the calls of different timers at one address stay apart.
`reads` is the record of what the foreign threads found, and after a read that
did not find the timer of its call nothing more is said about the program.

Only `reset` deletes a timer whose `TimerId` is not built, since a timer is
cancelled by its id; and it does so to those that do not repeat.  Hence `safe_iff`.
-/
import WebServer.Net.Interval

namespace WebServer

namespace Timers

namespace Foreign

open Machine TimerQueue Calls

/-! ## The threads -/

/-- A functor on the queue of the loop. -/
inductive Functor where
  | addTimerInLoop (timerId : TimerId)
  | cancelInLoop (timerId : TimerId)
  deriving DecidableEq

/-- A `TimerId` that a foreign thread has built: the timer of the call, and the
sequence at its address; `none` where the timer there has been deleted. -/
structure Read where
  timerId : TimerId
  sequence : Option Nat
  deriving DecidableEq

/-- The timer of the call was read. -/
def Read.Right (r : Read) : Prop := r.sequence = some r.timerId.sequence

instance (r : Read) : Decidable r.Right := inferInstanceAs (Decidable (_ = _))

structure State where
  loop : Calls.State
  functors : List Functor
  /-- The timers that foreign threads have created and not enqueued. -/
  made : List TimerId
  /-- The timers that foreign threads have enqueued, before the `TimerId` is built. -/
  unbuilt : List TimerId
  /-- The ids that `addTimer` has returned. -/
  returned : List TimerId
  reads : List Read

def start : State where
  loop := Calls.start
  functors := []
  made := []
  unbuilt := []
  returned := []
  reads := []

inductive Action where
  /-- `addTimer` in the loop thread. -/
  | addTimer (timer : Addr) (when interval clock : Int)
  /-- `cancel` in the loop thread. -/
  | cancel (timerId : TimerId)
  /-- The three steps of `addTimer` in a foreign thread. -/
  | create (timer : Addr) (when interval : Int)
  | enqueue (timerId : TimerId)
  | build (timerId : TimerId)
  /-- `cancel` in a foreign thread. -/
  | queueCancel (timerId : TimerId)
  /-- The loop thread runs the first functor. -/
  | runFunctor (clock : Int)
  /-- `handleRead` up to its loop, the start of its next callback, and its `reset`. -/
  | handleRead (now read : Int)
  | run
  | reset (clock : Int)
  deriving DecidableEq

namespace State

/-- What `timer->sequence()` finds. -/
def sequence (s : State) (timer : Addr) : Option Nat :=
  (s.loop.queue.heap timer).map Timer.sequence

/-- The loop thread goes on by itself. -/
def call (s : State) (op : Op) : Option State :=
  (Calls.step s.loop op).map fun c => { s with loop := c }

/-- `TimerId(timer, timer->sequence())`, in the foreign thread that made the timer. -/
def build (s : State) (timerId : TimerId) : State :=
  let sequence := s.sequence timerId.timer
  { s with
    unbuilt := s.unbuilt.erase timerId
    returned := (sequence.map fun n => ⟨timerId.timer, n⟩).toList ++ s.returned
    reads := ⟨timerId, sequence⟩ :: s.reads }

def perform (s : State) : Action → Option State
  | .addTimer timer when interval clock =>
      if s.loop.inUserCode then do
        let c ← Calls.step s.loop (.create timer when interval)
        let c ← Calls.step c (.addTimerInLoop ⟨timer, c.queue.sqe_numCreated⟩ clock)
        let t ← c.queue.heap timer
        some { s with loop := c, returned := ⟨timer, t.sequence⟩ :: s.returned }
      else none
  | .cancel timerId => if timerId ∈ s.returned then s.call (.cancelInLoop timerId) else none
  | .create timer when interval =>
      (Calls.step s.loop (.create timer when interval)).map fun c =>
        { s with loop := c, made := ⟨timer, c.queue.sqe_numCreated⟩ :: s.made }
  | .enqueue timerId =>
      if timerId ∈ s.made then
        some { s with
          made := s.made.erase timerId
          functors := s.functors ++ [.addTimerInLoop timerId]
          unbuilt := timerId :: s.unbuilt }
      else none
  | .build timerId => if timerId ∈ s.unbuilt then some (s.build timerId) else none
  | .queueCancel timerId =>
      if timerId ∈ s.returned then
        some { s with functors := s.functors ++ [.cancelInLoop timerId] }
      else none
  | .runFunctor clock =>
      match s.loop.batch, s.functors with
      | none, .addTimerInLoop timerId :: functors =>
          { s with functors := functors }.call (.addTimerInLoop timerId clock)
      | none, .cancelInLoop timerId :: functors =>
          { s with functors := functors }.call (.cancelInLoop timerId)
      | _, _ => none
  | .handleRead now read => s.call (.handleRead now read)
  | .run => s.call .run
  | .reset clock => s.call (.reset clock)

end State

/-- The program goes on as long as no foreign thread has read another timer than its
own. -/
def step (s : State) (a : Action) : Option State :=
  if ∀ r ∈ s.reads, r.Right then s.perform a else none

/-- The timers whose `TimerId` is still to be built have not been deleted, and those
that have been read were the right ones. -/
structure Safe (s : State) : Prop where
  live : ∀ id ∈ s.unbuilt, s.loop.queue.Live id
  right : ∀ r ∈ s.reads, r.Right

/-- `reset` finds in the batch no timer that does not repeat and whose `TimerId` is
still to be built. -/
def Waits (s : State) : Action → Prop
  | .reset _ => ∀ id ∈ s.unbuilt, id.timer ∈ s.loop.started.map Entry.timer →
      (s.loop.queue.heap id.timer).map Timer.repeats = some true
  | _ => True

instance (s : State) (a : Action) : Decidable (Waits s a) := by
  unfold Waits
  split <;> infer_instance

/-! ## What the calls of the loop leave -/

section

variable {c c' : Calls.State} {id x : TimerId}

theorem step_create {timer : Addr} {when interval : Int}
    (h : Calls.step c (.create timer when interval) = some c') :
    c.queue.heap timer = none ∧ c'.queue = c.queue.create timer when interval ∧
      c'.pending = ⟨timer, c'.queue.sqe_numCreated⟩ :: c.pending ∧ c'.batch = c.batch := by
  obtain ⟨hallows, h⟩ := Option.ite_none_right_eq_some.mp h
  cases h
  exact ⟨hallows.1, rfl, rfl, rfl⟩

theorem step_addTimerInLoop (hc : Calls.Sound c) {clock : Int}
    (h : Calls.step c (.addTimerInLoop id clock) = some c') :
    c'.queue.heap = c.queue.heap ∧ c'.queue.sqe_numCreated = c.queue.sqe_numCreated ∧
      c'.queue.cancelingTimers = c.queue.cancelingTimers ∧
      c'.pending = c.pending.erase id ∧ c'.batch = c.batch := by
  obtain ⟨hallows, h⟩ := Option.ite_none_right_eq_some.mp h
  obtain ⟨q, hadd, h⟩ := Option.bind_eq_some_iff.mp h
  cases h
  have hperm : (c.expired ++ c.pending.map ActiveTimer.timer).Perm
      (id.timer :: (c.expired ++ (c.pending.erase id).map ActiveTimer.timer)) :=
    (((List.perm_cons_erase hallows.2).map _).append_left _).trans List.perm_middle
  have hholds := hc.holds.perm hperm
  have hcleared : ({ c.queue with timerfd := none } : TimerQueue).Holds _ :=
    ⟨hholds.placed, hholds.paired, hholds.keys, hholds.ids, hholds.numbered⟩
  obtain ⟨q', hadd', -, hheap, hcanceling, -, hnum⟩ := hcleared.addTimerInLoop clock
  cases hadd'.symm.trans hadd
  exact ⟨hheap, hnum, hcanceling, rfl, rfl⟩

/-- A cancel deletes no timer but its own. -/
theorem step_cancelInLoop (hc : Calls.Sound c) (h : Calls.step c (.cancelInLoop id) = some c') :
    (x ≠ id → c.queue.Live x → c'.queue.Live x) ∧
      c'.queue.sqe_numCreated = c.queue.sqe_numCreated ∧
      (∀ y ∈ c'.queue.cancelingTimers, y = id ∨ y ∈ c.queue.cancelingTimers) ∧
      c'.pending = c.pending ∧ c'.batch = c.batch := by
  obtain ⟨-, h⟩ := Option.ite_none_right_eq_some.mp h
  obtain ⟨q, hcancel, h⟩ := Option.bind_eq_some_iff.mp h
  cases h
  show (x ≠ id → c.queue.Live x → q.Live x) ∧ q.sqe_numCreated = c.queue.sqe_numCreated ∧
    (∀ y ∈ q.cancelingTimers, y = id ∨ y ∈ c.queue.cancelingTimers) ∧ _
  rw [TimerQueue.cancelInLoop] at hcancel
  split at hcancel
  · rename_i hactive
    obtain ⟨t, -, hcancel⟩ := Option.bind_eq_some_iff.mp hcancel
    cases hcancel
    refine ⟨?_, rfl, fun y hy => Or.inr hy, rfl, rfl⟩
    intro hne hx
    refine live_delete.mpr ⟨hx, ?_⟩
    exact fun htimer => hne (hx.unique (hc.holds.ids id hactive) htimer)
  · split at hcancel
    · cases hcancel
      exact ⟨fun _ hx => hx, rfl, fun y hy => OrderedSet.mem_insert.mp hy, rfl, rfl⟩
    · cases hcancel
      exact ⟨fun _ hx => hx, rfl, fun y hy => Or.inr hy, rfl, rfl⟩

theorem step_handleRead {now read : Int} (h : Calls.step c (.handleRead now read) = some c') :
    c'.queue.heap = c.queue.heap ∧ c'.queue.sqe_numCreated = c.queue.sqe_numCreated ∧
      c'.queue.cancelingTimers = [] ∧ c'.pending = c.pending := by
  obtain ⟨-, h⟩ := Option.ite_none_right_eq_some.mp h
  obtain ⟨⟨q, expired⟩, hget, h⟩ := Option.bind_eq_some_iff.mp h
  cases h
  obtain ⟨hheap, hnum, -⟩ := getExpired_due hget
  exact ⟨hheap, hnum, rfl, rfl⟩

theorem step_run (h : Calls.step c .run = some c') :
    c.batch.isSome = true ∧ c'.queue = c.queue ∧ c'.pending = c.pending := by
  obtain ⟨hallows, h⟩ := Option.ite_none_right_eq_some.mp h
  rw [Calls.State.perform] at h
  split at h
  · obtain ⟨t, -, h⟩ := Option.bind_eq_some_iff.mp h
    cases h
    exact ⟨hallows.1, rfl, rfl⟩
  · cases h

/-- The timers that the loop of `reset` does not meet stay; those it meets and that do
not repeat are deleted. -/
theorem resetAll_other {now : Int} {a : Addr} (es : List Entry) : ∀ {q q' : TimerQueue},
    es.foldlM (TimerQueue.resetOne now) q = some q' →
    (a ∉ es.map Entry.timer → q'.heap a = q.heap a) ∧
      (a ∈ es.map Entry.timer → (q.heap a).map Timer.repeats ≠ some true → q'.heap a = none) := by
  induction es with
  | nil =>
      intro q q' h
      cases h
      exact ⟨fun _ => rfl, fun hmem => absurd hmem List.not_mem_nil⟩
  | cons e es ih =>
      intro q q' h
      rw [List.foldlM_cons] at h
      obtain ⟨r, hone, h⟩ := Option.bind_eq_some_iff.mp h
      obtain ⟨-, -, -, t, ht, hcases⟩ := resetOne_heap hone
      have hrest : a ≠ e.timer → r.heap a = q.heap a := by
        intro hne
        rcases hcases with ⟨-, -, -, hr⟩ | ⟨-, hr⟩
        · rw [hr, Function.update_of_ne hne]
        · rw [hr, Function.update_of_ne hne]
      constructor
      · intro hnot
        rw [List.map_cons, List.mem_cons, not_or] at hnot
        rw [(ih h).1 hnot.2, hrest hnot.1]
      · intro hmem honce
        by_cases hae : a = e.timer
        · subst hae
          have hgone : r.heap e.timer = none := by
            rcases hcases with ⟨hrepeats, -, -, -⟩ | ⟨-, hr⟩
            · rw [ht, Option.map_some, hrepeats] at honce
              exact absurd rfl honce
            · rw [hr, Function.update_self]
          cases hheap : q'.heap e.timer with
          | none => rfl
          | some u =>
              obtain ⟨v, hv, -⟩ := (resetAll_timer es h).2 hheap
              cases hgone.symm.trans hv
        · refine (ih h).2 ((List.mem_cons.mp hmem).resolve_left hae) ?_
          rw [hrest hae]
          exact honce

/-- `reset` keeps the timers of the batch that repeat and are not cancelled, and
those outside it; the others that do not repeat it deletes. -/
theorem step_reset {clock : Int} (h : Calls.step c (.reset clock) = some c') :
    c.batch.isSome = true ∧ c'.batch = none ∧
      c'.queue.sqe_numCreated = c.queue.sqe_numCreated ∧ c'.pending = c.pending ∧
      (x.timer ∉ c.started.map Entry.timer → c.queue.Live x → c'.queue.Live x) ∧
      (x.timer ∈ c.started.map Entry.timer → x ∉ c.queue.cancelingTimers → c.queue.Live x →
        (c'.queue.Live x ↔ (c.queue.heap x.timer).map Timer.repeats = some true)) := by
  obtain ⟨hallows, h⟩ := Option.ite_none_right_eq_some.mp h
  rw [Calls.State.perform] at h
  split at h
  · rename_i now started waiting hbatch
    obtain ⟨q, hreset, h⟩ := Option.bind_eq_some_iff.mp h
    cases h
    obtain ⟨r, hfold, hheap, -, hnum⟩ := reset_heap hreset
    have hstarted : c.started = started := by rw [Calls.State.started, hbatch]
    rw [hstarted]
    refine ⟨hallows.1, rfl, hnum.trans (resetAll_timer _ hfold).1, rfl, ?_, ?_⟩
    · rintro hout ⟨t, ht, hseq⟩
      refine ⟨t, ?_, hseq⟩
      show q.heap x.timer = some t
      rw [hheap, (resetAll_other _ hfold).1 hout]
      exact ht
    · rintro hmem hcancel ⟨t, ht, hseq⟩
      constructor
      · rintro ⟨u, hu, -⟩
        by_contra honce
        have hgone := (resetAll_other _ hfold).2 hmem honce
        rw [← hheap] at hgone
        cases hgone.symm.trans hu
      · intro hrepeats
        rw [ht, Option.map_some, Option.some.injEq] at hrepeats
        have hid : x = ⟨x.timer, t.sequence⟩ := by rw [hseq]
        obtain ⟨hrestart, -⟩ := resetAll_restarts hrepeats _ hfold hmem (hid ▸ hcancel) ht
        refine ⟨t.restart now, ?_, (t.sequence_restart now).trans hseq⟩
        exact (congrFun hheap _).trans hrestart
  · cases h

end

/-! ## The invariant -/

/-- The timer whose `addTimerInLoop` is queued. -/
def Functor.added : Functor → Option TimerId
  | .addTimerInLoop timerId => some timerId
  | .cancelInLoop _ => none

/-- The timers of the foreign threads' calls, and the ids that there are. -/
def State.issued (s : State) : List TimerId := s.made ++ (s.unbuilt ++ s.returned)

/-- No timer has two ids, or an id and a call that is still to build one; and only what
`addTimer` has returned is ever cancelled. -/
structure Tracked (s : State) : Prop where
  sound : Calls.Sound s.loop
  pending : s.loop.pending.Perm (s.functors.filterMap Functor.added ++ s.made)
  once : (s.issued.map ActiveTimer.sequence).Nodup
  known : ∀ id ∈ s.issued, id.sequence ≤ s.loop.queue.sqe_numCreated
  queued : ∀ id, .cancelInLoop id ∈ s.functors → id ∈ s.returned
  canceling : s.loop.batch.isSome = true →
    ∀ id ∈ s.loop.queue.cancelingTimers, id ∈ s.returned

theorem tracked_start : Tracked start where
  sound := Calls.sound_start
  pending := List.Perm.refl _
  once := List.nodup_nil
  known := nofun
  queued := nofun
  canceling := nofun

section

variable {s t : State} {id : TimerId}

theorem Tracked.unreturned (hs : Tracked s) (hid : id ∈ s.unbuilt) : id ∉ s.returned := by
  have honce := (hs.once.of_map _)
  rw [State.issued, List.nodup_append, List.nodup_append] at honce
  exact fun hreturned => honce.2.1.2.2 id hid id hreturned rfl

theorem Tracked.made_live (hs : Tracked s) (hid : id ∈ s.made) : s.loop.queue.Live id :=
  hs.sound.live id (List.mem_append_right _
    (hs.pending.mem_iff.mpr (List.mem_append_right _ hid)))

/-- What the loop does by itself to the queue. -/
theorem Tracked.call (hs : Tracked s) {c : Calls.State} {op : Op}
    (hstep : Calls.step s.loop op = some c)
    (hpending : c.pending = s.loop.pending)
    (hnum : c.queue.sqe_numCreated = s.loop.queue.sqe_numCreated)
    (hcanceling : c.batch.isSome = true → ∀ id ∈ c.queue.cancelingTimers, id ∈ s.returned) :
    Tracked { s with loop := c } where
  sound := Calls.step_sound hs.sound hstep
  pending := by
    show c.pending.Perm _
    rw [hpending]
    exact hs.pending
  once := hs.once
  known := fun id hid => by
    show id.sequence ≤ c.queue.sqe_numCreated
    rw [hnum]
    exact hs.known id hid
  queued := hs.queued
  canceling := hcanceling

/-- The ids after one step, where they are those before it and that of a new timer. -/
theorem Tracked.issue (hs : Tracked s) {n : Nat} (hn : n = s.loop.queue.sqe_numCreated + 1)
    {timer : Addr} {issued : List TimerId} (hperm : issued.Perm (⟨timer, n⟩ :: s.issued)) :
    (issued.map ActiveTimer.sequence).Nodup ∧ ∀ id ∈ issued, id.sequence ≤ n := by
  constructor
  · rw [(hperm.map _).nodup_iff, List.map_cons, List.nodup_cons]
    refine ⟨?_, hs.once⟩
    intro hmem
    obtain ⟨x, hx, hseq⟩ := List.mem_map.mp hmem
    have hle := hs.known x hx
    dsimp only at hseq
    omega
  · intro x hx
    rcases List.mem_cons.mp (hperm.mem_iff.mp hx) with rfl | hx
    · exact Nat.le_refl _
    · have hle := hs.known x hx
      omega

theorem tracked_create (hs : Tracked s) {timer : Addr} {when interval : Int}
    {c : Calls.State} (h : Calls.step s.loop (.create timer when interval) = some c) :
    Tracked { s with loop := c, made := ⟨timer, c.queue.sqe_numCreated⟩ :: s.made } := by
  obtain ⟨-, hqueue, hpending, hbatch⟩ := step_create h
  have hnum : c.queue.sqe_numCreated = s.loop.queue.sqe_numCreated + 1 := by rw [hqueue]; rfl
  obtain ⟨honce, hknown⟩ := hs.issue hnum
    (List.Perm.refl (⟨timer, c.queue.sqe_numCreated⟩ :: s.issued))
  refine ⟨Calls.step_sound hs.sound h, ?_, honce, hknown, hs.queued, ?_⟩
  · dsimp only
    rw [hpending]
    exact (hs.pending.cons _).trans List.perm_middle.symm
  · dsimp only
    rw [hqueue, hbatch]
    exact hs.canceling

/-- `addTimer` in the loop thread: the id that it returns is of the timer it has created. -/
theorem tracked_addTimer (hs : Tracked s) {timer : Addr} {when interval clock : Int}
    {c c' : Calls.State} {u : Timer} (h : Calls.step s.loop (.create timer when interval) = some c)
    (h' : Calls.step c (.addTimerInLoop ⟨timer, c.queue.sqe_numCreated⟩ clock) = some c')
    (hu : c'.queue.heap timer = some u) :
    Tracked { s with loop := c', returned := ⟨timer, u.sequence⟩ :: s.returned } := by
  obtain ⟨-, hqueue, hpending, hbatch⟩ := step_create h
  have hsound := Calls.step_sound hs.sound h
  obtain ⟨hheap, hnum', hcanceling, hpending', hbatch'⟩ := step_addTimerInLoop hsound h'
  have hnum : c'.queue.sqe_numCreated = s.loop.queue.sqe_numCreated + 1 := by
    rw [hnum', hqueue]
    rfl
  have hself : u.sequence = c'.queue.sqe_numCreated := by
    rw [hheap, hqueue] at hu
    cases (Function.update_self timer _ s.loop.queue.heap).symm.trans hu
    exact hnum.symm
  have hperm : (s.made ++ (s.unbuilt ++ ⟨timer, u.sequence⟩ :: s.returned)).Perm
      (⟨timer, c'.queue.sqe_numCreated⟩ :: s.issued) := by
    rw [hself]
    exact (List.perm_middle.append_left _).trans List.perm_middle
  obtain ⟨honce, hknown⟩ := hs.issue hnum hperm
  refine ⟨Calls.step_sound hsound h', ?_, honce, hknown,
    fun x hx => List.mem_cons_of_mem _ (hs.queued x hx), ?_⟩
  · dsimp only
    rw [hpending', hpending, List.erase_cons_head]
    exact hs.pending
  · dsimp only
    rw [hcanceling, hbatch', hbatch, hqueue]
    exact fun hb x hx => List.mem_cons_of_mem _ (hs.canceling hb x hx)

theorem tracked_cancel (hs : Tracked s) {c : Calls.State} (hid : id ∈ s.returned)
    (h : Calls.step s.loop (.cancelInLoop id) = some c) : Tracked { s with loop := c } := by
  obtain ⟨-, hnum, hcanceling, hpending, hbatch⟩ := step_cancelInLoop (x := id) hs.sound h
  refine hs.call h hpending hnum ?_
  intro hb x hx
  rw [hbatch] at hb
  rcases hcanceling x hx with rfl | hx
  · exact hid
  · exact hs.canceling hb x hx

theorem tracked_enqueue (hs : Tracked s) (hid : id ∈ s.made) :
    Tracked { s with
      made := s.made.erase id
      functors := s.functors ++ [.addTimerInLoop id]
      unbuilt := id :: s.unbuilt } := by
  have hmade := List.perm_cons_erase hid
  have hperm : (s.made.erase id ++ (id :: s.unbuilt ++ s.returned)).Perm s.issued := by
    rw [List.cons_append]
    refine List.perm_middle.trans ?_
    exact (hmade.append_right _).symm
  refine ⟨hs.sound, ?_, ?_, fun x hx => hs.known x (hperm.mem_iff.mp hx), ?_, hs.canceling⟩
  · show s.loop.pending.Perm
      ((s.functors ++ [Functor.addTimerInLoop id]).filterMap Functor.added ++ s.made.erase id)
    rw [List.filterMap_append, List.append_assoc]
    exact hs.pending.trans (hmade.append_left _)
  · exact (hperm.map _).nodup_iff.mpr hs.once
  · intro x hx
    rcases List.mem_append.mp hx with hx | hx
    · exact hs.queued x hx
    · cases List.mem_singleton.mp hx

/-- The id that is built is that of the call's timer. -/
theorem tracked_build (hs : Tracked s) (hid : id ∈ s.unbuilt)
    (hright : s.sequence id.timer = some id.sequence) : Tracked (s.build id) := by
  have hperm : (s.made ++ (s.unbuilt.erase id ++ id :: s.returned)).Perm s.issued := by
    refine List.Perm.append_left _ (List.perm_middle.trans ?_)
    exact ((List.perm_cons_erase hid).append_right _).symm
  have hbuild : s.build id = { s with
      unbuilt := s.unbuilt.erase id
      returned := id :: s.returned
      reads := ⟨id, some id.sequence⟩ :: s.reads } := by
    rw [State.build, hright]
    rfl
  rw [hbuild]
  exact ⟨hs.sound, hs.pending, (hperm.map _).nodup_iff.mpr hs.once,
    fun x hx => hs.known x (hperm.mem_iff.mp hx),
    fun x hx => List.mem_cons_of_mem _ (hs.queued x hx),
    fun hb x hx => List.mem_cons_of_mem _ (hs.canceling hb x hx)⟩

theorem tracked_queueCancel (hs : Tracked s) (hid : id ∈ s.returned) :
    Tracked { s with functors := s.functors ++ [.cancelInLoop id] } := by
  refine ⟨hs.sound, ?_, hs.once, hs.known, ?_, hs.canceling⟩
  · dsimp only
    rw [List.filterMap_append]
    show s.loop.pending.Perm (_ ++ [] ++ _)
    rw [List.append_nil]
    exact hs.pending
  · intro x hx
    rcases List.mem_append.mp hx with hx | hx
    · exact hs.queued x hx
    · cases List.mem_singleton.mp hx
      exact hid

/-- A functor that is run is off the queue. -/
theorem Tracked.popCancel (hs : Tracked s) {functors : List Functor}
    (hfunctors : s.functors = .cancelInLoop id :: functors) :
    Tracked { s with functors := functors } ∧ id ∈ s.returned := by
  refine ⟨⟨hs.sound, ?_, hs.once, hs.known, ?_, hs.canceling⟩, ?_⟩
  · have hpending := hs.pending
    rw [hfunctors] at hpending
    exact hpending
  · exact fun x hx => hs.queued x (hfunctors ▸ List.mem_cons_of_mem _ hx)
  · exact hs.queued id (hfunctors ▸ List.mem_cons_self)

theorem tracked_insert (hs : Tracked s) {functors : List Functor} {clock : Int}
    (hfunctors : s.functors = .addTimerInLoop id :: functors) {c : Calls.State}
    (h : Calls.step s.loop (.addTimerInLoop id clock) = some c) :
    Tracked { s with functors := functors, loop := c } := by
  obtain ⟨-, hnum, hcanceling, hpending, hbatch⟩ := step_addTimerInLoop hs.sound h
  refine ⟨Calls.step_sound hs.sound h, ?_, hs.once, ?_,
    fun x hx => hs.queued x (hfunctors ▸ List.mem_cons_of_mem _ hx), ?_⟩
  · have hperm := hs.pending
    rw [hfunctors] at hperm
    have herase := hperm.erase id
    have hrest : ((Functor.addTimerInLoop id :: functors).filterMap Functor.added ++
        s.made).erase id = functors.filterMap Functor.added ++ s.made := List.erase_cons_head ..
    rw [← hpending, hrest] at herase
    exact herase
  · intro x hx
    show x.sequence ≤ c.queue.sqe_numCreated
    rw [hnum]
    exact hs.known x hx
  · dsimp only
    rw [hcanceling, hbatch]
    exact hs.canceling

/-! ## Every step -/

/-- What a step leads to, unless it reads another timer than that of the call. -/
theorem tracked_step (hs : Tracked s) {a : Action} (h : s.perform a = some t)
    (hright : ∀ r ∈ t.reads, r.Right) : Tracked t := by
  cases a with
  | addTimer timer when interval clock =>
      obtain ⟨-, h⟩ := Option.ite_none_right_eq_some.mp h
      obtain ⟨c, hcreate, h⟩ := Option.bind_eq_some_iff.mp h
      obtain ⟨c', hadd, h⟩ := Option.bind_eq_some_iff.mp h
      obtain ⟨u, hu, h⟩ := Option.bind_eq_some_iff.mp h
      cases h
      exact tracked_addTimer hs hcreate hadd hu
  | cancel id =>
      obtain ⟨hid, h⟩ := Option.ite_none_right_eq_some.mp h
      obtain ⟨c, hcancel, rfl⟩ := Option.map_eq_some_iff.mp h
      exact tracked_cancel hs hid hcancel
  | create timer when interval =>
      obtain ⟨c, hcreate, rfl⟩ := Option.map_eq_some_iff.mp h
      exact tracked_create hs hcreate
  | enqueue id =>
      obtain ⟨hid, h⟩ := Option.ite_none_right_eq_some.mp h
      cases h
      exact tracked_enqueue hs hid
  | build id =>
      obtain ⟨hid, h⟩ := Option.ite_none_right_eq_some.mp h
      cases h
      exact tracked_build hs hid (hright ⟨id, s.sequence id.timer⟩ List.mem_cons_self)
  | queueCancel id =>
      obtain ⟨hid, h⟩ := Option.ite_none_right_eq_some.mp h
      cases h
      exact tracked_queueCancel hs hid
  | runFunctor clock =>
      rw [State.perform] at h
      split at h
      · rename_i id functors _ hfunctors
        obtain ⟨c, hadd, rfl⟩ := Option.map_eq_some_iff.mp h
        exact tracked_insert hs hfunctors hadd
      · rename_i id functors _ hfunctors
        obtain ⟨c, hcancel, rfl⟩ := Option.map_eq_some_iff.mp h
        obtain ⟨hpop, hid⟩ := hs.popCancel hfunctors
        exact tracked_cancel hpop hid hcancel
      · cases h
  | handleRead now read =>
      obtain ⟨c, hread, rfl⟩ := Option.map_eq_some_iff.mp h
      obtain ⟨-, hnum, hcanceling, hpending⟩ := step_handleRead hread
      refine hs.call hread hpending hnum ?_
      rw [hcanceling]
      exact fun _ => List.forall_mem_nil _
  | run =>
      obtain ⟨c, hrun, rfl⟩ := Option.map_eq_some_iff.mp h
      obtain ⟨hbatch, hqueue, hpending⟩ := step_run hrun
      refine hs.call hrun hpending (congrArg _ hqueue) ?_
      rw [hqueue]
      exact fun _ => hs.canceling hbatch
  | reset clock =>
      obtain ⟨c, hreset, rfl⟩ := Option.map_eq_some_iff.mp h
      obtain ⟨-, hbatch, hnum, hpending, -⟩ := step_reset (x := ⟨0, 0⟩) hreset
      refine hs.call hreset hpending hnum ?_
      rw [hbatch]
      exact fun hb => Bool.noConfusion hb

/-- The timers whose `TimerId` is still to be built outlive a step of the loop that
deletes only others. -/
theorem Safe.call (hsafe : Safe s) {c : Calls.State} {functors : List Functor}
    {returned : List TimerId} (hlive : ∀ id ∈ s.unbuilt, s.loop.queue.Live id → c.queue.Live id) :
    Safe { s with loop := c, functors := functors, returned := returned } :=
  ⟨fun id hid => hlive id hid (hsafe.live id hid), hsafe.right⟩

theorem Safe.same_heap (hsafe : Safe s) {c : Calls.State} {functors : List Functor}
    (hheap : c.queue.heap = s.loop.queue.heap) :
    Safe { s with loop := c, functors := functors } := by
  refine hsafe.call fun x _ hlive => ?_
  rw [Live, hheap]
  exact hlive

theorem safe_cancel (hs : Tracked s) (hsafe : Safe s) {c : Calls.State} (hid : id ∈ s.returned)
    (h : Calls.step s.loop (.cancelInLoop id) = some c) : Safe { s with loop := c } := by
  refine hsafe.call fun x hx => ?_
  refine (step_cancelInLoop hs.sound h).1 ?_
  rintro rfl
  exact hs.unreturned hx hid

/-- Only `reset` brings a call in danger, and exactly where it does not wait for it. -/
theorem safe_step (hs : Tracked s) (hsafe : Safe s) {a : Action} (h : s.perform a = some t) :
    Safe t ↔ Waits s a := by
  cases a with
  | addTimer timer when interval clock =>
      obtain ⟨-, h⟩ := Option.ite_none_right_eq_some.mp h
      obtain ⟨c, hcreate, h⟩ := Option.bind_eq_some_iff.mp h
      obtain ⟨c', hadd, h⟩ := Option.bind_eq_some_iff.mp h
      obtain ⟨u, hu, h⟩ := Option.bind_eq_some_iff.mp h
      cases h
      refine iff_of_true (hsafe.call fun x _ hlive => ?_) trivial
      obtain ⟨hfree, hqueue, -⟩ := step_create hcreate
      obtain ⟨hheap, -⟩ := step_addTimerInLoop (Calls.step_sound hs.sound hcreate) hadd
      rw [Live, hheap, hqueue]
      exact hlive.create hfree when interval
  | cancel id =>
      obtain ⟨hid, h⟩ := Option.ite_none_right_eq_some.mp h
      obtain ⟨c, hcancel, rfl⟩ := Option.map_eq_some_iff.mp h
      exact iff_of_true (safe_cancel hs hsafe hid hcancel) trivial
  | create timer when interval =>
      obtain ⟨c, hcreate, rfl⟩ := Option.map_eq_some_iff.mp h
      obtain ⟨hfree, hqueue, -⟩ := step_create hcreate
      refine iff_of_true ⟨fun x hx => ?_, hsafe.right⟩ trivial
      show c.queue.Live x
      rw [hqueue]
      exact (hsafe.live x hx).create hfree when interval
  | enqueue id =>
      obtain ⟨hid, h⟩ := Option.ite_none_right_eq_some.mp h
      cases h
      refine iff_of_true ⟨?_, hsafe.right⟩ trivial
      exact List.forall_mem_cons.mpr ⟨hs.made_live hid, hsafe.live⟩
  | build id =>
      obtain ⟨hid, h⟩ := Option.ite_none_right_eq_some.mp h
      cases h
      obtain ⟨u, hu, hseq⟩ := hsafe.live id hid
      have hread : s.sequence id.timer = some id.sequence := by
        rw [State.sequence, hu, Option.map_some, hseq]
      refine iff_of_true ⟨fun x hx => hsafe.live x (List.mem_of_mem_erase hx), ?_⟩ trivial
      exact List.forall_mem_cons.mpr ⟨hread, hsafe.right⟩
  | queueCancel id =>
      obtain ⟨hid, h⟩ := Option.ite_none_right_eq_some.mp h
      cases h
      exact iff_of_true ⟨hsafe.live, hsafe.right⟩ trivial
  | runFunctor clock =>
      rw [State.perform] at h
      split at h
      · obtain ⟨c, hadd, rfl⟩ := Option.map_eq_some_iff.mp h
        obtain ⟨hheap, -⟩ := step_addTimerInLoop hs.sound hadd
        exact iff_of_true (hsafe.same_heap hheap) trivial
      · rename_i id functors _ hfunctors
        obtain ⟨c, hcancel, rfl⟩ := Option.map_eq_some_iff.mp h
        obtain ⟨hpop, hid⟩ := hs.popCancel hfunctors
        exact iff_of_true (safe_cancel hpop ⟨hsafe.live, hsafe.right⟩ hid hcancel) trivial
      · cases h
  | handleRead now read =>
      obtain ⟨c, hread, rfl⟩ := Option.map_eq_some_iff.mp h
      obtain ⟨hheap, -⟩ := step_handleRead hread
      exact iff_of_true (hsafe.same_heap hheap) trivial
  | run =>
      obtain ⟨c, hrun, rfl⟩ := Option.map_eq_some_iff.mp h
      obtain ⟨-, hqueue, -⟩ := step_run hrun
      exact iff_of_true (hsafe.same_heap (congrArg TimerQueue.heap hqueue)) trivial
  | reset clock =>
      obtain ⟨c, hreset, rfl⟩ := Option.map_eq_some_iff.mp h
      have hcanceling : ∀ x ∈ s.unbuilt, x ∉ s.loop.queue.cancelingTimers := fun x hx hmem =>
        hs.unreturned hx (hs.canceling (step_reset (x := x) hreset).1 x hmem)
      constructor
      · intro hafter x hx hmem
        obtain ⟨-, -, -, -, -, hiff⟩ := step_reset (x := x) hreset
        exact (hiff hmem (hcanceling x hx) (hsafe.live x hx)).mp (hafter.live x hx)
      · intro hwaits
        refine hsafe.call fun x hx hlive => ?_
        obtain ⟨-, -, -, -, hout, hiff⟩ := step_reset (x := x) hreset
        by_cases hmem : x.timer ∈ s.loop.started.map Entry.timer
        · exact (hiff hmem (hcanceling x hx) hlive).mpr (hwaits x hx hmem)
        · exact hout hmem hlive

/-! ## Every run -/

/-- In every interleaving of the foreign threads with the loop: the timers of all calls
of `addTimer` are there until their `TimerId` is built, and each is built with the
sequence of its timer, exactly when no `reset` finds in its batch a timer that does not
repeat and whose `TimerId` is still to be built. -/
theorem safe_iff {acts : List Action} (h : exec step start acts = some s) :
    Throughout step Safe start acts ↔ Meets step Waits start acts := by
  refine throughout_iff_meets (J := fun s => (∀ r ∈ s.reads, r.Right) → Tracked s)
    ?_ ?_ (fun _ => tracked_start) ⟨nofun, nofun⟩ h
  · intro s a t hs hstep hright
    obtain ⟨hgoes, hperform⟩ := Option.ite_none_right_eq_some.mp hstep
    exact tracked_step (hs hgoes) hperform hright
  · intro s a t hs hsafe hstep
    obtain ⟨hgoes, hperform⟩ := Option.ite_none_right_eq_some.mp hstep
    exact safe_step (hs hgoes) hsafe hperform

end

/-- A repeating timer, whose `TimerId` is built after a round, and another whose
`TimerId` is built while its callback runs. -/
theorem safe_two : Throughout step Safe start
    [.create 8 10 5000000, .create 9 10 0, .enqueue ⟨9, 2⟩, .enqueue ⟨8, 1⟩, .runFunctor 0,
      .runFunctor 1, .handleRead 120 121, .run, .build ⟨9, 2⟩, .run, .reset 122,
      .build ⟨8, 1⟩] := by
  have hgo : (exec step start [.create 8 10 5000000, .create 9 10 0, .enqueue ⟨9, 2⟩,
      .enqueue ⟨8, 1⟩, .runFunctor 0, .runFunctor 1, .handleRead 120 121, .run, .build ⟨9, 2⟩,
      .run, .reset 122, .build ⟨8, 1⟩]).isSome = true := by
    decide +kernel
  obtain ⟨s, hs⟩ := Option.isSome_iff_exists.mp hgo
  exact (safe_iff hs).mpr (by decide +kernel)

/-- A timer that fires once, and has fired before its `TimerId` is built. -/
theorem safe_fails : ¬ ∀ (acts : List Action) (s : State), exec step start acts = some s →
    ∀ r ∈ s.reads, r.Right := by
  intro hall
  have hgo : (exec step start [.create 8 10 0, .enqueue ⟨8, 1⟩, .runFunctor 0,
      .handleRead 120 121, .run, .reset 122, .build ⟨8, 1⟩]).map State.reads =
        some [⟨⟨8, 1⟩, none⟩] := by
    decide +kernel
  obtain ⟨s, hs, hreads⟩ := Option.map_eq_some_iff.mp hgo
  have hright := hall _ s hs ⟨⟨8, 1⟩, none⟩ (hreads ▸ List.mem_cons_self)
  cases hright

end Foreign

end Timers

end WebServer

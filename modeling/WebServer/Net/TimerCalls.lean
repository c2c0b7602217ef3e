/-
# `Net.TimerCalls` — the timer queue under any calls of its loop thread

`Net.TimerQueue` follows one discipline of use.  Here the loop thread may do what
it likes: run `addTimerInLoop` for any timer that somebody has created, and
`cancelInLoop` with any id at all, outside `handleRead` or in one of its
callbacks.  An id may be stale, and the address in it may be that of a newer
timer; it need not come from `addTimer`.

`known` lists the timers that are somewhere: created and not inserted (`pending`),
in the queue (`activeTimers_`), or in the expired batch (`taken`).  `freed` is the
record of the deletions, by sequence number.  What is in `known` changes as the
timers move; with `freed` it is always every timer ever created, each of them
once (`bookkeeping`).

The record of the timerfd is kept for `Net.Deadline`: an operation that may set
it starts on a queue whose `timerfd` is empty, and what it leaves there is the
new setting.
-/
import WebServer.Net.TimerSound
import Mathlib.Data.List.Range

namespace WebServer

namespace Timers

namespace Calls

open Machine TimerQueue

/-! ## The calls -/

/-- What the timerfd was last set to, and when. -/
structure Setting where
  time : Int
  deadline : Int
  deriving DecidableEq

structure State where
  queue : TimerQueue
  /-- The `handleRead` that is running. -/
  batch : Option Batch
  /-- Created, with `addTimerInLoop` still to run. -/
  pending : List TimerId
  /-- What `getExpired` took out of `activeTimers_` for the batch. -/
  taken : List TimerId
  /-- The sequence numbers of the timers that have been deleted. -/
  freed : List Nat
  /-- The setting of the timerfd that no `read` has taken yet. -/
  timerfd : Option Setting

def start : State where
  queue := .new
  batch := none
  pending := []
  taken := []
  freed := []
  timerfd := none

inductive Op where
  /-- `new Timer`, at that address, in any thread. -/
  | create (timer : Addr) (when interval : Int)
  | addTimerInLoop (timerId : TimerId) (clock : Int)
  | cancelInLoop (timerId : TimerId)
  /-- `handleRead` up to its loop; the timerfd is read at `read`. -/
  | handleRead (now read : Int)
  /-- It starts the next callback. -/
  | run
  /-- It leaves its loop and calls `reset`. -/
  | reset (clock : Int)
  deriving DecidableEq

namespace State

def started (s : State) : List Entry :=
  match s.batch with
  | none => []
  | some b => b.started

def waiting (s : State) : List Entry :=
  match s.batch with
  | none => []
  | some b => b.waiting

/-- The loop thread runs code of its users: outside `handleRead`, or in a
callback that `handleRead` has started. -/
def inUserCode (s : State) : Bool :=
  match s.batch with
  | none => true
  | some b => !b.started.isEmpty

/-- The timers that are somewhere. -/
def known (s : State) : List TimerId := s.queue.activeTimers ++ (s.taken ++ s.pending)

/-- When an operation can be performed; none of it depends on what a pointer
points to. -/
def Allows (s : State) : Op → Prop
  | .create timer _ _ => s.queue.heap timer = none ∧ 0 < timer ∧ timer < uintptrMax
  | .addTimerInLoop timerId _ => s.inUserCode ∧ timerId ∈ s.pending
  | .cancelInLoop _ => s.inUserCode
  | .handleRead _ _ => s.batch = none
  | .run => s.batch.isSome ∧ s.waiting ≠ []
  | .reset _ => s.batch.isSome ∧ s.waiting = []

instance (s : State) (op : Op) : Decidable (s.Allows op) := by
  cases op <;> unfold Allows <;> infer_instance

/-- What an operation leaves: its queue, and the record of what it has deleted. -/
def leave (s : State) (q : TimerQueue) : State :=
  { s with
    queue := q
    freed := s.freed ++ (s.known.filter fun id => ¬q.Live id).map ActiveTimer.sequence }

/-- The timerfd after an operation at `clock` on a queue with no deadline. -/
def setting (s : State) (q : TimerQueue) (clock : Int) : Option Setting :=
  match q.timerfd with
  | some deadline => some ⟨clock, deadline⟩
  | none => s.timerfd

/-- The operation; undefined when it follows the pointer to a deleted timer. -/
def perform (s : State) : Op → Option State
  | .create timer when interval =>
      let q := s.queue.create timer when interval
      some { s with queue := q, pending := ⟨timer, q.sqe_numCreated⟩ :: s.pending }
  | .addTimerInLoop timerId clock => do
      let q ← { s.queue with timerfd := none }.addTimerInLoop timerId.timer clock
      some { s.leave q with
        pending := s.pending.erase timerId
        timerfd := s.setting q clock }
  | .cancelInLoop timerId => do
      let q ← s.queue.cancelInLoop timerId
      some (s.leave q)
  | .handleRead now read => do
      let (q, expired) ← s.queue.getExpired now
      some { s with
        queue := { q with callingExpiredTimers := true, cancelingTimers := [] }
        batch := some ⟨now, [], expired⟩
        taken := s.queue.activeTimers.filter fun id => id ∉ q.activeTimers
        timerfd := s.timerfd.filter fun setting => read < setting.deadline }
  | .run =>
      match s.batch with
      | some ⟨now, started, e :: waiting⟩ => do
          let _ ← s.queue.heap e.timer
          some { s with batch := some ⟨now, started ++ [e], waiting⟩ }
      | _ => none
  | .reset clock =>
      match s.batch with
      | some ⟨now, started, _⟩ => do
          let q ← { s.queue with callingExpiredTimers := false, timerfd := none }.reset
            started now clock
          some { s.leave q with
            batch := none
            taken := []
            timerfd := s.setting q clock }
      | none => none

end State

def step (s : State) (op : Op) : Option State :=
  if s.Allows op then s.perform op else none

/-! ## The invariant -/

/-- The pointers of the batch. -/
def State.expired (s : State) : List Addr :=
  s.started.map Entry.timer ++ s.waiting.map Entry.timer

/-- Every pointer outside the queue is to the timer it was made for. -/
structure Placed (s : State) : Prop where
  holds : s.queue.Holds (s.expired ++ s.pending.map ActiveTimer.timer)
  taken : s.expired.Perm (s.taken.map ActiveTimer.timer)
  live : ∀ id ∈ s.taken ++ s.pending, s.queue.Live id

variable {s s' : State}

theorem Placed.outside_perm (h : Placed s) :
    (s.expired ++ s.pending.map ActiveTimer.timer).Perm
      ((s.taken ++ s.pending).map ActiveTimer.timer) := by
  rw [List.map_append]
  exact h.taken.append_right _

theorem Placed.mem_known (h : Placed s) {id : TimerId} : id ∈ s.known ↔ s.queue.Live id := by
  constructor
  · intro hid
    rcases List.mem_append.mp hid with hid | hid
    · exact h.holds.ids id hid
    · exact h.live id hid
  · intro hid
    by_cases hout : id.timer ∈ s.expired ++ s.pending.map ActiveTimer.timer
    · obtain ⟨x, hx, hxid⟩ := List.mem_map.mp (h.outside_perm.mem_iff.mp hout)
      have hsame : x = id := (h.live x hx).unique hid hxid
      exact List.mem_append_right _ (hsame ▸ hx)
    · exact List.mem_append_left _ (h.holds.mem_active_iff.mpr ⟨hid, hout⟩)

theorem Placed.nodup_known (h : Placed s) : (s.known.map ActiveTimer.timer).Nodup := by
  rw [List.nodup_iff_count_le_one]
  intro a
  have hplaced := h.holds.placed a
  rw [h.outside_perm.count_eq] at hplaced
  rw [State.known, List.map_append, List.count_append]
  split at hplaced <;> omega

/-- The account of an operation that creates no timer: what is no longer known
has been deleted. -/
theorem Placed.ledger (h : Placed s) (h' : Placed s')
    (hlive : ∀ id, s'.queue.Live id → s.queue.Live id)
    (hfreed : s'.freed = s.freed ++
      (s.known.filter fun id => ¬s'.queue.Live id).map ActiveTimer.sequence) :
    (s'.freed ++ s'.known.map ActiveTimer.sequence).Perm
      (s.freed ++ s.known.map ActiveTimer.sequence) := by
  have hleft : s'.known.Perm (s.known.filter fun id => s'.queue.Live id) := by
    refine (List.perm_ext_iff_of_nodup (h'.nodup_known.of_map _)
      ((h.nodup_known.of_map _).filter _)).mpr ?_
    intro id
    rw [h'.mem_known, List.mem_filter, h.mem_known, decide_eq_true_eq]
    exact ⟨fun hid => ⟨hlive id hid, hid⟩, fun hid => hid.2⟩
  have hsplit : ((s.known.filter fun id => ¬s'.queue.Live id) ++ s'.known).Perm s.known := by
    refine (hleft.append_left _).trans (List.perm_append_comm.trans ?_)
    have hboth := List.filter_append_perm (fun id => decide (s'.queue.Live id)) s.known
    simpa using hboth
  rw [hfreed, List.append_assoc, ← List.map_append]
  exact (hsplit.map _).append_left _

/-- An operation that neither creates nor deletes. -/
theorem Placed.ledger_of_live (h : Placed s) (h' : Placed s')
    (hlive : ∀ id, s'.queue.Live id ↔ s.queue.Live id) (hfreed : s'.freed = s.freed) :
    (s'.freed ++ s'.known.map ActiveTimer.sequence).Perm
      (s.freed ++ s.known.map ActiveTimer.sequence) := by
  refine h.ledger h' (fun id => (hlive id).mp) ?_
  have hnone : (s.known.filter fun id => ¬s'.queue.Live id) = [] := by
    rw [List.filter_eq_nil_iff]
    intro id hid
    simpa using (hlive id).mpr (h.mem_known.mp hid)
  rw [hfreed, hnone]
  exact (List.append_nil _).symm

structure Sound (s : State) : Prop extends Placed s where
  ledger : (s.freed ++ s.known.map ActiveTimer.sequence).Perm
    (List.range' 1 s.queue.sqe_numCreated)

theorem sound_start : Sound start where
  holds := ⟨fun _ => rfl, fun _ => rfl, nofun, nofun, nofun⟩
  taken := List.Perm.refl _
  live := nofun
  ledger := List.Perm.refl _

/-! ## One lemma for each operation -/

theorem sound_create (hs : Sound s) {timer : Addr} (ha : s.queue.heap timer = none)
    (when interval : Int) : ∃ s', s.perform (.create timer when interval) = some s' ∧ Sound s' := by
  refine ⟨_, rfl, ⟨?_, hs.taken, ?_⟩, ?_⟩
  · exact (hs.holds.create ha when interval).perm List.perm_middle.symm
  · intro id hid
    rcases List.mem_cons.mp (List.perm_middle.mem_iff.mp hid) with rfl | hid
    · exact ⟨_, Function.update_self _ _ _, rfl⟩
    · exact (hs.live id hid).create ha when interval
  · have hknown : (s.queue.activeTimers ++ (s.taken ++
        ⟨timer, s.queue.sqe_numCreated + 1⟩ :: s.pending)).Perm
        (⟨timer, s.queue.sqe_numCreated + 1⟩ :: s.known) :=
      (List.perm_middle.append_left _).trans List.perm_middle
    have hlast : (List.range' 1 s.queue.sqe_numCreated ++ [s.queue.sqe_numCreated + 1]).Perm
        (List.range' 1 (s.queue.sqe_numCreated + 1)) := by
      rw [List.range'_1_concat, Nat.add_comm 1]
    refine ((hknown.map _).append_left _).trans (List.perm_middle.trans ?_)
    refine (hs.ledger.cons _).trans (List.Perm.trans ?_ hlast)
    exact (List.perm_append_singleton _ _).symm

theorem sound_addTimerInLoop (hs : Sound s) {id : TimerId} (hid : id ∈ s.pending) (clock : Int) :
    ∃ s', s.perform (.addTimerInLoop id clock) = some s' ∧ Sound s' := by
  have hpending := List.perm_cons_erase hid
  have hperm : (s.expired ++ s.pending.map ActiveTimer.timer).Perm
      (id.timer :: (s.expired ++ (s.pending.erase id).map ActiveTimer.timer)) :=
    ((hpending.map _).append_left _).trans List.perm_middle
  have hholds := hs.holds.perm hperm
  have hcleared : ({ s.queue with timerfd := none } : TimerQueue).Holds _ :=
    ⟨hholds.placed, hholds.paired, hholds.keys, hholds.ids, hholds.numbered⟩
  obtain ⟨q, hadd, hq, hheap, -, -, hnum⟩ := hcleared.addTimerInLoop clock
  have hlive : ∀ x, q.Live x ↔ s.queue.Live x := by
    intro x
    rw [Live, Live, hheap]
  have hsub : ∀ x ∈ s.taken ++ s.pending.erase id, x ∈ s.taken ++ s.pending := by
    intro x hx
    rcases List.mem_append.mp hx with hx | hx
    · exact List.mem_append_left _ hx
    · exact List.mem_append_right _ (List.mem_of_mem_erase hx)
  have hplaced : Placed { s.leave q with
      pending := s.pending.erase id, timerfd := s.setting q clock } :=
    ⟨hq, hs.taken, fun x hx => (hlive x).mpr (hs.live x (hsub x hx))⟩
  refine ⟨_, ?_, hplaced, ?_⟩
  · rw [State.perform, hadd]
    rfl
  · refine (hs.toPlaced.ledger hplaced (fun x => (hlive x).mp) rfl).trans ?_
    show (s.freed ++ s.known.map ActiveTimer.sequence).Perm (List.range' 1 q.sqe_numCreated)
    rw [hnum]
    exact hs.ledger

theorem sound_cancelInLoop (hs : Sound s) (id : TimerId) :
    ∃ s', s.perform (.cancelInLoop id) = some s' ∧ Sound s' := by
  obtain ⟨q, hcancel, hq, -, hnum, hlive, -, -⟩ := hs.holds.cancelInLoop id
  have hplaced : Placed (s.leave q) := by
    refine ⟨hq, hs.taken, ?_⟩
    intro x hx
    exact hq.live_of_outside hlive (hs.live x hx)
      (hs.outside_perm.mem_iff.mpr (List.mem_map_of_mem hx))
  refine ⟨_, ?_, hplaced, ?_⟩
  · rw [State.perform, hcancel]
    rfl
  · refine (hs.toPlaced.ledger hplaced hlive rfl).trans ?_
    show (s.freed ++ s.known.map ActiveTimer.sequence).Perm (List.range' 1 q.sqe_numCreated)
    rw [hnum]
    exact hs.ledger

/-- What `getExpired` takes out of `activeTimers_` are the timers it returns. -/
theorem taken_perm {q q' : TimerQueue} {expired out : List Addr} (h : q.Holds out)
    (h' : q'.Holds (expired ++ out)) (hheap : q'.heap = q.heap) :
    expired.Perm ((q.activeTimers.filter fun id => id ∉ q'.activeTimers).map
      ActiveTimer.timer) := by
  have hlive : ∀ x, q'.Live x ↔ q.Live x := by
    intro x
    rw [Live, Live, hheap]
  have honce : expired.Nodup := by
    rw [List.nodup_iff_count_le_one]
    intro a
    have hplaced := h'.placed a
    rw [List.count_append] at hplaced
    split at hplaced <;> omega
  have hactive : (q.activeTimers.map ActiveTimer.timer).Nodup := by
    rw [List.nodup_iff_count_le_one]
    intro a
    have hplaced := h.placed a
    split at hplaced <;> omega
  have hsub : (q.activeTimers.filter fun id => id ∉ q'.activeTimers).Sublist q.activeTimers :=
    List.filter_sublist
  refine (List.perm_ext_iff_of_nodup honce (hactive.sublist (hsub.map _))).mpr ?_
  intro a
  constructor
  · intro ha
    obtain ⟨⟨t, ht⟩, -, -⟩ := h'.outside (List.mem_append_left out ha)
    have hid : q'.Live ⟨a, t.sequence⟩ := ⟨t, ht, rfl⟩
    have hout : a ∉ out := by
      intro hmem
      have hplaced := h'.placed a
      have hpos := List.count_pos_iff.mpr ha
      have hpos' := List.count_pos_iff.mpr hmem
      rw [List.count_append] at hplaced
      split at hplaced <;> omega
    refine List.mem_map.mpr ⟨⟨a, t.sequence⟩, List.mem_filter.mpr ⟨?_, ?_⟩, rfl⟩
    · exact h.mem_active_iff.mpr ⟨(hlive _).mp hid, hout⟩
    · rw [decide_eq_true_eq, h'.mem_active_iff]
      exact fun hx => hx.2 (List.mem_append_left _ ha)
  · intro ha
    obtain ⟨x, hx, rfl⟩ := List.mem_map.mp ha
    obtain ⟨hx, hx'⟩ := List.mem_filter.mp hx
    obtain ⟨hlivex, hout⟩ := h.mem_active_iff.mp hx
    rw [decide_eq_true_eq, h'.mem_active_iff] at hx'
    by_contra hne
    refine hx' ⟨(hlive x).mpr hlivex, ?_⟩
    rw [List.mem_append]
    exact fun hmem => hmem.elim hne hout

theorem sound_handleRead (hs : Sound s) (hbatch : s.batch = none) (now read : Int) :
    ∃ s', s.perform (.handleRead now read) = some s' ∧ Sound s' := by
  have hexpired : s.expired = [] := by
    rw [State.expired, State.started, State.waiting, hbatch]
    rfl
  have hholds := hs.holds
  rw [hexpired] at hholds
  obtain ⟨q, expired, hget, hq, hheap, hnum⟩ := hholds.getExpired now
  have hlive : ∀ x, q.Live x ↔ s.queue.Live x := by
    intro x
    rw [Live, Live, hheap]
  have hplaced : Placed { s with
      queue := { q with callingExpiredTimers := true, cancelingTimers := [] }
      batch := some ⟨now, [], expired⟩
      taken := s.queue.activeTimers.filter fun id => id ∉ q.activeTimers
      timerfd := s.timerfd.filter fun setting => read < setting.deadline } := by
    refine ⟨⟨hq.placed, hq.paired, hq.keys, hq.ids, hq.numbered⟩, taken_perm hholds hq hheap, ?_⟩
    intro x hx
    refine (hlive x).mpr ?_
    rcases List.mem_append.mp hx with hx | hx
    · exact hs.holds.ids x (List.mem_of_mem_filter hx)
    · exact hs.live x (List.mem_append_right _ hx)
  refine ⟨_, ?_, hplaced, ?_⟩
  · rw [State.perform, hget]
    rfl
  · refine (hs.toPlaced.ledger_of_live hplaced hlive rfl).trans ?_
    show (s.freed ++ s.known.map ActiveTimer.sequence).Perm (List.range' 1 q.sqe_numCreated)
    rw [hnum]
    exact hs.ledger

theorem sound_run (hs : Sound s) {b : Batch} (hbatch : s.batch = some b)
    (hwaiting : s.waiting ≠ []) :
    ∃ s', s.perform .run = some s' ∧ Sound s' := by
  obtain ⟨now, started, waiting⟩ := b
  have hexpired : s.expired = started.map Entry.timer ++ waiting.map Entry.timer := by
    rw [State.expired, State.started, State.waiting, hbatch]
  cases waiting with
  | nil =>
      rw [State.waiting, hbatch] at hwaiting
      exact absurd rfl hwaiting
  | cons e waiting =>
      have hmem : e.timer ∈ s.expired := by
        rw [hexpired]
        exact List.mem_append_right _ List.mem_cons_self
      obtain ⟨⟨t, ht⟩, -, -⟩ := hs.holds.outside (List.mem_append_left _ hmem)
      have hsame : State.expired { s with batch := some ⟨now, started ++ [e], waiting⟩ } =
          s.expired := by
        rw [hexpired]
        show (started ++ [e]).map Entry.timer ++ waiting.map Entry.timer = _
        rw [List.map_append, List.append_assoc]
        rfl
      refine ⟨{ s with batch := some ⟨now, started ++ [e], waiting⟩ }, ?_,
        ⟨?_, ?_, hs.live⟩, hs.ledger⟩
      · rw [State.perform, hbatch]
        dsimp only
        rw [ht]
        rfl
      · rw [hsame]
        exact hs.holds
      · rw [hsame]
        exact hs.taken

theorem sound_reset (hs : Sound s) {b : Batch} (hbatch : s.batch = some b)
    (hwaiting : s.waiting = []) (clock : Int) : ∃ s', s.perform (.reset clock) = some s' ∧ Sound s' := by
  obtain ⟨now, started, waiting⟩ := b
  have hexpired : s.expired = started.map Entry.timer := by
    rw [State.expired, hwaiting, State.started, hbatch]
    exact List.append_nil _
  have hholds := hs.holds
  rw [hexpired] at hholds
  have hcleared : ({ s.queue with
      callingExpiredTimers := false, timerfd := none } : TimerQueue).Holds _ :=
    ⟨hholds.placed, hholds.paired, hholds.keys, hholds.ids, hholds.numbered⟩
  obtain ⟨q, hreset, hq, -, hnum, hlive, -⟩ := hcleared.reset now clock
  have hplaced : Placed { s.leave q with
      batch := none, taken := [], timerfd := s.setting q clock } := by
    refine ⟨hq, List.Perm.refl _, ?_⟩
    intro x hx
    exact hq.live_of_outside hlive (hs.live x (List.mem_append_right _ hx))
      (List.mem_map_of_mem hx)
  refine ⟨_, ?_, hplaced, ?_⟩
  · rw [State.perform, hbatch]
    dsimp only
    rw [hreset]
    rfl
  · refine (hs.toPlaced.ledger hplaced hlive rfl).trans ?_
    show (s.freed ++ s.known.map ActiveTimer.sequence).Perm (List.range' 1 q.sqe_numCreated)
    rw [hnum]
    exact hs.ledger

/-- Whatever is allowed can be performed: no pointer that is followed is bad. -/
theorem perform_sound (hs : Sound s) {op : Op} (h : s.Allows op) :
    ∃ s', s.perform op = some s' ∧ Sound s' := by
  cases op with
  | create timer when interval => exact sound_create hs h.1 when interval
  | addTimerInLoop id clock => exact sound_addTimerInLoop hs h.2 clock
  | cancelInLoop id => exact sound_cancelInLoop hs id
  | handleRead now read => exact sound_handleRead hs h now read
  | run =>
      obtain ⟨b, hb⟩ := Option.isSome_iff_exists.mp h.1
      exact sound_run hs hb h.2
  | reset clock =>
      obtain ⟨b, hb⟩ := Option.isSome_iff_exists.mp h.1
      exact sound_reset hs hb h.2 clock

theorem step_sound (hs : Sound s) {op : Op} (h : step s op = some s') : Sound s' := by
  obtain ⟨hallows, h⟩ := Option.ite_none_right_eq_some.mp h
  obtain ⟨t, ht, hst⟩ := perform_sound hs hallows
  exact Option.some.inj (ht.symm.trans h) ▸ hst

theorem sound_reachable (h : Reachable step start s) : Sound s :=
  h.invariant (fun _ _ _ hs hstep => step_sound hs hstep) sound_start

/-! ## Every run -/

/-- What holds of a queue and of the timers outside it. -/
structure Consistent (s : State) : Prop where
  /-- `timers_` and `activeTimers_` contain the same timers, -/
  same : (s.queue.timers.map Entry.timer).Perm (s.queue.activeTimers.map ActiveTimer.timer)
  once : (s.queue.timers.map Entry.timer).Nodup
  /-- each under the keys it has. -/
  keys : ∀ e ∈ s.queue.timers, ∃ t, s.queue.heap e.timer = some t ∧ t.expiration = e.when
  ids : ∀ x ∈ s.queue.activeTimers, ∃ t, s.queue.heap x.timer = some t ∧ t.sequence = x.sequence
  /-- A timer that has been inserted is in `timers_` or in the batch. -/
  placed : ∀ id, s.queue.Live id → id ∉ s.pending →
    (s.queue.timers.map Entry.timer).count id.timer + s.expired.count id.timer = 1
  /-- The pointers of the batch, and those not inserted, are to the timers they
  were made for. -/
  taken : s.expired.Perm (s.taken.map ActiveTimer.timer)
  current : ∀ id ∈ s.taken ++ s.pending, s.queue.Live id
  /-- Every timer created has been freed once, or it is in one place. -/
  ledger : (s.freed ++ s.known.map ActiveTimer.sequence).Perm
    (List.range' 1 s.queue.sqe_numCreated)

theorem Sound.consistent (hs : Sound s) : Consistent s where
  same := List.perm_iff_count.mpr hs.holds.paired
  once := by
    rw [List.nodup_iff_count_le_one]
    intro a
    have hplaced := hs.holds.placed a
    rw [hs.holds.paired]
    split at hplaced <;> omega
  keys := hs.holds.keys
  ids := hs.holds.ids
  placed := by
    intro id hid hpending
    have hnot : id.timer ∉ s.pending.map ActiveTimer.timer := by
      intro hmem
      obtain ⟨x, hx, hxid⟩ := List.mem_map.mp hmem
      exact hpending ((hs.live x (List.mem_append_right _ hx)).unique hid hxid ▸ hx)
    obtain ⟨t, ht, -⟩ := hid
    have hplaced := hs.holds.placed id.timer
    rw [ht, List.count_append, List.count_eq_zero.mpr hnot, ← hs.holds.paired] at hplaced
    simp only [Option.isSome_some, if_true] at hplaced
    omega
  taken := hs.taken
  current := hs.live
  ledger := hs.ledger

/-- A cancel with a stale id leaves all of the queue but `cancelingTimers_`. -/
theorem Sound.cancel_stale (hs : Sound s) {id : TimerId} (hstale : ¬s.queue.Live id)
    (h : step s (.cancelInLoop id) = some s') :
    s'.queue = { s.queue with cancelingTimers := s'.queue.cancelingTimers } := by
  obtain ⟨-, h⟩ := Option.ite_none_right_eq_some.mp h
  obtain ⟨q, hcancel, h⟩ := Option.bind_eq_some_iff.mp h
  have hactive : id ∉ s.queue.activeTimers := fun hid => hstale (hs.holds.ids id hid)
  rw [TimerQueue.cancelInLoop, if_neg hactive] at hcancel
  cases h
  split at hcancel <;> cases hcancel <;> rfl

/-- After any calls, in any order and with any ids: the queue is consistent, no
call that can be made follows the pointer to a deleted timer, and a cancel with
a stale id removes no timer. -/
theorem bookkeeping (h : Reachable step start s) :
    Consistent s ∧ (∀ op, s.Allows op → ∃ s', step s op = some s') ∧
      ∀ id s', step s (.cancelInLoop id) = some s' → ¬s.queue.Live id →
        s'.queue = { s.queue with cancelingTimers := s'.queue.cancelingTimers } := by
  have hs := sound_reachable h
  refine ⟨hs.consistent, ?_, ?_⟩
  · intro op hop
    obtain ⟨s', hperform, -⟩ := perform_sound hs hop
    exact ⟨s', by rw [step, if_pos hop, hperform]⟩
  · intro id s' hstep hstale
    exact hs.cancel_stale hstale hstep

/-- A repeating timer whose callback cancels another, and one at the address of
a timer that has been deleted. -/
theorem bookkeeping_reuse : ∃ s, exec step start
    [.create 8 10 5000000, .create 9 10 0, .addTimerInLoop ⟨8, 1⟩ 0, .addTimerInLoop ⟨9, 2⟩ 0,
      .handleRead 20 21, .run, .cancelInLoop ⟨9, 2⟩, .run, .reset 22, .create 9 40 0,
      .addTimerInLoop ⟨9, 3⟩ 23] = some s ∧
    s.freed = [2] ∧ (∃ s', step s (.cancelInLoop ⟨9, 2⟩) = some s' ∧
      s'.queue = { s.queue with cancelingTimers := s'.queue.cancelingTimers }) :=
  have hrun := @bookkeeping _ ⟨
    [.create 8 10 5000000, .create 9 10 0, .addTimerInLoop ⟨8, 1⟩ 0, .addTimerInLoop ⟨9, 2⟩ 0,
      .handleRead 20 21, .run, .cancelInLoop ⟨9, 2⟩, .run, .reset 22, .create 9 40 0,
      .addTimerInLoop ⟨9, 3⟩ 23], rfl⟩
  have hstep := hrun.2.1 (.cancelInLoop ⟨9, 2⟩) (by decide +kernel)
  ⟨_, rfl, by decide +kernel, hstep.elim fun s' hs' =>
    ⟨s', hs', hrun.2.2 ⟨9, 2⟩ s' hs' (by decide +kernel)⟩⟩

end Calls

end Timers

end WebServer

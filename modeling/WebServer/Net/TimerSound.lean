/-
# `Net.TimerSound` — where a timer is

Every `Timer` that has not been deleted is in exactly one place: in
`activeTimers_` (and then in `timers_`, under its own expiration), or among the
pointers held outside the queue — by a thread that has created it, by an
`addTimerInLoop` that is queued, by the expired batch.  `Holds q out` says so,
by counting, of a queue and of the list `out` of the pointers outside it.

One lemma for each function: from `Holds` the function is defined, it moves the
pointers it should move, and `Holds` again.
-/
import WebServer.Net.TimerQueue
import Mathlib.Data.List.Count

namespace WebServer

namespace Timers

namespace TimerQueue

/-- The timer with that id is there. -/
def Live (q : TimerQueue) (id : TimerId) : Prop :=
  ∃ t, q.heap id.timer = some t ∧ t.sequence = id.sequence

instance (q : TimerQueue) (id : TimerId) : Decidable (q.Live id) :=
  match h : q.heap id.timer with
  | none => isFalse fun ⟨_, ht, _⟩ => absurd (h.symm.trans ht) nofun
  | some t => decidable_of_iff (t.sequence = id.sequence)
      ⟨fun hs => ⟨t, h, hs⟩, fun ⟨_, hu, hs⟩ => Option.some.inj (h.symm.trans hu) ▸ hs⟩

structure Holds (q : TimerQueue) (out : List Addr) : Prop where
  placed : ∀ a, out.count a + (q.activeTimers.map ActiveTimer.timer).count a =
    if (q.heap a).isSome then 1 else 0
  paired : ∀ a, (q.timers.map Entry.timer).count a =
    (q.activeTimers.map ActiveTimer.timer).count a
  keys : ∀ e ∈ q.timers, ∃ t, q.heap e.timer = some t ∧ t.expiration = e.when
  ids : ∀ x ∈ q.activeTimers, q.Live x
  numbered : ∀ a t, q.heap a = some t → t.sequence ≤ q.sqe_numCreated

variable {q : TimerQueue} {out : List Addr}

/-- A null pointer is held nowhere. -/
theorem Holds.absent (h : q.Holds out) {a : Addr} (ha : q.heap a = none) :
    a ∉ out ∧ a ∉ q.activeTimers.map ActiveTimer.timer ∧ a ∉ q.timers.map Entry.timer := by
  have hplaced := h.placed a
  have hpaired := h.paired a
  rw [ha] at hplaced
  simp only [Option.isSome_none, Bool.false_eq_true, if_false] at hplaced
  exact ⟨List.count_eq_zero.mp (by omega), List.count_eq_zero.mp (by omega),
    List.count_eq_zero.mp (by omega)⟩

/-- A pointer held outside is good, and held there only. -/
theorem Holds.outside (h : q.Holds out) {a : Addr} (ha : a ∈ out) :
    (∃ t, q.heap a = some t) ∧ a ∉ q.activeTimers.map ActiveTimer.timer ∧
      a ∉ q.timers.map Entry.timer := by
  cases hheap : q.heap a with
  | none => exact absurd ha (h.absent hheap).1
  | some t =>
      have hplaced := h.placed a
      have hpos := List.count_pos_iff.mpr ha
      have hpaired := h.paired a
      rw [hheap] at hplaced
      simp only [Option.isSome_some, if_true] at hplaced
      exact ⟨⟨t, rfl⟩, List.count_eq_zero.mp (by omega), List.count_eq_zero.mp (by omega)⟩

theorem Holds.count_outside (h : q.Holds out) {a : Addr} (ha : a ∈ out) : out.count a = 1 := by
  obtain ⟨⟨t, ht⟩, hactive, -⟩ := h.outside ha
  have hplaced := h.placed a
  rw [ht, List.count_eq_zero.mpr hactive] at hplaced
  exact hplaced

/-- A timer that is not in the queue is made, changed or deleted: the queue is
sound again when the timer is held outside once, or no longer. -/
theorem Holds.update {out' : List Addr} {a : Addr} {v : Option Timer} {n : Nat} (h : q.Holds out)
    (hactive : a ∉ q.activeTimers.map ActiveTimer.timer) (htimers : a ∉ q.timers.map Entry.timer)
    (hout : ∀ b, b ≠ a → out'.count b = out.count b)
    (ha : out'.count a = if v.isSome then 1 else 0) (hn : q.sqe_numCreated ≤ n)
    (hv : ∀ t, v = some t → t.sequence ≤ n) :
    ({ q with heap := Function.update q.heap a v, sqe_numCreated := n } : TimerQueue).Holds
      out' := by
  refine ⟨?_, h.paired, ?_, ?_, ?_⟩
  · intro b
    show out'.count b + (q.activeTimers.map ActiveTimer.timer).count b =
      if (Function.update q.heap a v b).isSome then 1 else 0
    by_cases hba : b = a
    · rw [hba, Function.update_self, ha, List.count_eq_zero.mpr hactive, Nat.add_zero]
    · rw [Function.update_of_ne hba, hout b hba]
      exact h.placed b
  · intro e he
    have hea : e.timer ≠ a := fun heq => htimers (heq ▸ List.mem_map_of_mem he)
    obtain ⟨t, ht, hwhen⟩ := h.keys e he
    exact ⟨t, (Function.update_of_ne hea _ _).trans ht, hwhen⟩
  · intro x hx
    have hxa : x.timer ≠ a := fun heq => hactive (heq ▸ List.mem_map_of_mem hx)
    obtain ⟨t, ht, hseq⟩ := h.ids x hx
    exact ⟨t, (Function.update_of_ne hxa _ _).trans ht, hseq⟩
  · intro b t hb
    by_cases hba : b = a
    · subst hba
      exact hv t ((Function.update_self b v q.heap).symm.trans hb)
    · exact Nat.le_trans (h.numbered b t ((Function.update_of_ne hba _ _).symm.trans hb)) hn

theorem Live.unique {id id' : TimerId} (h : q.Live id) (h' : q.Live id')
    (htimer : id.timer = id'.timer) : id = id' := by
  obtain ⟨t, ht, hseq⟩ := h
  obtain ⟨u, hu, hseq'⟩ := h'
  rw [htimer, hu] at ht
  cases ht
  obtain ⟨a, n⟩ := id
  obtain ⟨b, m⟩ := id'
  dsimp only at htimer hseq hseq'
  rw [htimer, ← hseq, ← hseq']

/-- A timer that is not outside is active. -/
theorem Holds.mem_active_iff (h : q.Holds out) {id : TimerId} :
    id ∈ q.activeTimers ↔ q.Live id ∧ id.timer ∉ out := by
  have hplaced := h.placed id.timer
  constructor
  · intro hid
    refine ⟨h.ids id hid, ?_⟩
    intro hout
    exact (h.outside hout).2.1 (List.mem_map_of_mem hid)
  · rintro ⟨hlive, hout⟩
    obtain ⟨t, ht, hseq⟩ := hlive
    rw [ht, List.count_eq_zero.mpr hout] at hplaced
    simp only [Option.isSome_some, if_true, Nat.zero_add] at hplaced
    have hmem : id.timer ∈ q.activeTimers.map ActiveTimer.timer :=
      List.count_pos_iff.mp (by omega)
    obtain ⟨x, hx, hxid⟩ := List.mem_map.mp hmem
    exact (h.ids x hx).unique ⟨t, ht, hseq⟩ hxid ▸ hx

/-- A pointer held outside, before an operation and after it, has kept its
timer if the operation has brought no other to life. -/
theorem Holds.live_of_outside {q' : TimerQueue} (h : q'.Holds out)
    (hlive : ∀ id, q'.Live id → q.Live id) {id : TimerId} (hid : q.Live id)
    (hout : id.timer ∈ out) : q'.Live id := by
  obtain ⟨⟨t, ht⟩, -, -⟩ := h.outside hout
  have hold : q.Live ⟨id.timer, t.sequence⟩ := hlive ⟨id.timer, t.sequence⟩ ⟨t, ht, rfl⟩
  exact ⟨t, ht, congrArg ActiveTimer.sequence (hold.unique hid rfl)⟩

theorem Holds.perm {out' : List Addr} (h : q.Holds out) (hp : out.Perm out') : q.Holds out' where
  placed := fun a => by rw [← hp.count_eq]; exact h.placed a
  paired := h.paired
  keys := h.keys
  ids := h.ids
  numbered := h.numbered

/-! ## Creating -/

theorem live_create {a : Addr} {when interval : Int} {id : TimerId}
    (hid : (q.create a when interval).Live id) :
    q.Live id ∨ id.sequence = q.sqe_numCreated + 1 := by
  obtain ⟨t, ht, hseq⟩ := hid
  by_cases hia : id.timer = a
  · rw [hia] at ht
    cases (Function.update_self a _ q.heap).symm.trans ht
    exact Or.inr hseq.symm
  · exact Or.inl ⟨t, (Function.update_of_ne hia _ q.heap).symm.trans ht, hseq⟩

theorem Live.create {id : TimerId} (hid : q.Live id) {a : Addr} (ha : q.heap a = none)
    (when interval : Int) : (q.create a when interval).Live id := by
  obtain ⟨t, ht, hseq⟩ := hid
  have hia : id.timer ≠ a := by
    rintro rfl
    exact absurd (ha.symm.trans ht) nofun
  exact ⟨t, (Function.update_of_ne hia _ _).trans ht, hseq⟩

theorem Holds.create (h : q.Holds out) {a : Addr} (ha : q.heap a = none) (when interval : Int) :
    (q.create a when interval).Holds (a :: out) := by
  obtain ⟨hout, hactive, htimers⟩ := h.absent ha
  refine h.update hactive htimers ?_ ?_ (Nat.le_succ _) ?_
  · intro b hba
    exact List.count_cons_of_ne (Ne.symm hba)
  · rw [List.count_cons_self, List.count_eq_zero.mpr hout]
    rfl
  · rintro t ⟨⟩
    exact Nat.le_refl _

/-! ## Inserting -/

/-- The queue with the timer in both its sets. -/
def entered (q : TimerQueue) (a : Addr) (t : Timer) : TimerQueue :=
  { q with
    timers := OrderedSet.insert ⟨t.expiration, a⟩ q.timers
    activeTimers := OrderedSet.insert ⟨a, t.sequence⟩ q.activeTimers }

theorem insert_eq {a : Addr} {t : Timer} (ht : q.heap a = some t) :
    ∃ changed, q.insert a = some (q.entered a t, changed) := by
  simp [TimerQueue.insert, TimerQueue.entered, ht]

/-- A pointer held outside goes into the queue. -/
theorem Holds.entered {a : Addr} {t : Timer} (h : q.Holds (a :: out)) (ht : q.heap a = some t) :
    (q.entered a t).Holds out := by
  obtain ⟨-, hactive, htimers⟩ := h.outside (.head _)
  have hnotActive : (⟨a, t.sequence⟩ : ActiveTimer) ∉ q.activeTimers := fun hx =>
    hactive (List.mem_map_of_mem hx)
  have hnotTimer : (⟨t.expiration, a⟩ : Entry) ∉ q.timers := fun hx =>
    htimers (List.mem_map_of_mem hx)
  have hpermActive := OrderedSet.insert_perm hnotActive
  have hpermTimer := OrderedSet.insert_perm hnotTimer
  refine ⟨?_, ?_, ?_, ?_, h.numbered⟩
  · intro b
    have hb := h.placed b
    show out.count b + ((OrderedSet.insert _ q.activeTimers).map ActiveTimer.timer).count b =
      if (q.heap b).isSome then 1 else 0
    rw [← hb, (hpermActive.map _).count_eq, List.map_cons, List.count_cons, List.count_cons]
    dsimp only
    omega
  · intro b
    show ((OrderedSet.insert _ q.timers).map Entry.timer).count b =
      ((OrderedSet.insert _ q.activeTimers).map ActiveTimer.timer).count b
    rw [(hpermActive.map _).count_eq, (hpermTimer.map _).count_eq, List.map_cons, List.map_cons,
      List.count_cons, List.count_cons, h.paired]
  · intro e he
    rcases List.mem_cons.mp (hpermTimer.mem_iff.mp he) with rfl | he
    · exact ⟨t, ht, rfl⟩
    · exact h.keys e he
  · intro x hx
    rcases List.mem_cons.mp (hpermActive.mem_iff.mp hx) with rfl | hx
    · exact ⟨t, ht, rfl⟩
    · exact h.ids x hx

/-- What `timerfd` says plays no part. -/
theorem Holds.resetTimerfd (h : q.Holds out) (clock expiration : Int) :
    (q.resetTimerfd clock expiration).Holds out :=
  ⟨h.placed, h.paired, h.keys, h.ids, h.numbered⟩

theorem Holds.addTimerInLoop {a : Addr} (h : q.Holds (a :: out)) (clock : Int) :
    ∃ q', q.addTimerInLoop a clock = some q' ∧ q'.Holds out ∧ q'.heap = q.heap ∧
      q'.cancelingTimers = q.cancelingTimers ∧
      q'.callingExpiredTimers = q.callingExpiredTimers ∧
      q'.sqe_numCreated = q.sqe_numCreated := by
  obtain ⟨⟨t, ht⟩, -, -⟩ := h.outside (.head _)
  obtain ⟨changed, hinsert⟩ := insert_eq ht
  have hheap : (q.entered a t).heap a = some t := ht
  cases changed with
  | false =>
      refine ⟨q.entered a t, ?_, h.entered ht, rfl, rfl, rfl, rfl⟩
      simp [TimerQueue.addTimerInLoop, hinsert]
  | true =>
      refine ⟨(q.entered a t).resetTimerfd clock t.expiration, ?_,
        (h.entered ht).resetTimerfd _ _, rfl, rfl, rfl, rfl⟩
      simp [TimerQueue.addTimerInLoop, hinsert, hheap]

/-! ## Deleting -/

theorem live_delete {a : Addr} {id : TimerId} :
    (q.delete a).Live id ↔ q.Live id ∧ id.timer ≠ a := by
  by_cases hia : id.timer = a
  · have hnone : (q.delete a).heap id.timer = none := by
      rw [hia]
      exact Function.update_self _ _ _
    constructor
    · rintro ⟨t, ht, -⟩
      exact absurd (hnone.symm.trans ht) nofun
    · rintro ⟨-, hne⟩
      exact absurd hia hne
  · have hsame : (q.delete a).heap id.timer = q.heap id.timer := Function.update_of_ne hia _ _
    simp only [Live, hsame, ne_eq, hia, not_false_eq_true, and_true]

/-- A timer held outside is deleted. -/
theorem Holds.delete {a : Addr} (h : q.Holds (a :: out)) : (q.delete a).Holds out := by
  obtain ⟨⟨t, ht⟩, hactive, htimers⟩ := h.outside (.head _)
  have hone := h.count_outside (.head _)
  rw [List.count_cons_self] at hone
  refine h.update hactive htimers ?_ (Nat.succ.inj hone) (Nat.le_refl _) nofun
  intro b hba
  exact (List.count_cons_of_ne (Ne.symm hba)).symm

/-! ## Taking out -/

/-- The queue without the timer. -/
def left (q : TimerQueue) (a : Addr) (t : Timer) : TimerQueue :=
  { q with
    timers := q.timers.erase ⟨t.expiration, a⟩
    activeTimers := q.activeTimers.erase ⟨a, t.sequence⟩ }

/-- A timer in one set is in the other, and under the keys it has. -/
theorem Holds.mem_iff (h : q.Holds out) {a : Addr} {t : Timer} (ht : q.heap a = some t) :
    (⟨t.expiration, a⟩ : Entry) ∈ q.timers ↔ (⟨a, t.sequence⟩ : ActiveTimer) ∈ q.activeTimers := by
  have hpaired := h.paired a
  constructor
  · intro he
    have hpos := List.count_pos_iff.mpr (List.mem_map_of_mem (f := Entry.timer) he)
    rw [show (⟨t.expiration, a⟩ : Entry).timer = a from rfl, hpaired] at hpos
    obtain ⟨x, hx, rfl⟩ := List.mem_map.mp (List.count_pos_iff.mp hpos)
    obtain ⟨u, hu, hseq⟩ := h.ids x hx
    cases ht.symm.trans hu
    rw [hseq]
    exact hx
  · intro hx
    have hpos := List.count_pos_iff.mpr (List.mem_map_of_mem (f := ActiveTimer.timer) hx)
    rw [show (⟨a, t.sequence⟩ : ActiveTimer).timer = a from rfl, ← hpaired] at hpos
    obtain ⟨e, he, rfl⟩ := List.mem_map.mp (List.count_pos_iff.mp hpos)
    obtain ⟨u, hu, hwhen⟩ := h.keys e he
    cases ht.symm.trans hu
    rw [hwhen]
    exact he

/-- A timer goes from the queue to the outside. -/
theorem Holds.left {a : Addr} {t : Timer} (h : q.Holds out) (ht : q.heap a = some t)
    (hx : (⟨a, t.sequence⟩ : ActiveTimer) ∈ q.activeTimers) : (q.left a t).Holds (a :: out) := by
  have hpermActive := List.perm_cons_erase hx
  have hpermTimer := List.perm_cons_erase ((h.mem_iff ht).mpr hx)
  have hcountActive : ∀ b, (q.activeTimers.map ActiveTimer.timer).count b =
      ((q.left a t).activeTimers.map ActiveTimer.timer).count b + if a == b then 1 else 0 :=
    fun b => by rw [(hpermActive.map _).count_eq, List.map_cons, List.count_cons]; rfl
  have hcountTimer : ∀ b, (q.timers.map Entry.timer).count b =
      ((q.left a t).timers.map Entry.timer).count b + if a == b then 1 else 0 :=
    fun b => by rw [(hpermTimer.map _).count_eq, List.map_cons, List.count_cons]; rfl
  refine ⟨?_, ?_, fun e he => h.keys e (List.mem_of_mem_erase he),
    fun x hx => h.ids x (List.mem_of_mem_erase hx), h.numbered⟩
  · intro b
    have hb := h.placed b
    rw [hcountActive] at hb
    show (a :: out).count b + _ = if (q.heap b).isSome then 1 else 0
    rw [← hb, List.count_cons]
    omega
  · intro b
    have hb := h.paired b
    rw [hcountActive, hcountTimer] at hb
    omega

/-- `cancelInLoop` from a sound queue: an active timer is deleted, another noted
while callbacks run. -/
theorem Holds.cancelInLoop (h : q.Holds out) (id : TimerId) :
    ∃ q', q.cancelInLoop id = some q' ∧ q'.Holds out ∧
      q'.callingExpiredTimers = q.callingExpiredTimers ∧
      q'.sqe_numCreated = q.sqe_numCreated ∧ (∀ x, q'.Live x → q.Live x) ∧
      (∀ x ∈ q.cancelingTimers, x ∈ q'.cancelingTimers) ∧
      (q'.Live id → id ∉ q.activeTimers ∧
        (q.callingExpiredTimers = true → id ∈ q'.cancelingTimers)) := by
  by_cases hx : id ∈ q.activeTimers
  · obtain ⟨t, ht, hseq⟩ := h.ids id hx
    have hid : id = ⟨id.timer, t.sequence⟩ := by rw [hseq]
    have hleft := (h.left ht (hid ▸ hx)).delete
    refine ⟨(q.left id.timer t).delete id.timer, ?_, hleft, rfl, rfl, ?_,
      fun x hx => hx, ?_⟩
    · rw [TimerQueue.cancelInLoop, if_pos hx, ht, TimerQueue.left, ← hid]
      rfl
    · intro x hlive
      exact (live_delete.mp hlive).1
    · intro hlive
      exact absurd rfl (live_delete.mp hlive).2
  · cases hcalling : q.callingExpiredTimers with
    | true =>
        refine ⟨{ q with cancelingTimers := OrderedSet.insert id q.cancelingTimers }, ?_,
          ⟨h.placed, h.paired, h.keys, h.ids, h.numbered⟩, hcalling, rfl, fun _ hl => hl,
          fun x hx => ?_, fun _ => ⟨hx, fun _ => ?_⟩⟩
        · rw [TimerQueue.cancelInLoop, if_neg hx, if_pos hcalling]
        · exact OrderedSet.mem_insert.mpr (Or.inr hx)
        · exact OrderedSet.mem_insert.mpr (Or.inl rfl)
    | false =>
        refine ⟨q, ?_, h, hcalling, rfl, fun _ hl => hl, fun x hx => hx, fun _ => ⟨hx, nofun⟩⟩
        rw [TimerQueue.cancelInLoop, if_neg hx, hcalling, if_neg Bool.false_ne_true]

/-! ## The expired timers -/

/-- The same elements in `timers_`, listed in another way. -/
theorem Holds.timers_perm (h : q.Holds out) {ts : List Entry} (hp : q.timers.Perm ts) :
    ({ q with timers := ts } : TimerQueue).Holds out where
  placed := h.placed
  paired := fun b => by rw [← (hp.map Entry.timer).count_eq]; exact h.paired b
  keys := fun e he => h.keys e (hp.mem_iff.mpr he)
  ids := h.ids
  numbered := h.numbered

/-- The loop of `getExpired` takes out what is no longer in `timers_`. -/
theorem Holds.eraseActive (rest : List Entry) : ∀ (es : List Entry) {q : TimerQueue}
    {out : List Addr}, q.Holds out → q.timers.Perm (es ++ rest) →
    ∃ q', es.foldlM TimerQueue.eraseActive { q with timers := rest } = some q' ∧
      q'.Holds (es.map Entry.timer ++ out) ∧ q'.heap = q.heap ∧
      q'.sqe_numCreated = q.sqe_numCreated := by
  intro es
  induction es with
  | nil =>
      intro q out h hp
      exact ⟨{ q with timers := rest }, rfl, h.timers_perm hp, rfl, rfl⟩
  | cons e es ih =>
      intro q out h hp
      have he : e ∈ q.timers := hp.mem_iff.mpr (.head _)
      obtain ⟨t, ht, hwhen⟩ := h.keys e he
      have hentry : (⟨t.expiration, e.timer⟩ : Entry) = e := by rw [hwhen]
      have hleft := h.left ht ((h.mem_iff ht).mp (hentry.symm ▸ he))
      have hperm : (q.left e.timer t).timers.Perm (es ++ rest) := by
        show (q.timers.erase ⟨t.expiration, e.timer⟩).Perm (es ++ rest)
        rw [hentry]
        exact (List.erase_cons_head e (es ++ rest)) ▸ hp.erase e
      obtain ⟨q', hfold, hholds, hheap, hnum⟩ := ih hleft hperm
      refine ⟨q', ?_, hholds.perm List.perm_middle, hheap, hnum⟩
      have hfirst : TimerQueue.eraseActive { q with timers := rest } e =
          some { q.left e.timer t with timers := rest } := by
        simp [TimerQueue.eraseActive, TimerQueue.left, ht]
      rw [List.foldlM_cons, hfirst]
      exact hfold

theorem Holds.getExpired (h : q.Holds out) (now : Int) :
    ∃ q' expired, q.getExpired now = some (q', expired) ∧
      q'.Holds (expired.map Entry.timer ++ out) ∧ q'.heap = q.heap ∧
      q'.sqe_numCreated = q.sqe_numCreated := by
  have hsplit := OrderedSet.below_append_rest (⟨now, uintptrMax⟩ : Entry) q.timers
  obtain ⟨q', hfold, hholds, hheap, hnum⟩ :=
    h.eraseActive (OrderedSet.rest ⟨now, uintptrMax⟩ q.timers) _ (by rw [hsplit])
  refine ⟨q', _, ?_, hholds, hheap, hnum⟩
  simp only [TimerQueue.getExpired, hfold, Option.bind_eq_bind, Option.bind_some]

/-- A timer held outside gets another expiration. -/
theorem Holds.restart {a : Addr} {t u : Timer} (h : q.Holds (a :: out)) (ht : q.heap a = some t)
    (hu : u.sequence = t.sequence) :
    ({ q with heap := Function.update q.heap a (some u) } : TimerQueue).Holds (a :: out) := by
  obtain ⟨-, hactive, htimers⟩ := h.outside (.head _)
  refine h.update hactive htimers (fun _ _ => rfl) (h.count_outside (.head _)) (Nat.le_refl _) ?_
  rintro _ ⟨⟩
  exact hu ▸ h.numbered a t ht

/-- One timer of `reset`: it goes back, or it is deleted; deleted it is when it
was cancelled. -/
theorem Holds.resetOne {e : Entry} (h : q.Holds (e.timer :: out)) (now : Int) :
    ∃ q', TimerQueue.resetOne now q e = some q' ∧ q'.Holds out ∧
      q'.cancelingTimers = q.cancelingTimers ∧
      q'.callingExpiredTimers = q.callingExpiredTimers ∧
      q'.sqe_numCreated = q.sqe_numCreated ∧ (∀ x, q'.Live x → q.Live x) ∧
      ∀ x ∈ q.cancelingTimers, x.timer = e.timer → ¬q'.Live x := by
  obtain ⟨⟨t, ht⟩, -, -⟩ := h.outside (.head _)
  by_cases hagain : t.repeats ∧ (⟨e.timer, t.sequence⟩ : ActiveTimer) ∉ q.cancelingTimers
  · have hrestart := h.restart ht (t.sequence_restart now)
    have hheap : Function.update q.heap e.timer (some (t.restart now)) e.timer
        = some (t.restart now) := Function.update_self _ _ _
    obtain ⟨changed, hinsert⟩ := insert_eq
      (q := { q with heap := Function.update q.heap e.timer (some (t.restart now)) }) hheap
    have hlive : ∀ {x : TimerId} {u : Timer},
        Function.update q.heap e.timer (some (t.restart now)) x.timer = some u →
        u.sequence = x.sequence → q.Live x ∧ (x.timer = e.timer → x.sequence = t.sequence) := by
      intro x u hu hseq
      by_cases hxe : x.timer = e.timer
      · rw [hxe] at hu
        cases hheap.symm.trans hu
        rw [Timer.sequence_restart] at hseq
        exact ⟨⟨t, hxe ▸ ht, hseq⟩, fun _ => hseq.symm⟩
      · exact ⟨⟨u, (Function.update_of_ne hxe _ _).symm.trans hu, hseq⟩, fun h => absurd h hxe⟩
    refine ⟨_, ?_, hrestart.entered hheap, rfl, rfl, rfl, ?_, ?_⟩
    · simp only [TimerQueue.resetOne, ht, Option.bind_eq_bind, Option.bind_some, if_pos hagain,
        hinsert, Option.map_some]
    · rintro x ⟨u, hu, hseq⟩
      exact (hlive hu hseq).1
    · rintro x hx hxe ⟨u, hu, hseq⟩
      have hid : x = ⟨e.timer, t.sequence⟩ := by rw [← hxe, ← (hlive hu hseq).2 hxe]
      exact hagain.2 (hid ▸ hx)
  · refine ⟨q.delete e.timer, ?_, h.delete, rfl, rfl, rfl, ?_, ?_⟩
    · simp only [TimerQueue.resetOne, ht, Option.bind_eq_bind, Option.bind_some, if_neg hagain]
    · intro x hx
      exact (live_delete.mp hx).1
    · intro x _ hxe hx
      exact (live_delete.mp hx).2 hxe

/-- The loop of `reset`. -/
theorem Holds.resetAll (now : Int) : ∀ (es : List Entry) {q : TimerQueue},
    q.Holds (es.map Entry.timer ++ out) →
    ∃ q', es.foldlM (TimerQueue.resetOne now) q = some q' ∧ q'.Holds out ∧
      q'.callingExpiredTimers = q.callingExpiredTimers ∧
      q'.sqe_numCreated = q.sqe_numCreated ∧ (∀ x, q'.Live x → q.Live x) ∧
      ∀ x ∈ q.cancelingTimers, x.timer ∈ es.map Entry.timer → ¬q'.Live x := by
  intro es
  induction es with
  | nil =>
      intro q h
      exact ⟨q, rfl, h, rfl, rfl, fun _ hx => hx, fun _ _ hx => absurd hx List.not_mem_nil⟩
  | cons e es ih =>
      intro q h
      obtain ⟨q₁, hone, h₁, hcanceling, hcalling, hnum, hlive, hgone⟩ := h.resetOne now
      obtain ⟨q', hrest, h', hcalling', hnum', hlive', hgone'⟩ := ih h₁
      refine ⟨q', ?_, h', hcalling'.trans hcalling, hnum'.trans hnum,
        fun x hx => hlive x (hlive' x hx), ?_⟩
      · rw [List.foldlM_cons, hone]
        exact hrest
      · intro x hx hmem hx'
        rcases List.mem_cons.mp hmem with heq | hmem
        · exact hgone x hx heq (hlive' x hx')
        · exact hgone' x (hcanceling ▸ hx) hmem hx'

theorem Holds.reset {es : List Entry} (h : q.Holds (es.map Entry.timer ++ out))
    (now clock : Int) :
    ∃ q', q.reset es now clock = some q' ∧ q'.Holds out ∧
      q'.callingExpiredTimers = q.callingExpiredTimers ∧
      q'.sqe_numCreated = q.sqe_numCreated ∧ (∀ x, q'.Live x → q.Live x) ∧
      ∀ x ∈ q.cancelingTimers, x.timer ∈ es.map Entry.timer → ¬q'.Live x := by
  obtain ⟨q', hall, h', hcalling, hnum, hlive, hgone⟩ := h.resetAll now es
  cases htimers : q'.timers with
  | nil =>
      refine ⟨q', ?_, h', hcalling, hnum, hlive, hgone⟩
      simp only [TimerQueue.reset, hall, Option.bind_eq_bind, Option.bind_some, htimers]
  | cons e ts =>
      obtain ⟨t, ht, -⟩ := h'.keys e (htimers ▸ List.mem_cons_self)
      by_cases hvalid : 0 < t.expiration
      · refine ⟨q'.resetTimerfd clock t.expiration, ?_, h'.resetTimerfd _ _, hcalling, hnum, hlive,
          hgone⟩
        simp only [TimerQueue.reset, hall, Option.bind_eq_bind, Option.bind_some, htimers, ht,
          if_pos hvalid]
      · refine ⟨q', ?_, h', hcalling, hnum, hlive, hgone⟩
        simp only [TimerQueue.reset, hall, Option.bind_eq_bind, Option.bind_some, htimers, ht,
          if_neg hvalid]

end TimerQueue

end Timers

end WebServer

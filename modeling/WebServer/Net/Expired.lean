/-
# `Net.Expired` — what `getExpired` takes out

`timers_` is ordered by expiration and then by address, and `getExpired(now)` cuts it
before the pair of `now` and `UINTPTR_MAX`.  No timer has that address, so all that
are due at `now` come before the cut, whatever their addresses.  `activeTimers_` is
ordered by address, and the timers taken out are erased from it one by one.

`Invariant` is the invariant of a `TimerQueue`: both sets in their orders, of the same
timers, under the keys these have.  Every call keeps it (`invariant_reachable`), and
from it `getExpired_splits` says what is taken and what is left.
-/
import WebServer.Net.Interval

namespace WebServer

namespace Timers

open Machine TimerQueue

/-! ## The invariant -/

namespace TimerQueue

structure Invariant (q : TimerQueue) : Prop where
  sorted : q.timers.Pairwise (· < ·)
  activeSorted : q.activeTimers.Pairwise (· < ·)
  /-- the two sets have the same timers, each once, -/
  same : (q.timers.map Entry.timer).Perm (q.activeTimers.map ActiveTimer.timer)
  once : (q.timers.map Entry.timer).Nodup
  /-- under the keys they have. -/
  keys : ∀ e ∈ q.timers, ∃ t, q.heap e.timer = some t ∧ t.expiration = e.when
  ids : ∀ x ∈ q.activeTimers, ∃ t, q.heap x.timer = some t ∧ t.sequence = x.sequence
  address : ∀ e ∈ q.timers, e.timer < uintptrMax

/-- The timer at the address is due. -/
def due (q : TimerQueue) (now : Int) (timer : Addr) : Bool :=
  (q.heap timer).any fun t => t.expiration ≤ now

end TimerQueue

section

variable {q : TimerQueue} {now : Int}

/-- The sentry comes after all timers that are due, and before the others. -/
theorem lt_sentry {e : Entry} (h : e.timer < uintptrMax) :
    e < ⟨now, uintptrMax⟩ ↔ e.when ≤ now := by
  show toLex (e.when, e.timer) < toLex (now, uintptrMax) ↔ _
  rw [Prod.Lex.toLex_lt_toLex]
  dsimp only
  constructor
  · rintro (hlt | ⟨heq, -⟩)
    · exact le_of_lt hlt
    · exact le_of_eq heq
  · intro hle
    rcases lt_or_eq_of_le hle with hlt | heq
    · exact Or.inl hlt
    · exact Or.inr ⟨heq, h⟩

theorem due_entry {e : Entry} (h : ∃ t, q.heap e.timer = some t ∧ t.expiration = e.when) :
    q.due now e.timer = decide (e.when ≤ now) := by
  obtain ⟨t, ht, hwhen⟩ := h
  rw [due, ht, Option.any_some, hwhen]

/-- The loop of `getExpired` erases from `activeTimers_` the timers of the entries. -/
theorem eraseActive_all (es : List Entry) : ∀ {q : TimerQueue},
    (q.activeTimers.map ActiveTimer.timer).Nodup →
    (∀ x ∈ q.activeTimers, ∃ t, q.heap x.timer = some t ∧ t.sequence = x.sequence) →
    (∀ e ∈ es, ∃ t, q.heap e.timer = some t) →
    es.foldlM TimerQueue.eraseActive q = some { q with
      activeTimers := q.activeTimers.filter fun x => x.timer ∉ es.map Entry.timer } := by
  induction es with
  | nil =>
      intro q _ _ _
      have hall : (q.activeTimers.filter fun x => x.timer ∉ ([] : List Entry).map Entry.timer) =
          q.activeTimers := List.filter_eq_self.mpr fun x _ => decide_eq_true List.not_mem_nil
      rw [hall]
      rfl
  | cons e es ih =>
      intro q hnodup hids hlive
      obtain ⟨t, ht⟩ := hlive e List.mem_cons_self
      -- the element erased is the one with that address
      have herase : q.activeTimers.erase ⟨e.timer, t.sequence⟩ =
          q.activeTimers.filter fun x => x.timer ≠ e.timer := by
        rw [(hnodup.of_map _).erase_eq_filter]
        refine List.filter_congr fun x hx => ?_
        rw [Bool.eq_iff_iff, bne_iff_ne, decide_eq_true_eq]
        refine not_congr ⟨fun heq => congrArg ActiveTimer.timer heq, fun htimer => ?_⟩
        obtain ⟨u, hu, hseq⟩ := hids x hx
        rw [htimer, ht] at hu
        cases hu
        rw [← htimer, hseq]
      have hone : TimerQueue.eraseActive q e = some { q with
          activeTimers := q.activeTimers.filter fun x => x.timer ≠ e.timer } := by
        rw [TimerQueue.eraseActive, ht, Option.bind_eq_bind, Option.bind_some, herase]
      have hsub : (q.activeTimers.filter fun x => x.timer ≠ e.timer).Sublist q.activeTimers :=
        List.filter_sublist
      have hrest := ih (q := { q with
          activeTimers := q.activeTimers.filter fun x => x.timer ≠ e.timer })
        (hnodup.sublist (hsub.map _)) (fun x hx => hids x (List.mem_of_mem_filter hx))
        fun f hf => hlive f (List.mem_cons_of_mem _ hf)
      rw [List.foldlM_cons, hone, Option.bind_eq_bind, Option.bind_some, hrest, List.filter_filter]
      refine congrArg (fun active => some { q with activeTimers := active }) ?_
      refine List.filter_congr fun x _ => ?_
      rw [Bool.eq_iff_iff, Bool.and_eq_true, decide_eq_true_eq, decide_eq_true_eq,
        decide_eq_true_eq, List.map_cons, List.mem_cons, not_or]
      exact And.comm

namespace TimerQueue.Invariant

theorem sorted_le (h : q.Invariant) : q.timers.Pairwise (· ≤ ·) := h.sorted.imp le_of_lt

theorem below_sentry (h : q.Invariant) (now : Int) :
    OrderedSet.below ⟨now, uintptrMax⟩ q.timers = q.timers.filter fun e => e.when ≤ now := by
  rw [OrderedSet.below_eq_filter h.sorted_le]
  exact List.filter_congr fun e he => decide_eq_decide.mpr (lt_sentry (h.address e he))

theorem rest_sentry (h : q.Invariant) (now : Int) :
    OrderedSet.rest ⟨now, uintptrMax⟩ q.timers = q.timers.filter fun e => now < e.when := by
  rw [OrderedSet.rest_eq_filter h.sorted_le]
  refine List.filter_congr fun e he => ?_
  rw [← decide_not, decide_eq_decide, lt_sentry (h.address e he), not_le]

theorem active_once (h : q.Invariant) : (q.activeTimers.map ActiveTimer.timer).Nodup :=
  h.same.nodup_iff.mp h.once

/-- The timers of the entries taken out are those that are due. -/
theorem mem_expired_iff (h : q.Invariant) {x : ActiveTimer} (hx : x ∈ q.activeTimers) :
    x.timer ∈ (q.timers.filter fun e => e.when ≤ now).map Entry.timer ↔
      q.due now x.timer = true := by
  constructor
  · intro hmem
    obtain ⟨e, he, htimer⟩ := List.mem_map.mp hmem
    obtain ⟨he, hwhen⟩ := List.mem_filter.mp he
    rw [← htimer, due_entry (h.keys e he)]
    exact hwhen
  · intro hx'
    obtain ⟨e, he, htimer⟩ := List.mem_map.mp
      (h.same.mem_iff.mpr (List.mem_map_of_mem (f := ActiveTimer.timer) hx))
    rw [← htimer, due_entry (h.keys e he)] at hx'
    exact htimer ▸ List.mem_map_of_mem (List.mem_filter.mpr ⟨he, hx'⟩)

theorem expired_perm (h : q.Invariant) (now : Int) :
    ((q.timers.filter fun e => e.when ≤ now).map Entry.timer).Perm
      ((q.activeTimers.filter fun x => q.due now x.timer).map ActiveTimer.timer) := by
  have honce : ((q.timers.filter fun e => e.when ≤ now).map Entry.timer).Nodup :=
    h.once.sublist (List.filter_sublist.map _)
  have hactive : ((q.activeTimers.filter fun x => q.due now x.timer).map
      ActiveTimer.timer).Nodup := h.active_once.sublist (List.filter_sublist.map _)
  refine (List.perm_ext_iff_of_nodup honce hactive).mpr fun a => ?_
  constructor
  · intro ha
    obtain ⟨e, he, rfl⟩ := List.mem_map.mp ha
    obtain ⟨x, hx, hxe⟩ := List.mem_map.mp (h.same.mem_iff.mp
      (List.mem_map_of_mem (f := Entry.timer) (List.mem_of_mem_filter he)))
    rw [← hxe] at ha ⊢
    exact List.mem_map_of_mem (List.mem_filter.mpr ⟨hx, (h.mem_expired_iff hx).mp ha⟩)
  · intro ha
    obtain ⟨x, hx, rfl⟩ := List.mem_map.mp ha
    obtain ⟨hx, hdue⟩ := List.mem_filter.mp hx
    exact (h.mem_expired_iff hx).mpr hdue

end TimerQueue.Invariant

/-- From a queue that keeps its invariant, `getExpired(now)` returns the entries whose
expiration is `now` or before, in the order of their expirations, takes them out of
`timers_` and their timers out of `activeTimers_`, and leaves everything else. -/
theorem getExpired_splits (h : q.Invariant) (now : Int) :
    ∃ expired, q.getExpired now = some ({ q with
        timers := q.timers.filter fun e => now < e.when
        activeTimers := q.activeTimers.filter fun x => !q.due now x.timer }, expired) ∧
      expired = q.timers.filter (fun e => e.when ≤ now) ∧
      expired.Pairwise (fun e f => e.when ≤ f.when) ∧
      (expired.map Entry.timer).Perm
        ((q.activeTimers.filter fun x => q.due now x.timer).map ActiveTimer.timer) := by
  refine ⟨_, ?_, rfl, ?_, h.expired_perm now⟩
  · have hlive : ∀ e ∈ q.timers.filter (fun e => e.when ≤ now),
        ∃ t, q.heap e.timer = some t := by
      intro e he
      obtain ⟨t, ht, -⟩ := h.keys e (List.mem_of_mem_filter he)
      exact ⟨t, ht⟩
    rw [TimerQueue.getExpired, h.below_sentry, h.rest_sentry]
    rw [eraseActive_all _ (q := { q with timers := q.timers.filter fun e => now < e.when })
      h.active_once h.ids hlive]
    refine congrArg (fun active => some ({ q with
      timers := q.timers.filter fun e => now < e.when, activeTimers := active }, _)) ?_
    refine List.filter_congr fun x hx => ?_
    rw [Bool.eq_iff_iff, decide_eq_true_eq, Bool.not_eq_true', ← Bool.not_eq_true,
      h.mem_expired_iff hx]
  · exact (h.sorted_le.sublist List.filter_sublist).imp Entry.when_le

end

/-! ## Every call keeps the invariant -/

section

variable {q q' : TimerQueue}

/-- The two sets are in order. -/
structure Sorted (q : TimerQueue) : Prop where
  timers : q.timers.Pairwise (· < ·)
  activeTimers : q.activeTimers.Pairwise (· < ·)

theorem Sorted.insert (hs : Sorted q) {a : Addr} {changed : Bool}
    (h : q.insert a = some (q', changed)) : Sorted q' := by
  obtain ⟨t, -, h⟩ := Option.bind_eq_some_iff.mp h
  cases h
  exact ⟨OrderedSet.strict_insert hs.timers _, OrderedSet.strict_insert hs.activeTimers _⟩

theorem Sorted.addTimerInLoop (hs : Sorted q) {a : Addr} {clock : Int}
    (h : q.addTimerInLoop a clock = some q') : Sorted q' := by
  obtain ⟨⟨r, changed⟩, hinsert, h⟩ := Option.bind_eq_some_iff.mp h
  have hr := hs.insert hinsert
  cases changed with
  | true =>
      obtain ⟨t, -, h⟩ := Option.bind_eq_some_iff.mp h
      cases h
      exact ⟨hr.timers, hr.activeTimers⟩
  | false =>
      cases h
      exact hr

theorem Sorted.cancelInLoop (hs : Sorted q) {id : TimerId} (h : q.cancelInLoop id = some q') :
    Sorted q' := by
  rw [TimerQueue.cancelInLoop] at h
  split at h
  · obtain ⟨t, -, h⟩ := Option.bind_eq_some_iff.mp h
    cases h
    exact ⟨hs.timers.sublist List.erase_sublist, hs.activeTimers.sublist List.erase_sublist⟩
  · split at h
    · cases h
      exact ⟨hs.timers, hs.activeTimers⟩
    · cases h
      exact hs

theorem Sorted.getExpired (hs : Sorted q) {now : Int} {expired : List Entry}
    (h : q.getExpired now = some (q', expired)) : Sorted q' := by
  obtain ⟨r, hfold, h⟩ := Option.bind_eq_some_iff.mp h
  cases h
  obtain ⟨active, rfl, hsub⟩ := Calls.eraseActive_frame _ hfold
  exact ⟨hs.timers.sublist (List.dropWhile_sublist _), hs.activeTimers.sublist hsub⟩

theorem Sorted.resetAll (now : Int) (es : List Entry) : ∀ {q : TimerQueue}, Sorted q →
    es.foldlM (TimerQueue.resetOne now) q = some q' → Sorted q' := by
  induction es with
  | nil =>
      intro q hs h
      cases h
      exact hs
  | cons e es ih =>
      intro q hs h
      rw [List.foldlM_cons] at h
      obtain ⟨r, hone, h⟩ := Option.bind_eq_some_iff.mp h
      refine ih ?_ h
      obtain ⟨t, -, hone⟩ := Option.bind_eq_some_iff.mp hone
      split at hone
      · obtain ⟨⟨r', changed⟩, hinsert, hone⟩ := Option.map_eq_some_iff.mp hone
        cases hone
        refine Sorted.insert ?_ hinsert
        exact ⟨hs.timers, hs.activeTimers⟩
      · cases hone
        exact ⟨hs.timers, hs.activeTimers⟩

theorem Sorted.reset (hs : Sorted q) {es : List Entry} {now clock : Int}
    (h : q.reset es now clock = some q') : Sorted q' := by
  obtain ⟨r, hfold, h⟩ := Option.bind_eq_some_iff.mp h
  have hr := Sorted.resetAll now es hs hfold
  split at h
  · cases h
    exact hr
  · obtain ⟨t, -, h⟩ := Option.bind_eq_some_iff.mp h
    cases h
    split
    · exact ⟨hr.timers, hr.activeTimers⟩
    · exact hr

end

namespace Calls

variable {s s' : State} {op : Op}

theorem sorted_step (hs : Sorted s.queue) (h : step s op = some s') : Sorted s'.queue := by
  obtain ⟨-, h⟩ := Option.ite_none_right_eq_some.mp h
  cases op with
  | create timer when interval =>
      cases h
      exact ⟨hs.timers, hs.activeTimers⟩
  | addTimerInLoop id clock =>
      obtain ⟨q, hadd, h⟩ := Option.bind_eq_some_iff.mp h
      cases h
      refine Sorted.addTimerInLoop ?_ hadd
      exact ⟨hs.timers, hs.activeTimers⟩
  | cancelInLoop id =>
      obtain ⟨q, hcancel, h⟩ := Option.bind_eq_some_iff.mp h
      cases h
      exact hs.cancelInLoop hcancel
  | handleRead now read =>
      obtain ⟨⟨q, expired⟩, hget, h⟩ := Option.bind_eq_some_iff.mp h
      cases h
      have hq := hs.getExpired hget
      exact ⟨hq.timers, hq.activeTimers⟩
  | run =>
      rw [State.perform] at h
      split at h
      · obtain ⟨t, -, h⟩ := Option.bind_eq_some_iff.mp h
        cases h
        exact hs
      · cases h
  | reset clock =>
      rw [State.perform] at h
      split at h
      · obtain ⟨q, hreset, h⟩ := Option.bind_eq_some_iff.mp h
        cases h
        refine Sorted.reset ?_ hreset
        exact ⟨hs.timers, hs.activeTimers⟩
      · cases h

/-- Timers are where `new` has put them. -/
theorem address_step (hs : ∀ a t, s.queue.heap a = some t → a < uintptrMax)
    (h : step s op = some s') : ∀ a t, s'.queue.heap a = some t → a < uintptrMax := by
  intro a t ht
  cases (step_timer h).2 ht with
  | same hold => exact hs a t hold
  | restarted b u _ _ hold _ _ _ => exact hs a u hold
  | created when interval hop _ =>
      obtain ⟨hallows, -⟩ := Option.ite_none_right_eq_some.mp h
      rw [hop] at hallows
      exact hallows.2.2

/-- Whatever is done with the timers, the queue keeps its invariant. -/
theorem invariant_reachable (h : Reachable step start s) : s.queue.Invariant := by
  obtain ⟨hsorted, haddress⟩ : Sorted s.queue ∧
      ∀ a t, s.queue.heap a = some t → a < uintptrMax :=
    h.invariant (I := fun s => Sorted s.queue ∧
        ∀ a t, s.queue.heap a = some t → a < uintptrMax)
      (fun _ _ _ hs hstep => ⟨sorted_step hs.1 hstep, address_step hs.2 hstep⟩)
      ⟨⟨List.Pairwise.nil, List.Pairwise.nil⟩, nofun⟩
  have hconsistent := (sound_reachable h).consistent
  refine ⟨hsorted.timers, hsorted.activeTimers, hconsistent.same, hconsistent.once,
    hconsistent.keys, hconsistent.ids, ?_⟩
  intro e he
  obtain ⟨t, ht, -⟩ := hconsistent.keys e he
  exact haddress e.timer t ht

end Calls

/-- Three timers, two of them due at the same time. -/
def three : TimerQueue :=
  { TimerQueue.new with
    heap := fun a =>
      if a = 7 then some ⟨3, false, 0, 30⟩
      else if a = 8 then some ⟨1, false, 0, 20⟩
      else if a = 9 then some ⟨2, false, 0, 20⟩
      else none
    timers := [⟨20, 8⟩, ⟨20, 9⟩, ⟨30, 7⟩]
    activeTimers := [⟨7, 3⟩, ⟨8, 1⟩, ⟨9, 2⟩] }

theorem getExpired_splits_three : ∃ q, three.getExpired 20 = some (q, [⟨20, 8⟩, ⟨20, 9⟩]) ∧
    q.timers = [⟨30, 7⟩] ∧ q.activeTimers = [⟨7, 3⟩] := by
  have hinvariant : three.Invariant :=
    ⟨by decide, by decide, by decide, by decide, by decide, by decide, by decide⟩
  obtain ⟨expired, hget, hexpired, -⟩ := getExpired_splits hinvariant 20
  exact ⟨_, hexpired ▸ hget, by decide, by decide⟩

end Timers

end WebServer

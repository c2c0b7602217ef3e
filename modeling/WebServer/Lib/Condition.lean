/-
# `Lib.Condition` — a condition variable

Where each thread stands with a condition variable: away from it, blocked in a
wait, or notified there and not yet back from the wait.  `notify` wakes one
blocked thread, of the caller's or the kernel's choice, and does nothing when
none is blocked; a thread that leaves a wait without having been notified woke
spuriously.

For a condition that stands for free units of something (`Covered`): as long as
a thread is blocked, there is a notified one for each free unit.  That is what
one notify for each freed unit keeps, also when a thread that never waited takes
a unit before a notified one does.
-/
import Mathlib.Data.Fintype.Card
import Mathlib.Data.Fintype.Basic

inductive Condition.Status where
  | away
  /-- In the wait, and not notified. -/
  | blocked
  /-- Notified, and not yet back from the wait. -/
  | notified
  deriving DecidableEq

/-- A condition variable. -/
abbrev Condition (ι : Type*) := ι → Condition.Status

namespace Condition

variable {ι : Type*} {c c' : Condition ι} {i j : ι} {choice : Option ι} {free : Nat}

/-- Nobody waits. -/
def idle : Condition ι := fun _ => .away

def notifyAll (c : Condition ι) : Condition ι := fun i =>
  if c i = .blocked then .notified else c i

theorem notifyAll_ne_blocked : c.notifyAll i ≠ .blocked := by
  rw [notifyAll]
  split
  · exact nofun
  · assumption

/-! ## A notified thread for each free unit -/

section Covered

variable [Fintype ι]

/-- The number of notified threads. -/
def notified (c : Condition ι) : Nat := (Finset.univ.filter fun i => c i = .notified).card

/-- While a thread is blocked, there are as many notified as there are free units. -/
def Covered (c : Condition ι) (free : Nat) : Prop := (∃ i, c i = .blocked) → free ≤ c.notified

theorem covered_idle : Covered (idle : Condition ι) free := fun ⟨_, h⟩ => absurd h nofun

theorem covered_zero : Covered c 0 := fun _ => Nat.zero_le _

end Covered

/-! ## What the threads do -/

variable [DecidableEq ι]

def wait (c : Condition ι) (i : ι) : Condition ι := Function.update c i .blocked

/-- Back from the wait, or never in it. -/
def leave (c : Condition ι) (i : ι) : Condition ι := Function.update c i .away

theorem wait_self : c.wait i i = .blocked := Function.update_self i _ c

theorem leave_self : c.leave i i = .away := Function.update_self i _ c

theorem leave_ne_blocked : c.leave i i ≠ .blocked := fun h => absurd (leave_self.symm.trans h) nofun

theorem blocked_leave : c.leave i j = .blocked ↔ j ≠ i ∧ c j = .blocked := by
  by_cases hij : j = i
  · subst hij
    rw [leave_self]
    exact ⟨fun h => absurd h nofun, fun h => absurd rfl h.1⟩
  · rw [leave, Function.update_of_ne hij]
    exact ⟨fun h => ⟨hij, h⟩, fun h => h.2⟩

variable [Fintype ι]

/-- Wake the chosen thread, which is blocked; no choice is made only when none is. -/
def notify (c : Condition ι) : Option ι → Option (Condition ι)
  | some i => if c i = .blocked then some (Function.update c i .notified) else none
  | none => if ∀ i, c i ≠ .blocked then some c else none

theorem notify_cases (h : c.notify choice = some c') :
    (∃ i, c i = .blocked ∧ c' = Function.update c i .notified) ∨
      (∀ i, c i ≠ .blocked) ∧ c' = c := by
  cases choice with
  | none =>
      obtain ⟨hnone, h⟩ := Option.ite_none_right_eq_some.mp h
      exact Or.inr ⟨hnone, (Option.some.inj h).symm⟩
  | some i =>
      obtain ⟨hi, h⟩ := Option.ite_none_right_eq_some.mp h
      exact Or.inl ⟨i, hi, (Option.some.inj h).symm⟩

/-- Someone is not blocked after a notify. -/
theorem exists_awake_notify [Nonempty ι] (h : c.notify choice = some c') :
    ∃ i, c' i ≠ .blocked := by
  rcases notify_cases h with ⟨i, -, rfl⟩ | ⟨hnone, rfl⟩
  · refine ⟨i, ?_⟩
    rw [Function.update_self]
    exact nofun
  · obtain ⟨i⟩ := ‹Nonempty ι›
    exact ⟨i, hnone i⟩

theorem notified_update (h : c i = .blocked) :
    notified (Function.update c i .notified) = c.notified + 1 := by
  have hmem : i ∉ Finset.univ.filter fun j => c j = .notified := by
    rw [Finset.mem_filter, h]
    exact fun hi => absurd hi.2 nofun
  rw [notified, notified, ← Finset.card_insert_of_notMem hmem]
  congr 1
  ext j
  rw [Finset.mem_insert, Finset.mem_filter, Finset.mem_filter, Function.update_apply]
  by_cases hij : j = i <;> simp [hij]

theorem notified_le_leave : c.notified ≤ (c.leave i).notified + 1 := by
  refine (Finset.card_le_card ?_).trans
    (Finset.card_insert_le i (Finset.univ.filter fun j => c.leave i j = .notified))
  intro j hj
  rw [Finset.mem_insert, Finset.mem_filter, leave, Function.update_apply]
  by_cases hij : j = i
  · exact Or.inl hij
  · rw [if_neg hij]
    exact Or.inr ⟨Finset.mem_univ j, (Finset.mem_filter.mp hj).2⟩

/-- A unit is freed, and one thread notified. -/
theorem Covered.notify (hc : Covered c free) (h : c.notify choice = some c') :
    Covered c' (free + 1) := by
  rcases notify_cases h with ⟨i, hi, rfl⟩ | ⟨hnone, rfl⟩
  · intro _
    rw [notified_update hi]
    exact Nat.succ_le_succ (hc ⟨i, hi⟩)
  · rintro ⟨i, hi⟩
    exact absurd hi (hnone i)

/-- A thread takes a unit, notified or not. -/
theorem Covered.leave (hc : Covered c (free + 1)) : Covered (c.leave i) free := by
  rintro ⟨j, hj⟩
  have hfree := hc ⟨j, (blocked_leave.mp hj).2⟩
  exact Nat.le_of_succ_le_succ (hfree.trans notified_le_leave)

/-- A blocked thread wakes without having been notified. -/
theorem Covered.wake (hc : Covered c free) (hi : c i = .blocked) : Covered (c.leave i) free := by
  rintro ⟨j, hj⟩
  refine (hc ⟨j, (blocked_leave.mp hj).2⟩).trans (Finset.card_le_card ?_)
  intro k hk
  have hk' := (Finset.mem_filter.mp hk).2
  have hne : k ≠ i := by
    rintro rfl
    exact absurd (hi.symm.trans hk') nofun
  rw [Finset.mem_filter, Condition.leave, Function.update_of_ne hne]
  exact ⟨Finset.mem_univ k, hk'⟩

end Condition

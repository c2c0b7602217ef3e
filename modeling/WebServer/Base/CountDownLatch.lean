/-
# `Base.CountDownLatch` — waiting until a count is down to zero

Any number of threads call `wait` and `countDown` on one latch, each a step at a time:
it gets the mutex, does what it does under it, and gives it back; a thread that waits is
without it.  Waits may end spuriously.

`gate`: nobody comes through before the count is down, and as soon as it is, nobody is
left blocked, and whoever is inside comes out with no more than three steps of its own.
That `countDown` notifies only at zero, and not below, is enough, because nobody begins
to wait from zero on (`Sound.blocked`).  The count is an `int`; a run does not go on
where `--count_` overflows.
-/
import WebServer.Lib.Condition
import WebServer.Lib.Progress
import Mathlib.Algebra.BigOperators.Ring.Finset
import Mathlib.Algebra.Order.BigOperators.Group.Finset

namespace WebServer

/-- The latch, with the thread that has its mutex. -/
structure CountDownLatch (ι : Type*) where
  count_ : Int32
  mutex_ : Option ι
  condition_ : Condition ι

namespace CountDownLatch

open Machine

/-- Where a thread is in a call. -/
inductive Place where
  | outside
  /-- In `wait`, before the test of the count. -/
  | testing
  /-- In `condition_.wait()`, without the mutex. -/
  | waiting
  /-- In `wait`, after the loop. -/
  | passing
  /-- In `countDown`, before `--count_`. -/
  | counting
  | counted
  deriving DecidableEq

/-- A step of a thread. -/
inductive Op where
  /-- It calls `wait`, and gets the mutex. -/
  | wait
  | test
  /-- It comes back from `condition_.wait()`, with the mutex. -/
  | wake
  /-- It gives the mutex back, and returns from `wait`. -/
  | pass
  /-- It calls `countDown`, and gets the mutex. -/
  | countDown
  | decrement
  /-- It gives the mutex back, and returns from `countDown`. -/
  | leave
  deriving DecidableEq

def Op.IsCall (op : Op) : Prop := op = .wait ∨ op = .countDown

instance (op : Op) : Decidable op.IsCall := inferInstanceAs (Decidable (_ ∨ _))

/-- A step of `wait`. -/
def Op.Waits (op : Op) : Prop := op = .wait ∨ op = .test ∨ op = .wake ∨ op = .pass

instance (op : Op) : Decidable op.Waits := inferInstanceAs (Decidable (_ ∨ _))

/-- The latch in use: where the threads are, how often the count was decremented, and
who has come through. -/
structure State (ι : Type*) where
  latch : CountDownLatch ι
  place : ι → Place
  downs : Nat
  passed : List ι

variable {ι : Type*}

def start (count : Int32) : State ι := ⟨⟨count, none, .idle⟩, fun _ => .outside, 0, []⟩

/-- Under the mutex. -/
def Place.Holds (p : Place) : Prop := p = .testing ∨ p = .passing ∨ p = .counting ∨ p = .counted

instance (p : Place) : Decidable p.Holds := inferInstanceAs (Decidable (_ ∨ _))

structure Sound (n : Int32) (s : State ι) : Prop where
  count : s.latch.count_.toInt = n.toInt - s.downs
  holder : ∀ i, s.latch.mutex_ = some i ↔ (s.place i).Holds
  waits : ∀ i, s.latch.condition_ i ≠ .away ↔ s.place i = .waiting
  /-- Nobody is left blocked when the count is down. -/
  blocked : ∀ i, s.latch.condition_ i = .blocked → s.downs < n.toInt
  notified : ∀ i, s.latch.condition_ i = .notified → n.toInt ≤ s.downs
  through : ∀ i, s.place i = .passing → n.toInt ≤ s.downs
  passed : s.passed ≠ [] → n.toInt ≤ s.downs

theorem sound_start (n : Int32) : Sound n (start n : State ι) where
  count := (sub_zero _).symm
  holder := fun _ => iff_of_false nofun (show ¬Place.outside.Holds by decide)
  waits := fun _ => iff_of_false (fun h => h rfl) nofun
  blocked := nofun
  notified := nofun
  through := nofun
  passed := fun h => absurd rfl h

/-- Who is under the mutex has it. -/
theorem Sound.mine {n : Int32} {s : State ι} {i : ι} {p : Place} (hs : Sound n s)
    (h : s.place i = p) (hp : p.Holds) :
    s.latch.mutex_ = some i :=
  (hs.holder i).mpr (h ▸ hp)

theorem notifyAll_away (c : Condition ι) (j : ι) : c.notifyAll j ≠ .away ↔ c j ≠ .away := by
  rw [Condition.notifyAll]
  split
  · next h =>
      rw [h]
      exact iff_of_true (by simp) (by simp)
  · exact Iff.rfl

variable [DecidableEq ι]

/-- The thread goes to a place with the mutex. -/
def State.enter (s : State ι) (i : ι) (p : Place) : State ι :=
  { s with
    latch := { s.latch with mutex_ := some i }
    place := Function.update s.place i p }

/-- The thread goes to a place without it. -/
def State.release (s : State ι) (i : ι) (p : Place) : State ι :=
  { s with
    latch := { s.latch with mutex_ := none }
    place := Function.update s.place i p }

def step (s : State ι) : ι × Op → Option (State ι)
  | (i, .wait) =>
      if s.place i = .outside ∧ s.latch.mutex_ = none then some (s.enter i .testing) else none
  | (i, .test) =>
      if s.place i = .testing then
        if 0 < s.latch.count_ then
          let s := s.release i .waiting
          some { s with latch := { s.latch with condition_ := s.latch.condition_.wait i } }
        else some (s.enter i .passing)
      else none
  | (i, .wake) =>
      if s.place i = .waiting ∧ s.latch.mutex_ = none then
        let s := s.enter i .testing
        some { s with latch := { s.latch with condition_ := s.latch.condition_.leave i } }
      else none
  | (i, .pass) =>
      if s.place i = .passing then
        some { s.release i .outside with passed := s.passed ++ [i] }
      else none
  | (i, .countDown) =>
      if s.place i = .outside ∧ s.latch.mutex_ = none then some (s.enter i .counting) else none
  | (i, .decrement) =>
      if s.place i = .counting ∧ s.latch.count_ ≠ Int32.minValue then
        let s := s.enter i .counted
        let count := s.latch.count_ - 1
        let condition := if count = 0 then s.latch.condition_.notifyAll else s.latch.condition_
        some { s with latch := ⟨count, s.latch.mutex_, condition⟩, downs := s.downs + 1 }
      else none
  | (i, .leave) => if s.place i = .counted then some (s.release i .outside) else none

/-! ## One step -/

section

variable {n : Int32} {s t : State ι} {i j : ι} {p : Place}

omit [DecidableEq ι] in
theorem Sound.pos_iff (hs : Sound n s) : 0 < s.latch.count_ ↔ s.downs < n.toInt := by
  have hcount := hs.count
  rw [Int32.lt_iff_toInt_lt, Int32.toInt_zero]
  omega

/-- Where it does not overflow. -/
theorem toInt_pred {c : Int32} (h : c ≠ Int32.minValue) : (c - 1).toInt = c.toInt - 1 := by
  have hne : c.toInt ≠ -2 ^ 31 := fun heq => h (Int32.toInt_inj.mp heq)
  have hge := c.le_toInt
  have hlt := c.toInt_lt
  rw [Int32.toInt_sub, Int32.toInt_one]
  exact Int.bmod_eq_of_le (by omega) (by omega)

omit [DecidableEq ι] in
theorem Sound.pred_zero_iff (hs : Sound n s) (h : s.latch.count_ ≠ Int32.minValue) :
    s.latch.count_ - 1 = 0 ↔ n.toInt = s.downs + 1 := by
  have hcount := hs.count
  rw [← Int32.toInt_inj, toInt_pred h, Int32.toInt_zero]
  omega

/-- A thread that gets the mutex, or keeps it. -/
theorem holder_enter (h : ∀ j, s.latch.mutex_ = some j ↔ (s.place j).Holds)
    (hfree : s.latch.mutex_ = none ∨ s.latch.mutex_ = some i) (hp : p.Holds) (j : ι) :
    (s.enter i p).latch.mutex_ = some j ↔ ((s.enter i p).place j).Holds := by
  show some i = some j ↔ (Function.update s.place i p j).Holds
  rw [Function.update_apply]
  by_cases hij : j = i
  · rw [if_pos hij, hij]
    exact iff_of_true rfl hp
  · rw [if_neg hij, ← h j]
    refine iff_of_false (fun heq => hij (Option.some.inj heq).symm) fun heq => ?_
    rcases hfree with hnone | hsome
    · exact absurd (hnone.symm.trans heq) (by simp)
    · exact hij (Option.some.inj (hsome.symm.trans heq)).symm

/-- A thread that gives it back. -/
theorem holder_release (h : ∀ j, s.latch.mutex_ = some j ↔ (s.place j).Holds)
    (hmine : s.latch.mutex_ = some i) (hp : ¬p.Holds) (j : ι) :
    (s.release i p).latch.mutex_ = some j ↔ ((s.release i p).place j).Holds := by
  show none = some j ↔ (Function.update s.place i p j).Holds
  rw [Function.update_apply]
  by_cases hij : j = i
  · rw [if_pos hij]
    exact iff_of_false (by simp) hp
  · rw [if_neg hij, ← h j]
    exact iff_of_false (by simp) fun heq => hij (Option.some.inj (hmine.symm.trans heq)).symm

/-- A thread that neither comes from the condition nor goes there. -/
theorem waits_update (h : ∀ j, s.latch.condition_ j ≠ .away ↔ s.place j = .waiting)
    (hi : s.place i ≠ .waiting) (hp : p ≠ .waiting) (j : ι) :
    s.latch.condition_ j ≠ .away ↔ Function.update s.place i p j = .waiting := by
  rw [h j, Function.update_apply]
  by_cases hij : j = i
  · rw [if_pos hij, hij]
    exact iff_of_false hi hp
  · rw [if_neg hij]

theorem through_update (h : ∀ j, s.place j = .passing → n.toInt ≤ s.downs)
    (hp : p = .passing → n.toInt ≤ s.downs) (j : ι)
    (hj : Function.update s.place i p j = .passing) :
    n.toInt ≤ s.downs := by
  rw [Function.update_apply] at hj
  split at hj
  · exact hp hj
  · exact h j hj

theorem not_holds_outside : ¬Place.outside.Holds := by decide

theorem not_holds_waiting : ¬Place.waiting.Holds := by decide

/-- A call gets the mutex. -/
theorem sound_enter (hs : Sound n s) (hi : s.place i ≠ .waiting)
    (hfree : s.latch.mutex_ = none ∨ s.latch.mutex_ = some i) (hp : p.Holds)
    (hthrough : p = .passing → n.toInt ≤ s.downs) : Sound n (s.enter i p) where
  count := hs.count
  holder := holder_enter hs.holder hfree hp
  waits := waits_update hs.waits hi (by rintro rfl; exact not_holds_waiting hp)
  blocked := hs.blocked
  notified := hs.notified
  through := through_update hs.through hthrough
  passed := hs.passed

/-- A call returns. -/
theorem sound_release (hs : Sound n s) (hi : s.place i = p) (hp : p.Holds) :
    Sound n (s.release i .outside) where
  count := hs.count
  holder := holder_release hs.holder (hs.mine hi hp) not_holds_outside
  waits := waits_update hs.waits (by rw [hi]; rintro rfl; exact not_holds_waiting hp) nofun
  blocked := hs.blocked
  notified := hs.notified
  through := through_update hs.through nofun
  passed := hs.passed

theorem sound_block (hs : Sound n s) (hi : s.place i = .testing) (hcount : 0 < s.latch.count_) :
    Sound n { s.release i .waiting with
      latch := { (s.release i .waiting).latch with
        condition_ := s.latch.condition_.wait i } } where
  count := hs.count
  holder := holder_release hs.holder (hs.mine hi (by decide)) not_holds_waiting
  waits := fun j => by
    show Function.update s.latch.condition_ i .blocked j ≠ .away ↔
      Function.update s.place i .waiting j = .waiting
    rw [Function.update_apply, Function.update_apply]
    by_cases hij : j = i
    · rw [if_pos hij, if_pos hij]
      exact iff_of_true nofun rfl
    · rw [if_neg hij, if_neg hij]
      exact hs.waits j
  blocked := fun _ _ => hs.pos_iff.mp hcount
  notified := fun j hj => by
    refine hs.notified j ?_
    by_cases hij : j = i
    · rw [hij] at hj
      exact absurd (Condition.wait_self.symm.trans hj) nofun
    · exact (Function.update_of_ne hij _ _).symm.trans hj
  through := through_update hs.through nofun
  passed := hs.passed

theorem sound_wake (hs : Sound n s) (hfree : s.latch.mutex_ = none) :
    Sound n { s.enter i .testing with
      latch := { (s.enter i .testing).latch with
        condition_ := s.latch.condition_.leave i } } where
  count := hs.count
  holder := holder_enter hs.holder (Or.inl hfree) (by decide)
  waits := fun j => by
    show Function.update s.latch.condition_ i .away j ≠ .away ↔
      Function.update s.place i .testing j = .waiting
    rw [Function.update_apply, Function.update_apply]
    by_cases hij : j = i
    · rw [if_pos hij, if_pos hij]
      exact iff_of_false (fun h => h rfl) nofun
    · rw [if_neg hij, if_neg hij]
      exact hs.waits j
  blocked := fun j hj => hs.blocked j (Condition.blocked_leave.mp hj).2
  notified := fun j hj => by
    refine hs.notified j ?_
    by_cases hij : j = i
    · rw [hij] at hj
      exact absurd (Condition.leave_self.symm.trans hj) nofun
    · exact (Function.update_of_ne hij _ _).symm.trans hj
  through := through_update hs.through nofun
  passed := hs.passed

theorem sound_decrement (hs : Sound n s) (hi : s.place i = .counting)
    (hroom : s.latch.count_ ≠ Int32.minValue) :
    Sound n { s.enter i .counted with
      latch := ⟨s.latch.count_ - 1, some i,
        if s.latch.count_ - 1 = 0 then s.latch.condition_.notifyAll else s.latch.condition_⟩
      downs := s.downs + 1 } where
  count := by
    have hcount := hs.count
    show (s.latch.count_ - 1).toInt = n.toInt - ((s.downs + 1 : Nat) : Int)
    rw [toInt_pred hroom]
    omega
  holder := holder_enter hs.holder (Or.inr (hs.mine hi (by decide))) (by decide)
  waits := fun j => by
    refine Iff.trans ?_ (waits_update (p := .counted) hs.waits (by rw [hi]; nofun) nofun j)
    dsimp only
    split
    · exact notifyAll_away _ j
    · exact Iff.rfl
  blocked := fun j hj => by
    dsimp only at hj ⊢
    split at hj
    · exact absurd hj Condition.notifyAll_ne_blocked
    · next hne =>
        have hless := hs.blocked j hj
        rw [hs.pred_zero_iff hroom] at hne
        omega
  notified := fun j hj => by
    dsimp only at hj ⊢
    split at hj
    · next heq =>
        rw [hs.pred_zero_iff hroom] at heq
        omega
    · have hdown := hs.notified j hj
      omega
  through := fun j hj => by
    have hdown := through_update (p := .counted) hs.through nofun j hj
    show n.toInt ≤ ((s.downs + 1 : Nat) : Int)
    omega
  passed := fun h => by
    have hdown := hs.passed h
    show n.toInt ≤ ((s.downs + 1 : Nat) : Int)
    omega

theorem sound_step {a : ι × Op} (hs : Sound n s) (h : step s a = some t) : Sound n t := by
  obtain ⟨i, op⟩ := a
  cases op with
  | wait | countDown =>
      obtain ⟨⟨hi, hfree⟩, h⟩ := Option.ite_none_right_eq_some.mp h
      cases h
      exact sound_enter hs (by rw [hi]; nofun) (Or.inl hfree) (by decide) nofun
  | test =>
      obtain ⟨hi, h⟩ := Option.ite_none_right_eq_some.mp h
      have hmine := hs.mine hi (by decide)
      by_cases hcount : 0 < s.latch.count_
      · rw [if_pos hcount] at h
        cases h
        exact sound_block hs hi hcount
      · rw [if_neg hcount] at h
        cases h
        exact sound_enter hs (by rw [hi]; nofun) (Or.inr hmine) (by decide) fun _ =>
          Int.not_lt.mp fun hless => hcount (hs.pos_iff.mpr hless)
  | wake =>
      obtain ⟨⟨-, hfree⟩, h⟩ := Option.ite_none_right_eq_some.mp h
      cases h
      exact sound_wake hs hfree
  | decrement =>
      obtain ⟨⟨hi, hroom⟩, h⟩ := Option.ite_none_right_eq_some.mp h
      cases h
      exact sound_decrement hs hi hroom
  | pass =>
      obtain ⟨hi, h⟩ := Option.ite_none_right_eq_some.mp h
      cases h
      have hout := sound_release hs hi (by decide)
      exact ⟨hout.count, hout.holder, hout.waits, hout.blocked, hout.notified, hout.through,
        fun _ => hs.through i hi⟩
  | leave =>
      obtain ⟨hi, h⟩ := Option.ite_none_right_eq_some.mp h
      cases h
      exact sound_release hs hi (by decide)

/-! ## Who moves, and where -/

theorem place_step {op : Op} (h : step s (i, op) = some t) (hij : j ≠ i) :
    t.place j = s.place j := by
  cases op with
  | test =>
      obtain ⟨-, h⟩ := Option.ite_none_right_eq_some.mp h
      split at h <;> (cases h; exact Function.update_of_ne hij _ _)
  | _ =>
      obtain ⟨-, h⟩ := Option.ite_none_right_eq_some.mp h
      cases h
      exact Function.update_of_ne hij _ _

/-- A step of `wait`, which counts nothing. -/
theorem waits_step {op : Op} (hop : op.Waits) (h : step s (i, op) = some t) :
    t.downs = s.downs ∧
      ((op = .wait ∧ s.place i = .outside ∧ t.place i = .testing) ∨
        (op = .test ∧ s.place i = .testing ∧
          t.place i = if 0 < s.latch.count_ then .waiting else .passing) ∨
        (op = .wake ∧ s.place i = .waiting ∧ t.place i = .testing) ∨
        (op = .pass ∧ s.place i = .passing ∧ t.place i = .outside)) := by
  cases op with
  | wait =>
      obtain ⟨⟨hi, -⟩, h⟩ := Option.ite_none_right_eq_some.mp h
      cases h
      exact ⟨rfl, Or.inl ⟨rfl, hi, Function.update_self i _ _⟩⟩
  | test =>
      obtain ⟨hi, h⟩ := Option.ite_none_right_eq_some.mp h
      split at h
      · next hcount =>
          cases h
          rw [if_pos hcount]
          exact ⟨rfl, Or.inr (Or.inl ⟨rfl, hi, Function.update_self i _ _⟩)⟩
      · next hcount =>
          cases h
          rw [if_neg hcount]
          exact ⟨rfl, Or.inr (Or.inl ⟨rfl, hi, Function.update_self i _ _⟩)⟩
  | wake =>
      obtain ⟨⟨hi, -⟩, h⟩ := Option.ite_none_right_eq_some.mp h
      cases h
      exact ⟨rfl, Or.inr (Or.inr (Or.inl ⟨rfl, hi, Function.update_self i _ _⟩))⟩
  | pass =>
      obtain ⟨hi, h⟩ := Option.ite_none_right_eq_some.mp h
      cases h
      exact ⟨rfl, Or.inr (Or.inr (Or.inr ⟨rfl, hi, Function.update_self i _ _⟩))⟩
  | countDown | decrement | leave => exact absurd hop (by decide)

/-- A step of `countDown`. -/
theorem counts_step {op : Op} (hop : ¬op.Waits) (h : step s (i, op) = some t) :
    (op = .countDown ∧ s.place i = .outside ∧ t.place i = .counting ∧ t.downs = s.downs) ∨
      (op = .decrement ∧ s.place i = .counting ∧ t.place i = .counted ∧ t.downs = s.downs + 1) ∨
      (op = .leave ∧ s.place i = .counted ∧ t.place i = .outside ∧ t.downs = s.downs) := by
  cases op with
  | wait | test | wake | pass => exact absurd (by decide) hop
  | countDown =>
      obtain ⟨⟨hi, -⟩, h⟩ := Option.ite_none_right_eq_some.mp h
      cases h
      exact Or.inl ⟨rfl, hi, Function.update_self i _ _, rfl⟩
  | decrement =>
      obtain ⟨⟨hi, -⟩, h⟩ := Option.ite_none_right_eq_some.mp h
      cases h
      exact Or.inr (Or.inl ⟨rfl, hi, Function.update_self i _ _, rfl⟩)
  | leave =>
      obtain ⟨hi, h⟩ := Option.ite_none_right_eq_some.mp h
      cases h
      exact Or.inr (Or.inr ⟨rfl, hi, Function.update_self i _ _, rfl⟩)

/-! ## Coming out -/

/-- The steps that a thread has before it, when the count is down. -/
def Place.left : Place → Nat
  | .outside => 0
  | .testing => 2
  | .waiting => 3
  | .passing => 1
  | .counting => 2
  | .counted => 1

theorem Place.left_le (p : Place) : p.left ≤ 3 := by cases p <;> decide

/-- The count only goes down. -/
theorem downs_step {op : Op} (h : step s (i, op) = some t) : s.downs ≤ t.downs := by
  by_cases hop : op.Waits
  · exact Nat.le_of_eq (waits_step hop h).1.symm
  · rcases counts_step hop h with ⟨-, -, -, hdowns⟩ | ⟨-, -, -, hdowns⟩ | ⟨-, -, -, hdowns⟩ <;>
      omega

/-- Each step of a thread that is no call brings it nearer. -/
theorem left_step {op : Op} (hs : Sound n s) (hdown : n.toInt ≤ s.downs) (hcall : ¬op.IsCall)
    (h : step s (i, op) = some t) : (t.place i).left + 1 = (s.place i).left := by
  by_cases hop : op.Waits
  · rcases (waits_step hop h).2 with ⟨rfl, -⟩ | ⟨-, hi, hi'⟩ | ⟨-, hi, hi'⟩ | ⟨-, hi, hi'⟩
    · exact absurd (Or.inl rfl) hcall
    · rw [if_neg (fun hpos => absurd (hs.pos_iff.mp hpos) (Int.not_lt.mpr hdown))] at hi'
      rw [hi, hi']
      rfl
    · rw [hi, hi']
      rfl
    · rw [hi, hi']
      rfl
  · rcases counts_step hop h with ⟨rfl, -⟩ | ⟨-, hi, hi', -⟩ | ⟨-, hi, hi', -⟩
    · exact absurd (Or.inr rfl) hcall
    · rw [hi, hi']
      rfl
    · rw [hi, hi']
      rfl

/-- Whatever the others do, a thread that makes no new call takes no more steps than it has
before it. -/
theorem countP_own_le (hs : Sound n s) (hdown : n.toInt ≤ s.downs) {more : List (ι × Op)}
    (hcalls : ∀ a ∈ more, a.1 = i → ¬a.2.IsCall) (h : exec step s more = some t) :
    more.countP (fun a => a.1 = i) ≤ 3 := by
  have hstep : ∀ (s : State ι) (a : ι × Op) (t : State ι), Sound n s ∧ n.toInt ≤ s.downs →
      (a.1 = i → ¬a.2.IsCall) → step s a = some t → (Sound n t ∧ n.toInt ≤ t.downs) ∧
        (t.place i).left ≤ (s.place i).left ∧
        (decide (a.1 = i) = true → (t.place i).left < (s.place i).left) := by
    rintro s ⟨j, op⟩ t ⟨hs, hdown⟩ hcall h
    have hdowns := downs_step h
    refine ⟨⟨sound_step hs h, by omega⟩, ?_⟩
    by_cases hj : j = i
    · subst hj
      have hleft := left_step hs hdown (hcall rfl) h
      omega
    · rw [place_step h (Ne.symm hj)]
      exact ⟨Nat.le_refl _, fun heq => absurd (of_decide_eq_true heq) hj⟩
  have hcount := countP_le_of_meets hstep ⟨hs, hdown⟩ ((meets_iff_forall h).mpr hcalls) h
  have hle := (s.place i).left_le
  omega

variable [Fintype ι]

/-- The threads about to decrement the count. -/
def State.counting (s : State ι) : Nat := (Finset.univ.filter fun i => s.place i = .counting).card

/-- The count is down, and there is room in it for the decrements under way. -/
structure Down (n : Int32) (s : State ι) : Prop where
  sound : Sound n s
  down : n.toInt ≤ s.downs
  room : s.counting ≤ s.latch.count_.toInt + 2 ^ 31

/-- Who has the mutex can go on, and when nobody has it a notified thread can come back. -/
theorem exists_step (hs : Down n s) (hi : s.place i ≠ .outside) :
    ∃ (a : ι × Op) (t : State ι), ¬a.2.IsCall ∧ step s a = some t := by
  cases hmutex : s.latch.mutex_ with
  | some j =>
      rcases (hs.sound.holder j).mp hmutex with hj | hj | hj | hj
      · have hnot : ¬0 < s.latch.count_ := fun hpos =>
          absurd (hs.sound.pos_iff.mp hpos) (Int.not_lt.mpr hs.down)
        exact ⟨(j, .test), _, show ¬Op.IsCall .test by decide, (if_pos hj).trans (if_neg hnot)⟩
      · exact ⟨(j, .pass), _, show ¬Op.IsCall .pass by decide, if_pos hj⟩
      · have hpos : 0 < s.counting :=
          Finset.card_pos.mpr ⟨j, Finset.mem_filter.mpr ⟨Finset.mem_univ j, hj⟩⟩
        have hroom : s.latch.count_ ≠ Int32.minValue := by
          intro heq
          have hcount := hs.room
          rw [heq, Int32.toInt_minValue] at hcount
          omega
        exact ⟨(j, .decrement), _, show ¬Op.IsCall .decrement by decide, if_pos ⟨hj, hroom⟩⟩
      · exact ⟨(j, .leave), _, show ¬Op.IsCall .leave by decide, if_pos hj⟩
  | none =>
      have hnot : ¬(s.place i).Holds := fun h => by
        rw [(hs.sound.holder i).mpr h] at hmutex
        cases hmutex
      have hwaiting : s.place i = .waiting := by
        cases hplace : s.place i with
        | waiting => rfl
        | outside => exact absurd hplace hi
        | _ => exact absurd (hplace ▸ (by decide)) hnot
      exact ⟨(i, .wake), _, show ¬Op.IsCall .wake by decide, if_pos ⟨hwaiting, hmutex⟩⟩

/-- A decrement is one less under way, and only a call begins one. -/
theorem counting_step {op : Op} (hcall : ¬op.IsCall) (h : step s (i, op) = some t) :
    t.counting + t.downs ≤ s.counting + s.downs := by
  have hnot : t.place i ≠ .counting := by
    intro hi
    by_cases hop : op.Waits
    · rcases (waits_step hop h).2 with ⟨-, -, hi'⟩ | ⟨-, -, hi'⟩ | ⟨-, -, hi'⟩ | ⟨-, -, hi'⟩
      · exact Place.noConfusion (hi.symm.trans hi')
      · rw [hi] at hi'
        split at hi' <;> cases hi'
      · exact Place.noConfusion (hi.symm.trans hi')
      · exact Place.noConfusion (hi.symm.trans hi')
    · rcases counts_step hop h with ⟨rfl, -⟩ | ⟨-, -, hi', -⟩ | ⟨-, -, hi', -⟩
      · exact hcall (Or.inr rfl)
      · exact Place.noConfusion (hi.symm.trans hi')
      · exact Place.noConfusion (hi.symm.trans hi')
  have hsubset : (Finset.univ.filter fun j => t.place j = .counting) ⊆
      Finset.univ.filter fun j => s.place j = .counting := by
    intro j hj
    have hplace := (Finset.mem_filter.mp hj).2
    have hne : j ≠ i := fun heq => hnot (heq ▸ hplace)
    exact Finset.mem_filter.mpr ⟨Finset.mem_univ j, (place_step h hne).symm.trans hplace⟩
  have hle : t.counting ≤ s.counting := Finset.card_le_card hsubset
  by_cases hop : op.Waits
  · have hdowns := (waits_step hop h).1
    omega
  · rcases counts_step hop h with ⟨-, -, -, hdowns⟩ | ⟨-, hi, -, hdowns⟩ | ⟨-, -, -, hdowns⟩
    · omega
    · have hless : t.counting < s.counting := by
        refine Finset.card_lt_card ⟨hsubset, fun hback => hnot ?_⟩
        exact (Finset.mem_filter.mp (hback (Finset.mem_filter.mpr ⟨Finset.mem_univ i, hi⟩))).2
      omega
    · omega

/-! ## Every run -/

/-- The steps that are no calls, from where the count is down. -/
theorem out_step (s : State ι) (a : ι × Op) (t : State ι) (hs : Down n s) (hcall : ¬a.2.IsCall)
    (h : step s a = some t) :
    Down n t ∧ (∑ i, (t.place i).left) < ∑ i, (s.place i).left := by
  obtain ⟨i, op⟩ := a
  have hdowns := downs_step h
  have hsound := sound_step hs.sound h
  have hdown := hs.down
  have hcounting := counting_step hcall h
  have hroom := hs.room
  have hcount := hs.sound.count
  have hcount' := hsound.count
  refine ⟨⟨hsound, by omega, by omega⟩, Finset.sum_lt_sum (fun j _ => ?_)
    ⟨i, Finset.mem_univ i, ?_⟩⟩
  · by_cases hj : j = i
    · subst hj
      have hleft := left_step hs.sound hs.down hcall h
      omega
    · rw [place_step h hj]
  · have hleft := left_step hs.sound hs.down hcall h
    omega

theorem exec_out (hs : Down n s) :
    ∃ more t, (∀ a ∈ more, ¬a.2.IsCall) ∧ exec step s more = some t ∧
      ∀ i, t.place i = .outside := by
  have hgo : ∀ s : State ι, Down n s → (¬∀ i, s.place i = .outside) →
      ∃ a t, ¬a.2.IsCall ∧ step s a = some t := by
    intro s hs hnot
    obtain ⟨i, hi⟩ := not_forall.mp hnot
    exact exists_step hs hi
  obtain ⟨more, t, hmeets, ht, hout⟩ := exists_exec out_step hgo hs
  exact ⟨more, t, (meets_iff_forall ht).mp hmeets, ht, hout⟩

/-- In every run of a latch with a count of `n`, whoever calls it: nobody comes through
`wait` before the `n`-th decrement; and once it has been made, nobody is blocked without
having been notified, a thread that makes no new call takes three more steps at most,
whatever the others do, and all can come out, if the count has room for the decrements
under way. -/
theorem gate {acts : List (ι × Op)} (h : exec step (start n) acts = some s) :
    (s.passed ≠ [] → n.toInt ≤ s.downs) ∧
      (n.toInt ≤ s.downs →
        (∀ i, s.latch.condition_ i ≠ .blocked) ∧
        (∀ i more t, (∀ a ∈ more, a.1 = i → ¬a.2.IsCall) → exec step s more = some t →
          more.countP (fun a => a.1 = i) ≤ 3) ∧
        (s.counting ≤ s.latch.count_.toInt + 2 ^ 31 →
          ∃ more t, (∀ a ∈ more, ¬a.2.IsCall) ∧ exec step s more = some t ∧
            ∀ i, t.place i = .outside)) := by
  have hs : Sound n s :=
    exec_invariant (fun _ _ _ hs _ ha => sound_step hs ha) (meets_true _ _) (sound_start n) h
  refine ⟨hs.passed, fun hdown => ⟨fun i hi => ?_, fun i more t hcalls ht => ?_, fun hroom => ?_⟩⟩
  · exact absurd (hs.blocked i hi) (Int.not_lt.mpr hdown)
  · exact countP_own_le hs hdown hcalls ht
  · exact exec_out ⟨hs, hdown, hroom⟩

end

/-- One waits for two. -/
theorem gate_two : ∃ s : State (Fin 3),
    exec step (start 2) [(0, .wait), (0, .test), (1, .countDown), (1, .decrement), (1, .leave),
      (2, .countDown), (2, .decrement), (2, .leave)] = some s ∧
    ∃ more t, (∀ a ∈ more, ¬a.2.IsCall) ∧ exec step s more = some t ∧
      ∀ i, t.place i = .outside := by
  have hgo : (exec step (start 2 : State (Fin 3)) [(0, .wait), (0, .test), (1, .countDown),
      (1, .decrement), (1, .leave), (2, .countDown), (2, .decrement), (2, .leave)]).map
        (fun s => (s.downs, s.counting, s.latch.count_)) = some (2, 0, 0) := by
    decide
  obtain ⟨s, hs, hfields⟩ := Option.map_eq_some_iff.mp hgo
  obtain ⟨hdowns, hfields⟩ := Prod.mk.inj hfields
  obtain ⟨hcounting, hcount⟩ := Prod.mk.inj hfields
  exact ⟨s, hs, ((gate hs).2 (by rw [hdowns]; decide)).2.2 (by rw [hcounting, hcount]; decide)⟩

end CountDownLatch

end WebServer

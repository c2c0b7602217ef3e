/-
# `Lib.Schedule` — what is done once, or again after each period

An event has a time that it was due at and one that it was done at.  The first of a
sequence is due at a given time, and each further one a period after the one before was
done (`Kept`); so what is late delays what follows, and nothing is made up for.

From this: none is done before it is due, what does not repeat is done once at most, and
between two that are done lies a period for each step from the one to the other
(`Kept.spaced`, `Kept.length_le`).
-/
import Mathlib.Data.List.Basic
import Mathlib.Algebra.Order.Ring.Int

namespace Schedule

structure Event where
  due : Int
  done : Int
  deriving DecidableEq

variable {repeats : Bool} {period first : Int} {es : List Event} {e : Event}

/-- When the next one is due. -/
def next (period : Int) : Int → List Event → Int
  | first, [] => first
  | _, e :: es => next period (e.done + period) es

/-- Each was done when it was due or later, and all but the first are repetitions. -/
def Kept (repeats : Bool) (period : Int) : Int → List Event → Prop
  | _, [] => True
  | first, e :: es =>
      e.due = first ∧ first ≤ e.done ∧ (es ≠ [] → repeats) ∧
        Kept repeats period (e.done + period) es

theorem next_append (es : List Event) (e : Event) : ∀ {first : Int},
    next period first (es ++ [e]) = e.done + period := by
  induction es with
  | nil => exact rfl
  | cons _ es ih => exact ih

/-- One more. -/
theorem Kept.append : ∀ {first : Int} {es : List Event}, Kept repeats period first es →
    (es ≠ [] → repeats) → e.due = next period first es → e.due ≤ e.done →
    Kept repeats period first (es ++ [e]) := by
  intro first es
  induction es generalizing first with
  | nil =>
      intro _ _ hdue hdone
      have hfirst : e.due = first := hdue
      exact ⟨hfirst, hfirst ▸ hdone, fun h => absurd rfl h, trivial⟩
  | cons f es ih =>
      intro ⟨hfdue, hfdone, _, hrest⟩ hrepeats hdue hdone
      have hr : repeats := hrepeats (List.cons_ne_nil f es)
      exact ⟨hfdue, hfdone, fun _ => hr, ih hrest (fun _ => hr) hdue hdone⟩

theorem Kept.le_done (hperiod : 0 ≤ period) : ∀ {first : Int} {es : List Event},
    Kept repeats period first es → ∀ e ∈ es, first ≤ e.done := by
  intro first es
  induction es generalizing first with
  | nil => exact fun _ e he => absurd he List.not_mem_nil
  | cons f es ih =>
      intro ⟨_, hfdone, _, hrest⟩
      refine List.forall_mem_cons.mpr ⟨hfdone, fun e he => ?_⟩
      have hlater := ih hrest e he
      omega

/-- None is done before it is due. -/
theorem Kept.due_le : ∀ {first : Int} {es : List Event}, Kept repeats period first es →
    ∀ e ∈ es, e.due ≤ e.done := by
  intro first es
  induction es generalizing first with
  | nil => exact fun _ e he => absurd he List.not_mem_nil
  | cons f es ih =>
      intro ⟨hfdue, hfdone, _, hrest⟩
      exact List.forall_mem_cons.mpr ⟨hfdue ▸ hfdone, ih hrest⟩

/-- Between one and any later one lies a period. -/
theorem Kept.spaced (hperiod : 0 ≤ period) : ∀ {first : Int} {es : List Event},
    Kept repeats period first es → es.Pairwise fun e f => e.done + period ≤ f.done := by
  intro first es
  induction es generalizing first with
  | nil => exact fun _ => List.Pairwise.nil
  | cons f es ih =>
      intro ⟨_, _, _, hrest⟩
      exact List.pairwise_cons.mpr ⟨hrest.le_done hperiod, ih hrest⟩

theorem Kept.once (h : Kept false period first es) : es.length ≤ 1 := by
  cases es with
  | nil => exact Nat.zero_le 1
  | cons e es =>
      obtain ⟨-, -, hrepeats, -⟩ := h
      cases es with
      | nil => exact Nat.le_refl 1
      | cons f es => exact absurd (hrepeats (List.cons_ne_nil f es)) nofun

/-- By any time there has been one for the beginning, and one for each period. -/
theorem Kept.length_le : ∀ {first : Int} {es : List Event}, Kept repeats period first es →
    ∀ {now : Int}, (∀ e ∈ es, e.done ≤ now) → es ≠ [] →
    first + (es.length - 1 : Int) * period ≤ now := by
  intro first es
  induction es generalizing first with
  | nil => exact fun _ _ _ hne => absurd rfl hne
  | cons f es ih =>
      intro ⟨_, hfdone, _, hrest⟩ now hnow _
      obtain ⟨hf, hnow⟩ := List.forall_mem_cons.mp hnow
      by_cases hes : es = []
      · subst hes
        rw [List.length_singleton, Int.natCast_one, Int.sub_self, Int.zero_mul]
        omega
      · have hlater := ih hrest hnow hes
        have hlength : ((f :: es).length - 1 : Int) = (es.length - 1 : Int) + 1 := by
          rw [List.length_cons]
          omega
        rw [hlength, Int.add_mul, Int.one_mul]
        omega

end Schedule

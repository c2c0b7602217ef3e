/-
# `Lib.Machine` — runs of a partial step function

A machine is a function `step : σ → α → Option σ`: `step s a` is the state
after action `a`, and `none` when the action is refused in `s`.  Every
nondeterministic choice (a kernel answer, a thread, a time) is part of the
action, so a run is a list of actions and `exec` replays it.

Three ways to speak about a whole run from what one step does:

* `exec_invariant`: a property that every allowed step preserves holds at the
  end of every run all of whose steps are allowed (`Meets`);
* `throughout_of_meets`: the same, in every state the run passes through
  (`Throughout`);
* `throughout_iff_meets`: where a step keeps the property exactly when the
  step is allowed, the property holds throughout a run exactly when all of the
  run's steps are allowed.

A machine whose steps are runs of another refines it: `exec_simulation`.

Nothing here knows what the machine does.
-/
import Mathlib.Data.List.Basic

namespace Machine

variable {σ τ α β : Type*}

/-- Replay the actions in order, stopping with `none` at the first refusal. -/
def exec (step : σ → α → Option σ) : σ → List α → Option σ
  | s, [] => some s
  | s, a :: as => (step s a).bind fun t => exec step t as

/-- Every action of the run is taken in a state where `C` allows it. -/
def Meets (step : σ → α → Option σ) (C : σ → α → Prop) : σ → List α → Prop
  | _, [] => True
  | s, a :: as => C s a ∧ ∀ t, step s a = some t → Meets step C t as

/-- The property `I` holds in every state of the run, the first and the last
included. -/
def Throughout (step : σ → α → Option σ) (I : σ → Prop) : σ → List α → Prop
  | s, [] => I s
  | s, a :: as => I s ∧ ∀ t, step s a = some t → Throughout step I t as

/-- The states some run from `s₀` ends in. -/
def Reachable (step : σ → α → Option σ) (s₀ s : σ) : Prop :=
  ∃ as, exec step s₀ as = some s

variable {step : σ → α → Option σ}

/-- Whether a given run meets a decidable condition can be computed. -/
instance decidableMeets {C : σ → α → Prop} [∀ s a, Decidable (C s a)] :
    ∀ (s : σ) (as : List α), Decidable (Meets step C s as)
  | _, [] => isTrue trivial
  | s, a :: as =>
      match h : step s a with
      | none => decidable_of_iff (C s a)
          ⟨fun hC => ⟨hC, fun _ ht => absurd (h.symm.trans ht) nofun⟩, fun hM => hM.1⟩
      | some t =>
          have : Decidable (Meets step C t as) := decidableMeets t as
          decidable_of_iff (C s a ∧ Meets step C t as)
            ⟨fun hM => ⟨hM.1, fun _ hu => Option.some.inj (h.symm.trans hu) ▸ hM.2⟩,
              fun hM => ⟨hM.1, hM.2 t h⟩⟩

/-! ## How runs compose -/

@[simp] theorem exec_nil (s : σ) : exec step s [] = some s := rfl

theorem exec_cons {s : σ} {a : α} {as : List α} {u : σ} :
    exec step s (a :: as) = some u ↔ ∃ t, step s a = some t ∧ exec step t as = some u := by
  simp only [exec, Option.bind_eq_some_iff]

theorem exec_append {as bs : List α} : ∀ {s u : σ},
    exec step s (as ++ bs) = some u ↔
      ∃ t, exec step s as = some t ∧ exec step t bs = some u := by
  induction as with
  | nil =>
      intro s u
      exact ⟨fun h => ⟨s, rfl, h⟩, fun ⟨t, ht, h⟩ => by cases ht; exact h⟩
  | cons a as ih =>
      intro s u
      simp only [List.cons_append, exec_cons, ih]
      constructor
      · rintro ⟨t, ha, r, hr, hu⟩
        exact ⟨r, ⟨t, ha, hr⟩, hu⟩
      · rintro ⟨r, ⟨t, ha, hr⟩, hu⟩
        exact ⟨t, ha, r, hr, hu⟩

/-! ## Invariants -/

/-- What every allowed step preserves, a run of allowed steps preserves. -/
theorem exec_invariant {C : σ → α → Prop} {I : σ → Prop}
    (hstep : ∀ s a t, I s → C s a → step s a = some t → I t) :
    ∀ {as : List α} {s u : σ}, Meets step C s as → I s → exec step s as = some u → I u := by
  intro as
  induction as with
  | nil => intro s u _ hs hu; cases hu; exact hs
  | cons a as ih =>
      intro s u hC hs hu
      obtain ⟨t, ha, hu⟩ := exec_cons.mp hu
      exact ih (hC.2 t ha) (hstep s a t hs hC.1 ha) hu

/-- Where every step of a machine is a run of another, so is its every run. -/
theorem exec_simulation {spec : τ → β → Option τ} {R : σ → τ → Prop}
    (hstep : ∀ s c a t, R s c → step s a = some t → ∃ bs d, exec spec c bs = some d ∧ R t d) :
    ∀ {as : List α} {s u : σ} {c : τ}, R s c → exec step s as = some u →
      ∃ bs d, exec spec c bs = some d ∧ R u d := by
  intro as
  induction as with
  | nil => intro s u c hR hu; cases hu; exact ⟨[], c, rfl, hR⟩
  | cons a as ih =>
      intro s u c hR hu
      obtain ⟨t, ha, hu⟩ := exec_cons.mp hu
      obtain ⟨bs, d, hbs, hR⟩ := hstep s c a t hR ha
      obtain ⟨bs', d', hbs', hR'⟩ := ih hR hu
      exact ⟨bs ++ bs', d', exec_append.mpr ⟨d, hbs, hbs'⟩, hR'⟩

theorem meets_true (s : σ) (as : List α) : Meets step (fun _ _ => True) s as := by
  induction as generalizing s with
  | nil => trivial
  | cons a as ih => exact ⟨trivial, fun t _ => ih t⟩

/-- An unconditional invariant holds in every reachable state. -/
theorem Reachable.invariant {I : σ → Prop} {s₀ s : σ} (h : Reachable step s₀ s)
    (hstep : ∀ s a t, I s → step s a = some t → I t) (h₀ : I s₀) : I s := by
  obtain ⟨as, has⟩ := h
  exact exec_invariant (fun s a t hs _ ha => hstep s a t hs ha) (meets_true s₀ as) h₀ has

theorem meets_append {C : σ → α → Prop} {as bs : List α} : ∀ {s : σ},
    Meets step C s (as ++ bs) ↔
      Meets step C s as ∧ ∀ t, exec step s as = some t → Meets step C t bs := by
  induction as with
  | nil =>
      intro s
      refine ⟨fun h => ⟨trivial, fun t ht => ?_⟩, fun h => h.2 s rfl⟩
      cases ht
      exact h
  | cons a as ih =>
      intro s
      constructor
      · rintro ⟨hC, hrest⟩
        refine ⟨⟨hC, fun t ht => (ih.mp (hrest t ht)).1⟩, ?_⟩
        intro u hu
        obtain ⟨t, ht, hu⟩ := exec_cons.mp hu
        exact (ih.mp (hrest t ht)).2 u hu
      · rintro ⟨⟨hC, has⟩, hbs⟩
        exact ⟨hC, fun t ht => ih.mpr ⟨has t ht, fun u hu => hbs u (exec_cons.mpr ⟨t, ht, hu⟩)⟩⟩

/-- A condition on the actions alone is met when every action satisfies it. -/
theorem meets_iff_forall {P : α → Prop} : ∀ {as : List α} {s u : σ}, exec step s as = some u →
    (Meets step (fun _ a => P a) s as ↔ ∀ a ∈ as, P a) := by
  intro as
  induction as with
  | nil => intro s u _; exact ⟨fun _ a ha => absurd ha List.not_mem_nil, fun _ => trivial⟩
  | cons a as ih =>
      intro s u hu
      obtain ⟨t, ha, hu⟩ := exec_cons.mp hu
      constructor
      · rintro ⟨hP, hrest⟩ b hb
        rcases List.mem_cons.mp hb with rfl | hb
        · exact hP
        · exact (ih hu).mp (hrest t ha) b hb
      · intro hall
        refine ⟨hall a List.mem_cons_self, ?_⟩
        intro t' ht'
        rw [ha] at ht'
        cases ht'
        exact (ih hu).mpr fun b hb => hall b (List.mem_cons_of_mem a hb)

theorem Throughout.first {I : σ → Prop} {s : σ} {as : List α}
    (h : Throughout step I s as) : I s := by
  cases as with
  | nil => exact h
  | cons a as => exact h.1

theorem Throughout.mono {I K : σ → Prop} (h : ∀ s, I s → K s) :
    ∀ {as : List α} {s : σ}, Throughout step I s as → Throughout step K s as := by
  intro as
  induction as with
  | nil => intro s hs; exact h s hs
  | cons a as ih => intro s hs; exact ⟨h s hs.1, fun t ht => ih (hs.2 t ht)⟩

theorem throughout_of_meets {C : σ → α → Prop} {I : σ → Prop}
    (hstep : ∀ s a t, I s → C s a → step s a = some t → I t) :
    ∀ {as : List α} {s : σ}, Meets step C s as → I s → Throughout step I s as := by
  intro as
  induction as with
  | nil => intro s _ hs; exact hs
  | cons a as ih =>
      intro s hC hs
      exact ⟨hs, fun t ht => ih (hC.2 t ht) (hstep s a t hs hC.1 ht)⟩

/-- Where every allowed step goes through and preserves `I`, a run of allowed
steps goes through, and `I` holds throughout it. -/
theorem exec_progress {C : σ → α → Prop} {I : σ → Prop}
    (hstep : ∀ s a, I s → C s a → ∃ t, step s a = some t ∧ I t) :
    ∀ {as : List α} {s : σ}, Meets step C s as → I s →
      ∃ u, exec step s as = some u ∧ I u ∧ Throughout step I s as := by
  intro as
  induction as with
  | nil => intro s _ hs; exact ⟨s, rfl, hs, hs⟩
  | cons a as ih =>
      intro s hC hs
      obtain ⟨t, ha, ht⟩ := hstep s a hs hC.1
      obtain ⟨u, hu, hIu, hall⟩ := ih (hC.2 t ha) ht
      refine ⟨u, exec_cons.mpr ⟨t, ha, hu⟩, hIu, hs, ?_⟩
      intro t' ht'
      rw [ha] at ht'
      cases ht'
      exact hall

/-- Where a step keeps `I` exactly when `C` allows it, `I` holds throughout a
run that goes through exactly when every step of it is allowed.  `J` is a
background invariant that every step preserves. -/
theorem throughout_iff_meets {C : σ → α → Prop} {I J : σ → Prop}
    (hJ : ∀ s a t, J s → step s a = some t → J t)
    (hstep : ∀ s a t, J s → I s → step s a = some t → (I t ↔ C s a)) :
    ∀ {as : List α} {s u : σ}, J s → I s → exec step s as = some u →
      (Throughout step I s as ↔ Meets step C s as) := by
  intro as
  induction as with
  | nil => intro s u _ hs _; exact ⟨fun _ => trivial, fun _ => hs⟩
  | cons a as ih =>
      intro s u hj hs hu
      obtain ⟨t, ha, hu⟩ := exec_cons.mp hu
      have hone : ∀ t', step s a = some t' → t' = t := fun t' h' => by
        rw [ha] at h'; exact (Option.some.inj h').symm
      have hIC := hstep s a t hj hs ha
      constructor
      · rintro ⟨-, hrest⟩
        have hIt : I t := (hrest t ha).first
        refine ⟨hIC.mp hIt, ?_⟩
        intro t' ht'
        rw [hone t' ht']
        exact (ih (hJ s a t hj ha) hIt hu).mp (hrest t ha)
      · rintro ⟨hC, hrest⟩
        refine ⟨hs, ?_⟩
        intro t' ht'
        rw [hone t' ht']
        exact (ih (hJ s a t hj ha) (hIC.mpr hC) hu).mpr (hrest t ha)

end Machine

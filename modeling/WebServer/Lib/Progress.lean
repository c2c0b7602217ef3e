/-
# `Lib.Progress` — machines that come to an end

What a machine still has to do is a number, its rank.  Where each of the steps that count
lowers it and no other step raises it, a run has no more of those that count than the
rank (`countP_le_of_meets`); where all of them count it is no longer than that (`length_le`).
Where one of them can be taken as long as the goal is not reached, they reach it
(`exists_exec`).
-/
import WebServer.Lib.Machine

namespace Machine

section

variable {σ α : Type*} {step : σ → α → Option σ} {I D : σ → Prop} {rank : σ → Nat}

/-- `A` is what the steps are allowed to be, and `C` which of them count. -/
theorem countP_le_of_meets {A : σ → α → Prop} {C : α → Bool}
    (hstep : ∀ s a t, I s → A s a → step s a = some t →
      I t ∧ rank t ≤ rank s ∧ (C a = true → rank t < rank s)) :
    ∀ {as : List α} {s t : σ}, I s → Meets step A s as → exec step s as = some t →
      as.countP C + rank t ≤ rank s := by
  intro as
  induction as with
  | nil =>
      intro s t _ _ h
      cases h
      exact Nat.le_of_eq (by rw [List.countP_nil, Nat.zero_add])
  | cons a as ih =>
      intro s t hs hA h
      obtain ⟨u, hu, h⟩ := exec_cons.mp h
      obtain ⟨hI, hle, hless⟩ := hstep s a u hs hA.1 hu
      have hrest := ih hI (hA.2 u hu) h
      cases hC : C a with
      | false =>
          rw [List.countP_cons_of_neg (Bool.eq_false_iff.mp hC)]
          omega
      | true =>
          have hlower := hless hC
          rw [List.countP_cons_of_pos hC]
          omega

/-- All steps are allowed. -/
theorem countP_le {C : α → Bool}
    (hstep : ∀ s a t, I s → step s a = some t →
      I t ∧ rank t ≤ rank s ∧ (C a = true → rank t < rank s))
    {as : List α} {s t : σ} (hs : I s) (h : exec step s as = some t) :
    as.countP C + rank t ≤ rank s :=
  countP_le_of_meets (fun s a t hs _ h => hstep s a t hs h) hs (meets_true s as) h

/-- All of them count. -/
theorem length_le {C : σ → α → Prop}
    (hstep : ∀ s a t, I s → C s a → step s a = some t → I t ∧ rank t < rank s)
    {as : List α} {s t : σ} (hs : I s) (hmeets : Meets step C s as)
    (h : exec step s as = some t) : as.length + rank t ≤ rank s := by
  have hcount := countP_le_of_meets (C := fun _ => true) (fun s a t hs hC h =>
    have hless := hstep s a t hs hC h
    ⟨hless.1, Nat.le_of_lt hless.2, fun _ => hless.2⟩) hs hmeets h
  rwa [List.countP_true] at hcount

theorem exists_exec {C : σ → α → Prop}
    (hstep : ∀ s a t, I s → C s a → step s a = some t → I t ∧ rank t < rank s)
    (hgo : ∀ s, I s → ¬D s → ∃ a t, C s a ∧ step s a = some t) {s : σ} (hs : I s) :
    ∃ as t, Meets step C s as ∧ exec step s as = some t ∧ D t := by
  induction hn : rank s using Nat.strongRecOn generalizing s with
  | _ n ih =>
      by_cases hD : D s
      · exact ⟨[], s, trivial, rfl, hD⟩
      · obtain ⟨a, u, hC, hu⟩ := hgo s hs hD
        obtain ⟨hI, hless⟩ := hstep s a u hs hC hu
        obtain ⟨as, t, hmeets, ht, hD⟩ := ih (rank u) (hn ▸ hless) hI rfl
        refine ⟨a :: as, t, ⟨hC, fun u' hu' => ?_⟩, exec_cons.mpr ⟨u, hu, ht⟩, hD⟩
        rw [hu] at hu'
        cases hu'
        exact hmeets

end

end Machine

/-
# `Lib.Peak` — how high a quantity has been, and who was last

`peak step f s as` is the greatest value of `f` in the states of a run.  An
invariant that has a bound on `f` as its argument, and that a step raises no
further than to the new value, holds at the end of a run for the peak
(`exec_peak`).

`latest l out` are the members of a history `l` that are not `out` at the
moment, the one that came last first.  It is a stack: who goes out was on top
or has never been in the history (`latest_take`, `latest_fresh`), and who comes
back is on top (`latest_give`).
-/
import Mathlib.Data.List.Dedup
import WebServer.Lib.Machine

namespace Machine

variable {σ α : Type*} {step : σ → α → Option σ} {f : σ → Nat}

def peak (step : σ → α → Option σ) (f : σ → Nat) : σ → List α → Nat
  | s, [] => f s
  | s, a :: as => max (f s) ((step s a).elim 0 fun t => peak step f t as)

theorem peak_cons {s t : σ} {a : α} {as : List α} (h : step s a = some t) :
    peak step f s (a :: as) = max (f s) (peak step f t as) := by
  rw [peak, h, Option.elim_some]

theorem exec_peak {C : σ → α → Prop} {I : σ → Nat → Prop} (hbound : ∀ s k, I s k → f s ≤ k)
    (hstep : ∀ s a t k, I s k → C s a → step s a = some t → I t (max k (f t))) :
    ∀ {as : List α} {s u : σ} {k : Nat}, Meets step C s as → I s k → exec step s as = some u →
      I u (max k (peak step f s as)) := by
  intro as
  induction as with
  | nil =>
      intro s u k _ hs hu
      cases hu
      rwa [peak, Nat.max_eq_left (hbound s k hs)]
  | cons a as ih =>
      intro s u k hC hs hu
      obtain ⟨t, ha, hu⟩ := exec_cons.mp hu
      have hend := ih (hC.2 t ha) (hstep s a t k hs hC.1 ha) hu
      have hfirst : f t ≤ peak step f t as := by
        cases as with
        | nil => exact Nat.le_refl _
        | cons b bs => exact Nat.le_max_left _ _
      have hs := hbound s k hs
      have hmax : max k (peak step f s (a :: as)) = max (max k (f t)) (peak step f t as) := by
        rw [peak_cons ha]
        omega
      rwa [hmax]

end Machine

namespace List

variable {α : Type*} [DecidableEq α] {l out : List α} {c : α}

def latest (l out : List α) : List α := (l.dedup.filter (· ∉ out)).reverse

theorem mem_latest : c ∈ latest l out ↔ c ∈ l ∧ c ∉ out := by
  simp [latest]

theorem nodup_latest : (latest l out).Nodup :=
  nodup_reverse.mpr ((nodup_dedup l).filter _)

theorem latest_concat (l out : List α) (c : α) :
    latest l (out ++ [c]) = (latest l out).filter (· ≠ c) := by
  rw [latest, latest, filter_reverse, filter_filter]
  congr 2
  funext b
  simp [not_or, and_comm]

theorem latest_take {rest : List α} (h : latest l out = c :: rest) :
    latest l (out ++ [c]) = rest := by
  have hnodup : (c :: rest).Nodup := h ▸ nodup_latest
  rw [latest_concat, h, filter_cons_of_neg (by simp), filter_eq_self]
  intro b hb
  simpa using fun e : b = c => (nodup_cons.mp hnodup).1 (e ▸ hb)

theorem latest_fresh (h : c ∉ l) : latest l (out ++ [c]) = latest l out := by
  rw [latest_concat, filter_eq_self]
  intro b hb
  simpa using fun e : b = c => h (e ▸ (mem_latest.mp hb).1)

/-- What came once more has moved to the end. -/
theorem dedup_concat (l : List α) (c : α) :
    (l ++ [c]).dedup = l.dedup.filter (· ≠ c) ++ [c] := by
  rw [dedup_append, Nodup.dedup (nodup_singleton c)]
  induction l with
  | nil => rfl
  | cons a l ih =>
      rw [cons_union, ih]
      by_cases ha : a ∈ l
      · rw [dedup_cons_of_mem ha, insert_of_mem]
        by_cases hac : a = c
        · exact mem_append_right _ (mem_singleton.mpr hac)
        · exact mem_append_left _ (mem_filter.mpr ⟨mem_dedup.mpr ha, by simpa using hac⟩)
      · rw [dedup_cons_of_notMem ha]
        by_cases hac : a = c
        · rw [insert_of_mem (mem_append_right _ (mem_singleton.mpr hac)),
            filter_cons_of_neg (by simpa using hac)]
        · rw [filter_cons_of_pos (by simpa using hac), cons_append, insert_of_not_mem]
          simp [ha, hac]

theorem latest_give (hout : out.Nodup) (hc : c ∈ out) :
    latest (l ++ [c]) (out.erase c) = c :: latest l out := by
  have hself : c ∉ out.erase c := hout.not_mem_erase
  rw [latest, dedup_concat, filter_append, filter_cons_of_pos (by simpa using hself), filter_nil,
    reverse_append, reverse_singleton, singleton_append, filter_filter, latest]
  congr 2
  refine filter_congr fun b _ => ?_
  by_cases hb : b = c
  · simp [hb, hc]
  · simp [hb, hout.mem_erase_iff]

end List

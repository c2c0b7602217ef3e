/-
# `Lib.Ledger` — the account of a first-in first-out conduit

Whatever moves items from one end to the other (a byte stream with a buffer
behind it, a queue of tasks, a log) is described by three lists: what was
offered to it, what it has delivered, what it still holds.  It is `Lossless`
when the second followed by the third is the first: nothing is lost, doubled or
overtaken.

Two moves are enough.  `accept xs kept` takes the offer `xs` and stores `kept`
in its place; `deliver n` moves the first `n` held items to the delivered end.
Delivering never changes losslessness (`lossless_deliver`), and an offer keeps
it exactly when it is stored whole (`lossless_accept`).  A conduit that stores
less than it was offered is `Short`, and no later move repairs that
(`Short.accept`, `Short.deliver`).  So along a run, what is lossless at the end
lost nothing on the way (`exec_lossless_iff`).
-/
import WebServer.Lib.Machine

/-- The account of a conduit. -/
structure Ledger (α : Type*) where
  offered : List α
  delivered : List α
  held : List α

namespace Ledger

variable {α : Type*} {l : Ledger α} {xs kept : List α} {n : Nat}

/-- Everything offered is either out, in order, or still inside, in order. -/
def Lossless (l : Ledger α) : Prop := l.delivered ++ l.held = l.offered

/-- Something that was offered is neither out nor inside. -/
def Short (l : Ledger α) : Prop := l.delivered.length + l.held.length < l.offered.length

/-- Take the offer `xs`, storing `kept`. -/
def accept (l : Ledger α) (xs kept : List α) : Ledger α :=
  { l with offered := l.offered ++ xs, held := l.held ++ kept }

/-- Move the first `n` held items out. -/
def deliver (l : Ledger α) (n : Nat) : Ledger α :=
  { l with delivered := l.delivered ++ l.held.take n, held := l.held.drop n }

theorem lossless_deliver : (l.deliver n).Lossless ↔ l.Lossless := by
  simp [Lossless, deliver, List.append_assoc]

theorem lossless_accept (h : l.Lossless) : (l.accept xs kept).Lossless ↔ kept = xs := by
  have hl : l.delivered ++ l.held = l.offered := h
  simp only [Lossless, accept]
  rw [← List.append_assoc, hl, List.append_cancel_left_eq]

theorem Lossless.not_short (h : l.Lossless) : ¬ l.Short := by
  intro hs
  have hlen := congrArg List.length h
  simp only [List.length_append] at hlen
  simp only [Short] at hs
  omega

theorem Short.deliver (h : l.Short) (n : Nat) : (l.deliver n).Short := by
  simp only [Short, Ledger.deliver, List.length_append, List.length_take, List.length_drop] at h ⊢
  omega

theorem Short.accept (h : l.Short) (hk : kept.length ≤ xs.length) : (l.accept xs kept).Short := by
  simp only [Short, Ledger.accept, List.length_append] at h ⊢
  omega

theorem Lossless.short_accept (h : l.Lossless) (hk : kept.length < xs.length) :
    (l.accept xs kept).Short := by
  have hlen := congrArg List.length h
  simp only [List.length_append] at hlen
  simp only [Short, Ledger.accept, List.length_append]
  omega

/-! ## The account of a run -/

section Run

variable {σ β : Type*} {step : σ → β → Option σ} {C : σ → β → Prop} {ledger : σ → Ledger α}

theorem exec_short (hshort : ∀ s a t, step s a = some t → (ledger s).Short → (ledger t).Short) :
    ∀ {as : List β} {s u : σ}, (ledger s).Short → Machine.exec step s as = some u →
      (ledger u).Short := by
  intro as s u hs hu
  exact Machine.exec_invariant (fun s a t h _ ha => hshort s a t ha h)
    (Machine.meets_true s as) hs hu

/-- Where allowed steps keep the account lossless, other steps make it short,
and no step makes a short one good again, a run ends lossless exactly when all
of its steps are allowed. -/
theorem exec_lossless_iff
    (hkeep : ∀ s a t, step s a = some t → (ledger s).Lossless → C s a → (ledger t).Lossless)
    (hlose : ∀ s a t, step s a = some t → (ledger s).Lossless → ¬ C s a → (ledger t).Short)
    (hshort : ∀ s a t, step s a = some t → (ledger s).Short → (ledger t).Short) :
    ∀ {as : List β} {s u : σ}, (ledger s).Lossless → Machine.exec step s as = some u →
      ((ledger u).Lossless ↔ Machine.Meets step C s as) := by
  intro as
  induction as with
  | nil => intro s u hs hu; cases hu; exact ⟨fun _ => trivial, fun _ => hs⟩
  | cons a as ih =>
      intro s u hs hu
      obtain ⟨t, ha, hu⟩ := Machine.exec_cons.mp hu
      have hone : ∀ t', step s a = some t' → t' = t := fun t' h' => by
        rw [ha] at h'; exact (Option.some.inj h').symm
      by_cases hC : C s a
      · have hrest := ih (hkeep s a t ha hs hC) hu
        constructor
        · intro h
          exact ⟨hC, fun t' ht' => hone t' ht' ▸ hrest.mp h⟩
        · intro h
          exact hrest.mpr (h.2 t ha)
      · constructor
        · intro h
          exact absurd (exec_short hshort (hlose s a t ha hs hC) hu) h.not_short
        · intro h
          exact absurd h.1 hC

end Run

end Ledger

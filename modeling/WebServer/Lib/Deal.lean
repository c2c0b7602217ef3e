/-
# `Lib.Deal` — dealing a sequence out in turn

`share n i xs` is what the `i`-th of `n` hands gets when the items of `xs` are dealt
one to each in turn: those at the positions `i`, `i + n`, `i + 2 * n`, and so on, in
order.  Whoever deals item by item has only to know the number dealt so far
(`share_concat`).  The hands have all of the sequence between them (`perm_shares`),
and the first `xs.length % n` of them have one item more than the others
(`length_share`).
-/
import Mathlib.Data.Int.CardIntervalMod
import Mathlib.Data.List.Perm.Basic

namespace Deal

variable {α : Type*} {n i : Nat} {xs : List α}

/-- The items at the positions that are `i` modulo `n`. -/
def share (n i : Nat) (xs : List α) : List α :=
  (xs.zipIdx.filter fun p => p.2 % n = i).map Prod.fst

@[simp] theorem share_nil : share n i ([] : List α) = [] := rfl

/-- The next item goes to the hand that its number says. -/
theorem share_concat (n i : Nat) (xs : List α) (x : α) :
    share n i (xs ++ [x]) = share n i xs ++ if xs.length % n = i then [x] else [] := by
  rw [share, List.zipIdx_append, List.filter_append, List.map_append, Nat.zero_add]
  congr 1
  by_cases hi : xs.length % n = i
  · rw [if_pos hi]
    simp [hi]
  · rw [if_neg hi]
    simp [hi]

theorem length_share_count (hi : i < n) (xs : List α) :
    (share n i xs).length = xs.length.count (· ≡ i [MOD n]) := by
  induction xs using List.reverseRecOn with
  | nil => rfl
  | append_singleton xs x ih =>
      have hturn : xs.length % n = i ↔ xs.length ≡ i [MOD n] := by
        rw [Nat.ModEq, Nat.mod_eq_of_lt hi]
      rw [share_concat, List.length_append, ih, List.length_append, List.length_singleton,
        Nat.count_succ]
      simp only [hturn]
      split <;> rfl

/-- The hands before `xs.length % n` have one item more. -/
theorem length_share (hi : i < n) (xs : List α) :
    (share n i xs).length = xs.length / n + if i < xs.length % n then 1 else 0 := by
  rw [length_share_count hi, Nat.count_modEq_card _ (Nat.zero_lt_of_lt hi), Nat.mod_eq_of_lt hi]

/-- One hand gets the item. -/
theorem flatMap_turn {is : List Nat} (x : α) : (is.flatMap fun j => if i = j then [x] else []) =
    List.replicate (is.count i) x := by
  induction is with
  | nil => rfl
  | cons j is ih =>
      rw [List.flatMap_cons, ih]
      by_cases hij : i = j
      · rw [if_pos hij, hij, List.count_cons_self]
        rfl
      · rw [if_neg hij, List.count_cons_of_ne (Ne.symm hij)]
        rfl

/-- All that is dealt is in some hand, once. -/
theorem perm_shares (hn : 0 < n) (xs : List α) :
    ((List.range n).flatMap fun i => share n i xs).Perm xs := by
  induction xs using List.reverseRecOn with
  | nil => simp
  | append_singleton xs x ih =>
      have hone : (List.range n).count (xs.length % n) = 1 :=
        List.count_eq_one_of_mem List.nodup_range (List.mem_range.mpr (Nat.mod_lt _ hn))
      simp only [share_concat]
      refine (List.flatMap_append_perm _ _ _).symm.trans ?_
      rw [flatMap_turn, hone]
      exact ih.append_right [x]

end Deal

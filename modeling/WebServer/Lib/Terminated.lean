/-
# `Lib.Terminated` — records that end with the same item

A record has `n` separators in it and one more at its end, so a sequence of records can
be taken apart again after every `n + 1` separators (`split_flatten`): with `n = 0` they
are lines.  What is behind the last record, if it has none of its own, is a record that
has not ended.
-/
import Mathlib.Data.List.Basic

namespace Terminated

variable {α : Type*} [DecidableEq α] {sep : α} {n : Nat}

/-- The record ends with its separator number `n + 1`. -/
def Ends (sep : α) (n : Nat) (record : List α) : Prop :=
  ∃ body, record = body ++ [sep] ∧ body.count sep = n

/-- Cut the items after every `n + 1` separators; `left` of them are still to come before
the one that ends the record `sofar`. -/
def splitFrom (sep : α) (n : Nat) : Nat → List α → List α → List (List α)
  | _, sofar, [] => if sofar = [] then [] else [sofar]
  | left, sofar, x :: xs =>
      if x = sep then
        if left = 0 then (sofar ++ [x]) :: splitFrom sep n n [] xs
        else splitFrom sep n (left - 1) (sofar ++ [x]) xs
      else splitFrom sep n left (sofar ++ [x]) xs

def split (sep : α) (n : Nat) (xs : List α) : List (List α) := splitFrom sep n n [] xs

theorem splitFrom_body (rest : List α) {body : List α} : ∀ (sofar : List α),
    splitFrom sep n (body.count sep) sofar (body ++ sep :: rest) =
      (sofar ++ body ++ [sep]) :: split sep n rest := by
  induction body with
  | nil =>
      intro sofar
      rw [List.nil_append, splitFrom, if_pos rfl, if_pos List.count_nil, List.append_nil]
      rfl
  | cons x body ih =>
      intro sofar
      rw [List.cons_append, splitFrom]
      by_cases hx : x = sep
      · rw [if_pos hx, hx, List.count_cons_self, if_neg (Nat.succ_ne_zero _), Nat.add_sub_cancel,
          ih, List.append_assoc sofar, List.singleton_append]
      · rw [if_neg hx, List.count_cons_of_ne hx, ih, List.append_assoc sofar, List.singleton_append]

theorem split_cons {record : List α} (h : Ends sep n record) (rest : List α) :
    split sep n (record ++ rest) = record :: split sep n rest := by
  obtain ⟨body, rfl, hbody⟩ := h
  subst hbody
  rw [List.append_assoc, List.singleton_append, split, splitFrom_body, List.nil_append]

/-- A sequence of records is taken apart into the records. -/
theorem split_flatten {records : List (List α)} (h : ∀ record ∈ records, Ends sep n record) :
    split sep n records.flatten = records := by
  induction records with
  | nil => rfl
  | cons record records ih =>
      obtain ⟨hrecord, hrest⟩ := List.forall_mem_cons.mp h
      rw [List.flatten_cons, split_cons hrecord, ih hrest]

end Terminated

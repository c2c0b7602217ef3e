/-
# `Lib.OrderedSet` — a `std::set` as the list of its elements in order

`insert` leaves a set that has the element already as it is.  `erase` is
`List.erase`, `find` is membership, and the range from `begin` to
`lower_bound(x)` is the longest prefix of elements less than `x`.
-/
import Mathlib.Data.List.Sort

namespace OrderedSet

variable {α : Type*} [LinearOrder α]

/-- `insert(x)`. -/
def insert (x : α) (s : List α) : List α :=
  if x ∈ s then s else s.orderedInsert (· ≤ ·) x

/-- The elements before `lower_bound(x)`. -/
def below (x : α) (s : List α) : List α := s.takeWhile (· < x)

/-- The elements from `lower_bound(x)` on. -/
def rest (x : α) (s : List α) : List α := s.dropWhile (· < x)

theorem insert_perm {x : α} {s : List α} (h : x ∉ s) : (insert x s).Perm (x :: s) := by
  rw [insert, if_neg h]
  exact List.perm_orderedInsert (· ≤ ·) x s

theorem mem_insert {x y : α} {s : List α} : y ∈ insert x s ↔ y = x ∨ y ∈ s := by
  by_cases h : x ∈ s
  · rw [insert, if_pos h]
    exact ⟨Or.inr, fun hy => hy.elim (fun e => e ▸ h) id⟩
  · rw [(insert_perm h).mem_iff, List.mem_cons]

theorem pairwise_insert {s : List α} (h : s.Pairwise (· ≤ ·)) (x : α) :
    (insert x s).Pairwise (· ≤ ·) := by
  rw [insert]
  split
  · exact h
  · exact List.Pairwise.orderedInsert x s h

theorem pairwise_rest {s : List α} (h : s.Pairwise (· ≤ ·)) (x : α) :
    (rest x s).Pairwise (· ≤ ·) :=
  h.sublist (List.dropWhile_sublist _)

theorem le_of_mem_rest {x y : α} {s : List α} (h : s.Pairwise (· ≤ ·)) (hy : y ∈ rest x s) :
    x ≤ y := by
  induction s with
  | nil => exact absurd hy List.not_mem_nil
  | cons z s ih =>
      rw [List.pairwise_cons] at h
      rw [rest, List.dropWhile_cons] at hy
      split at hy
      · exact ih h.2 hy
      · rename_i hxz
        have hxz : x ≤ z := by simpa using hxz
        rcases List.mem_cons.mp hy with rfl | hy
        · exact hxz
        · exact hxz.trans (h.1 y hy)

theorem below_append_rest (x : α) (s : List α) : below x s ++ rest x s = s :=
  List.takeWhile_append_dropWhile

/-! ## Splitting as filtering -/

section

variable {β : Type*} {p : β → Bool} {l : List β}

/-- On a list where the property fails for all that follows a failure, stopping
at the first failure is filtering. -/
theorem takeWhile_eq_filter (h : l.Pairwise fun x y => p y = true → p x = true) :
    l.takeWhile p = l.filter p := by
  induction l with
  | nil => rfl
  | cons a l ih =>
      obtain ⟨ha, hl⟩ := List.pairwise_cons.mp h
      by_cases hp : p a = true
      · rw [List.takeWhile_cons_of_pos hp, List.filter_cons_of_pos hp, ih hl]
      · rw [List.takeWhile_cons_of_neg hp, List.filter_cons_of_neg hp]
        refine (List.filter_eq_nil_iff.mpr ?_).symm
        intro b hb hpb
        exact hp (ha b hb hpb)

theorem dropWhile_eq_filter (h : l.Pairwise fun x y => p y = true → p x = true) :
    l.dropWhile p = l.filter fun x => !p x := by
  induction l with
  | nil => rfl
  | cons a l ih =>
      obtain ⟨ha, hl⟩ := List.pairwise_cons.mp h
      by_cases hp : p a = true
      · rw [List.dropWhile_cons_of_pos hp, List.filter_cons_of_neg (by rw [hp]; decide), ih hl]
      · rw [List.dropWhile_cons_of_neg hp]
        refine (List.filter_eq_self.mpr ?_).symm
        intro b hb
        rw [Bool.not_eq_true', ← Bool.not_eq_true]
        rcases List.mem_cons.mp hb with rfl | hb
        · exact hp
        · exact fun hpb => hp (ha b hb hpb)

end

theorem decreasing_lt {s : List α} (h : s.Pairwise (· ≤ ·)) (x : α) :
    s.Pairwise fun y z => decide (z < x) = true → decide (y < x) = true := by
  refine h.imp fun hyz hz => ?_
  rw [decide_eq_true_eq] at hz ⊢
  exact hyz.trans_lt hz

theorem below_eq_filter {s : List α} (h : s.Pairwise (· ≤ ·)) (x : α) :
    below x s = s.filter (· < x) := takeWhile_eq_filter (decreasing_lt h x)

theorem rest_eq_filter {s : List α} (h : s.Pairwise (· ≤ ·)) (x : α) :
    rest x s = s.filter fun y => !decide (y < x) := dropWhile_eq_filter (decreasing_lt h x)

/-- No element is in the list twice. -/
theorem strict_insert {s : List α} (h : s.Pairwise (· < ·)) (x : α) :
    (insert x s).Pairwise (· < ·) := by
  have hle := pairwise_insert (h.imp le_of_lt) x
  have hnodup : (insert x s).Nodup := by
    by_cases hx : x ∈ s
    · rw [insert, if_pos hx]
      exact h.imp ne_of_lt
    · rw [(insert_perm hx).nodup_iff, List.nodup_cons]
      exact ⟨hx, h.imp ne_of_lt⟩
  exact (hle.and hnodup).imp fun hxy => lt_of_le_of_ne hxy.1 hxy.2

end OrderedSet

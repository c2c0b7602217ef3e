/-
# `Lib.Decimal` — decimal numerals

`read` is the number that a string of bytes reads as in base 10, if it reads as one at
all.  Many strings read as the same number (`-0`, `007`); `Numeral` singles out the one
that is written without leading zeros, and with a minus sign exactly when the number is
negative.  There is one such string for every number: `decimal` (`numeral_iff`).

The digits are those of `Nat.digits`, from the last to the first.
-/
import WebServer.Lib.Memory
import Mathlib.Data.Nat.Digits.Lemmas

namespace Decimal

/-! ## Reading -/

def minus : UInt8 := 45

/-- The character of a digit. -/
def char (d : Nat) : UInt8 := UInt8.ofNat (48 + d)

/-- The digit of a character. -/
def digit (c : UInt8) : Option Nat := if 48 ≤ c ∧ c ≤ 57 then some (c.toNat - 48) else none

/-- One digit or more. -/
def readNat (s : Bytes) : Option Nat :=
  if s = [] then none else (s.reverse.mapM digit).map (Nat.ofDigits 10)

/-- The digits may follow a minus sign. -/
def read (s : Bytes) : Option Int :=
  if s.head? = some minus then (readNat s.tail).map fun n : Nat => -(n : Int)
  else (readNat s).map fun n : Nat => (n : Int)

/-- The string is the number as it is written. -/
structure Numeral (v : Int) (s : Bytes) : Prop where
  reads : read s = some v
  sign : s.head? = some minus ↔ v < 0
  /-- A zero that comes first is all there is. -/
  plain : ∀ t, s = char 0 :: t ∨ s = minus :: char 0 :: t → t = []

/-! ## Writing -/

/-- The digits of a number, the last one first. -/
def digits (n : Nat) : Bytes := if n = 0 then [char 0] else (Nat.digits 10 n).map char

def decimal (v : Int) : Bytes := (if v < 0 then [minus] else []) ++ (digits v.natAbs).reverse

theorem digit_char : ∀ d < 10, digit (char d) = some d := by decide

theorem char_digit {c : UInt8} {d : Nat} (h : digit c = some d) : d < 10 ∧ c = char d := by
  obtain ⟨⟨hlow, hhigh⟩, h⟩ := Option.ite_none_right_eq_some.mp h
  have hlow : 48 ≤ c.toNat := hlow
  have hhigh : c.toNat ≤ 57 := hhigh
  obtain rfl := Option.some.inj h
  refine ⟨by omega, ?_⟩
  rw [char, Nat.add_sub_cancel' hlow, UInt8.ofNat_toNat]

theorem char_ne_minus : ∀ d < 10, char d ≠ minus := by decide

theorem char_eq_zero : ∀ d < 10, char d = char 0 → d = 0 := by decide

theorem mapM_digit {s : Bytes} : ∀ {ds : List Nat},
    s.mapM digit = some ds ↔ (∀ d ∈ ds, d < 10) ∧ s = ds.map char := by
  induction s with
  | nil =>
      intro ds
      rw [List.mapM_nil]
      constructor
      · intro h
        cases h
        exact ⟨List.forall_mem_nil _, rfl⟩
      · rintro ⟨-, h⟩
        rw [List.map_eq_nil_iff.mp h.symm]
        rfl
  | cons c s ih =>
      intro ds
      simp only [List.mapM_cons, Option.bind_eq_bind, Option.bind_eq_some_iff, ih]
      constructor
      · rintro ⟨d, hd, ds', ⟨hlt, rfl⟩, h⟩
        cases h
        obtain ⟨hten, rfl⟩ := char_digit hd
        exact ⟨List.forall_mem_cons.mpr ⟨hten, hlt⟩, rfl⟩
      · rintro ⟨hlt, h⟩
        cases ds with
        | nil => cases h
        | cons d ds =>
            obtain ⟨rfl, rfl⟩ := List.cons.inj h
            obtain ⟨hd, hlt⟩ := List.forall_mem_cons.mp hlt
            exact ⟨d, digit_char d hd, ds, ⟨hlt, rfl⟩, rfl⟩

theorem readNat_iff {s : Bytes} {n : Nat} : readNat s = some n ↔
    ∃ ds : List Nat, ds ≠ [] ∧ (∀ d ∈ ds, d < 10) ∧ s = (ds.map char).reverse ∧
      Nat.ofDigits 10 ds = n := by
  constructor
  · intro h
    obtain ⟨hne, h⟩ := Option.ite_none_left_eq_some.mp h
    obtain ⟨ds, hds, hn⟩ := Option.map_eq_some_iff.mp h
    obtain ⟨hlt, hs⟩ := mapM_digit.mp hds
    refine ⟨ds, ?_, hlt, ?_, hn⟩
    · rintro rfl
      exact hne (List.reverse_eq_nil_iff.mp hs)
    · rw [← hs, List.reverse_reverse]
  · rintro ⟨ds, hne, hlt, rfl, hn⟩
    have hs : (ds.map char).reverse ≠ [] := by
      rwa [Ne, List.reverse_eq_nil_iff, List.map_eq_nil_iff]
    rw [readNat, if_neg hs, List.reverse_reverse, mapM_digit.mpr ⟨hlt, rfl⟩, Option.map_some, hn]

/-! ## Natural numbers -/

theorem digits_of_lt {n : Nat} (h : n < 10) : digits n = [char n] := by
  by_cases hn : n = 0
  · rw [digits, if_pos hn, hn]
  · rw [digits, if_neg hn, Nat.digits_of_lt 10 n hn h, List.map_singleton]

theorem digits_of_le {n : Nat} (h : 10 ≤ n) : digits n = char (n % 10) :: digits (n / 10) := by
  have hrest : n / 10 ≠ 0 := by omega
  rw [digits, if_neg (by omega), Nat.digits_def' (by decide) (by omega), List.map_cons, digits,
    if_neg hrest]

theorem mem_digits {n : Nat} {c : UInt8} (h : c ∈ digits n) : ∃ d < 10, c = char d := by
  unfold digits at h
  split at h
  · exact ⟨0, by decide, List.mem_singleton.mp h⟩
  · obtain ⟨d, hd, rfl⟩ := List.mem_map.mp h
    exact ⟨d, Nat.digits_lt_base (by decide) hd, rfl⟩

theorem readNat_digits (n : Nat) : readNat (digits n).reverse = some n := by
  refine readNat_iff.mpr ?_
  by_cases hn : n = 0
  · subst hn
    exact ⟨[0], List.cons_ne_nil _ _, by decide, rfl, rfl⟩
  · refine ⟨Nat.digits 10 n, Nat.digits_ne_nil_iff_ne_zero.mpr hn,
      fun d hd => Nat.digits_lt_base (by decide) hd, ?_, Nat.ofDigits_digits 10 n⟩
    rw [digits, if_neg hn]

/-- The last of the digits, which is written first, is a zero only in `0`. -/
theorem digits_plain (n : Nat) {t : Bytes} (h : (digits n).reverse = char 0 :: t) : t = [] := by
  unfold digits at h
  split at h
  · exact (List.cons.inj h).2.symm
  · rename_i hn
    have hdigits : (Nat.digits 10 n).map char = t.reverse ++ [char 0] := by
      rw [← List.reverse_cons, ← h, List.reverse_reverse]
    obtain ⟨init, last, hsplit, -, hlast⟩ := List.map_eq_append_iff.mp hdigits
    obtain ⟨d, rfl, hd⟩ := List.map_eq_singleton_iff.mp hlast
    have hten : d < 10 := Nat.digits_lt_base (by decide) (hsplit ▸ List.mem_concat_self)
    have hne := Nat.getLast_digit_ne_zero 10 hn
    simp only [hsplit, List.getLast_concat] at hne
    exact absurd (char_eq_zero d hten hd) hne

theorem eq_digits {s : Bytes} {n : Nat} (hread : readNat s = some n)
    (hplain : ∀ t, s = char 0 :: t → t = []) : s = (digits n).reverse := by
  obtain ⟨ds, hne, hlt, rfl, hn⟩ := readNat_iff.mp hread
  by_cases hlast : ds.getLast hne = 0
  · -- a zero comes first, so it is all there is
    have hds : ds = ds.dropLast ++ [0] := by
      rw [← hlast, List.dropLast_concat_getLast]
    have hnil := hplain (ds.dropLast.map char).reverse (by
      conv_lhs => rw [hds]
      rw [List.map_append, List.map_singleton, List.reverse_append]
      rfl)
    rw [List.reverse_eq_nil_iff, List.map_eq_nil_iff] at hnil
    rw [hnil, List.nil_append] at hds
    subst hds
    rw [← hn]
    rfl
  · have hdigits : Nat.digits 10 n = ds := by
      rw [← hn]
      exact Nat.digits_ofDigits 10 (by decide) ds hlt fun _ => hlast
    have hzero : n ≠ 0 := Nat.digits_ne_nil_iff_ne_zero.mp (hdigits ▸ hne)
    rw [digits, if_neg hzero, hdigits]

/-! ## Integers -/

theorem head_digits (n : Nat) : (digits n).reverse.head? ≠ some minus := by
  intro h
  obtain ⟨d, hd, hminus⟩ := mem_digits (List.mem_reverse.mp (List.mem_of_head? h))
  exact char_ne_minus d hd hminus.symm

/-- Every number is written in exactly one way. -/
theorem numeral_iff {v : Int} {s : Bytes} : Numeral v s ↔ s = decimal v := by
  unfold decimal
  constructor
  · rintro ⟨hread, hsign, hplain⟩
    unfold read at hread
    by_cases hneg : v < 0
    · obtain ⟨t, rfl⟩ := List.head?_eq_some_iff.mp (hsign.mpr hneg)
      rw [if_pos (hsign.mpr hneg)] at hread
      obtain ⟨n, hn, rfl⟩ := Option.map_eq_some_iff.mp hread
      rw [if_pos hneg, Int.natAbs_neg, Int.natAbs_natCast]
      refine congrArg (minus :: ·) (eq_digits hn fun u hu => ?_)
      exact hplain u (Or.inr (congrArg (minus :: ·) hu))
    · rw [if_neg fun h => hneg (hsign.mp h)] at hread
      obtain ⟨n, hn, rfl⟩ := Option.map_eq_some_iff.mp hread
      rw [if_neg hneg, Int.natAbs_natCast]
      exact eq_digits hn fun u hu => hplain u (Or.inl hu)
  · rintro rfl
    have hread := readNat_digits v.natAbs
    have hhead := head_digits v.natAbs
    by_cases hneg : v < 0
    · rw [if_pos hneg]
      refine ⟨?_, iff_of_true rfl hneg, ?_⟩
      · show (readNat (digits v.natAbs).reverse).map _ = _
        rw [hread, Option.map_some]
        exact congrArg some (by omega)
      · rintro t (h | h)
        · exact absurd (List.cons.inj h).1 (by decide)
        · exact digits_plain _ (List.cons.inj h).2
    · rw [if_neg hneg, List.nil_append]
      refine ⟨?_, iff_of_false hhead hneg, ?_⟩
      · rw [read, if_neg hhead, hread, Option.map_some]
        exact congrArg some (by omega)
      · rintro t (h | h)
        · exact digits_plain _ h
        · rw [h] at hhead
          exact absurd rfl hhead

theorem decimal_natCast (n : Nat) : decimal n = (digits n).reverse := by
  rw [decimal, if_neg (Int.not_lt.mpr (Int.natCast_nonneg n)), Int.natAbs_natCast,
    List.nil_append]

theorem decimal_inj {v u : Int} (h : decimal v = decimal u) : v = u := by
  have hread := congrArg read h
  rw [(numeral_iff.mpr rfl).reads, (numeral_iff.mpr rfl).reads] at hread
  exact Option.some.inj hread

/-- What is neither a minus sign nor a digit is in no numeral. -/
theorem not_mem_decimal {c : UInt8} {v : Int} (hminus : minus ≠ c)
    (hdigit : ∀ d < 10, char d ≠ c) : c ∉ decimal v := by
  unfold decimal
  intro h
  rcases List.mem_append.mp h with h | h
  · split at h
    · exact hminus (List.mem_singleton.mp h).symm
    · exact absurd h List.not_mem_nil
  · obtain ⟨d, hd, rfl⟩ := mem_digits (List.mem_reverse.mp h)
    exact hdigit d hd rfl

end Decimal

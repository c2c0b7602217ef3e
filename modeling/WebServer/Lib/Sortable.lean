/-
# `Lib.Sortable` — texts that sort as the numbers they stand for

`Sorts N w text`: the texts of the numbers below `N` are all `w` bytes long, and are in
the order of the numbers when they are compared byte by byte from the left, as file
names are and lines of a log.  A numeral that is padded with zeros to a fixed width
sorts (`sorts_padded`).  A number that is taken apart into a leading part and the rest
(`Splits`), such as a second into its day and the time of the day, is sorted by the text
of the leading part followed by that of the rest (`Sorts.join`); and the numeral is
itself such a text, a digit at a time.

A part can be a quotient or a remainder (`splits_div`), or the last of a growing
sequence of starts that is not beyond the number (`splits_locate`).

Numerals with a sign (`zeroed`) do not sort, but each reads as its number alone.
-/
import WebServer.Lib.Decimal
import Mathlib.Data.Nat.Find

namespace Sortable

/-! ## Bytes compared from the left -/

theorem append_lt_append {a b : Bytes} (h : a < b) : a.length = b.length →
    ∀ x y : Bytes, a ++ x < b ++ y := by
  induction a generalizing b with
  | nil =>
      intro hlen
      rw [List.eq_nil_of_length_eq_zero hlen.symm] at h
      exact absurd h (List.lt_irrefl [])
  | cons c a ih =>
      intro hlen x y
      cases b with
      | nil => cases hlen
      | cons d b =>
          rw [List.cons_append, List.cons_append, List.cons_lt_cons_iff]
          rcases List.cons_lt_cons_iff.mp h with hcd | ⟨hcd, hab⟩
          · exact Or.inl hcd
          · exact Or.inr ⟨hcd, ih hab (Nat.succ.inj hlen) x y⟩

theorem append_left_lt (a : Bytes) {x y : Bytes} (h : x < y) : a ++ x < a ++ y := by
  induction a with
  | nil => exact h
  | cons c a ih => exact List.cons_lt_cons_iff.mpr (Or.inr ⟨rfl, ih⟩)

/-! ## Texts of numbers -/

structure Sorts (N w : Nat) (text : Nat → Bytes) : Prop where
  length : ∀ n < N, (text n).length = w
  lt : ∀ n < N, ∀ m < n, text m < text n

/-- A number as a leading part and a rest. -/
def Splits (N : Nat) (lead rest : Nat → Nat) : Prop :=
  ∀ n < N, ∀ m < n, lead m < lead n ∨ (lead m = lead n ∧ rest m < rest n)

variable {N M K w v : Nat} {text more : Nat → Bytes} {lead rest : Nat → Nat}

theorem Sorts.mono (h : Sorts N w text) (hle : M ≤ N) : Sorts M w text where
  length := fun n hn => h.length n (Nat.lt_of_lt_of_le hn hle)
  lt := fun n hn => h.lt n (Nat.lt_of_lt_of_le hn hle)

theorem Sorts.congr {other : Nat → Bytes} (h : Sorts N w text)
    (hsame : ∀ n < N, other n = text n) : Sorts N w other where
  length := fun n hn => by rw [hsame n hn]; exact h.length n hn
  lt := fun n hn m hm => by
    rw [hsame n hn, hsame m (Nat.lt_trans hm hn)]
    exact h.lt n hn m hm

theorem Sorts.lt_iff (h : Sorts N w text) {m n : Nat} (hm : m < N) (hn : n < N) :
    text m < text n ↔ m < n := by
  constructor
  · intro hlt
    refine Nat.lt_of_not_le fun hle => ?_
    rcases Nat.lt_or_eq_of_le hle with hnm | rfl
    · exact List.lt_irrefl _ (List.lt_trans hlt (h.lt m hm n hnm))
    · exact List.lt_irrefl _ hlt
  · exact fun hmn => h.lt n hn m hmn

theorem Sorts.inj (h : Sorts N w text) {m n : Nat} (hm : m < N) (hn : n < N)
    (heq : text m = text n) : m = n := by
  rcases Nat.lt_trichotomy m n with hlt | rfl | hlt
  · exact absurd (h.lt n hn m hlt) (heq ▸ List.lt_irrefl _)
  · rfl
  · exact absurd (h.lt m hm n hlt) (heq ▸ List.lt_irrefl _)

/-- The same texts, of numbers counted from `k`. -/
theorem Sorts.shift {k : Nat} (h : Sorts (k + N) w text) : Sorts N w fun n => text (k + n) where
  length := fun n hn => h.length (k + n) (Nat.add_lt_add_left hn k)
  lt := fun n hn m hm => h.lt (k + n) (Nat.add_lt_add_left hn k) (k + m) (Nat.add_lt_add_left hm k)

/-- The text of the leading part, and that of the rest, which may depend on it. -/
theorem Sorts.join (rests : Nat → Nat) {mores : Nat → Nat → Bytes} (hs : Splits N lead rest)
    (h : Sorts K w text) (hmore : ∀ k < K, Sorts (rests k) v (mores k))
    (hlead : ∀ n < N, lead n < K) (hrest : ∀ n < N, rest n < rests (lead n)) :
    Sorts N (w + v) fun n => text (lead n) ++ mores (lead n) (rest n) where
  length := fun n hn => by
    rw [List.length_append, h.length _ (hlead n hn),
      (hmore _ (hlead n hn)).length _ (hrest n hn)]
  lt := fun n hn m hm => by
    have hm' := Nat.lt_trans hm hn
    rcases hs n hn m hm with hlt | ⟨heq, hlt⟩
    · refine append_lt_append (h.lt _ (hlead n hn) _ hlt) ?_ _ _
      rw [h.length _ (hlead n hn), h.length _ (hlead m hm')]
    · rw [heq]
      exact append_left_lt _ ((hmore _ (hlead n hn)).lt _ (hrest n hn) _ hlt)

/-- A text before it, which is always the same. -/
theorem Sorts.after (h : Sorts N w text) (fixed : Bytes) :
    Sorts N (fixed.length + w) fun n => fixed ++ text n where
  length := fun n hn => by rw [List.length_append, h.length n hn]
  lt := fun n hn m hm => append_left_lt fixed (h.lt n hn m hm)

/-- A text behind it, whatever that is. -/
theorem Sorts.before_lt (h : Sorts N w text) {m n : Nat} (hn : n < N) (hm : m < n) (x y : Bytes) :
    text m ++ x < text n ++ y :=
  append_lt_append (h.lt n hn m hm)
    ((h.length m (Nat.lt_trans hm hn)).trans (h.length n hn).symm) x y

theorem Sorts.before (h : Sorts N w text) (fixed : Bytes) :
    Sorts N (w + fixed.length) fun n => text n ++ fixed where
  length := fun n hn => by rw [List.length_append, h.length n hn]
  lt := fun _ hn _ hm => h.before_lt hn hm fixed fixed

/-! ## Ways to take a number apart -/

theorem splits_div {b : Nat} (N : Nat) : Splits N (· / b) (· % b) := by
  intro n _ m hm
  have hle : m / b ≤ n / b := Nat.div_le_div_right (Nat.le_of_lt hm)
  rcases Nat.lt_or_eq_of_le hle with hlt | heq
  · exact Or.inl hlt
  · refine Or.inr ⟨heq, ?_⟩
    have hm' := Nat.div_add_mod m b
    have hn' := Nat.div_add_mod n b
    dsimp only at heq ⊢
    rw [heq] at hm'
    omega

/-- The last start that is not beyond `n`, of the first `b + 1`. -/
def locate (start : Nat → Nat) (b n : Nat) : Nat := Nat.findGreatest (fun i => start i ≤ n) b

section Locate

variable {start : Nat → Nat} {b n : Nat}

theorem locate_le : locate start b n ≤ b := Nat.findGreatest_le b

theorem start_locate (h : start 0 ≤ n) : start (locate start b n) ≤ n :=
  Nat.findGreatest_spec (P := fun i => start i ≤ n) (Nat.zero_le b) h

theorem lt_start_locate (h : n < start (b + 1)) : n < start (locate start b n + 1) := by
  rcases Nat.lt_or_eq_of_le (@locate_le start b n) with hlt | heq
  · exact Nat.not_le.mp
      (Nat.findGreatest_is_greatest (P := fun i => start i ≤ n) (Nat.lt_succ_self _) hlt)
  · rw [heq]
    exact h

end Locate

/-- What is located, and how far the number is from its start; `bound` may depend on the
number. -/
theorem splits_locate {start : Nat → Nat} (bound : Nat → Nat) (hmono : StrictMono start)
    (hzero : start 0 = 0) (hbound : ∀ n < N, n < start (bound n + 1)) :
    Splits N (fun n => locate start (bound n) n)
      fun n => n - start (locate start (bound n) n) := by
  intro n hn m hm
  dsimp only
  have hlm : start (locate start (bound m) m) ≤ m := start_locate (by omega)
  have hln : n < start (locate start (bound n) n + 1) := lt_start_locate (hbound n hn)
  have hle : locate start (bound m) m ≤ locate start (bound n) n := by
    refine Nat.lt_succ_iff.mp (hmono.lt_iff_lt.mp ?_)
    exact Nat.lt_of_le_of_lt hlm (Nat.lt_trans hm hln)
  rcases Nat.lt_or_eq_of_le hle with hlt | heq
  · exact Or.inl hlt
  · refine Or.inr ⟨heq, ?_⟩
    rw [heq] at hlm ⊢
    omega

/-! ## Numerals of a fixed width -/

/-- `%0wd`. -/
def padded (w n : Nat) : Bytes :=
  List.replicate (w - (Decimal.digits n).length) (Decimal.char 0) ++ (Decimal.digits n).reverse

/-- The last `w` digits. -/
def fixed : Nat → Nat → Bytes
  | 0, _ => []
  | w + 1, n => fixed w (n / 10) ++ [Decimal.char (n % 10)]

theorem fixed_zero (w : Nat) : fixed w 0 = List.replicate w (Decimal.char 0) := by
  induction w with
  | zero => rfl
  | succ w ih =>
      rw [fixed, Nat.zero_div, ih, List.replicate_succ']

theorem padded_eq_fixed (w : Nat) : ∀ n < 10 ^ (w + 1), padded (w + 1) n = fixed (w + 1) n := by
  induction w with
  | zero =>
      intro n hn
      have hten : n < 10 := hn
      rw [padded, Decimal.digits_of_lt hten, fixed, Nat.mod_eq_of_lt hten]
      rfl
  | succ w ih =>
      intro n hn
      rw [fixed]
      by_cases hten : n < 10
      · rw [padded, Decimal.digits_of_lt hten, Nat.div_eq_of_lt hten, fixed_zero,
          Nat.mod_eq_of_lt hten]
        rfl
      · have hdiv : n / 10 < 10 ^ (w + 1) := by
          rw [Nat.pow_succ] at hn
          exact Nat.div_lt_of_lt_mul (Nat.mul_comm _ 10 ▸ hn)
        rw [← ih _ hdiv, padded, padded, Decimal.digits_of_le (Nat.not_lt.mp hten),
          List.length_cons, Nat.add_sub_add_right, List.reverse_cons, List.append_assoc]

theorem lt_length_digits {w : Nat} : ∀ {n : Nat}, 10 ^ w ≤ n → w < (Decimal.digits n).length := by
  induction w with
  | zero =>
      intro n _
      by_cases hten : n < 10
      · rw [Decimal.digits_of_lt hten]
        exact Nat.zero_lt_one
      · rw [Decimal.digits_of_le (Nat.not_lt.mp hten)]
        exact Nat.zero_lt_succ _
  | succ w ih =>
      intro n hn
      have hone : 1 ≤ 10 ^ w := Nat.one_le_pow _ _ (by decide)
      rw [Nat.pow_succ] at hn
      rw [Decimal.digits_of_le (by omega), List.length_cons]
      exact Nat.succ_lt_succ (ih ((Nat.le_div_iff_mul_le (by decide)).mpr hn))

theorem length_digits_le {w : Nat} : ∀ {n : Nat}, n < 10 ^ (w + 1) →
    (Decimal.digits n).length ≤ w + 1 := by
  induction w with
  | zero =>
      intro n hn
      rw [Decimal.digits_of_lt hn]
      exact Nat.le_refl 1
  | succ w ih =>
      intro n hn
      by_cases hten : n < 10
      · rw [Decimal.digits_of_lt hten]
        exact Nat.succ_le_succ (Nat.zero_le _)
      · rw [Decimal.digits_of_le (Nat.not_lt.mp hten), List.length_cons]
        refine Nat.succ_le_succ (ih ?_)
        rw [Nat.pow_succ] at hn
        exact Nat.div_lt_of_lt_mul (Nat.mul_comm _ 10 ▸ hn)

/-- A numeral that fills its width is not padded. -/
theorem padded_of_le {w n : Nat} (h : 10 ^ w ≤ n) :
    padded (w + 1) n = (Decimal.digits n).reverse := by
  have hlength := lt_length_digits h
  rw [padded, Nat.sub_eq_zero_of_le hlength]
  rfl

theorem sorts_digit : Sorts 10 1 fun d => [Decimal.char d] := by
  refine ⟨fun _ _ => rfl, fun n hn m hm => ?_⟩
  rw [List.cons_lt_cons_iff]
  left
  revert hm m
  revert hn n
  decide

theorem sorts_fixed (w : Nat) : Sorts (10 ^ w) w (fixed w) := by
  induction w with
  | zero =>
      refine ⟨fun _ _ => rfl, fun n hn m hm => ?_⟩
      have hone : n < 1 := hn
      omega
  | succ w ih =>
      have hjoin := Sorts.join (fun _ => 10) (splits_div (b := 10) (10 ^ (w + 1))) ih
        (fun _ _ => sorts_digit)
        (fun n hn => Nat.div_lt_of_lt_mul (by rw [Nat.mul_comm, ← Nat.pow_succ]; exact hn))
        (fun n _ => Nat.mod_lt n (by decide))
      exact hjoin

/-- A numeral padded to a width that it fits in. -/
theorem sorts_padded (w : Nat) : Sorts (10 ^ (w + 1)) (w + 1) (padded (w + 1)) :=
  (sorts_fixed (w + 1)).congr (padded_eq_fixed w)

theorem length_padded {w n : Nat} (hn : n < 10 ^ (w + 1)) : (padded (w + 1) n).length = w + 1 :=
  (sorts_padded w).length n hn

/-! ## Numerals of numbers with a sign -/

/-- `%wd`. -/
def blanked (w : Nat) (v : Int) : Bytes :=
  List.replicate (w - (Decimal.decimal v).length) 32 ++ Decimal.decimal v

/-- `%0wd`, of a number that may be negative. -/
def zeroed (w : Nat) (v : Int) : Bytes :=
  if v < 0 then Decimal.minus :: padded (w - 1) v.natAbs else padded w v.natAbs

theorem zeroed_natCast (w n : Nat) : zeroed w n = padded w n := by
  rw [zeroed, if_neg (Int.not_lt.mpr (Int.natCast_nonneg n)), Int.natAbs_natCast]

/-- A numeral that fills its width has no blanks in front of it. -/
theorem blanked_natCast {w n : Nat} (h : 10 ^ w ≤ n) :
    blanked (w + 1) n = (Decimal.digits n).reverse := by
  have hlength := lt_length_digits h
  rw [blanked, Decimal.decimal_natCast, List.length_reverse, Nat.sub_eq_zero_of_le hlength]
  rfl

/-- Zeros in front of a numeral do not change what it reads as. -/
theorem readNat_padded (w n : Nat) : Decimal.readNat (padded w n) = some n := by
  obtain ⟨ds, hne, hlt, hs, hn⟩ := Decimal.readNat_iff.mp (Decimal.readNat_digits n)
  refine Decimal.readNat_iff.mpr
    ⟨ds ++ List.replicate (w - (Decimal.digits n).length) 0, ?_, ?_, ?_, ?_⟩
  · exact List.append_ne_nil_of_left_ne_nil hne _
  · intro d hd
    rcases List.mem_append.mp hd with hd | hd
    · exact hlt d hd
    · rw [List.eq_of_mem_replicate hd]
      decide
  · rw [padded, hs, List.map_append, List.map_replicate, List.reverse_append,
      List.reverse_replicate]
  · rw [Nat.ofDigits_append_replicate_zero, hn]

theorem mem_padded {w n : Nat} {c : UInt8} (h : c ∈ padded w n) : ∃ d < 10, c = Decimal.char d := by
  rcases List.mem_append.mp h with h | h
  · exact ⟨0, by decide, List.eq_of_mem_replicate h⟩
  · exact Decimal.mem_digits (List.mem_reverse.mp h)

theorem read_zeroed (w : Nat) (v : Int) : Decimal.read (zeroed w v) = some v := by
  unfold zeroed Decimal.read
  split
  · rename_i hneg
    rw [if_pos List.head?_cons, List.tail_cons, readNat_padded, Option.map_some]
    exact congrArg some (by omega)
  · rename_i hpos
    have hhead : (padded w v.natAbs).head? ≠ some Decimal.minus := by
      intro h
      obtain ⟨d, hd, hminus⟩ := mem_padded (List.mem_of_head? h)
      exact Decimal.char_ne_minus d hd hminus.symm
    rw [if_neg hhead, readNat_padded, Option.map_some]
    exact congrArg some (by omega)

theorem zeroed_inj {w : Nat} {v u : Int} (h : zeroed w v = zeroed w u) : v = u := by
  have hread := congrArg Decimal.read h
  rw [read_zeroed, read_zeroed] at hread
  exact Option.some.inj hread

theorem not_mem_zeroed {c : UInt8} {w : Nat} {v : Int} (hminus : Decimal.minus ≠ c)
    (hdigit : ∀ d < 10, Decimal.char d ≠ c) : c ∉ zeroed w v := by
  have hpadded : ∀ k, c ∉ padded k v.natAbs := by
    intro k h
    obtain ⟨d, hd, rfl⟩ := mem_padded h
    exact hdigit d hd rfl
  unfold zeroed
  split
  · rw [List.mem_cons, not_or]
    exact ⟨hminus.symm, hpadded (w - 1)⟩
  · exact hpadded w

theorem length_decimal_le {w : Nat} {v : Int} (h : v.natAbs < 10 ^ (w + 1)) :
    (Decimal.decimal v).length ≤ w + 2 := by
  have hdigits := length_digits_le h
  unfold Decimal.decimal
  rw [List.length_append, List.length_reverse]
  split
  · rw [List.length_singleton]
    omega
  · rw [List.length_nil]
    omega

theorem length_padded_le {w k n : Nat} (h : n < 10 ^ (k + 1)) (hw : w ≤ k + 1) :
    (padded w n).length ≤ k + 1 := by
  have hdigits := length_digits_le h
  rw [padded, List.length_append, List.length_replicate, List.length_reverse]
  omega

theorem length_zeroed_le {w : Nat} {v : Int} (h : v.natAbs < 10 ^ (w + 1)) :
    (zeroed (w + 1) v).length ≤ w + 2 := by
  unfold zeroed
  split
  · exact Nat.succ_le_succ (length_padded_le h (Nat.le_succ w))
  · exact Nat.le_succ_of_le (length_padded_le h (Nat.le_refl _))

end Sortable

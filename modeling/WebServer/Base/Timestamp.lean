/-
# `Base.Timestamp` — the two texts of a point in time

`toFormattedString` and `toString` of the `int64_t` that a `Timestamp` holds.  The
quotient by the microseconds of a second and the rest are C's, so before 1970 both are
negative, and `%06d` writes the sign of the rest behind the point.

The first text is a date, a time of the day and the microsecond; from 1970 to 9999 it
sorts as the times do, and before 1970 it does not.  The second is the seconds and the
microsecond, and tells any two times apart (`texts_of_time`).
-/
import WebServer.Lib.Calendar

namespace WebServer

namespace Timestamp

open Sortable Calendar Decimal

def kMicroSecondsPerSecond : Nat := 1000 * 1000

/-- The buffer has room for 63 characters. -/
def toFormattedString (microSecondsSinceEpoch : Int) : Bytes :=
  let seconds := microSecondsSinceEpoch.tdiv kMicroSecondsPerSecond
  let (year, tm_time) := gmtime seconds
  let microseconds := microSecondsSinceEpoch.tmod kMicroSecondsPerSecond
  (blanked 4 year ++ padded 2 (tm_time.tm_mon + 1) ++ padded 2 tm_time.tm_mday ++ [32] ++
    padded 2 tm_time.tm_hour ++ [58] ++ padded 2 tm_time.tm_min ++ [58] ++
    padded 2 tm_time.tm_sec ++ [46] ++ zeroed 6 microseconds).take 63

/-- The buffer has room for 30 characters. -/
def toString (microSecondsSinceEpoch : Int) : Bytes :=
  let seconds := microSecondsSinceEpoch.tdiv kMicroSecondsPerSecond
  let microseconds := microSecondsSinceEpoch.tmod kMicroSecondsPerSecond
  (decimal seconds ++ [46] ++ zeroed 6 microseconds ++ [32]).take 30

example : toFormattedString 951782400000007 =
    [50, 48, 48, 48, 48, 50, 50, 57, 32, 48, 48, 58, 48, 48, 58, 48, 48, 46, 48, 48, 48, 48, 48,
      55] := by
  decide +kernel

/-! ## The date -/

/-- From 1970 on nothing has a sign. -/
theorem toFormattedString_natCast (t : Nat) : toFormattedString t =
    (stamp [32] [58] (gmtime_r (t / kMicroSecondsPerSecond)) ++
      ([46] ++ padded 6 (t % kMicroSecondsPerSecond))).take 63 := by
  have hdiv : (t : Int).tdiv kMicroSecondsPerSecond = (t / kMicroSecondsPerSecond : Nat) :=
    (Int.ofNat_tdiv t kMicroSecondsPerSecond).symm
  have hmod : (t : Int).tmod kMicroSecondsPerSecond = (t % kMicroSecondsPerSecond : Nat) :=
    (Int.ofNat_tmod t kMicroSecondsPerSecond).symm
  have hyear : 10 ^ 3 ≤ 1900 + (gmtime_r (t / kMicroSecondsPerSecond)).tm_year := by
    have hbase : 70 ≤ (gmtime_r (t / kMicroSecondsPerSecond)).tm_year := Nat.le_add_right 70 _
    omega
  simp only [toFormattedString, hdiv, hmod, gmtime_natCast, zeroed_natCast, blanked_natCast hyear,
    stamp, List.append_assoc]

theorem sorts_microseconds : Sorts kMicroSecondsPerSecond 6 (padded 6) := sorts_padded 5

theorem sorts_toFormattedString :
    Sorts (endOfYears * kMicroSecondsPerSecond) 24 fun t => toFormattedString t := by
  have hjoin : Sorts (endOfYears * kMicroSecondsPerSecond) 24 fun t =>
      stamp [32] [58] (gmtime_r (t / kMicroSecondsPerSecond)) ++
        ([46] ++ padded 6 (t % kMicroSecondsPerSecond)) := by
    refine Sorts.join (fun _ => kMicroSecondsPerSecond) (splits_div _)
      (sorts_stamp [32] [58]) (fun _ _ => sorts_microseconds.after [46]) (fun n hn => ?_)
      fun n _ => Nat.mod_lt n (by decide)
    exact Nat.div_lt_of_lt_mul (Nat.mul_comm _ kMicroSecondsPerSecond ▸ hn)
  refine hjoin.congr fun t ht => (toFormattedString_natCast t).trans (List.take_of_length_le ?_)
  exact Nat.le_trans (Nat.le_of_eq (hjoin.length t ht)) (by decide)

/-! ## The seconds -/

/-- The parts of an `int64_t` leave room in the buffer. -/
theorem take_seconds {s m : Int} (hs : s.natAbs < 10 ^ (12 + 1)) (hm : m.natAbs < 10 ^ (5 + 1)) :
    (decimal s ++ [46] ++ zeroed 6 m ++ [32]).take 30 =
      decimal s ++ 46 :: (zeroed 6 m ++ [32]) := by
  have hseconds := length_decimal_le hs
  have hmicro : (zeroed 6 m).length ≤ 7 := length_zeroed_le hm
  rw [List.take_of_length_le]
  · simp
  · simp only [List.length_append, List.length_singleton]
    omega

/-- Both parts can be read off: there is no point in front of the first. -/
theorem seconds_inj {s m s' m' : Int}
    (h : decimal s ++ 46 :: (zeroed 6 m ++ [32]) = decimal s' ++ 46 :: (zeroed 6 m' ++ [32])) :
    s = s' ∧ m = m' := by
  have hpoint : ∀ d < 10, char d ≠ 46 := by decide
  have hdecimal : 46 ∉ decimal s := not_mem_decimal (by decide) hpoint
  have hzeroed : 46 ∉ zeroed 6 m ++ [32] := by
    rw [List.mem_append, not_or]
    exact ⟨not_mem_zeroed (by decide) hpoint, by decide⟩
  obtain ⟨hs, -, hm⟩ := (List.append_cons_inj_of_notMem hdecimal hzeroed).mp h
  exact ⟨decimal_inj hs, zeroed_inj (List.append_cancel_right hm)⟩

/-- An `int64_t` of microseconds is no more than thirteen digits of seconds. -/
theorem natAbs_seconds_lt {t : Int} (hlow : -2 ^ 63 ≤ t) (hhigh : t < 2 ^ 63) :
    (t.tdiv kMicroSecondsPerSecond).natAbs < 10 ^ (12 + 1) := by
  rw [Int.natAbs_tdiv]
  refine Nat.div_lt_of_lt_mul ?_
  have hpow : (2 : Int) ^ 63 = 9223372036854775808 := by decide
  have hmul : (kMicroSecondsPerSecond : Int).natAbs * 10 ^ (12 + 1) = 10000000000000000000 := by
    decide
  omega

theorem natAbs_microseconds_lt (t : Int) :
    (t.tmod kMicroSecondsPerSecond).natAbs < 10 ^ (5 + 1) := by
  rw [Int.natAbs_tmod]
  exact Nat.mod_lt _ (by decide)

/-- From 1970 to 9999 the dates of two times compare as the times do; and no two times
that an `int64_t` can hold have the same text of seconds. -/
theorem texts_of_time {t u : Int} :
    (0 ≤ t → t < endOfYears * kMicroSecondsPerSecond →
      0 ≤ u → u < endOfYears * kMicroSecondsPerSecond →
      (toFormattedString t < toFormattedString u ↔ t < u)) ∧
    (-2 ^ 63 ≤ t → t < 2 ^ 63 → -2 ^ 63 ≤ u → u < 2 ^ 63 →
      (toString t = toString u ↔ t = u)) := by
  constructor
  · intro ht htend hu huend
    obtain ⟨n, rfl⟩ := Int.eq_ofNat_of_zero_le ht
    obtain ⟨k, rfl⟩ := Int.eq_ofNat_of_zero_le hu
    rw [Int.ofNat_lt]
    exact sorts_toFormattedString.lt_iff (by exact_mod_cast htend) (by exact_mod_cast huend)
  · intro htlow ht hulow hu
    refine ⟨fun h => ?_, fun h => h ▸ rfl⟩
    rw [toString, toString,
      take_seconds (natAbs_seconds_lt htlow ht) (natAbs_microseconds_lt t),
      take_seconds (natAbs_seconds_lt hulow hu) (natAbs_microseconds_lt u)] at h
    obtain ⟨hseconds, hmicro⟩ := seconds_inj h
    rw [← Int.mul_tdiv_add_tmod t kMicroSecondsPerSecond, hseconds, hmicro,
      Int.mul_tdiv_add_tmod]

/-- The last microsecond of a day and the first of the next; the last two of 1969. -/
theorem texts_of_time_midnight :
    toFormattedString 86399999999 < toFormattedString 86400000000 ∧
      toString (-2) ≠ toString (-1) := by
  have hmidnight := (@texts_of_time 86399999999 86400000000).1 (by decide) (by decide) (by decide)
    (by decide)
  have hold := (@texts_of_time (-2) (-1)).2 (by decide) (by decide) (by decide) (by decide)
  exact ⟨hmidnight.mpr (by decide), fun h => absurd (hold.mp h) (by decide)⟩

/-- Before 1970 the sign spoils the order. -/
example : toFormattedString (-1) < toFormattedString (-2) := by decide +kernel

end Timestamp

end WebServer

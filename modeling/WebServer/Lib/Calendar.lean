/-
# `Lib.Calendar` — the second of the clock as a date and a time of the day

`gmtime_r` for the seconds since the first of January 1970, by the Gregorian calendar:
years and months are runs of days of given lengths, and the day is in the last one that
has begun (`Lib.Sortable`).  `timegm_gmtime_r` says that the fields are those of the
second, each in its range.

`stamp` writes the fields from the year to the second.  Up to the end of the year 9999
its texts have one width and sort as the seconds (`sorts_stamp`).
-/
import WebServer.Lib.Sortable

namespace Calendar

open Sortable

/-! ## Years and months -/

def isLeap (year : Nat) : Bool := year % 4 = 0 && (year % 100 ≠ 0 || year % 400 = 0)

def yearLength (year : Nat) : Nat := if isLeap year then 366 else 365

/-- The months are counted from 0. -/
def monthLength (leap : Bool) : Nat → Nat
  | 1 => if leap then 29 else 28
  | 3 | 5 | 8 | 10 => 30
  | _ => 31

/-- Where the runs of these lengths begin. -/
def starts (length : Nat → Nat) : Nat → Nat
  | 0 => 0
  | i + 1 => starts length i + length i

/-- The days before the `i`-th year from 1970 on. -/
def yearStart : Nat → Nat := starts fun i => yearLength (1970 + i)

def monthStart (leap : Bool) : Nat → Nat := starts (monthLength leap)

/-! ## Broken-down time -/

structure Tm where
  tm_year : Nat
  tm_mon : Nat
  tm_mday : Nat
  tm_hour : Nat
  tm_min : Nat
  tm_sec : Nat
  deriving DecidableEq

def yearOf (day : Nat) : Nat := locate yearStart (day / 365) day

def monthOf (leap : Bool) (yday : Nat) : Nat := locate (monthStart leap) 11 yday

def gmtime_r (seconds : Nat) : Tm :=
  let day := seconds / 86400
  let time := seconds % 86400
  let year := yearOf day
  let leap := isLeap (1970 + year)
  let yday := day - yearStart year
  let month := monthOf leap yday
  { tm_year := 70 + year
    tm_mon := month
    tm_mday := yday - monthStart leap month + 1
    tm_hour := time / 3600
    tm_min := time % 3600 / 60
    tm_sec := time % 3600 % 60 }

/-- The seconds of 400 years, after which the calendar repeats. -/
def cycle : Nat := 146097 * 86400

/-- `gmtime_r` for seconds before 1970 as well: the year, and the other fields. -/
def gmtime (seconds : Int) : Int × Tm :=
  let cycles := ((-seconds).toNat + (cycle - 1)) / cycle
  let tm := gmtime_r (seconds + cycles * cycle).toNat
  ((1900 + tm.tm_year : Nat) - 400 * cycles, tm)

/-- The second that the fields are of. -/
def timegm (tm : Tm) : Nat :=
  (yearStart (tm.tm_year - 70) + monthStart (isLeap (1900 + tm.tm_year)) tm.tm_mon +
      (tm.tm_mday - 1)) * 86400 +
    tm.tm_hour * 3600 + tm.tm_min * 60 + tm.tm_sec

example : gmtime_r 951782399 = ⟨100, 1, 28, 23, 59, 59⟩ := by decide

example : gmtime_r 951782400 = ⟨100, 1, 29, 0, 0, 0⟩ := by decide

example : gmtime (-1) = (1969, ⟨469, 11, 31, 23, 59, 59⟩) := by decide +kernel

/-! ## The fields -/

theorem starts_succ (length : Nat → Nat) (i : Nat) :
    starts length (i + 1) = starts length i + length i := rfl

theorem strictMono_starts {length : Nat → Nat} (h : ∀ i, 0 < length i) :
    StrictMono (starts length) :=
  strictMono_nat_of_lt_succ fun i => Nat.lt_add_of_pos_right (h i)

/-- The last start that is not beyond `n`, and the next one. -/
theorem sub_starts_lt {length : Nat → Nat} {i n : Nat} (hle : starts length i ≤ n)
    (hlt : n < starts length (i + 1)) : n - starts length i < length i := by
  rw [starts_succ] at hlt
  exact Nat.sub_lt_left_of_lt_add hle hlt

theorem starts_ge {length : Nat → Nat} {k : Nat} (h : ∀ i, k ≤ length i) (i : Nat) :
    i * k ≤ starts length i := by
  induction i with
  | zero =>
      rw [Nat.zero_mul]
      exact Nat.zero_le _
  | succ i ih =>
      rw [Nat.succ_mul, starts_succ]
      exact Nat.add_le_add ih (h i)

theorem yearLength_ge (year : Nat) : 365 ≤ yearLength year := by
  unfold yearLength
  split <;> decide

theorem monthLength_pos (leap : Bool) (month : Nat) : 0 < monthLength leap month := by
  unfold monthLength
  split
  · split <;> decide
  all_goals decide

theorem strictMono_yearStart : StrictMono yearStart :=
  strictMono_starts fun i => Nat.lt_of_lt_of_le (by decide) (yearLength_ge (1970 + i))

theorem strictMono_monthStart (leap : Bool) : StrictMono (monthStart leap) :=
  strictMono_starts (monthLength_pos leap)

theorem yearStart_ge (i : Nat) : i * 365 ≤ yearStart i :=
  starts_ge (fun i => yearLength_ge (1970 + i)) i

/-- No year after the last one that the search looks at has begun. -/
theorem lt_yearStart (day : Nat) : day < yearStart (day / 365 + 1) := by
  have hge := yearStart_ge (day / 365 + 1)
  omega

theorem monthStart_twelve (year : Nat) : monthStart (isLeap year) 12 = yearLength year := by
  unfold yearLength
  cases isLeap year <;> rfl

theorem yearStart_yearOf (day : Nat) : yearStart (yearOf day) ≤ day :=
  start_locate (Nat.zero_le day)

/-- The days of a year end before its length. -/
theorem yday_lt (day : Nat) : day - yearStart (yearOf day) < yearLength (1970 + yearOf day) :=
  sub_starts_lt (yearStart_yearOf day) (lt_start_locate (lt_yearStart day))

theorem monthStart_monthOf (leap : Bool) (yday : Nat) :
    monthStart leap (monthOf leap yday) ≤ yday :=
  start_locate (Nat.zero_le yday)

theorem mday_lt {year yday : Nat} (h : yday < yearLength year) :
    yday - monthStart (isLeap year) (monthOf (isLeap year) yday) <
      monthLength (isLeap year) (monthOf (isLeap year) yday) := by
  rw [← monthStart_twelve] at h
  exact sub_starts_lt (monthStart_monthOf (isLeap year) yday) (lt_start_locate h)

/-- The fields are in their ranges, and they are those of the second. -/
theorem timegm_gmtime_r (seconds : Nat) :
    let tm := gmtime_r seconds
    timegm tm = seconds ∧ tm.tm_mon < 12 ∧ 1 ≤ tm.tm_mday ∧
      tm.tm_mday ≤ monthLength (isLeap (1900 + tm.tm_year)) tm.tm_mon ∧
      tm.tm_hour < 24 ∧ tm.tm_min < 60 ∧ tm.tm_sec < 60 := by
  have hyear := yearStart_yearOf (seconds / 86400)
  have hyday := yday_lt (seconds / 86400)
  have hmonth := monthStart_monthOf (isLeap (1970 + yearOf (seconds / 86400)))
    (seconds / 86400 - yearStart (yearOf (seconds / 86400)))
  have hmday := mday_lt hyday
  have hbase : 1900 + (70 + yearOf (seconds / 86400)) = 1970 + yearOf (seconds / 86400) := by omega
  dsimp only [gmtime_r, timegm]
  rw [hbase, Nat.add_sub_cancel_left, Nat.add_sub_cancel]
  generalize hleap : isLeap (1970 + yearOf (seconds / 86400)) = leap at *
  generalize hy : yearStart (yearOf (seconds / 86400)) = y at *
  generalize hm : monthOf leap (seconds / 86400 - y) = m at *
  have hle : m ≤ 11 := hm ▸ locate_le
  refine ⟨by omega, by omega, by omega, by omega, by omega, by omega, by omega⟩

theorem gmtime_natCast (seconds : Nat) :
    gmtime seconds = (((1900 + (gmtime_r seconds).tm_year : Nat) : Int), gmtime_r seconds) := by
  have hcycles : ((-(seconds : Int)).toNat + (cycle - 1)) / cycle = 0 := by
    rw [Int.toNat_of_nonpos (by omega), Nat.zero_add]
    rfl
  simp only [gmtime, hcycles]
  simp

/-! ## The fields as text -/

/-- `mid` stands between the date and the time, and `sep` in the time. -/
def stamp (mid sep : Bytes) (tm : Tm) : Bytes :=
  (Decimal.digits (1900 + tm.tm_year)).reverse ++ padded 2 (tm.tm_mon + 1) ++ padded 2 tm.tm_mday ++
    mid ++ padded 2 tm.tm_hour ++ sep ++ padded 2 tm.tm_min ++ sep ++ padded 2 tm.tm_sec

/-- The first second of the year 10000. -/
def endOfYears : Nat := 253402300800

theorem yearStart_end : yearStart 8030 = endOfYears / 86400 := by decide +kernel

/-- The parts of `stamp`, each the text of a rest of the second. -/
def timeText (sep : Bytes) (time : Nat) : Bytes :=
  padded 2 (time / 3600) ++ (sep ++ (padded 2 (time % 3600 / 60) ++ (sep ++
    padded 2 (time % 3600 % 60))))

def mdayText (leap : Bool) (yday : Nat) : Bytes :=
  padded 2 (1 + monthOf leap yday) ++ padded 2 (1 + (yday - monthStart leap (monthOf leap yday)))

def dateText (day : Nat) : Bytes :=
  padded 4 (1970 + yearOf day) ++
    mdayText (isLeap (1970 + yearOf day)) (day - yearStart (yearOf day))

theorem sorts_sixty : Sorts 60 2 (padded 2) := (sorts_padded 1).mono (by decide)

theorem sorts_timeText (sep : Bytes) :
    Sorts 86400 (2 + (sep.length + (2 + (sep.length + 2)))) (timeText sep) := by
  have hminutes : Sorts 3600 (2 + (sep.length + 2)) fun t =>
      padded 2 (t / 60) ++ (sep ++ padded 2 (t % 60)) :=
    Sorts.join (fun _ => 60) (splits_div 3600) sorts_sixty (fun _ _ => sorts_sixty.after sep)
      (fun n hn => Nat.div_lt_of_lt_mul hn) (fun n _ => Nat.mod_lt n (by decide))
  have hhours : Sorts 24 2 (padded 2) := (sorts_padded 1).mono (by decide)
  exact Sorts.join (fun _ => 3600) (splits_div 86400) hhours
    (fun _ _ => hminutes.after sep) (fun n hn => Nat.div_lt_of_lt_mul hn)
    (fun n _ => Nat.mod_lt n (by decide))

theorem monthLength_le (leap : Bool) (month : Nat) : monthLength leap month ≤ 31 := by
  unfold monthLength
  split
  · split <;> decide
  all_goals decide

theorem sorts_mdayText (year : Nat) :
    Sorts (yearLength year) 4 (mdayText (isLeap year)) := by
  have hmonths : Sorts 12 2 fun n => padded 2 (1 + n) :=
    ((sorts_padded 1).mono (show 1 + 12 ≤ 10 ^ 2 by decide)).shift
  have hdays : ∀ k, Sorts (monthLength (isLeap year) k) 2 fun n => padded 2 (1 + n) := by
    intro k
    have hle := monthLength_le (isLeap year) k
    exact ((sorts_padded 1).mono (show 1 + _ ≤ 10 ^ 2 by omega)).shift
  refine Sorts.join (monthLength (isLeap year))
    (splits_locate (fun _ => 11) (strictMono_monthStart _) rfl ?_) hmonths
    (fun k _ => hdays k) (fun n _ => Nat.lt_succ_of_le locate_le) fun n hn => mday_lt hn
  intro n hn
  rw [monthStart_twelve]
  exact hn

theorem yearOf_lt {day : Nat} (h : day < endOfYears / 86400) : yearOf day < 8030 := by
  refine strictMono_yearStart.lt_iff_lt.mp ?_
  rw [yearStart_end]
  exact Nat.lt_of_le_of_lt (yearStart_yearOf day) h

theorem sorts_dateText : Sorts (endOfYears / 86400) 8 dateText := by
  have hyears : Sorts 8030 4 fun n => padded 4 (1970 + n) :=
    ((sorts_padded 3).mono (show 1970 + 8030 ≤ 10 ^ 4 by decide)).shift
  have hsplits := splits_locate (N := endOfYears / 86400) (fun day => day / 365)
    strictMono_yearStart rfl fun n _ => lt_yearStart n
  exact Sorts.join (fun k => yearLength (1970 + k)) hsplits hyears
    (fun k _ => sorts_mdayText (1970 + k)) (fun _ hn => yearOf_lt hn) fun n _ => yday_lt n

theorem stamp_gmtime_r (mid sep : Bytes) (seconds : Nat) : stamp mid sep (gmtime_r seconds) =
    dateText (seconds / 86400) ++ (mid ++ timeText sep (seconds % 86400)) := by
  have hyear : padded 4 (1970 + yearOf (seconds / 86400)) =
      (Decimal.digits (1970 + yearOf (seconds / 86400))).reverse := by
    refine padded_of_le ?_
    have hle : 10 ^ 3 ≤ 1970 := by decide
    exact Nat.le_add_right_of_le hle
  have hbase : 1900 + (70 + yearOf (seconds / 86400)) = 1970 + yearOf (seconds / 86400) :=
    (Nat.add_assoc 1900 70 _).symm
  simp only [stamp, gmtime_r, dateText, mdayText, timeText, hyear, hbase, List.append_assoc,
    Nat.add_comm _ 1]

/-- Seconds before the year 10000 are in order exactly as their stamps are. -/
theorem sorts_stamp (mid sep : Bytes) :
    Sorts endOfYears (8 + (mid.length + (2 + (sep.length + (2 + (sep.length + 2))))))
      fun seconds => stamp mid sep (gmtime_r seconds) := by
  refine Sorts.congr ?_ fun seconds _ => stamp_gmtime_r mid sep seconds
  refine Sorts.join (fun _ => 86400) (splits_div endOfYears) sorts_dateText
    (fun _ _ => (sorts_timeText sep).after mid) (fun n hn => ?_) fun n _ => Nat.mod_lt n (by decide)
  exact Nat.div_lt_of_lt_mul hn

end Calendar

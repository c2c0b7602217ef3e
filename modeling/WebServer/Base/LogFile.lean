/-
# `Base.LogFile` — when the log file is rolled

`LogFile::append` rolls the file when `writtenBytes()` exceeds `rollSize_`, an
`off_t` of 64 bits.  `writtenBytes_` is an `int`: from 2 GiB on it is negative, and
the comparison fails for another 2 GiB.  Every `flushEveryN_` appends or so the file
is rolled too if the day has changed.

`appended` is the true number of bytes the file has been given since it was opened.
`within_iff` says when it stays at `rollSize_` or below: an append that exceeds the
limit must leave the number an `int`, or meet the change of the day.  For a limit
that leaves room for one more line below 2 GiB nothing is asked (`within_of_small`); for
one of 2 GiB or more the size never rolls the file (`fills`).
-/
import WebServer.Base.AsyncLogging
import WebServer.Base.AppendFile
import Mathlib.Algebra.Ring.Int.Defs

namespace WebServer

open Machine

/-- `file_` is null until it is rolled for the first time. -/
structure LogFile where
  rollSize : Int
  flushInterval : Int
  flushEveryN : Int
  count : Int
  startOfPeriod : Int
  lastRoll : Int
  lastFlush : Int
  file : Option AppendFile
  /-- the bytes `file_` has been given since it was opened -/
  appended : Nat

namespace LogFile

def kRollPerSeconds : Int := 60 * 60 * 24

/-- The second in which the day of `now` begins. -/
def period (now : Int) : Int := now.tdiv kRollPerSeconds * kRollPerSeconds

/-- `rollFile()`, in that second. -/
def rollFile (l : LogFile) (now : Int) : LogFile × Bool :=
  if l.lastRoll < now then
    ({ l with
        lastRoll := now
        lastFlush := now
        startOfPeriod := period now
        file := some ⟨[], 0⟩
        appended := 0 }, true)
  else (l, false)

/-- The constructor, which calls `rollFile`. -/
def new (rollSize flushInterval flushEveryN now : Int) : LogFile :=
  (rollFile ⟨rollSize, flushInterval, flushEveryN, 0, 0, 0, 0, none, 0⟩ now).1

/-- `append_unlocked(logline, len)`; it looks at the clock at `now`, and `rollFile` at
`roll`. -/
def append_unlocked (l : LogFile) (logline : Bytes) (fwrite : Nat → Nat) (now roll : Int) :
    Option LogFile := do
  let file ← l.file
  let file := file.append logline fwrite
  let l := { l with
    file := some file, count := l.count + 1, appended := l.appended + logline.length }
  if l.rollSize < file.writtenBytes.toInt then some (l.rollFile roll).1
  else
    let l := { l with count := l.count + 1 }
    if l.flushEveryN < l.count then
      let l := { l with count := 0 }
      if period now ≠ l.startOfPeriod then some (l.rollFile roll).1
      else if l.flushInterval < now - l.lastFlush then some { l with lastFlush := now }
      else some l
    else some l

/-- A call of `append`: the line, what `fwrite` answers, and what `time` does. -/
structure Append where
  logline : Bytes
  fwrite : Nat → Nat
  now : Int
  roll : Int

/-- The line fits in a buffer of the logger, and the second is later than that of the
last roll. -/
def Ready (l : LogFile) (a : Append) : Prop :=
  a.logline.length ≤ AsyncLogging.kLargeBuffer ∧ l.lastRoll < a.now ∧ l.lastRoll < a.roll

instance (l : LogFile) (a : Append) : Decidable (Ready l a) :=
  inferInstanceAs (Decidable (_ ∧ _ ∧ _))

def step (l : LogFile) (a : Append) : Option LogFile :=
  if Ready l a then l.append_unlocked a.logline a.fwrite a.now a.roll else none

/-- The file has been given no more than the limit. -/
def Within (l : LogFile) : Prop := (l.appended : Int) ≤ l.rollSize

/-- The append stays within the limit, or its bytes can be counted, or it comes to look
at the day and that has changed. -/
def Counts (l : LogFile) (a : Append) : Prop :=
  ((l.appended + a.logline.length : Nat) : Int) ≤ l.rollSize ∨
    l.appended + a.logline.length < 2 ^ 31 ∨
    (l.flushEveryN < l.count + 2 ∧ period a.now ≠ l.startOfPeriod)

instance (l : LogFile) (a : Append) : Decidable (Counts l a) :=
  inferInstanceAs (Decidable (_ ∨ _ ∨ _))

/-! ## One append -/

section

variable {l m : LogFile} {a : Append}

/-- `writtenBytes_` is the number of bytes as an `int`. -/
structure Counted (l : LogFile) : Prop where
  limit : 0 ≤ l.rollSize
  written : ∃ contents, l.file = some ⟨contents, BitVec.ofNat 32 l.appended⟩

theorem counted_new {rollSize flushInterval flushEveryN now : Int} (hsize : 0 ≤ rollSize)
    (hnow : 0 < now) : Counted (new rollSize flushInterval flushEveryN now) ∧
      Within (new rollSize flushInterval flushEveryN now) := by
  unfold new rollFile
  rw [if_pos hnow]
  exact ⟨⟨hsize, [], rfl⟩, hsize⟩

/-- The number of bytes as an `int`, while it is below 4 GiB. -/
theorem toInt_written {n : Nat} (h : n < 2 ^ 32) :
    (BitVec.ofNat 32 n).toInt = if n < 2 ^ 31 then (n : Int) else n - 2 ^ 32 := by
  rw [BitVec.toInt_eq_toNat_cond, BitVec.toNat_ofNat, Nat.mod_eq_of_lt h]
  split
  · rw [if_pos (by omega)]
  · rw [if_neg (by omega)]
    rfl

theorem toInt_lt (n : Nat) : (BitVec.ofNat 32 n).toInt < 2 ^ 31 := BitVec.toInt_lt

/-- What an append does to the file. -/
inductive Appended (l : LogFile) (a : Append) (m : LogFile) : Prop where
  /-- It is rolled, by its size or by the day. -/
  | rolled (file : m.file = some ⟨[], 0⟩) (appended : m.appended = 0)
      (cause : l.rollSize < (BitVec.ofNat 32 (l.appended + a.logline.length)).toInt ∨
        (l.flushEveryN < l.count + 2 ∧ period a.now ≠ l.startOfPeriod))
  | grown (file : ∃ contents,
        m.file = some ⟨contents, BitVec.ofNat 32 (l.appended + a.logline.length)⟩)
      (appended : m.appended = l.appended + a.logline.length)
      (size : (BitVec.ofNat 32 (l.appended + a.logline.length)).toInt ≤ l.rollSize)
      (day : ¬ (l.flushEveryN < l.count + 2 ∧ period a.now ≠ l.startOfPeriod))
      (roll : m.lastRoll = l.lastRoll ∧ m.startOfPeriod = l.startOfPeriod)

theorem Appended.of_rollFile {k : LogFile} (h : some (k.rollFile a.roll).1 = some m)
    (hlimit : k.rollSize = l.rollSize) (hlater : k.lastRoll < a.roll)
    (cause : l.rollSize < (BitVec.ofNat 32 (l.appended + a.logline.length)).toInt ∨
      (l.flushEveryN < l.count + 2 ∧ period a.now ≠ l.startOfPeriod)) :
    m.rollSize = l.rollSize ∧ Appended l a m := by
  rw [rollFile, if_pos hlater] at h
  cases h
  exact ⟨hlimit, .rolled rfl rfl cause⟩

theorem step_cases (hl : Counted l) (h : step l a = some m) :
    a.logline.length ≤ AsyncLogging.kLargeBuffer ∧ m.rollSize = l.rollSize ∧ Appended l a m := by
  obtain ⟨⟨hlen, hnow, hroll⟩, h⟩ := Option.ite_none_right_eq_some.mp h
  obtain ⟨contents, hfile⟩ := hl.written
  have hwritten : ((⟨contents, BitVec.ofNat 32 l.appended⟩ : AppendFile).append a.logline
      a.fwrite).writtenBytes = BitVec.ofNat 32 (l.appended + a.logline.length) :=
    (BitVec.ofNat_add _ _).symm
  refine ⟨hlen, ?_⟩
  rw [append_unlocked, hfile] at h
  simp only [Option.bind_eq_bind, Option.bind_some, hwritten] at h
  split at h
  · rename_i hsize
    exact Appended.of_rollFile h rfl hroll (Or.inl hsize)
  · rename_i hsize
    have hsize := Int.not_lt.mp hsize
    have hgrown : ∃ contents', some ((⟨contents, BitVec.ofNat 32 l.appended⟩ :
        AppendFile).append a.logline a.fwrite) =
          some (⟨contents', BitVec.ofNat 32 (l.appended + a.logline.length)⟩ : AppendFile) :=
      ⟨_, congrArg (fun w => some (AppendFile.mk _ w)) hwritten⟩
    split at h
    · rename_i hcount
      split at h
      · rename_i hday
        exact Appended.of_rollFile h rfl hroll (Or.inr ⟨by omega, hday⟩)
      · rename_i hday
        have hstay : ¬ (l.flushEveryN < l.count + 2 ∧ period a.now ≠ l.startOfPeriod) :=
          fun hboth => hday hboth.2
        split at h
        · cases h
          exact ⟨rfl, .grown hgrown rfl hsize hstay ⟨rfl, rfl⟩⟩
        · cases h
          exact ⟨rfl, .grown hgrown rfl hsize hstay ⟨rfl, rfl⟩⟩
    · rename_i hcount
      have hstay : ¬ (l.flushEveryN < l.count + 2 ∧ period a.now ≠ l.startOfPeriod) := by
        intro hboth
        have := hboth.1
        omega
      cases h
      exact ⟨rfl, .grown hgrown rfl hsize hstay ⟨rfl, rfl⟩⟩

theorem counted_step (hl : Counted l) (h : step l a = some m) : Counted m := by
  obtain ⟨-, hlimit, hcases⟩ := step_cases hl h
  refine ⟨hlimit ▸ hl.limit, ?_⟩
  cases hcases with
  | rolled file appended _ => exact ⟨[], by rw [file, appended]; rfl⟩
  | grown file appended _ _ _ => rw [appended]; exact file

/-- An append that exceeds the limit is seen by the counter exactly when the number is
still an `int`. -/
theorem within_step (hl : Counted l) (hwithin : Within l) (h : step l a = some m) :
    Within m ↔ Counts l a := by
  obtain ⟨hlen, hlimit, hcases⟩ := step_cases hl h
  have hpos := hl.limit
  rw [Within] at hwithin ⊢
  rw [hlimit]
  cases hcases with
  | rolled file appended cause =>
      rw [appended]
      refine iff_of_true hpos ?_
      rcases cause with hsize | hday
      · by_cases hin : ((l.appended + a.logline.length : Nat) : Int) ≤ l.rollSize
        · exact Or.inl hin
        · -- the counter is not negative, so it has not passed 2 ^ 31
          refine Or.inr (Or.inl ?_)
          have hlt := toInt_lt (l.appended + a.logline.length)
          have hlarge : AsyncLogging.kLargeBuffer = 4000000 := rfl
          rw [toInt_written (by omega)] at hsize
          split at hsize
          · assumption
          · omega
      · exact Or.inr (Or.inr hday)
  | grown file appended size day _ =>
      rw [appended]
      constructor
      · exact Or.inl
      · rintro (hin | hint | hday)
        · exact hin
        · rw [toInt_written (by omega), if_pos hint] at size
          exact size
        · exact absurd hday day

/-! ## Every run -/

/-- In every run of appends: after each of them the file has been given no more than
`rollSize_` since it was opened, exactly when every append counts. -/
theorem within_iff {rollSize flushInterval flushEveryN now : Int} (hsize : 0 ≤ rollSize)
    (hnow : 0 < now) {appends : List Append}
    (h : exec step (new rollSize flushInterval flushEveryN now) appends = some l) :
    Throughout step Within (new rollSize flushInterval flushEveryN now) appends ↔
      Meets step Counts (new rollSize flushInterval flushEveryN now) appends :=
  throughout_iff_meets (fun _ _ _ hl hstep => counted_step hl hstep)
    (fun _ _ _ hl hwithin hstep => within_step hl hwithin hstep) (counted_new hsize hnow).1
    (counted_new hsize hnow).2 h

/-- With a limit that leaves room for one more line below 2 GiB every append counts. -/
theorem within_of_small {rollSize flushInterval flushEveryN now : Int} (hsize : 0 ≤ rollSize)
    (hsmall : rollSize + AsyncLogging.kLargeBuffer < 2 ^ 31) (hnow : 0 < now)
    (appends : List Append) :
    Throughout step Within (new rollSize flushInterval flushEveryN now) appends := by
  have hlimit : (new rollSize flushInterval flushEveryN now).rollSize = rollSize := by
    unfold new rollFile
    split <;> rfl
  have hall : Throughout step
      (fun l => Counted l ∧ l.rollSize = rollSize ∧ Within l)
      (new rollSize flushInterval flushEveryN now) appends := by
    refine throughout_of_meets (C := fun _ _ => True) ?_ (meets_true _ _)
      ⟨(counted_new hsize hnow).1, hlimit, (counted_new hsize hnow).2⟩
    rintro l a m ⟨hl, hsame, hwithin⟩ - hstep
    obtain ⟨hlen, hkeep, -⟩ := step_cases hl hstep
    refine ⟨counted_step hl hstep, hkeep.trans hsame, (within_step hl hwithin hstep).mpr ?_⟩
    rw [Within, hsame] at hwithin
    exact Or.inr (Or.inl (by omega))
  exact hall.mono fun _ hl => hl.2.2

/-! ## A limit of 2 GiB -/

theorem step_goes (hl : Counted l) (hready : Ready l a) : ∃ m, step l a = some m := by
  obtain ⟨contents, hfile⟩ := hl.written
  rw [step, if_pos hready, append_unlocked, hfile]
  simp only [Option.bind_eq_bind, Option.bind_some]
  split
  · exact ⟨_, rfl⟩
  · split
    · split
      · exact ⟨_, rfl⟩
      · split <;> exact ⟨_, rfl⟩
    · exact ⟨_, rfl⟩

/-- As long as the day does not change, the file grows and grows. -/
theorem fills (hlarge : 2 ^ 31 - 1 ≤ l.rollSize) (hl : Counted l) (hready : Ready l a)
    (hday : period a.now = l.startOfPeriod) (n : Nat) :
    ∃ m, exec step l (List.replicate n a) = some m ∧ m.rollSize = l.rollSize ∧
      m.appended = l.appended + n * a.logline.length := by
  induction n generalizing l with
  | zero => exact ⟨l, rfl, rfl, by omega⟩
  | succ n ih =>
      obtain ⟨k, hk⟩ := step_goes hl hready
      obtain ⟨-, hlimit, hcases⟩ := step_cases hl hk
      cases hcases with
      | rolled _ _ cause =>
          rcases cause with hsize | hchanged
          · have := toInt_lt (l.appended + a.logline.length)
            omega
          · exact absurd hday hchanged.2
      | grown _ appended _ _ roll =>
          have hready' : Ready k a := by
            rw [Ready, roll.1]
            exact hready
          obtain ⟨m, hm, hsame, hgrown⟩ := ih (hlimit.symm ▸ hlarge) (counted_step hl hk) hready'
            (hday.trans roll.2.symm)
          refine ⟨m, ?_, hsame.trans hlimit, ?_⟩
          · rw [List.replicate_succ, exec_cons]
            exact ⟨k, hk, hm⟩
          · rw [hgrown, appended, Nat.succ_mul]
            omega

end

/-- A limit of 5 bytes: the second line rolls the file, and the change of the day rolls
it after the fourth. -/
theorem within_rolls : Throughout step Within (new 5 3 6 86400)
    [⟨[97, 98, 99], fun _ => 3, 86401, 86401⟩, ⟨[97, 98, 99], fun _ => 3, 86402, 86402⟩,
      ⟨[97, 98, 99], fun _ => 3, 86403, 86403⟩,
      ⟨[97], fun _ => 1, 172800, 172801⟩] := by
  have hgo : (exec step (new 5 3 6 86400)
      [⟨[97, 98, 99], fun _ => 3, 86401, 86401⟩, ⟨[97, 98, 99], fun _ => 3, 86402, 86402⟩,
        ⟨[97, 98, 99], fun _ => 3, 86403, 86403⟩,
        ⟨[97], fun _ => 1, 172800, 172801⟩]).map LogFile.appended = some 0 := by
    decide
  obtain ⟨l, hl, -⟩ := Option.map_eq_some_iff.mp hgo
  exact (within_iff (by decide) (by decide) hl).mpr (by decide)

/-- Lines of 4000000 bytes on one day, with a limit of 2 GiB less a byte: after 537 of
them the file has been given 2148000000 bytes. -/
theorem within_fails : ¬ ∀ (appends : List Append) (l : LogFile),
    exec step (new 2147483647 3 1024 86400) appends = some l → Within l := by
  intro hall
  have hlen : (List.replicate 4000000 (0 : UInt8)).length = 4000000 := List.length_replicate
  obtain ⟨m, hm, hlimit, happended⟩ := fills (l := new 2147483647 3 1024 86400)
    (a := ⟨List.replicate 4000000 0, fun _ => 4000000, 86401, 86401⟩) (by decide)
    (counted_new (by decide) (by decide)).1 ⟨Nat.le_of_eq hlen, by decide, by decide⟩ rfl 537
  have hwithin := hall _ m hm
  have hmany : m.appended = 2148000000 := by rw [happended, hlen]; rfl
  have hsame : m.rollSize = 2147483647 := hlimit
  rw [Within, hmany, hsame] at hwithin
  omega

end LogFile

end WebServer

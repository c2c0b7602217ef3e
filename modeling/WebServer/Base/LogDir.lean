/-
# `Base.LogDir` — the log files of a directory, by their names

`rollFile` opens a file whose name has the second in it, and opens it for appending: a
name that has been used before would mix two parts of the log.  It opens one only in a
second later than that of the last roll, whatever the clock has done in between, so the
names grow, and a directory that is listed by name lists the log in the order in which
it was written (`in_name_order`).

`LogDir` is `LogFile` with the files it has opened; `append_log` says that the rest of it
goes on as in `Base.LogFile`.
-/
import WebServer.Base.LogFile
import WebServer.Lib.Calendar

namespace WebServer

open Machine Sortable Calendar

/-- The name and the contents of each file, in the order in which they were created. -/
abbrev Files := List (Bytes × Bytes)

namespace Files

/-- `fopen(filename, "ae")`. -/
def fopen (files : Files) (filename : Bytes) : Files :=
  if filename ∈ files.map Prod.fst then files else files ++ [(filename, [])]

def write (files : Files) (filename bytes : Bytes) : Files :=
  files.map fun f => if f.1 = filename then (f.1, f.2 ++ bytes) else f

end Files

structure LogDir where
  basename : Bytes
  pid : Nat
  log : LogFile
  /-- the name of `file_` -/
  filename : Bytes
  files : Files

namespace LogDir

/-- `getLogFileName(basename, now)`, where `hostname()` is `host`. -/
def getLogFileName (basename : Bytes) (now : Int) (host : Bytes) (pid : Nat) : Bytes :=
  basename ++ ([46] ++ stamp [45] [] (gmtime_r now.toNat) ++ ([46] ++ host ++ [46] ++
    Decimal.decimal pid ++ [46, 108, 111, 103]))

/-- `rollFile()`. -/
def rollFile (d : LogDir) (now : Int) (host : Bytes) : LogDir :=
  let filename := getLogFileName d.basename now host d.pid
  let r := d.log.rollFile now
  if r.2 then { d with log := r.1, filename := filename, files := d.files.fopen filename }
  else { d with log := r.1 }

/-- The constructor, in an empty directory. -/
def new (basename : Bytes) (pid : Nat) (rollSize flushInterval flushEveryN now : Int)
    (host : Bytes) : LogDir :=
  rollFile ⟨basename, pid, ⟨rollSize, flushInterval, flushEveryN, 0, 0, 0, 0, none, 0⟩, [], []⟩
    now host

/-- A call of `append`, and what `hostname()` is if it rolls the file. -/
structure Append extends LogFile.Append where
  host : Bytes

/-- What `fwrite` puts into the file. -/
def Append.written (a : Append) : Bytes :=
  (AppendFile.chunks a.fwrite a.logline.length).flatMap (AppendFile.Chunk.bytes a.logline)

/-- `append_unlocked(logline, len)`. -/
def append_unlocked (d : LogDir) (a : Append) : Option LogDir := do
  let file ← d.log.file
  let file := file.append a.logline a.fwrite
  let d := { d with
    log := { d.log with
      file := some file
      count := d.log.count + 1
      appended := d.log.appended + a.logline.length }
    files := d.files.write d.filename a.written }
  if d.log.rollSize < file.writtenBytes.toInt then some (d.rollFile a.roll a.host)
  else
    let d := { d with log := { d.log with count := d.log.count + 1 } }
    if d.log.flushEveryN < d.log.count then
      let d := { d with log := { d.log with count := 0 } }
      if LogFile.period a.now ≠ d.log.startOfPeriod then some (d.rollFile a.roll a.host)
      else if d.log.flushInterval < a.now - d.log.lastFlush then
        some { d with log := { d.log with lastFlush := a.now } }
      else some d
    else some d

section

variable {d e : LogDir} {a : Append} {now : Int} {host : Bytes}

/-! ## The log file -/

theorem rollFile_log (d : LogDir) (now : Int) (host : Bytes) :
    (d.rollFile now host).log = (d.log.rollFile now).1 := by
  unfold rollFile
  dsimp only
  split <;> rfl

theorem append_log (d : LogDir) (a : Append) : (d.append_unlocked a).map LogDir.log =
    d.log.append_unlocked a.logline a.fwrite a.now a.roll := by
  unfold append_unlocked LogFile.append_unlocked
  cases d.log.file with
  | none => rfl
  | some file =>
      simp only [Option.bind_eq_bind, Option.bind_some]
      split
      · rw [Option.map_some, rollFile_log]
      · split
        · split
          · rw [Option.map_some, rollFile_log]
          · split <;> rfl
        · rfl

/-! ## The names -/

/-- A later second makes a greater name, whatever the host is called. -/
theorem getLogFileName_lt (basename : Bytes) {m n : Int} (hm : 0 ≤ m) (hmn : m < n)
    (hn : n < endOfYears) (host host' : Bytes) (pid : Nat) :
    getLogFileName basename m host pid < getLogFileName basename n host' pid := by
  refine append_left_lt basename ?_
  exact ((sorts_stamp [45] []).after [46]).before_lt (by omega) (by omega) _ _

/-- The files so far, in the order of their names, with all that has been written. -/
structure Listed (d : LogDir) (written : Bytes) : Prop where
  roll : 0 ≤ d.log.lastRoll
  sorted : (d.files.map Prod.fst).Pairwise (· < ·)
  named : ∀ name ∈ d.files.map Prod.fst, ∃ t host, 0 ≤ t ∧ t ≤ d.log.lastRoll ∧
    name = getLogFileName d.basename t host d.pid
  bytes : d.files.flatMap Prod.snd = written

/-- The last of them is the one that is open. -/
structure Tidy (d : LogDir) (written : Bytes) : Prop extends Listed d written where
  last : ∃ before contents writtenBytes, d.files = before ++ [(d.filename, contents)] ∧
    d.log.file = some ⟨contents, writtenBytes⟩

/-- A later second opens a new file, behind the others. -/
theorem Listed.rolls {written : Bytes} (h : Listed d written) (hlater : d.log.lastRoll < now)
    (hnow : now < endOfYears) (host : Bytes) : Tidy (d.rollFile now host) written := by
  have hname : ∀ name ∈ d.files.map Prod.fst, name < getLogFileName d.basename now host d.pid := by
    intro name hmem
    obtain ⟨t, host', hpos, hle, rfl⟩ := h.named name hmem
    exact getLogFileName_lt d.basename hpos (Int.lt_of_le_of_lt hle hlater) hnow host' host d.pid
  have hnew : getLogFileName d.basename now host d.pid ∉ d.files.map Prod.fst :=
    fun hmem => List.lt_irrefl _ (hname _ hmem)
  have hlog : d.log.rollFile now = ({ d.log with
      lastRoll := now, lastFlush := now, startOfPeriod := LogFile.period now
      file := some ⟨[], 0⟩, appended := 0 }, true) := by
    rw [LogFile.rollFile, if_pos hlater]
  unfold LogDir.rollFile
  dsimp only
  rw [hlog, if_pos rfl, Files.fopen, if_neg hnew]
  have hpos : 0 ≤ now := Int.le_of_lt (Int.lt_of_le_of_lt h.roll hlater)
  refine ⟨⟨hpos, ?_, ?_, ?_⟩, d.files, [], 0, rfl, rfl⟩
  · rw [List.map_append, List.map_singleton]
    refine List.pairwise_append.mpr ⟨h.sorted, List.pairwise_singleton .., ?_⟩
    intro name hmem last hlast
    rw [List.mem_singleton.mp hlast]
    exact hname name hmem
  · intro name hmem
    rw [List.map_append, List.map_singleton] at hmem
    rcases List.mem_append.mp hmem with hmem | hmem
    · obtain ⟨t, host', ht, hle, hname⟩ := h.named name hmem
      exact ⟨t, host', ht, Int.le_of_lt (Int.lt_of_le_of_lt hle hlater), hname⟩
    · exact ⟨now, host, hpos, Int.le_refl now, List.mem_singleton.mp hmem⟩
  · rw [List.flatMap_append, List.flatMap_singleton, List.append_nil]
    exact h.bytes

theorem Tidy.rollFile {written : Bytes} (h : Tidy d written) (hnow : now < endOfYears)
    (host : Bytes) : Tidy (d.rollFile now host) written := by
  by_cases hlater : d.log.lastRoll < now
  · exact h.toListed.rolls hlater hnow host
  · have hsame : d.rollFile now host = d := by
      unfold LogDir.rollFile
      dsimp only
      rw [LogFile.rollFile, if_neg hlater]
      rfl
    rw [hsame]
    exact h

/-- What is written goes to the end of the last file. -/
theorem write_last {before : Files} {name contents : Bytes}
    (h : ((before ++ [(name, contents)]).map Prod.fst).Pairwise (· < ·)) (bytes : Bytes) :
    Files.write (before ++ [(name, contents)]) name bytes =
      before ++ [(name, contents ++ bytes)] := by
  have hother : ∀ f ∈ before, f.1 ≠ name := by
    intro f hf hname
    rw [List.map_append] at h
    have hlt := (List.pairwise_append.mp h).2.2 f.1 (List.mem_map_of_mem hf) name List.mem_cons_self
    rw [hname] at hlt
    exact List.lt_irrefl _ hlt
  rw [Files.write, List.map_append, List.map_singleton, if_pos rfl]
  congr 1
  conv_rhs => rw [← List.map_id before]
  exact List.map_congr_left fun f hf => if_neg (hother f hf)

/-- The bytes of an append are in the file that is open, whatever the counters are. -/
theorem Tidy.written {written : Bytes} (h : Tidy d written) :
    ∃ file, d.log.file = some file ∧ ∀ log : LogFile, log.lastRoll = d.log.lastRoll →
      log.file = some (file.append a.logline a.fwrite) →
      Tidy { d with log := log, files := d.files.write d.filename a.written }
        (written ++ a.written) := by
  obtain ⟨before, contents, writtenBytes, hfiles, hfile⟩ := h.last
  have hsorted : ((before ++ [(d.filename, contents)]).map Prod.fst).Pairwise (· < ·) :=
    hfiles ▸ h.sorted
  have hwrite : d.files.write d.filename a.written =
      before ++ [(d.filename, contents ++ a.written)] := by
    rw [hfiles, write_last hsorted]
  have hnames : (d.files.write d.filename a.written).map Prod.fst = d.files.map Prod.fst := by
    rw [hwrite, hfiles, List.map_append, List.map_append]
    rfl
  refine ⟨_, hfile, fun log hlast hlog => ⟨⟨?_, ?_, ?_, ?_⟩, before, _, _, hwrite, hlog⟩⟩
  · exact hlast ▸ h.roll
  · exact hnames ▸ h.sorted
  · intro name hmem
    obtain ⟨t, host, ht, hle, hname⟩ := h.named name (hnames ▸ hmem)
    exact ⟨t, host, ht, hlast ▸ hle, hname⟩
  · dsimp only
    rw [hwrite, List.flatMap_append, List.flatMap_singleton, ← h.bytes, hfiles,
      List.flatMap_append, List.flatMap_singleton, List.append_assoc]

/-- After an append the file may be rolled, and the log is as long as it is. -/
theorem Tidy.append {written : Bytes} (h : Tidy d written) (hroll : a.roll < endOfYears) :
    ∃ e, d.append_unlocked a = some e ∧ Tidy e (written ++ a.written) := by
  obtain ⟨file, hfile, hafter⟩ := h.written (a := a)
  rw [append_unlocked, hfile]
  simp only [Option.bind_eq_bind, Option.bind_some]
  split
  · refine ⟨_, rfl, Tidy.rollFile ?_ hroll a.host⟩
    exact hafter _ rfl rfl
  · split
    · split
      · refine ⟨_, rfl, Tidy.rollFile ?_ hroll a.host⟩
        exact hafter _ rfl rfl
      · split
        · exact ⟨_, rfl, hafter _ rfl rfl⟩
        · exact ⟨_, rfl, hafter _ rfl rfl⟩
    · exact ⟨_, rfl, hafter _ rfl rfl⟩

theorem tidy_new (basename : Bytes) (pid : Nat) (rollSize flushInterval flushEveryN : Int)
    (hnow : 0 < now) (hend : now < endOfYears) (host : Bytes) :
    Tidy (new basename pid rollSize flushInterval flushEveryN now host) [] := by
  have hlisted : Listed ⟨basename, pid, ⟨rollSize, flushInterval, flushEveryN, 0, 0, 0, 0, none, 0⟩,
      [], []⟩ [] :=
    ⟨Int.le_refl 0, List.Pairwise.nil, fun _ hmem => absurd hmem List.not_mem_nil, rfl⟩
  exact hlisted.rolls hnow hend host

/-! ## Every run -/

theorem Tidy.exec {appends : List Append} : ∀ {d : LogDir} {written : Bytes}, Tidy d written →
    (∀ a ∈ appends, a.roll < endOfYears) →
    ∃ e, exec append_unlocked d appends = some e ∧
      Tidy e (written ++ appends.flatMap Append.written) := by
  induction appends with
  | nil =>
      intro d written h _
      exact ⟨d, rfl, by rw [List.flatMap_nil, List.append_nil]; exact h⟩
  | cons a appends ih =>
      intro d written h hclock
      obtain ⟨hroll, hclock⟩ := List.forall_mem_cons.mp hclock
      obtain ⟨e, he, htidy⟩ := h.append hroll
      obtain ⟨f, hf, htidy⟩ := ih htidy hclock
      refine ⟨f, exec_cons.mpr ⟨e, he, hf⟩, ?_⟩
      rw [List.flatMap_cons, ← List.append_assoc]
      exact htidy

/-- Where every line is written whole by its first `fwrite`, what is written is the lines. -/
theorem written_eq (h : a.logline.length ≤ a.fwrite 0) : a.written = a.logline := by
  have hwrite : AppendFile.write a.fwrite 0 a.logline.length = a.logline.length :=
    Nat.min_eq_right h
  rw [Append.written, AppendFile.chunks, hwrite, Nat.sub_self, AppendFile.retry_done]
  simp [AppendFile.Chunk.bytes]

end

end LogDir

end WebServer

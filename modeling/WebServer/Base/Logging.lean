/-
# `Base.Logging` — the records of `LOG`

A `Logger` makes one record: its constructor inserts the local time and a newline, what
stands behind `LOG` follows, and its destructor inserts the place in the source and
another newline, and gives what the buffer has by then to `AsyncLogging`.

A record is always shorter than a buffer of the backend, which therefore takes it
(`Valid.output_eq`).  One that had room for all its pieces, none of which has a
newline, ends with its second newline; so what is in the files can be taken apart into
the statements again (`read_back`).
-/
import WebServer.Lib.Terminated
import WebServer.Base.Convert
import WebServer.Base.LogPipeline

namespace WebServer

/-- `Impl`. -/
structure Logger where
  stream_ : LogStream
  line_ : Int
  basename_ : Bytes

namespace Logging

open Machine LogStream Sortable Calendar

def newline : UInt8 := 10

/-- `"%Y-%m-%d %H:%M:%S\n"`. -/
def timeText (tm : Tm) : Bytes :=
  (Decimal.digits (1900 + tm.tm_year)).reverse ++ 45 :: (padded 2 (tm.tm_mon + 1) ++
    45 :: (padded 2 tm.tm_mday ++ 32 :: (padded 2 tm.tm_hour ++ 58 :: (padded 2 tm.tm_min ++
      58 :: (padded 2 tm.tm_sec ++ [newline])))))

/-- What `strftime` leaves in `str_t`: nothing that can be told, if the text and its NUL
do not fit.  `time` counts the seconds by the local clock. -/
def str_t (time : Nat) : Option Bytes :=
  let text := timeText (gmtime_r time)
  if text.length < 26 then some text else none

def formatTime (l : Logger) (time : Nat) : Option Logger := do
  let str ← str_t time
  let stream ← LogStream.step l.stream_ (.cstring (some str))
  some { l with stream_ := stream }

/-- `Logger(fileName, line)`. -/
def new (fileName : Bytes) (line : Int) (time : Nat) : Option Logger :=
  formatTime ⟨LogStream.new, line, fileName⟩ time

/-- What the destructor inserts. -/
def place (basename : Bytes) (line : Int) : List Insertion :=
  [.cstring (some [32, 45, 45, 32]), .string basename, .char 58, .integer .int line, .char newline]

/-- `~Logger()`: what it calls `output` with. -/
def delete (l : Logger) : Option Memory := do
  let stream ← exec LogStream.step l.stream_ (place l.basename_ l.line_)
  some stream.contents

/-- `LOG << …;`, and where and when. -/
structure Statement where
  fileName : Bytes
  line : Int
  time : Nat
  pieces : List Insertion

def Statement.output (st : Statement) : Option Memory := do
  let l ← new st.fileName st.line st.time
  let stream ← exec LogStream.step l.stream_ st.pieces
  delete { l with stream_ := stream }

/-- All that is inserted for a statement. -/
def Statement.insertions (st : Statement) : List Insertion :=
  .cstring (some (timeText (gmtime_r st.time))) :: (st.pieces ++ place st.fileName st.line)

def Statement.text (st : Statement) : Bytes := st.insertions.flatMap Insertion.text

example : (Statement.text ⟨[97], 7, 951782400, [.integer .int (-5)]⟩) =
    [50, 48, 48, 48, 45, 48, 50, 45, 50, 57, 32, 48, 48, 58, 48, 48, 58, 48, 48, 10,
      45, 53, 32, 45, 45, 32, 97, 58, 55, 10] := by
  decide +kernel

/-! ## What is inserted -/

/-- Pieces of less than 2 GiB. -/
def Small (inserted : List Insertion) : Prop :=
  ∀ ins ∈ inserted, ins.Valid ∧ ins.text.length < 2 ^ 31

/-- They go through, and the array has what it should. -/
theorem exec_insertions {inserted : List Insertion} : ∀ {s : LogStream}, Small inserted → Sized s →
    Safe s → ∃ t, exec LogStream.step s inserted = some t ∧ Sized t ∧ Safe t ∧
      t.inserted = s.inserted ++ inserted := by
  induction inserted with
  | nil =>
      intro s _ hs hsafe
      exact ⟨s, rfl, hs, hsafe, (List.append_nil _).symm⟩
  | cons ins inserted ih =>
      intro s hsmall hs hsafe
      obtain ⟨⟨hvalid, hlength⟩, hrest⟩ := List.forall_mem_cons.mp hsmall
      have hstep : LogStream.step s ins =
          some { s.insert ins with inserted := s.inserted ++ [ins] } :=
        if_pos ⟨hsafe.inside, hvalid⟩
      obtain ⟨t, ht, hs', hsafe', hinserted⟩ :=
        ih hrest (sized_step hs hstep) ((safe_step hs hsafe hstep).mpr (fair_of_small hlength))
      refine ⟨t, exec_cons.mpr ⟨_, hstep, ht⟩, hs', hsafe', ?_⟩
      rw [hinserted, List.append_assoc, List.singleton_append]

/-- Where there is room for all of it, all of it is there. -/
theorem foldl_fill {inserted : List Insertion} : ∀ {line : Bytes},
    line.length + (inserted.flatMap Insertion.text).length + 32 ≤ kLargeBuffer →
    inserted.foldl fill line = line ++ inserted.flatMap Insertion.text := by
  induction inserted with
  | nil =>
      intro line _
      exact (List.append_nil line).symm
  | cons ins inserted ih =>
      intro line hroom
      rw [List.flatMap_cons, List.length_append] at hroom
      have hins : ins.room ≤ ins.text.length + 32 := by
        cases ins with
        | integer type v => exact Nat.le_add_left _ _
        | _ => exact Nat.add_le_add_left (by decide) _
      have hfill : fill line ins = line ++ ins.text := if_pos (by omega)
      rw [List.foldl_cons, hfill, ih (by rw [List.length_append]; omega), List.flatMap_cons,
        List.append_assoc]

/-! ## The time -/

theorem mem_padded {w n : Nat} {c : UInt8} (h : c ∈ padded w n) : ∃ d < 10, c = Decimal.char d := by
  rcases List.mem_append.mp h with hzero | hdigit
  · exact ⟨0, by decide, List.eq_of_mem_replicate hzero⟩
  · exact Decimal.mem_digits (List.mem_reverse.mp hdigit)

/-- A digit is neither a NUL nor a newline. -/
theorem char_plain : ∀ d < 10, Decimal.char d ≠ 0 ∧ Decimal.char d ≠ newline := by decide

theorem not_mem_padded (w n : Nat) : 0 ∉ padded w n ∧ newline ∉ padded w n := by
  constructor
  · intro h
    obtain ⟨d, hd, heq⟩ := mem_padded h
    exact (char_plain d hd).1 heq.symm
  · intro h
    obtain ⟨d, hd, heq⟩ := mem_padded h
    exact (char_plain d hd).2 heq.symm

theorem not_mem_digits (n : Nat) : 0 ∉ Decimal.digits n ∧ newline ∉ Decimal.digits n := by
  have hplain := not_mem_padded 0 n
  rw [padded, Nat.zero_sub, List.replicate_zero, List.nil_append, List.mem_reverse,
    List.mem_reverse] at hplain
  exact hplain

theorem zero_not_mem_timeText (tm : Tm) : 0 ∉ timeText tm := by
  simp [timeText, newline, (not_mem_digits _).1, (not_mem_padded _ _).1]

theorem count_timeText (tm : Tm) : (timeText tm).count newline = 1 := by
  have hdigits : ∀ n, (Decimal.digits n).count newline = 0 := fun n =>
    List.count_eq_zero.mpr (not_mem_digits n).2
  have hpadded : ∀ w n, (padded w n).count newline = 0 := fun w n =>
    List.count_eq_zero.mpr (not_mem_padded w n).2
  simp only [timeText, List.count_append, List.count_cons, List.count_reverse, hdigits, hpadded]
  decide

theorem length_timeText {time : Nat} (h : time < endOfYears) :
    (timeText (gmtime_r time)).length = 20 := by
  obtain ⟨-, hmon, -, hmday, hhour, hmin, hsec⟩ := timegm_gmtime_r time
  have htwo : ∀ {n}, n < 100 → (padded 2 n).length = 2 := fun hn => length_padded hn
  have hlong := monthLength_le (isLeap (1900 + (gmtime_r time).tm_year)) (gmtime_r time).tm_mon
  have hyear : (gmtime_r time).tm_year < 8100 :=
    Nat.add_lt_add_left (yearOf_lt (Nat.div_lt_div_of_lt_of_dvd (by decide) h)) 70
  have hthree : 70 ≤ (gmtime_r time).tm_year := Nat.le_add_right _ _
  have hfour : (Decimal.digits (1900 + (gmtime_r time).tm_year)).length = 4 :=
    Nat.le_antisymm (length_digits_le (w := 3) (by omega)) (lt_length_digits (w := 3) (by omega))
  simp only [timeText, List.length_append, List.length_cons, List.length_reverse, List.length_nil,
    hfour, htwo (show (gmtime_r time).tm_mon + 1 < 100 by omega),
    htwo (show (gmtime_r time).tm_mday < 100 by omega),
    htwo (show (gmtime_r time).tm_hour < 100 by omega),
    htwo (show (gmtime_r time).tm_min < 100 by omega),
    htwo (show (gmtime_r time).tm_sec < 100 by omega)]

theorem str_t_eq {time : Nat} (h : time < endOfYears) :
    str_t time = some (timeText (gmtime_r time)) :=
  if_pos (by rw [length_timeText h]; decide)

/-! ## One statement -/

section

variable {st : Statement}

/-- A time with four digits of the year, and no piece of 2 GiB. -/
structure Statement.Valid (st : Statement) : Prop where
  time : st.time < endOfYears
  pieces : Small st.pieces
  line : IntType.int.Has st.line
  fileName : st.fileName.length < 2 ^ 31

theorem small_place {basename : Bytes} {line : Int} (hline : IntType.int.Has line)
    (hname : basename.length < 2 ^ 31) : Small (place basename line) := by
  refine List.forall_mem_cons.mpr ⟨by decide, List.forall_mem_cons.mpr ⟨⟨?_, hname⟩, ?_⟩⟩
  · exact Nat.lt_trans hname (by decide)
  · refine List.forall_mem_cons.mpr ⟨by decide, List.forall_mem_cons.mpr ⟨⟨hline, ?_⟩, ?_⟩⟩
    · exact Nat.lt_of_le_of_lt (length_convert hline) (by decide)
    · exact List.forall_mem_cons.mpr ⟨by decide, List.forall_mem_nil _⟩

theorem small_time {time : Nat} (h : time < endOfYears) :
    Small [.cstring (some (timeText (gmtime_r time)))] := by
  have hlength : (timeText (gmtime_r time)).length < 2 ^ 31 := by
    rw [length_timeText h]
    decide
  exact List.forall_mem_cons.mpr ⟨⟨⟨Nat.lt_trans hlength (by decide), zero_not_mem_timeText _⟩,
    hlength⟩, List.forall_mem_nil _⟩

/-- The record: each piece whole or not at all, and shorter than a buffer. -/
theorem Statement.Valid.output_eq (hst : st.Valid) :
    st.output = some ((filled st.insertions).map some) ∧
      (filled st.insertions).length < kLargeBuffer := by
  obtain ⟨s, hs, hsized, hsafe, htime⟩ :=
    exec_insertions (small_time hst.time) sized_new safe_new
  obtain ⟨t, ht, hsized, hsafe, hpieces⟩ := exec_insertions hst.pieces hsized hsafe
  obtain ⟨u, hu, hsized, hsafe, hplace⟩ :=
    exec_insertions (small_place hst.line hst.fileName) hsized hsafe
  obtain ⟨s', hs', hnil⟩ := exec_cons.mp hs
  cases hnil
  have hall : u.inserted = st.insertions := by
    rw [hplace, hpieces, htime, List.append_assoc]
    rfl
  rw [← hall, hsafe.length_filled hsized]
  refine ⟨?_, hsafe.room⟩
  rw [Statement.output, new, formatTime, str_t_eq hst.time]
  simp only [Option.bind_eq_bind, Option.bind_some, hs', ht, delete, hu, hsafe.whole]

/-- A statement whose pieces have no newline, and that the buffer has room for. -/
structure Statement.Plain (st : Statement) : Prop where
  time : st.time < endOfYears
  pieces : ∀ ins ∈ st.pieces, ins.Valid ∧ newline ∉ ins.text
  line : IntType.int.Has st.line
  fileName : newline ∉ st.fileName
  room : st.text.length + 32 ≤ kLargeBuffer

theorem length_le_text (ins : Insertion) (h : ins ∈ st.insertions) :
    ins.text.length ≤ st.text.length := by
  obtain ⟨before, after, hsplit⟩ := List.append_of_mem h
  rw [Statement.text, hsplit, List.flatMap_append, List.flatMap_cons, List.length_append,
    List.length_append]
  omega

theorem Statement.Plain.valid (h : st.Plain) : st.Valid where
  time := h.time
  pieces := fun ins hins => by
    have hle : ins.text.length ≤ st.text.length :=
      length_le_text ins (List.mem_cons_of_mem _ (List.mem_append_left _ hins))
    have hroom : st.text.length + 32 ≤ 4000000 := h.room
    exact ⟨(h.pieces ins hins).1, by omega⟩
  line := h.line
  fileName := by
    have hle : st.fileName.length ≤ st.text.length :=
      length_le_text (.string st.fileName)
        (List.mem_cons_of_mem _ (List.mem_append_right _ (List.mem_cons_of_mem _
          List.mem_cons_self)))
    have hroom : st.text.length + 32 ≤ 4000000 := h.room
    omega

theorem Statement.Plain.filled_eq (h : st.Plain) : filled st.insertions = st.text := by
  have hroom : ([] : Bytes).length + (st.insertions.flatMap Insertion.text).length + 32 ≤
      kLargeBuffer := by
    rw [List.length_nil, Nat.zero_add]
    exact h.room
  exact foldl_fill hroom

theorem count_convert (v : Int) : (convert v).count newline = 0 := by
  refine List.count_eq_zero.mpr fun hmem => ?_
  rw [convert_eq_decimal, Decimal.decimal, List.mem_append, List.mem_reverse] at hmem
  refine hmem.elim (fun hsign => ?_) (not_mem_digits _).2
  split at hsign
  · exact absurd hsign (by decide)
  · exact absurd hsign List.not_mem_nil

theorem Statement.Plain.output_eq (h : st.Plain) :
    st.output = some (st.text.map some) ∧ st.text.length < kLargeBuffer := by
  rw [← h.filled_eq]
  exact h.valid.output_eq

/-- The record ends with its second newline. -/
theorem Statement.Plain.ends (h : st.Plain) : Terminated.Ends newline 1 st.text := by
  have hpieces : (st.pieces.flatMap Insertion.text).count newline = 0 := by
    refine List.count_eq_zero.mpr fun hmem => ?_
    obtain ⟨ins, hins, hmem⟩ := List.mem_flatMap.mp hmem
    exact (h.pieces ins hins).2 hmem
  have hfile : st.fileName.count newline = 0 := List.count_eq_zero.mpr h.fileName
  refine ⟨timeText (gmtime_r st.time) ++ (st.pieces.flatMap Insertion.text ++
    ([32, 45, 45, 32] ++ (st.fileName ++ ([58] ++ convert st.line)))), ?_, ?_⟩
  · simp only [Statement.text, Statement.insertions, place, List.flatMap_cons, List.flatMap_append,
      List.flatMap_nil, Insertion.text, List.append_assoc, List.append_nil]
  · rw [List.count_append, List.count_append, List.count_append, List.count_append,
      List.count_append, count_timeText, hpieces, hfile, count_convert]
    decide

end

/-! ## Every run -/

/-- In every run of the logger in which `LOG` makes what is appended, from plain
statements (none inserts a floating-point number), the clock is between 1970 and 10000 and
the kernel writes the buffers whole:
no statement is lost on its way into a buffer, and what the files hold by name, taken
apart after every second newline, are statements whole and in the order in which they
were logged; as long as no more than 25 buffers are found at once, all but those still on
their way. -/
theorem read_back {c : LogPipeline.Config} {acts : List LogPipeline.Action}
    {m : AsyncLogging.State} {statements : List Statement} (hplain : ∀ st ∈ statements, st.Plain)
    (hlog : statements.map Statement.output =
      (LogPipeline.records acts).map fun line => some (line.map some))
    (hfair : Meets (LogPipeline.step c) LogPipeline.Fair LogPipeline.start acts)
    (h : exec AsyncLogging.step AsyncLogging.start (acts.map LogPipeline.Action.act) = some m)
    (hstarted : m.place ≠ .unstarted) :
    ∃ s d, exec (LogPipeline.step c) LogPipeline.start acts = some s ∧ s.logging = m ∧
      s.output = some d ∧ ∃ shown : List Statement, shown.Sublist statements ∧
        Terminated.split newline 1 (d.files.flatMap Prod.snd) = shown.map Statement.text ∧
        (Meets AsyncLogging.step AsyncLogging.Bounded AsyncLogging.start
            (acts.map LogPipeline.Action.act) →
          shown.map Statement.text ++ m.unwritten ++ m.pending =
            statements.map Statement.text) := by
  have hrecords : LogPipeline.records acts = statements.map Statement.text := by
    have hwhole : Function.Injective fun line : Bytes => some (line.map some) :=
      (Option.some_injective _).comp (List.map_injective_iff.mpr (Option.some_injective _))
    refine List.map_injective_iff.mpr hwhole ?_
    rw [← hlog, List.map_map]
    exact List.map_congr_left fun st hst => (hplain st hst).output_eq.1
  have hfits : ∀ line ∈ LogPipeline.records acts, line.length < AsyncLogging.kLargeBuffer := by
    rw [hrecords]
    exact List.forall_mem_map.mpr fun st hst => (hplain st hst).output_eq.2
  obtain ⟨s, d, hs, hm, hd, htidy, hkept, htotal⟩ :=
    LogPipeline.written_of_run (c := c) hfits hfair h hstarted
  rw [hrecords] at hkept htotal
  obtain ⟨shown, hshown, houtput⟩ := List.sublist_map_iff.mp hkept
  rw [houtput] at htidy htotal
  refine ⟨s, d, hs, hm, hd, shown, hshown, ?_, htotal⟩
  rw [htidy.bytes]
  exact Terminated.split_flatten
    (List.forall_mem_map.mpr fun st hst => (hplain st (hshown.subset hst)).ends)

/-- Two statements at noon of the first of March 2000. -/
def hello : Statement := ⟨[109, 97, 105, 110], 12, 951912000, [.cstring (some [104, 105])]⟩

def count : Statement := ⟨[109, 97, 105, 110], 13, 951912000, [.integer .int (-5), .bool true]⟩

theorem plain_hello : hello.Plain :=
  ⟨by decide, by decide +kernel, by decide, by decide, by decide +kernel⟩

theorem plain_count : count.Plain :=
  ⟨by decide, by decide +kernel, by decide, by decide, by decide +kernel⟩

def twoStatements : List LogPipeline.Action :=
  [.start, .test, .append hello.text, .append count.text, .lock, .wake, .trim, .write].map
    LogPipeline.atNoon

/-- Both have come to the file. -/
theorem read_back_two : ∃ s d,
    exec (LogPipeline.step ⟨[108], 1000, 3, 7⟩) LogPipeline.start twoStatements = some s ∧
    s.output = some d ∧ ∃ shown : List Statement, shown.Sublist [hello, count] ∧
      Terminated.split newline 1 (d.files.flatMap Prod.snd) = shown.map Statement.text ∧
      shown.map Statement.text ++ s.logging.unwritten ++ s.logging.pending =
        [hello.text, count.text] := by
  have hgo : (exec AsyncLogging.step AsyncLogging.start
      (twoStatements.map LogPipeline.Action.act)).map AsyncLogging.State.place =
        some (.write 1) := by
    decide +kernel
  obtain ⟨m, hm, hplace⟩ := Option.map_eq_some_iff.mp hgo
  have hstarted : m.place ≠ .unstarted := by
    rw [hplace]
    nofun
  have hlog : [hello, count].map Statement.output =
      (LogPipeline.records twoStatements).map fun line => some (line.map some) := by
    rw [List.map_cons, List.map_singleton, plain_hello.output_eq.1, plain_count.output_eq.1]
    rfl
  obtain ⟨s, d, hs, rfl, hd, shown, hshown, hsplit, hall⟩ :=
    read_back (c := ⟨[108], 1000, 3, 7⟩)
      (List.forall_mem_cons.mpr ⟨plain_hello, List.forall_mem_singleton.mpr plain_count⟩)
      hlog (by decide +kernel) hm hstarted
  exact ⟨s, d, hs, hd, shown, hshown, hsplit, hall (by decide +kernel)⟩

end Logging

end WebServer

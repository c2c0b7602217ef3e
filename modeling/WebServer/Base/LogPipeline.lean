/-
# `Base.LogPipeline` — from `append` to the files

The backend of `AsyncLogging` (`Base.AsyncLogging`) gives each buffer to its `LogFile`
(`Base.LogDir`) as one line of that.  The two run as one machine: `threadFunc` makes the
`LogFile` when it starts, and a step of the writing loop is an append of the buffer's
bytes.

What the files hold, by name, is then what `output` of the backend says has been
written (`Piped`): whole records, in the order in which the threads got the mutex, none
twice (`logged`).
-/
import WebServer.Base.LogDir
import WebServer.Base.LogOrder

namespace WebServer

namespace LogPipeline

open Machine AsyncLogging

/-- What the constructor of `AsyncLogging` is given, and the process. -/
structure Config where
  basename : Bytes
  rollSize : Int
  flushInterval : Int
  pid : Nat

/-- A step of the logger, and what the kernel answers in it. -/
structure Action where
  act : AsyncLogging.Action
  now : Int
  roll : Int
  host : Bytes
  fwrite : Nat → Nat

structure State where
  logging : AsyncLogging.State
  output : Option LogDir

def start : State := ⟨AsyncLogging.start, none⟩

/-- The buffer that the writing loop is at. -/
def writing (s : AsyncLogging.State) : Option FixedBuffer :=
  match s.place with
  | .write i => (s.buffersToWrite[i]?).join
  | _ => none

/-- `output.append(buffer->data(), buffer->length())`. -/
def Action.line (a : Action) (b : FixedBuffer) : LogDir.Append where
  logline := b.lines.flatten
  fwrite := a.fwrite
  now := a.now
  roll := a.roll
  host := a.host

/-- What the backend does with its `LogFile` in a step. -/
def effect (c : Config) (s : State) (a : Action) : Option (Option LogDir) :=
  match a.act with
  | .start =>
      some (some (LogDir.new c.basename c.pid c.rollSize c.flushInterval 1024 a.now a.host))
  | .write =>
      match writing s.logging with
      | some b => do
          let output ← s.output
          let output ← output.append_unlocked (a.line b)
          some (some output)
      | none => some s.output
  | _ => some s.output

def step (c : Config) (s : State) (a : Action) : Option State := do
  let logging ← AsyncLogging.step s.logging a.act
  let output ← effect c s a
  some ⟨logging, output⟩

/-- The clock is between 1970 and 10000, and the buffer is written whole. -/
def Fair (s : State) (a : Action) : Prop :=
  0 < a.now ∧ a.now < Calendar.endOfYears ∧ a.roll < Calendar.endOfYears ∧
    ∀ b, writing s.logging = some b → b.lines.flatten.length ≤ a.fwrite 0

instance (s : State) (a : Action) : Decidable (Fair s a) :=
  match h : writing s.logging with
  | none => decidable_of_iff
      (0 < a.now ∧ a.now < Calendar.endOfYears ∧ a.roll < Calendar.endOfYears)
      (by simp [Fair, h])
  | some b => decidable_of_iff (0 < a.now ∧ a.now < Calendar.endOfYears ∧
        a.roll < Calendar.endOfYears ∧ b.lines.flatten.length ≤ a.fwrite 0)
      (by simp [Fair, h])

/-- The files hold what the backend has written. -/
def Piped (s : State) : Prop :=
  (s.logging.place = .unstarted ∧ s.output = none ∧ s.logging.output = []) ∨
    (s.logging.place ≠ .unstarted ∧
      ∃ d, s.output = some d ∧ LogDir.Tidy d s.logging.output.flatten)

/-! ## One step -/

section

variable {s : State} {l m : AsyncLogging.State} {a : Action} {c : Config}

/-- Only the writing loop writes, and only `start` starts. -/
theorem quiet_step {act : AsyncLogging.Action} (h : AsyncLogging.step l act = some m)
    (hstart : act ≠ .start) (hwrite : act ≠ .write) :
    m.output = l.output ∧ (m.place = .unstarted ↔ l.place = .unstarted) := by
  have hmoved : ∀ {p q : Place}, l.place = p → m.place = q → p ≠ .unstarted → q ≠ .unstarted →
      (m.place = .unstarted ↔ l.place = .unstarted) := by
    intro p q hp hq hne hne'
    rw [hp, hq]
    exact iff_of_false hne' hne
  cases act with
  | append line =>
      obtain ⟨current, -, h⟩ := Option.bind_eq_some_iff.mp h
      dsimp only at h
      split at h <;> (cases h; exact ⟨rfl, Iff.rfl⟩)
  | start => exact absurd rfl hstart
  | stop =>
      obtain ⟨-, h⟩ := Option.ite_none_right_eq_some.mp h
      cases h
      exact ⟨rfl, Iff.rfl⟩
  | test =>
      obtain ⟨hplace, h⟩ := Option.ite_none_right_eq_some.mp h
      cases h
      refine ⟨rfl, hmoved hplace rfl nofun ?_⟩
      cases l.running <;> nofun
  | lock =>
      obtain ⟨hplace, h⟩ := Option.ite_none_right_eq_some.mp h
      cases hempty : l.buffers.isEmpty with
      | true | false =>
          rw [hempty] at h
          cases h
          exact ⟨rfl, hmoved hplace rfl nofun nofun⟩
  | wake | trim =>
      obtain ⟨hplace, h⟩ := Option.ite_none_right_eq_some.mp h
      cases h
      exact ⟨rfl, hmoved hplace rfl nofun nofun⟩
  | write => exact absurd rfl hwrite
  | refill =>
      obtain ⟨hplace, h⟩ := Option.ite_none_right_eq_some.mp h
      obtain ⟨new1, new2, rfl, -, -⟩ := refill_spec h
      exact ⟨rfl, hmoved hplace rfl nofun nofun⟩

theorem write_step (h : AsyncLogging.step l .write = some m) :
    m.output = l.output ++ ((writing l).map FixedBuffer.lines).getD [] ∧
      l.place ≠ .unstarted ∧ m.place ≠ .unstarted := by
  rw [AsyncLogging.step] at h
  rw [writing]
  cases hplace : l.place with
  | write i =>
      rw [hplace] at h
      dsimp only at h ⊢
      cases hget : l.buffersToWrite[i]? with
      | none =>
          rw [hget] at h
          cases h
          exact ⟨(List.append_nil _).symm, by simp, by simp⟩
      | some p =>
          rw [hget] at h
          obtain ⟨b, rfl, h⟩ := Option.bind_eq_some_iff.mp h
          cases h
          exact ⟨rfl, by simp, by simp⟩
  | _ => rw [hplace] at h; cases h

theorem piped_write (hs : Piped s) (hfair : Fair s a) (hact : a.act = .write)
    (h : AsyncLogging.step s.logging .write = some m) :
    ∃ output, effect c s a = some output ∧ Piped ⟨m, output⟩ := by
  obtain ⟨hclock, hend, hroll, hwhole⟩ := hfair
  obtain ⟨houtput, hplace, hplace'⟩ := write_step h
  rcases hs with ⟨hunstarted, -, -⟩ | ⟨-, d, hd, htidy⟩
  · exact absurd hunstarted hplace
  · unfold effect
    rw [hact]
    dsimp only
    cases hwriting : writing s.logging with
    | none =>
        rw [hwriting] at houtput
        refine ⟨_, rfl, Or.inr ⟨hplace', d, hd, ?_⟩⟩
        rw [houtput, Option.map_none, Option.getD_none, List.append_nil]
        exact htidy
    | some b =>
        rw [hwriting] at houtput
        obtain ⟨e, he, htidy⟩ := htidy.append (a := a.line b) hroll
        rw [LogDir.written_eq (hwhole b hwriting)] at htidy
        dsimp only
        rw [hd, Option.bind_eq_bind, Option.bind_some, he]
        refine ⟨_, rfl, Or.inr ⟨hplace', e, rfl, ?_⟩⟩
        rw [houtput, Option.map_some, Option.getD_some, List.flatten_append]
        exact htidy

theorem piped_step (hs : Piped s) (hfair : Fair s a)
    (h : AsyncLogging.step s.logging a.act = some m) :
    ∃ t, step c s a = some t ∧ t.logging = m ∧ Piped t := by
  have hboth : ∃ output, effect c s a = some output ∧ Piped ⟨m, output⟩ := by
    by_cases hwrite : a.act = .write
    · exact piped_write hs hfair hwrite (hwrite ▸ h)
    · by_cases hstart : a.act = .start
      · rw [hstart] at h
        obtain ⟨hplace, h⟩ := Option.ite_none_right_eq_some.mp h
        cases h
        rcases hs with ⟨-, -, houtput⟩ | ⟨hstarted, -⟩
        · unfold effect
          rw [hstart]
          refine ⟨_, rfl, Or.inr ⟨nofun, _, rfl, ?_⟩⟩
          rw [houtput]
          exact LogDir.tidy_new c.basename c.pid c.rollSize c.flushInterval 1024 hfair.1 hfair.2.1
            a.host
        · exact absurd hplace hstarted
      · obtain ⟨houtput, hplace⟩ := quiet_step h hstart hwrite
        have hsame : effect c s a = some s.output := by
          unfold effect
          cases hact : a.act with
          | start => exact absurd hact hstart
          | write => exact absurd hact hwrite
          | _ => rfl
        refine ⟨_, hsame, ?_⟩
        rw [Piped]
        dsimp only
        rw [houtput, Ne, hplace]
        exact hs
  obtain ⟨output, heffect, hpiped⟩ := hboth
  refine ⟨⟨m, output⟩, ?_, rfl, hpiped⟩
  rw [step, h, Option.bind_eq_bind, Option.bind_some, heffect]
  rfl

/-! ## Every run -/

theorem piped_exec {acts : List Action} : ∀ {s : State} {m : AsyncLogging.State}, Piped s →
    Meets (step c) Fair s acts → exec AsyncLogging.step s.logging (acts.map Action.act) = some m →
    ∃ t, exec (step c) s acts = some t ∧ t.logging = m ∧ Piped t := by
  induction acts with
  | nil =>
      intro s m hs _ h
      cases h
      exact ⟨s, rfl, rfl, hs⟩
  | cons a acts ih =>
      intro s m hs hfair h
      obtain ⟨l, hl, h⟩ := exec_cons.mp h
      obtain ⟨t, ht, rfl, hpiped⟩ := piped_step (c := c) hs hfair.1 hl
      obtain ⟨u, hu, hm, hpiped⟩ := ih hpiped (hfair.2 t ht) h
      exact ⟨u, exec_cons.mpr ⟨t, ht, hu⟩, hm, hpiped⟩

/-- The records that `append` is called with, in the order of the mutex. -/
def records (acts : List Action) : List Bytes :=
  (acts.map Action.act).filterMap AsyncLogging.Action.logline?

/-- What the files of a run hold: the records that the backend has written, of those
appended. -/
theorem written_of_run {acts : List Action} {m : AsyncLogging.State}
    (hfits : ∀ line ∈ records acts, line.length < kLargeBuffer)
    (hfair : Meets (step c) Fair start acts)
    (h : exec AsyncLogging.step AsyncLogging.start (acts.map Action.act) = some m)
    (hstarted : m.place ≠ .unstarted) :
    ∃ s d, exec (step c) start acts = some s ∧ s.logging = m ∧ s.output = some d ∧
      LogDir.Tidy d m.output.flatten ∧ m.output.Sublist (records acts) ∧
        (Meets AsyncLogging.step Bounded AsyncLogging.start (acts.map Action.act) →
          m.output ++ m.unwritten ++ m.pending = records acts) := by
  have hpiped : Piped start := Or.inl ⟨rfl, rfl, rfl⟩
  obtain ⟨s, hs, rfl, hpiped⟩ := piped_exec hpiped hfair h
  have happended : s.logging.appended = records acts := by
    refine (exec_appended h).trans (appends_eq fun line hline => hfits line ?_)
    exact List.mem_filterMap.mpr ⟨_, hline, rfl⟩
  rcases hpiped with ⟨hunstarted, -⟩ | ⟨-, d, hd, htidy⟩
  · exact absurd hunstarted hstarted
  · refine ⟨s, d, hs, rfl, hd, htidy, ?_, ?_⟩
    · have hkept : Kept s.logging :=
        exec_invariant (fun s a t hs _ ha => step_keeps hs ha) (meets_true _ _) kept_start h
      rw [← happended]
      exact ((List.sublist_append_left _ _).trans (List.sublist_append_left _ _)).trans
        hkept.written
    · intro hbounded
      have hsound : Sound s.logging :=
        exec_invariant (fun s a t hs hC ha => step_sound hs hC ha) hbounded sound_start h
      rw [← happended]
      exact hsound.total

end

/-- A step at noon of the first of March 2000, with a kernel that writes all it is given. -/
def atNoon (act : AsyncLogging.Action) : Action :=
  ⟨act, 951912000, 951912000, [104], fun _ => kLargeBuffer⟩

def first : List Action :=
  [.start, .test, .append [104, 105], .lock, .wake, .trim, .append [33], .write].map atNoon

end LogPipeline

end WebServer

/-
# `Base.AsyncLogging` — the asynchronous logger

The front end of `AsyncLogging.{h,cc}` (`append`, by any thread), the backend
(`threadFunc`), `start` and `stop`, as the steps between which another thread can
come: the critical sections of `mutex_`, the test of `running_`, and what the
backend does outside the mutex, one buffer at a time.  A wait on `cond_` ends by
a notify, by its timeout or spuriously, so it can end at any time, and what
`notify` does needs no trace in the state.

A `FixedBuffer` is the list of the lines in it, of which `data()` is the
concatenation; `output` is what `LogFile::append` has been given, `appended` the
lines that `append` was called with, in the order in which it got the mutex.  A
line that is too long for any buffer is dropped there, and is not counted.

`Sound`: as long as no more than 25 buffers are pending, nothing is lost on the
way,

    output ++ unwritten ++ pending  =  appended

with what the backend has taken and not yet written, and what is still in
`buffers_` and `currentBuffer_`.
-/
import WebServer.Lib.Machine
import WebServer.Lib.Memory
import Mathlib.Algebra.Ring.Nat

namespace WebServer

namespace AsyncLogging

open Machine

def kLargeBuffer : Nat := 4000 * 1000

structure FixedBuffer where
  lines : List Bytes
  deriving DecidableEq

namespace FixedBuffer

def new : FixedBuffer := ⟨[]⟩

def length (b : FixedBuffer) : Nat := (b.lines.map List.length).sum

def avail (b : FixedBuffer) : Nat := kLargeBuffer - b.length

/-- `append(buf, len)`; a line that does not fit is dropped. -/
def append (b : FixedBuffer) (line : Bytes) : FixedBuffer :=
  if line.length < b.avail then ⟨b.lines ++ [line]⟩ else b

def reset (_ : FixedBuffer) : FixedBuffer := ⟨[]⟩

end FixedBuffer

/-- A `unique_ptr<Buffer>`; following a null one is undefined. -/
abbrev BufferPtr := Option FixedBuffer

/-- Where the backend thread stands. -/
inductive Place where
  | unstarted
  /-- At the condition of the loop. -/
  | condition
  /-- Before the critical section. -/
  | lock
  /-- In `cond_.waitForSeconds`. -/
  | waiting
  /-- After the critical section. -/
  | trim
  /-- In the writing loop, at that index. -/
  | write (i : Nat)
  | refill
  /-- Out of the loop. -/
  | over
  deriving DecidableEq

structure State where
  running : Bool
  currentBuffer : BufferPtr
  nextBuffer : BufferPtr
  buffers : List BufferPtr
  newBuffer1 : BufferPtr
  newBuffer2 : BufferPtr
  buffersToWrite : List BufferPtr
  place : Place
  output : List Bytes
  appended : List Bytes
  deriving DecidableEq

/-- The constructor, with the buffers that `threadFunc` starts with. -/
def start : State where
  running := false
  currentBuffer := some .new
  nextBuffer := some .new
  buffers := []
  newBuffer1 := some .new
  newBuffer2 := some .new
  buffersToWrite := []
  place := .unstarted
  output := []
  appended := []

/-! ## The steps -/

/-- `append(logline, len)`. -/
def append (s : State) (logline : Bytes) : Option State := do
  let current ← s.currentBuffer
  let s := { s with
    appended := if logline.length < kLargeBuffer then s.appended ++ [logline] else s.appended }
  if logline.length < current.avail then
    some { s with currentBuffer := some (current.append logline) }
  else
    let next := s.nextBuffer.getD .new
    some { s with
      buffers := s.buffers ++ [some current]
      currentBuffer := some (next.append logline), nextBuffer := none }

/-- The critical section of the backend, after the wait. -/
def swap (s : State) : State :=
  { s with
    buffersToWrite := s.buffers ++ [s.currentBuffer]
    currentBuffer := s.newBuffer1
    newBuffer1 := none
    buffers := s.buffersToWrite
    nextBuffer := if s.nextBuffer.isNone then s.newBuffer2 else s.nextBuffer
    newBuffer2 := if s.nextBuffer.isNone then none else s.newBuffer2
    place := .trim }

/-- The refilling of one spare buffer from the back of `buffersToWrite`. -/
def refillOne (spare : BufferPtr) (buffersToWrite : List BufferPtr) :
    Option (BufferPtr × List BufferPtr) :=
  match spare with
  | some b => some (some b, buffersToWrite)
  | none => do
      let back ← buffersToWrite.getLast?
      let b ← back
      some (some b.reset, buffersToWrite.dropLast)

/-- The end of an iteration, from the `resize(2)` on. -/
def refill (s : State) : Option State := do
  let (newBuffer1, buffersToWrite) ← refillOne s.newBuffer1 (s.buffersToWrite.take 2)
  let (newBuffer2, _) ← refillOne s.newBuffer2 buffersToWrite
  some { s with newBuffer1, newBuffer2, buffersToWrite := [], place := .condition }

inductive Action where
  | append (logline : Bytes)
  | start
  /-- `stop` up to its `join`. -/
  | stop
  /-- Test `running_`. -/
  | test
  /-- Get the mutex, and wait if there is nothing in `buffers_`. -/
  | lock
  /-- The wait ends. -/
  | wake
  /-- Drop what is more than two buffers, if they are more than 25. -/
  | trim
  /-- Write the next buffer, or leave the writing loop. -/
  | write
  | refill
  deriving DecidableEq

def step (s : State) : Action → Option State
  | .append logline => append s logline
  | .start =>
      if s.place = .unstarted then some { s with running := true, place := .condition } else none
  | .stop => if s.running then some { s with running := false } else none
  | .test =>
      if s.place = .condition then some { s with place := if s.running then .lock else .over }
      else none
  | .lock =>
      if s.place = .lock then
        some (if s.buffers.isEmpty then { s with place := .waiting } else swap s)
      else none
  | .wake => if s.place = .waiting then some (swap s) else none
  | .trim =>
      if s.place = .trim then
        some { s with
          buffersToWrite :=
            if s.buffersToWrite.length > 25 then s.buffersToWrite.take 2 else s.buffersToWrite
          place := .write 0 }
      else none
  | .write =>
      match s.place with
      | .write i =>
          match s.buffersToWrite[i]? with
          | some p => do
              let b ← p
              some { s with output := s.output ++ b.lines, place := .write (i + 1) }
          | none => some { s with place := .refill }
      | _ => none
  | .refill => if s.place = .refill then refill s else none

/-! ## What is where -/

/-- The lines of a buffer. -/
def lines (p : BufferPtr) : List Bytes := (p.map FixedBuffer.lines).getD []

namespace State

/-- What the backend has taken and not yet written. -/
def unwritten (s : State) : List Bytes :=
  match s.place with
  | .trim => s.buffersToWrite.flatMap lines
  | .write i => (s.buffersToWrite.drop i).flatMap lines
  | _ => []

/-- What is still to be taken. -/
def pending (s : State) : List Bytes := s.buffers.flatMap lines ++ lines s.currentBuffer

end State

/-- No iteration finds more than 25 buffers. -/
def Bounded (s : State) (a : Action) : Prop := a = .trim → s.buffersToWrite.length ≤ 25

instance (s : State) (a : Action) : Decidable (Bounded s a) :=
  inferInstanceAs (Decidable (_ → _))

structure Sound (s : State) : Prop where
  total : s.output ++ s.unwritten ++ s.pending = s.appended
  next : lines s.nextBuffer = []
  new1 : lines s.newBuffer1 = []
  new2 : lines s.newBuffer2 = []
  idle : s.place = .unstarted ∨ s.place = .condition ∨ s.place = .lock ∨ s.place = .waiting →
    s.buffersToWrite = []
  started : s.running = true → s.place ≠ .unstarted

theorem sound_start : Sound start := ⟨rfl, rfl, rfl, rfl, fun _ => rfl, nofun⟩

/-! ## What one step preserves -/

/-- What is added to an empty buffer, and to the list of what was appended. -/
def fitting (line : Bytes) : List Bytes := if line.length < kLargeBuffer then [line] else []

theorem append_empty {b : FixedBuffer} (hb : b.lines = []) (line : Bytes) :
    (b.append line).lines = fitting line := by
  have havail : b.avail = kLargeBuffer := by
    rw [FixedBuffer.avail, FixedBuffer.length, hb]
    rfl
  rw [FixedBuffer.append, havail, fitting]
  split
  · rw [hb]
    rfl
  · exact hb

theorem append_fitting (ls : List Bytes) (line : Bytes) :
    (if line.length < kLargeBuffer then ls ++ [line] else ls) = ls ++ fitting line := by
  rw [fitting]
  split
  · rfl
  · exact (List.append_nil _).symm

/-- What `append` adds, it adds to what is pending. -/
theorem append_spec {s t : State} {line : Bytes} (hnext : lines s.nextBuffer = [])
    (h : append s line = some t) :
    t.pending = s.pending ++ fitting line ∧ t.appended = s.appended ++ fitting line ∧
      lines t.nextBuffer = [] ∧ ∃ current next buffers appended, t =
        { s with
          currentBuffer := current, nextBuffer := next, buffers := buffers
          appended := appended } := by
  obtain ⟨current, hcurrent, h⟩ := Option.bind_eq_some_iff.mp h
  have happended := append_fitting s.appended line
  have hlines : lines s.currentBuffer = current.lines := by rw [hcurrent]; rfl
  dsimp only at h
  split at h
  · rename_i hfits
    have hline : line.length < kLargeBuffer := Nat.lt_of_lt_of_le hfits (Nat.sub_le _ _)
    cases h
    refine ⟨?_, happended, hnext, _, _, _, _, rfl⟩
    show s.buffers.flatMap lines ++ (current.append line).lines = _
    rw [State.pending, hlines, FixedBuffer.append, if_pos hfits, fitting, if_pos hline,
      List.append_assoc]
  · cases h
    refine ⟨?_, happended, rfl, _, _, _, _, rfl⟩
    have hspare : (s.nextBuffer.getD .new).lines = [] := by
      cases hb : s.nextBuffer with
      | none => rfl
      | some b => exact (congrArg lines hb).symm.trans hnext
    show (s.buffers ++ [some current]).flatMap lines ++ ((s.nextBuffer.getD .new).append line).lines
      = _
    rw [append_empty hspare, State.pending, hlines, List.flatMap_append]
    simp [lines]

theorem sound_append {s t : State} (hs : Sound s) {line : Bytes} (h : append s line = some t) :
    Sound t := by
  obtain ⟨hpending, happended, hnext, _, _, _, _, rfl⟩ := append_spec hs.next h
  refine ⟨?_, hnext, hs.new1, hs.new2, hs.idle, hs.started⟩
  have htotal := hs.total
  rw [hpending, happended, ← htotal, ← List.append_assoc]
  rfl

/-- The swap takes all that is pending. -/
theorem swap_spec {s : State} (hs : Sound s)
    (hplace : s.place = .lock ∨ s.place = .waiting) :
    (swap s).unwritten = s.pending ∧ (swap s).pending = [] ∧ s.unwritten = [] := by
  have hidle : s.buffersToWrite = [] := hs.idle (Or.inr (Or.inr hplace))
  refine ⟨?_, ?_, ?_⟩
  · show (s.buffers ++ [s.currentBuffer]).flatMap lines = _
    rw [State.pending, List.flatMap_append, List.flatMap_singleton]
  · show s.buffersToWrite.flatMap lines ++ lines s.newBuffer1 = []
    rw [hidle, hs.new1]
    rfl
  · rcases hplace with h | h <;> rw [State.unwritten, h]

theorem sound_swap {s : State} (hs : Sound s) (hplace : s.place = .lock ∨ s.place = .waiting) :
    Sound (swap s) := by
  obtain ⟨hunwritten, hpending, hnone⟩ := swap_spec hs hplace
  refine ⟨?_, ?_, rfl, ?_, ?_, fun _ => nofun⟩
  · have htotal := hs.total
    rw [hnone, List.append_nil] at htotal
    rw [hunwritten, hpending, List.append_nil]
    exact htotal
  · show lines (if s.nextBuffer.isNone then s.newBuffer2 else s.nextBuffer) = []
    split
    · exact hs.new2
    · exact hs.next
  · show lines (if s.nextBuffer.isNone then none else s.newBuffer2) = []
    split
    · rfl
    · exact hs.new2
  · intro h
    rcases h with h | h | h | h <;> exact absurd h nofun

theorem refillOne_empty {spare p : BufferPtr} {bs bs' : List BufferPtr} (hspare : lines spare = [])
    (h : refillOne spare bs = some (p, bs')) : lines p = [] := by
  cases spare with
  | some b =>
      cases h
      exact hspare
  | none =>
      obtain ⟨back, -, h⟩ := Option.bind_eq_some_iff.mp h
      obtain ⟨b, -, h⟩ := Option.bind_eq_some_iff.mp h
      cases h
      rfl

theorem refill_spec {s t : State} (h : refill s = some t) : ∃ new1 new2,
    t = { s with newBuffer1 := new1, newBuffer2 := new2, buffersToWrite := [], place := .condition }
      ∧ (lines s.newBuffer1 = [] → lines new1 = []) ∧
      (lines s.newBuffer2 = [] → lines new2 = []) := by
  obtain ⟨⟨new1, bs⟩, h₁, h⟩ := Option.bind_eq_some_iff.mp h
  obtain ⟨⟨new2, bs'⟩, h₂, h⟩ := Option.bind_eq_some_iff.mp h
  cases h
  exact ⟨new1, new2, rfl, fun h => refillOne_empty h h₁, fun h => refillOne_empty h h₂⟩

/-- Writing takes from what is unwritten, and gives it to the file. -/
theorem write_spec {s t : State} (h : step s .write = some t) :
    t.output ++ t.unwritten = s.output ++ s.unwritten ∧ (∃ i, s.place = .write i) ∧
      ((∃ i, t.place = .write i) ∨ t.place = .refill) ∧ ∃ output place, t =
        { s with output := output, place := place } := by
  rw [step] at h
  cases hplace : s.place with
  | write i =>
      rw [hplace] at h
      dsimp only at h
      have hunwritten : s.unwritten = (s.buffersToWrite.drop i).flatMap lines := by
        rw [State.unwritten, hplace]
      cases hget : s.buffersToWrite[i]? with
      | none =>
          rw [hget] at h
          cases h
          have hdrop : s.buffersToWrite.drop i = [] :=
            List.drop_eq_nil_of_le (List.getElem?_eq_none_iff.mp hget)
          refine ⟨?_, ⟨i, rfl⟩, Or.inr rfl, _, _, rfl⟩
          rw [hunwritten, hdrop]
          rfl
      | some p =>
          rw [hget] at h
          obtain ⟨b, hb, h⟩ := Option.bind_eq_some_iff.mp h
          cases h
          obtain ⟨hlt, hi⟩ := List.getElem?_eq_some_iff.mp hget
          refine ⟨?_, ⟨i, rfl⟩, Or.inl ⟨i + 1, rfl⟩, _, _, rfl⟩
          show s.output ++ b.lines ++ (s.buffersToWrite.drop (i + 1)).flatMap lines = _
          rw [hunwritten, List.drop_eq_getElem_cons hlt, hi, hb, List.flatMap_cons,
            List.append_assoc]
          rfl
  | _ => rw [hplace] at h; exact absurd h nofun

/-- Every step keeps the invariant, if no more than 25 buffers are found. -/
theorem step_sound {s t : State} (hs : Sound s) {a : Action} (hbounded : Bounded s a)
    (h : step s a = some t) : Sound t := by
  cases a with
  | append line => exact sound_append hs h
  | start =>
      obtain ⟨hplace, h⟩ := Option.ite_none_right_eq_some.mp h
      cases h
      have htotal := hs.total
      have hidle := hs.idle (Or.inl hplace)
      rw [State.unwritten, hplace] at htotal
      exact ⟨htotal, hs.next, hs.new1, hs.new2, fun _ => hidle, fun _ => nofun⟩
  | stop =>
      obtain ⟨-, h⟩ := Option.ite_none_right_eq_some.mp h
      cases h
      exact ⟨hs.total, hs.next, hs.new1, hs.new2, hs.idle, nofun⟩
  | test =>
      obtain ⟨hplace, h⟩ := Option.ite_none_right_eq_some.mp h
      cases h
      have htotal := hs.total
      have hidle := hs.idle (Or.inr (Or.inl hplace))
      rw [State.unwritten, hplace] at htotal
      cases hrunning : s.running with
      | true => exact ⟨htotal, hs.next, hs.new1, hs.new2, fun _ => hidle, fun _ => nofun⟩
      | false => exact ⟨htotal, hs.next, hs.new1, hs.new2, fun _ => hidle, nofun⟩
  | lock =>
      obtain ⟨hplace, h⟩ := Option.ite_none_right_eq_some.mp h
      cases h
      split
      · have htotal := hs.total
        rw [State.unwritten, hplace] at htotal
        exact ⟨htotal, hs.next, hs.new1, hs.new2,
          fun _ => hs.idle (Or.inr (Or.inr (Or.inl hplace))), fun _ => nofun⟩
      · exact sound_swap hs (Or.inl hplace)
  | wake =>
      obtain ⟨hplace, h⟩ := Option.ite_none_right_eq_some.mp h
      cases h
      exact sound_swap hs (Or.inr hplace)
  | trim =>
      obtain ⟨hplace, h⟩ := Option.ite_none_right_eq_some.mp h
      cases h
      rw [if_neg (Nat.not_lt.mpr (hbounded rfl))]
      have htotal := hs.total
      rw [State.unwritten, hplace] at htotal
      refine ⟨htotal, hs.next, hs.new1, hs.new2, ?_, fun _ => nofun⟩
      intro hidle
      rcases hidle with h | h | h | h <;> exact absurd h nofun
  | write =>
      obtain ⟨hsame, -, hplace, output, place, rfl⟩ := write_spec h
      refine ⟨?_, hs.next, hs.new1, hs.new2, ?_, ?_⟩
      · rw [hsame]
        exact hs.total
      · intro hidle
        rcases hplace with ⟨i, hplace⟩ | hplace <;> rw [hplace] at hidle <;>
          rcases hidle with h | h | h | h <;> exact absurd h nofun
      · intro _
        rcases hplace with ⟨i, hplace⟩ | hplace <;> rw [hplace] <;> nofun
  | refill =>
      obtain ⟨hplace, h⟩ := Option.ite_none_right_eq_some.mp h
      obtain ⟨new1, new2, rfl, h₁, h₂⟩ := refill_spec h
      have htotal := hs.total
      rw [State.unwritten, hplace] at htotal
      exact ⟨htotal, hs.next, h₁ hs.new1, h₂ hs.new2, fun _ => rfl, fun _ => nofun⟩

end AsyncLogging

end WebServer

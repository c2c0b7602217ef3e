/-
# `Base.LogOrder` — what the logger writes, and in which order

Without the bound of `Sound` on what an iteration finds, lines are lost, but
only whole buffers of them: what has been written, what the backend has taken
and what is pending is a sublist of the lines appended, in the order of the
appends (`Kept`).  A step reads nothing of `appended`, so the lines lost may as
well never have been appended, and `Kept` is `Sound` for the lines that are left.

`RawBuffer` is the object that a `FixedBuffer` stands for, with the bytes that
`reset` leaves in it (`RawBuffer.append_holds`, `RawBuffer.reset_holds`).
-/
import WebServer.Base.AsyncLogging
import Mathlib.Data.List.Flatten

namespace WebServer

namespace AsyncLogging

open Machine

/-! ## The bytes of a buffer -/

/-- `data_`, and `cur_` as an offset into it. -/
structure RawBuffer where
  data : Memory
  cur : Nat

namespace RawBuffer

/-- The constructor, and `bzero`. -/
def new : RawBuffer := ⟨(List.replicate kLargeBuffer 0).map some, 0⟩

def avail (c : RawBuffer) : Nat := kLargeBuffer - c.cur

def append (c : RawBuffer) (buf : Bytes) : RawBuffer :=
  if buf.length < c.avail then ⟨Memory.poke c.data c.cur buf, c.cur + buf.length⟩ else c

/-- The bytes stay where they are. -/
def reset (c : RawBuffer) : RawBuffer := ⟨c.data, 0⟩

/-- `data()` with `length()`. -/
def contents (c : RawBuffer) : Memory := Memory.window c.data 0 c.cur

/-- The array holds the lines of the buffer, and nothing else. -/
structure Holds (c : RawBuffer) (b : FixedBuffer) : Prop where
  size : c.data.length = kLargeBuffer
  cur : c.cur = b.length
  fits : c.cur ≤ kLargeBuffer
  contents : c.contents = b.lines.flatten.map some

theorem new_holds : new.Holds .new where
  size := by rw [new, List.length_map, List.length_replicate]
  cur := rfl
  fits := Nat.zero_le _
  contents := Memory.window_zero _ _

theorem Holds.avail_eq {c : RawBuffer} {b : FixedBuffer} (h : c.Holds b) : c.avail = b.avail := by
  rw [RawBuffer.avail, FixedBuffer.avail, h.cur]

theorem append_holds {c : RawBuffer} {b : FixedBuffer} (h : c.Holds b) (buf : Bytes) :
    (c.append buf).Holds (b.append buf) := by
  rw [RawBuffer.append, FixedBuffer.append, h.avail_eq]
  split
  · rename_i hfits
    have hroom : c.cur + buf.length ≤ kLargeBuffer := by
      rw [← h.avail_eq, RawBuffer.avail] at hfits
      omega
    have hsize := h.size
    refine ⟨?_, ?_, hroom, ?_⟩
    · rw [Memory.length_poke (by omega)]
      exact hsize
    · show c.cur + buf.length = _
      rw [h.cur, FixedBuffer.length, FixedBuffer.length, List.map_append, List.sum_append]
      rfl
    · show Memory.window (Memory.poke c.data c.cur buf) 0 (c.cur - 0 + buf.length) = _
      rw [Memory.window_poke (Nat.zero_le _) (by omega), List.flatten_append, List.map_append]
      have hcontents : Memory.window c.data 0 (c.cur - 0) = b.lines.flatten.map some := h.contents
      rw [hcontents, List.flatten_cons, List.flatten_nil, List.append_nil]
  · exact h

theorem reset_holds {c : RawBuffer} {b : FixedBuffer} (h : c.Holds b) : c.reset.Holds b.reset where
  size := h.size
  cur := rfl
  fits := Nat.zero_le _
  contents := Memory.window_zero _ _

end RawBuffer

/-! ## What is left of the lines -/

/-- The lines an action adds to what was appended. -/
def Action.lines : Action → List Bytes
  | .append logline => fitting logline
  | _ => []

/-- The lines a run appends. -/
def appends (as : List Action) : List Bytes := as.flatMap Action.lines

theorem append_appended {s t : State} {line : Bytes} (h : append s line = some t)
    (kept : List Bytes) :
    append { s with appended := kept } line = some { t with appended := kept ++ fitting line } := by
  have hadd := append_fitting kept line
  obtain ⟨current, hcurrent, h⟩ := Option.bind_eq_some_iff.mp h
  simp only [append, hcurrent, hadd, Option.bind_eq_bind, Option.bind_some] at h ⊢
  split at h
  · rename_i hfits
    cases h
    exact if_pos hfits
  · rename_i hfull
    cases h
    exact if_neg hfull

/-- A step reads nothing of what was appended. -/
theorem step_kept {s t : State} {a : Action} (h : step s a = some t) (kept : List Bytes) :
    step { s with appended := kept } a = some { t with appended := kept ++ a.lines } := by
  have hsame : ∀ b : Action, b.lines = [] →
      step { s with appended := kept } b = some { t with appended := kept } →
      step { s with appended := kept } b = some { t with appended := kept ++ b.lines } := by
    intro b hb hstep
    rw [hb, List.append_nil]
    exact hstep
  cases a with
  | append line => exact append_appended h kept
  | lock =>
      obtain ⟨hplace, h⟩ := Option.ite_none_right_eq_some.mp h
      cases h
      refine hsame _ rfl ((if_pos hplace).trans ?_)
      cases hempty : s.buffers.isEmpty with
      | true => rfl
      | false => rfl
  | write =>
      refine hsame _ rfl ?_
      rw [step] at h ⊢
      cases hplace : s.place with
      | write i =>
          rw [hplace] at h
          dsimp only at h ⊢
          cases hget : s.buffersToWrite[i]? with
          | none =>
              rw [hget] at h
              cases h
              rfl
          | some p =>
              rw [hget] at h
              obtain ⟨b, rfl, h⟩ := Option.bind_eq_some_iff.mp h
              cases h
              rfl
      | _ => rw [hplace] at h; cases h
  | refill =>
      obtain ⟨hplace, h⟩ := Option.ite_none_right_eq_some.mp h
      obtain ⟨⟨new1, bs⟩, h₁, h⟩ := Option.bind_eq_some_iff.mp h
      obtain ⟨⟨new2, bs'⟩, h₂, h⟩ := Option.bind_eq_some_iff.mp h
      cases h
      refine hsame _ rfl ((if_pos hplace).trans ?_)
      rw [refill]
      simp only [h₁, h₂, Option.bind_eq_bind, Option.bind_some]
  | start | stop | test | wake | trim =>
      obtain ⟨hplace, h⟩ := Option.ite_none_right_eq_some.mp h
      cases h
      exact hsame _ rfl (if_pos hplace)

theorem step_appended {s t : State} {a : Action} (h : step s a = some t) :
    t.appended = s.appended ++ a.lines := by
  have hkept := step_kept h s.appended
  have hsame : some t = some { t with appended := s.appended ++ a.lines } := h.symm.trans hkept
  exact congrArg State.appended (Option.some.inj hsame)

theorem exec_appended {as : List Action} : ∀ {s t : State}, exec step s as = some t →
    t.appended = s.appended ++ appends as := by
  induction as with
  | nil =>
      intro s t h
      cases h
      exact (List.append_nil _).symm
  | cons a as ih =>
      intro s t h
      obtain ⟨u, hstep, hrun⟩ := exec_cons.mp h
      rw [ih hrun, step_appended hstep, List.append_assoc]
      rfl

/-- The state is one of a logger that was never given some of the lines. -/
structure Kept (s : State) : Prop where
  sound : ∃ kept : List Bytes, Sound { s with appended := kept } ∧ kept.Sublist s.appended

theorem kept_start : Kept start := ⟨_, sound_start, List.Sublist.refl _⟩

/-- The overload, too, leaves a sublist: it takes whole buffers out of the middle. -/
theorem kept_overload {s t : State} (hs : Kept s) (hfound : s.buffersToWrite.length > 25)
    (h : step s .trim = some t) : Kept t := by
  obtain ⟨kept, hsound, hsub⟩ := hs.sound
  obtain ⟨hplace, h⟩ := Option.ite_none_right_eq_some.mp h
  cases h
  rw [if_pos hfound]
  have htotal : s.output ++ s.unwritten ++ s.pending = kept := hsound.total
  rw [State.unwritten, hplace] at htotal
  refine ⟨s.output ++ (s.buffersToWrite.take 2).flatMap lines ++ s.pending,
    ⟨rfl, hsound.next, hsound.new1, hsound.new2, ?_, ?_⟩, ?_⟩
  · intro hidle
    rcases hidle with h | h | h | h <;> cases h
  · intro _ h
    cases h
  · refine List.Sublist.trans ?_ hsub
    rw [← htotal]
    exact (((List.take_sublist 2 _).flatMap lines).append_left _).append_right _

theorem step_keeps {s t : State} (hs : Kept s) {a : Action} (h : step s a = some t) : Kept t := by
  by_cases hbounded : Bounded s a
  · obtain ⟨kept, hsound, hsub⟩ := hs.sound
    refine ⟨kept ++ a.lines, step_sound hsound hbounded (step_kept h kept), ?_⟩
    rw [step_appended h]
    exact hsub.append_right _
  · obtain ⟨rfl, hfound⟩ := Classical.not_imp.mp hbounded
    exact kept_overload hs (Nat.lt_of_not_le hfound) h

theorem Kept.written {s : State} (hs : Kept s) :
    (s.output ++ s.unwritten ++ s.pending).Sublist s.appended := by
  obtain ⟨kept, hsound, hsub⟩ := hs.sound
  have htotal : s.output ++ s.unwritten ++ s.pending = kept := hsound.total
  exact htotal ▸ hsub

/-! ## The order of the lines -/

/-- The lines `append` is called with in a run, in the order of the mutex. -/
def Action.logline? : Action → Option Bytes
  | .append logline => some logline
  | _ => none

theorem appends_eq {as : List Action}
    (hfits : ∀ line, Action.append line ∈ as → line.length < kLargeBuffer) :
    appends as = as.filterMap Action.logline? := by
  induction as with
  | nil => rfl
  | cons a as ih =>
      have hrest := ih fun line hline => hfits line (List.mem_cons_of_mem a hline)
      rw [appends, List.flatMap_cons, ← appends, hrest, List.filterMap_cons]
      cases a with
      | append line =>
          rw [Action.lines, fitting, if_pos (hfits line List.mem_cons_self)]
          rfl
      | _ => rfl

/-- What is written is whole lines, each once at most and in the order of the
appends; and as long as no more than 25 buffers are found, it is, with what is
taken and what is pending, all of them. -/
theorem written_in_order {as : List Action} {s : State}
    (hfits : ∀ line, Action.append line ∈ as → line.length < kLargeBuffer)
    (h : exec step start as = some s) :
    s.output.Sublist (as.filterMap Action.logline?) ∧
      (Meets step Bounded start as →
        s.output ++ s.unwritten ++ s.pending = as.filterMap Action.logline?) := by
  have happended : s.appended = as.filterMap Action.logline? :=
    (exec_appended h).trans (appends_eq hfits)
  constructor
  · have hkept : Kept s :=
      exec_invariant (fun s a t hs _ ha => step_keeps hs ha) (meets_true _ as) kept_start h
    rw [← happended]
    exact ((List.sublist_append_left _ _).trans (List.sublist_append_left _ _)).trans hkept.written
  · intro hbounded
    have hsound : Sound s :=
      exec_invariant (fun s a t hs hC ha => step_sound hs hC ha) hbounded sound_start h
    rw [← happended]
    exact hsound.total

/-- A line on its way to the file, and one appended since. -/
theorem written_in_order_two : ∃ s,
    exec step start
      [.start, .test, .append [104, 105], .lock, .wake, .trim, .append [33], .write] = some s ∧
    s.output = [[104, 105]] ∧ s.output.Sublist [[104, 105], [33]] ∧
    s.output ++ s.unwritten ++ s.pending = [[104, 105], [33]] := by
  have hfits : ∀ line, Action.append line ∈
      [.start, .test, .append [104, 105], .lock, .wake, .trim, .append [33], .write] →
      line.length < kLargeBuffer := by
    intro line hline
    simp only [List.mem_cons, Action.append.injEq, List.not_mem_nil, or_false, reduceCtorEq,
      false_or] at hline
    rcases hline with rfl | rfl <;> decide
  obtain ⟨hsub, hall⟩ := written_in_order hfits rfl
  exact ⟨_, rfl, rfl, hsub, hall (by decide +kernel)⟩

end AsyncLogging

end WebServer

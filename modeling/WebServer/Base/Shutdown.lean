/-
# `Base.Shutdown` — what `stop` leaves behind

`stop` sets `running_` to false and joins the backend, which finishes the
iteration it is in and tests `running_`.  Then it takes nothing more: what is in
`buffers_` and `currentBuffer_` at that time is lost.  So the lines appended
before `stop` are all handed to the file exactly when the backend still has the
swap of its iteration before it, or there is nothing to be taken (`handed_iff`).

After `stop` a run is in one of two phases.  While the backend has its swap
before it, what was appended before `stop` is still going to be taken
(`taking_run`); after the swap, and at the condition, what is handed to the file
in the end is what was handed or taken already (`leaving_run`).
-/
import WebServer.Base.AsyncLogging

namespace WebServer

namespace AsyncLogging

open Machine

/-- Between a test that found `running_` true and the swap that follows. -/
def State.Taking (s : State) : Prop := s.place = .lock ∨ s.place = .waiting

/-- After `stop`, and not before a swap. -/
structure State.Leaving (s : State) : Prop where
  stopped : s.running = false
  started : s.place ≠ .unstarted
  taken : ¬s.Taking

/-! ## After the last swap -/

theorem not_taking {s : State} {p : Place} (h : s.place = p) (hlock : p ≠ .lock)
    (hwaiting : p ≠ .waiting) : ¬s.Taking :=
  fun htaking => htaking.elim (fun h' => hlock (h.symm.trans h')) fun h' =>
    hwaiting (h.symm.trans h')

theorem leaving_of_place {s : State} (hstopped : s.running = false)
    (hplace : s.place ∉ [Place.unstarted, .lock, .waiting]) : s.Leaving := by
  simp only [List.mem_cons, List.not_mem_nil, or_false, not_or] at hplace
  exact ⟨hstopped, hplace.1, not_taking rfl hplace.2.1 hplace.2.2⟩

theorem leaving_step {s t : State} (hnext : lines s.nextBuffer = []) (hs : s.Leaving) {a : Action}
    (hbounded : Bounded s a) (h : step s a = some t) :
    t.Leaving ∧ t.output ++ t.unwritten = s.output ++ s.unwritten := by
  obtain ⟨hstopped, hstarted, htaken⟩ := hs
  cases a with
  | append line =>
      obtain ⟨-, -, -, _, _, _, _, rfl⟩ := append_spec hnext h
      exact ⟨⟨hstopped, hstarted, htaken⟩, rfl⟩
  | start => exact absurd (Option.ite_none_right_eq_some.mp h).1 hstarted
  | stop => exact Bool.noConfusion (hstopped.symm.trans (Option.ite_none_right_eq_some.mp h).1)
  | test =>
      obtain ⟨hplace, h⟩ := Option.ite_none_right_eq_some.mp h
      cases h
      have hplace' : (if s.running then Place.lock else .over) = .over := by rw [hstopped]; rfl
      rw [hplace']
      refine ⟨leaving_of_place hstopped (by simp), ?_⟩
      rw [State.unwritten, State.unwritten, hplace]
  | lock => exact absurd (Or.inl (Option.ite_none_right_eq_some.mp h).1) htaken
  | wake => exact absurd (Or.inr (Option.ite_none_right_eq_some.mp h).1) htaken
  | trim =>
      obtain ⟨hplace, h⟩ := Option.ite_none_right_eq_some.mp h
      cases h
      rw [if_neg (Nat.not_lt.mpr (hbounded rfl))]
      refine ⟨leaving_of_place hstopped (by simp), ?_⟩
      rw [State.unwritten, State.unwritten, hplace]
      rfl
  | write =>
      obtain ⟨hsame, -, hplace, output, place, rfl⟩ := write_spec h
      refine ⟨leaving_of_place hstopped ?_, hsame⟩
      rcases hplace with ⟨i, hplace⟩ | hplace <;> rw [hplace] <;> simp
  | refill =>
      obtain ⟨hplace, h⟩ := Option.ite_none_right_eq_some.mp h
      obtain ⟨new1, new2, rfl, -, -⟩ := refill_spec h
      refine ⟨leaving_of_place hstopped (by simp), ?_⟩
      rw [State.unwritten, State.unwritten, hplace]

/-- What is written in the end is what was written or taken. -/
theorem leaving_run {as : List Action} : ∀ {s t : State}, Sound s → s.Leaving →
    Meets step Bounded s as → exec step s as = some t → t.place = .over →
      t.output = s.output ++ s.unwritten := by
  induction as with
  | nil =>
      intro s t _ hs _ h hover
      cases h
      rw [State.unwritten, hover, List.append_nil]
  | cons a as ih =>
      intro s t hsound hs hbounded h hover
      obtain ⟨u, hstep, hrun⟩ := exec_cons.mp h
      obtain ⟨hu, hsame⟩ := leaving_step hsound.next hs hbounded.1 hstep
      have hsound' := step_sound hsound hbounded.1 hstep
      exact (ih hsound' hu (hbounded.2 u hstep) hrun hover).trans hsame

/-! ## Before it -/

theorem taking_step {s t : State} (hs : Sound s) (hstopped : s.running = false)
    (htaking : s.Taking) {a : Action} (h : step s a = some t) :
    t.running = false ∧ ((t.Taking ∧ s.appended <+: t.appended) ∨
      (¬t.Taking ∧ t.place ≠ .unstarted ∧ t.output ++ t.unwritten = s.appended)) := by
  have hswap : (swap s).output ++ (swap s).unwritten = s.appended := by
    obtain ⟨hunwritten, -, hnone⟩ := swap_spec hs htaking
    have htotal := hs.total
    rw [hnone, List.append_nil] at htotal
    rw [hunwritten]
    exact htotal
  have helsewhere : ∀ {p : Place}, s.place = p → p ≠ .lock → p ≠ .waiting → False :=
    fun hp hlock hwaiting => not_taking hp hlock hwaiting htaking
  cases a with
  | append line =>
      obtain ⟨-, happended, -, _, _, _, _, rfl⟩ := append_spec hs.next h
      exact ⟨hstopped, Or.inl ⟨htaking, ⟨_, happended.symm⟩⟩⟩
  | start => exact (helsewhere (Option.ite_none_right_eq_some.mp h).1 nofun nofun).elim
  | stop => exact absurd (hstopped.symm.trans (Option.ite_none_right_eq_some.mp h).1) nofun
  | test => exact (helsewhere (Option.ite_none_right_eq_some.mp h).1 nofun nofun).elim
  | lock =>
      obtain ⟨-, h⟩ := Option.ite_none_right_eq_some.mp h
      cases h
      split
      · exact ⟨hstopped, Or.inl ⟨Or.inr rfl, List.prefix_refl _⟩⟩
      · exact ⟨hstopped, Or.inr ⟨not_taking rfl nofun nofun, nofun, hswap⟩⟩
  | wake =>
      obtain ⟨-, h⟩ := Option.ite_none_right_eq_some.mp h
      cases h
      exact ⟨hstopped, Or.inr ⟨not_taking rfl nofun nofun, nofun, hswap⟩⟩
  | trim => exact (helsewhere (Option.ite_none_right_eq_some.mp h).1 nofun nofun).elim
  | write =>
      obtain ⟨-, ⟨i, hplace⟩, -⟩ := write_spec h
      exact (helsewhere hplace nofun nofun).elim
  | refill => exact (helsewhere (Option.ite_none_right_eq_some.mp h).1 nofun nofun).elim

/-- What was appended before is taken, and written. -/
theorem taking_run {as : List Action} : ∀ {s t : State}, Sound s → s.running = false →
    s.Taking → Meets step Bounded s as → exec step s as = some t → t.place = .over →
    s.appended <+: t.output := by
  induction as with
  | nil =>
      intro s t _ _ htaking _ h hover
      cases h
      rcases htaking with hplace | hplace <;> exact absurd (hplace.symm.trans hover) nofun
  | cons a as ih =>
      intro s t hs hstopped htaking hbounded h hover
      obtain ⟨u, hstep, hrun⟩ := exec_cons.mp h
      obtain ⟨hstopped', hnext⟩ := taking_step hs hstopped htaking hstep
      have hbounded' := hbounded.2 u hstep
      rcases hnext with ⟨htaking', hprefix⟩ | ⟨htaken, hstarted, hsame⟩
      · exact hprefix.trans
          (ih (step_sound hs hbounded.1 hstep) hstopped' htaking' hbounded' hrun hover)
      · have hwritten := leaving_run (step_sound hs hbounded.1 hstep)
          ⟨hstopped', hstarted, htaken⟩ hbounded' hrun hover
        exact (hwritten.trans hsame).symm ▸ List.prefix_refl _

/-! ## Stopping -/

/-- In a run that never finds more than 25 buffers and whose `stop` has returned,
the lines appended before `stop` have all been handed to the file exactly when
`stop` found the backend before a swap, or nothing left to take. -/
theorem handed_iff {pre post : List Action} {s t : State} (hpre : exec step start pre = some s)
    (hpost : exec step s (.stop :: post) = some t)
    (hbounded : Meets step Bounded start (pre ++ .stop :: post)) (hover : t.place = .over) :
    s.appended <+: t.output ↔ s.Taking ∨ s.pending = [] := by
  obtain ⟨hboundedPre, hrest⟩ := meets_append.mp hbounded
  have hs : Sound s :=
    exec_invariant (fun s a t hs hC h => step_sound hs hC h) hboundedPre sound_start hpre
  obtain ⟨u, hstop, hrun⟩ := exec_cons.mp hpost
  obtain ⟨hrunning, hu⟩ := Option.ite_none_right_eq_some.mp hstop
  have hboundedPost := (hrest s hpre).2 u hstop
  have hu' : Sound u := step_sound (a := .stop) hs nofun hstop
  cases hu
  have htake (htaking : s.Taking) : s.appended <+: t.output :=
    taking_run (s := { s with running := false }) hu' rfl htaking hboundedPost hrun hover
  have hleave (htaken : ¬s.Taking) : t.output = s.output ++ s.unwritten :=
    leaving_run (s := { s with running := false }) hu' ⟨rfl, hs.started hrunning, htaken⟩
      hboundedPost hrun hover
  by_cases htaking : s.Taking
  · exact ⟨fun _ => Or.inl htaking, fun _ => htake htaking⟩
  · constructor
    · intro hprefix
      have hlength := hprefix.length_le
      rw [hleave htaking, ← hs.total, List.length_append] at hlength
      exact Or.inr (List.eq_nil_of_length_eq_zero (by omega))
    · rintro (h | hpending)
      · exact htake h
      · have hall : s.appended = t.output := by
          rw [hleave htaking, ← hs.total, hpending, List.append_nil]
        exact hall ▸ List.prefix_refl _

/-- A line appended while the backend waits, and `stop` then. -/
theorem handed_iff_waiting : ∃ s t,
    exec step start [.start, .test, .lock, .append [104, 105]] = some s ∧
    exec step s [.stop, .wake, .trim, .write, .write, .refill, .test] = some t ∧
    s.appended = [[104, 105]] ∧ s.appended <+: t.output :=
  ⟨_, _, rfl, rfl, rfl,
    (@handed_iff [.start, .test, .lock, .append [104, 105]]
      [.wake, .trim, .write, .write, .refill, .test] _ _ rfl rfl (by decide +kernel) rfl).mpr
      (Or.inl (Or.inr rfl))⟩

/-- A line appended and `stop` called before the backend has come to its loop. -/
theorem handed_fails : ¬∀ pre post s t, exec step start pre = some s →
    exec step s (.stop :: post) = some t → Meets step Bounded start (pre ++ .stop :: post) →
    t.place = .over → s.appended <+: t.output := by
  intro hall
  have h := hall [.start, .append [104, 105]] [.test] _ _ rfl rfl (by decide +kernel) rfl
  exact absurd h (by decide +kernel)

end AsyncLogging

end WebServer

/-
# `Base.Spares` — the buffers that go around

Four pointers and two vectors of the logger exchange their buffers.  `append` takes
`nextBuffer_` when the current buffer is full, and leaves the full one in `buffers_`;
an iteration of the backend gives its two spares away and has to find two others in
what it has taken.

`Supplied` is the invariant that makes it so: while `nextBuffer_` is missing there is
a buffer in `buffers_`, and then the swap, which gives away both spares, has taken
that one and the current one (`Refillable`).  Two are left of 26 as well
(`supplied_step`).  With what `Base.LogOrder` says of their lines, both spares are
there and empty at the top of every iteration (`spares_found`).
-/
import WebServer.Base.LogOrder

namespace WebServer

namespace AsyncLogging

open Machine

/-! ## No null pointer is followed -/

/-- The backend has both its spares there. -/
def Place.Spared (p : Place) : Prop :=
  p = .unstarted ∨ p = .condition ∨ p = .lock ∨ p = .waiting

/-- What `buffersToWrite` must have for the spares that are missing: `newBuffer1`
is, and `newBuffer2` may be. -/
def Refillable (s : State) : Prop :=
  1 ≤ s.buffersToWrite.length ∧ (s.newBuffer2 = none → 2 ≤ s.buffersToWrite.length)

structure Supplied (s : State) : Prop where
  current : s.currentBuffer.isSome
  full : ∀ p ∈ s.buffers, p.isSome
  taken : ∀ p ∈ s.buffersToWrite, p.isSome
  next : s.nextBuffer = none → s.buffers ≠ []
  spared : s.place.Spared → s.newBuffer1.isSome ∧ s.newBuffer2.isSome
  refillable : s.place = .trim ∨ (∃ i, s.place = .write i) ∨ s.place = .refill → Refillable s

theorem supplied_start : Supplied start where
  current := rfl
  full := fun _ hp => absurd hp List.not_mem_nil
  taken := fun _ hp => absurd hp List.not_mem_nil
  next := nofun
  spared := fun _ => ⟨rfl, rfl⟩
  refillable := by
    rintro (h | ⟨i, h⟩ | h) <;> cases h

theorem supplied_append {s t : State} (hs : Supplied s) {line : Bytes}
    (h : append s line = some t) : Supplied t := by
  obtain ⟨current, hcurrent, h⟩ := Option.bind_eq_some_iff.mp h
  dsimp only at h
  split at h
  · cases h
    exact ⟨rfl, hs.full, hs.taken, hs.next, hs.spared, hs.refillable⟩
  · cases h
    refine ⟨rfl, ?_, hs.taken, ?_, hs.spared, hs.refillable⟩
    · intro p hp
      rcases List.mem_append.mp hp with hp | hp
      · exact hs.full p hp
      · rw [List.mem_singleton.mp hp]
        rfl
    · intro _ hnil
      exact List.cons_ne_nil _ _ (List.append_eq_nil_iff.mp hnil).2

theorem supplied_swap {s : State} (hs : Supplied s) (hspared : s.place.Spared) :
    Supplied (swap s) := by
  obtain ⟨hnew1, hnew2⟩ := hs.spared hspared
  have hlength : (swap s).buffersToWrite.length = s.buffers.length + 1 :=
    List.length_append
  refine ⟨hnew1, hs.taken, ?_, ?_, ?_, ?_⟩
  · intro p hp
    rcases List.mem_append.mp hp with hp | hp
    · exact hs.full p hp
    · rw [List.mem_singleton.mp hp]
      exact hs.current
  · intro hnone
    have hnext : (if s.nextBuffer.isNone then s.newBuffer2 else s.nextBuffer) = none := hnone
    cases hb : s.nextBuffer with
    | none =>
        rw [hb] at hnext
        rw [show s.newBuffer2 = none from hnext] at hnew2
        cases hnew2
    | some b =>
        rw [hb] at hnext
        cases hnext
  · rintro (h | h | h | h) <;> cases h
  · intro _
    refine ⟨by omega, ?_⟩
    intro hnone
    have hspare : (if s.nextBuffer.isNone then none else s.newBuffer2) = none := hnone
    cases hb : s.nextBuffer with
    | none =>
        have hpos := List.length_pos_iff.mpr (hs.next hb)
        omega
    | some b =>
        rw [hb] at hspare
        rw [show s.newBuffer2 = none from hspare] at hnew2
        cases hnew2

/-- A spare that is there stays; one that is missing comes from the back. -/
theorem refillOne_goes {spare : BufferPtr} {bs : List BufferPtr} (hbs : ∀ p ∈ bs, p.isSome)
    (hback : spare = none → bs ≠ []) : ∃ b, refillOne spare bs =
      some (some b, if spare.isSome then bs else bs.dropLast) := by
  cases spare with
  | some b => exact ⟨b, rfl⟩
  | none =>
      have hne := hback rfl
      obtain ⟨b, hb⟩ := Option.isSome_iff_exists.mp (hbs _ (List.getLast_mem hne))
      refine ⟨b.reset, ?_⟩
      rw [refillOne, List.getLast?_eq_some_getLast hne, hb]
      rfl

theorem refill_goes {s : State} (hs : Supplied s) (hplace : s.place = .refill) :
    ∃ new1 new2, refill s = some
      { s with
        newBuffer1 := some new1, newBuffer2 := some new2, buffersToWrite := []
        place := .condition } := by
  obtain ⟨hone, htwo⟩ := hs.refillable (Or.inr (Or.inr hplace))
  have htaken : ∀ p ∈ s.buffersToWrite.take 2, p.isSome :=
    fun p hp => hs.taken p (List.mem_of_mem_take hp)
  have hlength : (s.buffersToWrite.take 2).length = min 2 s.buffersToWrite.length :=
    List.length_take
  obtain ⟨new1, h₁⟩ := @refillOne_goes s.newBuffer1 _ htaken
    fun _ => List.ne_nil_of_length_pos (by omega)
  generalize hrest : (if s.newBuffer1.isSome then s.buffersToWrite.take 2
    else (s.buffersToWrite.take 2).dropLast) = rest at h₁
  have hmem : ∀ p ∈ rest, p.isSome := by
    intro p hp
    rw [← hrest] at hp
    split at hp
    · exact htaken p hp
    · exact htaken p ((List.dropLast_sublist _).mem hp)
  have hleft : s.newBuffer2 = none → rest ≠ [] := by
    intro hnone
    have hlen := htwo hnone
    rw [← hrest]
    refine List.ne_nil_of_length_pos ?_
    split
    · omega
    · rw [List.length_dropLast]
      omega
  obtain ⟨new2, h₂⟩ := refillOne_goes hmem hleft
  refine ⟨new1, new2, ?_⟩
  simp only [refill, h₁, h₂, Option.bind_eq_bind, Option.bind_some]

theorem supplied_step {s t : State} (hs : Supplied s) {a : Action} (h : step s a = some t) :
    Supplied t := by
  cases a with
  | append line => exact supplied_append hs h
  | start =>
      obtain ⟨hplace, h⟩ := Option.ite_none_right_eq_some.mp h
      cases h
      refine ⟨hs.current, hs.full, hs.taken, hs.next, fun _ => hs.spared (Or.inl hplace), ?_⟩
      rintro (h | ⟨i, h⟩ | h) <;> cases h
  | stop =>
      obtain ⟨-, h⟩ := Option.ite_none_right_eq_some.mp h
      cases h
      exact ⟨hs.current, hs.full, hs.taken, hs.next, hs.spared, hs.refillable⟩
  | test =>
      obtain ⟨hplace, h⟩ := Option.ite_none_right_eq_some.mp h
      cases h
      have hspared := hs.spared (Or.inr (Or.inl hplace))
      refine ⟨hs.current, hs.full, hs.taken, hs.next, fun _ => hspared, ?_⟩
      cases s.running <;> rintro (h | ⟨i, h⟩ | h) <;> cases h
  | lock =>
      obtain ⟨hplace, h⟩ := Option.ite_none_right_eq_some.mp h
      cases h
      have hspared : s.place.Spared := Or.inr (Or.inr (Or.inl hplace))
      split
      · refine ⟨hs.current, hs.full, hs.taken, hs.next, fun _ => hs.spared hspared, ?_⟩
        rintro (h | ⟨i, h⟩ | h) <;> cases h
      · exact supplied_swap hs hspared
  | wake =>
      obtain ⟨hplace, h⟩ := Option.ite_none_right_eq_some.mp h
      cases h
      exact supplied_swap hs (Or.inr (Or.inr (Or.inr hplace)))
  | trim =>
      obtain ⟨hplace, h⟩ := Option.ite_none_right_eq_some.mp h
      cases h
      obtain ⟨hone, htwo⟩ := hs.refillable (Or.inl hplace)
      refine ⟨hs.current, hs.full, ?_, hs.next, ?_, ?_⟩
      · intro p hp
        dsimp only at hp
        split at hp
        · exact hs.taken p (List.mem_of_mem_take hp)
        · exact hs.taken p hp
      · rintro (h | h | h | h) <;> cases h
      · intro _
        show 1 ≤ List.length (if _ then _ else _) ∧ (_ → 2 ≤ List.length (if _ then _ else _))
        split
        · rw [List.length_take]
          exact ⟨by omega, fun _ => by omega⟩
        · exact ⟨hone, htwo⟩
  | write =>
      obtain ⟨-, ⟨i, hplace⟩, hplace', output, place, rfl⟩ := write_spec h
      refine ⟨hs.current, hs.full, hs.taken, hs.next, ?_,
        fun _ => hs.refillable (Or.inr (Or.inl ⟨i, hplace⟩))⟩
      rcases hplace' with ⟨j, hj⟩ | hj <;> rw [hj] <;> rintro (h | h | h | h) <;> cases h
  | refill =>
      obtain ⟨hplace, h⟩ := Option.ite_none_right_eq_some.mp h
      obtain ⟨new1, new2, hgoes⟩ := refill_goes hs hplace
      cases h.symm.trans hgoes
      refine ⟨hs.current, hs.full, fun _ hp => absurd hp List.not_mem_nil, hs.next,
        fun _ => ⟨rfl, rfl⟩, ?_⟩
      rintro (h | ⟨i, h⟩ | h) <;> cases h

/-- In every state of every run, `append` finds its buffer, the backend the
buffers it writes, and the end of the iteration a buffer for each missing spare. -/
theorem never_null {s : State} (h : Reachable step start s) :
    (∀ line, (step s (.append line)).isSome) ∧
      ((∃ i, s.place = .write i) → (step s .write).isSome) ∧
      (s.place = .refill → (step s .refill).isSome) := by
  have hs : Supplied s := h.invariant (fun s a t hs ha => supplied_step hs ha) supplied_start
  refine ⟨?_, ?_, ?_⟩
  · intro line
    obtain ⟨current, hcurrent⟩ := Option.isSome_iff_exists.mp hs.current
    show (append s line).isSome
    simp only [append, hcurrent, Option.bind_eq_bind, Option.bind_some]
    split <;> rfl
  · rintro ⟨i, hplace⟩
    rw [step, hplace]
    dsimp only
    cases hget : s.buffersToWrite[i]? with
    | none => rfl
    | some p =>
        obtain ⟨b, rfl⟩ := Option.isSome_iff_exists.mp (hs.taken p (List.mem_of_getElem? hget))
        rfl
  · intro hplace
    obtain ⟨new1, new2, hgoes⟩ := refill_goes hs hplace
    rw [step, if_pos hplace, hgoes]
    rfl

/-! ## The top of an iteration -/

/-- A buffer is there, with nothing in it. -/
def Spare (p : BufferPtr) : Prop := ∃ b, p = some b ∧ b.length = 0

theorem spare_of_lines {p : BufferPtr} (hp : p.isSome) (hlines : lines p = []) : Spare p := by
  obtain ⟨b, rfl⟩ := Option.isSome_iff_exists.mp hp
  have hb : b.lines = [] := hlines
  exact ⟨b, rfl, by rw [FixedBuffer.length, hb]; rfl⟩

/-- The idle part of `Sound`, which the overload keeps too. -/
theorem Kept.idle {s : State} (hs : Kept s) (hspared : s.place.Spared) :
    lines s.newBuffer1 = [] ∧ lines s.newBuffer2 = [] ∧ s.buffersToWrite = [] := by
  obtain ⟨kept, hsound, -⟩ := hs.sound
  exact ⟨hsound.new1, hsound.new2, hsound.idle hspared⟩

/-- In every state of every run: `currentBuffer_` is there, and `nextBuffer_` is missing
only while `buffers_` has one; until the backend has the mutex, both its spares are there
and empty, and it has nothing to write; and from what it has written it can always
refill them. -/
theorem spares_found {s : State} (h : Reachable step start s) :
    s.currentBuffer.isSome ∧ (s.nextBuffer = none → s.buffers ≠ []) ∧
      (s.place.Spared → Spare s.newBuffer1 ∧ Spare s.newBuffer2 ∧ s.buffersToWrite = []) ∧
      (s.place = .refill → ∃ t, step s .refill = some t ∧
        Spare t.newBuffer1 ∧ Spare t.newBuffer2 ∧ t.buffersToWrite = []) := by
  have hs : Supplied s ∧ Kept s :=
    h.invariant (I := fun s => Supplied s ∧ Kept s)
      (fun _ _ _ hs hstep => ⟨supplied_step hs.1 hstep, step_keeps hs.2 hstep⟩)
      ⟨supplied_start, kept_start⟩
  have hspares : ∀ {t : State}, Supplied t → Kept t → t.place.Spared →
      Spare t.newBuffer1 ∧ Spare t.newBuffer2 ∧ t.buffersToWrite = [] := by
    intro t ht hkept hspared
    obtain ⟨hnew1, hnew2⟩ := ht.spared hspared
    obtain ⟨hlines1, hlines2, hnone⟩ := hkept.idle hspared
    exact ⟨spare_of_lines hnew1 hlines1, spare_of_lines hnew2 hlines2, hnone⟩
  refine ⟨hs.1.current, hs.1.next, hspares hs.1 hs.2, fun hplace => ?_⟩
  obtain ⟨t, ht⟩ := Option.isSome_iff_exists.mp ((never_null h).2.2 hplace)
  obtain ⟨new1, new2, hgoes⟩ := refill_goes hs.1 hplace
  have hstep := ht
  rw [step, if_pos hplace, hgoes] at hstep
  cases hstep
  exact ⟨_, ht, hspares (supplied_step hs.1 ht) (step_keeps hs.2 ht) (Or.inr (Or.inl rfl))⟩

/-- An iteration that finds `buffers_` empty, up to its refill. -/
theorem spares_found_empty : ∃ s,
    exec step start [.start, .test, .lock, .append [104, 105], .wake, .trim, .write, .write] =
      some s ∧
    s.place = .refill ∧ ∃ t, step s .refill = some t ∧
      Spare t.newBuffer1 ∧ Spare t.newBuffer2 ∧ t.buffersToWrite = [] := by
  obtain ⟨s, hs, hplace⟩ := Option.map_eq_some_iff.mp (show
    (exec step start [.start, .test, .lock, .append [104, 105], .wake, .trim, .write, .write]).map
      State.place = some .refill by decide)
  exact ⟨s, hs, hplace, (spares_found ⟨_, hs⟩).2.2.2 hplace⟩

end AsyncLogging

end WebServer

/-
# `Net.Poll` — no ready channel is left out for long

`Epoller::poll` asks the kernel for as many events as `epollEvents_` has room
for, and doubles it when it was full.  The kernel keeps a list of the ready
descriptors and goes round it: those that it returns, ready as long as nothing
is done about them, go to its end.

So for a descriptor that waits, its place in the list and the size of
`epollEvents_` never add up to more than they did at first, while the size
doubles with each poll: with less than 16·(2ⁿ − 1) descriptors before it, it is
returned in `n` polls (`no_starvation`).
-/
import Mathlib.Algebra.Group.Nat.Defs
import WebServer.Lib.Peak
import WebServer.Net.Epoller

namespace WebServer

namespace Poll

open Machine

/-! ## The poller and the kernel -/

def kInitEventListSize : Nat := 16

/-- `epollEvents` is the size of the vector, `revents` a field of the channels; `ready` is the
kernel's list, the descriptor that comes next first. -/
structure State (κ : Type) where
  poller : Epoller κ
  epollEvents : Nat
  ready : List Int
  activeChannels : List κ
  revents : κ → Events

inductive Step (κ : Type) where
  | becomesReady (fd : Int)
  | ceases (fd : Int)
  | updateChannel (ptr : κ) (ch : Channel)
  | removeChannel (ptr : κ) (ch : Channel)
  | close (fd : Int)
  /-- The masks are what the kernel finds at the descriptors. -/
  | poll (mask : Int → Events)
  /-- A signal comes before any event. -/
  | interrupted

def Step.isPoll {κ : Type} : Step κ → Bool
  | .poll _ => true
  | _ => false

variable {κ : Type} [DecidableEq κ]

namespace State

/-- What is not in the set leaves the kernel's list. -/
def withPoller (s : State κ) (p : Epoller κ) : State κ :=
  { s with poller := p, ready := s.ready.filter fun fd => (p.interest fd).isSome }

/-- An event: the pointer that the descriptor was registered with, and its mask. -/
def eventOf (s : State κ) (mask : Int → Events) (fd : Int) : Option (κ × Events) :=
  (s.poller.interest fd).map fun registered => (registered.2, mask fd)

def fillActiveChannels (s : State κ) (events : List (κ × Events)) : State κ :=
  events.foldl (fun s event =>
    { s with revents := Function.update s.revents event.1 event.2
             activeChannels := s.activeChannels ++ [event.1] }) s

/-- `poll()`, after `activeChannels_.clear()`. -/
def poll (s : State κ) (mask : Int → Events) : State κ :=
  let events := (s.ready.take s.epollEvents).filterMap (s.eventOf mask)
  let s := { s with ready := s.ready.drop s.epollEvents ++ s.ready.take s.epollEvents
                    activeChannels := [] }
  if 0 < events.length then
    let s := s.fillActiveChannels events
    if events.length = s.epollEvents then { s with epollEvents := s.epollEvents * 2 } else s
  else s

end State

def step (s : State κ) : Step κ → Option (State κ)
  | .becomesReady fd =>
      if (s.poller.interest fd).isSome ∧ fd ∉ s.ready then some { s with ready := s.ready ++ [fd] }
      else none
  | .ceases fd => some { s with ready := s.ready.filter (· ≠ fd) }
  | .updateChannel ptr ch => some (s.withPoller (s.poller.updateChannel ptr ch).1)
  | .removeChannel ptr ch => some (s.withPoller (s.poller.removeChannel ptr ch).1)
  | .close fd => some (s.withPoller (s.poller.closeFd fd))
  | .poll mask => some (s.poll mask)
  | .interrupted => some { s with activeChannels := [] }

def start : State κ := ⟨Epoller.new, kInitEventListSize, [], [], fun _ => {}⟩

/-! ## One poll -/

variable {s t u : State κ}

theorem fillActiveChannels_eq (s : State κ) (events : List (κ × Events)) :
    ∃ revents, s.fillActiveChannels events =
      { s with activeChannels := s.activeChannels ++ events.map Prod.fst, revents := revents } := by
  induction events generalizing s with
  | nil => exact ⟨s.revents, by rw [List.map_nil, List.append_nil]; rfl⟩
  | cons event events ih =>
      obtain ⟨revents, hfill⟩ := ih { s with
        revents := Function.update s.revents event.1 event.2
        activeChannels := s.activeChannels ++ [event.1] }
      refine ⟨revents, ?_⟩
      rw [List.map_cons, List.append_cons]
      exact hfill

/-- The kernel's list is one of descriptors in its set, and there is room for an event. -/
structure Settled (s : State κ) : Prop where
  watched : ∀ fd ∈ s.ready, (s.poller.interest fd).isSome
  room : kInitEventListSize ≤ s.epollEvents

/-- What a poll does. -/
theorem poll_eq (hs : Settled s) (mask : Int → Events) : ∃ revents, s.poll mask = { s with
    ready := s.ready.drop s.epollEvents ++ s.ready.take s.epollEvents
    activeChannels := ((s.ready.take s.epollEvents).filterMap (s.eventOf mask)).map Prod.fst
    epollEvents := if s.epollEvents ≤ s.ready.length then s.epollEvents * 2 else s.epollEvents
    revents := revents } := by
  have hlength : ((s.ready.take s.epollEvents).filterMap (s.eventOf mask)).length =
      min s.epollEvents s.ready.length := by
    rw [List.length_filterMap_eq_countP, List.countP_eq_length.mpr, List.length_take]
    intro fd hfd
    rw [State.eventOf, Option.isSome_map]
    exact hs.watched fd (List.mem_of_mem_take hfd)
  have hroom := hs.room
  rw [kInitEventListSize] at hroom
  obtain ⟨revents, hfill⟩ := fillActiveChannels_eq
    { s with ready := s.ready.drop s.epollEvents ++ s.ready.take s.epollEvents
             activeChannels := [] } ((s.ready.take s.epollEvents).filterMap (s.eventOf mask))
  rw [State.poll, hfill, hlength]
  by_cases hfull : s.epollEvents ≤ s.ready.length
  · refine ⟨revents, ?_⟩
    rw [if_pos (by omega), Nat.min_eq_left hfull, if_pos hfull]
    simp
  · rw [if_neg hfull]
    by_cases hsome : 0 < s.ready.length
    · refine ⟨revents, ?_⟩
      rw [if_pos (by omega), if_neg (by simp; omega)]
      simp
    · refine ⟨s.revents, ?_⟩
      rw [if_neg (by omega)]
      have hnil : s.ready = [] := List.length_eq_zero_iff.mp (by omega)
      simp [hnil]

/-- The kernel's list is the same but for its order. -/
theorem ready_poll (hs : Settled s) (mask : Int → Events) : (s.poll mask).ready.Perm s.ready := by
  obtain ⟨revents, hpoll⟩ := poll_eq hs mask
  rw [hpoll]
  refine List.perm_append_comm.trans ?_
  rw [List.take_append_drop]

omit [DecidableEq κ] in
theorem settled_withPoller (hs : Settled s) (p : Epoller κ) : Settled (s.withPoller p) :=
  ⟨fun _ hfd => (List.mem_filter.mp hfd).2, hs.room⟩

theorem settled_step (hs : Settled s) {a : Step κ} (h : step s a = some t) : Settled t := by
  cases a with
  | becomesReady fd =>
      obtain ⟨⟨hsome, -⟩, h⟩ := Option.ite_none_right_eq_some.mp h
      cases h
      refine ⟨fun x hx => ?_, hs.room⟩
      rcases List.mem_append.mp hx with hx | hx
      · exact hs.watched x hx
      · rw [List.mem_singleton.mp hx]
        exact hsome
  | ceases fd =>
      cases h
      exact ⟨fun x hx => hs.watched x (List.mem_filter.mp hx).1, hs.room⟩
  | updateChannel ptr ch =>
      cases h
      exact settled_withPoller hs _
  | removeChannel ptr ch =>
      cases h
      exact settled_withPoller hs _
  | close fd =>
      cases h
      exact settled_withPoller hs _
  | poll mask =>
      cases h
      have hperm := ready_poll hs mask
      obtain ⟨revents, hpoll⟩ := poll_eq hs mask
      rw [hpoll] at hperm ⊢
      refine ⟨fun x hx => hs.watched x (hperm.mem_iff.mp hx), ?_⟩
      · show kInitEventListSize ≤ if s.epollEvents ≤ s.ready.length then s.epollEvents * 2
          else s.epollEvents
        have hroom := hs.room
        split
        · omega
        · exact hroom
  | interrupted =>
      cases h
      exact ⟨hs.watched, hs.room⟩

omit [DecidableEq κ] in
theorem settled_start : Settled (start : State κ) :=
  ⟨fun _ hfd => absurd hfd List.not_mem_nil, Nat.le_refl _⟩

/-! ## How long a descriptor waits -/

/-- A descriptor that stays in the list keeps its place when others leave. -/
theorem filter_place {ready before after : List Int} {fd : Int} {p : Int → Bool}
    (h : ready = before ++ fd :: after) (hfd : fd ∈ ready.filter p) :
    ready.filter p = before.filter p ++ fd :: after.filter p := by
  rw [h, List.filter_append, List.filter_cons_of_pos (List.mem_filter.mp hfd).2]

/-- Only a poll puts others before it. -/
theorem place_step {before after : List Int} {fd : Int} {a : Step κ} (h : step s a = some t)
    (ha : a.isPoll = false) (hready : s.ready = before ++ fd :: after) (hstays : fd ∈ t.ready) :
    t.epollEvents = s.epollEvents ∧
      ∃ before' after', t.ready = before' ++ fd :: after' ∧ before'.length ≤ before.length := by
  cases a with
  | becomesReady x =>
      obtain ⟨-, h⟩ := Option.ite_none_right_eq_some.mp h
      cases h
      refine ⟨rfl, before, after ++ [x], ?_, Nat.le_refl _⟩
      rw [hready, List.append_assoc, List.cons_append]
  | ceases x =>
      cases h
      exact ⟨rfl, _, _, filter_place hready hstays, List.length_filter_le _ _⟩
  | updateChannel ptr ch =>
      cases h
      exact ⟨rfl, _, _, filter_place hready hstays, List.length_filter_le _ _⟩
  | removeChannel ptr ch =>
      cases h
      exact ⟨rfl, _, _, filter_place hready hstays, List.length_filter_le _ _⟩
  | close x =>
      cases h
      exact ⟨rfl, _, _, filter_place hready hstays, List.length_filter_le _ _⟩
  | poll mask => cases ha
  | interrupted =>
      cases h
      exact ⟨rfl, before, after, hready, Nat.le_refl _⟩

/-- A poll returns the descriptor's channel. -/
def Returns (s : State κ) (fd : Int) (mask : Int → Events) : Prop :=
  ∃ registered, s.poller.interest fd = some registered ∧
    registered.2 ∈ (s.poll mask).activeChannels

theorem returns_of_place (hs : Settled s) {before after : List Int} {fd : Int}
    (hready : s.ready = before ++ fd :: after) (hplace : before.length < s.epollEvents)
    (mask : Int → Events) : Returns s fd mask := by
  have hmem : fd ∈ s.ready.take s.epollEvents := by
    rw [hready, List.take_append, List.take_cons (by omega)]
    exact List.mem_append_right _ List.mem_cons_self
  obtain ⟨registered, hsome⟩ :=
    Option.isSome_iff_exists.mp (hs.watched fd (List.mem_of_mem_take hmem))
  obtain ⟨revents, hpoll⟩ := poll_eq hs mask
  refine ⟨registered, hsome, ?_⟩
  rw [hpoll]
  refine List.mem_map.mpr ⟨(registered.2, mask fd), List.mem_filterMap.mpr ⟨fd, hmem, ?_⟩, rfl⟩
  rw [State.eventOf, hsome, Option.map_some]

def polls (as : List (Step κ)) : Nat := as.countP Step.isPoll

/-- A run in which a poll returns the descriptor's channel. -/
def Served (fd : Int) (s : State κ) (as : List (Step κ)) : Prop :=
  ∃ bs mask cs u, as = bs ++ .poll mask :: cs ∧ exec step s bs = some u ∧ Returns u fd mask

theorem Served.cons {fd : Int} {a : Step κ} {as : List (Step κ)} (ha : step s a = some t)
    (h : Served fd t as) : Served fd s (a :: as) := by
  obtain ⟨bs, mask, cs, u, rfl, hu, hreturns⟩ := h
  exact ⟨a :: bs, mask, cs, u, rfl, exec_cons.mpr ⟨t, ha, hu⟩, hreturns⟩

/-- Its place and the size add up to no more than before, and the size doubles. -/
theorem served_of_polls {fd : Int} : ∀ {as : List (Step κ)} {s u : State κ}
    {before after : List Int}, Settled s → exec step s as = some u →
    s.ready = before ++ fd :: after → Throughout step (fun s => fd ∈ s.ready) s as →
    before.length + s.epollEvents < s.epollEvents * 2 ^ polls as → Served fd s as := by
  intro as
  induction as with
  | nil =>
      intro s u before after _ _ _ _ hpolls
      rw [polls, List.countP_nil, Nat.pow_zero] at hpolls
      omega
  | cons a as ih =>
      intro s u before after hs hu hready hstays hpolls
      obtain ⟨t, ha, hu⟩ := exec_cons.mp hu
      have ht := settled_step hs ha
      have hrest := hstays.2 t ha
      cases hpoll : a.isPoll with
      | false =>
          obtain ⟨hsize, before', after', hready', hle⟩ := place_step ha hpoll hready hrest.first
          have hcount : polls (a :: as) = polls as :=
            List.countP_cons_of_neg (by rw [hpoll]; exact Bool.false_ne_true)
          rw [hcount, ← hsize] at hpolls
          exact (ih ht hu hready' hrest (by omega)).cons ha
      | true =>
          cases a with
          | poll mask =>
              have hcount : polls (.poll mask :: as) = polls as + 1 := List.countP_cons_of_pos rfl
              by_cases hplace : before.length < s.epollEvents
              · exact ⟨[], mask, as, s, rfl, rfl, returns_of_place hs hready hplace mask⟩
              · cases ha
                have hlength := congrArg List.length hready
                rw [List.length_append, List.length_cons] at hlength
                obtain ⟨revents, heq⟩ := poll_eq hs mask
                have hsize : (s.poll mask).epollEvents = s.epollEvents * 2 := by
                  rw [heq]
                  exact if_pos (by omega)
                have hready' : (s.poll mask).ready = before.drop s.epollEvents ++
                    fd :: (after ++ s.ready.take s.epollEvents) := by
                  rw [heq]
                  show s.ready.drop s.epollEvents ++ _ = _
                  rw [hready, List.drop_append_of_le_length (by omega), List.append_assoc,
                    List.cons_append]
                refine (ih ht hu hready' hrest ?_).cons rfl
                rw [hcount, Nat.pow_succ, Nat.mul_comm (2 ^ polls as), ← Nat.mul_assoc] at hpolls
                rw [hsize, List.length_drop]
                omega
          | _ => cases hpoll

/-! ## Every run -/

theorem size_le {as : List (Step κ)} (h : exec step start as = some s) :
    Settled s ∧ s.epollEvents ≤
      max kInitEventListSize (2 * peak step (fun s : State κ => s.ready.length) start as) := by
  have hrun := exec_peak (f := fun s : State κ => s.ready.length) (C := fun _ _ => True)
    (I := fun s k => Settled s ∧ s.ready.length ≤ k ∧
      s.epollEvents ≤ max kInitEventListSize (2 * k))
    (fun _ _ h => h.2.1) ?_ (meets_true _ as) ⟨settled_start, Nat.le_refl 0, Nat.le_refl _⟩ h
  · rw [Nat.zero_max] at hrun
    exact ⟨hrun.1, hrun.2.2⟩
  · rintro s a t k ⟨hs, hlength, hsize⟩ - hstep
    refine ⟨settled_step hs hstep, Nat.le_max_right _ _, ?_⟩
    have hsame : t.epollEvents = s.epollEvents ∨
        t.epollEvents = s.epollEvents * 2 ∧ s.epollEvents ≤ s.ready.length := by
      cases a with
      | becomesReady fd =>
          cases (Option.ite_none_right_eq_some.mp hstep).2
          exact Or.inl rfl
      | poll mask =>
          cases hstep
          obtain ⟨revents, heq⟩ := poll_eq hs mask
          rw [heq]
          dsimp only
          split
          · rename_i hfull
            exact Or.inr ⟨rfl, hfull⟩
          · exact Or.inl rfl
      | ceases | updateChannel | removeChannel | close | interrupted =>
          cases hstep
          exact Or.inl rfl
    omega

/-- The kernel goes round its list of ready descriptors.  In every run of the poller, whatever
descriptors become ready, cease to be, or are added and removed: one that is ready, with less
than 16·(2ⁿ − 1) before it, and stays so for `n` polls, has its channel returned by one of them;
and `epollEvents_` is never larger than it was made, or than twice the most that were ready. -/
theorem no_starvation {as bs : List (Step κ)} {fd : Int} {before after : List Int}
    (hs : exec step start as = some s) (ht : exec step s bs = some t)
    (hready : s.ready = before ++ fd :: after)
    (hstays : Throughout step (fun s => fd ∈ s.ready) s bs)
    (hpolls : before.length < kInitEventListSize * (2 ^ polls bs - 1)) :
    Served fd s bs ∧ t.epollEvents ≤
      max kInitEventListSize
        (2 * peak step (fun s : State κ => s.ready.length) start (as ++ bs)) := by
  obtain ⟨hsettled, -⟩ := size_le hs
  refine ⟨served_of_polls hsettled ht hready hstays ?_, (size_le (exec_append.mpr ⟨s, hs, ht⟩)).2⟩
  have hroom := Nat.mul_le_mul_right (2 ^ polls bs - 1) hsettled.room
  have hpos : 0 < 2 ^ polls bs := Nat.two_pow_pos _
  calc before.length + s.epollEvents
      < s.epollEvents * (2 ^ polls bs - 1) + s.epollEvents := by omega
    _ = s.epollEvents * 2 ^ polls bs := by
        rw [← Nat.mul_succ, Nat.succ_eq_add_one, Nat.sub_add_cancel hpos]

/-- Of twenty descriptors the first poll returns sixteen; the last one of them is returned
by the second, in twice the room. -/
theorem no_starvation_twice : ∃ s, exec step (start : State Nat)
      ((List.range 20).map (fun i => .updateChannel i (Channel.new (i + 5)).wantReading) ++
        (List.range 20).map fun i => .becomesReady (i + 5)) = some s ∧
    s.ready = (List.range 19).map (fun i => (i + 5 : Int)) ++ 24 :: [] ∧
    (s.poll fun _ => { epollin := true }).activeChannels = List.range 16 ∧
    (s.poll fun _ => { epollin := true }).epollEvents = 32 ∧
    Served 24 s [.poll fun _ => { epollin := true }, .poll fun _ => { epollin := true }] := by
  have hlist : (exec step (start : State Nat)
      ((List.range 20).map (fun i => .updateChannel i (Channel.new (i + 5)).wantReading) ++
        (List.range 20).map fun i => .becomesReady (i + 5))).map (fun s => (s.ready,
          (s.poll fun _ => { epollin := true }).activeChannels,
          (s.poll fun _ => { epollin := true }).epollEvents)) =
      some ((List.range 19).map (fun i => (i + 5 : Int)) ++ 24 :: [], List.range 16, 32) := by
    decide +kernel
  obtain ⟨s, hs, heq⟩ := Option.map_eq_some_iff.mp hlist
  obtain ⟨hready, hrest⟩ := Prod.mk.inj heq
  obtain ⟨hchannels, hsize⟩ := Prod.mk.inj hrest
  have hsettled := (size_le hs).1
  have hstays : Throughout step (fun s => (24 : Int) ∈ s.ready) s
      [.poll fun _ => { epollin := true }, .poll fun _ => { epollin := true }] := by
    have hmem : (24 : Int) ∈ s.ready := hready ▸ List.mem_append_right _ List.mem_cons_self
    refine ⟨hmem, fun t ht => ?_⟩
    cases ht
    have hmem' := (ready_poll hsettled fun _ => { epollin := true }).mem_iff.mpr hmem
    refine ⟨hmem', fun u hu => ?_⟩
    cases hu
    have hsettled' := settled_step (a := .poll fun _ => { epollin := true }) hsettled rfl
    exact (ready_poll hsettled' fun _ => { epollin := true }).mem_iff.mpr hmem'
  exact ⟨s, hs, hready, hchannels, hsize, (no_starvation hs rfl hready hstays (by decide)).1⟩

end Poll

end WebServer

/-
# `Net.Interest` — what `epoll_ctl` has registered, and what a channel wants

Channels of one poller, each with a descriptor of its own that it keeps, under any
sequence of `enableReading`, `enableWriting`, `disableWriting`, `disableAll` and
`remove`.  Over all of them `index_` says what the poller has done: the descriptor
is in the kernel's set exactly when it is `kAdded`, with the mask of the channel
(`Noted`).  So no `epoll_ctl` is ever refused.

The set should hold the channels that want something.  `updateChannel` takes a
channel out when it is `kAdded` and wants nothing, but a channel that is not
`kAdded` it adds without a look at what it wants.  Hence `follows_iff`: the set
follows the channels throughout a run exactly when the two `disable` calls are made
only on channels that want something.
-/
import WebServer.Lib.Machine
import WebServer.Net.Epoller

namespace WebServer

namespace Interest

open Machine

variable {κ : Type} [DecidableEq κ]

/-! ## The calls -/

structure State (κ : Type) where
  channels : κ → Channel
  poller : Epoller κ

/-- New channels, on those descriptors. -/
def start (fd : κ → Int) : State κ where
  channels := fun k => Channel.new (fd k)
  poller := Epoller.new

inductive Call (κ : Type) where
  | enableReading (k : κ)
  | enableWriting (k : κ)
  | disableWriting (k : κ)
  | disableAll (k : κ)
  | remove (k : κ)
  deriving DecidableEq

namespace State

/-- A change of `events_`, and `Channel::update()`. -/
def update (s : State κ) (k : κ) (f : Channel → Channel) : State κ :=
  let r := s.poller.updateChannel k (f (s.channels k))
  ⟨Function.update s.channels k r.2, r.1⟩

/-- `Channel::remove()`. -/
def remove (s : State κ) (k : κ) : State κ :=
  let r := s.poller.removeChannel k (s.channels k)
  ⟨Function.update s.channels k r.2, r.1⟩

/-- The poller's map has the channel. -/
def Registered (s : State κ) (k : κ) : Prop := s.poller.channels (s.channels k).fd = some k

instance (s : State κ) (k : κ) : Decidable (s.Registered k) :=
  inferInstanceAs (Decidable (_ = _))

end State

/-- `remove` is called on a channel that is registered and wants nothing. -/
def step (s : State κ) : Call κ → Option (State κ)
  | .enableReading k => some (s.update k Channel.wantReading)
  | .enableWriting k => some (s.update k Channel.wantWriting)
  | .disableWriting k => some (s.update k Channel.dropWriting)
  | .disableAll k => some (s.update k Channel.dropAll)
  | .remove k =>
      if s.Registered k ∧ (s.channels k).isNoneEvent then some (s.remove k) else none

/-- A descriptor is in the kernel's set exactly when its channel wants something, and
for what it wants; and no `epoll_ctl` has been refused. -/
structure Follows (s : State κ) : Prop where
  interest : ∀ k, s.poller.interest (s.channels k).fd =
    if (s.channels k).events = {} then none else some ((s.channels k).events, k)
  legal : s.poller.failedCtls = 0

/-- A call that takes interest away is made on a channel that has some. -/
def Interested (s : State κ) : Call κ → Prop
  | .disableWriting k => (s.channels k).events ≠ {}
  | .disableAll k => (s.channels k).events ≠ {}
  | _ => True

instance (s : State κ) : ∀ a : Call κ, Decidable (Interested s a)
  | .disableWriting k => inferInstanceAs (Decidable ((s.channels k).events ≠ {}))
  | .disableAll k => inferInstanceAs (Decidable ((s.channels k).events ≠ {}))
  | .enableReading _ => inferInstanceAs (Decidable True)
  | .enableWriting _ => inferInstanceAs (Decidable True)
  | .remove _ => inferInstanceAs (Decidable True)

/-! ## What `index_` says -/

/-- The channel keeps its descriptor, and what the kernel has of it is what the poller
has noted in it; where that is nothing, it wants nothing. -/
structure NotedAt (fd : Int) (k : κ) (ch : Channel) (interest : Option (Events × κ)) : Prop where
  fixed : ch.fd = fd
  interest : interest = if ch.index = .kAdded then some (ch.events, k) else none
  absent : ch.index ≠ .kAdded → ch.events = {}

structure Noted (fd : κ → Int) (s : State κ) : Prop where
  channel : ∀ k, NotedAt (fd k) k (s.channels k) (s.poller.interest (fd k))
  legal : s.poller.failedCtls = 0

omit [DecidableEq κ] in
theorem noted_start (fd : κ → Int) : Noted fd (start fd) where
  channel := fun _ => ⟨rfl, rfl, fun _ => rfl⟩
  legal := rfl

/-! ## What the calls on the poller do -/

section

variable {p : Epoller κ} {k : κ} {ch : Channel} {x : Events × κ}

/-- What `epoll_ctl` leaves when it is not refused. -/
structure Ctl (p : Epoller κ) (fd : Int) (entry : Option (Events × κ)) (q : Epoller κ) : Prop where
  interest : q.interest = Function.update p.interest fd entry
  failedCtls : q.failedCtls = p.failedCtls

omit [DecidableEq κ] in
theorem update_add (hnone : p.interest ch.fd = none) (hvalid : 0 ≤ ch.fd) :
    Ctl p ch.fd (some (ch.events, k)) (p.update .add k ch) := by
  simp only [Epoller.update, Epoller.epollCtl, hnone, if_pos hvalid]
  exact ⟨rfl, rfl⟩

omit [DecidableEq κ] in
theorem update_mod (hsome : p.interest ch.fd = some x) :
    Ctl p ch.fd (some (ch.events, k)) (p.update .mod k ch) := by
  simp only [Epoller.update, Epoller.epollCtl, hsome]
  exact ⟨rfl, rfl⟩

omit [DecidableEq κ] in
theorem update_del (hsome : p.interest ch.fd = some x) : Ctl p ch.fd none (p.update .del k ch) := by
  simp only [Epoller.update, Epoller.epollCtl, hsome]
  exact ⟨rfl, rfl⟩

omit [DecidableEq κ] in
theorem failedCtls_checked (b : Bool) : (p.checked b).failedCtls = p.failedCtls := by
  unfold Epoller.checked
  split <;> rfl

omit [DecidableEq κ] in
/-- The poller's map, and the assertions about it, play no part. -/
theorem Ctl.of_checked {b : Bool} {channels : Int → Option κ} {fd : Int}
    {entry : Option (Events × κ)} {q : Epoller κ}
    (h : Ctl ⟨channels, (p.checked b).interest, (p.checked b).failedLookups,
      (p.checked b).failedCtls⟩ fd entry q) : Ctl p fd entry q where
  interest := h.interest.trans
    (congrArg (Function.update · fd entry) (Epoller.interest_checked p b))
  failedCtls := h.failedCtls.trans (failedCtls_checked b)

/-- A channel that is not in the set is added, whatever it wants. -/
theorem updateChannel_absent (hindex : ch.index ≠ .kAdded) (hnone : p.interest ch.fd = none)
    (hvalid : 0 ≤ ch.fd) : (p.updateChannel k ch).2 = { ch with index := .kAdded } ∧
      Ctl p ch.fd (some (ch.events, k)) (p.updateChannel k ch).1 := by
  have hchecked : ∀ b : Bool, (p.checked b).interest ch.fd = none := fun b =>
    (congrFun (Epoller.interest_checked p b) _).trans hnone
  unfold Epoller.updateChannel
  cases hi : ch.index with
  | kNew => exact ⟨rfl, Ctl.of_checked (update_add (hchecked _) hvalid)⟩
  | kDeleted => exact ⟨rfl, Ctl.of_checked (update_add (hchecked _) hvalid)⟩
  | kAdded => exact absurd hi hindex

/-- One that is in the set is taken out if it wants nothing. -/
theorem updateChannel_added (hindex : ch.index = .kAdded) (hsome : p.interest ch.fd = some x) :
    (p.updateChannel k ch).2 =
        { ch with index := if ch.events = {} then .kDeleted else .kAdded } ∧
      Ctl p ch.fd (if ch.events = {} then none else some (ch.events, k))
        (p.updateChannel k ch).1 := by
  have hchecked : ∀ b : Bool, (p.checked b).interest ch.fd = some x := fun b =>
    (congrFun (Epoller.interest_checked p b) _).trans hsome
  unfold Epoller.updateChannel
  rw [hindex]
  dsimp only
  by_cases hevents : ch.events = {}
  · have hnone : ch.isNoneEvent = true := decide_eq_true hevents
    rw [if_pos hnone, if_pos hevents, if_pos hevents]
    exact ⟨rfl, Ctl.of_checked (update_del (hchecked _))⟩
  · have hsome : ¬ch.isNoneEvent = true := fun h => hevents (of_decide_eq_true h)
    rw [if_neg hsome, if_neg hevents, if_neg hevents]
    refine ⟨?_, Ctl.of_checked (update_mod (hchecked _))⟩
    rw [← hindex]

theorem removeChannel_added (hindex : ch.index = .kAdded) (hsome : p.interest ch.fd = some x) :
    Ctl p ch.fd none (p.removeChannel k ch).1 := by
  unfold Epoller.removeChannel
  dsimp only
  rw [if_pos hindex]
  exact Ctl.of_checked (update_del ((congrFun (Epoller.interest_checked p _) _).trans hsome))

theorem removeChannel_absent (hindex : ch.index ≠ .kAdded) :
    (p.removeChannel k ch).1.interest = p.interest ∧
      (p.removeChannel k ch).1.failedCtls = p.failedCtls := by
  unfold Epoller.removeChannel
  dsimp only
  rw [if_neg hindex]
  exact ⟨Epoller.interest_checked p _, failedCtls_checked _⟩

end

/-! ## One call -/

section

variable {fd : κ → Int} {s t : State κ} {k : κ}

omit [DecidableEq κ] in
/-- The set follows the channels unless it has one that wants nothing. -/
theorem Noted.follows_iff_wanted (hs : Noted fd s) :
    Follows s ↔ ∀ k, (s.channels k).index = .kAdded → (s.channels k).events ≠ {} := by
  have hentry : ∀ k, s.poller.interest (s.channels k).fd =
      if (s.channels k).index = .kAdded then some ((s.channels k).events, k) else none := by
    intro k
    rw [(hs.channel k).fixed]
    exact (hs.channel k).interest
  constructor
  · intro h k hadded hnone
    have hinterest := h.interest k
    rw [hentry, if_pos hadded, if_pos hnone] at hinterest
    cases hinterest
  · refine fun h => ⟨fun k => ?_, hs.legal⟩
    rw [hentry]
    by_cases hadded : (s.channels k).index = .kAdded
    · rw [if_pos hadded, if_neg (h k hadded)]
    · rw [if_neg hadded, if_pos ((hs.channel k).absent hadded)]

/-- The other channels, and their entries, stay. -/
theorem Noted.set (hs : Noted fd s) (hfd : Function.Injective fd) {p : Epoller κ} {ch : Channel}
    {entry : Option (Events × κ)} (hctl : Ctl s.poller (fd k) entry p)
    (hself : NotedAt (fd k) k ch entry) : Noted fd ⟨Function.update s.channels k ch, p⟩ := by
  refine ⟨fun j => ?_, hctl.failedCtls.trans hs.legal⟩
  dsimp only
  rw [hctl.interest]
  by_cases hj : j = k
  · subst hj
    rw [Function.update_self, Function.update_self]
    exact hself
  · rw [Function.update_of_ne hj, Function.update_of_ne fun h => hj (hfd h)]
    exact hs.channel j

/-- A change of interest: the channel is in the set after it, unless it was there
before and now wants nothing. -/
theorem noted_update (hs : Noted fd s) (hfd : Function.Injective fd) (hvalid : 0 ≤ fd k)
    {f : Channel → Channel} (hf : ∀ ch, (f ch).fd = ch.fd ∧ (f ch).index = ch.index) :
    Noted fd (s.update k f) ∧
      ((s.update k f).channels k).events = (f (s.channels k)).events ∧
      (((s.update k f).channels k).index = .kAdded ↔
        (s.channels k).index ≠ .kAdded ∨ (f (s.channels k)).events ≠ {}) := by
  have hk := hs.channel k
  have hfixed : (f (s.channels k)).fd = fd k := (hf _).1.trans hk.fixed
  have hindex : (f (s.channels k)).index = (s.channels k).index := (hf _).2
  have hself : (s.update k f).channels k = (s.poller.updateChannel k (f (s.channels k))).2 :=
    Function.update_self ..
  rw [hself]
  by_cases hadded : (s.channels k).index = .kAdded
  · have hinterest := hk.interest
    rw [if_pos hadded, ← hfixed] at hinterest
    obtain ⟨hch, hctl⟩ := updateChannel_added (k := k) (hindex.trans hadded) hinterest
    rw [hfixed] at hctl
    rw [State.update, hch]
    by_cases hevents : (f (s.channels k)).events = {}
    · rw [if_pos hevents] at hctl ⊢
      exact ⟨hs.set hfd hctl ⟨hfixed, rfl, fun _ => hevents⟩, rfl, by simp [hadded, hevents]⟩
    · rw [if_neg hevents] at hctl ⊢
      exact ⟨hs.set hfd hctl ⟨hfixed, rfl, fun h => absurd rfl h⟩, rfl, by simp [hevents]⟩
  · have hinterest := hk.interest
    rw [if_neg hadded, ← hfixed] at hinterest
    obtain ⟨hch, hctl⟩ := updateChannel_absent (k := k)
      (fun h => hadded (hindex.symm.trans h)) hinterest (hfixed ▸ hvalid)
    rw [hfixed] at hctl
    rw [State.update, hch]
    exact ⟨hs.set hfd hctl ⟨hfixed, rfl, fun h => absurd rfl h⟩, rfl, by simp [hadded]⟩

theorem noted_remove (hs : Noted fd s) (hfd : Function.Injective fd)
    (hnone : (s.channels k).isNoneEvent = true) :
    Noted fd (s.remove k) ∧ ((s.remove k).channels k).index = .kNew := by
  have hk := hs.channel k
  have hevents : (s.channels k).events = {} := of_decide_eq_true hnone
  refine ⟨?_, ?_⟩
  · by_cases hadded : (s.channels k).index = .kAdded
    · have hinterest := hk.interest
      rw [if_pos hadded, ← hk.fixed] at hinterest
      have hctl := removeChannel_added (k := k) hadded hinterest
      rw [hk.fixed] at hctl
      exact hs.set hfd hctl ⟨hk.fixed, rfl, fun _ => hevents⟩
    · obtain ⟨hsame, hlegal⟩ := removeChannel_absent (p := s.poller) (k := k) hadded
      have hnothing : s.poller.interest (fd k) = none := by rw [hk.interest, if_neg hadded]
      have hctl : Ctl s.poller (fd k) none (s.poller.removeChannel k (s.channels k)).1 := by
        refine ⟨?_, hlegal⟩
        rw [hsame, ← hnothing, Function.update_eq_self]
      exact hs.set hfd hctl ⟨hk.fixed, rfl, fun _ => hevents⟩
  · show (Function.update s.channels k _ k).index = _
    rw [Function.update_self]
    rfl

theorem other_update {f : Channel → Channel} {j : κ} (hj : j ≠ k) :
    (s.update k f).channels j = s.channels j := Function.update_of_ne hj ..

/-- A call that changes the interest of a channel keeps the set following exactly when
the channel was in it, or wants something now. -/
theorem follows_update (hs : Noted fd s) (hfollows : Follows s) (hfd : Function.Injective fd)
    (hvalid : 0 ≤ fd k) {f : Channel → Channel}
    (hf : ∀ ch, (f ch).fd = ch.fd ∧ (f ch).index = ch.index) :
    Follows (s.update k f) ↔
      ((s.channels k).events = {} → (f (s.channels k)).events ≠ {}) := by
  obtain ⟨hnoted, hevents, hindex⟩ := noted_update hs hfd hvalid hf
  have hadded := hs.follows_iff_wanted.mp hfollows
  rw [hnoted.follows_iff_wanted]
  constructor
  · intro h hnone
    have hout : (s.channels k).index ≠ .kAdded := fun hin => hadded k hin hnone
    exact hevents ▸ h k (hindex.mpr (Or.inl hout))
  · intro h j hj
    by_cases hjk : j = k
    · subst hjk
      rw [hevents]
      rcases hindex.mp hj with hout | hsome
      · exact h ((hs.channel j).absent hout)
      · exact hsome
    · rw [other_update hjk] at hj ⊢
      exact hadded j hj

theorem follows_remove (hs : Noted fd s) (hfollows : Follows s) (hfd : Function.Injective fd)
    (hnone : (s.channels k).isNoneEvent = true) : Follows (s.remove k) := by
  obtain ⟨hnoted, hindex⟩ := noted_remove hs hfd hnone
  refine hnoted.follows_iff_wanted.mpr fun j hj => ?_
  by_cases hjk : j = k
  · subst hjk
    cases hindex.symm.trans hj
  · have hsame : (s.remove k).channels j = s.channels j := Function.update_of_ne hjk ..
    rw [hsame] at hj ⊢
    exact hs.follows_iff_wanted.mp hfollows j hj

/-! ## Every run -/

/-- What a call does: it changes what one channel wants, or removes one that wants
nothing. -/
theorem step_cases {a : Call κ} (h : step s a = some t) :
    (∃ k f, t = s.update k f ∧ (∀ ch, (f ch).fd = ch.fd ∧ (f ch).index = ch.index) ∧
      (Interested s a ↔ ((s.channels k).events = {} → (f (s.channels k)).events ≠ {}))) ∨
    ∃ k, t = s.remove k ∧ (s.channels k).isNoneEvent = true ∧ Interested s a := by
  cases a with
  | enableReading k =>
      cases h
      refine Or.inl ⟨k, Channel.wantReading, rfl, fun _ => ⟨rfl, rfl⟩, ?_⟩
      exact iff_of_true trivial fun _ => by simp [Channel.wantReading]
  | enableWriting k =>
      cases h
      refine Or.inl ⟨k, Channel.wantWriting, rfl, fun _ => ⟨rfl, rfl⟩, ?_⟩
      exact iff_of_true trivial fun _ => by simp [Channel.wantWriting]
  | disableWriting k =>
      cases h
      refine Or.inl ⟨k, Channel.dropWriting, rfl, fun _ => ⟨rfl, rfl⟩, ?_⟩
      refine ⟨fun h hnone => absurd hnone h, fun h hnone => h hnone ?_⟩
      simp [Channel.dropWriting, hnone]
  | disableAll k =>
      cases h
      refine Or.inl ⟨k, Channel.dropAll, rfl, fun _ => ⟨rfl, rfl⟩, ?_⟩
      exact ⟨fun h hnone => absurd hnone h, fun h hnone => h hnone rfl⟩
  | remove k =>
      obtain ⟨⟨-, hnone⟩, h⟩ := Option.ite_none_right_eq_some.mp h
      exact Or.inr ⟨k, (Option.some.inj h).symm, hnone, trivial⟩

theorem noted_step (hfd : Function.Injective fd) (hvalid : ∀ k, 0 ≤ fd k) (hs : Noted fd s)
    {a : Call κ} (h : step s a = some t) : Noted fd t := by
  obtain ⟨k, f, rfl, hf, -⟩ | ⟨k, rfl, hnone, -⟩ := step_cases h
  · exact (noted_update hs hfd (hvalid k) hf).1
  · exact (noted_remove hs hfd hnone).1

theorem follows_step (hfd : Function.Injective fd) (hvalid : ∀ k, 0 ≤ fd k) (hs : Noted fd s)
    (hfollows : Follows s) {a : Call κ} (h : step s a = some t) : Follows t ↔ Interested s a := by
  obtain ⟨k, f, rfl, hf, hinterested⟩ | ⟨k, rfl, hnone, hinterested⟩ := step_cases h
  · exact (follows_update hs hfollows hfd (hvalid k) hf).trans hinterested.symm
  · exact iff_of_true (follows_remove hs hfollows hfd hnone) hinterested

/-- Throughout a run the kernel's set follows the channels exactly when every
`disableWriting` and every `disableAll` of it is made on a channel that wants
something. -/
theorem follows_iff (hfd : Function.Injective fd) (hvalid : ∀ k, 0 ≤ fd k) {calls : List (Call κ)}
    (h : exec step (start fd) calls = some s) :
    Throughout step Follows (start fd) calls ↔ Meets step Interested (start fd) calls :=
  throughout_iff_meets (fun _ _ _ hs hstep => noted_step hfd hvalid hs hstep)
    (fun _ _ _ hs hfollows hstep => follows_step hfd hvalid hs hfollows hstep) (noted_start fd)
    ((noted_start fd).follows_iff_wanted.mpr fun _ hadded => by cases hadded) h

end

/-- Two channels, one of them taken out of the set and put back, the other removed. -/
theorem follows_two : Throughout step Follows (start fun b : Bool => if b then 5 else 6)
    [.enableReading true, .enableWriting false, .disableWriting false, .enableReading false,
      .disableAll true, .remove true, .enableReading true] :=
  (follows_iff (by intro b c; cases b <;> cases c <;> decide) (by decide) rfl).mpr (by decide)

/-- `disableWriting` on a channel that nothing has been enabled on: it is added to the
set, with no events. -/
theorem follows_fails : ¬ ∀ (calls : List (Call Unit)) (s : State Unit),
    exec step (start fun _ => 5) calls = some s → Follows s := by
  intro hall
  have hfollows := (hall [.disableWriting ()] _ rfl).interest ()
  revert hfollows
  decide

end Interest

end WebServer

/-
# `Base.Thread` — a thread and the object that starts it

`Thread::start` makes a `ThreadData` for the new thread with pointers to the `tid_` and
the `latch_` of the object, and waits at the latch (`Base.CountDownLatch`) until the
thread has written its id there and counted down.  The thread uses the object until then
and not afterwards, so its owner may destroy it as soon as `start` has returned, whatever
the thread is doing; the `ThreadData` is the thread's to delete.

`Sound` follows the thread through `runInThread`: how far it is says what its pointers
are and whether the latch is down, and its owner is in `start` as long as the object is
needed (`Sound.needed`).
-/
import WebServer.Base.CountDownLatch

namespace WebServer

namespace Thread

open Machine

inductive Party where
  | owner
  | child
  deriving DecidableEq

instance : Fintype Party where
  elems := {.owner, .child}
  complete := by rintro (_ | _) <;> decide

/-- Where the owner is in a call of the object. -/
inductive Owner where
  | outside
  /-- In `start`, before `pthread_create`. -/
  | create
  /-- In `latch_.wait()`. -/
  | wait
  /-- Before `assert(tid_ > 0)`. -/
  | check
  /-- In `pthread_join`. -/
  | join
  deriving DecidableEq

/-- Where the thread is in `startThread`. -/
inductive Child where
  | unborn
  /-- Before `*tid_ = CurrentThread::tid()`. -/
  | setTid
  /-- In `latch_->countDown()`. -/
  | countDown
  /-- Before `latch_ = NULL`. -/
  | clear
  /-- Before `func_()`. -/
  | call
  | running
  /-- Before `delete data`. -/
  | delete
  | exited
  deriving DecidableEq

/-- `ThreadData`: which of its pointers into the object are set. -/
structure Data where
  tid_ : Bool
  latch_ : Bool
  deriving DecidableEq

/-- What has become of the thread behind `pthreadId_`. -/
inductive Handle where
  | none
  | joinable
  | joined
  | detached
  deriving DecidableEq

structure State where
  /-- The object has not been destroyed. -/
  alive : Bool
  started_ : Bool
  joined_ : Bool
  tid_ : Nat
  pthreadId_ : Handle
  latch_ : CountDownLatch.State Party
  owner : Owner
  child : Child
  /-- The id that the kernel has given the thread. -/
  tid : Nat
  data : Option Data
  news : Nat
  deletes : Nat
  calls : Nat
  /-- Something was used that had been freed. -/
  stray : Bool
  aborted : Bool

def new : State :=
  ⟨true, false, false, 0, .none, CountDownLatch.start 1, .outside, .unborn, 0, none, 0, 0, 0, false,
    false⟩

/-- The thread uses the object, through a pointer of its data. -/
def State.touch (s : State) (pointer : Data → Bool) : State :=
  { s with stray := s.stray || !s.alive || !s.data.any pointer }

/-- The thread uses its data. -/
def State.touchData (s : State) : State := { s with stray := s.stray || s.data.isNone }

inductive Action where
  | start
  /-- `pthread_create`, which gives the thread an id or fails. -/
  | create (tid : Option Nat)
  /-- A step at the latch. -/
  | latch (party : Party) (op : CountDownLatch.Op)
  | check
  | setTid
  | clear
  | call
  /-- `func_` returns. -/
  | ret
  | delete
  | join
  /-- `pthread_join` returns. -/
  | joined
  /-- `~Thread()`. -/
  | destroy
  deriving DecidableEq

/-- A call of the owner's is made outside of another one, and as its assertions say. -/
def step (s : State) : Action → Option State
  | .start =>
      if s.owner = .outside ∧ s.alive ∧ s.started_ = false then
        some { s with started_ := true, data := some ⟨true, true⟩, news := s.news + 1,
                      owner := .create }
      else none
  | .create (some tid) =>
      if s.owner = .create ∧ 0 < tid then
        some { s with pthreadId_ := .joinable, tid, child := .setTid, owner := .wait }
      else none
  | .create none =>
      if s.owner = .create then
        some { s with started_ := false, data := none, deletes := s.deletes + 1, owner := .outside }
      else none
  | .latch .owner op =>
      if s.owner = .wait ∧ op.Waits then do
        let latch ← CountDownLatch.step s.latch_ (.owner, op)
        some { s with latch_ := latch, owner := if op = .pass then .check else .wait }
      else none
  | .latch .child op =>
      if s.child = .countDown ∧ ¬op.Waits then do
        let latch ← CountDownLatch.step s.latch_ (.child, op)
        some { s.touch Data.latch_ with
          latch_ := latch
          child := if op = .leave then .clear else .countDown }
      else none
  | .check =>
      if s.owner = .check then
        some (if 0 < s.tid_ then { s with owner := .outside } else { s with aborted := true })
      else none
  | .setTid =>
      if s.child = .setTid then
        some { s.touch Data.tid_ with
          tid_ := s.tid
          data := s.data.map fun d => { d with tid_ := false }
          child := .countDown }
      else none
  | .clear =>
      if s.child = .clear then
        some { s.touchData with
          data := s.data.map fun d => { d with latch_ := false }
          child := .call }
      else none
  | .call =>
      if s.child = .call then some { s.touchData with calls := s.calls + 1, child := .running }
      else none
  | .ret => if s.child = .running then some { s.touchData with child := .delete } else none
  | .delete =>
      if s.child = .delete then
        some { s.touchData with data := none, deletes := s.deletes + 1, child := .exited }
      else none
  | .join =>
      if s.owner = .outside ∧ s.alive ∧ s.started_ ∧ s.joined_ = false then
        some { s with joined_ := true, owner := .join }
      else none
  | .joined =>
      if s.owner = .join ∧ s.child = .exited then
        some { s with pthreadId_ := .joined, owner := .outside }
      else none
  | .destroy =>
      if s.owner = .outside ∧ s.alive then
        some { s with
          alive := false
          pthreadId_ := if s.started_ ∧ s.joined_ = false then .detached else s.pthreadId_
          stray := s.stray || s.latch_.latch.mutex_.isSome }
      else none

/-! ## What the thread has done -/

/-- The thread still needs the object. -/
def Child.Early (c : Child) : Prop := c = .setTid ∨ c = .countDown

instance (c : Child) : Decidable c.Early := inferInstanceAs (Decidable (_ ∨ _))

/-- The data of a thread that has got this far. -/
def Child.data : Child → Option Data
  | .unborn | .exited => none
  | .setTid => some ⟨true, true⟩
  | .countDown | .clear => some ⟨false, true⟩
  | .call | .running | .delete => some ⟨false, false⟩

def Child.calls : Child → Nat
  | .running | .delete | .exited => 1
  | _ => 0

/-- What the thread has done with the latch. -/
def Child.Counts (c : Child) (l : CountDownLatch.State Party) : Prop :=
  match c with
  | .unborn | .setTid => l.place .child = .outside ∧ l.downs = 0
  | .countDown =>
      (l.place .child = .outside ∨ l.place .child = .counting) ∧ l.downs = 0 ∨
        l.place .child = .counted ∧ l.downs = 1
  | _ => l.place .child = .outside ∧ l.downs = 1

structure Sound (s : State) : Prop where
  latch : CountDownLatch.Sound 1 s.latch_
  counts : s.child.Counts s.latch_
  /-- Only `latch_.wait()` is at the latch. -/
  waits : s.owner ≠ .wait → s.latch_.place .owner = .outside
  /-- It is the thread that counts down. -/
  counter : s.latch_.place .owner ≠ .counting ∧ s.latch_.place .owner ≠ .counted
  /-- The owner is at the latch as long as the thread needs the object. -/
  needed : s.child.Early → s.owner = .wait
  born : s.owner = .wait ∨ s.owner = .check ∨ s.owner = .join → s.child ≠ .unborn
  unborn : s.owner = .create → s.child = .unborn
  alive : s.owner ≠ .outside → s.alive
  started : s.started_ ↔ s.owner = .create ∨ s.child ≠ .unborn
  data : s.data = if s.owner = .create then some ⟨true, true⟩ else s.child.data
  freed : s.news = s.deletes + if s.data.isSome then 1 else 0
  calls : s.calls = s.child.calls
  tid : s.child ≠ .unborn → 0 < s.tid
  written : s.child ≠ .unborn → s.child ≠ .setTid → s.tid_ = s.tid
  handle : s.child = .unborn → s.pthreadId_ = .none
  joined : s.joined_ → s.owner ≠ .join → s.pthreadId_ = .joined
  joinable : s.pthreadId_ = .joinable → s.alive
  stray : s.stray = false
  aborted : s.aborted = false

theorem sound_new : Sound new where
  latch := CountDownLatch.sound_start 1
  counts := ⟨rfl, rfl⟩
  waits := fun _ => rfl
  counter := ⟨nofun, nofun⟩
  needed := nofun
  born := nofun
  unborn := nofun
  alive := fun _ => rfl
  started := by decide
  data := rfl
  freed := rfl
  calls := rfl
  tid := fun h => absurd rfl h
  written := fun h => absurd rfl h
  handle := fun _ => rfl
  joined := nofun
  joinable := nofun
  stray := rfl
  aborted := rfl

/-! ## One step -/

section

variable {s t : State}

/-- Before `start` there is no thread. -/
theorem Sound.unstarted (hs : Sound s) (h : s.started_ = false) :
    s.owner ≠ .create ∧ s.child = .unborn := by
  have hnot : ¬(s.owner = .create ∨ s.child ≠ .unborn) := fun hor => by
    rw [hs.started.mpr hor] at h
    cases h
  exact ⟨fun hcreate => hnot (Or.inl hcreate), by_contra fun hchild => hnot (Or.inr hchild)⟩

theorem Sound.data_child (hs : Sound s) (h : s.child ≠ .unborn) : s.data = s.child.data := by
  rw [hs.data, if_neg fun hcreate => h (hs.unborn hcreate)]

/-- The owner in a call is not outside of it. -/
theorem alive_of (hs : Sound s) {o : Owner} (h : s.owner = o) (ho : o ≠ .outside) : s.alive :=
  hs.alive (h ▸ ho)

theorem touch_eq {pointer : Data → Bool} {d : Data} (hstray : s.stray = false) (halive : s.alive)
    (hdata : s.data = some d) (hpointer : pointer d) : s.touch pointer = s := by
  have hsame : (s.stray || !s.alive || !s.data.any pointer) = s.stray := by
    rw [hstray, halive, hdata, Option.any_some, hpointer]
    rfl
  rw [State.touch, hsame]

theorem touchData_eq {d : Data} (hstray : s.stray = false) (hdata : s.data = some d) :
    s.touchData = s := by
  have hsame : (s.stray || s.data.isNone) = s.stray := by
    rw [hstray, hdata]
    rfl
  rw [State.touchData, hsame]

theorem sound_start (hs : Sound s) (h : step s .start = some t) : Sound t := by
  obtain ⟨⟨howner, halive, hstarted⟩, h⟩ := Option.ite_none_right_eq_some.mp h
  obtain ⟨hcreate, hchild⟩ := hs.unstarted hstarted
  have hdata : s.data = none := by rw [hs.data, if_neg hcreate, hchild, Child.data]
  have hfreed := hs.freed
  rw [hdata] at hfreed
  cases h
  exact
    { hs with
      waits := fun _ => hs.waits (by rw [howner]; nofun)
      needed := fun hearly => absurd (hs.needed hearly) (by rw [howner]; nofun)
      born := nofun
      unborn := fun _ => hchild
      alive := fun _ => halive
      started := iff_of_true rfl (Or.inl rfl)
      data := rfl
      freed := congrArg Nat.succ hfreed
      joined := fun hjoined _ => hs.joined hjoined (by rw [howner]; nofun) }

theorem sound_create {tid : Option Nat} (hs : Sound s) (h : step s (.create tid) = some t) :
    Sound t := by
  cases tid with
  | some tid =>
      obtain ⟨⟨howner, hpos⟩, h⟩ := Option.ite_none_right_eq_some.mp h
      have hchild := hs.unborn howner
      have hcounts := hs.counts
      have hdata := hs.data
      have hcalls := hs.calls
      have halive := alive_of hs howner nofun
      rw [hchild] at hcounts hcalls
      rw [if_pos howner] at hdata
      cases h
      exact
        { hs with
          counts := hcounts
          waits := fun hne => absurd rfl hne
          needed := fun _ => rfl
          born := fun _ => nofun
          unborn := nofun
          alive := fun _ => halive
          started := iff_of_true (hs.started.mpr (Or.inl howner)) (Or.inr nofun)
          data := hdata
          calls := hcalls
          tid := fun _ => hpos
          written := fun _ hne => absurd rfl hne
          handle := nofun
          joined := fun hjoined _ => by
            have hpthread := hs.joined hjoined (by rw [howner]; nofun)
            rw [hs.handle hchild] at hpthread
            cases hpthread
          joinable := fun _ => halive }
  | none =>
      obtain ⟨howner, h⟩ := Option.ite_none_right_eq_some.mp h
      have hchild := hs.unborn howner
      have hfreed := hs.freed
      rw [hs.data, if_pos howner] at hfreed
      cases h
      exact
        { hs with
          waits := fun _ => hs.waits (by rw [howner]; nofun)
          needed := fun hearly => absurd (hs.needed hearly) (by rw [howner]; nofun)
          born := fun hor => by rcases hor with hor | hor | hor <;> cases hor
          unborn := nofun
          alive := fun hne => absurd rfl hne
          started := iff_of_false nofun (by rw [hchild]; simp)
          data := by
            show none = s.child.data
            rw [hchild, Child.data]
          freed := hfreed
          joined := fun hjoined _ => hs.joined hjoined (by rw [howner]; nofun) }

/-- A step of the owner in `latch_.wait()`: it comes out only when the thread has
counted down and left. -/
theorem sound_wait {op : CountDownLatch.Op} (hs : Sound s)
    (h : step s (.latch .owner op) = some t) : Sound t := by
  obtain ⟨⟨howner, hop⟩, h⟩ := Option.ite_none_right_eq_some.mp h
  obtain ⟨latch, hlatch, h⟩ := Option.bind_eq_some_iff.mp h
  obtain ⟨hdowns, hmoves⟩ := CountDownLatch.waits_step hop hlatch
  have hpass : op = .pass → s.latch_.place .owner = .passing ∧ latch.place .owner = .outside := by
    rcases hmoves with ⟨rfl, -⟩ | ⟨rfl, -⟩ | ⟨rfl, -⟩ | ⟨-, hpass⟩
    · nofun
    · nofun
    · nofun
    · exact fun _ => hpass
  have hplace : latch.place .child = s.latch_.place .child :=
    CountDownLatch.place_step hlatch nofun
  have hsound := CountDownLatch.sound_step hs.latch hlatch
  have hchild : s.child ≠ .unborn := hs.born (Or.inl howner)
  have hcounts : s.child.Counts latch := by
    have hcounts := hs.counts
    unfold Child.Counts at hcounts ⊢
    rw [hplace, hdowns]
    exact hcounts
  have hearly : op = .pass → ¬s.child.Early := by
    intro hpassing hearly
    have hthrough := hs.latch.through .owner (hpass hpassing).1
    rw [Int32.toInt_one] at hthrough
    have hmutex := hs.latch.mine (hpass hpassing).1 (by decide)
    have hcounts := hs.counts
    rcases hearly with hearly | hearly
    · rw [hearly] at hcounts
      exact absurd hcounts.2 (by omega)
    · rw [hearly] at hcounts
      rcases hcounts with ⟨-, hzero⟩ | ⟨hcounted, -⟩
      · exact absurd hzero (by omega)
      · have hmine := hs.latch.mine hcounted (by decide)
        rw [hmutex] at hmine
        cases hmine
  have halive := alive_of hs howner nofun
  have hcounter : latch.place .owner ≠ .counting ∧ latch.place .owner ≠ .counted := by
    rcases hmoves with ⟨-, -, hi⟩ | ⟨-, -, hi⟩ | ⟨-, -, hi⟩ | ⟨-, -, hi⟩ <;> rw [hi]
    · exact ⟨nofun, nofun⟩
    · split <;> exact ⟨nofun, nofun⟩
    · exact ⟨nofun, nofun⟩
    · exact ⟨nofun, nofun⟩
  have hlatched : Sound { s with latch_ := latch } :=
    { hs with
      counter := hcounter
      latch := hsound
      counts := hcounts
      waits := fun hne => absurd howner hne }
  cases h
  by_cases hpassing : op = .pass
  · rw [if_pos hpassing]
    exact
      { hlatched with
        waits := fun _ => (hpass hpassing).2
        needed := fun h => absurd h (hearly hpassing)
        born := fun _ => hchild
        unborn := nofun
        alive := fun _ => halive
        started := iff_of_true (hs.started.mpr (Or.inr hchild)) (Or.inr hchild)
        data := hs.data_child hchild
        joined := fun hjoined _ => hs.joined hjoined (by rw [howner]; nofun) }
  · rw [if_neg hpassing, ← howner]
    exact hlatched

/-- A step of the thread at the latch, which is still there. -/
theorem sound_count {op : CountDownLatch.Op} (hs : Sound s)
    (h : step s (.latch .child op) = some t) : Sound t := by
  obtain ⟨⟨hchild, hop⟩, h⟩ := Option.ite_none_right_eq_some.mp h
  obtain ⟨latch, hlatch, h⟩ := Option.bind_eq_some_iff.mp h
  have howner : s.owner = .wait := hs.needed (by rw [hchild]; decide)
  have halive := alive_of hs howner nofun
  have hborn : s.child ≠ .unborn := by
    rw [hchild]
    nofun
  have hdata := hs.data_child hborn
  have hcalls := hs.calls
  have hcounts := hs.counts
  rw [hchild] at hdata hcalls hcounts
  have htouch : s.touch Data.latch_ = s := touch_eq hs.stray halive hdata rfl
  have hlatched : ∀ c : Child, c = .countDown ∨ c = .clear → c.Counts latch →
      Sound { s with latch_ := latch, child := c } := by
    intro c hc hcounts
    have hne : c ≠ .unborn := by rcases hc with rfl | rfl <;> nofun
    exact
      { hs with
        latch := CountDownLatch.sound_step hs.latch hlatch
        counts := hcounts
        waits := fun h => absurd howner h
        counter := by
          rw [CountDownLatch.place_step (j := .owner) hlatch nofun]
          exact hs.counter
        needed := fun _ => howner
        born := fun _ => hne
        unborn := fun h => absurd (howner.symm.trans h) nofun
        started := iff_of_true (hs.started.mpr (Or.inr hborn)) (Or.inr hne)
        data := by
          show s.data = if s.owner = .create then some ⟨true, true⟩ else c.data
          rw [howner, if_neg nofun, hdata]
          rcases hc with rfl | rfl <;> rfl
        calls := by
          show s.calls = c.calls
          rw [hcalls]
          rcases hc with rfl | rfl <;> rfl
        tid := fun _ => hs.tid hborn
        written := fun _ _ => hs.written hborn (by rw [hchild]; nofun)
        handle := fun h => absurd h hne }
  cases h
  rw [htouch]
  rcases CountDownLatch.counts_step hop hlatch with ⟨rfl, hplace, hplace', hdowns⟩ |
    ⟨rfl, hplace, hplace', hdowns⟩ | ⟨rfl, hplace, hplace', hdowns⟩
  · refine hlatched .countDown (Or.inl rfl) (Or.inl ⟨Or.inr hplace', ?_⟩)
    rcases hcounts with ⟨-, hzero⟩ | ⟨hcounted, -⟩
    · rw [hdowns, hzero]
    · exact absurd (hplace.symm.trans hcounted) nofun
  · refine hlatched .countDown (Or.inl rfl) (Or.inr ⟨hplace', ?_⟩)
    rcases hcounts with ⟨-, hzero⟩ | ⟨hcounted, -⟩
    · rw [hdowns, hzero]
    · exact absurd (hplace.symm.trans hcounted) nofun
  · refine hlatched .clear (Or.inr rfl) ⟨hplace', ?_⟩
    rcases hcounts with ⟨hearlier, -⟩ | ⟨-, hone⟩
    · rcases hearlier with hearlier | hearlier <;>
        exact absurd (hplace.symm.trans hearlier) nofun
    · rw [hdowns, hone]

theorem sound_setTid (hs : Sound s) (h : step s .setTid = some t) : Sound t := by
  obtain ⟨hchild, h⟩ := Option.ite_none_right_eq_some.mp h
  have howner : s.owner = .wait := hs.needed (by rw [hchild]; decide)
  have hborn : s.child ≠ .unborn := by
    rw [hchild]
    nofun
  have hdata := hs.data_child hborn
  have hcalls := hs.calls
  have hcounts := hs.counts
  have hfreed := hs.freed
  rw [hchild] at hdata hcalls hcounts
  rw [hdata] at hfreed
  rw [touch_eq hs.stray (alive_of hs howner nofun) hdata rfl, hdata] at h
  cases h
  exact
    { hs with
      counts := Or.inl ⟨Or.inl hcounts.1, hcounts.2⟩
      needed := fun _ => howner
      born := fun _ => nofun
      unborn := fun h => absurd (howner.symm.trans h) nofun
      started := iff_of_true (hs.started.mpr (Or.inr hborn)) (Or.inr nofun)
      data := by
        rw [howner]
        rfl
      freed := hfreed
      calls := hcalls
      tid := fun _ => hs.tid hborn
      written := fun _ _ => rfl
      handle := nofun }

theorem counts_late {c : Child} (hborn : c ≠ .unborn) (hlate : ¬c.Early)
    (l : CountDownLatch.State Party) :
    c.Counts l ↔ l.place .child = .outside ∧ l.downs = 1 := by
  cases c with
  | unborn => exact absurd rfl hborn
  | setTid | countDown => exact absurd (by decide) hlate
  | _ => exact Iff.rfl

/-- What the thread does without the object: it goes on from a place behind the latch to
the next one. -/
theorem sound_late {c : Child} {data : Option Data} {calls deletes : Nat} (hs : Sound s)
    (hborn : s.child ≠ .unborn) (hlate : ¬s.child.Early) (hc : c ≠ .unborn) (hclate : ¬c.Early)
    (hdata : data = c.data) (hcalls : calls = c.calls)
    (hfreed : s.news = deletes + if data.isSome then 1 else 0) :
    Sound { s with child := c, data, calls, deletes } := by
  have hcreate : s.owner ≠ .create := fun h => hborn (hs.unborn h)
  exact
    { hs with
      counts := (counts_late hc hclate _).mpr ((counts_late hborn hlate _).mp hs.counts)
      needed := fun hearly => absurd hearly hclate
      born := fun _ => hc
      unborn := fun h => absurd h hcreate
      started := iff_of_true (hs.started.mpr (Or.inr hborn)) (Or.inr hc)
      data := by
        rw [if_neg hcreate]
        exact hdata
      freed := hfreed
      calls := hcalls
      tid := fun _ => hs.tid hborn
      written := fun _ _ => hs.written hborn fun hsetTid => hlate (Or.inl hsetTid)
      handle := fun h => absurd h hc }

theorem sound_child {a : Action} (hs : Sound s) (ha : a ∈ [.clear, .call, .ret, .delete])
    (h : step s a = some t) : Sound t := by
  have hdata := hs.data_child
  have hfreed := hs.freed
  have hcalls := hs.calls
  simp only [List.mem_cons, List.not_mem_nil, or_false] at ha
  rcases ha with rfl | rfl | rfl | rfl <;>
    obtain ⟨hchild, h⟩ := Option.ite_none_right_eq_some.mp h <;>
    rw [hchild] at hdata hcalls <;>
    have hsome := hdata nofun <;>
    rw [hsome] at hfreed <;>
    rw [touchData_eq hs.stray hsome] at h <;>
    cases h <;>
    refine sound_late hs (by rw [hchild]; nofun) (by rw [hchild]; decide) nofun (by decide) ?_ ?_ ?_
  · rw [hsome]
    rfl
  · exact hcalls
  · rw [hsome]
    exact hfreed
  · exact hsome
  · exact congrArg Nat.succ hcalls
  · rw [hsome]
    exact hfreed
  · exact hsome
  · exact hcalls
  · rw [hsome]
    exact hfreed
  · rfl
  · exact hcalls
  · exact hfreed

/-- The id is in the object before `start` looks at it. -/
theorem sound_check (hs : Sound s) (h : step s .check = some t) :
    Sound t ∧ t.owner = .outside := by
  obtain ⟨howner, h⟩ := Option.ite_none_right_eq_some.mp h
  have hborn := hs.born (Or.inr (Or.inl howner))
  have hlate : ¬s.child.Early := fun hearly => absurd (howner.symm.trans (hs.needed hearly)) nofun
  have hwritten := hs.written hborn fun hsetTid => hlate (Or.inl hsetTid)
  have htid := hs.tid hborn
  rw [if_pos (hwritten ▸ htid)] at h
  cases h
  exact ⟨
    { hs with
      waits := fun _ => hs.waits (by rw [howner]; nofun)
      needed := fun hearly => absurd hearly hlate
      born := fun hor => by rcases hor with hor | hor | hor <;> cases hor
      unborn := nofun
      alive := fun hne => absurd rfl hne
      started := iff_of_true (hs.started.mpr (Or.inr hborn)) (Or.inr hborn)
      data := hs.data_child hborn
      joined := fun hjoined _ => hs.joined hjoined (by rw [howner]; nofun) }, rfl⟩

theorem sound_join (hs : Sound s) (h : step s .join = some t) : Sound t := by
  obtain ⟨⟨howner, halive, hstarted, -⟩, h⟩ := Option.ite_none_right_eq_some.mp h
  have hborn : s.child ≠ .unborn := by
    rcases hs.started.mp hstarted with hcreate | hborn
    · exact absurd (howner.symm.trans hcreate) nofun
    · exact hborn
  cases h
  exact
    { hs with
      waits := fun _ => hs.waits (by rw [howner]; nofun)
      needed := fun hearly => absurd (howner.symm.trans (hs.needed hearly)) nofun
      born := fun _ => hborn
      unborn := nofun
      alive := fun _ => halive
      started := iff_of_true hstarted (Or.inr hborn)
      data := hs.data_child hborn
      joined := fun _ hne => absurd rfl hne }

theorem sound_joined (hs : Sound s) (h : step s .joined = some t) : Sound t := by
  obtain ⟨⟨howner, hchild⟩, h⟩ := Option.ite_none_right_eq_some.mp h
  have hborn : s.child ≠ .unborn := by
    rw [hchild]
    nofun
  cases h
  exact
    { hs with
      waits := fun _ => hs.waits (by rw [howner]; nofun)
      needed := fun hearly => absurd (hchild ▸ hearly) (by decide)
      born := fun hor => by rcases hor with hor | hor | hor <;> cases hor
      unborn := nofun
      alive := fun hne => absurd rfl hne
      started := iff_of_true (hs.started.mpr (Or.inr hborn)) (Or.inr hborn)
      data := hs.data_child hborn
      handle := fun h => absurd h hborn
      joined := fun _ _ => rfl
      joinable := nofun }

/-- When the owner is outside, the thread is not at the latch either. -/
theorem Sound.unlocked (hs : Sound s) (howner : s.owner = .outside) :
    s.latch_.latch.mutex_ = none := by
  have hlate : ¬s.child.Early := fun hearly => absurd (howner.symm.trans (hs.needed hearly)) nofun
  have hchild : s.latch_.place .child = .outside := by
    by_cases hborn : s.child = .unborn
    · have hcounts := hs.counts
      rw [hborn] at hcounts
      exact hcounts.1
    · exact ((counts_late hborn hlate _).mp hs.counts).1
  cases hmutex : s.latch_.latch.mutex_ with
  | none => rfl
  | some party =>
      have hholds := (hs.latch.holder party).mp hmutex
      cases party with
      | owner =>
          rw [hs.waits (by rw [howner]; nofun)] at hholds
          exact absurd hholds (by decide)
      | child =>
          rw [hchild] at hholds
          exact absurd hholds (by decide)

theorem sound_destroy (hs : Sound s) (h : step s .destroy = some t) : Sound t := by
  obtain ⟨⟨howner, -⟩, h⟩ := Option.ite_none_right_eq_some.mp h
  have hunlocked := hs.unlocked howner
  have hjoined := fun h => hs.joined h (by rw [howner]; nofun)
  have hunborn : s.child = .unborn ↔ s.started_ = false := by
    rw [← Bool.not_eq_true, hs.started, howner]
    simp
  have hhandle : (if s.started_ ∧ s.joined_ = false then Handle.detached else s.pthreadId_) ≠
      .joinable := by
    split
    · exact Handle.noConfusion
    · next hnot =>
        intro h
        cases hj : s.joined_ with
        | true => exact Handle.noConfusion ((hjoined hj).symm.trans h)
        | false =>
            have hfalse : s.started_ = false := by
              cases hstarted : s.started_ with
              | true => exact absurd ⟨hstarted, hj⟩ hnot
              | false => rfl
            exact Handle.noConfusion ((hs.handle (hunborn.mpr hfalse)).symm.trans h)
  cases h
  exact
    { hs with
      alive := fun hne => absurd howner hne
      handle := fun hchild => by
        rw [hunborn.mp hchild, if_neg (fun h => Bool.noConfusion h.1)]
        exact hs.handle hchild
      joined := fun (hj : s.joined_ = true) _ => by
        rw [hj, if_neg fun h => Bool.noConfusion h.2]
        exact hjoined hj
      joinable := fun h => absurd h hhandle
      stray := by
        rw [hs.stray, hunlocked]
        rfl }

theorem sound_step {a : Action} (hs : Sound s) (h : step s a = some t) : Sound t := by
  cases a with
  | start => exact sound_start hs h
  | create tid => exact sound_create hs h
  | latch party op =>
      cases party with
      | owner => exact sound_wait hs h
      | child => exact sound_count hs h
  | check => exact (sound_check hs h).1
  | setTid => exact sound_setTid hs h
  | clear | call | ret | delete => exact sound_child hs (by decide) h
  | join => exact sound_join hs h
  | joined => exact sound_joined hs h
  | destroy => exact sound_destroy hs h

/-! ## Coming to rest -/

/-- A step that is no new call of the owner's, not the return of `func_`, and no spurious
wake. -/
def Prompt (s : State) : Action → Prop
  | .start | .join | .destroy | .ret => False
  | .latch .owner .wake => s.latch_.latch.condition_ .owner = .notified
  | _ => True

instance (s : State) (a : Action) : Decidable (Prompt s a) := by
  unfold Prompt
  split <;> infer_instance

/-- The owner is outside, or waits for `func_`, and the thread is in `func_` or over. -/
def Settled (s : State) : Prop :=
  (s.owner = .outside ∨ s.owner = .join ∧ s.child = .running) ∧
    (s.child = .unborn ∨ s.child = .running ∨ s.child = .exited)

def Child.left (p : CountDownLatch.Place) : Child → Nat
  | .setTid => 6
  | .countDown => match p with
      | .counting => 4
      | .counted => 3
      | _ => 5
  | .clear => 2
  | .call | .delete => 1
  | .unborn | .running | .exited => 0

def Owner.left (p : CountDownLatch.Place) (down : Bool) : Owner → Nat
  | .create => 20
  | .wait => match p with
      | .passing => 2
      | .waiting => 4
      | .testing => if down then 3 else 5
      | _ => if down then 5 else 6
  | .check | .join => 1
  | .outside => 0

/-- The steps that are left until both come to rest. -/
def State.rank (s : State) : Nat :=
  s.child.left (s.latch_.place .child) + s.owner.left (s.latch_.place .owner) (0 < s.latch_.downs)

theorem rank_le (s : State) : s.rank ≤ 26 := by
  have hchild : s.child.left (s.latch_.place .child) ≤ 6 := by
    unfold Child.left
    split <;> (try split) <;> decide
  have howner : s.owner.left (s.latch_.place .owner) (0 < s.latch_.downs) ≤ 20 := by
    unfold Owner.left
    split <;> (try split) <;> (try split) <;> decide
  exact Nat.add_le_add hchild howner

theorem rank_of_owner {o : Owner} {p : CountDownLatch.Place} (hchild : t.child = s.child)
    (hdowns : t.latch_.downs = s.latch_.downs)
    (hplace : t.latch_.place .child = s.latch_.place .child) (ho : t.owner = o)
    (hp : t.latch_.place .owner = p)
    (h : o.left p (0 < s.latch_.downs) <
      s.owner.left (s.latch_.place .owner) (0 < s.latch_.downs)) : t.rank < s.rank := by
  unfold State.rank
  rw [hchild, hdowns, hplace, ho, hp]
  exact Nat.add_lt_add_left h _

theorem rank_of_child {c c' : Child} (hlatch : t.latch_ = s.latch_) (howner : t.owner = s.owner)
    (hc : s.child = c) (hc' : t.child = c')
    (h : c'.left (s.latch_.place .child) < c.left (s.latch_.place .child)) : t.rank < s.rank := by
  unfold State.rank
  rw [hlatch, howner, hc, hc']
  exact Nat.add_lt_add_right h _

theorem rank_wait {op : CountDownLatch.Op} (hs : Sound s) (hprompt : Prompt s (.latch .owner op))
    (h : step s (.latch .owner op) = some t) : t.rank < s.rank := by
  obtain ⟨⟨howner, hop⟩, h⟩ := Option.ite_none_right_eq_some.mp h
  obtain ⟨latch, hlatch, h⟩ := Option.bind_eq_some_iff.mp h
  obtain ⟨hdowns, hmoves⟩ := CountDownLatch.waits_step hop hlatch
  have hplace : latch.place .child = s.latch_.place .child :=
    CountDownLatch.place_step hlatch nofun
  have hpos : 0 < s.latch_.latch.count_ ↔ (s.latch_.downs : Int) < 1 := hs.latch.pos_iff
  cases h
  rcases hmoves with ⟨rfl, hi, hi'⟩ | ⟨rfl, hi, hi'⟩ | ⟨rfl, hi, hi'⟩ | ⟨rfl, hi, hi'⟩
  · refine rank_of_owner (o := .wait) rfl hdowns hplace rfl hi' ?_
    rw [howner, hi]
    cases decide (0 < s.latch_.downs) <;> decide
  · refine rank_of_owner (o := .wait) rfl hdowns hplace rfl hi' ?_
    rw [howner, hi]
    by_cases hdown : 0 < s.latch_.downs
    · rw [if_neg (hpos.not.mpr (by omega)), decide_eq_true hdown]
      decide
    · rw [if_pos (hpos.mpr (by omega)), decide_eq_false hdown]
      decide
  · have hdown : 0 < s.latch_.downs :=
      Int.natCast_pos.mp (hs.latch.notified .owner hprompt)
    refine rank_of_owner (o := .wait) rfl hdowns hplace rfl hi' ?_
    rw [howner, hi, decide_eq_true hdown]
    decide
  · refine rank_of_owner (o := .check) rfl hdowns hplace rfl hi' ?_
    rw [howner, hi]
    exact show 1 < 2 by decide

/-- The owner has no more before it when the count is down. -/
theorem left_down (o : Owner) (p : CountDownLatch.Place) (down : Bool) :
    o.left p true ≤ o.left p down := by
  cases o <;> cases p <;> cases down <;> decide

theorem rank_count {op : CountDownLatch.Op} (h : step s (.latch .child op) = some t) :
    t.rank < s.rank := by
  obtain ⟨⟨hchild, hop⟩, h⟩ := Option.ite_none_right_eq_some.mp h
  obtain ⟨latch, hlatch, h⟩ := Option.bind_eq_some_iff.mp h
  have hplace : latch.place .owner = s.latch_.place .owner :=
    CountDownLatch.place_step hlatch nofun
  cases h
  unfold State.rank
  show Child.left (latch.place .child) (if op = .leave then .clear else .countDown) +
    s.owner.left (latch.place .owner) (0 < latch.downs) < _
  rw [hplace, hchild]
  rcases CountDownLatch.counts_step hop hlatch with ⟨rfl, hi, hi', hdowns⟩ |
    ⟨rfl, hi, hi', hdowns⟩ | ⟨rfl, hi, hi', hdowns⟩
  · rw [hi, hi', hdowns, if_neg nofun]
    exact Nat.add_lt_add_right (by decide) _
  · rw [hi, hi', hdowns, if_neg nofun, decide_eq_true (Nat.succ_pos _)]
    exact Nat.add_lt_add_of_lt_of_le (by decide) (left_down _ _ _)
  · rw [hi, hi', hdowns, if_pos rfl]
    exact Nat.add_lt_add_right (by decide) _

theorem rank_create {tid : Option Nat} (hs : Sound s) (h : step s (.create tid) = some t) :
    t.rank < s.rank := by
  cases tid with
  | some tid =>
      obtain ⟨⟨howner, -⟩, h⟩ := Option.ite_none_right_eq_some.mp h
      have hplace := hs.waits (by rw [howner]; nofun)
      cases h
      have hbefore : s.rank = 20 := by
        rw [State.rank, howner, hs.unborn howner]
        rfl
      rw [hbefore, State.rank]
      dsimp only
      rw [hplace]
      cases decide (0 < s.latch_.downs) <;> exact Nat.lt_of_sub_eq_succ rfl
  | none =>
      obtain ⟨howner, h⟩ := Option.ite_none_right_eq_some.mp h
      cases h
      refine rank_of_owner rfl rfl rfl rfl rfl ?_
      rw [howner]
      exact show 0 < 20 by decide

theorem rank_step {a : Action} (hs : Sound s) (hprompt : Prompt s a) (h : step s a = some t) :
    t.rank < s.rank := by
  cases a with
  | start | join | destroy | ret => exact hprompt.elim
  | latch party op =>
      cases party with
      | owner => exact rank_wait hs hprompt h
      | child => exact rank_count h
  | create tid => exact rank_create hs h
  | check =>
      have howner := (sound_check hs h).2
      obtain ⟨hcheck, h⟩ := Option.ite_none_right_eq_some.mp h
      split at h <;> cases h
      · refine rank_of_owner rfl rfl rfl rfl rfl ?_
        rw [hcheck]
        exact show 0 < 1 by decide
      · exact absurd (hcheck.symm.trans howner) nofun
  | setTid =>
      obtain ⟨hchild, h⟩ := Option.ite_none_right_eq_some.mp h
      have hcounts := hs.counts
      rw [hchild] at hcounts
      cases h
      refine rank_of_child rfl rfl hchild rfl ?_
      rw [hcounts.1]
      exact show 5 < 6 by decide
  | clear =>
      obtain ⟨hchild, h⟩ := Option.ite_none_right_eq_some.mp h
      cases h
      exact rank_of_child rfl rfl hchild rfl (show 1 < 2 by decide)
  | call | delete =>
      obtain ⟨hchild, h⟩ := Option.ite_none_right_eq_some.mp h
      cases h
      exact rank_of_child rfl rfl hchild rfl (show 0 < 1 by decide)
  | joined =>
      obtain ⟨⟨howner, -⟩, h⟩ := Option.ite_none_right_eq_some.mp h
      cases h
      refine rank_of_owner rfl rfl rfl rfl rfl ?_
      rw [howner]
      exact show 0 < 1 by decide

theorem exists_wait (op : CountDownLatch.Op) {latch : CountDownLatch.State Party}
    (howner : s.owner = .wait) (hop : op.Waits)
    (hwake : op = .wake → s.latch_.latch.condition_ .owner = .notified)
    (hlatch : CountDownLatch.step s.latch_ (.owner, op) = some latch) :
    ∃ a t, Prompt s a ∧ step s a = some t := by
  refine ⟨.latch .owner op, _, ?_, (if_pos ⟨howner, hop⟩).trans
    (Option.bind_eq_some_iff.mpr ⟨latch, hlatch, rfl⟩)⟩
  cases op <;> first | exact hwake rfl | trivial

/-- The owner can go on under the mutex of the latch. -/
theorem exists_holding (hs : Sound s) (howner : s.owner = .wait)
    (hholds : (s.latch_.place .owner).Holds) : ∃ a t, Prompt s a ∧ step s a = some t := by
  rcases hholds with hi | hi | hi | hi
  · by_cases hcount : 0 < s.latch_.latch.count_
    · exact exists_wait .test howner (by decide) nofun
        ((if_pos hi).trans (if_pos hcount))
    · exact exists_wait .test howner (by decide) nofun
        ((if_pos hi).trans (if_neg hcount))
  · exact exists_wait .pass howner (by decide) nofun (if_pos hi)
  · exact absurd hi hs.counter.1
  · exact absurd hi hs.counter.2

/-- The thread can count down, or else its owner is under the mutex. -/
theorem exists_countDown (hs : Sound s) (hchild : s.child = .countDown) :
    ∃ a t, Prompt s a ∧ step s a = some t := by
  have hcounts := hs.counts
  rw [hchild] at hcounts
  have hstep : ∀ (op : CountDownLatch.Op) {latch}, ¬op.Waits →
      CountDownLatch.step s.latch_ (.child, op) = some latch →
      ∃ a t, Prompt s a ∧ step s a = some t := by
    intro op latch hop hlatch
    exact ⟨.latch .child op, _, trivial, (if_pos ⟨hchild, hop⟩).trans
      (Option.bind_eq_some_iff.mpr ⟨latch, hlatch, rfl⟩)⟩
  rcases hcounts with ⟨hplace | hplace, hzero⟩ | ⟨hplace, -⟩
  · cases hmutex : s.latch_.latch.mutex_ with
    | none => exact hstep .countDown (by decide) (if_pos ⟨hplace, hmutex⟩)
    | some party =>
        have hholds := (hs.latch.holder party).mp hmutex
        cases party with
        | child =>
            rw [hplace] at hholds
            exact absurd hholds (by decide)
        | owner => exact exists_holding hs (hs.needed (by rw [hchild]; decide)) hholds
  · have hroom : s.latch_.latch.count_ ≠ Int32.minValue := by
      intro hmin
      have hcount := hs.latch.count
      rw [hmin, hzero, Int32.toInt_minValue, Int32.toInt_one] at hcount
      omega
    exact hstep .decrement (by decide) (if_pos ⟨hplace, hroom⟩)
  · exact hstep .leave (by decide) (if_pos hplace)

/-- The latch is down, so the owner comes out. -/
theorem exists_out (hs : Sound s) (howner : s.owner = .wait) (hlate : ¬s.child.Early) :
    ∃ a t, Prompt s a ∧ step s a = some t := by
  have hborn := hs.born (Or.inl howner)
  obtain ⟨hchild, hdowns⟩ := (counts_late hborn hlate _).mp hs.counts
  by_cases hholds : (s.latch_.place .owner).Holds
  · exact exists_holding hs howner hholds
  · have hmutex : s.latch_.latch.mutex_ = none := by
      cases hmutex : s.latch_.latch.mutex_ with
      | none => rfl
      | some party =>
          have hparty := (hs.latch.holder party).mp hmutex
          cases party with
          | owner => exact absurd hparty hholds
          | child =>
              rw [hchild] at hparty
              exact absurd hparty (by decide)
    have hnotified : s.latch_.place .owner = .waiting →
        s.latch_.latch.condition_ .owner = .notified := by
      intro hi
      have hwaits := (hs.latch.waits .owner).mpr hi
      cases hstatus : s.latch_.latch.condition_ .owner with
      | away => exact absurd hstatus hwaits
      | notified => rfl
      | blocked =>
          have hless := hs.latch.blocked .owner hstatus
          rw [Int32.toInt_one] at hless
          omega
    cases hi : s.latch_.place .owner with
    | outside => exact exists_wait .wait howner (by decide) nofun (if_pos ⟨hi, hmutex⟩)
    | waiting =>
        exact exists_wait .wake howner (by decide) (fun _ => hnotified hi)
          (if_pos ⟨hi, hmutex⟩)
    | _ => exact absurd (hi ▸ (by decide)) hholds

/-- A thread whose owner waits for its end is over, or in `func_`. -/
theorem exists_join (hs : Sound s) (h : ¬Settled s) (howner : s.owner = .join)
    (hchild : s.child = .unborn ∨ s.child = .running ∨ s.child = .exited) :
    ∃ a t, Prompt s a ∧ step s a = some t := by
  rcases hchild with hunborn | hrunning | hexited
  · exact absurd hunborn (hs.born (Or.inr (Or.inr howner)))
  · exact absurd ⟨Or.inr ⟨howner, hrunning⟩, Or.inr (Or.inl hrunning)⟩ h
  · exact ⟨.joined, _, trivial, if_pos ⟨howner, hexited⟩⟩

theorem exists_prompt (hs : Sound s) (h : ¬Settled s) : ∃ a t, Prompt s a ∧ step s a = some t := by
  cases hchild : s.child with
  | setTid => exact ⟨.setTid, _, trivial, if_pos hchild⟩
  | countDown => exact exists_countDown hs hchild
  | clear => exact ⟨.clear, _, trivial, if_pos hchild⟩
  | call => exact ⟨.call, _, trivial, if_pos hchild⟩
  | delete => exact ⟨.delete, _, trivial, if_pos hchild⟩
  | unborn | running | exited =>
      cases howner : s.owner with
      | outside => exact absurd ⟨Or.inl howner, by simp [hchild]⟩ h
      | create => exact ⟨.create none, _, trivial, if_pos howner⟩
      | wait => exact exists_out hs howner (by rw [hchild]; decide)
      | check => exact ⟨.check, _, trivial, if_pos howner⟩
      | join => exact exists_join hs h howner (by rw [hchild]; decide)

/-! ## Every run -/

theorem prompt_step (s : State) (a : Action) (t : State) (hs : Sound s) (hprompt : Prompt s a)
    (h : step s a = some t) : Sound t ∧ t.rank < s.rank :=
  ⟨sound_step hs h, rank_step hs hprompt h⟩

/-- In every run of an owner and its thread, also where `pthread_create` fails, where the
owner destroys the object while the thread runs, and with spurious wakes: neither of them
uses what has been freed, and the assertion of `start` holds; once `start` has returned
the id of the thread is there, and the thread is past its last use of the object;
`func_` is called once at most, the data of a thread is deleted once, and no destroyed
object leaves a thread that nobody will join or has detached.  And none of them hangs: at
any time 26 more steps at most bring the owner out of `start` and the thread into `func_`
or to its end. -/
theorem handed_over {acts : List Action} (h : exec step new acts = some s) :
    s.stray = false ∧ s.aborted = false ∧
      (s.owner = .outside → s.started_ → 0 < s.tid_ ∧ s.tid_ = s.tid ∧ ¬s.child.Early) ∧
      s.calls ≤ 1 ∧ (s.child = .exited → s.calls = 1 ∧ s.data = none) ∧
      s.news = s.deletes + (if s.data.isSome then 1 else 0) ∧
      (s.alive = false → s.pthreadId_ ≠ .joinable) ∧
      (∀ more t, Meets step Prompt s more → exec step s more = some t → more.length ≤ 26) ∧
      ∃ more t, Meets step Prompt s more ∧ exec step s more = some t ∧ Settled t := by
  have hs : Sound s :=
    exec_invariant (fun _ _ _ hs _ ha => sound_step hs ha) (meets_true _ _) sound_new h
  refine ⟨hs.stray, hs.aborted, ?_, ?_, ?_, hs.freed, ?_, ?_,
    exists_exec prompt_step (fun _ hs => exists_prompt hs) hs⟩
  · intro howner hstarted
    have hborn : s.child ≠ .unborn := by
      rcases hs.started.mp hstarted with hcreate | hborn
      · exact absurd (howner.symm.trans hcreate) nofun
      · exact hborn
    have hlate : ¬s.child.Early := fun hearly => absurd (howner.symm.trans (hs.needed hearly)) nofun
    have hwritten := hs.written hborn fun hsetTid => hlate (Or.inl hsetTid)
    exact ⟨hwritten ▸ hs.tid hborn, hwritten, hlate⟩
  · rw [hs.calls]
    cases s.child <;> decide
  · intro hchild
    have hborn : s.child ≠ .unborn := by
      rw [hchild]
      nofun
    rw [hs.calls, hs.data_child hborn, hchild]
    exact ⟨rfl, rfl⟩
  · intro halive hjoinable
    exact absurd (halive.symm.trans (hs.joinable hjoinable)) nofun
  · intro more t hprompt ht
    have hrank := length_le prompt_step hs hprompt ht
    have hle := rank_le s
    omega

end

/-- The owner destroys the object as soon as `start` has returned, before the thread has
got to `func_`. -/
theorem handed_over_early : ∃ s, exec step new [.start, .create (some 7), .setTid,
    .latch .child .countDown, .latch .child .decrement, .latch .child .leave, .latch .owner .wait,
    .latch .owner .test, .latch .owner .pass, .check, .destroy, .clear] = some s ∧
    s.stray = false ∧ s.child = .call := by
  have hgo : (exec step new [.start, .create (some 7), .setTid, .latch .child .countDown,
      .latch .child .decrement, .latch .child .leave, .latch .owner .wait, .latch .owner .test,
      .latch .owner .pass, .check, .destroy, .clear]).map State.child = some .call := by
    decide
  obtain ⟨s, hs, hchild⟩ := Option.map_eq_some_iff.mp hgo
  exact ⟨s, hs, (handed_over hs).1, hchild⟩

end Thread

end WebServer

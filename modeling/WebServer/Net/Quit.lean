/-
# `Net.Quit` — how a loop ends

`EventLoop::quit` may be called by any thread, and by the loop's own handlers and functors;
it sets `quit_`, and another thread wakes the loop after that.  From the assignment on the
loop goes through the rest of its round and no further: it may poll once more, swap
`pendingFunctors_` once more, and tests `quit_` once (`Turn`).  Whatever is pushed before
that swap is run, what is pushed later never is (`State.promised`), and `loop()` leaves a
batch only when it is done.

The loop does get there: each step of its own, and the write that wakes it, brings it nearer
(`State.left`), and there is always such a step, also when it is asleep in `poll`.
-/
import WebServer.Lib.Progress
import WebServer.Net.TaskQueue

namespace WebServer

namespace TaskQueue

open Machine

variable {Task : Type}

/-! ## The rest of a round -/

/-- What the loop does once in a round. -/
inductive Turn where
  | poll
  | swap
  | test
  deriving DecidableEq

def Action.turn? : Action Task → Option Turn
  | .poll _ => some .poll
  | .swap => some .swap
  | .test => some .test
  | _ => none

/-- The last swap of a loop that has to quit is behind it. -/
def Place.swapped : Place → Bool
  | .batch | .functor | .condition | .over => true
  | .poll | .dispatch _ | .handler _ | .swap => false

/-- Whether the loop comes by there again, once `quit_` is set. -/
def Place.ahead : Place → Turn → Nat
  | .poll, .poll => 1
  | _, .poll => 0
  | p, .swap => if p.swapped then 0 else 1
  | .over, .test => 0
  | _, .test => 1

theorem Place.ahead_le (p : Place) (k : Turn) : p.ahead k ≤ 1 := by
  cases k <;> cases p <;> simp [Place.ahead, Place.swapped]

/-- From one place to another, and by a turn if it is one. -/
def Place.Goes (p q : Place) (turn : Option Turn) : Prop :=
  ∀ k, q.ahead k + (if turn = some k then 1 else 0) ≤ p.ahead k

/-- The functors run and those that will be. -/
def State.promised (s : State Task) : List Task :=
  s.ran ++ s.functors ++ if s.place.swapped then [] else s.pendingFunctors

variable {s t : State Task} {a : Action Task}

/-- What a step makes of the rest of the round. -/
structure Onward (s t : State Task) (turn : Option Turn) : Prop where
  quit : t.quit = true
  goes : s.place.Goes t.place turn
  promised : s.promised <+: t.promised
  swapped : s.place.swapped = true → t.place.swapped = true ∧ t.promised = s.promised

variable {turn : Option Turn} {p q : Place}

/-- The loop goes on, and what it has to run is the same. -/
theorem Onward.go (hquit : t.quit = true) (hs : s.place = p) (ht : t.place = q)
    (hgoes : p.Goes q turn) (hswapped : p.swapped = true → q.swapped = true)
    (hsame : t.promised = s.promised) : Onward s t turn := by
  subst hs ht
  exact ⟨hquit, hgoes, hsame ▸ List.prefix_rfl, fun h => ⟨hswapped h, hsame⟩⟩

theorem promised_before (h : s.place = p) (hp : p.swapped = false) :
    s.promised = s.ran ++ s.functors ++ s.pendingFunctors := by
  rw [State.promised, h, hp]
  rfl

theorem promised_after (h : s.place = p) (hp : p.swapped = true) :
    s.promised = s.ran ++ s.functors := by
  rw [State.promised, h, hp]
  exact List.append_nil _

theorem onward_handle (hquit : s.quit = true) (h : step s .handle = some t) :
    Onward s t none := by
  rw [step] at h
  cases hplace : s.place with
  | dispatch active =>
      rw [hplace] at h
      cases active with
      | nil =>
          cases h
          refine .go hquit hplace rfl ?_ Bool.noConfusion ?_
          · show Place.Goes (.dispatch []) .swap none
            intro k
            cases k <;> decide
          · rw [promised_before hplace rfl, promised_before rfl rfl]
      | cons r active =>
          cases r <;> cases h <;> refine .go hquit hplace rfl ?_ Bool.noConfusion ?_
          · intro k
            cases k <;> exact Nat.le_refl _
          · rw [promised_before hplace rfl, promised_before rfl rfl]
            rfl
          · intro k
            cases k <;> exact Nat.le_refl _
          · rw [promised_before hplace rfl, promised_before rfl rfl]
  | _ => rw [hplace] at h; cases h

theorem onward_run (hquit : s.quit = true) (h : step s .run = some t) : Onward s t none := by
  rw [step] at h
  cases hplace : s.place with
  | batch =>
      rw [hplace] at h
      cases hfunctors : s.functors with
      | nil =>
          rw [hfunctors] at h
          cases h
          refine .go hquit hplace rfl ?_ (fun _ => rfl) ?_
          · show Place.Goes .batch .condition none
            intro k
            cases k <;> decide
          · rw [promised_after hplace rfl, promised_after rfl rfl, hfunctors]
      | cons cb functors =>
          rw [hfunctors] at h
          cases h
          refine .go hquit hplace rfl ?_ (fun _ => rfl) ?_
          · show Place.Goes .batch .functor none
            intro k
            cases k <;> decide
          · rw [promised_after hplace rfl, promised_after rfl rfl, hfunctors, List.append_assoc]
            rfl
  | _ => rw [hplace] at h; cases h

theorem onward_queueInLoop (hquit : s.quit = true) (thread : Thread) (cb : Task) :
    Onward s (queueInLoop s thread cb) none := by
  have hgoes : s.place.Goes s.place none := fun k => Nat.le_refl _
  cases hswapped : s.place.swapped with
  | true =>
      refine .go hquit rfl rfl hgoes id ?_
      exact (promised_after (s := queueInLoop s thread cb) rfl hswapped).trans
        (promised_after (s := s) rfl hswapped).symm
  | false =>
      refine ⟨hquit, hgoes, ?_, fun h => absurd (hswapped.symm.trans h) nofun⟩
      rw [promised_before (s := s) rfl hswapped,
        promised_before (s := queueInLoop s thread cb) rfl hswapped]
      show _ <+: s.ran ++ s.functors ++ (s.pendingFunctors ++ [cb])
      rw [← List.append_assoc]
      exact List.prefix_append _ _

theorem onward_step (hs : Sound s) (hquit : s.quit = true) (h : step s a = some t) :
    Onward s t a.turn? := by
  cases a with
  | test =>
      obtain ⟨hplace, h⟩ := Option.ite_none_right_eq_some.mp h
      rw [if_pos hquit] at h
      cases h
      refine .go hquit hplace rfl ?_ (fun _ => rfl) ?_
      · show Place.Goes .condition .over (some .test)
        intro k
        cases k <;> decide
      · rw [promised_after hplace rfl, promised_after rfl rfl]
  | poll active =>
      obtain ⟨hplace, h⟩ := Option.ite_none_right_eq_some.mp h
      cases h
      refine .go hquit hplace rfl ?_ Bool.noConfusion ?_
      · intro k
        cases k <;> exact Nat.le_refl _
      · rw [promised_before hplace rfl, promised_before rfl rfl]
  | handle => exact onward_handle hquit h
  | handled =>
      rw [step] at h
      cases hplace : s.place with
      | handler active =>
          rw [hplace] at h
          cases h
          refine .go hquit hplace rfl ?_ Bool.noConfusion ?_
          · intro k
            cases k <;> exact Nat.le_refl _
          · rw [promised_before hplace rfl, promised_before rfl rfl]
      | _ =>
          rw [hplace] at h; cases h
  | swap =>
      obtain ⟨hplace, h⟩ := Option.ite_none_right_eq_some.mp h
      have hfunctors := hs.swapped (by rw [hplace]; simp) (by rw [hplace]; simp)
      cases h
      refine .go hquit hplace rfl ?_ Bool.noConfusion ?_
      · show Place.Goes .swap .batch (some .swap)
        intro k
        cases k <;> decide
      · rw [promised_before hplace rfl, promised_after rfl rfl, hfunctors, List.append_nil]
  | run => exact onward_run hquit h
  | finish =>
      obtain ⟨⟨hplace, -⟩, h⟩ := Option.ite_none_right_eq_some.mp h
      cases h
      refine .go hquit hplace rfl ?_ (fun _ => rfl) ?_
      · show Place.Goes .functor .batch none
        intro k
        cases k <;> decide
      · rw [promised_after hplace rfl, promised_after rfl rfl]
  | queueInLoop thread cb =>
      obtain ⟨-, h⟩ := Option.ite_none_right_eq_some.mp h
      exact Option.some.inj h ▸ onward_queueInLoop hquit thread cb
  | quit thread =>
      obtain ⟨-, h⟩ := Option.ite_none_right_eq_some.mp h
      cases h
      exact .go rfl rfl rfl (fun _ => Nat.le_refl _) id rfl
  | wakeup thread =>
      obtain ⟨-, h⟩ := Option.ite_none_right_eq_some.mp h
      cases h
      exact .go hquit rfl rfl (fun _ => Nat.le_refl _) id rfl

/-! ## What follows for a run -/

theorem onward_turns (k : Turn) (s : State Task) (a : Action Task) (t : State Task)
    (hs : Sound s ∧ s.quit = true) (h : step s a = some t) :
    (Sound t ∧ t.quit = true) ∧ t.place.ahead k ≤ s.place.ahead k ∧
      (decide (a.turn? = some k) = true → t.place.ahead k < s.place.ahead k) := by
  have honward := onward_step hs.1 hs.2 h
  have hahead := honward.goes k
  refine ⟨⟨step_sound hs.1 h, honward.quit⟩, by omega, fun hk => ?_⟩
  rw [if_pos (of_decide_eq_true hk)] at hahead
  omega

theorem promised_exec {more : List (Action Task)} : ∀ {s : State Task}, Sound s → s.quit = true →
    exec step s more = some t → s.promised <+: t.promised ∧
      (s.place.swapped = true → t.promised = s.promised) := by
  induction more with
  | nil =>
      intro s _ _ h
      cases h
      exact ⟨List.prefix_rfl, fun _ => rfl⟩
  | cons a more ih =>
      intro s hs hquit h
      obtain ⟨u, hu, h⟩ := exec_cons.mp h
      have honward := onward_step hs hquit hu
      obtain ⟨hbegins, hsame⟩ := ih (step_sound hs hu) honward.quit h
      refine ⟨honward.promised.trans hbegins, fun hswapped => ?_⟩
      obtain ⟨hswapped, heq⟩ := honward.swapped hswapped
      exact (hsame hswapped).trans heq

/-- A loop that is over has run what it had to run. -/
theorem Sound.promised_over (hs : Sound s) (hplace : s.place = .over) : s.promised = s.ran := by
  have hfunctors := hs.swapped (by rw [hplace]; nofun) (by rw [hplace]; nofun)
  rw [State.promised, hplace, hfunctors]
  show s.ran ++ [] ++ [] = s.ran
  rw [List.append_nil, List.append_nil]

/-! ## Getting there -/

/-- The steps for an active channel. -/
def Ready.left : Ready → Nat
  | .wakeup => 1
  | .other => 2

/-- The steps from a place, without those for functors. -/
def Place.left : Place → Nat
  | .over => 0
  | .condition => 1
  | .batch => 2
  | .functor => 3
  | .swap => 3
  | .dispatch active => 4 + (active.map Ready.left).sum
  | .handler active => 5 + (active.map Ready.left).sum
  | .poll => 6

/-- The steps that a loop has left in its round. -/
def State.round (s : State Task) : Nat :=
  s.place.left + 2 * s.functors.length +
    2 * (if s.place.swapped then 0 else s.pendingFunctors.length)

/-- With the writes to the eventfd that it has to make, or to wait for. -/
def State.left (s : State Task) : Nat :=
  s.round + (if s.waking .loop then 1 else 0) + (if s.place = .poll ∧ s.eventfd = 0 then 1 else 0)

/-- The steps of the loop thread, where no handler and no functor makes another call, and
`poll` returns only because it has been woken; and the write that wakes it. -/
def Prompt (s : State Task) : Action Task → Prop
  | .poll active => 0 < s.eventfd ∧ active = [.wakeup]
  | .wakeup thread => thread = .loop ∨ s.place = .poll ∧ s.eventfd = 0
  | .queueInLoop _ _ | .quit _ => False
  | .test | .handle | .handled | .swap | .run | .finish => True

theorem left_wakeup {thread : Thread} (hs : Sound s) (hprompt : Prompt s (.wakeup thread))
    (hwaking : s.waking thread = true) : (wakeup s thread).left < s.left := by
  have hround : (wakeup s thread).round = s.round := rfl
  have hsame : (wakeup s thread).place = s.place := rfl
  rcases hprompt with rfl | ⟨hplace, hzero⟩
  · have hplace := hs.waking hwaking
    have hwritten : (wakeup s .loop).waking .loop = false := by
      show Function.update s.waking .loop false .loop = false
      rw [Function.update_self]
    rw [State.left, State.left, hround, hwritten, hwaking]
    simp [hsame, hplace]
  · have hidle := hs.idle (by rw [hplace]; nofun)
    have hloop : (wakeup s thread).waking .loop = false := by
      show Function.update s.waking thread false .loop = false
      rw [Function.update_apply, hidle, ite_self]
    have hcount : (wakeup s thread).eventfd = 1 := by
      show (if s.eventfd < eventfdMax then s.eventfd + 1 else s.eventfd) = 1
      rw [hzero]
      exact if_pos (by decide)
    rw [State.left, State.left, hround, hloop, hidle, hcount]
    simp [hplace, hzero]

/-- Each prompt step brings the loop nearer to its end. -/
theorem left_step (hs : Sound s) (hquit : s.quit = true) (hprompt : Prompt s a)
    (h : step s a = some t) : t.left < s.left := by
  cases a with
  | queueInLoop thread cb => exact hprompt.elim
  | quit thread => exact hprompt.elim
  | wakeup thread =>
      obtain ⟨hwaking, h⟩ := Option.ite_none_right_eq_some.mp h
      exact Option.some.inj h ▸ left_wakeup hs hprompt hwaking
  | test =>
      obtain ⟨hplace, h⟩ := Option.ite_none_right_eq_some.mp h
      rw [if_pos hquit] at h
      cases h
      simp [State.left, State.round, hplace, Place.left, Place.swapped]
  | poll active =>
      obtain ⟨hplace, h⟩ := Option.ite_none_right_eq_some.mp h
      obtain ⟨hpos, rfl⟩ := hprompt
      cases h
      simp [State.left, State.round, hplace, Place.left, Place.swapped, Ready.left]
      omega
  | handle =>
      rw [step] at h
      cases hplace : s.place with
      | dispatch active =>
          rw [hplace] at h
          cases active with
          | nil =>
              cases h
              simp [State.left, State.round, hplace, Place.left, Place.swapped]
          | cons r active =>
              cases r with
              | wakeup =>
                  cases h
                  simp [State.left, State.round, handleRead, hplace, Place.left, Place.swapped,
                    Ready.left]
              | other =>
                  cases h
                  simp [State.left, State.round, hplace, Place.left, Place.swapped, Ready.left]
                  omega
      | _ => rw [hplace] at h; cases h
  | handled =>
      rw [step] at h
      cases hplace : s.place with
      | handler active =>
          rw [hplace] at h
          cases h
          simp [State.left, State.round, hplace, Place.left, Place.swapped]
      | _ =>
          rw [hplace] at h; cases h
  | swap =>
      obtain ⟨hplace, h⟩ := Option.ite_none_right_eq_some.mp h
      have hfunctors := hs.swapped (by rw [hplace]; simp) (by rw [hplace]; simp)
      cases h
      simp [State.left, State.round, hplace, Place.left, Place.swapped, hfunctors]
  | run =>
      rw [step] at h
      cases hplace : s.place with
      | batch =>
          rw [hplace] at h
          cases hfunctors : s.functors with
          | nil =>
              rw [hfunctors] at h
              cases h
              simp [State.left, State.round, hplace, Place.left, Place.swapped, hfunctors]
          | cons cb functors =>
              rw [hfunctors] at h
              cases h
              simp [State.left, State.round, hplace, Place.left, Place.swapped, hfunctors]
              omega
      | _ =>
          rw [hplace] at h; cases h
  | finish =>
      obtain ⟨⟨hplace, hidle⟩, h⟩ := Option.ite_none_right_eq_some.mp h
      cases h
      simp [State.left, State.round, hplace, Place.left, Place.swapped]

/-- There is one as long as the loop is not over. -/
theorem exists_prompt (hs : Sound s) (hquit : s.quit = true) (hplace : s.place ≠ .over) :
    ∃ a t, Prompt s a ∧ step s a = some t := by
  cases h : s.place with
  | «over» => exact absurd h hplace
  | condition => exact ⟨.test, _, trivial, if_pos h⟩
  | poll =>
      rcases Nat.eq_zero_or_pos s.eventfd with hzero | hpos
      · rcases hs.leaving h hquit with hpos | ⟨thread, hwaking⟩
        · omega
        · exact ⟨.wakeup thread, _, Or.inr ⟨h, hzero⟩, if_pos hwaking⟩
      · exact ⟨.poll [.wakeup], _, ⟨hpos, rfl⟩, if_pos h⟩
  | dispatch active =>
      match active, h with
      | [], h => exact ⟨.handle, _, trivial, by rw [step, h]⟩
      | .wakeup :: active, h => exact ⟨.handle, _, trivial, by rw [step, h]⟩
      | .other :: active, h => exact ⟨.handle, _, trivial, by rw [step, h]⟩
  | handler active => exact ⟨.handled, _, trivial, by rw [step, h]⟩
  | swap => exact ⟨.swap, _, trivial, if_pos h⟩
  | batch =>
      cases hfunctors : s.functors with
      | nil => exact ⟨.run, _, trivial, by rw [step, h, hfunctors]⟩
      | cons cb functors => exact ⟨.run, _, trivial, by rw [step, h, hfunctors]⟩
  | functor =>
      cases hwaking : s.waking .loop with
      | true => exact ⟨.wakeup .loop, _, Or.inl rfl, if_pos hwaking⟩
      | false => exact ⟨.finish, _, trivial, if_pos ⟨h, hwaking⟩⟩

theorem prompt_step (s : State Task) (a : Action Task) (t : State Task)
    (hs : Sound s ∧ s.quit = true) (hprompt : Prompt s a) (h : step s a = some t) :
    (Sound t ∧ t.quit = true) ∧ t.left < s.left :=
  ⟨⟨step_sound hs.1 h, (onward_step hs.1 hs.2 h).quit⟩, left_step hs.1 hs.2 hprompt h⟩

/-! ## Every run -/

/-- From any state of any run in which `quit_` has been set, whatever the threads do then:
the loop polls, swaps and tests once more at most; when it is over it has run all that was
pushed before, if its swap was still to come, and otherwise the batch and nothing else.
And it does get there: not asleep, and after no more than `left` steps of its own if
nobody makes another call. -/
theorem quits (h : Reachable step start s) (hquit : s.quit = true) :
    (∀ more t, exec step s more = some t →
      (∀ k, more.countP (fun a => a.turn? = some k) ≤ 1) ∧
      (t.place = .over → s.promised <+: t.ran ∧
        (s.place.swapped = true → t.ran = s.ran ++ s.functors))) ∧
    (∀ more t, Meets step Prompt s more → exec step s more = some t → more.length ≤ s.left) ∧
    ∃ more t, Meets step Prompt s more ∧ exec step s more = some t ∧ t.place = .over := by
  have hs := sound_reachable h
  refine ⟨fun more t ht => ⟨fun k => ?_, fun hplace => ?_⟩, fun more t hmeets ht => ?_, ?_⟩
  · have hturns := countP_le (onward_turns k) ⟨hs, hquit⟩ ht
    have hle := s.place.ahead_le k
    omega
  · obtain ⟨hbegins, hsame⟩ := promised_exec hs hquit ht
    have hst : Sound t :=
      exec_invariant (fun _ _ _ hs _ ha => step_sound hs ha) (meets_true _ _) hs ht
    rw [hst.promised_over hplace] at hbegins hsame
    refine ⟨hbegins, fun hswapped => (hsame hswapped).trans ?_⟩
    rw [State.promised, if_pos hswapped, List.append_nil]
  · have hlength := length_le prompt_step ⟨hs, hquit⟩ hmeets ht
    omega
  · exact exists_exec prompt_step (fun s hs hnot => exists_prompt hs.1 hs.2 hnot) ⟨hs, hquit⟩

/-- `quit` comes while the loop sleeps in `poll`, with a functor pending. -/
theorem quits_asleep : ∃ s, exec step (start : State Nat)
    [.test, .queueInLoop (.foreign 1) 5, .quit (.foreign 2)] = some s ∧ s.eventfd = 0 ∧
    ∃ more t, Meets step Prompt s more ∧ exec step s more = some t ∧ t.place = .over :=
  have hrun := @quits Nat _
    ⟨[.test, .queueInLoop (.foreign 1) 5, .quit (.foreign 2)], rfl⟩ rfl
  ⟨_, rfl, rfl, hrun.2.2⟩

end TaskQueue

end WebServer

/-
# `Net.Accept` — what becomes of an accepted descriptor

One call of `handleNewConn` as a whole: `accept` returns descriptors and then fails,
and every round of the loop ends with the descriptor closed, handed to a loop, or
neither.  `Net.StartUp` has one round as a step of the main thread, with what the
loop does with the connection; here a round is what it does with the descriptor
(`round_startUp` puts the two side by side).

A round ends in neither way twice over: on the descriptor 0, which `accept` may
return and the loop takes for a failure, and when `setSocketNonBlocking` fails, after
which the call returns at once where the branch above it closes the descriptor.
`settled_iff`: these two are the only ways to lose one.
-/
import WebServer.Net.StartUp

namespace WebServer

namespace StartUp

open Machine

/-! ## Where `next_` stands -/

/-- `next_` is an index of `loops_` once that is filled. -/
def NextBound (s : State) : Prop := s.next = 0 ∨ s.next < s.numThreads

section

variable {s t : State}

theorem NextBound.same (h : NextBound s) (hnext : t.next = s.next)
    (hnum : t.numThreads = s.numThreads) : NextBound t := by
  rw [NextBound, hnext, hnum]
  exact h

theorem next_getNextFreeConnection (l : Option Nat) (connfd : Int) :
    (getNextFreeConnection s l connfd).next = s.next ∧
      (getNextFreeConnection s l connfd).numThreads = s.numThreads := by
  unfold getNextFreeConnection
  dsimp only
  split
  · exact ⟨rfl, rfl⟩
  · exact ⟨rfl, rfl⟩

theorem next_runInLoop (connfd : Int) (l : Option Nat) :
    (runInLoop s connfd l).next = s.next ∧ (runInLoop s connfd l).numThreads = s.numThreads := by
  cases l with
  | none => exact next_getNextFreeConnection none connfd
  | some i => exact ⟨rfl, rfl⟩

theorem nextBound_getNextLoop (hs : NextBound s) (hloops : s.loops = List.range s.numThreads) :
    ∃ l next, getNextLoop s = some (l, next) ∧ NextBound { s with next := next } := by
  unfold getNextLoop
  by_cases hnil : s.loops = []
  · rw [if_pos hnil]
    exact ⟨none, s.next, rfl, hs⟩
  · rw [if_neg hnil]
    have hpos : 0 < s.numThreads := by
      refine Nat.pos_of_ne_zero fun hzero => hnil ?_
      rw [hloops, hzero, List.range_zero]
    have hlt : s.next < s.numThreads := by
      rcases hs with hs | hs
      · omega
      · exact hs
    refine ⟨some s.next, (s.next + 1) % s.numThreads, ?_, Or.inr (Nat.mod_lt _ hpos)⟩
    rw [hloops, List.getElem?_range hlt]
    rfl

theorem nextBound_handleNewConn (hs : NextBound s) (hloops : s.loops = List.range s.numThreads)
    {connfd : Int} {nonBlocking : Bool} (h : handleNewConn s connfd nonBlocking = some t) :
    NextBound t := by
  unfold handleNewConn at h
  split at h
  · cases h
    exact hs
  · obtain ⟨l, next, hl, hbound⟩ := nextBound_getNextLoop hs hloops
    rw [hl] at h
    cases h
    cases nonBlocking with
    | false => exact hbound
    | true =>
        obtain ⟨hnext, hnum⟩ := next_runInLoop (s := { s with next := next }) connfd l
        exact hbound.same hnext hnum

theorem nextBound_step (hi : Inv s) (hs : NextBound s) {a : Action} (h : step s a = some t) :
    NextBound t := by
  unfold step at h
  split at h
  · cases h
  · cases a with
    | startThread k =>
        dsimp only at h
        split at h
        · obtain ⟨-, ht⟩ := Option.ite_none_right_eq_some.mp h
          cases ht
          exact hs
        · cases h
    | loopStarted =>
        dsimp only at h
        split at h
        · obtain ⟨-, ht⟩ := Option.ite_none_right_eq_some.mp h
          cases ht
          exact hs
        · cases h
    | serve =>
        dsimp only at h
        split at h
        · obtain ⟨-, ht⟩ := Option.ite_none_left_eq_some.mp h
          cases ht
          exact hs
        · cases h
    | proceed i =>
        obtain ⟨r, -, rfl⟩ := Option.map_eq_some_iff.mp h
        exact hs
    | turn l a =>
        obtain ⟨-, ht⟩ := Option.ite_none_right_eq_some.mp h
        obtain ⟨q, -, rfl⟩ := Option.map_eq_some_iff.mp ht
        dsimp only
        split
        · obtain ⟨hnext, hnum⟩ := next_getNextFreeConnection
            (s := s.setReactor l { s.reactor l with queue := q }) l _
          exact hs.same hnext hnum
        · exact hs
    | act l a =>
        obtain ⟨-, ht⟩ := Option.ite_none_right_eq_some.mp h
        obtain ⟨w, -, rfl⟩ := Option.map_eq_some_iff.mp ht
        exact hs
    | accept connfd nonBlocking =>
        dsimp only at h
        split at h
        · rename_i hmain _
          have hrounds := hi.rounds
          rw [Rounds, hmain] at hrounds
          exact nextBound_handleNewConn hs hrounds h
        · cases h
    | wakeup =>
        dsimp only at h
        split at h
        · cases h
          exact hs
        · cases h

/-- While a server serves, `getNextLoop` has a loop to give. -/
theorem pooled_serving {numThreads : Nat} {idleSeconds baseIdleSeconds : Int} {k : Kernel}
    (hreach : Reachable step (start numThreads idleSeconds baseIdleSeconds k) s)
    (hmain : s.main = .serving) : s.loops = List.range s.numThreads ∧ NextBound s := by
  have hboth : Inv s ∧ NextBound s :=
    hreach.invariant (I := fun s => Inv s ∧ NextBound s)
      (fun _ _ _ hs hstep => ⟨(after_step hs.1 hstep).inv, nextBound_step hs.1 hs.2 hstep⟩)
      ⟨inv_start .., Or.inl rfl⟩
  have hrounds := hboth.1.rounds
  rw [Rounds, hmain] at hrounds
  exact ⟨hrounds, hboth.2⟩

end

end StartUp

namespace Accept

open Machine StartUp

/-! ## The call -/

/-- A descriptor that `accept4` returns, and what the two calls of `fcntl` on it return. -/
structure Conn where
  connfd : Nat
  getfl : Int
  setfl : Int
  deriving DecidableEq

def setSocketNonBlocking (c : Conn) : Int :=
  if c.getfl = -1 then -1
  else if c.setfl = -1 then -1
  else 0

/-- What is done with a descriptor: `close`, or `runInLoop` on a loop. -/
inductive Fate where
  | closed
  | handed (ioLoop : Option Nat)
  deriving DecidableEq

/-- A descriptor that the call has accepted, with all that it has done with it. -/
structure Accepted where
  connfd : Nat
  fates : List Fate
  deriving DecidableEq

structure Round where
  state : State
  fates : List Fate
  /-- the loop goes on -/
  more : Bool

/-- `accept` has returned the descriptor of `c`. -/
def round (s : State) (c : Conn) : Option Round :=
  if (c.connfd : Int) ≤ 0 then some ⟨s, [], false⟩
  else if maxFds ≤ c.connfd then some ⟨s, [.closed], true⟩
  else (getNextLoop s).map fun r =>
    if setSocketNonBlocking c < 0 then ⟨{ s with next := r.2 }, [], false⟩
    else ⟨{ s with next := r.2 }, [.handed r.1], true⟩

/-- `TcpServer::handleNewConn()`, where `accept` returns these descriptors and then
fails: the state after it, and the descriptors it has accepted. -/
def handleNewConn (s : State) : List Conn → Option (State × List Accepted)
  | [] => some (s, [])
  | c :: conns => (round s c).bind fun r =>
      if r.more then
        (handleNewConn r.state conns).map fun after =>
          (after.1, ⟨c.connfd, r.fates⟩ :: after.2)
      else some (r.state, [⟨c.connfd, r.fates⟩])

/-- The descriptor is closed, or handed to one loop, and not both. -/
def Accepted.Settled (a : Accepted) : Prop := ∃ fate, a.fates = [fate]

/-- The descriptor is not 0, and if it is below the limit it is made non-blocking. -/
def Kept (c : Conn) : Prop := c.connfd ≠ 0 ∧ (c.connfd < maxFds → setSocketNonBlocking c = 0)

/-! ## One round -/

section

variable {s t : State} {c : Conn}

theorem setSocketNonBlocking_cases (c : Conn) :
    setSocketNonBlocking c = -1 ∨ setSocketNonBlocking c = 0 := by
  unfold setSocketNonBlocking
  split
  · exact Or.inl rfl
  · split
    · exact Or.inl rfl
    · exact Or.inr rfl

/-- The loop goes on exactly when the descriptor is settled, and that is when it is not
0 and, below the limit, `setSocketNonBlocking` succeeds. -/
theorem round_settled (hloops : s.loops = List.range s.numThreads) (hnext : NextBound s) :
    ∃ r, round s c = some r ∧ r.state.loops = List.range r.state.numThreads ∧
      NextBound r.state ∧ (r.more = true ↔ Kept c) ∧
      (Accepted.Settled ⟨c.connfd, r.fates⟩ ↔ Kept c) := by
  have hlost : ¬ Accepted.Settled ⟨c.connfd, []⟩ := fun ⟨fate, h⟩ =>
    List.cons_ne_nil fate [] h.symm
  unfold round
  by_cases hzero : (c.connfd : Int) ≤ 0
  · rw [if_pos hzero]
    have hnot : ¬ Kept c := fun h => h.1 (by omega)
    exact ⟨_, rfl, hloops, hnext, iff_of_false Bool.false_ne_true hnot, iff_of_false hlost hnot⟩
  · rw [if_neg hzero]
    have hpos : c.connfd ≠ 0 := by omega
    by_cases hmax : maxFds ≤ c.connfd
    · rw [if_pos hmax]
      have hkept : Kept c := ⟨hpos, fun hlt => absurd hmax (Int.not_le.mpr hlt)⟩
      exact ⟨_, rfl, hloops, hnext, iff_of_true rfl hkept, iff_of_true ⟨.closed, rfl⟩ hkept⟩
    · rw [if_neg hmax]
      obtain ⟨l, next, hl, hbound⟩ := nextBound_getNextLoop hnext hloops
      rw [hl]
      rcases setSocketNonBlocking_cases c with hfail | hok
      · have hnot : ¬ Kept c := by
          intro h
          have := h.2 (Int.not_le.mp hmax)
          omega
        refine ⟨_, congrArg some (if_pos (by omega)), hloops, hbound, ?_, ?_⟩
        · exact iff_of_false Bool.false_ne_true hnot
        · exact iff_of_false hlost hnot
      · have hkept : Kept c := ⟨hpos, fun _ => hok⟩
        refine ⟨_, congrArg some (if_neg (by omega)), hloops, hbound, ?_, ?_⟩
        · exact iff_of_true rfl hkept
        · exact iff_of_true ⟨.handed l, rfl⟩ hkept

/-- A round here and the round of `Net.StartUp`: what is handed on here is what is
bound to `getNextFreeConnection` and passed to `runInLoop` there. -/
theorem round_startUp {r : Round} (h : round s c = some r) :
    StartUp.handleNewConn s c.connfd (setSocketNonBlocking c = 0) =
      some (match r.fates with
        | [.handed l] => runInLoop r.state c.connfd l
        | _ => r.state) := by
  unfold round at h
  unfold StartUp.handleNewConn
  by_cases hzero : (c.connfd : Int) ≤ 0
  · rw [if_pos hzero] at h
    cases h
    rw [if_pos (Or.inl hzero)]
  · rw [if_neg hzero] at h
    by_cases hmax : maxFds ≤ c.connfd
    · rw [if_pos hmax] at h
      cases h
      rw [if_pos (Or.inr hmax)]
    · rw [if_neg hmax] at h
      rw [if_neg (by omega)]
      obtain ⟨⟨l, next⟩, hl, rfl⟩ := Option.map_eq_some_iff.mp h
      rw [hl]
      rcases setSocketNonBlocking_cases c with hfail | hok
      · rw [hfail]
        rfl
      · rw [hok]
        rfl

/-! ## The whole call -/

/-- Every descriptor that the call accepts is settled exactly when no one of the
sequence ends the loop. -/
theorem settled_pooled (conns : List Conn) : ∀ {s : State},
    s.loops = List.range s.numThreads → NextBound s →
    ∃ t accepted, handleNewConn s conns = some (t, accepted) ∧
      ((∀ a ∈ accepted, a.Settled) ↔ ∀ c ∈ conns, Kept c) := by
  induction conns with
  | nil =>
      intro s _ _
      exact ⟨s, [], rfl, iff_of_true (List.forall_mem_nil _) (List.forall_mem_nil _)⟩
  | cons c conns ih =>
      intro s hloops hnext
      obtain ⟨r, hr, hloops', hnext', hmore, hsettled⟩ := round_settled (c := c) hloops hnext
      rw [handleNewConn, hr, Option.bind_some]
      by_cases hkept : Kept c
      · obtain ⟨t, accepted, hrest, hiff⟩ := ih hloops' hnext'
        rw [if_pos (hmore.mpr hkept), hrest]
        refine ⟨t, _, rfl, ?_⟩
        rw [List.forall_mem_cons, List.forall_mem_cons, hsettled, hiff]
      · rw [if_neg fun h => hkept (hmore.mp h)]
        refine ⟨r.state, _, rfl, iff_of_false ?_ ?_⟩
        · exact fun h => hkept (hsettled.mp (h _ List.mem_cons_self))
        · exact fun h => hkept (h c List.mem_cons_self)

/-- A call of `handleNewConn` of a server that serves, whatever `accept` returns and
whatever becomes of `setSocketNonBlocking`: each accepted descriptor is closed or handed
to one loop, and not both, exactly when none is 0 and `setSocketNonBlocking` succeeds
on those below the limit. -/
theorem settled_iff {numThreads : Nat} {idleSeconds baseIdleSeconds : Int} {k : Kernel}
    (hreach : Reachable step (start numThreads idleSeconds baseIdleSeconds k) s)
    (hmain : s.main = .serving) (conns : List Conn) :
    ∃ t accepted, handleNewConn s conns = some (t, accepted) ∧
      ((∀ a ∈ accepted, a.Settled) ↔ ∀ c ∈ conns, Kept c) := by
  obtain ⟨hloops, hnext⟩ := pooled_serving hreach hmain
  exact settled_pooled conns hloops hnext

end

/-- The steps that bring a server with two io threads to serve. -/
def served : List Action :=
  [.startThread ⟨0, 6, 7, 8⟩, .proceed 0, .loopStarted, .startThread ⟨0, 9, 10, 11⟩, .proceed 1,
    .loopStarted, .serve]

/-- Two connections for the io threads, and one over the limit. -/
theorem settled_three : ∃ s, exec step (start 2 60 (-1) ⟨0, 3, 4, 5⟩) served = some s ∧
    ∃ t accepted, handleNewConn s [⟨12, 2, 0⟩, ⟨100000, 2, 0⟩, ⟨13, 2, 0⟩] = some (t, accepted) ∧
      ∀ a ∈ accepted, a.Settled := by
  have hgo : (exec step (start 2 60 (-1) ⟨0, 3, 4, 5⟩) served).map State.main = some .serving := by
    decide
  obtain ⟨s, hs, hmain⟩ := Option.map_eq_some_iff.mp hgo
  obtain ⟨t, accepted, hcall, hiff⟩ := settled_iff ⟨served, hs⟩ hmain
    [⟨12, 2, 0⟩, ⟨100000, 2, 0⟩, ⟨13, 2, 0⟩]
  exact ⟨s, hs, t, accepted, hcall, hiff.mpr (by unfold Kept; decide)⟩

/-- `fcntl` fails on the one connection: it is neither closed nor handed on. -/
theorem settled_fails : ¬ ∀ (acts : List Action) (s t : State) (conns : List Conn)
    (accepted : List Accepted), exec step (start 2 60 (-1) ⟨0, 3, 4, 5⟩) acts = some s →
      s.main = .serving → handleNewConn s conns = some (t, accepted) →
      ∀ a ∈ accepted, a.Settled := by
  intro hall
  have hgo : (exec step (start 2 60 (-1) ⟨0, 3, 4, 5⟩) served).map
      (fun s => (s.main, (handleNewConn s [⟨12, -1, 0⟩]).map Prod.snd)) =
        some (.serving, some [⟨12, []⟩]) := by
    decide
  obtain ⟨s, hs, hall'⟩ := Option.map_eq_some_iff.mp hgo
  obtain ⟨hmain, hcall⟩ := Prod.mk.inj hall'
  obtain ⟨⟨t, accepted⟩, hcall, haccepted⟩ := Option.map_eq_some_iff.mp hcall
  dsimp only at haccepted
  subst haccepted
  obtain ⟨fate, hfate⟩ := hall _ s t _ _ hs hmain hcall ⟨12, []⟩ List.mem_cons_self
  cases hfate

end Accept

end WebServer

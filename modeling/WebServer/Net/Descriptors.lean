/-
# `Net.Descriptors` — every descriptor of the server has one owner

The whole server of `Net.StartUp`: the acceptor and the io threads' loops, in any
interleaving.  A descriptor that the acceptor hands on waits in the queue of one
loop, is then that of one of its open sessions, and is closed once.

`Owned` says that no descriptor is held twice, in one loop or in two, and that each
loop is `Sound` once its pool is built: what the results on one loop ask of the
descriptors they are given (`Proper`) is what the rest of the server sees to.
`Accounted` is the ledger over the whole run.

Of the kernel it takes that a new descriptor is not an open one, and of the poller
that the callbacks are of open connections (`Fits`).
-/
import WebServer.Net.Reactor

namespace WebServer

namespace StartUp

open EventLoop Machine

/-! ## The server -/

namespace State

def held (s : State) (l : Option Nat) : List Int := (s.reactor l).held

/-- The descriptor is that of an open session of an io thread's loop, or waits to be. -/
def Carried (s : State) (fd : Int) : Prop := ∃ i, fd ∈ (s.reactor (some i)).carried

/-- How many io threads have been started. -/
def born (s : State) : Nat :=
  match s.main with
  | .starting i => i
  | .waiting i => i + 1
  | .serving => s.numThreads
  | .waking _ => s.numThreads

end State

/-- No loop holds the descriptor. -/
def New (s : State) (fd : Int) : Prop :=
  ∀ l ∈ none :: (List.range s.numThreads).map some, fd ∉ s.held l

instance (s : State) (fd : Int) : Decidable (New s fd) :=
  inferInstanceAs (Decidable (∀ _ ∈ _, _))

/-- A descriptor from the kernel is a new one, and a callback is of an open connection. -/
def Fits (s : State) : Action → Prop
  | .startThread k => k.Valid ∧ ∀ fd ∈ [k.epollFd, k.timerFd, k.wakeupFd], New s fd
  | .accept connfd _ => New s connfd
  | .act l a => (s.reactor l).loop.Proper a
  | _ => True

instance (s : State) : (a : Action) → Decidable (Fits s a)
  | .startThread _ => inferInstanceAs (Decidable (_ ∧ ∀ _ ∈ _, _))
  | .accept _ _ => inferInstanceAs (Decidable (New _ _))
  | .act _ _ => inferInstanceAs (Decidable (EventLoop.Proper _ _))
  | .loopStarted => isTrue trivial
  | .serve => isTrue trivial
  | .proceed _ => isTrue trivial
  | .turn _ _ => isTrue trivial
  | .wakeup => isTrue trivial

structure Owned (s : State) : Prop where
  inv : Inv s
  alive : s.dead = false
  threads : 0 < s.numThreads
  tended : ∀ i, (s.reactor (some i)).Tended (decide (s.main = .waking i))
  unborn : ∀ i, (s.reactor (some i)).phase = .unborn ↔ s.born ≤ i
  bare : (s.reactor none).loop.Bare
  baseBorn : (s.reactor none).phase ≠ .unborn
  baseOnce : (s.reactor none).loop.openFds.Nodup
  apart : ∀ l m, l ≠ m → ∀ fd ∈ s.held l, fd ∉ s.held m

section

variable {s t : State} {i : Nat} {r : Reactor}

/-- What changes in the loop of one io thread. -/
structure Changed (s : State) (i : Nat) (r : Reactor) (t : State) : Prop where
  inv : Inv t
  alive : t.dead = false
  numThreads : t.numThreads = s.numThreads
  reactors : t.reactors = Function.update s.reactors (some i) r
  waking : ∀ j, j ≠ i → decide (t.main = .waking j) = decide (s.main = .waking j)
  born : ∀ j, j ≠ i → (t.born ≤ j ↔ s.born ≤ j)

theorem Changed.self (h : Changed s i r t) : t.reactor (some i) = r := by
  rw [State.reactor, h.reactors, Function.update_self]

theorem Changed.other (h : Changed s i r t) {l : Option Nat} (hl : l ≠ some i) :
    t.reactor l = s.reactor l := by
  rw [State.reactor, h.reactors, Function.update_of_ne hl]
  rfl

theorem Changed.owned (h : Changed s i r t) (hs : Owned s)
    (htended : r.Tended (decide (t.main = .waking i))) (hborn : r.phase = .unborn ↔ t.born ≤ i)
    (hheld : ∀ fd ∈ r.held, ∀ l, l ≠ some i → fd ∉ s.held l) : Owned t where
  inv := h.inv
  alive := h.alive
  threads := h.numThreads ▸ hs.threads
  tended := fun j => by
    by_cases hj : j = i
    · rw [hj, h.self]
      exact htended
    · rw [h.other fun e => hj (Option.some.inj e), h.waking j hj]
      exact hs.tended j
  unborn := fun j => by
    by_cases hj : j = i
    · rw [hj, h.self]
      exact hborn
    · rw [h.other fun e => hj (Option.some.inj e), h.born j hj]
      exact hs.unborn j
  bare := by rw [h.other (Option.some_ne_none i).symm]; exact hs.bare
  baseBorn := by rw [h.other (Option.some_ne_none i).symm]; exact hs.baseBorn
  baseOnce := by rw [h.other (Option.some_ne_none i).symm]; exact hs.baseOnce
  apart := by
    intro l m hlm fd hl hm
    rw [State.held] at hl hm
    by_cases hli : l = some i
    · rw [hli, h.self] at hl
      have hmi : m ≠ some i := fun e => hlm (hli.trans e.symm)
      rw [h.other hmi] at hm
      exact hheld fd hl m hmi hm
    · rw [h.other hli] at hl
      by_cases hmi : m = some i
      · rw [hmi, h.self] at hm
        exact hheld fd hm l hli hl
      · rw [h.other hmi] at hm
        exact hs.apart l m hlm fd hl hm

theorem Changed.carried (h : Changed s i r t) (fd : Int) :
    t.Carried fd ↔ fd ∈ r.carried ∨ ∃ j, j ≠ i ∧ fd ∈ (s.reactor (some j)).carried := by
  constructor
  · rintro ⟨j, hj⟩
    by_cases hji : j = i
    · rw [hji, h.self] at hj
      exact Or.inl hj
    · rw [h.other fun e => hji (Option.some.inj e)] at hj
      exact Or.inr ⟨j, hji, hj⟩
  · rintro (hfd | ⟨j, hji, hj⟩)
    · exact ⟨i, by rw [h.self]; exact hfd⟩
    · exact ⟨j, by rw [h.other fun e => hji (Option.some.inj e)]; exact hj⟩

theorem carried_split (s : State) (i : Nat) (fd : Int) : s.Carried fd ↔
    fd ∈ (s.reactor (some i)).carried ∨ ∃ j, j ≠ i ∧ fd ∈ (s.reactor (some j)).carried := by
  constructor
  · rintro ⟨j, hj⟩
    by_cases hji : j = i
    · exact Or.inl (hji ▸ hj)
    · exact Or.inr ⟨j, hji, hj⟩
  · rintro (hfd | ⟨j, -, hj⟩)
    · exact ⟨i, hfd⟩
    · exact ⟨j, hj⟩

/-- The loops of threads that have not been started hold nothing. -/
theorem Owned.not_held (hs : Owned s) {fd : Int} (h : New s fd) (l : Option Nat) :
    fd ∉ s.held l := by
  cases l with
  | none => exact h none List.mem_cons_self
  | some i =>
      by_cases hi : i < s.numThreads
      · exact h (some i) (List.mem_cons_of_mem _ (List.mem_map_of_mem (List.mem_range.mpr hi)))
      · have hle : s.born ≤ i := by
          have hrounds := hs.inv.rounds
          unfold Rounds at hrounds
          unfold State.born
          cases hmain : s.main <;> rw [hmain] at hrounds <;> dsimp only at hrounds ⊢ <;> omega
        rw [State.held, Reactor.held, if_pos ((hs.unborn i).mpr hle)]
        exact List.not_mem_nil

theorem Owned.carried_held (hs : Owned s) {fd : Int} (h : fd ∈ (s.reactor (some i)).carried) :
    fd ∈ s.held (some i) := (hs.tended i).carried_held h

/-! ## One step -/

/-- The descriptor that a step of the acceptor hands on. -/
def handed (a : Action) : List Int :=
  match a with
  | .accept connfd nonBlocking => if HandedOn (.accept connfd nonBlocking) then [connfd] else []
  | _ => []

/-- The descriptor of a session that a step closes. -/
def released (s : State) : Action → List Int
  | .act l a => (s.reactor l).loop.closedFds a
  | _ => []

/-- What a step does with the descriptors of the connections. -/
structure Moves (s : State) (a : Action) (t : State) : Prop where
  owned : Owned t
  carried : ∀ fd, t.Carried fd ↔ (s.Carried fd ∧ fd ∉ released s a) ∨ fd ∈ handed a
  new : ∀ fd ∈ handed a, ¬ s.Carried fd
  old : ∀ fd ∈ released s a, s.Carried fd

/-- A step that hands nothing on and closes nothing. -/
theorem Moves.of_same {a : Action} (ht : Owned t) (hhanded : handed a = [])
    (hreleased : released s a = []) (hcarried : ∀ fd, t.Carried fd ↔ s.Carried fd) :
    Moves s a t := by
  refine ⟨ht, ?_, ?_, ?_⟩
  · intro fd
    rw [hcarried, hhanded, hreleased]
    simp only [List.not_mem_nil, not_false_eq_true, and_true, or_false]
  · rw [hhanded]
    exact fun fd hfd => absurd hfd List.not_mem_nil
  · rw [hreleased]
    exact fun fd hfd => absurd hfd List.not_mem_nil

theorem Changed.moves_same {a : Action} (h : Changed s i r t) (hs : Owned s)
    (htended : r.Tended (decide (t.main = .waking i))) (hborn : r.phase = .unborn ↔ t.born ≤ i)
    (hheld : ∀ fd ∈ r.held, fd ∈ s.held (some i)) (hhanded : handed a = [])
    (hreleased : released s a = [])
    (hcarried : ∀ fd, fd ∈ r.carried ↔ fd ∈ (s.reactor (some i)).carried) : Moves s a t := by
  refine .of_same (h.owned hs htended hborn ?_) hhanded hreleased ?_
  · intro fd hfd l hl
    exact hs.apart _ _ hl.symm fd (hheld fd hfd)
  · intro fd
    rw [h.carried, hcarried, ← carried_split]

/-- The main thread goes on, and no loop has changed. -/
theorem moves_main {a : Action} (hs : Owned s) (hi : Inv t) (halive : t.dead = false)
    (hnum : t.numThreads = s.numThreads) (hreactors : t.reactors = s.reactors)
    (hwaking : ∀ j, decide (t.main = .waking j) = decide (s.main = .waking j))
    (hborn : t.born = s.born) (hhanded : handed a = []) (hreleased : released s a = []) :
    Moves s a t := by
  have hchanged : Changed s 0 (s.reactor (some 0)) t :=
    ⟨hi, halive, hnum, hreactors.trans (Function.update_eq_self _ _).symm, fun j _ => hwaking j,
      fun j _ => by rw [hborn]⟩
  refine hchanged.moves_same hs ?_ ?_ (fun fd hfd => hfd) hhanded hreleased fun fd => Iff.rfl
  · rw [hwaking]
    exact hs.tended 0
  · rw [hborn]
    exact hs.unborn 0

theorem moves_startThread (hs : Owned s) (hi : Inv t) {k : Kernel} (hf : Fits s (.startThread k))
    (hmain : s.main = .starting i)
    (ht : t = { s.setReactor (some i) (.new .constructed s.idleSeconds k) with
      main := .waiting i }) : Moves s (.startThread k) t := by
  obtain ⟨hk, hnew⟩ := hf
  have hfds : (Reactor.new .constructed s.idleSeconds k).held =
      [k.epollFd, k.timerFd, k.wakeupFd] :=
    rfl
  have hborn : s.born = i := by rw [State.born, hmain]
  have hborn' : t.born = i + 1 := by rw [ht]; rfl
  have hchanged : Changed s i (.new .constructed s.idleSeconds k) t := by
    refine ⟨hi, ?_, ?_, ?_, ?_, ?_⟩
    · rw [ht]; exact hs.alive
    · rw [ht]; rfl
    · rw [ht]; rfl
    · intro j _
      rw [ht, hmain]
      rfl
    · intro j hj
      rw [hborn, hborn']
      omega
  have htended : (Reactor.new .constructed s.idleSeconds k).Tended
      (decide (t.main = .waking i)) := by
    rw [ht]
    exact ⟨⟨s.idleSeconds, k, hk, rfl⟩, TaskQueue.sound_start, rfl,
      fun fd hfd => absurd hfd List.not_mem_nil, hfds ▸ hk.three⟩
  refine .of_same (hchanged.owned hs htended ?_ ?_) rfl rfl ?_
  · exact iff_of_false Phase.noConfusion (by omega)
  · intro fd hfd l _
    exact hs.not_held (hnew fd (hfds ▸ hfd)) l
  · intro fd
    have hstaged := (hs.tended i).staged
    have hunborn := (hs.unborn i).mpr (by omega)
    have hnone : (s.reactor (some i)).carried = [] := by
      rw [Reactor.carried, sessionFds, hstaged.noSession (by rw [hunborn]; simp),
        hstaged.noTask hunborn]
      rfl
    rw [hchanged.carried, carried_split s i, hnone]
    exact Iff.rfl

/-- What changes in the base loop, which has no connection. -/
theorem moves_base {a : Action} (hs : Owned s) (hi : Inv t) (halive : t.dead = false)
    (hnum : t.numThreads = s.numThreads)
    (hreactors : t.reactors = Function.update s.reactors none r)
    (hwaking : ∀ j, decide (t.main = .waking j) = decide (s.main = .waking j))
    (hborn : t.born = s.born) (hbare : r.loop.Bare) (hbaseBorn : r.phase ≠ .unborn)
    (hopen : r.loop.openFds = (s.reactor none).loop.openFds) (hhanded : handed a = [])
    (hreleased : released s a = []) : Moves s a t := by
  have hself : t.reactor none = r := by
    rw [State.reactor, hreactors, Function.update_self]
  have hother : ∀ j, t.reactor (some j) = s.reactor (some j) := by
    intro j
    rw [State.reactor, hreactors, Function.update_of_ne (Option.some_ne_none j)]
    rfl
  have hqueued : ∀ {u : State}, Inv u → (u.reactor none).queue.queued = [] := by
    intro u hu
    rw [TaskQueue.State.queued, hu.noTask.1, hu.noTask.2]
    rfl
  have hheld : ∀ l, t.held l = s.held l := by
    intro l
    cases l with
    | none =>
        rw [State.held, State.held, Reactor.held_of_born hs.baseBorn, hqueued hs.inv, ← hopen,
          ← hself, Reactor.held_of_born (hself ▸ hbaseBorn), hqueued hi]
    | some j => rw [State.held, State.held, hother]
  refine .of_same ⟨hi, halive, hnum ▸ hs.threads, ?_, ?_, ?_, ?_, ?_, ?_⟩ hhanded hreleased ?_
  · intro j
    rw [hother, hwaking]
    exact hs.tended j
  · intro j
    rw [hother, hborn]
    exact hs.unborn j
  · rw [hself]; exact hbare
  · rw [hself]; exact hbaseBorn
  · rw [hself, hopen]; exact hs.baseOnce
  · intro l m hlm fd hl
    rw [hheld] at hl ⊢
    exact hs.apart l m hlm fd hl
  · intro fd
    exact exists_congr fun j => by rw [hother]

/-- The threads of the loops in `loops_` have been started. -/
theorem Owned.born_of_mem (hs : Owned s) (h : i ∈ s.loops) :
    (s.reactor (some i)).phase ≠ .unborn := by
  intro hunborn
  have hle := (hs.unborn i).mp hunborn
  have hrounds := hs.inv.rounds
  rw [Rounds] at hrounds
  rw [State.born] at hle
  cases hmain : s.main with
  | starting j =>
      rw [hmain] at hrounds hle
      rw [hrounds.1, List.mem_range] at h
      exact Nat.not_lt.mpr hle h
  | waiting j =>
      rw [hmain] at hrounds hle
      rw [hrounds.1, List.mem_range] at h
      exact Nat.not_lt.mpr hle (Nat.lt_succ_of_lt h)
  | serving | waking j =>
      rw [hmain] at hrounds hle
      rw [hrounds, List.mem_range] at h
      exact Nat.not_lt.mpr hle h

/-- The acceptor pushes a new descriptor on the queue of an io thread's loop. -/
theorem moves_push (hs : Owned s) {connfd : Int} {next : Nat}
    (ht : t = runInLoop { s with next := next } connfd (some i)) (hi : Inv t)
    (hnew : ∀ l, connfd ∉ s.held l) (hpos : 0 < connfd) (hmax : connfd < maxFds)
    (hmain : s.main = .serving) (hmem : i ∈ s.loops) : Moves s (.accept connfd true) t := by
  have hhanded : handed (.accept connfd true) = [connfd] := if_pos ⟨hpos, hmax, rfl⟩
  have hborn := hs.born_of_mem hmem
  have hmain' : t.main = .waking i := by rw [ht]; rfl
  have hcount : s.born = s.numThreads := by rw [State.born, hmain]
  have hcount' : t.born = s.numThreads := by rw [ht]; rfl
  have hchanged : Changed s i ((s.reactor (some i)).pushed connfd) t := by
    refine ⟨hi, ?_, ?_, ?_, ?_, ?_⟩
    · rw [ht]; exact hs.alive
    · rw [ht]; rfl
    · rw [ht]; rfl
    · intro j hj
      rw [hmain, hmain']
      exact decide_eq_decide.mpr ⟨fun e => absurd (Main.waking.inj e).symm hj, nofun⟩
    · intro j _
      rw [hcount, hcount']
  have htended : ((s.reactor (some i)).pushed connfd).Tended (decide (t.main = .waking i)) := by
    rw [hmain', decide_eq_true rfl]
    have hold := hs.tended i
    rw [hmain] at hold
    exact Reactor.Tended.push hold hborn (Int.le_of_lt hpos) (hnew (some i))
  refine ⟨hchanged.owned hs htended ?_ ?_, ?_, ?_, fun fd hfd => absurd hfd List.not_mem_nil⟩
  · rw [hcount', ← hcount]
    exact hs.unborn i
  · intro fd hfd l hl
    rw [Reactor.held_pushed hborn] at hfd
    rcases List.mem_append.mp hfd with hfd | hfd
    · exact hs.apart _ _ hl.symm fd hfd
    · rw [List.mem_singleton.mp hfd]
      exact hnew l
  · intro fd
    rw [hchanged.carried, carried_split s i, Reactor.carried_pushed, hhanded, List.mem_append]
    simp only [released, List.not_mem_nil, not_false_eq_true, and_true]
    exact or_right_comm
  · rw [hhanded]
    rintro fd hfd ⟨j, hj⟩
    rw [List.mem_singleton.mp hfd] at hj
    exact hnew _ (hs.carried_held hj)

/-- One round of `handleNewConn`. -/
theorem moves_accept (hs : Owned s) (hi : Inv t) {connfd : Int} {nonBlocking : Bool}
    (hf : Fits s (.accept connfd nonBlocking)) (hmain : s.main = .serving)
    (h : handleNewConn s connfd nonBlocking = some t) : Moves s (.accept connfd nonBlocking) t := by
  unfold handleNewConn at h
  split at h
  · rename_i hout
    cases h
    have hnone : handed (.accept connfd nonBlocking) = [] := by
      refine if_neg ?_
      rintro ⟨hpos, hmax, -⟩
      omega
    exact moves_main hs hi hs.alive rfl rfl (fun _ => rfl) rfl hnone rfl
  · rename_i hin
    obtain ⟨⟨l, next⟩, hl, rfl⟩ := Option.map_eq_some_iff.mp h
    cases nonBlocking with
    | false => exact moves_main hs hi hs.alive rfl rfl (fun _ => rfl) rfl (if_neg nofun) rfl
    | true =>
        unfold getNextLoop at hl
        split at hl
        · -- there is an io thread
          rename_i hnil
          have hrounds := hs.inv.rounds
          rw [Rounds, hmain] at hrounds
          have hzero := List.range_eq_nil.mp (hrounds.symm.trans hnil)
          have hpos := hs.threads
          omega
        · obtain ⟨i, hmem, hil⟩ := Option.map_eq_some_iff.mp hl
          cases hil
          exact moves_push hs rfl hi (hs.not_held hf) (by omega) (by omega) hmain
            (List.mem_of_getElem? hmem)

theorem moves_turn (hs : Owned s) (hi : Inv t) {l : Option Nat} {a : TaskQueue.Action Int}
    {q : TaskQueue.State Int} (hloop : (s.reactor l).phase = .looping) (ha : ofLoop a = true)
    (hq : TaskQueue.step (s.reactor l).queue a = some q)
    (ht : t = match started (s.reactor l).queue a with
      | some connfd =>
          getNextFreeConnection (s.setReactor l { s.reactor l with queue := q }) l connfd
      | none => s.setReactor l { s.reactor l with queue := q }) : Moves s (.turn l a) t := by
  cases l with
  | none =>
      obtain ⟨-, hnone⟩ := noTask_turn hs.inv.noTask ha hq
      rw [hnone] at ht
      subst ht
      exact moves_base (r := { s.reactor none with queue := q }) hs hi hs.alive rfl rfl
        (fun _ => rfl) rfl hs.bare hs.baseBorn rfl rfl rfl
  | some i =>
      obtain ⟨w, hw, htended, hheld, hcarried⟩ := (hs.tended i).turn hloop ha hq
      have hchanged : Changed s i { s.reactor (some i) with queue := q, loop := w } t := by
        cases hstarted : started (s.reactor (some i)).queue a with
        | none =>
            rw [hstarted] at ht hw
            dsimp only at ht hw
            subst ht hw
            exact ⟨hi, hs.alive, rfl, rfl, fun _ _ => rfl, fun _ _ => Iff.rfl⟩
        | some connfd =>
            rw [hstarted] at ht hw
            dsimp only at ht hw
            have hget : getNextFreeConnection (s.setReactor (some i)
                { s.reactor (some i) with queue := q }) (some i) connfd =
                { s.setReactor (some i) { s.reactor (some i) with queue := q, loop := w } with
                  calls := s.calls ++ [⟨some i, (s.reactor (some i)).poolBuilt,
                    (s.reactor (some i)).loop.freeTcpConnection⟩] } := by
              rw [getNextFreeConnection, reactor_setReactor_self]
              dsimp only
              rw [hw]
              simp only [State.setReactor, Function.update_idem]
            rw [hget] at ht
            subst ht
            exact ⟨hi, hs.alive, rfl, rfl, fun _ _ => rfl, fun _ _ => Iff.rfl⟩
      have hmain : t.main = s.main := by
        rw [ht]
        split
        · rw [getNextFreeConnection]
          dsimp only
          split <;> rfl
        · rfl
      have hborn : t.born = s.born := by rw [State.born, State.born, hmain, hchanged.numThreads]
      refine hchanged.moves_same hs ?_ ?_ (fun fd hfd => (hheld fd).mp hfd) rfl rfl hcarried
      · rw [hmain]
        exact htended
      · rw [hborn]
        exact hs.unborn i

theorem moves_act (hs : Owned s) (hi : Inv t) {l : Option Nat} {a : Act} {w : EventLoop}
    (hf : Fits s (.act l a)) (hloop : (s.reactor l).phase = .looping) (ha : a.connfd = none)
    (hw : (s.reactor l).loop.act a = some w)
    (ht : t = s.setReactor l { s.reactor l with loop := w }) : Moves s (.act l a) t := by
  subst ht
  cases l with
  | none =>
      obtain ⟨hbare, hcloses, hopen⟩ := hs.bare.act hf ha hw
      have hreleased : released s (.act none a) = [] := by
        rw [released, closedFds, hcloses]
        rfl
      exact moves_base (r := { s.reactor none with loop := w }) hs hi hs.alive rfl rfl
        (fun _ => rfl) rfl hbare hs.baseBorn hopen rfl hreleased
  | some i =>
      obtain ⟨htended, hheld, hclosed, hcarried⟩ := (hs.tended i).act hloop hf ha hw
      have hchanged : Changed s i { s.reactor (some i) with loop := w }
          (s.setReactor (some i) { s.reactor (some i) with loop := w }) :=
        ⟨hi, hs.alive, rfl, rfl, fun _ _ => rfl, fun _ _ => Iff.rfl⟩
      refine ⟨hchanged.owned hs htended (hs.unborn i) ?_, ?_, fun fd hfd => ?_, ?_⟩
      · intro fd hfd l hl
        exact hs.apart _ _ hl.symm fd (hheld fd hfd)
      · intro fd
        have helsewhere : ∀ j, j ≠ i → fd ∈ (s.reactor (some j)).carried →
            fd ∉ (s.reactor (some i)).loop.closedFds a := by
          intro j hji hj hfd
          exact hs.apart (some j) (some i) (fun e => hji (Option.some.inj e)) fd
            (hs.carried_held hj) (hs.carried_held (hclosed fd hfd))
        rw [hchanged.carried, carried_split s i, hcarried]
        show _ ↔ (_ ∧ fd ∉ (s.reactor (some i)).loop.closedFds a) ∨ fd ∈ []
        constructor
        · rintro (⟨hfd, hnot⟩ | ⟨j, hji, hj⟩)
          · exact Or.inl ⟨Or.inl hfd, hnot⟩
          · exact Or.inl ⟨Or.inr ⟨j, hji, hj⟩, helsewhere j hji hj⟩
        · rintro (⟨hfd | hfd, hnot⟩ | hfd)
          · exact Or.inl ⟨hfd, hnot⟩
          · exact Or.inr hfd
          · exact absurd hfd List.not_mem_nil
      · exact absurd hfd List.not_mem_nil
      · exact fun fd hfd => ⟨i, hclosed fd hfd⟩

/-- What every step does with the descriptors of the connections. -/
theorem moves_step (hs : Owned s) {a : Action} (hf : Fits s a) (h : step s a = some t) :
    Moves s a t := by
  have hi := (after_step hs.inv h).inv
  unfold step at h
  rw [if_neg (by rw [hs.alive]; exact Bool.false_ne_true)] at h
  cases a with
  | startThread k =>
      dsimp only at h
      split at h
      · rename_i i hmain
        obtain ⟨-, ht⟩ := Option.ite_none_right_eq_some.mp h
        exact moves_startThread hs hi hf hmain (Option.some.inj ht).symm
      · cases h
  | loopStarted =>
      dsimp only at h
      split at h
      · rename_i i hmain
        obtain ⟨-, ht⟩ := Option.ite_none_right_eq_some.mp h
        cases ht
        refine moves_main hs hi hs.alive rfl rfl (fun j => ?_) ?_ rfl rfl
        · rw [hmain]
          rfl
        · rw [State.born, State.born, hmain]
      · cases h
  | serve =>
      dsimp only at h
      split at h
      · rename_i i hmain
        obtain ⟨hge, ht⟩ := Option.ite_none_left_eq_some.mp h
        cases ht
        have hrounds := hs.inv.rounds
        rw [Rounds, hmain] at hrounds
        refine moves_base (r := { s.reactor none with phase := .looping }) hs hi hs.alive rfl rfl
          (fun j => ?_) ?_ hs.bare (by simp) rfl rfl rfl
        · rw [hmain]
          rfl
        · rw [State.born, State.born, hmain]
          show s.numThreads = i
          omega
      · cases h
  | proceed i =>
      obtain ⟨r, hr, rfl⟩ := Option.map_eq_some_iff.mp h
      obtain ⟨htended, hheld, hcarried⟩ := (hs.tended i).proceed hr
      obtain ⟨hborn, hborn', -⟩ := Reactor.proceed_same hr
      have hchanged : Changed s i r (s.setReactor (some i) r) :=
        ⟨hi, hs.alive, rfl, rfl, fun _ _ => rfl, fun _ _ => Iff.rfl⟩
      refine hchanged.moves_same hs htended ?_ (fun fd hfd => ?_) rfl rfl hcarried
      · exact iff_of_false hborn' fun hle => hborn ((hs.unborn i).mpr hle)
      · rw [hheld] at hfd
        exact hfd
  | turn l a =>
      obtain ⟨⟨hloop, ha, -⟩, ht⟩ := Option.ite_none_right_eq_some.mp h
      obtain ⟨q, hq, rfl⟩ := Option.map_eq_some_iff.mp ht
      exact moves_turn hs hi hloop ha hq rfl
  | act l a =>
      obtain ⟨⟨hloop, ha, -⟩, ht⟩ := Option.ite_none_right_eq_some.mp h
      obtain ⟨w, hw, rfl⟩ := Option.map_eq_some_iff.mp ht
      exact moves_act hs hi hf hloop ha hw rfl
  | accept connfd nonBlocking =>
      dsimp only at h
      split at h
      · rename_i hmain _
        exact moves_accept hs hi hf hmain h
      · cases h
  | wakeup =>
      dsimp only at h
      split at h
      · rename_i i hmain
        cases h
        have hold := hs.tended i
        rw [hmain, decide_eq_true rfl] at hold
        have hchanged : Changed s i (s.reactor (some i)).woken
            { s.setReactor (some i) (s.reactor (some i)).woken with main := .serving } := by
          refine ⟨hi, hs.alive, rfl, rfl, ?_, ?_⟩
          · intro j hj
            rw [hmain]
            exact decide_eq_decide.mpr ⟨by simp, fun e => absurd (Main.waking.inj e).symm hj⟩
          · intro j _
            rw [State.born, State.born, hmain]
            exact Iff.rfl
        refine hchanged.moves_same hs hold.wake ?_ (fun fd hfd => hfd) rfl rfl fun fd => Iff.rfl
        have hunborn := hs.unborn i
        rw [State.born, hmain] at hunborn
        exact hunborn
      · cases h

theorem owned_start {numThreads : Nat} {idleSeconds baseIdleSeconds : Int} {k : Kernel}
    (hpos : 0 < numThreads) (hk : k.Valid) :
    Owned (start numThreads idleSeconds baseIdleSeconds k) where
  inv := inv_start ..
  alive := rfl
  threads := hpos
  tended := fun _ => ⟨⟨rfl, rfl⟩, TaskQueue.sound_start, rfl,
    fun _ hfd => absurd hfd List.not_mem_nil, List.nodup_nil⟩
  unborn := fun i => iff_of_true rfl (Nat.zero_le i)
  bare := ⟨_, _, _, _, _, rfl⟩
  baseBorn := nofun
  baseOnce := hk.three
  apart := by
    intro l m hlm fd hl hm
    cases l with
    | none =>
        cases m with
        | none => exact hlm rfl
        | some j => exact absurd hm List.not_mem_nil
    | some i => exact absurd hl List.not_mem_nil

end

end StartUp

namespace Descriptors

open StartUp Machine

/-! ## The ledger of a run -/

/-- The server, the descriptors that the acceptor has handed on, and those that
`handleClose` has closed. -/
structure State where
  server : StartUp.State
  handed : List Int
  closed : List Int

def step (s : State) (a : Action) : Option State :=
  (StartUp.step s.server a).map fun t =>
    ⟨t, s.handed ++ handed a, s.closed ++ released s.server a⟩

def start (numThreads : Nat) (idleSeconds baseIdleSeconds : Int) (k : Kernel) : State :=
  ⟨StartUp.start numThreads idleSeconds baseIdleSeconds k, [], []⟩

/-- A descriptor has been handed on once more often than it has been closed while a
loop carries it, and otherwise equally often. -/
def Accounted (s : State) : Prop := ∀ fd,
  (s.server.Carried fd → s.handed.count fd = s.closed.count fd + 1) ∧
    (¬ s.server.Carried fd → s.handed.count fd = s.closed.count fd)

variable {s t : State} {a : Action}

theorem nodup_handed (a : Action) : (handed a).Nodup := by
  unfold handed
  split
  · split
    · exact List.nodup_singleton _
    · exact List.nodup_nil
  · exact List.nodup_nil

theorem nodup_released (s : StartUp.State) (a : Action) : (released s a).Nodup := by
  unfold released
  split
  · rw [EventLoop.closedFds]
    cases EventLoop.closes _ _ with
    | none => exact List.nodup_nil
    | some c => exact List.nodup_singleton _
  · exact List.nodup_nil

theorem accounted_step (hs : Accounted s) (hm : Moves s.server a t.server)
    (hhanded : t.handed = s.handed ++ handed a)
    (hclosed : t.closed = s.closed ++ released s.server a) : Accounted t := by
  intro fd
  obtain ⟨hin, hout⟩ := hs fd
  rw [hhanded, hclosed, List.count_append, List.count_append, hm.carried]
  by_cases hnew : fd ∈ handed a
  · have hnone := hm.new fd hnew
    have hold : fd ∉ released s.server a := fun hfd => hnone (hm.old fd hfd)
    rw [List.count_eq_one_of_mem (nodup_handed a) hnew, List.count_eq_zero_of_not_mem hold,
      hout hnone]
    exact ⟨fun _ => rfl, fun h => absurd (Or.inr hnew) h⟩
  · rw [List.count_eq_zero_of_not_mem hnew]
    by_cases hold : fd ∈ released s.server a
    · rw [List.count_eq_one_of_mem (nodup_released s.server a) hold, hin (hm.old fd hold)]
      refine ⟨?_, fun _ => rfl⟩
      rintro (h | h)
      · exact absurd hold h.2
      · exact absurd h hnew
    · rw [List.count_eq_zero_of_not_mem hold]
      constructor
      · rintro (h | h)
        · exact hin h.1
        · exact absurd h hnew
      · intro h
        exact hout fun hc => h (Or.inl ⟨hc, hold⟩)

/-- In every run of a server with an io thread: the loops are sound and no null pointer
is followed, no descriptor is held twice, in one loop or in two, and each one that has
been handed on is carried by a loop or has been closed, once for each time. -/
theorem held_once {numThreads : Nat} {idleSeconds baseIdleSeconds : Int} {k : Kernel}
    (hpos : 0 < numThreads) (hk : k.Valid) {acts : List Action}
    (hfit : Meets step (fun s a => Fits s.server a) (start numThreads idleSeconds baseIdleSeconds k)
      acts)
    (hrun : exec step (start numThreads idleSeconds baseIdleSeconds k) acts = some s) :
    s.server.dead = false ∧
    (∀ i, (s.server.reactor (some i)).phase = .looping →
      (s.server.reactor (some i)).loop.Sound) ∧
    (∀ l, (s.server.held l).Nodup) ∧
    (∀ l m, l ≠ m → (s.server.held l).Disjoint (s.server.held m)) ∧
    ∀ fd, (s.server.Carried fd → s.handed.count fd = s.closed.count fd + 1) ∧
      (¬ s.server.Carried fd → s.handed.count fd = s.closed.count fd) := by
  have hboth : Owned s.server ∧ Accounted s := by
    refine exec_invariant (I := fun s => Owned s.server ∧ Accounted s) ?_ hfit
      ⟨owned_start hpos hk, ?_⟩ hrun
    · rintro s a t ⟨howned, haccount⟩ hfits hstep
      obtain ⟨server, hserver, rfl⟩ := Option.map_eq_some_iff.mp hstep
      have hmoves := moves_step howned hfits hserver
      exact ⟨hmoves.owned, accounted_step haccount hmoves rfl rfl⟩
    · intro fd
      refine ⟨?_, fun _ => rfl⟩
      rintro ⟨i, hfd⟩
      exact absurd hfd List.not_mem_nil
  obtain ⟨howned, haccount⟩ := hboth
  refine ⟨howned.alive, fun i => (howned.tended i).staged.sound, ?_, ?_, haccount⟩
  · intro l
    cases l with
    | none =>
        have hqueued : (s.server.reactor none).queue.queued = [] := by
          rw [TaskQueue.State.queued, howned.inv.noTask.1, howned.inv.noTask.2]
          rfl
        rw [StartUp.State.held, Reactor.held_of_born howned.baseBorn, hqueued, List.append_nil]
        exact howned.baseOnce
    | some i => exact (howned.tended i).once
  · intro l m hlm fd hl hm
    exact howned.apart l m hlm fd hl hm

/-- A connection that is handed on before the pool is built, served and closed. -/
theorem held_once_closed : ∃ s, exec step (start 1 60 (-1) ⟨0, 3, 4, 5⟩)
      (early ++ [.act (some 0) (.handleRead 1 (.data 104 [105]) (.wrote 2)),
        .act (some 0) (.handleClose 1)]) = some s ∧
    s.handed = [9] ∧ s.closed = [9] ∧ s.server.dead = false ∧
    (s.server.held none).Disjoint (s.server.held (some 0)) := by
  have hgo : (exec step (start 1 60 (-1) ⟨0, 3, 4, 5⟩)
      (early ++ [.act (some 0) (.handleRead 1 (.data 104 [105]) (.wrote 2)),
        .act (some 0) (.handleClose 1)])).map (fun s => (s.handed, s.closed)) =
      some ([9], [9]) := by
    decide +kernel
  obtain ⟨s, hs, hlists⟩ := Option.map_eq_some_iff.mp hgo
  obtain ⟨hhanded, hclosed⟩ := Prod.mk.inj hlists
  obtain ⟨halive, -, -, hapart, -⟩ := held_once (by decide) (by decide) (by decide +kernel) hs
  exact ⟨s, hs, hhanded, hclosed, halive, hapart _ _ nofun⟩

end Descriptors

end WebServer

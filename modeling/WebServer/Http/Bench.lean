/-
# `Http.Bench` — what the numbers of the benchmark client count

`benchcore` is the loop of one child of `webbench`: connect, send the request, read the
answer, until the alarm has gone off; with `--keep` it stays on one connection.  Each child
prints its three counters on a line, and `bench` adds up the lines in the order in which they
come through the pipe.

A step of `benchcore` is a system call, whose answer is part of the action, or a test of
`timerexpired`, which the signal may set at any time.  Beside the counters a child has what
the kernel saw: the rounds of the loop, the requests that it took whole, those of them whose
connection then failed, the sockets that are open.  `Counted` relates the two.

The parent scans the lines back (`fscanf_line`).  What its sums come to is `tallied`: the
rounds of all children but for one failure of each child that had any, the requests that
were answered, the bytes as far as an `int` holds them.  A child that a signal has killed
writes no line, and then the parent waits for ever: it has the write end of the pipe open
itself, so it never meets the end of the file.
-/
import WebServer.Http.WebBench
import WebServer.Lib.Decimal
import WebServer.Lib.Progress

namespace WebServer

namespace WebBench

open Machine HttpData

open Decimal (minus)

/-! ## `benchcore` -/

/-- What `benchcore` reads of the options, and the length of the request. -/
structure Bench where
  keep_alive : Bool
  force : Bool
  http10 : Nat
  rlen : Nat

/-- How `Socket` goes. -/
inductive Dial where
  | unresolved
  | noSocket
  /-- `connect` fails, and the socket stays open. -/
  | refused (fd : Int)
  | connected (fd : Int)
  deriving DecidableEq

/-- The answer of `Socket(host, port)`, and the sockets that are open then. -/
def Socket (fds : List Int) : Dial → Int × List Int
  | .unresolved | .noSocket => (-1, fds)
  | .refused fd => (-1, fd :: fds)
  | .connected fd => (fd, fd :: fds)

/-- The sockets that `Socket` has opened and not returned. -/
def Dial.leaks (leaks : List Int) : Dial → List Int
  | .refused fd => fd :: leaks
  | _ => leaks

/-- The kernel gives out a descriptor that is not open. -/
def Dial.Fresh (fds : List Int) : Dial → Prop
  | .unresolved | .noSocket => True
  | .refused fd | .connected fd => 0 ≤ fd ∧ fd ∉ fds

instance (fds : List Int) (answer : Dial) : Decidable (answer.Fresh fds) := by
  unfold Dial.Fresh
  split <;> infer_instance

/-- The next thing that a child does. -/
inductive Place where
  /-- `while ((s = Socket(host, port)) == -1);` -/
  | dial
  /-- The top of the loop. -/
  | test
  /-- `s = Socket(host, port)`. -/
  | connect
  | write
  | shutdown
  /-- The test of `timerexpired` before a `read`. -/
  | check
  | read
  | close
  | done
  deriving DecidableEq

structure Child where
  place : Place
  s : Int
  timerexpired : Bool
  speed : Nat
  failed : Nat
  bytes : Nat
  /-- The sockets that are open. -/
  fds : List Int
  /-- Those that `Socket` has left open. -/
  leaks : List Int
  rounds : Nat
  /-- The requests that were written whole. -/
  sent : Nat
  /-- Those given up afterwards. -/
  lost : Nat
  /-- The writes to a descriptor that is not open. -/
  stale : Nat
  received : Nat
  deriving DecidableEq

def Child.new (b : Bench) : Child :=
  ⟨if b.keep_alive then .dial else .test, -1, false, 0, 0, 0, [], [], 0, 0, 0, 0, 0⟩

inductive Action where
  /-- `SIGALRM`. -/
  | alarm
  | socket (answer : Dial)
  | test
  | write (n : Int)
  | shutdown (res : Int)
  | check
  | read (i : Int)
  | close (res : Int)
  deriving DecidableEq

/-- `failed++`, and back to the top of the loop. -/
def Child.fail (c : Child) : Child := { c with failed := c.failed + 1, place := .test }

/-- `close(s)`: the kernel releases the descriptor, whatever it answers. -/
def Child.drop (c : Child) : Child := { c with fds := c.fds.erase c.s }

/-- A failure after the request was sent. -/
def Child.lose (c : Child) : Child := { c.drop.fail with lost := c.lost + 1 }

/-- The end of a round that went well. -/
def Child.succeed (c : Child) : Child := { c with speed := c.speed + 1, place := .test }

/-- There is nothing more to read. -/
def Child.finish (b : Bench) (c : Child) : Child :=
  if b.keep_alive then c.succeed else { c with place := .close }

/-- On to the answer, unless it is not waited for. -/
def Child.await (b : Bench) (c : Child) : Child :=
  if b.force then c.finish b else { c with place := .check }

def step (b : Bench) (c : Child) : Action → Option Child
  | .alarm =>
      if c.place ≠ .done ∧ c.timerexpired = false then some { c with timerexpired := true }
      else none
  | .socket answer =>
      if (c.place = .dial ∨ c.place = .connect) ∧ answer.Fresh c.fds then
        let r := Socket c.fds answer
        let c' : Child := { c with s := r.1, fds := r.2, leaks := answer.leaks c.leaks }
        if c.place = .dial then some (if r.1 = -1 then c' else { c' with place := .test })
        else some (if r.1 < 0 then c'.fail else { c' with place := .write })
      else none
  | .test =>
      if c.place = .test then
        if c.timerexpired then
          some { c with failed := if 0 < c.failed then c.failed - 1 else c.failed, place := .done }
        else
          let c : Child := { c with rounds := c.rounds + 1 }
          if b.keep_alive then some (if c.s < 0 then c.fail else { c with place := .write })
          else some { c with place := .connect }
      else none
  | .write n =>
      if c.place = .write ∧ -1 ≤ n ∧ n ≤ b.rlen ∧ (c.s ∉ c.fds → n = -1) then
        if b.rlen ≠ n then
          let c : Child :=
            { c.drop.fail with stale := if c.s ∈ c.fds then c.stale else c.stale + 1 }
          some (if b.keep_alive then { c with place := .dial } else c)
        else
          let c : Child := { c with sent := c.sent + 1 }
          if b.keep_alive = false ∧ b.http10 = 0 then some { c with place := .shutdown }
          else some (c.await b)
      else none
  | .shutdown res =>
      if c.place = .shutdown then some (if res ≠ 0 then c.lose else c.await b) else none
  | .check =>
      if c.place = .check then
        some (if c.timerexpired then c.finish b else { c with place := .read })
      else none
  | .read i =>
      if c.place = .read ∧ -1 ≤ i ∧ i ≤ 1500 then
        if i < 0 then some c.lose
        else if i = 0 then some (c.finish b)
        else
          let c : Child := { c with bytes := c.bytes + i.toNat, received := c.received + i.toNat }
          some (if b.keep_alive then c.finish b else { c with place := .check })
      else none
  | .close res =>
      if c.place = .close then some (if res ≠ 0 then c.lose else c.drop.succeed) else none

/-! ## What the counters count -/

/-- The rounds that have begun and are not counted yet. -/
def Place.begun : Place → Nat
  | .connect | .write | .shutdown | .check | .read | .close => 1
  | .dial | .test | .done => 0

/-- The requests that are sent, and their rounds not counted yet. -/
def Place.waits : Place → Nat
  | .shutdown | .check | .read | .close => 1
  | .dial | .test | .connect | .write | .done => 0

/-- Whether `s` can be open there. -/
def Place.held (keep : Bool) : Place → List Bool
  | .dial => if keep then [false] else []
  | .connect => if keep then [] else [false]
  | .test | .done => if keep then [true, false] else [false]
  | .write => if keep then [true, false] else [true]
  | .check | .read => [true]
  | .shutdown | .close => if keep then [] else [true]

/-- The kernel has the socket `s` open. -/
def Child.holds (c : Child) : Bool := c.s ∈ c.fds

/-- The failure that the alarm makes up for. -/
def Child.forgiven (c : Child) : Nat := if c.place = .done ∧ c.speed < c.rounds then 1 else 0

/-- With `--keep`, the lost connection that the next write will run into. -/
def Child.unnoticed (c : Child) : Nat := if c.holds = false ∧ c.place ≠ .dial then 1 else 0

structure Counted (b : Bench) (c : Child) : Prop where
  rounds : c.speed + c.failed + c.forgiven + c.place.begun = c.rounds
  sent : c.speed + c.lost + c.place.waits = c.sent
  bytes : c.bytes = c.received
  held : c.holds ∈ c.place.held b.keep_alive
  fds : c.fds = (if c.holds then [c.s] else []) ++ c.leaks
  own : c.s ∉ c.leaks ∧ ∀ fd ∈ c.leaks, 0 ≤ fd
  stale : if b.keep_alive then c.stale + c.unnoticed = c.lost else c.stale = 0

theorem counted_new (b : Bench) : Counted b (Child.new b) := by
  cases h : b.keep_alive <;> rw [Child.new, h]
  · exact ⟨rfl, rfl, rfl, by rw [h]; decide, rfl, ⟨List.not_mem_nil, nofun⟩, by rw [h]; rfl⟩
  · exact ⟨rfl, rfl, rfl, by rw [h]; decide, rfl, ⟨List.not_mem_nil, nofun⟩, by rw [h]; rfl⟩

section

variable {b : Bench} {c d : Child} {a : Action}

theorem forgiven_eq (h : c.place ≠ .done) : c.forgiven = 0 := if_neg fun hdone => h hdone.1

theorem unnoticed_held (h : c.holds = true) : c.unnoticed = 0 :=
  if_neg fun hlost => Bool.noConfusion (h.symm.trans hlost.1)

theorem unnoticed_lost (h : c.holds = false) (hdial : c.place ≠ .dial) : c.unnoticed = 1 :=
  if_pos ⟨h, hdial⟩

theorem unnoticed_dial (h : c.place = .dial) : c.unnoticed = 0 := if_neg fun hlost => hlost.2 h

/-- While the answer is waited for, the socket is open and the round not counted. -/
structure Waiting (b : Bench) (c : Child) : Prop extends Counted b c where
  holds : c.holds = true
  waits : c.speed + c.lost + 1 = c.sent
  begun : c.speed + c.failed + 1 = c.rounds
  noticed : if b.keep_alive then c.stale = c.lost else c.stale = 0

theorem Counted.waiting (hs : Counted b c) (hplace : c.place ∈ [.shutdown, .check, .read, .close]) :
    Waiting b c := by
  have hheld := hs.held
  have hrounds := hs.rounds
  have hsent := hs.sent
  have hstale := hs.stale
  have hholds : c.holds = true := by
    simp only [List.mem_cons, List.not_mem_nil, or_false] at hplace
    rcases hplace with h | h | h | h <;> rw [h] at hheld <;> cases hkeep : b.keep_alive <;>
      simp_all [Place.held]
  rw [forgiven_eq (by rintro h; rw [h] at hplace; simp at hplace)] at hrounds
  rw [unnoticed_held hholds] at hstale
  simp only [List.mem_cons, List.not_mem_nil, or_false] at hplace
  refine ⟨hs, hholds, ?_, ?_, hstale⟩
  · rcases hplace with h | h | h | h <;> rw [h] at hsent <;> exact hsent
  · rcases hplace with h | h | h | h <;> rw [h] at hrounds <;> exact hrounds

theorem counted_succeed (hs : Waiting b c) (hkeep : b.keep_alive) : Counted b c.succeed := by
  have hwaits := hs.waits
  have hbegun := hs.begun
  have hnoticed := hs.noticed
  exact
    { hs with
      rounds := show c.speed + 1 + c.failed + 0 + 0 = c.rounds by omega
      sent := show c.speed + 1 + c.lost + 0 = c.sent by omega
      held := by
        show c.holds ∈ Place.held b.keep_alive .test
        rw [hs.holds, hkeep]
        decide
      stale := by
        rw [unnoticed_held (c := c.succeed) hs.holds]
        exact hnoticed }

/-- The child goes on waiting. -/
theorem counted_place (hs : Waiting b c) {p : Place} (hwaits : p.waits = 1) (hbegun : p.begun = 1)
    (hdone : p ≠ .done) (hheld : true ∈ p.held b.keep_alive) : Counted b { c with place := p } := by
  have hrounds := hs.begun
  have hsent := hs.waits
  have hnoticed := hs.noticed
  exact
    { hs with
      rounds := by
        rw [forgiven_eq (c := { c with place := p }) hdone]
        show c.speed + c.failed + 0 + p.begun = c.rounds
        omega
      sent := by
        show c.speed + c.lost + p.waits = c.sent
        omega
      held := by
        show c.holds ∈ _
        rw [hs.holds]
        exact hheld
      stale := by
        rw [unnoticed_held (c := { c with place := p }) hs.holds]
        exact hnoticed }

theorem counted_finish (hs : Waiting b c) : Counted b (c.finish b) := by
  unfold Child.finish
  split
  · next hkeep => exact counted_succeed hs hkeep
  · next hkeep => exact counted_place hs rfl rfl nofun (by simp [Place.held, hkeep])

theorem counted_await (hs : Waiting b c) : Counted b (c.await b) := by
  unfold Child.await
  split
  · exact counted_finish hs
  · exact counted_place hs rfl rfl nofun List.mem_cons_self

/-! ### Closing -/

/-- What stays open when `s` is closed, or was closed before. -/
theorem Counted.erase (hs : Counted b c) : c.fds.erase c.s = c.leaks := by
  rw [hs.fds]
  split
  · exact List.erase_cons_head ..
  · exact List.erase_of_not_mem hs.own.1

theorem Counted.drop_holds (hs : Counted b c) : c.drop.holds = false := by
  show decide (c.s ∈ c.fds.erase c.s) = false
  rw [hs.erase]
  exact decide_eq_false hs.own.1

/-- The sockets, when `s` is closed. -/
theorem Counted.drop_fds (hs : Counted b c) :
    c.drop.fds = (if c.drop.holds then [c.s] else []) ++ c.leaks := by
  rw [hs.drop_holds]
  exact hs.erase

theorem held_test (keep : Bool) : false ∈ Place.test.held keep := by cases keep <;> decide

theorem counted_lose (hs : Waiting b c) : Counted b c.lose := by
  have hwaits := hs.waits
  have hbegun := hs.begun
  have hnoticed := hs.noticed
  have hholds := hs.toCounted.drop_holds
  exact
    { hs with
      rounds := show c.speed + (c.failed + 1) + 0 + 0 = c.rounds by omega
      sent := show c.speed + (c.lost + 1) + 0 = c.sent by omega
      held := by
        show c.drop.holds ∈ _
        rw [hholds]
        exact held_test _
      fds := hs.toCounted.drop_fds
      stale := by
        rw [unnoticed_lost (c := c.lose) hholds nofun]
        show if b.keep_alive then c.stale + 1 = c.lost + 1 else c.stale = 0
        split at hnoticed
        · next hkeep => rw [if_pos hkeep, hnoticed]
        · next hkeep => rw [if_neg hkeep, hnoticed] }

theorem counted_close (hs : Waiting b c) (hkeep : b.keep_alive = false) :
    Counted b c.drop.succeed := by
  have hwaits := hs.waits
  have hbegun := hs.begun
  have hnoticed := hs.noticed
  have hholds := hs.toCounted.drop_holds
  rw [hkeep] at hnoticed
  exact
    { hs with
      rounds := show c.speed + 1 + c.failed + 0 + 0 = c.rounds by omega
      sent := show c.speed + 1 + c.lost + 0 = c.sent by omega
      held := by
        show c.drop.holds ∈ _
        rw [hholds]
        exact held_test _
      fds := hs.toCounted.drop_fds
      stale := by
        rw [hkeep]
        exact hnoticed }

/-! ### One step -/

theorem counted_alarm (hs : Counted b c) (h : step b c .alarm = some d) : Counted b d := by
  obtain ⟨-, h⟩ := Option.ite_none_right_eq_some.mp h
  cases h
  exact ⟨hs.rounds, hs.sent, hs.bytes, hs.held, hs.fds, hs.own, hs.stale⟩

/-- At the top of the loop, all rounds are counted. -/
theorem Counted.top (hs : Counted b c) (hplace : c.place = .test) :
    c.speed + c.failed = c.rounds ∧ c.speed + c.lost = c.sent := by
  have hrounds := hs.rounds
  have hsent := hs.sent
  rw [forgiven_eq (by rw [hplace]; nofun), hplace] at hrounds
  rw [hplace] at hsent
  exact ⟨hrounds, hsent⟩

theorem unnoticed_eq {p : Place} (hplace : c.place ≠ .dial) (hp : p ≠ .dial) :
    ({ c with place := p } : Child).unnoticed = c.unnoticed := by
  cases hholds : c.holds with
  | true => rw [unnoticed_held hholds, unnoticed_held (c := { c with place := p }) hholds]
  | false =>
      rw [unnoticed_lost hholds hplace, unnoticed_lost (c := { c with place := p }) hholds hp]

/-- The alarm has gone off: one failure is taken back, if there was one. -/
theorem counted_done (hs : Counted b c) (hplace : c.place = .test) :
    Counted b { c with
      failed := if 0 < c.failed then c.failed - 1 else c.failed
      place := .done } := by
  obtain ⟨hrounds, hsent⟩ := hs.top hplace
  have hheld := hs.held
  rw [hplace] at hheld
  exact
    { hs with
      rounds := by
        show c.speed + (if 0 < c.failed then c.failed - 1 else c.failed) +
          (if Place.done = .done ∧ c.speed < c.rounds then 1 else 0) + 0 = c.rounds
        by_cases hfailed : 0 < c.failed
        · rw [if_pos hfailed, if_pos ⟨rfl, by omega⟩]
          omega
        · rw [if_neg hfailed, if_neg (by omega)]
          omega
      sent := hsent
      held := hheld
      stale := by
        have hsame := unnoticed_eq (c := c) (p := .done) (by rw [hplace]; nofun) nofun
        have hstale := hs.stale
        rw [← hsame] at hstale
        exact hstale }

/-- A round begins. -/
theorem counted_begin (hs : Counted b c) (hplace : c.place = .test) {p : Place}
    (hp : p = if b.keep_alive then .write else .connect) :
    Counted b { c with rounds := c.rounds + 1, place := p } := by
  obtain ⟨hrounds, hsent⟩ := hs.top hplace
  have hheld := hs.held
  have hstale := hs.stale
  have hne : p ≠ .dial ∧ p ≠ .done ∧ p.begun = 1 ∧ p.waits = 0 := by
    subst hp
    cases b.keep_alive <;> simp [Place.begun, Place.waits]
  have hsame := unnoticed_eq (c := c) (p := p) (by rw [hplace]; nofun) hne.1
  rw [hplace] at hheld
  exact
    { hs with
      rounds := by
        rw [forgiven_eq (c := { c with rounds := c.rounds + 1, place := p }) hne.2.1]
        show c.speed + c.failed + 0 + p.begun = c.rounds + 1
        omega
      sent := by
        show c.speed + c.lost + p.waits = c.sent
        omega
      held := by
        show c.holds ∈ p.held b.keep_alive
        subst hp
        cases hkeep : b.keep_alive <;> rw [hkeep] at hheld <;> exact hheld
      stale := by
        rw [← hsame] at hstale
        exact hstale }

theorem counted_test (hs : Counted b c) (h : step b c .test = some d) : Counted b d := by
  obtain ⟨hplace, h⟩ := Option.ite_none_right_eq_some.mp h
  obtain ⟨hrounds, hsent⟩ := hs.top hplace
  have hheld := hs.held
  have hstale := hs.stale
  split at h
  · cases h
    exact counted_done hs hplace
  · cases hkeep : b.keep_alive with
    | false =>
        rw [if_neg (by rw [hkeep]; nofun)] at h
        cases h
        exact counted_begin hs hplace (by rw [hkeep]; rfl)
    | true =>
        rw [if_pos hkeep] at h
        cases h
        split
        · refine
            { hs with
              rounds := show c.speed + (c.failed + 1) + 0 + 0 = c.rounds + 1 by omega
              sent := hsent
              held := by rw [hplace] at hheld; exact hheld
              stale := ?_ }
          have hsame := unnoticed_eq (c := c) (p := .test) (by rw [hplace]; nofun) nofun
          rw [← hsame] at hstale
          exact hstale
        · exact counted_begin hs hplace (by rw [hkeep]; rfl)

theorem counted_shutdown {res : Int} (hs : Counted b c) (h : step b c (.shutdown res) = some d) :
    Counted b d := by
  obtain ⟨hplace, h⟩ := Option.ite_none_right_eq_some.mp h
  have hwaiting := hs.waiting (by rw [hplace]; decide)
  cases h
  split
  · exact counted_lose hwaiting
  · exact counted_await hwaiting

theorem counted_check (hs : Counted b c) (h : step b c .check = some d) : Counted b d := by
  obtain ⟨hplace, h⟩ := Option.ite_none_right_eq_some.mp h
  have hwaiting := hs.waiting (by rw [hplace]; decide)
  cases h
  split
  · exact counted_finish hwaiting
  · exact counted_place hwaiting rfl rfl nofun List.mem_cons_self

theorem counted_read {i : Int} (hs : Counted b c) (h : step b c (.read i) = some d) :
    Counted b d := by
  obtain ⟨⟨hplace, -⟩, h⟩ := Option.ite_none_right_eq_some.mp h
  have hwaiting := hs.waiting (by rw [hplace]; decide)
  split at h
  · cases h
    exact counted_lose hwaiting
  · split at h
    · cases h
      exact counted_finish hwaiting
    · have hmore : Waiting b
          { c with bytes := c.bytes + i.toNat, received := c.received + i.toNat } :=
        { hwaiting with bytes := congrArg (· + i.toNat) hs.bytes }
      cases h
      split
      · exact counted_finish hmore
      · exact counted_place hmore rfl rfl nofun List.mem_cons_self

theorem counted_closing {res : Int} (hs : Counted b c) (h : step b c (.close res) = some d) :
    Counted b d := by
  obtain ⟨hplace, h⟩ := Option.ite_none_right_eq_some.mp h
  have hwaiting := hs.waiting (by rw [hplace]; decide)
  have hheld := hs.held
  rw [hplace] at hheld
  cases h
  split
  · exact counted_lose hwaiting
  · refine counted_close hwaiting ?_
    cases hkeep : b.keep_alive with
    | false => rfl
    | true => rw [hkeep] at hheld; cases hheld

/-- Before a `Socket`, only what was left open is open. -/
theorem Counted.dialing (hs : Counted b c) (hplace : c.place = .dial ∨ c.place = .connect) :
    c.holds = false ∧ c.fds = c.leaks := by
  have hheld := hs.held
  have hholds : c.holds = false := by
    rcases hplace with h | h <;> rw [h] at hheld <;> cases hkeep : b.keep_alive <;>
      rw [hkeep] at hheld <;> simp_all [Place.held]
  have hfds := hs.fds
  rw [hholds] at hfds
  exact ⟨hholds, hfds⟩

/-- What `Socket` makes of the sockets: it returns one that is open, or leaves it open. -/
theorem socket_cases (hs : Counted b c) (hplace : c.place = .dial ∨ c.place = .connect)
    {answer : Dial} (hfresh : answer.Fresh c.fds) :
    let r := Socket c.fds answer
    let leaks := answer.leaks c.leaks
    (r.1 ∉ leaks ∧ ∀ fd ∈ leaks, 0 ≤ fd) ∧
      (r.1 = -1 ∧ r.2 = leaks ∨ 0 ≤ r.1 ∧ r.2 = r.1 :: leaks) := by
  obtain ⟨-, hfds⟩ := hs.dialing hplace
  have hnew : ∀ leaks : List Int, (∀ fd ∈ leaks, 0 ≤ fd) → -1 ∉ leaks := fun leaks h hmem =>
    absurd (h _ hmem) (by decide)
  obtain ⟨-, hpos⟩ := hs.own
  cases answer with
  | unresolved | noSocket => exact ⟨⟨hnew _ hpos, hpos⟩, Or.inl ⟨rfl, hfds⟩⟩
  | refused fd =>
      have hmore : ∀ l ∈ fd :: c.leaks, 0 ≤ l := List.forall_mem_cons.mpr ⟨hfresh.1, hpos⟩
      exact ⟨⟨hnew _ hmore, hmore⟩, Or.inl ⟨rfl, congrArg (fd :: ·) hfds⟩⟩
  | connected fd =>
      have hown : fd ∉ c.leaks := hfds ▸ hfresh.2
      exact ⟨⟨hown, hpos⟩, Or.inr ⟨hfresh.1, congrArg (fd :: ·) hfds⟩⟩

/-- Either the child has none then, or a new one of its own. -/
theorem holds_cases {s : Int} {fds leaks : List Int} (hown : s ∉ leaks)
    (hcases : s = -1 ∧ fds = leaks ∨ 0 ≤ s ∧ fds = s :: leaks) :
    fds = (if decide (s ∈ fds) then [s] else []) ++ leaks ∧
      (s = -1 ∧ decide (s ∈ fds) = false ∨ 0 ≤ s ∧ decide (s ∈ fds) = true) := by
  rcases hcases with ⟨rfl, rfl⟩ | ⟨hpos, rfl⟩
  · have hholds : decide (-1 ∈ fds) = false := decide_eq_false hown
    exact ⟨by rw [hholds]; rfl, Or.inl ⟨rfl, hholds⟩⟩
  · have hholds : decide (s ∈ s :: leaks) = true := decide_eq_true List.mem_cons_self
    exact ⟨by rw [hholds]; rfl, Or.inr ⟨hpos, hholds⟩⟩

/-- With `--keep`, before the loop or after a connection was lost. -/
theorem counted_dial {s : Int} {fds leaks : List Int} (hs : Counted b c) (hplace : c.place = .dial)
    (hown : s ∉ leaks ∧ ∀ fd ∈ leaks, 0 ≤ fd)
    (hcases : s = -1 ∧ fds = leaks ∨ 0 ≤ s ∧ fds = s :: leaks) :
    Counted b (if s = -1 then { c with s, fds, leaks }
      else { c with s, fds, leaks, place := .test }) := by
  have hrounds := hs.rounds
  have hsent := hs.sent
  have hheld := hs.held
  have hstale := hs.stale
  have hkeep : b.keep_alive = true := by
    by_contra hkeep
    rw [hplace, Bool.eq_false_iff.mpr hkeep] at hheld
    cases hheld
  rw [forgiven_eq (by rw [hplace]; nofun), hplace] at hrounds
  rw [hplace] at hsent
  rw [hkeep, if_pos rfl, unnoticed_dial hplace] at hstale
  obtain ⟨hfds, hcases⟩ := holds_cases hown.1 hcases
  rcases hcases with ⟨rfl, hholds⟩ | ⟨hpos, hholds⟩
  · rw [if_pos rfl]
    exact
      { hs with
        held := by
          show decide (-1 ∈ fds) ∈ c.place.held b.keep_alive
          rw [hholds, hplace, hkeep]
          exact List.mem_cons_self
        fds := hfds
        own := hown
        stale := by
          rw [hkeep, if_pos rfl, unnoticed_dial (c := { c with s := -1, fds, leaks }) hplace]
          exact hstale }
  · rw [if_neg (by omega)]
    exact
      { hs with
        rounds := hrounds
        sent := hsent
        held := by
          show decide (s ∈ fds) ∈ Place.test.held b.keep_alive
          rw [hholds, hkeep]
          exact List.mem_cons_self
        fds := hfds
        own := hown
        stale := by
          rw [hkeep, if_pos rfl,
            unnoticed_held (c := { c with s, fds, leaks, place := .test }) hholds]
          exact hstale }

/-- Without `--keep`, at the start of a round. -/
theorem counted_connect {s : Int} {fds leaks : List Int} (hs : Counted b c)
    (hplace : c.place = .connect) (hown : s ∉ leaks ∧ ∀ fd ∈ leaks, 0 ≤ fd)
    (hcases : s = -1 ∧ fds = leaks ∨ 0 ≤ s ∧ fds = s :: leaks) :
    Counted b (if s < 0 then { c with s, fds, leaks }.fail
      else { c with s, fds, leaks, place := .write }) := by
  have hrounds := hs.rounds
  have hsent := hs.sent
  have hheld := hs.held
  have hstale := hs.stale
  have hkeep : b.keep_alive = false := by
    refine Bool.eq_false_iff.mpr fun hkeep => ?_
    rw [hplace, hkeep] at hheld
    cases hheld
  rw [forgiven_eq (by rw [hplace]; nofun), hplace] at hrounds
  rw [hplace] at hsent
  rw [hkeep] at hstale
  have hrounds : c.speed + c.failed + 0 + 1 = c.rounds := hrounds
  obtain ⟨hfds, hcases⟩ := holds_cases hown.1 hcases
  rcases hcases with ⟨rfl, hholds⟩ | ⟨hpos, hholds⟩
  · rw [if_pos (by decide)]
    exact
      { hs with
        rounds := show c.speed + (c.failed + 1) + 0 + 0 = c.rounds by omega
        sent := hsent
        held := by
          show decide (-1 ∈ fds) ∈ Place.test.held b.keep_alive
          rw [hholds]
          exact held_test _
        fds := hfds
        own := hown
        stale := by
          rw [hkeep]
          exact hstale }
  · rw [if_neg (by omega)]
    exact
      { hs with
        rounds := hrounds
        sent := hsent
        held := by
          show decide (s ∈ fds) ∈ Place.write.held b.keep_alive
          rw [hholds, hkeep]
          exact List.mem_cons_self
        fds := hfds
        own := hown
        stale := by
          rw [hkeep]
          exact hstale }

theorem counted_socket {answer : Dial} (hs : Counted b c)
    (h : step b c (.socket answer) = some d) : Counted b d := by
  obtain ⟨⟨hplace, hfresh⟩, h⟩ := Option.ite_none_right_eq_some.mp h
  obtain ⟨hown, hcases⟩ := socket_cases hs hplace hfresh
  rcases hplace with hplace | hplace
  · rw [if_pos hplace] at h
    cases h
    exact counted_dial hs hplace hown hcases
  · rw [if_neg (by rw [hplace]; nofun)] at h
    cases h
    exact counted_connect hs hplace hown hcases

/-- A request that was not taken whole; a socket that was closed before is closed once more. -/
theorem counted_unsent (hs : Counted b c) (hplace : c.place = .write) {p : Place}
    (hp : p = if b.keep_alive then .dial else .test) :
    Counted b { c.drop.fail with
      stale := if c.s ∈ c.fds then c.stale else c.stale + 1
      place := p } := by
  have hrounds := hs.rounds
  have hsent := hs.sent
  have hheld := hs.held
  have hstale := hs.stale
  have hholds := hs.drop_holds
  rw [forgiven_eq (by rw [hplace]; nofun), hplace] at hrounds
  rw [hplace] at hsent hheld
  have hrounds : c.speed + c.failed + 0 + 1 = c.rounds := hrounds
  cases hkeep : b.keep_alive with
  | true =>
      rw [hkeep, if_pos rfl] at hstale
      have hp : p = .dial := by rw [hp, hkeep]; rfl
      subst hp
      exact
        { hs with
          rounds := show c.speed + (c.failed + 1) + 0 + 0 = c.rounds by omega
          sent := hsent
          held := by
            show c.drop.holds ∈ Place.dial.held b.keep_alive
            rw [hholds, hkeep]
            exact List.mem_cons_self
          fds := hs.drop_fds
          stale := by
            rw [hkeep, if_pos rfl, unnoticed_dial rfl]
            show (if c.s ∈ c.fds then c.stale else c.stale + 1) + 0 = c.lost
            by_cases hopen : c.s ∈ c.fds
            · rw [unnoticed_held (decide_eq_true hopen)] at hstale
              rw [if_pos hopen]
              exact hstale
            · rw [unnoticed_lost (decide_eq_false hopen) (by rw [hplace]; nofun)] at hstale
              rw [if_neg hopen]
              exact hstale }
  | false =>
      rw [hkeep] at hstale hheld
      have hp : p = .test := by rw [hp, hkeep]; rfl
      subst hp
      have hopen : c.s ∈ c.fds := by
        have hholds : c.holds = true := List.mem_singleton.mp hheld
        exact of_decide_eq_true hholds
      exact
        { hs with
          rounds := show c.speed + (c.failed + 1) + 0 + 0 = c.rounds by omega
          sent := hsent
          held := by
            show c.drop.holds ∈ Place.test.held b.keep_alive
            rw [hholds]
            exact held_test _
          fds := hs.drop_fds
          stale := by
            rw [hkeep]
            show (if c.s ∈ c.fds then c.stale else c.stale + 1) = 0
            rw [if_pos hopen]
            exact hstale }

/-- The request is taken whole, so the socket is open. -/
theorem waiting_sent (hs : Counted b c) (hplace : c.place = .write) (hopen : c.s ∈ c.fds) :
    Waiting b { c with sent := c.sent + 1, place := .check } := by
  have hrounds := hs.rounds
  have hsent := hs.sent
  have hstale := hs.stale
  have hholds : c.holds = true := decide_eq_true hopen
  rw [forgiven_eq (by rw [hplace]; nofun), hplace] at hrounds
  rw [hplace] at hsent
  rw [unnoticed_held hholds] at hstale
  have hsent : c.speed + c.lost + 0 = c.sent := hsent
  exact
    { hs with
      rounds := hrounds
      sent := show c.speed + c.lost + 1 = c.sent + 1 by omega
      held := by
        show c.holds ∈ [true]
        rw [hholds]
        exact List.mem_cons_self
      stale := by
        rw [unnoticed_held (c := { c with sent := c.sent + 1, place := .check }) hholds]
        exact hstale
      holds := hholds
      waits := show c.speed + c.lost + 1 = c.sent + 1 by omega
      begun := hrounds
      noticed := hstale }

theorem counted_write {n : Int} (hs : Counted b c) (h : step b c (.write n) = some d) :
    Counted b d := by
  obtain ⟨⟨hplace, -, -, hclosed⟩, h⟩ := Option.ite_none_right_eq_some.mp h
  split at h
  · cases h
    split
    · next hkeep => exact counted_unsent hs hplace (if_pos hkeep).symm
    · next hkeep => exact counted_unsent hs hplace (if_neg hkeep).symm
  · next hwhole =>
    have hopen : c.s ∈ c.fds := by
      by_contra hnot
      have := hclosed hnot
      omega
    have hwaiting := waiting_sent hs hplace hopen
    have hawait : ({ c with sent := c.sent + 1, place := .check } : Child).await b =
        ({ c with sent := c.sent + 1 } : Child).await b := by
      unfold Child.await Child.finish
      split <;> rfl
    split at h
    · next hshut =>
      cases h
      exact counted_place hwaiting rfl rfl nofun (by rw [hshut.1]; decide)
    · cases h
      rw [← hawait]
      exact counted_await hwaiting

theorem counted_step (hs : Counted b c) (h : step b c a = some d) : Counted b d := by
  cases a with
  | alarm => exact counted_alarm hs h
  | socket answer => exact counted_socket hs h
  | test => exact counted_test hs h
  | write n => exact counted_write hs h
  | shutdown res => exact counted_shutdown hs h
  | check => exact counted_check hs h
  | read i => exact counted_read hs h
  | close res => exact counted_closing hs h

theorem counted_exec {as : List Action} (h : exec (step b) (Child.new b) as = some c) :
    Counted b c :=
  exec_invariant (fun _ _ _ hs _ h => counted_step hs h) (meets_true _ _) (counted_new b) h

/-! ### After the alarm -/

/-- The steps to the end, once the alarm has gone off. -/
def Place.left : Place → Nat
  | .done => 0
  | .test => 1
  | .dial | .close => 2
  | .check => 3
  | .read | .shutdown => 4
  | .write => 5
  | .connect => 6

/-- A `Socket` that returns -1. -/
def Action.fails : Action → Bool
  | .socket (.connected _) => false
  | .socket _ => true
  | _ => false

theorem left_finish (b : Bench) (c : Child) : (c.finish b).place.left ≤ 2 := by
  unfold Child.finish
  split
  · exact Nat.le_succ 1
  · exact Nat.le_refl 2

theorem left_await (b : Bench) (c : Child) : (c.await b).place.left ≤ 3 := by
  unfold Child.await
  split
  · exact (left_finish b c).trans (by decide)
  · exact Nat.le_refl 3

theorem expired_finish (b : Bench) (c : Child) : (c.finish b).timerexpired = c.timerexpired := by
  unfold Child.finish
  split <;> rfl

theorem expired_await (b : Bench) (c : Child) : (c.await b).timerexpired = c.timerexpired := by
  unfold Child.await
  split
  · exact expired_finish b c
  · rfl

/-- The child is nearer to its end, or `Socket` has failed in the loop at `dial`. -/
def Nearer (a : Action) (c d : Child) : Prop :=
  d.timerexpired ∧
    (d.place.left < c.place.left ∨ a.fails ∧ c.place = .dial ∧ d.place = .dial)

theorem nearer {p : Place} (q : Place) (hexpired : d.timerexpired) (hplace : c.place = p)
    (hd : d.place = q) (h : q.left < p.left) : Nearer a c d := by
  subst hplace hd
  exact ⟨hexpired, Or.inl h⟩

theorem nearer_finish {p : Place} {c' : Child} (hexpired : c'.timerexpired) (hplace : c.place = p)
    (h : 2 < p.left) : Nearer a c (c'.finish b) := by
  subst hplace
  exact ⟨(expired_finish b c').trans hexpired, Or.inl (Nat.lt_of_le_of_lt (left_finish b c') h)⟩

theorem nearer_await {p : Place} {c' : Child} (hexpired : c'.timerexpired) (hplace : c.place = p)
    (h : 3 < p.left) : Nearer a c (c'.await b) := by
  subst hplace
  exact ⟨(expired_await b c').trans hexpired, Or.inl (Nat.lt_of_le_of_lt (left_await b c') h)⟩

theorem fails_socket {answer : Dial} (hfresh : answer.Fresh c.fds)
    (h : (Socket c.fds answer).1 = -1) : (Action.socket answer).fails := by
  cases answer with
  | connected fd =>
      have hfd : fd = -1 := h
      exact absurd (hfd ▸ hfresh.1) (by decide)
  | _ => rfl

theorem nearer_step (hexpired : c.timerexpired) (h : step b c a = some d) : Nearer a c d := by
  cases a with
  | alarm =>
      obtain ⟨⟨-, hnot⟩, -⟩ := Option.ite_none_right_eq_some.mp h
      exact absurd (hnot.symm.trans hexpired) nofun
  | socket answer =>
      obtain ⟨⟨hplace, hfresh⟩, h⟩ := Option.ite_none_right_eq_some.mp h
      split at h
      · next hdial =>
        cases h
        split
        · next hfails => exact ⟨hexpired, Or.inr ⟨fails_socket hfresh hfails, hdial, hdial⟩⟩
        · exact nearer .test hexpired hdial rfl (by decide)
      · next hdial =>
        have hconnect := hplace.resolve_left hdial
        cases h
        split
        · exact nearer .test hexpired hconnect rfl (by decide)
        · exact nearer .write hexpired hconnect rfl (by decide)
  | test =>
      obtain ⟨hplace, h⟩ := Option.ite_none_right_eq_some.mp h
      rw [if_pos hexpired] at h
      cases h
      exact nearer .done hexpired hplace rfl (by decide)
  | write n =>
      obtain ⟨⟨hplace, -⟩, h⟩ := Option.ite_none_right_eq_some.mp h
      split at h
      · cases h
        split
        · exact nearer .dial hexpired hplace rfl (by decide)
        · exact nearer .test hexpired hplace rfl (by decide)
      · split at h
        · cases h
          exact nearer .shutdown hexpired hplace rfl (by decide)
        · cases h
          exact nearer_await hexpired hplace (by decide)
  | shutdown res =>
      obtain ⟨hplace, h⟩ := Option.ite_none_right_eq_some.mp h
      cases h
      split
      · exact nearer .test hexpired hplace rfl (by decide)
      · exact nearer_await hexpired hplace (by decide)
  | check =>
      obtain ⟨hplace, h⟩ := Option.ite_none_right_eq_some.mp h
      rw [if_pos hexpired] at h
      cases h
      exact nearer_finish hexpired hplace (by decide)
  | read i =>
      obtain ⟨⟨hplace, -⟩, h⟩ := Option.ite_none_right_eq_some.mp h
      split at h
      · cases h
        exact nearer .test hexpired hplace rfl (by decide)
      · split at h
        · cases h
          exact nearer_finish hexpired hplace (by decide)
        · cases h
          split
          · exact nearer_finish hexpired hplace (by decide)
          · exact nearer .check hexpired hplace rfl (by decide)
  | close res =>
      obtain ⟨hplace, h⟩ := Option.ite_none_right_eq_some.mp h
      cases h
      split <;> exact nearer .test hexpired hplace rfl (by decide)

theorem left_le (p : Place) : p.left ≤ 6 := by cases p <;> decide

theorem nearer_left (hexpired : c.timerexpired) (h : step b c a = some d) :
    d.timerexpired = true ∧ d.place.left ≤ c.place.left ∧
      ((!a.fails) = true → d.place.left < c.place.left) := by
  obtain ⟨hexpired, hless | ⟨hfails, hc, hd⟩⟩ := nearer_step hexpired h
  · exact ⟨hexpired, Nat.le_of_lt hless, fun _ => hless⟩
  · refine ⟨hexpired, by rw [hc, hd], fun hnot => ?_⟩
    rw [hfails] at hnot
    cases hnot

theorem exists_fresh (fds : List Int) : ∃ fd, (Dial.connected fd).Fresh fds := by
  obtain ⟨n, hn⟩ := Infinite.exists_notMem_finset (fds.map Int.toNat).toFinset
  refine ⟨n, Int.natCast_nonneg n, fun hmem => hn (List.mem_toFinset.mpr ?_)⟩
  exact List.mem_map.mpr ⟨n, hmem, Int.toNat_natCast n⟩

/-- There is a step that brings the child nearer to its end. -/
theorem exists_step (hexpired : c.timerexpired) (hdone : c.place ≠ .done) :
    ∃ a d, (!a.fails) = true ∧ step b c a = some d := by
  obtain ⟨fd, hfd⟩ := exists_fresh c.fds
  cases hplace : c.place with
  | dial =>
      exact ⟨.socket (.connected fd), _, rfl, (if_pos ⟨Or.inl hplace, hfd⟩).trans (if_pos hplace)⟩
  | test => exact ⟨.test, _, rfl, (if_pos hplace).trans (if_pos hexpired)⟩
  | connect =>
      have hdial : c.place ≠ .dial := by rw [hplace]; nofun
      exact ⟨.socket (.connected fd), _, rfl, (if_pos ⟨Or.inr hplace, hfd⟩).trans (if_neg hdial)⟩
  | write =>
      have hrlen : -1 ≤ (b.rlen : Int) ∧ (b.rlen : Int) ≠ -1 := by omega
      exact ⟨.write (-1), _, rfl,
        (if_pos ⟨hplace, Int.le_refl _, hrlen.1, fun _ => rfl⟩).trans (if_pos hrlen.2)⟩
  | shutdown => exact ⟨.shutdown 0, _, rfl, if_pos hplace⟩
  | check => exact ⟨.check, _, rfl, if_pos hplace⟩
  | read => exact ⟨.read 0, _, rfl, if_pos ⟨hplace, by decide⟩⟩
  | close => exact ⟨.close 0, _, rfl, if_pos hplace⟩
  | done => exact absurd hplace hdone

/-- Once the alarm has gone off there are no more than six steps to the end, but for what the
loop at `dial` makes, and they can be taken. -/
theorem ends_soon (hexpired : c.timerexpired) :
    (∀ (more : List Action) d, exec (step b) c more = some d →
      more.countP (fun a => !a.fails) ≤ 6) ∧
      ∃ more d, exec (step b) c more = some d ∧ d.place = .done := by
  have hstep : ∀ (c : Child) (a : Action) (d : Child), c.timerexpired = true →
      (!a.fails) = true → step b c a = some d →
        d.timerexpired = true ∧ d.place.left < c.place.left := by
    intro c a d hexpired hcounts h
    have hleft := nearer_left hexpired h
    exact ⟨hleft.1, hleft.2.2 hcounts⟩
  constructor
  · intro more d h
    have hcount := countP_le (fun _ _ _ hs h => nearer_left hs h) hexpired h
    have hle := left_le c.place
    omega
  · obtain ⟨more, d, -, hmore, hdone⟩ :=
      exists_exec hstep (fun _ hs hdone => exists_step hs hdone) hexpired
    exact ⟨more, d, hmore, hdone⟩

end

/-! ## `bench` -/

/-- A `long` that is printed with `%d`. -/
def printed (bytes : Nat) : Int := (BitVec.ofNat 32 bytes).toInt

/-- What a child writes to the pipe. -/
def Child.line (c : Child) : Bytes :=
  Decimal.decimal c.speed ++ 32 :: (Decimal.decimal c.failed ++
    32 :: (Decimal.decimal (printed c.bytes) ++ [10]))

/-- `%d`: the number, if there is one, and what comes after it.  It has to wait for more
(`none`) unless a byte is there that does not belong to the number. -/
def scanInt (pipe : Bytes) : Option (Option Int × Bytes) :=
  let s := pipe.dropWhile isspace
  let sign := if s.head? = some minus ∨ s.head? = some 43 then 1 else 0
  let len := sign + ((s.drop sign).takeWhile isdigit).length
  if s.length ≤ len then none
  else
    some (Decimal.read (if s.head? = some 43 then (s.take len).tail else s.take len), s.drop len)

/-- `fscanf` with so many `%d`: the numbers up to the first that is none. -/
def fscanf : Nat → Bytes → Option (List Int × Bytes)
  | 0, pipe => some ([], pipe)
  | n + 1, pipe => do
      let (v, rest) ← scanInt pipe
      match v with
      | none => some ([], rest)
      | some v => (fscanf n rest).map fun r => (v :: r.1, r.2)

/-- The variables of the parent. -/
structure Parent where
  speed : Int
  failed : Int
  bytes : Int
  i : Int
  j : Int
  k : Int
  deriving DecidableEq

inductive Outcome where
  /-- The parent waits for a line.  It has the write end of the pipe open itself, so the end
  of the children's lines is not the end of the file. -/
  | waits
  | died (p : Parent)
  | reports (p : Parent)
  deriving DecidableEq

/-- The sum of two `int`s; undefined when it is no `int`. -/
def addInt (a b : Int) : Option Int :=
  if -2 ^ 31 ≤ a + b ∧ a + b < 2 ^ 31 then some (a + b) else none

/-- The loop of the parent, with `clients + 1` lines to come. -/
def bench (clients : Nat) (p : Parent) (pipe : Bytes) : Option Outcome :=
  match fscanf 3 pipe with
  | none => some .waits
  | some (vs, rest) =>
      let p := { p with i := vs.getD 0 p.i, j := vs.getD 1 p.j, k := vs.getD 2 p.k }
      if vs.length < 2 then some (.died p)
      else do
        let speed ← addInt p.speed p.i
        let failed ← addInt p.failed p.j
        let p := { p with speed, failed, bytes := p.bytes + p.k }
        match clients with
        | 0 => some (.reports p)
        | clients + 1 => bench clients p rest

/-! ### One line -/

theorem isdigit_char : ∀ d < 10, isdigit (Decimal.char d) = true := by decide

/-- A numeral is a sign, or none, and digits. -/
theorem decimal_cases (v : Int) : ∃ sign ds : Bytes, Decimal.decimal v = sign ++ ds ∧
    (∀ b ∈ ds, isdigit b = true) ∧
      (sign = [minus] ∨ sign = [] ∧ ∃ d < 10, ds.head? = some (Decimal.char d)) := by
  have hall : ∀ b ∈ (Decimal.digits v.natAbs).reverse, ∃ d < 10, b = Decimal.char d :=
    fun b hb => Decimal.mem_digits (List.mem_reverse.mp hb)
  refine ⟨_, _, rfl, ?_, ?_⟩
  · intro b hb
    obtain ⟨d, hd, rfl⟩ := hall b hb
    exact isdigit_char d hd
  · split
    · exact Or.inl rfl
    · refine Or.inr ⟨rfl, ?_⟩
      cases hds : (Decimal.digits v.natAbs).reverse with
      | nil =>
          have hread := Decimal.readNat_digits v.natAbs
          rw [hds] at hread
          cases hread
      | cons b ds =>
          obtain ⟨d, hd, rfl⟩ := hall b (hds ▸ List.mem_cons_self)
          exact ⟨d, hd, rfl⟩

theorem takeWhile_digits {ds rest : Bytes} {b : UInt8} (hds : ∀ b ∈ ds, isdigit b = true)
    (hb : isdigit b = false) : (ds ++ b :: rest).takeWhile isdigit = ds := by
  rw [List.takeWhile_append_of_pos hds, List.takeWhile_cons_of_neg (by rw [hb]; nofun),
    List.append_nil]

/-- A number that has come whole is read. -/
theorem scanInt_decimal {lead rest : Bytes} {b : UInt8} (v : Int)
    (hlead : ∀ b ∈ lead, isspace b = true) (hb : isdigit b = false) :
    scanInt (lead ++ (Decimal.decimal v ++ b :: rest)) = some (some v, b :: rest) := by
  have hread : Decimal.read (Decimal.decimal v) = some v := (Decimal.numeral_iff.mpr rfl).reads
  obtain ⟨sign, ds, hv, hds, hsign⟩ := decimal_cases v
  rw [hv] at hread ⊢
  have hfirst : ∃ c s, sign ++ ds = c :: s ∧ isspace c = false ∧ c ≠ 43 ∧
      ((if c = minus then 1 else 0) = sign.length) := by
    rcases hsign with rfl | ⟨rfl, d, hd, hhead⟩
    · exact ⟨minus, ds, rfl, by decide, by decide, rfl⟩
    · obtain ⟨s, rfl⟩ := List.head?_eq_some_iff.mp hhead
      have hchar : ∀ d < 10, isspace (Decimal.char d) = false ∧ Decimal.char d ≠ 43 ∧
          Decimal.char d ≠ minus := by decide
      obtain ⟨hspace, hplus, hminus⟩ := hchar d hd
      exact ⟨_, s, rfl, hspace, hplus, if_neg hminus⟩
  obtain ⟨c, s, hs, hspace, hplus, hlength⟩ := hfirst
  have hskip : (lead ++ (sign ++ ds ++ b :: rest)).dropWhile isspace =
      sign ++ ds ++ b :: rest := by
    rw [List.dropWhile_append_of_pos hlead, hs]
    exact List.dropWhile_cons_of_neg (by rw [hspace]; nofun)
  have hhead : (sign ++ ds ++ b :: rest).head? = some c := by rw [hs]; rfl
  have hsome : (if some c = some minus ∨ some c = some (43 : UInt8) then 1 else 0) =
      sign.length := by
    rw [← hlength]
    simp [hplus]
  have hlen : sign.length + ((sign ++ ds ++ b :: rest).drop sign.length |>.takeWhile isdigit).length
      = (sign ++ ds).length := by
    rw [List.append_assoc, List.drop_left, takeWhile_digits hds hb, List.length_append]
  have hlonger : ¬(sign ++ ds ++ b :: rest).length ≤ (sign ++ ds).length := by simp
  rw [scanInt, hskip, hhead, hsome, hlen, if_neg hlonger, if_neg (by simpa using hplus),
    List.take_left, List.drop_left, hread]

theorem scanInt_blank {lead : Bytes} (hlead : ∀ b ∈ lead, isspace b = true) :
    scanInt lead = none := by
  have hskip : lead.dropWhile isspace = [] := by
    rw [← List.append_nil lead, List.dropWhile_append_of_pos hlead]
    rfl
  rw [scanInt, hskip]
  rfl

theorem fscanf_blank {lead : Bytes} (hlead : ∀ b ∈ lead, isspace b = true) :
    fscanf 3 lead = none := by
  rw [fscanf, scanInt_blank hlead]
  rfl

theorem fscanf_decimal {lead rest : Bytes} {b : UInt8} {n : Nat} (v : Int)
    (hlead : ∀ b ∈ lead, isspace b = true) (hb : isdigit b = false) :
    fscanf (n + 1) (lead ++ (Decimal.decimal v ++ b :: rest)) =
      (fscanf n (b :: rest)).map fun r => (v :: r.1, r.2) := by
  rw [fscanf, scanInt_decimal v hlead hb]
  rfl

/-- A line is read; its newline is skipped with the next one. -/
theorem fscanf_line {lead rest : Bytes} (c : Child) (hlead : ∀ b ∈ lead, isspace b = true) :
    fscanf 3 (lead ++ (c.line ++ rest)) =
      some ([(c.speed : Int), (c.failed : Int), printed c.bytes], 10 :: rest) := by
  have hblank : ∀ b ∈ ([32] : Bytes), isspace b = true := List.forall_mem_singleton.mpr rfl
  have hline : c.line ++ rest = Decimal.decimal c.speed ++ 32 :: (Decimal.decimal c.failed ++
      32 :: (Decimal.decimal (printed c.bytes) ++ 10 :: rest)) := by
    simp [Child.line]
  rw [hline, fscanf_decimal _ hlead (by decide)]
  have hfailed : fscanf 2 (32 :: (Decimal.decimal c.failed ++
      32 :: (Decimal.decimal (printed c.bytes) ++ 10 :: rest))) = _ :=
    fscanf_decimal _ hblank (by decide)
  have hbytes : fscanf 1 (32 :: (Decimal.decimal (printed c.bytes) ++ 10 :: rest)) = _ :=
    fscanf_decimal _ hblank (by decide)
  rw [hfailed, hbytes]
  rfl

/-! ### All lines -/

/-- The parent has read a line. -/
def Parent.heard (p : Parent) (c : Child) : Parent where
  speed := p.speed + c.speed
  failed := p.failed + c.failed
  bytes := p.bytes + printed c.bytes
  i := c.speed
  j := c.failed
  k := printed c.bytes

/-- The sums of the parent are `int`s, even with what these children print. -/
structure Parent.Fits (p : Parent) (cs : List Child) : Prop where
  speed : 0 ≤ p.speed ∧ p.speed + (cs.map Child.speed).sum < 2 ^ 31
  failed : 0 ≤ p.failed ∧ p.failed + (cs.map Child.failed).sum < 2 ^ 31

theorem Parent.Fits.heard {p : Parent} {cs : List Child} (h : p.Fits (c :: cs)) :
    addInt p.speed c.speed = some (p.heard c).speed ∧
      addInt p.failed c.failed = some (p.heard c).failed ∧ (p.heard c).Fits cs := by
  obtain ⟨⟨hspeed, hspeeds⟩, hfailed, hfaileds⟩ := h
  rw [List.map_cons, List.sum_cons] at hspeeds hfaileds
  have hnext : 0 ≤ p.speed + c.speed ∧ p.speed + c.speed + (cs.map Child.speed).sum < 2 ^ 31 ∧
      0 ≤ p.failed + c.failed ∧ p.failed + c.failed + (cs.map Child.failed).sum < 2 ^ 31 := by
    omega
  exact ⟨if_pos ⟨by omega, by omega⟩, if_pos ⟨by omega, by omega⟩, ⟨hnext.1, hnext.2.1⟩,
    hnext.2.2⟩

theorem bench_waits {clients : Nat} {p : Parent} {pipe : Bytes} (h : fscanf 3 pipe = none) :
    bench clients p pipe = some .waits := by
  rw [bench.eq_def, h]

theorem bench_heard {clients : Nat} {p : Parent} {pipe rest : Bytes}
    (h : fscanf 3 pipe = some ([(c.speed : Int), (c.failed : Int), printed c.bytes], rest))
    (hspeed : addInt p.speed c.speed = some (p.heard c).speed)
    (hfailed : addInt p.failed c.failed = some (p.heard c).failed) :
    bench clients p pipe = match clients with
      | 0 => some (.reports (p.heard c))
      | clients + 1 => bench clients (p.heard c) rest := by
  rw [bench.eq_def, h]
  simp only [List.getD_cons_zero, List.getD_cons_succ]
  rw [if_neg (by simp), hspeed, hfailed]
  rfl

/-- The parent reads the lines in their order, and waits when there are fewer of them than
there are clients. -/
theorem bench_lines {cs : List Child} : ∀ {clients : Nat} {p : Parent} {lead : Bytes},
    (∀ b ∈ lead, isspace b = true) → cs.length ≤ clients + 1 → p.Fits cs →
      bench clients p (lead ++ cs.flatMap Child.line) =
        some (if cs.length ≤ clients then .waits else .reports (cs.foldl Parent.heard p)) := by
  induction cs with
  | nil =>
      intro clients p lead hlead _ _
      rw [List.flatMap_nil, List.append_nil, bench_waits (fscanf_blank hlead)]
      rfl
  | cons c cs ih =>
      intro clients p lead hlead hlength hfits
      obtain ⟨hspeed, hfailed, hfits⟩ := hfits.heard
      rw [List.length_cons] at hlength
      rw [List.flatMap_cons, bench_heard (fscanf_line c hlead) hspeed hfailed, List.foldl_cons,
        List.length_cons]
      cases clients with
      | zero =>
          obtain rfl : cs = [] := List.length_eq_zero_iff.mp (by omega)
          rfl
      | succ clients =>
          have hblank : ∀ b ∈ ([10] : Bytes), isspace b = true :=
            List.forall_mem_singleton.mpr rfl
          have hrest := ih hblank (Nat.le_of_succ_le_succ hlength) hfits
          simp only [Nat.add_le_add_iff_right]
          exact hrest

/-! ### The report -/

theorem heard_sums (cs : List Child) : ∀ p : Parent,
    (cs.foldl Parent.heard p).speed = p.speed + (cs.map Child.speed).sum ∧
      (cs.foldl Parent.heard p).failed = p.failed + (cs.map Child.failed).sum ∧
      (cs.foldl Parent.heard p).bytes = p.bytes + (cs.map fun c => printed c.bytes).sum := by
  induction cs with
  | nil => exact fun p => ⟨by simp, by simp, by simp⟩
  | cons c cs ih =>
      intro p
      obtain ⟨hspeed, hfailed, hbytes⟩ := ih (p.heard c)
      rw [List.foldl_cons, hspeed, hfailed, hbytes]
      simp only [Parent.heard, List.map_cons, List.sum_cons]
      omega

/-- A child of `webbench` whose `benchcore` has returned. -/
def Finished (b : Bench) (c : Child) : Prop :=
  Reachable (step b) (Child.new b) c ∧ c.place = .done

variable {b : Bench}

theorem Finished.counted {c : Child} (h : Finished b c) : Counted b c := by
  obtain ⟨⟨as, has⟩, -⟩ := h
  exact counted_exec has

theorem Finished.rounds {c : Child} (h : Finished b c) :
    c.speed + c.failed + (if c.speed < c.rounds then 1 else 0) = c.rounds := by
  have hrounds := h.counted.rounds
  rw [Child.forgiven, h.2] at hrounds
  simpa [Place.begun] using hrounds

theorem Finished.sent {c : Child} (h : Finished b c) : c.speed + c.lost = c.sent := by
  have hsent := h.counted.sent
  rwa [h.2] at hsent

/-- The rounds and the requests of all children. -/
theorem sums_finished {cs : List Child} (h : ∀ c ∈ cs, Finished b c) :
    (cs.map Child.speed).sum + (cs.map Child.failed).sum +
        cs.countP (fun c => c.speed < c.rounds) = (cs.map Child.rounds).sum ∧
      (cs.map Child.speed).sum + (cs.map Child.lost).sum = (cs.map Child.sent).sum := by
  induction cs with
  | nil => exact ⟨rfl, rfl⟩
  | cons c cs ih =>
      obtain ⟨hc, hcs⟩ := List.forall_mem_cons.mp h
      obtain ⟨hrounds, hsent⟩ := ih hcs
      have hone := hc.rounds
      have htwo := hc.sent
      simp only [List.map_cons, List.sum_cons, List.countP_cons, decide_eq_true_eq]
      omega

/-- Without `--keep` a child has closed every socket it was connected with, once; with it, it
has written to a closed one after each lost connection but the last. -/
theorem Finished.sockets {c : Child} (h : Finished b c) :
    if b.keep_alive then c.stale ≤ c.lost ∧ c.lost ≤ c.stale + 1
    else c.stale = 0 ∧ c.fds = c.leaks := by
  have hs := h.counted
  have hheld := hs.held
  have hstale := hs.stale
  have hfds := hs.fds
  rw [h.2] at hheld
  cases hkeep : b.keep_alive with
  | true =>
      have hle : c.unnoticed ≤ 1 := by
        unfold Child.unnoticed
        split <;> decide
      rw [hkeep, if_pos rfl] at hstale
      rw [if_pos rfl]
      omega
  | false =>
      rw [hkeep] at hheld hstale
      rw [List.mem_singleton.mp hheld] at hfds
      exact ⟨hstale, hfds⟩

/-- What the report of `bench` is worth.  The lines of the children come in any order, each of
them at once; their counters are `int`s. -/
theorem tallied {cs : List Child} {clients : Nat} {p : Parent}
    (hp : p.speed = 0 ∧ p.failed = 0 ∧ p.bytes = 0) (hcs : ∀ c ∈ cs, Finished b c)
    (hclients : cs.length ≤ clients + 1) (hfits : (cs.map Child.rounds).sum < 2 ^ 31) :
    (if cs.length ≤ clients then bench clients p (cs.flatMap Child.line) = some .waits
    else ∃ q, bench clients p (cs.flatMap Child.line) = some (.reports q) ∧
      q.speed + q.failed + cs.countP (fun c => c.speed < c.rounds) = (cs.map Child.rounds).sum ∧
      q.speed + (cs.map Child.lost).sum = (cs.map Child.sent).sum ∧
      q.bytes = (cs.map fun c => printed c.received).sum) ∧
    (∀ c ∈ cs, if b.keep_alive then c.stale ≤ c.lost ∧ c.lost ≤ c.stale + 1
      else c.stale = 0 ∧ c.fds = c.leaks) ∧
    ∀ c : Child, c.timerexpired →
      (∀ (more : List Action) d, exec (step b) c more = some d →
        more.countP (fun a => !a.fails) ≤ 6) ∧
        ∃ more d, exec (step b) c more = some d ∧ d.place = .done := by
  obtain ⟨hspeed, hfailed, hbytes⟩ := hp
  obtain ⟨hrounds, hsent⟩ := sums_finished hcs
  refine ⟨?_, fun c hc => (hcs c hc).sockets, fun c => ends_soon⟩
  have hfit : p.Fits cs := ⟨by omega, by omega⟩
  have hlines := bench_lines (List.forall_mem_nil _) hclients hfit
  rw [List.nil_append] at hlines
  split
  · next hfew => rw [hlines, if_pos hfew]
  · next hall =>
    obtain ⟨hspeeds, hfaileds, hbytess⟩ := heard_sums cs p
    refine ⟨_, hlines.trans (by rw [if_neg hall]), ?_, ?_, ?_⟩
    · omega
    · omega
    · rw [hbytess, hbytes, Int.zero_add]
      exact congrArg List.sum (List.map_congr_left fun c hc => by rw [(hcs c hc).counted.bytes])

/-- Two children that stay on their connections.  The first loses its own when the alarm has
nearly gone off; the other has to connect twice. -/
theorem tallied_two : ∃ c d : Child, Finished ⟨true, false, 1, 40⟩ c ∧
    Finished ⟨true, false, 1, 40⟩ d ∧ c.rounds = 2 ∧ d.rounds = 1 ∧
    ∃ q, bench 1 ⟨0, 0, 0, 0, 0, 0⟩ ([c, d].flatMap Child.line) = some (.reports q) ∧
      q.speed = 2 ∧ q.failed = 0 ∧ q.bytes = 1500 := by
  let b : Bench := ⟨true, false, 1, 40⟩
  let c : Child := ⟨.done, 5, true, 1, 0, 1500, [], [], 2, 2, 1, 0, 1500⟩
  let d : Child := ⟨.done, 6, true, 1, 0, 0, [6, 5], [5], 1, 1, 0, 0, 0⟩
  have hc : Finished b c := ⟨⟨[.socket (.connected 5), .test, .write 40, .check, .read 1500, .test,
    .write 40, .check, .read (-1), .alarm, .test], by decide⟩, rfl⟩
  have hd : Finished b d := ⟨⟨[.socket (.refused 5), .socket (.connected 6), .test, .write 40,
    .alarm, .check, .test], by decide⟩, rfl⟩
  have hcs : ∀ x ∈ [c, d], Finished b x :=
    List.forall_mem_cons.mpr ⟨hc, List.forall_mem_singleton.mpr hd⟩
  have hclients : [c, d].length ≤ 1 + 1 := by decide
  have hall := tallied (p := ⟨0, 0, 0, 0, 0, 0⟩) ⟨rfl, rfl, rfl⟩ hcs hclients (by decide)
  obtain ⟨q, hq, hrounds, hsent, hbytes⟩ := hall.1
  have hsums : [c, d].countP (fun c => c.speed < c.rounds) = 1 ∧
      ([c, d].map Child.rounds).sum = 3 ∧ ([c, d].map Child.lost).sum = 1 ∧
      ([c, d].map Child.sent).sum = 3 := by decide
  rw [hsums.1, hsums.2.1] at hrounds
  rw [hsums.2.2.1, hsums.2.2.2] at hsent
  exact ⟨c, d, hc, hd, rfl, rfl, q, hq, by omega, by omega, hbytes.trans (by decide +kernel)⟩

end WebBench

end WebServer

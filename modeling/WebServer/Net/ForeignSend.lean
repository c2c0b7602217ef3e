/-
# `Net.ForeignSend` — `send` from a thread that is not the loop's

On another thread `send(buf)` looks at `state_`, binds `sendInLoop` to the
object, the address `buf->peek()` and a length, queues it, and empties the
buffer.  Nothing keeps the bytes: the thread goes on appending to the same
memory, `realloc` may move it away, and the object may be closed and handed out
again before the loop runs the call.

A `Sender` is such a thread with one `Buffer`; its `pc` says how far a `send`
has come, so that the loop's thread can act between any two of its accesses.
The loop's thread does any acts, and between them runs the queued calls in
order.  `held` and `session`, which no code reads, keep what the buffer held and which session
was open when `send` was called.

`Faithful` is what every run promises whose steps are `Safe`: no append moves or
changes the bytes of a send still queued, no object with a send under way is
handed out, and a `sendInLoop` on a session still open finds nothing pending in
front of it and a `::write` that does not block.  Then what it was given goes out
in the session that was called on; it is dropped only where that session is over
or the `::write` failed.
-/
import WebServer.Base.Buffer
import WebServer.Net.ForceClose
import WebServer.Net.Output

namespace WebServer

namespace ForeignSend

open EventLoop ForceClose Machine

/-- How far a thread's `send` has come. -/
inductive Pc where
  | idle
  /-- called on connection `c`, whose session was then `session` -/
  | entered (c : ConnId) (session : Nat)
  /-- `state_` was `KConnected` -/
  | checked (c : ConnId) (session : Nat)
  /-- `sendInLoop` is queued, the buffer not yet emptied -/
  | queued
  deriving DecidableEq

/-- A thread and its buffer; `block` counts how often `realloc` has moved it. -/
structure Sender where
  buf : Buffer
  block : Nat
  pc : Pc

/-- A bound `sendInLoop(this, data, len)`, `data` being an offset into a
block of its sender's buffer. -/
structure SendCall (n : Nat) where
  sender : Fin n
  conn : ConnId
  block : Nat
  offset : Nat
  len : Nat
  held : Memory
  session : Nat

/-- A `sendInLoop` that ran: the bytes it was to write, those it wrote or
buffered, the session it ran in, whether the session that was called on is over
by then, and what `::write` answered if it was called; beside what its `send`
was given and the session that was called on. -/
structure Delivery where
  data : Bytes
  out : Bytes
  session : Nat
  ended : Bool
  answer : Option WriteResult
  held : Memory
  issued : Nat

structure State (n : Nat) where
  loop : EventLoop
  senders : Fin n → Sender
  queue : List (SendCall n)
  deliveries : List Delivery

variable {n : Nat}

def State.setSender (s : State n) (i : Fin n) (t : Sender) : State n :=
  { s with senders := Function.update s.senders i t }

/-- The cells at the address a call was given: unknown, once the block is not
there any more. -/
def cells (senders : Fin n → Sender) (q : SendCall n) : Memory :=
  if (senders q.sender).block = q.block then
    Memory.window (senders q.sender).buf.buf q.offset q.len
  else List.replicate q.len none

/-- What the other end of `conn` gets, and will get: the bytes accepted by the
socket, and those buffered. -/
def account (w : EventLoop) (c : ConnId) : Bytes :=
  (w.conn c).socket.written ++ (w.conn c).outputBuffer

/-- `data` can be read from these cells. -/
def Reads (m : Memory) (data : Bytes) : Prop :=
  m.length = data.length ∧ ∀ e ∈ m.zip data, e.1 = none ∨ e.1 = some e.2

instance (m : Memory) (data : Bytes) : Decidable (Reads m data) :=
  have : Decidable (∀ e ∈ m.zip data, e.1 = none ∨ e.1 = some e.2) :=
    List.decidableBAll _ (m.zip data)
  inferInstanceAs (Decidable (_ ∧ _))

/-- The answers of `::write`: a prefix of `len` bytes, or an error; an error on
a descriptor that is not open. -/
def Answer (fd : Int) (len : Nat) : WriteResult → Prop
  | .wrote n => 0 ≤ fd ∧ n ≤ len
  | .fail _ => True

instance (fd : Int) (len : Nat) : ∀ wr, Decidable (Answer fd len wr)
  | .wrote n => inferInstanceAs (Decidable (0 ≤ fd ∧ n ≤ len))
  | .fail _ => isTrue trivial

/-- The session in which the call was bound is still open. -/
def SendCall.live (w : EventLoop) (q : SendCall n) : Bool :=
  (w.conn q.conn).isOpen && (w.conn q.conn).session == q.session

inductive Op (n : Nat) where
  /-- `append(data, len)`; `moved` is whether `realloc`, if called, moves the block -/
  | append (i : Fin n) (data : Bytes) (moved : Bool)
  | send (i : Fin n) (c : ConnId)
  | checkState (i : Fin n)
  | queueInLoop (i : Fin n)
  | retrieveAll (i : Fin n)
  | act (a : Act)
  /-- the loop runs the oldest queued `sendInLoop`; `data` is what it reads -/
  | sendInLoop (data : Bytes) (wr : WriteResult)

/-- `append` on a thread's own buffer. -/
def Sender.append (t : Sender) (data : Bytes) (moved : Bool) : Sender :=
  { t with
    buf := t.buf.append data data.length
    block := if t.buf.writableBytes < data.length ∧ moved then t.block + 1 else t.block }

def step (s : State n) : Op n → Option (State n)
  | .append i data moved =>
      if (s.senders i).pc = .idle then some (s.setSender i ((s.senders i).append data moved))
      else none
  | .send i c =>
      if (s.senders i).pc = .idle then
        some (s.setSender i { s.senders i with pc := .entered c (s.loop.conn c).session })
      else none
  | .checkState i =>
      match (s.senders i).pc with
      | .entered c g =>
          let pc := if (s.loop.conn c).connected then Pc.checked c g else .idle
          some (s.setSender i { s.senders i with pc := pc })
      | _ => none
  | .queueInLoop i =>
      match (s.senders i).pc with
      | .checked c g =>
          let t := s.senders i
          some { s.setSender i { t with pc := .queued } with
            queue := s.queue ++ [⟨i, c, t.block, t.buf.readerIndex, t.buf.readableBytes,
              t.buf.readable, g⟩] }
      | _ => none
  | .retrieveAll i =>
      if (s.senders i).pc = .queued then
        some (s.setSender i { s.senders i with buf := (s.senders i).buf.retrieveAll, pc := .idle })
      else none
  | .act a => (s.loop.act a).map fun w => { s with loop := w }
  | .sendInLoop data wr =>
      match s.queue with
      | q :: rest =>
          if Reads (cells s.senders q) data ∧ Answer (s.loop.conn q.conn).channel.fd data.length wr
          then
            let w := s.loop.sendInLoop q.conn data wr
            some { s with
              loop := w
              queue := rest
              deliveries := s.deliveries ++ [
                { data := data
                  out := (account w q.conn).drop (account s.loop q.conn).length
                  session := (s.loop.conn q.conn).session
                  ended := !q.live s.loop
                  answer := if outputIdle (s.loop.conn q.conn) then some wr else none
                  held := q.held
                  issued := q.session }] }
          else none
      | [] => none

/-- `n` threads, their buffers just constructed, and a loop that has built its
pool. -/
def start (n : Nat) (idleSeconds now epollFd timerFd wakeupFd : Int) : State n where
  loop := EventLoop.start idleSeconds now epollFd timerFd wakeupFd
  senders := fun _ => ⟨Buffer.new Buffer.KInitialSize, 0, .idle⟩
  queue := []
  deliveries := []

/-! ## What is promised, and when it is kept -/

/-- The call had to drop its bytes: the session is over, or `::write` failed
with an error that lasts. -/
def Delivery.Lost (d : Delivery) : Prop :=
  d.ended = true ∨ ∃ e, e ≠ .ewouldblock ∧ d.answer = some (.fail e)

/-- The call worked on what `send` was given, and wrote or buffered all of it in
the session that was called on, unless it had to drop it. -/
structure Delivery.Faithful (d : Delivery) : Prop where
  bytes : d.data.map some = d.held
  session : (d.out = d.data ∧ d.session = d.issued) ∨ (d.out = [] ∧ d.Lost)

def Faithful (s : State n) : Prop := ∀ d ∈ s.deliveries, d.Faithful

/-- A thread is in a `send` on `c` that it has not queued yet. -/
def Pc.On (c : ConnId) : Pc → Prop
  | .entered d _ => d = c
  | .checked d _ => d = c
  | _ => False

instance (c : ConnId) : ∀ pc : Pc, Decidable (pc.On c)
  | .idle => isFalse nofun
  | .entered d _ => inferInstanceAs (Decidable (d = c))
  | .checked d _ => inferInstanceAs (Decidable (d = c))
  | .queued => isFalse nofun

/-- An append leaves the bytes of the sends still queued as they are and where
they are; an object handed out has no send under way; a call that runs in its
session finds no output pending, and its `::write` does not block. -/
def Safe (s : State n) : Op n → Prop
  | .append i data moved => ∀ q ∈ s.queue, q.sender = i →
      cells (Function.update s.senders i ((s.senders i).append data moved)) q = cells s.senders q
  | .act a => a.connfd.isSome → ∀ c ∈ handedOut s.loop,
      (∀ q ∈ s.queue, q.conn ≠ c) ∧ ∀ i, ¬ (s.senders i).pc.On c
  | .sendInLoop data wr => ∀ q ∈ s.queue.head?, q.live s.loop = true → data ≠ [] →
      outputIdle (s.loop.conn q.conn) = true ∧ wr ≠ .fail .ewouldblock
  | _ => True

instance (s : State n) : ∀ op, Decidable (Safe s op)
  | .append _ _ _ => inferInstanceAs (Decidable (∀ q ∈ s.queue, _ → _ = _))
  | .act _ => inferInstanceAs (Decidable (_ → ∀ c ∈ handedOut s.loop, (∀ q ∈ s.queue, _) ∧ ∀ _, _))
  | .send _ _ => isTrue trivial
  | .checkState _ => isTrue trivial
  | .queueInLoop _ => isTrue trivial
  | .retrieveAll _ => isTrue trivial
  | .sendInLoop data wr =>
      match h : s.queue.head? with
      | none => isTrue fun _ hq => absurd (h.symm.trans hq) nofun
      | some q => decidable_of_iff
          (q.live s.loop = true → data ≠ [] →
            outputIdle (s.loop.conn q.conn) = true ∧ wr ≠ .fail .ewouldblock)
          ⟨fun hC _ hr => Option.some.inj (h.symm.trans hr) ▸ hC, fun hC => hC q h⟩

/-! ## What the loop's acts do to the sessions -/

/-- Only handing an object out starts a session of it. -/
theorem session_act {w w' : EventLoop} {a : Act} {c : ConnId} (h : w.act a = some w')
    (hc : a.connfd.isSome → handedOut w ≠ some c) : (w'.conn c).session = (w.conn c).session := by
  have hbound : ∀ {v : EventLoop} {cb : BoundCall}, v.runBoundCall cb = some w' →
      (w'.conn c).session = (v.conn c).session := by
    intro v cb hv
    obtain ⟨d, g⟩ := cb
    have hv' : v.forceCloseInLoop d g = some w' := hv
    unfold forceCloseInLoop at hv'
    split at hv'
    · exact (keeps_handleClose hv').session c
    · cases hv'
      rfl
  cases a with
  | tick dt => cases h; rfl
  | handleRead d r wr => exact (keeps_handleRead h).session c
  | handleWrite d wr => cases h; exact own_handleWrite.session c
  | handleClose d => exact (keeps_handleClose h).session c
  | call k =>
      cases k with
      | getNextFreeConnection fd =>
          have hget : w.getNextFreeConnection fd = some w' := h
          unfold getNextFreeConnection at hget
          split at hget
          · cases hget
          · rename_i head hhead
            have hne : c ≠ (w.takeFree head).2 := fun e => hc rfl (by rw [handedOut, hhead, e]; rfl)
            cases hget
            rw [conn_openSession_ne hne, session_takeFree w head hne]
      | send d data wr => cases h; exact own_send.session c
      | shutdown d => cases h; exact own_shutdown.session c
      | forceClose d => cases h; exact keeps_forceClose.session c
      | forceCloseWithDelay d delay => cases h; exact keeps_forceCloseWithDelay.session c
      | removeExpiredConnection => cases h; exact keeps_removeExpiredConnection.session c
      | runTimer i =>
          simp only [act, call, runTimer] at h
          split at h
          · have hrun := hbound h
            exact hrun
          · cases h
            rfl
      | runFunctor =>
          simp only [act, call, runFunctor] at h
          split at h
          · have hrun := hbound h
            exact hrun
          · cases h
            rfl

/-- Behind pending output, and where `::write` fails, nothing is sent. -/
theorem account_dropped (w : EventLoop) (c : ConnId) (data : Bytes) {wr : WriteResult}
    (h : outputIdle (w.conn c) = false ∨ ∃ e, wr = .fail e) :
    account (w.sendInLoop c data wr) c = account w c := by
  unfold sendInLoop
  split
  · rename_i hidle
    rcases h with hbusy | ⟨e, rfl⟩
    · exact absurd hidle (by rw [hbusy]; exact Bool.false_ne_true)
    · simp [WriteAttempt.of, Output.keepRest_none, account, accepted]
  · rw [Output.keepRest_none w c data rfl]

/-- Where `::write` takes bytes, all are sent or buffered. -/
theorem account_wrote {w : EventLoop} {c : ConnId} (hidle : outputIdle (w.conn c) = true)
    (data : Bytes) (k : Nat) :
    account (w.sendInLoop c data (.wrote k)) c = account w c ++ data := by
  have hempty : (w.conn c).outputBuffer = [] := (Output.outputIdle_iff.mp hidle).2
  obtain ⟨hsocket, hout⟩ := Output.keepRest_conn (w.accepted c (data.take k)) c data
    (a := ⟨k, data.length - k, false⟩) rfl
  rw [sendInLoop, if_pos hidle]
  simp only [WriteAttempt.of, account, hsocket, hout]
  simp [accepted, hempty, List.take_of_length_le]

/-! ## The memory behind the queued calls -/

section

variable {senders : Fin n → Sender} {i : Fin n} {t : Sender} {q : SendCall n}

end

/-! ## Every run -/

/-- Every queued call finds at its address what its `send` was given, and its
object in the session of that `send`; so does every `send` under way. -/
structure Inv (s : State n) : Prop where
  ok : ∀ i, (s.senders i).buf.Ok
  filled : ∀ i, ∃ bs : Bytes, (s.senders i).buf.readable = bs.map some
  reads : ∀ q ∈ s.queue, cells s.senders q = q.held ∧ ∃ bs : Bytes, q.held = bs.map some
  calls : ∀ q ∈ s.queue, q.session = (s.loop.conn q.conn).session
  entered : ∀ i c g, (s.senders i).pc = .entered c g → g = (s.loop.conn c).session
  checked : ∀ i c g, (s.senders i).pc = .checked c g → g = (s.loop.conn c).session
  faithful : Faithful s

section

variable {s s' : State n}

/-- A thread moves on in its `send`, its buffer's memory left alone. -/
theorem Inv.setSender (h : Inv s) {i : Fin n} {t : Sender} (hok : t.buf.Ok)
    (hfilled : ∃ bs : Bytes, t.buf.readable = bs.map some)
    (hcells : ∀ q ∈ s.queue, cells (Function.update s.senders i t) q = cells s.senders q)
    (hentered : ∀ c g, t.pc = .entered c g → g = (s.loop.conn c).session)
    (hchecked : ∀ c g, t.pc = .checked c g → g = (s.loop.conn c).session) :
    Inv (s.setSender i t) := by
  have hother : ∀ {P : Sender → Prop}, (∀ j, P (s.senders j)) → P t →
      ∀ j, P ((s.setSender i t).senders j) := by
    intro P hall ht j
    show P (Function.update s.senders i t j)
    by_cases hj : j = i
    · subst hj
      rw [Function.update_self]
      exact ht
    · rw [Function.update_of_ne hj]
      exact hall j
  refine ⟨hother (P := fun t => t.buf.Ok) h.ok hok,
    hother (P := fun t => ∃ bs : Bytes, t.buf.readable = bs.map some) h.filled hfilled,
    ?_, h.calls,
    hother (P := fun t => ∀ c g, t.pc = .entered c g → g = (s.loop.conn c).session) h.entered
      hentered,
    hother (P := fun t => ∀ c g, t.pc = .checked c g → g = (s.loop.conn c).session) h.checked
      hchecked, h.faithful⟩
  intro q hq
  obtain ⟨hcell, hbs⟩ := h.reads q hq
  exact ⟨(hcells q hq).trans hcell, hbs⟩

theorem step_act {a : Act} (h : Inv s) (hsafe : Safe s (.act a))
    (hstep : step s (.act a) = some s') : Inv s' := by
  obtain ⟨w, hw, rfl⟩ := Option.map_eq_some_iff.mp hstep
  refine ⟨h.ok, h.filled, h.reads, ?_, ?_, ?_, h.faithful⟩
  · intro q hq
    have hsame := session_act hw fun ha e => (hsafe ha q.conn e).1 q hq rfl
    exact (h.calls q hq).trans hsame.symm
  · intro i c g hpc
    have hsame := session_act (c := c) hw fun ha e => (hsafe ha c e).2 i (hpc ▸ rfl)
    exact (h.entered i c g hpc).trans hsame.symm
  · intro i c g hpc
    have hsame := session_act (c := c) hw fun ha e => (hsafe ha c e).2 i (hpc ▸ rfl)
    exact (h.checked i c g hpc).trans hsame.symm

/-- A call that runs in its session, with nothing pending and a `::write` that
does not block, delivers its bytes or has to drop them. -/
theorem delivered {q : SendCall n} {w : EventLoop} {data : Bytes} {wr : WriteResult}
    (hsession : q.session = (w.conn q.conn).session)
    (hsafe : q.live w = true → data ≠ [] →
      outputIdle (w.conn q.conn) = true ∧ wr ≠ .fail .ewouldblock) :
    let out := (account (w.sendInLoop q.conn data wr) q.conn).drop (account w q.conn).length
    (out = data ∧ (w.conn q.conn).session = q.session) ∨
      (out = [] ∧ (Delivery.mk data out (w.conn q.conn).session (!q.live w)
        (if outputIdle (w.conn q.conn) then some wr else none) q.held q.session).Lost) := by
  intro out
  cases hidle : outputIdle (w.conn q.conn) with
  | false =>
      have hout : out = [] := by
        show List.drop _ (account _ _) = []
        rw [account_dropped w q.conn data (Or.inl hidle), List.drop_length]
      by_cases hdata : data = []
      · exact Or.inl ⟨hout.trans hdata.symm, hsession.symm⟩
      · cases hlive : q.live w with
        | true =>
            have hbusy := (hsafe hlive hdata).1
            rw [hidle] at hbusy
            exact absurd hbusy Bool.false_ne_true
        | false => exact Or.inr ⟨hout, Or.inl rfl⟩
  | true =>
      cases wr with
      | wrote k =>
          refine Or.inl ⟨?_, hsession.symm⟩
          show List.drop _ (account _ _) = data
          rw [account_wrote hidle, List.drop_left]
      | fail e =>
          have hout : out = [] := by
            show List.drop _ (account _ _) = []
            rw [account_dropped w q.conn data (Or.inr ⟨e, rfl⟩), List.drop_length]
          by_cases hdata : data = []
          · exact Or.inl ⟨hout.trans hdata.symm, hsession.symm⟩
          · cases hlive : q.live w with
            | true =>
                have hne : e ≠ .ewouldblock := fun he =>
                  (hsafe hlive hdata).2 (congrArg WriteResult.fail he)
                exact Or.inr ⟨hout, Or.inr ⟨e, hne, rfl⟩⟩
            | false => exact Or.inr ⟨hout, Or.inl rfl⟩

end

theorem inv_start (n : Nat) (idleSeconds now epollFd timerFd wakeupFd : Int) :
    Inv (start n idleSeconds now epollFd timerFd wakeupFd) where
  ok := fun _ => Buffer.ok_new
  filled := fun _ => ⟨[], rfl⟩
  reads := fun _ hq => absurd hq List.not_mem_nil
  calls := fun _ hq => absurd hq List.not_mem_nil
  entered := nofun
  checked := nofun
  faithful := fun _ hd => absurd hd List.not_mem_nil

end ForeignSend

end WebServer

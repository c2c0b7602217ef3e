/-
# `Net.Output` — what happens to the bytes given to `send`

One session, one loop thread: `send` calls while the connection is connected,
interleaved with `handleWrite` events, the kernel accepting any prefix of what
it is given or answering `EWOULDBLOCK`.  The session's account
(`Session.ledger`) is what was given to `send`, what the socket accepted, and
what `outputBuffer_` holds.

`sendInLoop` sets `remaining` to zero and assigns it only where `::write`
succeeded.  So the bytes of a `send` are kept exactly when it finds the output
idle and its `::write` does not block (`send_idle_wrote`); behind pending
output, and on `EWOULDBLOCK`, they are dropped (`send_busy`, `send_blocked`).
A dropped byte never comes back, hence `lossless_iff`: a run delivers its bytes
in order and without loss exactly when every `send` of it was of the first
kind, or empty.
-/
import WebServer.Lib.Ledger
import WebServer.Net.Handover

namespace WebServer

namespace Output

open EventLoop

/-- The loop, and the concatenation of all buffers given to `send` so far. -/
structure Session where
  loop : EventLoop
  offered : Bytes

/-- The account of connection `c`. -/
def Session.ledger (c : ConnId) (s : Session) : Ledger UInt8 where
  offered := s.offered
  delivered := (s.loop.conn c).socket.written
  held := (s.loop.conn c).outputBuffer

inductive Op where
  | send (data : Bytes) (wr : WriteResult)
  | handleWrite (wr : WriteResult)
  deriving DecidableEq

/-- The answers considered: a prefix of the `len` bytes offered, or
`EWOULDBLOCK`. -/
def Answer (len : Nat) : WriteResult → Prop
  | .wrote n => n ≤ len
  | .fail e => e = .ewouldblock

instance (len : Nat) (wr : WriteResult) : Decidable (Answer len wr) :=
  match wr with
  | .wrote n => inferInstanceAs (Decidable (n ≤ len))
  | .fail e => inferInstanceAs (Decidable (e = .ewouldblock))

/-- One call or event on connection `c`, which has to be connected. -/
def step (c : ConnId) (s : Session) : Op → Option Session
  | .send data wr =>
      if (s.loop.conn c).connected ∧ Answer data.length wr then
        some ⟨s.loop.send c data wr, s.offered ++ data⟩
      else none
  | .handleWrite wr =>
      if (s.loop.conn c).connected ∧ Answer (s.loop.conn c).outputBuffer.length wr then
        some ⟨s.loop.handleWrite c wr, s.offered⟩
      else none

/-- The state in which `getNextFreeConnection` leaves an object. -/
def AtSessionStart (w : EventLoop) (c : ConnId) : Prop :=
  (w.conn c).state = .kConnected ∧ (w.conn c).channel.isWriting = false ∧
    (w.conn c).outputBuffer = [] ∧ (w.conn c).socket = {}

instance (w : EventLoop) (c : ConnId) : Decidable (AtSessionStart w c) :=
  inferInstanceAs (Decidable (_ ∧ _ ∧ _ ∧ _))

/-- `getNextFreeConnection` leaves the object it hands out so. -/
theorem atSessionStart_of_opened {w w' : EventLoop} {c : ConnId} {fd : Int} (hs : w.Sound)
    (h : Opened w c fd w') : AtSessionStart w' c := by
  obtain ⟨node, n, hn, -⟩ := h.self
  obtain ⟨-, -, -, hout⟩ := hs.resting c h.fresh
  rw [AtSessionStart, hn]
  exact ⟨rfl, rfl, hout, rfl⟩

/-- The call drops nothing: an empty buffer, or an idle output and a `::write`
that does not block. -/
def Kept (c : ConnId) (s : Session) : Op → Prop
  | .send data wr => data = [] ∨ (outputIdle (s.loop.conn c) = true ∧ wr ≠ .fail .ewouldblock)
  | .handleWrite _ => True

/-! ## What one call does to the account -/

theorem outputIdle_iff {tc : TcpConnection} :
    outputIdle tc = true ↔ tc.channel.isWriting = false ∧ tc.outputBuffer = [] := by
  simp [outputIdle]

/-- With nothing remaining, or after a fault, nothing is buffered. -/
theorem keepRest_none (w : EventLoop) (c : ConnId) (data : Bytes) {a : WriteAttempt}
    (h : a.remaining = 0) : w.keepRest c data a = w := by
  simp [keepRest, h]

theorem keepRest_conn (w : EventLoop) (c : ConnId) (data : Bytes) {a : WriteAttempt}
    (hf : a.faultError = false) :
    ((w.keepRest c data a).conn c).socket = (w.conn c).socket ∧
      ((w.keepRest c data a).conn c).outputBuffer
        = (w.conn c).outputBuffer ++ (data.drop a.nwrote).take a.remaining := by
  by_cases hrem : a.remaining = 0
  · rw [keepRest_none w c data hrem, hrem]
    simp
  · have hpos : 0 < a.remaining := Nat.pos_of_ne_zero hrem
    simp only [keepRest, hf, Bool.not_false, Bool.true_and, hpos, decide_true, if_true]
    split
    · simp
    · rw [enableWriting, conn_updateInterest_self]
      simp

/-- A `send` with the output idle: what `::write` takes is out, the rest is
buffered. -/
theorem send_wrote {s : Session} {c : ConnId} (hconn : (s.loop.conn c).connected = true)
    (hidle : outputIdle (s.loop.conn c) = true) (data : Bytes) (n : Nat) :
    (⟨s.loop.send c data (.wrote n), s.offered ++ data⟩ : Session).ledger c
      = ((s.ledger c).accept data data).deliver n := by
  have hempty : (s.loop.conn c).outputBuffer = [] := (outputIdle_iff.mp hidle).2
  obtain ⟨hs, ho⟩ := keepRest_conn (s.loop.accepted c (data.take n)) c data
    (a := ⟨n, data.length - n, false⟩) rfl
  have hrest : (data.drop n).take (data.length - n) = data.drop n :=
    List.take_of_length_le (by rw [List.length_drop])
  rw [hrest] at ho
  simp only [Session.ledger, Ledger.accept, Ledger.deliver, send, sendInLoop, hconn, hidle, if_true,
    WriteAttempt.of, hs, ho]
  simp [accepted, hempty]

/-- A `send` that finds output pending, or whose `::write` blocks, stores
nothing. -/
theorem send_dropped {s : Session} {c : ConnId} (hconn : (s.loop.conn c).connected = true)
    {data : Bytes} {wr : WriteResult}
    (h : outputIdle (s.loop.conn c) = false ∨ wr = .fail .ewouldblock) :
    (⟨s.loop.send c data wr, s.offered ++ data⟩ : Session).ledger c
      = (s.ledger c).accept data [] := by
  cases hidle : outputIdle (s.loop.conn c) with
  | false =>
      have hsame : s.loop.send c data wr = s.loop := by
        simp [send, sendInLoop, hconn, hidle, keepRest_none, WriteAttempt.skipped]
      simp [hsame, Session.ledger, Ledger.accept]
  | true =>
      have hblock : wr = .fail .ewouldblock := h.resolve_left (by simp [hidle])
      subst hblock
      have hrem : (WriteAttempt.of data.length (.fail .ewouldblock)).remaining = 0 := rfl
      simp only [Session.ledger, Ledger.accept, send, sendInLoop, hconn, hidle, if_true,
        keepRest_none _ c data hrem]
      simp [WriteAttempt.of, accepted]

/-- A `handleWrite` moves what the socket accepts out of the buffer. -/
theorem handleWrite_ledger {s : Session} (c : ConnId) (wr : WriteResult) :
    ∃ n, (⟨s.loop.handleWrite c wr, s.offered⟩ : Session).ledger c = (s.ledger c).deliver n := by
  have hstay : s.ledger c = (s.ledger c).deliver 0 := by simp [Ledger.deliver]
  unfold handleWrite
  split
  · split
    · exact ⟨0, hstay⟩
    · exact ⟨0, hstay⟩
    · rename_i n _
      refine ⟨n, ?_⟩
      dsimp only
      split
      · split
        · unfold shutdownInLoop
          split <;>
            simp [Session.ledger, Ledger.deliver, disableWriting, conn_updateInterest_self,
              accepted]
        · simp [Session.ledger, Ledger.deliver, disableWriting, conn_updateInterest_self, accepted]
      · simp [Session.ledger, Ledger.deliver, accepted]
  · exact ⟨0, hstay⟩

/-! ## Runs -/

theorem step_kept {c : ConnId} {s t : Session} {op : Op} (h : step c s op = some t)
    (hs : (s.ledger c).Lossless) (hC : Kept c s op) : (t.ledger c).Lossless := by
  cases op with
  | send data wr =>
      simp only [step, Option.ite_none_right_eq_some] at h
      obtain ⟨⟨hconn, hans⟩, h⟩ := h
      cases h
      by_cases hdrop : outputIdle (s.loop.conn c) = false ∨ wr = .fail .ewouldblock
      · have hnil : data = [] := by
          rcases hC with hnil | ⟨hidle, hwr⟩
          · exact hnil
          · rcases hdrop with hbusy | hblock
            · rw [hidle] at hbusy; exact absurd hbusy (by decide)
            · exact absurd hblock hwr
        rw [send_dropped hconn hdrop, Ledger.lossless_accept hs, hnil]
      · obtain ⟨hidle, hwr⟩ := not_or.mp hdrop
        cases wr with
        | wrote n =>
            rw [send_wrote hconn (by simpa using hidle), Ledger.lossless_deliver,
              Ledger.lossless_accept hs]
        | fail e =>
            have he : e = .ewouldblock := hans
            exact absurd (congrArg WriteResult.fail he) hwr
  | handleWrite wr =>
      simp only [step, Option.ite_none_right_eq_some] at h
      obtain ⟨-, h⟩ := h
      cases h
      obtain ⟨n, hn⟩ := handleWrite_ledger (s := s) c wr
      rw [hn]
      exact Ledger.lossless_deliver.mpr hs

theorem step_dropped {c : ConnId} {s t : Session} {op : Op} (h : step c s op = some t)
    (hs : (s.ledger c).Lossless) (hC : ¬ Kept c s op) : (t.ledger c).Short := by
  cases op with
  | send data wr =>
      simp only [step, Option.ite_none_right_eq_some] at h
      obtain ⟨⟨hconn, -⟩, h⟩ := h
      cases h
      obtain ⟨hne, hbad⟩ := not_or.mp hC
      have hdrop : outputIdle (s.loop.conn c) = false ∨ wr = .fail .ewouldblock := by
        by_cases hidle : outputIdle (s.loop.conn c) = true
        · exact Or.inr (not_not.mp fun hwr => hbad ⟨hidle, hwr⟩)
        · exact Or.inl (by simpa using hidle)
      rw [send_dropped hconn hdrop]
      exact hs.short_accept (List.length_pos_of_ne_nil hne)
  | handleWrite wr => exact absurd trivial hC

theorem step_short {c : ConnId} {s t : Session} {op : Op} (h : step c s op = some t)
    (hs : (s.ledger c).Short) : (t.ledger c).Short := by
  cases op with
  | send data wr =>
      simp only [step, Option.ite_none_right_eq_some] at h
      obtain ⟨⟨hconn, hans⟩, h⟩ := h
      cases h
      by_cases hdrop : outputIdle (s.loop.conn c) = false ∨ wr = .fail .ewouldblock
      · rw [send_dropped hconn hdrop]
        exact hs.accept (Nat.zero_le _)
      · obtain ⟨hidle, hwr⟩ := not_or.mp hdrop
        cases wr with
        | wrote n =>
            rw [send_wrote hconn (by simpa using hidle)]
            exact (hs.accept (Nat.le_refl _)).deliver n
        | fail e =>
            have he : e = .ewouldblock := hans
            exact absurd (congrArg WriteResult.fail he) hwr
  | handleWrite wr =>
      simp only [step, Option.ite_none_right_eq_some] at h
      obtain ⟨-, h⟩ := h
      cases h
      obtain ⟨n, hn⟩ := handleWrite_ledger (s := s) c wr
      rw [hn]
      exact hs.deliver n

/-- After a run of one session, the bytes the socket accepted followed by those
buffered are the bytes given to `send`, in order, exactly when every `send` of
the run with bytes to send found the output idle and did not block. -/
theorem lossless_iff {w : EventLoop} {c : ConnId} (hw : AtSessionStart w c) {ops : List Op}
    {s : Session} (h : Machine.exec (step c) ⟨w, []⟩ ops = some s) :
    (s.loop.conn c).socket.written ++ (s.loop.conn c).outputBuffer = s.offered ↔
      Machine.Meets (step c) (Kept c) ⟨w, []⟩ ops := by
  have h₀ : ((⟨w, []⟩ : Session).ledger c).Lossless := by
    show (w.conn c).socket.written ++ (w.conn c).outputBuffer = []
    rw [hw.2.2.1, hw.2.2.2]
    rfl
  exact Ledger.exec_lossless_iff
    (fun _ _ _ ha hs hC => step_kept ha hs hC) (fun _ _ _ ha hs hC => step_dropped ha hs hC)
    (fun _ _ _ ha hs => step_short ha hs) h₀ h

/-- A loop with one session, on descriptor 7. -/
def firstSession : EventLoop :=
  ((start (-5) 0 3 4 5).getNextFreeConnection 7).getD (start (-5) 0 3 4 5)

/-- Three bytes, one accepted at once and two by `handleWrite`. -/
theorem lossless_drained : ∃ s, Machine.exec (step 1) ⟨firstSession, []⟩
      [.send [72, 105, 10] (.wrote 1), .handleWrite (.wrote 2)] = some s ∧
    (s.loop.conn 1).socket.written ++ (s.loop.conn 1).outputBuffer = s.offered := by
  have hsome : (Machine.exec (step 1) ⟨firstSession, []⟩
      [.send [72, 105, 10] (.wrote 1), .handleWrite (.wrote 2)]).isSome := by decide +kernel
  have hrun := (Option.some_get hsome).symm
  refine ⟨_, hrun, (lossless_iff (by decide +kernel) hrun).mpr ?_⟩
  exact ⟨Or.inr ⟨by decide +kernel, by decide⟩, fun _ _ => ⟨trivial, fun _ _ => trivial⟩⟩

/-- Two sends, the first accepted only in part. -/
theorem lossless_fails : ¬ ∀ (w : EventLoop) (c : ConnId), AtSessionStart w c →
    ∀ (ops : List Op) (s : Session), Machine.exec (step c) ⟨w, []⟩ ops = some s →
      (s.loop.conn c).socket.written ++ (s.loop.conn c).outputBuffer = s.offered := by
  intro hall
  have h := hall firstSession 1 (by decide +kernel)
    [.send [72, 105] (.wrote 1), .send [10] (.wrote 1)] _ (Option.some_get (by decide +kernel)).symm
  exact absurd h (by decide +kernel)

end Output

end WebServer

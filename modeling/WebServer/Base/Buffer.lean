/-
# `Base.Buffer` — the byte buffer, and when it is a byte FIFO

`Buffer` is the class of `base/Buffer.h`: a block of memory with a read index
and a write index, grown by `makeSpace`, filled by `append` and by `readFd`,
emptied from the front by `retrieve`.

Every operation has one specification, stated on `readable`, the cells between
the two indices (`readable_append`, `readable_readFd`, `readable_retrieve`).
What they show is that `append` does not store its argument: it stores the
`strncpy` of it, which stops copying at the first NUL.

`Session` is a run of the class's clients, `offered` and `taken` being what
they put in and how many bytes they took out.  `fifo_iff` says exactly which
runs see a byte FIFO: those in which no append, and no read that spills over
into the stack buffer, carries a byte after a NUL.
-/
import WebServer.Lib.Machine
import WebServer.Lib.Memory
import Mathlib.Data.Option.Basic

namespace WebServer

/-- The class `Buffer`: `[readerIndex, writerIndex)` holds the unread bytes,
`len` is where writing has to stop, `free` what was allocated beyond it. -/
structure Buffer where
  readerIndex : Nat
  writerIndex : Nat
  len : Nat
  free : Nat
  buf : Memory
  deriving DecidableEq

namespace Buffer

def KInitialSize : Nat := 1024
def KMaxPreAlloc : Nat := 65536

/-- Bytes of the stack buffer `readFd` reads into behind the buffer's own space. -/
def extrabufSize : Nat := 65536

/-- The constructor; `len` is `KInitialSize` whatever size is asked for. -/
def new (initialSize : Nat) : Buffer where
  readerIndex := 0
  writerIndex := 0
  len := KInitialSize
  free := 0
  buf := Memory.malloc initialSize

def readableBytes (b : Buffer) : Nat := b.writerIndex - b.readerIndex

def writableBytes (b : Buffer) : Nat := b.len - b.writerIndex

def retrieveAll (b : Buffer) : Buffer := { b with readerIndex := 0, writerIndex := 0 }

def retrieve (b : Buffer) (len : Nat) : Buffer :=
  if len < b.readableBytes then { b with readerIndex := b.readerIndex + len } else b.retrieveAll

/-- The argument is the pointer `end`, as an offset into the block. -/
def retrieveUntil (b : Buffer) (stop : Nat) : Buffer := b.retrieve (stop - b.readerIndex)

def makeSpace (b : Buffer) (len : Nat) : Buffer :=
  let newlen := b.writerIndex + len
  let alloc := if newlen < KMaxPreAlloc then newlen * 2 else newlen + KMaxPreAlloc
  { b with len := newlen, buf := Memory.realloc b.buf alloc, free := alloc - newlen }

def ensureWritableBytes (b : Buffer) (len : Nat) : Buffer :=
  if b.writableBytes < len then b.makeSpace len else b

def hasWritten (b : Buffer) (len : Nat) : Buffer := { b with writerIndex := b.writerIndex + len }

/-- The two-argument `append(data, len)`. -/
def append (b : Buffer) (data : Bytes) (len : Nat) : Buffer :=
  let b := b.ensureWritableBytes len
  { b with buf := Memory.poke b.buf b.writerIndex (strncpy data len) }.hasWritten len

/-- The space `readFd` offers to `readv`: the writable bytes, and the stack
buffer behind them when they are fewer than it holds. -/
def offered (b : Buffer) : Nat :=
  if b.writableBytes < extrabufSize then b.writableBytes + extrabufSize else b.writableBytes

/-- What `readv` answers: an error, or the bytes it stored, in order, into the
space it was offered (none of them at end of file). -/
inductive ReadvResult where
  | fail
  | got (bytes : Bytes)
  deriving DecidableEq

/-- `readv` fills the writable space first and the stack buffer after it; what
landed in the latter is appended. -/
def readFd (b : Buffer) : ReadvResult → Buffer
  | .fail => b
  | .got bytes =>
      let writable := b.writableBytes
      let extrabuf := bytes.drop writable
      let b := { b with buf := Memory.poke b.buf b.writerIndex (bytes.take writable) }
      if bytes.length ≤ writable then { b with writerIndex := b.writerIndex + bytes.length }
      else { b with writerIndex := b.len }.append extrabuf (bytes.length - writable)

/-- The cells in `[peek(), peek() + readableBytes())`. -/
def readable (b : Buffer) : Memory := Memory.window b.buf b.readerIndex b.readableBytes

/-! ## The invariant -/

/-- The indices are in order and the block reaches as far as `len`. -/
structure Ok (b : Buffer) : Prop where
  reader : b.readerIndex ≤ b.writerIndex
  writer : b.writerIndex ≤ b.len
  alloc : b.len ≤ b.buf.length

theorem ok_new : (new KInitialSize).Ok :=
  ⟨Nat.le_refl _, Nat.zero_le _, by simp [new]⟩

theorem Ok.length_readable {b : Buffer} (h : b.Ok) : b.readable.length = b.readableBytes := by
  refine Memory.length_window ?_
  have := h.reader; have := h.writer; have := h.alloc
  simp only [readableBytes]
  omega

/-! ## Making room -/

theorem Ok.makeSpace {b : Buffer} (h : b.Ok) (len : Nat) : (b.makeSpace len).Ok := by
  refine ⟨h.reader, Nat.le_add_right _ _, ?_⟩
  simp only [Buffer.makeSpace, Memory.length_realloc]
  split <;> omega

theorem writableBytes_makeSpace (b : Buffer) (len : Nat) :
    (b.makeSpace len).writableBytes = len := by
  simp [makeSpace, writableBytes]

theorem readable_makeSpace {b : Buffer} (h : b.Ok) (len : Nat) :
    (b.makeSpace len).readable = b.readable := by
  have := h.reader; have := h.writer; have := h.alloc
  refine Memory.window_realloc ?_ ?_
  · simp only [makeSpace, readableBytes]; omega
  · simp only [makeSpace, readableBytes]
    split <;> omega

/-- What `ensureWritableBytes` leaves alone, and the room it guarantees. -/
theorem ensureWritableBytes_spec {b : Buffer} (h : b.Ok) (len : Nat) :
    (b.ensureWritableBytes len).Ok ∧ len ≤ (b.ensureWritableBytes len).writableBytes ∧
      (b.ensureWritableBytes len).readerIndex = b.readerIndex ∧
      (b.ensureWritableBytes len).writerIndex = b.writerIndex ∧
      (b.ensureWritableBytes len).readable = b.readable := by
  unfold ensureWritableBytes
  split
  · exact ⟨h.makeSpace len, (writableBytes_makeSpace b len).ge, rfl, rfl, readable_makeSpace h len⟩
  · rename_i hroom
    exact ⟨h, Nat.le_of_not_lt hroom, rfl, rfl, rfl⟩

/-! ## Storing bytes behind the readable ones -/

/-- Store `bs` at the write index and move it past them. -/
def push (b : Buffer) (bs : Bytes) : Buffer :=
  { b with buf := Memory.poke b.buf b.writerIndex bs, writerIndex := b.writerIndex + bs.length }

theorem Ok.push {b : Buffer} (h : b.Ok) {bs : Bytes} (hroom : bs.length ≤ b.writableBytes) :
    (b.push bs).Ok := by
  have := h.reader; have := h.writer; have := h.alloc
  simp only [writableBytes] at hroom
  refine ⟨?_, ?_, ?_⟩ <;> simp only [Buffer.push]
  · omega
  · omega
  · rw [Memory.length_poke (by omega)]; exact h.alloc

theorem readable_push {b : Buffer} (h : b.Ok) {bs : Bytes} (hroom : bs.length ≤ b.writableBytes) :
    (b.push bs).readable = b.readable ++ bs.map some := by
  have := h.reader; have := h.writer; have := h.alloc
  simp only [writableBytes] at hroom
  have hlen : (b.push bs).readableBytes = b.writerIndex - b.readerIndex + bs.length := by
    simp only [readableBytes, push]; omega
  rw [readable, hlen]
  exact Memory.window_poke h.reader (by omega)

theorem append_eq_push (b : Buffer) (data : Bytes) (len : Nat) :
    b.append data len = (b.ensureWritableBytes len).push (strncpy data len) := by
  simp [append, push, hasWritten]

theorem Ok.append {b : Buffer} (h : b.Ok) (data : Bytes) (len : Nat) : (b.append data len).Ok := by
  obtain ⟨hok, hroom, -, -, -⟩ := ensureWritableBytes_spec h len
  rw [append_eq_push]
  exact hok.push (by rwa [length_strncpy])

/-- What `append` adds is the `strncpy` of its argument. -/
theorem readable_append {b : Buffer} (h : b.Ok) (data : Bytes) (len : Nat) :
    (b.append data len).readable = b.readable ++ (strncpy data len).map some := by
  obtain ⟨hok, hroom, -, -, hread⟩ := ensureWritableBytes_spec h len
  rw [append_eq_push, readable_push hok (by rwa [length_strncpy]), hread]

/-! ## Reading from a descriptor -/

/-- What `readFd` adds for the bytes of one `readv`: those that fit are stored
in place, the rest goes through `append`. -/
def received (b : Buffer) (bytes : Bytes) : Bytes :=
  bytes.take b.writableBytes
    ++ strncpy (bytes.drop b.writableBytes) (bytes.length - b.writableBytes)

theorem readFd_eq_push (b : Buffer) (bytes : Bytes) (hw : b.writerIndex ≤ b.len) :
    b.readFd (.got bytes) = if bytes.length ≤ b.writableBytes then b.push bytes
      else (b.push (bytes.take b.writableBytes)).append (bytes.drop b.writableBytes)
        (bytes.length - b.writableBytes) := by
  by_cases hfit : bytes.length ≤ b.writableBytes
  · simp only [readFd, if_pos hfit, push, List.take_of_length_le hfit]
  · have hlen : (bytes.take b.writableBytes).length = b.writableBytes := by
      rw [List.length_take]; omega
    have hend : b.writerIndex + b.writableBytes = b.len := by
      simp only [writableBytes]; omega
    simp only [readFd, if_neg hfit, push, hlen, hend]

theorem Ok.readFd {b : Buffer} (h : b.Ok) (r : ReadvResult) : (b.readFd r).Ok := by
  cases r with
  | fail => exact h
  | got bytes =>
      rw [readFd_eq_push b bytes h.writer]
      split
      · rename_i hfit; exact h.push hfit
      · exact (h.push (by rw [List.length_take]; omega)).append _ _

theorem readable_readFd {b : Buffer} (h : b.Ok) (bytes : Bytes) :
    (b.readFd (.got bytes)).readable = b.readable ++ (b.received bytes).map some := by
  rw [readFd_eq_push b bytes h.writer, received]
  split
  · rename_i hfit
    rw [readable_push h hfit, List.take_of_length_le hfit, List.drop_of_length_le hfit,
      Nat.sub_eq_zero_of_le hfit]
    simp [strncpy]
  · have hroom : (bytes.take b.writableBytes).length ≤ b.writableBytes := by
      rw [List.length_take]; omega
    rw [readable_append (h.push hroom), readable_push h hroom, List.map_append, List.append_assoc]

/-- A read is stored faithfully exactly when what spills over is. -/
theorem received_eq_iff (b : Buffer) (bytes : Bytes) :
    b.received bytes = bytes ↔ NulTailed (bytes.drop b.writableBytes) := by
  have hlen : bytes.length - b.writableBytes = (bytes.drop b.writableBytes).length := by
    rw [List.length_drop]
  rw [← strncpy_eq_self_iff, received, hlen]
  constructor
  · intro h
    have hboth := h.trans (List.take_append_drop b.writableBytes bytes).symm
    exact List.append_cancel_left hboth
  · intro h
    rw [h, List.take_append_drop]

/-! ## Taking bytes from the front -/

theorem Ok.retrieve {b : Buffer} (h : b.Ok) (n : Nat) : (b.retrieve n).Ok := by
  unfold Buffer.retrieve
  split
  · rename_i hlt
    refine ⟨?_, h.writer, h.alloc⟩
    simp only [readableBytes] at hlt ⊢
    omega
  · exact ⟨Nat.le_refl _, Nat.zero_le _, h.alloc⟩

theorem readable_retrieve {b : Buffer} {n : Nat} (hn : n ≤ b.readableBytes) :
    (b.retrieve n).readable = b.readable.drop n := by
  unfold retrieve
  split
  · rename_i hlt
    rw [readable, readable, Memory.drop_window]
    simp only [readableBytes]
    congr 1
    omega
  · rename_i hge
    have hall : n = b.readableBytes := by omega
    rw [readable, readable, Memory.drop_window, hall, Nat.sub_self, Memory.window_zero]
    simp [retrieveAll, readableBytes, Memory.window_zero]

theorem readableBytes_retrieve {b : Buffer} {n : Nat} (hn : n ≤ b.readableBytes) :
    (b.retrieve n).readableBytes = b.readableBytes - n := by
  unfold retrieve
  split
  · rw [readableBytes, readableBytes, Nat.sub_sub]
  · rename_i hge
    simp only [retrieveAll, readableBytes] at hn hge ⊢
    omega

/-! ## Runs -/

/-- One call on a buffer. -/
inductive Op where
  | append (data : Bytes)
  | readFd (r : ReadvResult)
  | retrieve (n : Nat)
  | retrieveUntil (stop : Nat)
  | retrieveAll
  deriving DecidableEq

/-- A buffer in use: all the bytes put into it so far, the number of bytes
taken out, and the buffer itself, which is sound and holds the difference. -/
structure Session where
  buffer : Buffer
  offered : Bytes
  taken : Nat
  ok : buffer.Ok
  count : taken + buffer.readableBytes = offered.length

namespace Session

/-- A buffer of the default size, nothing put in. -/
def start : Session where
  buffer := Buffer.new KInitialSize
  offered := []
  taken := 0
  ok := ok_new
  count := rfl

/-- The unread bytes are all that was put in, less what was taken from the
front. -/
def Fifo (s : Session) : Prop := s.buffer.readable = (s.offered.drop s.taken).map some

/-- The session after the buffer's readable part grew by as many cells as
`data` has bytes. -/
def put (s : Session) (b : Buffer) (data : Bytes) (ok : b.Ok)
    (hlen : b.readable.length = s.buffer.readable.length + data.length) : Session where
  buffer := b
  offered := s.offered ++ data
  taken := s.taken
  ok := ok
  count := by
    have hc := s.count
    rw [ok.length_readable, s.ok.length_readable] at hlen
    rw [List.length_append, hlen]
    omega

/-- The session after `n` bytes were taken. -/
def take (s : Session) (n : Nat) (hn : n ≤ s.buffer.readableBytes) : Session where
  buffer := s.buffer.retrieve n
  offered := s.offered
  taken := s.taken + n
  ok := s.ok.retrieve n
  count := by
    have hc := s.count
    rw [readableBytes_retrieve hn]
    omega

/-- One call; a call the class's contract excludes (retrieving more than is
there, a read longer than the space offered) is refused. -/
def step (s : Session) : Op → Option Session
  | .append data =>
      some (s.put (s.buffer.append data data.length) data (s.ok.append _ _)
        (by simp [readable_append s.ok]))
  | .readFd .fail => some s
  | .readFd (.got bytes) =>
      if bytes.length ≤ s.buffer.offered then
        some (s.put (s.buffer.readFd (.got bytes)) bytes (s.ok.readFd _)
          (by simp [readable_readFd s.ok, received]; omega))
      else none
  | .retrieve n => if h : n ≤ s.buffer.readableBytes then some (s.take n h) else none
  | .retrieveUntil stop =>
      if h : s.buffer.readerIndex ≤ stop ∧ stop ≤ s.buffer.writerIndex then
        some (s.take (stop - s.buffer.readerIndex) (by simp only [readableBytes]; omega))
      else none
  | .retrieveAll => some (s.take s.buffer.readableBytes (Nat.le_refl _))

/-- The call stores its bytes as they are: what goes through `append` has no
byte after a NUL. -/
def Faithful (s : Session) : Op → Prop
  | .append data => NulTailed data
  | .readFd (.got bytes) => NulTailed (bytes.drop s.buffer.writableBytes)
  | _ => True

theorem fifo_take {s : Session} {n : Nat} (hn : n ≤ s.buffer.readableBytes) (hs : s.Fifo) :
    (s.take n hn).Fifo := by
  have hs' : s.buffer.readable = (s.offered.drop s.taken).map some := hs
  show (s.buffer.retrieve n).readable = _
  rw [readable_retrieve hn, hs', ← List.map_drop, List.drop_drop]
  rfl

/-- Putting bytes in keeps the law exactly when the bytes stored are the bytes
put in. -/
theorem fifo_put {s : Session} {b : Buffer} {data stored : Bytes} {ok : b.Ok}
    {hlen : b.readable.length = s.buffer.readable.length + data.length}
    (hstored : b.readable = s.buffer.readable ++ stored.map some) (hs : s.Fifo) :
    (s.put b data ok hlen).Fifo ↔ stored = data := by
  have hs' : s.buffer.readable = (s.offered.drop s.taken).map some := hs
  have hle : s.taken ≤ s.offered.length := by have := s.count; omega
  show b.readable = ((s.offered ++ data).drop s.taken).map some ↔ _
  rw [hstored, hs', List.drop_append_of_le_length hle, List.map_append,
    List.append_cancel_left_eq]
  exact (Option.some_injective _).list_map.eq_iff

theorem fifo_step {s t : Session} {op : Op} (hs : s.Fifo) (h : s.step op = some t) :
    t.Fifo ↔ s.Faithful op := by
  cases op with
  | append data =>
      cases h
      rw [fifo_put (readable_append s.ok data data.length) hs, strncpy_eq_self_iff]
      exact Iff.rfl
  | readFd r =>
      cases r with
      | fail => cases h; exact ⟨fun _ => trivial, fun _ => hs⟩
      | got bytes =>
          simp only [step, Option.ite_none_right_eq_some] at h
          obtain ⟨-, h⟩ := h
          cases h
          rw [fifo_put (readable_readFd s.ok bytes) hs, received_eq_iff]
          exact Iff.rfl
  | retrieve n =>
      simp only [step, Option.dite_none_right_eq_some] at h
      obtain ⟨hn, h⟩ := h
      cases h
      exact ⟨fun _ => trivial, fun _ => fifo_take hn hs⟩
  | retrieveUntil stop =>
      simp only [step, Option.dite_none_right_eq_some] at h
      obtain ⟨hn, h⟩ := h
      cases h
      exact ⟨fun _ => trivial, fun _ => fifo_take _ hs⟩
  | retrieveAll => cases h; exact ⟨fun _ => trivial, fun _ => fifo_take _ hs⟩

theorem fifo_start : start.Fifo := by
  simp [Fifo, start, readable, readableBytes, Buffer.new, Memory.window_zero]

/-- The buffer is a byte FIFO in every state of a run exactly when no append
and no spilling read of the run carries a byte after a NUL. -/
theorem fifo_iff {ops : List Op} {s : Session} (h : Machine.exec step start ops = some s) :
    Machine.Throughout step Fifo start ops ↔ Machine.Meets step Faithful start ops :=
  Machine.throughout_iff_meets (J := fun _ => True) (fun _ _ _ _ _ => trivial)
    (fun _ _ _ _ hs ha => fifo_step hs ha) trivial fifo_start h

theorem fifo_text : Machine.Throughout step Fifo start
    [.append [71, 69, 84], .retrieve 1, .append [32, 47]] :=
  (fifo_iff rfl).mpr ⟨NulTailed.of_not_mem (by decide +kernel), fun _ _ => ⟨trivial,
    fun _ _ => ⟨NulTailed.of_not_mem (by decide +kernel), fun _ _ => trivial⟩⟩⟩

/-- The first bytes of a PNG image, appended once. -/
theorem fifo_png_fails : ¬ ∀ (ops : List Op) (s : Session),
    Machine.exec step start ops = some s → s.Fifo := by
  intro hall
  have h : step start (.append [0x89, 80, 0, 13]) = some _ := rfl
  have hfifo := hall [.append [0x89, 80, 0, 13]] _ rfl
  have hf : NulTailed [0x89, 80, 0, 13] := (fifo_step fifo_start h).mp hfifo
  exact absurd hf (by decide +kernel)

end Session

end Buffer

end WebServer

/-
# `Base.Capacity` — the buffer inside its block

`base/Buffer.h` states its contract in assertions, and stores through pointers that
nothing checks.  `Checked` is the class with both made effective: an assertion that
fails, and an access that leaves the block it is in (the stack buffer of `readFd` is
another one), have no outcome.

`step_eq` says that on a sound buffer, for calls that their caller may make
(`Contract`), the two classes do the same.  With what each call leaves of `Consistent`
(`Consistent.perform`), every run of such calls goes through, and through consistent
buffers only (`runs_consistent`).
-/
import WebServer.Base.Buffer

namespace WebServer

namespace Buffer

namespace Checked

open Machine

/-! ## The class with its assertions -/

def ensureWritableBytes (b : Buffer) (len : Nat) : Option Buffer :=
  let b := b.ensureWritableBytes len
  if len ≤ b.writableBytes then some b else none

def hasWritten (b : Buffer) (len : Nat) : Option Buffer :=
  if len ≤ b.writableBytes then some (b.hasWritten len) else none

def append (b : Buffer) (data : Bytes) (len : Nat) : Option Buffer := do
  let b ← ensureWritableBytes b len
  let buf ← Memory.store b.buf b.writerIndex (strncpy data len)
  hasWritten { b with buf } len

/-- `readv` stores into the block and into `extrabuf`, and `append` reads the latter. -/
def readFd (b : Buffer) : ReadvResult → Option Buffer
  | .fail => some b
  | .got bytes => do
      let writable := b.writableBytes
      let buf ← Memory.store b.buf b.writerIndex (bytes.take writable)
      let extrabuf ← Memory.store (Memory.malloc extrabufSize) 0 (bytes.drop writable)
      let b := { b with buf }
      if bytes.length ≤ writable then some { b with writerIndex := b.writerIndex + bytes.length }
      else do
        let data ← Memory.fetch extrabuf 0 (bytes.length - writable)
        append { b with writerIndex := b.len } data (bytes.length - writable)

def retrieve (b : Buffer) (len : Nat) : Option Buffer :=
  if len ≤ b.readableBytes then some (b.retrieve len) else none

def retrieveUntil (b : Buffer) (stop : Nat) : Option Buffer :=
  if b.readerIndex ≤ stop ∧ stop ≤ b.writerIndex then retrieve b (stop - b.readerIndex) else none

/-- One call.  Before `hasWritten` its caller has stored some bytes at `beginWrite()`. -/
inductive Call where
  | append (data : Bytes) (len : Nat)
  | ensureWritableBytes (len : Nat)
  | hasWritten (stored : Bytes) (len : Nat)
  | readFd (r : ReadvResult)
  | retrieve (len : Nat)
  | retrieveUntil (stop : Nat)
  | retrieveAll
  deriving DecidableEq

def step (b : Buffer) : Call → Option Buffer
  | .append data len => append b data len
  | .ensureWritableBytes len => ensureWritableBytes b len
  | .hasWritten stored len => do
      let buf ← Memory.store b.buf b.writerIndex stored
      hasWritten { b with buf } len
  | .readFd r => readFd b r
  | .retrieve len => retrieve b len
  | .retrieveUntil stop => retrieveUntil b stop
  | .retrieveAll => some b.retrieveAll

/-- What a caller, and the kernel, owe the buffer. -/
def Contract (b : Buffer) : Call → Prop
  | .hasWritten stored len => stored.length ≤ b.writableBytes ∧ len ≤ b.writableBytes
  | .readFd (.got bytes) => bytes.length ≤ b.offered
  | .retrieve len => len ≤ b.readableBytes
  | .retrieveUntil stop => b.readerIndex ≤ stop ∧ stop ≤ b.writerIndex
  | _ => True

/-- The call on the class itself. -/
def perform (b : Buffer) : Call → Buffer
  | .append data len => b.append data len
  | .ensureWritableBytes len => b.ensureWritableBytes len
  | .hasWritten stored len =>
      { b with buf := Memory.poke b.buf b.writerIndex stored }.hasWritten len
  | .readFd r => b.readFd r
  | .retrieve len => b.retrieve len
  | .retrieveUntil stop => b.retrieveUntil stop
  | .retrieveAll => b.retrieveAll

/-! ## Nothing fails -/

/-- There is a cell for every writable byte. -/
theorem store_writable {b : Buffer} (hb : b.Ok) {bs : Bytes} (hroom : bs.length ≤ b.writableBytes) :
    Memory.store b.buf b.writerIndex bs = some (Memory.poke b.buf b.writerIndex bs) := by
  have := hb.writer; have := hb.alloc
  simp only [writableBytes] at hroom
  exact Memory.store_of_le (by omega)

theorem load_readable {b : Buffer} (hb : b.Ok) :
    Memory.load b.buf b.readerIndex b.readableBytes = some b.readable := by
  have := hb.reader; have := hb.writer; have := hb.alloc
  refine Memory.load_of_le ?_
  simp only [readableBytes]
  omega

theorem ensureWritableBytes_eq {b : Buffer} (hb : b.Ok) (len : Nat) :
    ensureWritableBytes b len = some (b.ensureWritableBytes len) :=
  if_pos (ensureWritableBytes_spec hb len).2.1

theorem append_eq {b : Buffer} (hb : b.Ok) (data : Bytes) (len : Nat) :
    append b data len = some (b.append data len) := by
  obtain ⟨hok, hroom, -⟩ := ensureWritableBytes_spec hb len
  have hlength : (strncpy data len).length ≤ (b.ensureWritableBytes len).writableBytes := by
    rwa [length_strncpy]
  simp only [append, ensureWritableBytes_eq hb, store_writable hok hlength,
    Option.bind_eq_bind, Option.bind_some]
  exact if_pos hroom

theorem readFd_eq {b : Buffer} (hb : b.Ok) {r : ReadvResult} (hr : Contract b (.readFd r)) :
    readFd b r = some (b.readFd r) := by
  cases r with
  | fail => rfl
  | got bytes =>
      have hr : bytes.length ≤ b.offered := hr
      have htake : (bytes.take b.writableBytes).length ≤ b.writableBytes := by
        rw [List.length_take]
        omega
      have hdrop : (bytes.drop b.writableBytes).length = bytes.length - b.writableBytes :=
        List.length_drop
      -- what does not fit the block fits the stack buffer, or there is nothing of it
      have hextra : bytes.length - b.writableBytes ≤ extrabufSize := by
        unfold offered at hr
        split at hr <;> omega
      have hstore : Memory.store (Memory.malloc extrabufSize) 0 (bytes.drop b.writableBytes) =
          some _ := Memory.store_of_le (by rw [Memory.length_malloc, hdrop]; omega)
      simp only [readFd, store_writable hb htake, hstore, Option.bind_eq_bind, Option.bind_some]
      by_cases hfit : bytes.length ≤ b.writableBytes
      · simp only [if_pos hfit, Buffer.readFd]
      · have hfetch := Memory.fetch_store hstore
        rw [hdrop] at hfetch
        have hok := hb.push htake
        rw [push, List.length_take_of_le (by omega)] at hok
        have hend : b.writerIndex + b.writableBytes = b.len := by
          have := hb.writer
          simp only [writableBytes]
          omega
        rw [hend] at hok
        simp only [if_neg hfit, hfetch, Option.bind_some, Buffer.readFd]
        exact append_eq hok _ _

theorem step_eq {b : Buffer} (hb : b.Ok) {call : Call} (hcall : Contract b call) :
    step b call = some (perform b call) := by
  cases call with
  | append data len => exact append_eq hb data len
  | ensureWritableBytes len => exact ensureWritableBytes_eq hb len
  | hasWritten stored len =>
      simp only [step, store_writable hb hcall.1, Option.bind_eq_bind, Option.bind_some]
      exact if_pos hcall.2
  | readFd r => exact readFd_eq hb hcall
  | retrieve len => exact if_pos hcall
  | retrieveUntil stop =>
      obtain ⟨hpeek, hend⟩ := hcall
      refine (if_pos ⟨hpeek, hend⟩).trans (if_pos ?_)
      simp only [readableBytes]
      omega
  | retrieveAll => rfl

/-! ## The four quantities -/

/-- `len_` and `free_` between them are what was allocated. -/
structure Consistent (b : Buffer) : Prop extends Ok b where
  capacity : b.buf.length = b.len + b.free

theorem consistent_new : Consistent (new KInitialSize) where
  toOk := ok_new
  capacity := Memory.length_malloc KInitialSize

theorem Consistent.makeSpace {b : Buffer} (hb : Consistent b) (len : Nat) :
    Consistent (b.makeSpace len) where
  toOk := hb.toOk.makeSpace len
  capacity := by
    simp only [Buffer.makeSpace, Memory.length_realloc]
    split <;> omega

theorem Consistent.ensureWritableBytes {b : Buffer} (hb : Consistent b) (len : Nat) :
    Consistent (b.ensureWritableBytes len) := by
  unfold Buffer.ensureWritableBytes
  split
  · exact hb.makeSpace len
  · exact hb

theorem Consistent.push {b : Buffer} (hb : Consistent b) {bs : Bytes}
    (hroom : bs.length ≤ b.writableBytes) : Consistent (b.push bs) where
  toOk := hb.toOk.push hroom
  capacity := by
    have := hb.writer; have := hb.alloc
    simp only [writableBytes] at hroom
    simp only [Buffer.push]
    rw [Memory.length_poke (by omega)]
    exact hb.capacity

theorem Consistent.append {b : Buffer} (hb : Consistent b) (data : Bytes) (len : Nat) :
    Consistent (b.append data len) := by
  obtain ⟨-, hroom, -⟩ := ensureWritableBytes_spec hb.toOk len
  rw [append_eq_push]
  exact (hb.ensureWritableBytes len).push (by rwa [length_strncpy])

theorem Consistent.readFd {b : Buffer} (hb : Consistent b) (r : ReadvResult) :
    Consistent (b.readFd r) := by
  cases r with
  | fail => exact hb
  | got bytes =>
      rw [readFd_eq_push b bytes hb.writer]
      split
      · rename_i hfit
        exact hb.push hfit
      · refine (hb.push ?_).append _ _
        rw [List.length_take]
        omega

theorem Consistent.retrieve {b : Buffer} (hb : Consistent b) (len : Nat) :
    Consistent (b.retrieve len) where
  toOk := hb.toOk.retrieve len
  capacity := by
    unfold Buffer.retrieve
    split <;> exact hb.capacity

theorem Consistent.hasWritten {b : Buffer} (hb : Consistent b) {stored : Bytes} {len : Nat}
    (hstored : stored.length ≤ b.writableBytes) (hlen : len ≤ b.writableBytes) :
    Consistent ({ b with buf := Memory.poke b.buf b.writerIndex stored }.hasWritten len) := by
  have hreader := hb.reader; have hwriter := hb.writer; have halloc := hb.alloc
  simp only [writableBytes] at hstored hlen
  have hpoke : (Memory.poke b.buf b.writerIndex stored).length = b.buf.length :=
    Memory.length_poke (by omega)
  refine ⟨⟨?_, ?_, ?_⟩, ?_⟩ <;> simp only [Buffer.hasWritten]
  · omega
  · omega
  · exact hpoke ▸ halloc
  · exact hpoke.trans hb.capacity

theorem Consistent.perform {b : Buffer} (hb : Consistent b) {call : Call}
    (hcall : Contract b call) : Consistent (perform b call) := by
  cases call with
  | append data len => exact hb.append data len
  | ensureWritableBytes len => exact hb.ensureWritableBytes len
  | hasWritten stored len => exact hb.hasWritten hcall.1 hcall.2
  | readFd r => exact hb.readFd r
  | retrieve len => exact hb.retrieve len
  | retrieveUntil stop => exact hb.retrieve (stop - b.readerIndex)
  | retrieveAll => exact ⟨⟨Nat.le_refl _, Nat.zero_le _, hb.alloc⟩, hb.capacity⟩

/-! ## Runs -/

/-- What can be said of a buffer between two calls: the indices and the sizes agree, the
bytes from `peek()` on are in the block, and so are as many behind them as are asked for. -/
structure Usable (b : Buffer) : Prop where
  consistent : Consistent b
  readable : Memory.load b.buf b.readerIndex b.readableBytes = some b.readable
  room : ∀ len, ∃ t, step b (.ensureWritableBytes len) = some t ∧ len ≤ t.writableBytes

theorem Consistent.usable {b : Buffer} (hb : Consistent b) : Usable b where
  consistent := hb
  readable := load_readable hb.toOk
  room := fun len =>
    ⟨_, ensureWritableBytes_eq hb.toOk len, (ensureWritableBytes_spec hb.toOk len).2.1⟩

/-- Whether a run keeps the contract can be seen on the class itself. -/
theorem meets_cons {b : Buffer} (hb : b.Ok) {call : Call} {calls : List Call} :
    Meets step Contract b (call :: calls) ↔
      Contract b call ∧ Meets step Contract (perform b call) calls := by
  constructor
  · rintro ⟨hcall, hrest⟩
    exact ⟨hcall, hrest _ (step_eq hb hcall)⟩
  · rintro ⟨hcall, hrest⟩
    refine ⟨hcall, fun t ht => ?_⟩
    rw [step_eq hb hcall] at ht
    exact Option.some.inj ht ▸ hrest

/-- On a buffer of the default size every run of calls that keep the contract goes
through, with no assertion failing and no byte stored or read outside its block, and the
buffer is usable all the time. -/
theorem runs_consistent {calls : List Call} (h : Meets step Contract (new KInitialSize) calls) :
    ∃ b, exec step (new KInitialSize) calls = some b ∧
      Throughout step Usable (new KInitialSize) calls := by
  obtain ⟨b, hb, -, hall⟩ := exec_progress
    (fun b call hb hcall => ⟨_, step_eq hb.toOk hcall, hb.perform hcall⟩) h consistent_new
  exact ⟨b, hb, hall.mono fun _ ht => ht.usable⟩

/-- Room is made for 70000 bytes, two are read and one is taken. -/
theorem runs_consistent_grown : ∃ b,
    exec step (new KInitialSize)
      [.ensureWritableBytes 70000, .readFd (.got [72, 105]), .retrieve 1] = some b ∧
    Throughout step Usable (new KInitialSize)
      [.ensureWritableBytes 70000, .readFd (.got [72, 105]), .retrieve 1] := by
  have hgrown : Consistent (perform (new KInitialSize) (.ensureWritableBytes 70000)) :=
    consistent_new.ensureWritableBytes 70000
  have hread : Contract (perform (new KInitialSize) (.ensureWritableBytes 70000))
      (.readFd (.got [72, 105])) := by
    show 2 ≤ offered _
    decide
  refine runs_consistent ((meets_cons ok_new).mpr ⟨trivial, ?_⟩)
  refine (meets_cons hgrown.toOk).mpr ⟨hread, ?_⟩
  refine (meets_cons (hgrown.perform hread).toOk).mpr ⟨?_, trivial⟩
  show 1 ≤ readableBytes _
  decide

end Checked

end Buffer

end WebServer

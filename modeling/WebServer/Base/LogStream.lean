/-
# `Base.LogStream` — what is inserted into a log line

A `LogStream` on the array of its `FixedBuffer`, with the record of every store that
an insertion makes through `cur_`, by where it begins and how many bytes it has.  An
insertion that stores beyond the array is undefined: the record has it, and nothing
is said about what comes after.

Room is checked in two ways.  `append` compares `avail()` with the length as an
`int`; `formatInteger` asks for `kMaxNumericSize` bytes, and then `convert` writes
its digits, with a NUL after them, unchecked (`length_convert`).

`filled` says what the buffer should hold: each piece whole, or nothing of it where it
does not fit.  `insertions_safe_iff`: it does, and nothing is stored outside, exactly when no
piece has a length that fits only as an `int`.  That takes 2 GiB at least
(`fair_of_small`).
-/
import WebServer.Base.LogOrder
import Mathlib.Algebra.Ring.Int.Defs

namespace WebServer

namespace LogStream

open Machine

abbrev kLargeBuffer : Nat := AsyncLogging.kLargeBuffer

def kMaxNumericSize : Int := 32

/-! ## Digits -/

/-- "9876543210123456789". -/
def digits : Bytes :=
  [57, 56, 55, 54, 53, 52, 51, 50, 49, 48, 49, 50, 51, 52, 53, 54, 55, 56, 57]

/-- `zero[lsd]`, where `zero` points at the middle of `digits`. -/
def zero (lsd : Int) : UInt8 := digits.getD (9 + lsd).toNat 0

theorem natAbs_tdiv_ten (i : Int) : (i.tdiv 10).natAbs = i.natAbs / 10 := Int.natAbs_tdiv i 10

/-- The loop of `convert`: the digits it writes, the last of the number first. -/
def convertLoop (i : Int) : Bytes :=
  if i.tdiv 10 = 0 then [zero (i.tmod 10)] else zero (i.tmod 10) :: convertLoop (i.tdiv 10)
termination_by i.natAbs
decreasing_by
  rename_i hmore
  have hi : i ≠ 0 := by
    rintro rfl
    exact hmore (Int.zero_tdiv 10)
  rw [natAbs_tdiv_ten]
  omega

/-- `convert(buf, value)`: what it leaves in `buf` before the NUL; the length is what it
returns. -/
def convert (value : Int) : Bytes :=
  (convertLoop value ++ if value < 0 then [45] else []).reverse

/-! ## The stream -/

/-- A store through `cur_`. -/
structure Store where
  offset : Nat
  count : Nat
  deriving DecidableEq

/-- `static_cast<int>(len)` of a `size_t`. -/
def toInt (len : Nat) : Int := (BitVec.ofNat 32 len).toInt

/-- The integer types that can be inserted. -/
inductive IntType where
  | short
  | unsignedShort
  | int
  | unsignedInt
  | long
  | unsignedLong
  | longLong
  | unsignedLongLong
  deriving DecidableEq

/-- The values of the type. -/
def IntType.Has (v : Int) : IntType → Prop
  | .short => -2 ^ 15 ≤ v ∧ v < 2 ^ 15
  | .unsignedShort => 0 ≤ v ∧ v < 2 ^ 16
  | .int => -2 ^ 31 ≤ v ∧ v < 2 ^ 31
  | .unsignedInt => 0 ≤ v ∧ v < 2 ^ 32
  | .long => -2 ^ 63 ≤ v ∧ v < 2 ^ 63
  | .unsignedLong => 0 ≤ v ∧ v < 2 ^ 64
  | .longLong => -2 ^ 63 ≤ v ∧ v < 2 ^ 63
  | .unsignedLongLong => 0 ≤ v ∧ v < 2 ^ 64

/-- What is inserted: the overloads of `operator<<` but those of floating-point numbers and
of pointers, and `append`.  A C string is given by the characters before its NUL, and may
be null. -/
inductive Insertion where
  | bool (v : Bool)
  | integer (type : IntType) (v : Int)
  | char (v : UInt8)
  | cstring (str : Option Bytes)
  | string (v : Bytes)
  | append (data : Bytes)
  deriving DecidableEq

namespace Insertion

/-- A value of its type: a length is a `size_t`, that of `append` an `int`. -/
def Valid : Insertion → Prop
  | .bool _ => True
  | .integer type v => type.Has v
  | .char _ => True
  | .cstring none => True
  | .cstring (some str) => str.length < 2 ^ 64 ∧ 0 ∉ str
  | .string v => v.length < 2 ^ 64
  | .append data => data.length < 2 ^ 31

/-- The characters of the piece. -/
def text : Insertion → Bytes
  | .bool v => [if v then 49 else 48]
  | .integer _ v => convert v
  | .char v => [v]
  | .cstring none => [40, 110, 117, 108, 108, 41]
  | .cstring (some str) => str
  | .string v => v
  | .append data => data

/-- The room the piece asks for. -/
def room : Insertion → Nat
  | .integer _ _ => 32
  | ins => ins.text.length + 1

end Insertion

end LogStream

/-- `buffer_`: its array, and `cur_` as an offset into it. -/
structure LogStream where
  data : Memory
  cur : Nat
  stores : List LogStream.Store
  inserted : List LogStream.Insertion

namespace LogStream

open Machine

def new : LogStream := ⟨Memory.malloc kLargeBuffer, 0, [], []⟩

def avail (s : LogStream) : Int := kLargeBuffer - s.cur

/-- The bytes are stored from `cur_` on, if they are inside the array. -/
def store (s : LogStream) (bytes : Bytes) : LogStream :=
  { s with
    data := if s.cur + bytes.length ≤ kLargeBuffer then s.data.poke s.cur bytes else s.data
    stores := ⟨s.cur, bytes.length⟩ :: s.stores }

/-- `FixedBuffer::append(buf, len)`. -/
def append (s : LogStream) (buf : Bytes) : LogStream :=
  if toInt buf.length < s.avail then { s.store buf with cur := s.cur + buf.length } else s

/-- `formatInteger(v)`: what `convert` writes, its NUL included, and `add`. -/
def formatInteger (s : LogStream) (v : Int) : LogStream :=
  if kMaxNumericSize ≤ s.avail then
    { s.store (convert v ++ [0]) with cur := s.cur + (convert v).length }
  else s

/-- The overloads of `operator<<`. -/
def insert (s : LogStream) : Insertion → LogStream
  | .bool v => s.append [if v then 49 else 48]
  | .integer _ v => s.formatInteger v
  | .char v => s.append [v]
  | .cstring (some str) => s.append str
  | .cstring none => s.append [40, 110, 117, 108, 108, 41]
  | .string v => s.append v
  | .append data => s.append data

/-- Every store was inside the array. -/
def Inside (s : LogStream) : Prop := ∀ w ∈ s.stores, w.offset + w.count ≤ kLargeBuffer

instance (s : LogStream) : Decidable s.Inside := inferInstanceAs (Decidable (∀ _ ∈ _, _))

instance (v : Int) (type : IntType) : Decidable (type.Has v) := by
  cases type <;> unfold IntType.Has <;> infer_instance

instance (ins : Insertion) : Decidable ins.Valid := by
  unfold Insertion.Valid
  split <;> infer_instance

def step (s : LogStream) (ins : Insertion) : Option LogStream :=
  if s.Inside ∧ ins.Valid then
    some { s.insert ins with inserted := s.inserted ++ [ins] }
  else none

/-! ## What it should do -/

/-- A line with one more piece: the whole of it, or nothing if it does not fit. -/
def fill (line : Bytes) (ins : Insertion) : Bytes :=
  if line.length + ins.room ≤ kLargeBuffer then line ++ ins.text else line

def filled (inserted : List Insertion) : Bytes := inserted.foldl fill []

/-- `data()` with `length()`. -/
def contents (s : LogStream) : Memory := s.data.window 0 s.cur

structure Safe (s : LogStream) : Prop where
  room : s.cur < kLargeBuffer
  inside : s.Inside
  whole : s.contents = (filled s.inserted).map some

/-- A length that fits as an `int` fits. -/
def Fair (s : LogStream) : Insertion → Prop
  | .integer _ _ => True
  | ins => toInt ins.text.length < s.avail → (ins.text.length : Int) < s.avail

instance (s : LogStream) (ins : Insertion) : Decidable (Fair s ins) := by
  unfold Fair
  split <;> infer_instance

/-! ## Lengths -/

theorem toInt_of_small {n : Nat} (h : n < 2 ^ 31) : toInt n = n := by
  rw [toInt, BitVec.toInt_eq_toNat_cond, BitVec.toNat_ofNat, Nat.mod_eq_of_lt (by omega),
    if_pos (by omega)]

theorem toInt_le (n : Nat) : toInt n ≤ n := by
  have hmod := Nat.mod_le n (2 ^ 32)
  rw [toInt, BitVec.toInt_eq_toNat_cond, BitVec.toNat_ofNat]
  split <;> omega

/-- A number of `k + 1` decimal digits has at most `k + 1` digits written. -/
theorem length_convertLoop (k : Nat) : ∀ {i : Int}, i.natAbs < 10 ^ (k + 1) →
    (convertLoop i).length ≤ k + 1 := by
  induction k with
  | zero =>
      intro i hi
      have hdone : i.tdiv 10 = 0 := Int.natAbs_eq_zero.mp (by rw [natAbs_tdiv_ten]; omega)
      rw [convertLoop, if_pos hdone]
      exact Nat.le_refl 1
  | succ k ih =>
      intro i hi
      rw [convertLoop]
      split
      · exact Nat.le_add_left 1 (k + 1)
      · have hnext : (i.tdiv 10).natAbs < 10 ^ (k + 1) := by
          rw [natAbs_tdiv_ten, Nat.div_lt_iff_lt_mul (by decide), ← Nat.pow_succ]
          exact hi
        exact Nat.succ_le_succ (ih hnext)

theorem IntType.Has.bounds {type : IntType} {v : Int} (h : type.Has v) :
    -2 ^ 63 ≤ v ∧ v < 2 ^ 64 := by
  cases type <;> simp only [IntType.Has] at h <;> omega

/-- `convert` writes 20 characters at most, and a NUL. -/
theorem length_convert_of_bounds {v : Int} (hlow : -2 ^ 63 ≤ v) (hhigh : v < 2 ^ 64) :
    (convert v).length ≤ 20 := by
  rw [convert, List.length_reverse, List.length_append]
  by_cases hneg : v < 0
  · have hdigits := length_convertLoop 18 (i := v) (by omega)
    rw [if_pos hneg, List.length_singleton]
    omega
  · have hdigits := length_convertLoop 19 (i := v) (by omega)
    rw [if_neg hneg, List.length_nil]
    omega

theorem length_convert {type : IntType} {v : Int} (h : type.Has v) : (convert v).length ≤ 20 :=
  length_convert_of_bounds h.bounds.1 h.bounds.2

/-! ## One insertion -/

section

variable {s t : LogStream} {ins : Insertion} {buf : Bytes}

/-- The array keeps its size. -/
def Sized (s : LogStream) : Prop := s.data.length = kLargeBuffer

theorem sized_store (hs : Sized s) (bytes : Bytes) : Sized (s.store bytes) := by
  rw [Sized] at hs
  unfold Sized store
  dsimp only
  split
  · rw [Memory.length_poke (by omega), hs]
  · exact hs

theorem sized_append (hs : Sized s) (buf : Bytes) : Sized (s.append buf) := by
  unfold append
  split
  · exact (sized_store hs buf :)
  · exact hs

/-- All insertions but those of numbers are an `append` of their characters. -/
theorem insert_cases (s : LogStream) (ins : Insertion) :
    (∃ type v, ins = .integer type v) ∨
      (s.insert ins = s.append ins.text ∧ ins.room = ins.text.length + 1 ∧
        (Fair s ins ↔ (toInt ins.text.length < s.avail → (ins.text.length : Int) < s.avail))) := by
  cases ins with
  | bool v => exact Or.inr ⟨rfl, rfl, Iff.rfl⟩
  | integer type v => exact Or.inl ⟨type, v, rfl⟩
  | char v => exact Or.inr ⟨rfl, rfl, Iff.rfl⟩
  | cstring str =>
      cases str with
      | none => exact Or.inr ⟨rfl, rfl, Iff.rfl⟩
      | some str => exact Or.inr ⟨rfl, rfl, Iff.rfl⟩
  | string v => exact Or.inr ⟨rfl, rfl, Iff.rfl⟩
  | append data => exact Or.inr ⟨rfl, rfl, Iff.rfl⟩

theorem sized_insert (hs : Sized s) (ins : Insertion) : Sized (s.insert ins) := by
  rcases insert_cases s ins with ⟨type, v, rfl⟩ | ⟨hinsert, -, -⟩
  · show Sized (s.formatInteger v)
    unfold formatInteger
    split
    · exact (sized_store hs _ :)
    · exact hs
  · rw [hinsert]
    exact sized_append hs _

theorem filled_append (inserted : List Insertion) (ins : Insertion) :
    filled (inserted ++ [ins]) = fill (filled inserted) ins := by
  rw [filled, List.foldl_append]
  rfl

theorem Safe.length_filled (hsafe : Safe s) (hs : Sized s) :
    (filled s.inserted).length = s.cur := by
  have hroom := hsafe.room
  rw [Sized] at hs
  rw [← List.length_map (f := some), ← hsafe.whole, contents, Memory.length_window (by omega)]

/-- A store inside the array, of which `cur_` takes the first `k` bytes. -/
theorem contents_store (hs : Sized s) {bytes : Bytes} (hfits : s.cur + bytes.length ≤ kLargeBuffer)
    {k : Nat} (hk : k ≤ bytes.length) :
    (s.store bytes).data.window 0 (s.cur + k) = s.contents ++ (bytes.take k).map some := by
  rw [Sized] at hs
  have hdata : (s.store bytes).data = s.data.poke s.cur bytes := if_pos hfits
  have hprefix : Memory.window (s.data.poke s.cur bytes) 0 (s.cur + k) =
      (Memory.window (s.data.poke s.cur bytes) 0 (s.cur - 0 + bytes.length)).take (s.cur + k) := by
    rw [Memory.window, Memory.window, List.take_take]
    congr 1
    omega
  have hlength : s.contents.length = s.cur := by
    rw [contents, Memory.length_window (by omega)]
  rw [hdata, hprefix, Memory.window_poke (Nat.zero_le _) (by omega), Nat.sub_zero]
  show (s.contents ++ bytes.map some).take (s.cur + k) = _
  rw [List.take_append, hlength, List.take_of_length_le (by omega), Nat.add_sub_cancel_left,
    List.map_take]

/-- A piece that is stored inside the array, after what there is. -/
theorem Safe.stored (hsafe : Safe s) (hs : Sized s) {bytes : Bytes}
    (hfits : s.cur + bytes.length ≤ kLargeBuffer) (htext : bytes.take ins.text.length = ins.text)
    (hroom : s.cur + ins.room ≤ kLargeBuffer) (hless : ins.text.length < ins.room) :
    Safe { s.store bytes with
      cur := s.cur + ins.text.length, inserted := s.inserted ++ [ins] } where
  room := by
    dsimp only
    omega
  inside := List.forall_mem_cons.mpr ⟨hfits, hsafe.inside⟩
  whole := by
    have hk : ins.text.length ≤ bytes.length := by
      rw [← htext, List.length_take]
      exact Nat.min_le_right ..
    show (s.store bytes).data.window 0 (s.cur + ins.text.length) =
      (filled (s.inserted ++ [ins])).map some
    rw [contents_store hs hfits hk, htext, filled_append, fill, hsafe.length_filled hs,
      if_pos hroom, List.map_append, hsafe.whole]

/-- A piece that is dropped, where there is no room for it. -/
theorem Safe.dropped (hsafe : Safe s) (hs : Sized s) (hroom : ¬ s.cur + ins.room ≤ kLargeBuffer) :
    Safe { s with inserted := s.inserted ++ [ins] } where
  room := hsafe.room
  inside := hsafe.inside
  whole := by
    show s.contents = (filled (s.inserted ++ [ins])).map some
    rw [filled_append, fill, hsafe.length_filled hs, if_neg hroom]
    exact hsafe.whole

/-- A piece is stored whole or dropped, unless its length is too great and fits as an
`int`. -/
theorem safe_append (hsafe : Safe s) (hs : Sized s) (hroom : ins.room = ins.text.length + 1) :
    Safe { s.append ins.text with inserted := s.inserted ++ [ins] } ↔
      (toInt ins.text.length < s.avail → (ins.text.length : Int) < s.avail) := by
  have hcur := hsafe.room
  have havail : s.avail = (kLargeBuffer : Int) - s.cur := rfl
  unfold append
  by_cases hint : toInt ins.text.length < s.avail
  · rw [if_pos hint]
    constructor
    · intro hafter _
      have hnext : s.cur + ins.text.length < kLargeBuffer := hafter.room
      omega
    · intro hfair
      have hfits := hfair hint
      exact hsafe.stored hs (by omega) (List.take_length ..) (by omega) (by omega)
  · rw [if_neg hint]
    have hle := toInt_le ins.text.length
    exact iff_of_true (hsafe.dropped hs (by omega)) fun h => absurd h hint

theorem safe_formatInteger (hsafe : Safe s) (hs : Sized s) {type : IntType} {v : Int}
    (hv : type.Has v) :
    Safe { s.formatInteger v with inserted := s.inserted ++ [.integer type v] } := by
  have hcur := hsafe.room
  have havail : s.avail = (kLargeBuffer : Int) - s.cur := rfl
  have hlength := length_convert hv
  have hmax : kMaxNumericSize = 32 := rfl
  have hroom : (Insertion.integer type v).room = 32 := rfl
  have htext : (Insertion.integer type v).text = convert v := rfl
  have hcount := congrArg List.length htext
  unfold formatInteger
  by_cases hnumeric : kMaxNumericSize ≤ s.avail
  · rw [if_pos hnumeric]
    have hfits : s.cur + (Insertion.integer type v).room ≤ kLargeBuffer := by omega
    refine hsafe.stored hs ?_ ?_ hfits (by omega)
    · rw [List.length_append, List.length_singleton]
      omega
    · rw [htext, List.take_left]
  · rw [if_neg hnumeric]
    exact hsafe.dropped hs (by omega)

theorem safe_step (hs : Sized s) (hsafe : Safe s) (h : step s ins = some t) :
    Safe t ↔ Fair s ins := by
  obtain ⟨⟨-, hvalid⟩, h⟩ := Option.ite_none_right_eq_some.mp h
  cases h
  rcases insert_cases s ins with ⟨type, v, rfl⟩ | ⟨hinsert, hroom, hfair⟩
  · exact iff_of_true (safe_formatInteger hsafe hs hvalid) trivial
  · rw [hinsert, hfair]
    exact safe_append hsafe hs hroom

theorem sized_step (hs : Sized s) (h : step s ins = some t) : Sized t := by
  obtain ⟨-, h⟩ := Option.ite_none_right_eq_some.mp h
  cases h
  exact (sized_insert hs ins :)

/-! ## Every run -/

theorem safe_new : Safe new where
  room := by decide
  inside := nofun
  whole := Memory.window_zero _ _

theorem sized_new : Sized new := Memory.length_malloc _

/-- In every sequence of insertions: `length()` stays below `kLargeBuffer`, every store
is inside the array, and each piece is in the line as a whole or, where it does not fit,
not at all, exactly when no piece has a length that fits only as an `int`. -/
theorem insertions_safe_iff {inserted : List Insertion} (h : exec step new inserted = some s) :
    Throughout step Safe new inserted ↔ Meets step Fair new inserted :=
  throughout_iff_meets (fun _ _ _ hs hstep => sized_step hs hstep)
    (fun _ _ _ hs hsafe hstep => safe_step hs hsafe hstep) sized_new safe_new h

/-- A piece of less than 2 GiB. -/
theorem fair_of_small (hsmall : ins.text.length < 2 ^ 31) : Fair s ins := by
  rcases insert_cases s ins with ⟨type, v, rfl⟩ | ⟨-, -, hfair⟩
  · exact trivial
  · rw [hfair, toInt_of_small hsmall]
    exact id

/-- Up to that length `append` is that of `Base.LogOrder`. -/
theorem raw_append (hcur : s.cur ≤ kLargeBuffer) (hsmall : buf.length < 2 ^ 31) :
    (⟨(s.append buf).data, (s.append buf).cur⟩ : AsyncLogging.RawBuffer) =
      AsyncLogging.RawBuffer.append ⟨s.data, s.cur⟩ buf := by
  have havail : s.avail = (kLargeBuffer : Int) - s.cur := rfl
  have hraw : AsyncLogging.RawBuffer.avail ⟨s.data, s.cur⟩ = kLargeBuffer - s.cur := rfl
  unfold append AsyncLogging.RawBuffer.append
  rw [toInt_of_small hsmall]
  by_cases hfits : (buf.length : Int) < s.avail
  · have hin : s.cur + buf.length ≤ kLargeBuffer := by omega
    rw [if_pos hfits, if_pos (by omega)]
    dsimp only [store]
    rw [if_pos hin]
  · rw [if_neg hfits, if_neg (by omega)]

end

/-- Pieces of several kinds. -/
theorem insertions_safe_five : Throughout step Safe new
    [.string [97, 98], .cstring none, .char 58, .integer .long (-120), .bool true] := by
  have hgo : (exec step new [.string [97, 98], .cstring none, .char 58, .integer .long (-120),
      .bool true]).map LogStream.cur = some 14 := by
    decide +kernel
  obtain ⟨s, hs, -⟩ := Option.map_eq_some_iff.mp hgo
  exact (insertions_safe_iff hs).mpr (by decide +kernel)

/-- A string of 2 GiB: its length is negative as an `int`. -/
theorem insertions_safe_fails : ¬ ∀ (inserted : List Insertion) (s : LogStream),
    exec step new inserted = some s → Safe s := by
  intro hall
  have hlength : (List.replicate (2 ^ 31) (97 : UInt8)).length = 2 ^ 31 := List.length_replicate
  have hstep : step new (.string (List.replicate (2 ^ 31) 97)) = some
      { new.append (List.replicate (2 ^ 31) 97) with
        inserted := [.string (List.replicate (2 ^ 31) 97)] } := by
    refine if_pos ⟨nofun, ?_⟩
    show (List.replicate (2 ^ 31) (97 : UInt8)).length < 2 ^ 64
    omega
  have hsafe := hall [.string (List.replicate (2 ^ 31) 97)] _
    (exec_cons.mpr ⟨_, hstep, exec_nil _⟩)
  have hroom := hsafe.room
  have hnegative : toInt (2 ^ 31) < new.avail := by decide
  rw [append, hlength, if_pos hnegative] at hroom
  exact absurd hroom (by decide)

end LogStream

end WebServer

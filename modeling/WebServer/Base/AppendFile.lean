/-
# `Base.AppendFile` — the log file, under short writes

`AppendFile::append` of `FileUtil.cc`: one `fwrite_unlocked` of the whole line,
and retries of what is left of it until nothing is left or a retry writes
nothing.  What `fwrite_unlocked` answers is a parameter, `fwrite i` for the call
number `i` of the append, cut to what that call asks for.

The retries subtract what they write from `remain`, so the count of the bytes is
right (`chunks_count`); but all of them write from `logline + n`, where the first
write stopped (`retry_offset`), and the second retry that writes something
repeats what the first has written.  `in_order_iff` says for which answers that
does not happen.
-/
import WebServer.Lib.Memory
import Mathlib.Data.List.Range
import Mathlib.Algebra.Ring.Nat

namespace WebServer

/-- What the stream `fp_` has been given, and `writtenBytes_`, an `int`. -/
structure AppendFile where
  contents : Bytes
  writtenBytes : BitVec 32
  deriving DecidableEq

namespace AppendFile

/-- What a call of `write` has put into the file: `count` bytes from
`logline + offset`. -/
structure Chunk where
  offset : Nat
  count : Nat
  deriving DecidableEq

namespace Chunk

/-- The places of its bytes in the line. -/
def places (c : Chunk) : List Nat := List.range' c.offset c.count

def bytes (logline : Bytes) (c : Chunk) : Bytes := (logline.drop c.offset).take c.count

end Chunk

/-- `write(logline, len)`, as the call of that number. -/
def write (fwrite : Nat → Nat) (call len : Nat) : Nat := min (fwrite call) len

/-- The loop; `logline + n` is the same in every pass. -/
def retry (fwrite : Nat → Nat) (n call remain : Nat) : List Chunk :=
  if remain = 0 then []
  else if write fwrite call remain = 0 then [⟨n, 0⟩]
  else ⟨n, write fwrite call remain⟩ ::
    retry fwrite n (call + 1) (remain - write fwrite call remain)
termination_by remain
decreasing_by omega

/-- What the writes of an `append` of `len` bytes put into the file. -/
def chunks (fwrite : Nat → Nat) (len : Nat) : List Chunk :=
  let n := write fwrite 0 len
  ⟨0, n⟩ :: retry fwrite n 1 (len - n)

/-- `append(logline, len)`. -/
def append (file : AppendFile) (logline : Bytes) (fwrite : Nat → Nat) : AppendFile where
  contents := file.contents ++ (chunks fwrite logline.length).flatMap (Chunk.bytes logline)
  writtenBytes := file.writtenBytes + BitVec.ofNat 32 logline.length

/-! ## The passes of the loop -/

/-- The places in the line of the bytes that are written, in the order of writing. -/
def places (cs : List Chunk) : List Nat := cs.flatMap Chunk.places

section Retry

variable {fwrite : Nat → Nat} {n call remain : Nat}

theorem retry_done : retry fwrite n call 0 = [] := by
  rw [retry, if_pos rfl]

theorem retry_stuck (hremain : remain ≠ 0) (hx : write fwrite call remain = 0) :
    retry fwrite n call remain = [⟨n, 0⟩] := by
  rw [retry, if_neg hremain, if_pos hx]

theorem retry_more (hx : write fwrite call remain ≠ 0) :
    retry fwrite n call remain = ⟨n, write fwrite call remain⟩ ::
      retry fwrite n (call + 1) (remain - write fwrite call remain) := by
  have hremain : remain ≠ 0 := by
    rintro rfl
    exact hx (Nat.min_zero _)
  rw [retry, if_neg hremain, if_neg hx]

theorem write_le : write fwrite call remain ≤ remain := Nat.min_le_right _ _

/-- Every pass writes from the same place. -/
theorem retry_offset : ∀ c ∈ retry fwrite n call remain, c.offset = n := by
  induction call, remain using retry.induct fwrite with
  | case1 call =>
      rw [retry_done]
      exact fun c hc => absurd hc List.not_mem_nil
  | case2 call remain hremain hx =>
      rw [retry_stuck hremain hx]
      intro c hc
      rw [List.mem_singleton.mp hc]
  | case3 call remain _ hx ih =>
      rw [retry_more hx]
      intro c hc
      rcases List.mem_cons.mp hc with rfl | hc
      · rfl
      · exact ih c hc

/-- The passes write no more than what remains, and all of it unless one writes nothing. -/
theorem retry_count : ((retry fwrite n call remain).map Chunk.count).sum ≤ remain ∧
    ((∀ c ∈ retry fwrite n call remain, c.count ≠ 0) →
      ((retry fwrite n call remain).map Chunk.count).sum = remain) := by
  induction call, remain using retry.induct fwrite with
  | case1 call =>
      rw [retry_done]
      exact ⟨Nat.le_refl 0, fun _ => rfl⟩
  | case2 call remain hremain hx =>
      rw [retry_stuck hremain hx]
      exact ⟨Nat.zero_le _, fun h => absurd rfl (h _ List.mem_cons_self)⟩
  | case3 call remain _ hx ih =>
      obtain ⟨hle, hall⟩ := ih
      have hwrite : write fwrite call remain ≤ remain := write_le
      rw [retry_more hx, List.map_cons, List.sum_cons]
      dsimp only
      constructor
      · omega
      · intro h
        have hrest := hall fun c hc => h c (List.mem_cons_of_mem _ hc)
        omega

end Retry

/-! ## What an `append` writes -/

theorem length_places (cs : List Chunk) : (places cs).length = (cs.map Chunk.count).sum := by
  induction cs with
  | nil => rfl
  | cons c cs ih =>
      rw [places, List.flatMap_cons, List.length_append, List.map_cons, List.sum_cons, ← ih,
        Chunk.places, List.length_range']
      rfl

/-- The line, or less of it if a retry wrote nothing. -/
theorem chunks_count (fwrite : Nat → Nat) (len : Nat) :
    (places (chunks fwrite len)).length ≤ len ∧
      ((∀ c ∈ (chunks fwrite len).tail, c.count ≠ 0) →
        (places (chunks fwrite len)).length = len) := by
  have hn : write fwrite 0 len ≤ len := write_le
  obtain ⟨hle, hall⟩ := @retry_count fwrite (write fwrite 0 len) 1 (len - write fwrite 0 len)
  rw [length_places, chunks]
  simp only [List.map_cons, List.sum_cons, List.tail_cons]
  constructor
  · omega
  · intro h
    have hrest := hall h
    omega

theorem bytes_eq (logline : Bytes) (count : Nat) : ∀ offset : Nat,
    Chunk.bytes logline ⟨offset, count⟩ =
      (Chunk.places ⟨offset, count⟩).filterMap fun i => logline[i]? := by
  induction count with
  | zero => exact fun offset => List.take_zero
  | succ count ih =>
      intro offset
      have hrest := ih (offset + 1)
      simp only [Chunk.bytes, Chunk.places] at hrest ⊢
      rw [List.range'_succ, List.filterMap_cons, ← hrest]
      rcases Nat.lt_or_ge offset logline.length with hlt | hge
      · rw [List.drop_eq_getElem_cons hlt, List.take_succ_cons, List.getElem?_eq_getElem hlt]
      · rw [List.drop_eq_nil_of_le hge, List.getElem?_eq_none hge,
          List.drop_eq_nil_of_le (Nat.le_succ_of_le hge), List.take_nil, List.take_nil]

/-- Where the places are those of a beginning of the line, so are the bytes. -/
theorem bytes_of_places {cs : List Chunk} {k : Nat} (h : places cs = List.range k)
    (logline : Bytes) : cs.flatMap (Chunk.bytes logline) = logline.take k := by
  have hplaces : cs.flatMap (Chunk.bytes logline) =
      (places cs).filterMap fun i => logline[i]? := by
    rw [places, List.filterMap_flatMap]
    exact List.flatMap_congr fun c _ => bytes_eq logline c.count c.offset
  have hrange : (List.range k).filterMap (fun i => logline[i]?) = logline.take k := by
    rw [List.range_eq_range']
    exact (bytes_eq logline k 0).symm
  rw [hplaces, h, hrange]

/-! ## When it is the line -/

/-- Two passes that write something write the same byte. -/
theorem repeats {fwrite : Nat → Nat} {n call remain : Nat}
    (hx : write fwrite call remain ≠ 0) (hleft : remain - write fwrite call remain ≠ 0)
    (hy : fwrite (call + 1) ≠ 0) : ¬(places (retry fwrite n call remain)).Nodup := by
  have hy' : write fwrite (call + 1) (remain - write fwrite call remain) ≠ 0 := by
    rw [write]
    omega
  intro hnodup
  rw [retry_more hx, retry_more hy', places, List.flatMap_cons, List.flatMap_cons] at hnodup
  have hfirst : n ∈ Chunk.places ⟨n, write fwrite call remain⟩ :=
    List.mem_range'_1.mpr ⟨Nat.le_refl n, Nat.lt_add_of_pos_right (Nat.pos_of_ne_zero hx)⟩
  have hsecond : n ∈
      Chunk.places ⟨n, write fwrite (call + 1) (remain - write fwrite call remain)⟩ :=
    List.mem_range'_1.mpr ⟨Nat.le_refl n, Nat.lt_add_of_pos_right (Nat.pos_of_ne_zero hy')⟩
  exact (List.nodup_append.mp hnodup).2.2 n hfirst n (List.mem_append_left _ hsecond) rfl

/-- What the answers must be for the line to be written in order: one retry, or
none, writes something. -/
def OneRetry (fwrite : Nat → Nat) (len : Nat) : Prop :=
  len ≤ fwrite 0 + fwrite 1 ∨ fwrite 1 = 0 ∨ fwrite 2 = 0

theorem places_chunks (fwrite : Nat → Nat) (len : Nat) : places (chunks fwrite len) =
    List.range (write fwrite 0 len) ++
      places (retry fwrite (write fwrite 0 len) 1 (len - write fwrite 0 len)) := by
  rw [List.range_eq_range']
  rfl

/-- A pass that writes all that is left, or nothing, or is followed by one that
writes nothing. -/
theorem places_last {fwrite : Nat → Nat} {n call remain : Nat}
    (hlast : remain ≤ fwrite call ∨ fwrite call = 0 ∨ fwrite (call + 1) = 0) :
    places (retry fwrite n call remain) = List.range' n (write fwrite call remain) := by
  rcases Nat.eq_zero_or_pos remain with rfl | hremain
  · rw [retry_done, write, Nat.min_zero]
    rfl
  have hwrite : write fwrite call remain = min (fwrite call) remain := rfl
  rcases Nat.eq_zero_or_pos (write fwrite call remain) with hx | hx
  · rw [retry_stuck hremain.ne' hx, hx]
    rfl
  · rw [retry_more hx.ne', places, List.flatMap_cons]
    refine (congrArg (_ ++ ·) ?_).trans (List.append_nil _)
    rcases Nat.eq_zero_or_pos (remain - write fwrite call remain) with hleft | hleft
    · rw [hleft, retry_done]
      rfl
    · have hstuck : write fwrite (call + 1) (remain - write fwrite call remain) = 0 := by
        have hnext : fwrite (call + 1) = 0 := by omega
        rw [write, hnext, Nat.zero_min]
      rw [retry_stuck hleft.ne' hstuck]
      rfl

theorem places_iff (fwrite : Nat → Nat) (len : Nat) :
    (∃ k, places (chunks fwrite len) = List.range k) ↔ OneRetry fwrite len := by
  have hn : write fwrite 0 len = min (fwrite 0) len := rfl
  have hx : write fwrite 1 (len - write fwrite 0 len) =
      min (fwrite 1) (len - write fwrite 0 len) := rfl
  constructor
  · rintro ⟨k, hk⟩
    refine Classical.byContradiction fun hmany => ?_
    rw [OneRetry, not_or, not_or] at hmany
    obtain ⟨hshort, hfirst, hsecond⟩ := hmany
    have hnodup : (places (chunks fwrite len)).Nodup := hk ▸ List.nodup_range
    rw [places_chunks] at hnodup
    exact repeats (by omega) (by omega) hsecond (List.nodup_append.mp hnodup).2.1
  · intro hone
    have hlast : len - write fwrite 0 len ≤ fwrite 1 ∨ fwrite 1 = 0 ∨ fwrite 2 = 0 := by
      rw [OneRetry] at hone
      omega
    refine ⟨write fwrite 0 len + write fwrite 1 (len - write fwrite 0 len), ?_⟩
    rw [places_chunks, places_last hlast, List.range_eq_range', List.range_eq_range',
      ← List.range'_append_1, Nat.zero_add]

/-- An append writes a beginning of the line, byte after byte, and the whole line
unless a retry writes nothing, exactly when no second retry writes something. -/
theorem in_order_iff (file : AppendFile) (logline : Bytes) (fwrite : Nat → Nat) :
    (∃ k ≤ logline.length,
      places (chunks fwrite logline.length) = List.range k ∧
      (file.append logline fwrite).contents = file.contents ++ logline.take k ∧
      ((∀ c ∈ (chunks fwrite logline.length).tail, c.count ≠ 0) → k = logline.length)) ↔
    OneRetry fwrite logline.length := by
  rw [← places_iff]
  constructor
  · rintro ⟨k, -, hk, -⟩
    exact ⟨k, hk⟩
  · rintro ⟨k, hk⟩
    obtain ⟨hle, hall⟩ := chunks_count fwrite logline.length
    rw [hk, List.length_range] at hle hall
    exact ⟨k, hle, hk, congrArg (file.contents ++ ·) (bytes_of_places hk logline), hall⟩

/-- The line "abcd" written a byte at a time, with no retry that writes nothing,
is "abbb" in the file. -/
theorem in_order_fails :
    (append ⟨[], 0⟩ [97, 98, 99, 100] fun _ => 1).contents = [97, 98, 98, 98] ∧
    (∀ c ∈ (chunks (fun _ => 1) 4).tail, c.count ≠ 0) ∧
    ¬∃ k ≤ 4,
      places (chunks (fun _ => 1) 4) = List.range k ∧
      (append ⟨[], 0⟩ [97, 98, 99, 100] fun _ => 1).contents = [97, 98, 99, 100].take k ∧
      ((∀ c ∈ (chunks (fun _ => 1) 4).tail, c.count ≠ 0) → k = 4) := by
  have hchunks : chunks (fun _ => 1) 4 = [⟨0, 1⟩, ⟨1, 1⟩, ⟨1, 1⟩, ⟨1, 1⟩] := by
    simp [chunks, retry, write]
  have hcontents : (append ⟨[], 0⟩ [97, 98, 99, 100] fun _ => 1).contents = [97, 98, 98, 98] := by
    show [] ++ (chunks (fun _ => 1) 4).flatMap (Chunk.bytes [97, 98, 99, 100]) = _
    rw [hchunks]
    rfl
  have hcounts : ∀ c ∈ (chunks (fun _ => 1) 4).tail, c.count ≠ 0 := by
    rw [hchunks]
    decide
  refine ⟨hcontents, hcounts, ?_⟩
  rintro ⟨k, -, -, htake, hall⟩
  rw [hcontents, hall hcounts] at htake
  revert htake
  decide

end AppendFile

end WebServer

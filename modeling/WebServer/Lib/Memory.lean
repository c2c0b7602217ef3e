/-
# `Lib.Memory` — a block of bytes, and the C calls that fill it

A block of allocated memory is a list of cells; a cell is `none` as long as
nothing has been stored in it, so that reading what `malloc` left behind can
never be mistaken for reading data.  `poke` stores bytes, `window` reads a
range, `realloc` moves the block to one of another size.  `store`, `load` and
`fetch` are the same accesses where the block has an end: they refuse one that
goes past it.

`strncpy` is the C function, as the list of the bytes it stores: the source up
to its first NUL, padded with NULs to the length asked for.  It stores what it
was given exactly when nothing but NULs follows the first NUL
(`strncpy_eq_self_iff`).
-/
import Mathlib.Data.List.Basic
import Mathlib.Data.List.TakeDrop
import Mathlib.Data.List.TakeWhile

/-- A string of bytes. -/
abbrev Bytes := List UInt8

/-- A block of memory; a cell nothing was stored in is `none`. -/
abbrev Memory := List (Option UInt8)

namespace Memory

/-- Store `bs` at offset `i`. -/
def poke (m : Memory) (i : Nat) (bs : Bytes) : Memory :=
  m.take i ++ bs.map some ++ m.drop (i + bs.length)

/-- The `n` cells from offset `i`. -/
def window (m : Memory) (i n : Nat) : Memory := (m.drop i).take n

/-- The block `malloc(n)` returns. -/
def malloc (n : Nat) : Memory := List.replicate n none

/-- The block `realloc(m, n)` returns: the old contents as far as they fit. -/
def realloc (m : Memory) (n : Nat) : Memory := m.take n ++ malloc (n - m.length)

@[simp] theorem length_malloc (n : Nat) : (malloc n).length = n := List.length_replicate

@[simp] theorem length_realloc (m : Memory) (n : Nat) : (realloc m n).length = n := by
  simp only [realloc, List.length_append, List.length_take, length_malloc]
  omega

theorem length_poke {m : Memory} {i : Nat} {bs : Bytes} (h : i + bs.length ≤ m.length) :
    (poke m i bs).length = m.length := by
  simp only [poke, List.length_append, List.length_take, List.length_map, List.length_drop]
  omega

theorem length_window {m : Memory} {i n : Nat} (h : i + n ≤ m.length) :
    (window m i n).length = n := by
  simp only [window, List.length_take, List.length_drop]
  omega

theorem window_zero (m : Memory) (i : Nat) : window m i 0 = [] := by simp [window]

theorem drop_window (m : Memory) (i n k : Nat) :
    (window m i n).drop k = window m (i + k) (n - k) := by
  simp only [window, List.drop_take, List.drop_drop]

/-- Reading across the place just stored into: the cells before it, then the
bytes stored. -/
theorem window_poke {m : Memory} {r i : Nat} {bs : Bytes} (hr : r ≤ i)
    (hi : i + bs.length ≤ m.length) :
    window (poke m i bs) r (i - r + bs.length) = window m r (i - r) ++ bs.map some := by
  have hti : (m.take i).length = i := by
    rw [List.length_take]; omega
  have hdrop : (poke m i bs).drop r
      = (m.take i).drop r ++ bs.map some ++ m.drop (i + bs.length) := by
    rw [poke, List.append_assoc, List.drop_append_of_le_length (by omega), ← List.append_assoc]
  have hlen : ((m.take i).drop r ++ bs.map some).length = i - r + bs.length := by
    rw [List.length_append, List.length_drop, hti, List.length_map]
  rw [window, hdrop, ← hlen, List.take_left, List.drop_take, window]

theorem window_realloc {m : Memory} {r k n : Nat} (hm : r + k ≤ m.length) (hn : r + k ≤ n) :
    window (realloc m n) r k = window m r k := by
  have hlen : (m.take n).length = min n m.length := List.length_take
  rw [window, realloc, List.drop_append_of_le_length (by omega),
    List.take_append_of_le_length (by rw [List.length_drop]; omega), List.drop_take,
    List.take_take, window]
  congr 1
  omega

theorem length_poked {m : Memory} {i : Nat} {bs : Bytes} (h : i + bs.length ≤ m.length) :
    (m.take i ++ bs.map some).length = i + bs.length := by
  simp only [List.length_append, List.length_take, List.length_map]
  omega

/-- Two stores, the second where the first one ends. -/
theorem poke_poke {m : Memory} {i : Nat} {as bs : Bytes} (h : i + as.length ≤ m.length) :
    poke (poke m i as) (i + as.length) bs = poke m i (as ++ bs) := by
  have hlen := length_poked h
  have htake : (poke m i as).take (i + as.length) = m.take i ++ as.map some := by
    rw [poke, List.take_left' hlen]
  have hdrop : (poke m i as).drop (i + as.length + bs.length) =
      m.drop (i + (as ++ bs).length) := by
    rw [poke, List.drop_append, List.drop_of_length_le (by omega), List.nil_append, hlen,
      List.drop_drop, List.length_append]
    congr 1
    omega
  rw [poke, htake, hdrop, poke, List.map_append, List.append_assoc (m.take i)]

/-! ## Accesses that are checked -/

/-- `poke`, refused where the block does not reach as far as the bytes do. -/
def store (m : Memory) (i : Nat) (bs : Bytes) : Option Memory :=
  if i + bs.length ≤ m.length then some (poke m i bs) else none

/-- `window`, refused where the block does not reach as far. -/
def load (m : Memory) (i n : Nat) : Option Memory :=
  if i + n ≤ m.length then some (window m i n) else none

/-- The bytes of a `load`, all of which must have been stored. -/
def fetch (m : Memory) (i n : Nat) : Option Bytes := (load m i n).bind fun cells => cells.mapM id

/-- `std::reverse` of the cells from offset `i` to offset `j`. -/
def reverseAt (m : Memory) (i j : Nat) : Option Memory :=
  if i ≤ j ∧ j ≤ m.length then some (m.take i ++ (window m i (j - i)).reverse ++ m.drop j)
  else none

theorem store_of_le {m : Memory} {i : Nat} {bs : Bytes} (h : i + bs.length ≤ m.length) :
    store m i bs = some (poke m i bs) := if_pos h

theorem load_of_le {m : Memory} {i n : Nat} (h : i + n ≤ m.length) :
    load m i n = some (window m i n) := if_pos h

/-- What was stored is what is fetched. -/
theorem fetch_store {m m' : Memory} {i : Nat} {bs : Bytes} (h : store m i bs = some m') :
    fetch m' i bs.length = some bs := by
  obtain ⟨hle, h⟩ := Option.ite_none_right_eq_some.mp h
  obtain rfl := Option.some.inj h
  have hwindow : window (poke m i bs) i bs.length = bs.map some := by
    have hpoke := window_poke (Nat.le_refl i) hle
    rwa [Nat.sub_self, Nat.zero_add, window_zero, List.nil_append] at hpoke
  have hbytes : (bs.map some).mapM id = some bs := by
    rw [List.mapM_map]
    exact List.mapM_pure.trans (congrArg some (List.map_id' bs))
  rw [fetch, load_of_le (by rwa [length_poke hle]), Option.bind_some, hwindow, hbytes]

/-- Of what was stored, the first part is reversed. -/
theorem reverseAt_poke {m : Memory} {i : Nat} {as bs : Bytes}
    (h : i + (as ++ bs).length ≤ m.length) :
    reverseAt (poke m i (as ++ bs)) i (i + as.length) = some (poke m i (as.reverse ++ bs)) := by
  have hlen := length_poke h
  rw [List.length_append] at h
  have hi : (m.take i).length = i := List.length_take_of_le (by omega)
  have hpoke : poke m i (as ++ bs) =
      m.take i ++ (as.map some ++ (bs.map some ++ m.drop (i + (as ++ bs).length))) := by
    rw [poke, List.map_append, List.append_assoc, List.append_assoc]
  have htake : (poke m i (as ++ bs)).take i = m.take i := by rw [hpoke, List.take_left' hi]
  have hwindow : window (poke m i (as ++ bs)) i (i + as.length - i) = as.map some := by
    rw [window, hpoke, List.drop_left' hi, List.take_left' (by rw [List.length_map]; omega)]
  have hdrop : (poke m i (as ++ bs)).drop (i + as.length) =
      bs.map some ++ m.drop (i + (as ++ bs).length) := by
    rw [hpoke, ← List.append_assoc, List.drop_left' (length_poked (by omega))]
  have hreversed : (as.reverse ++ bs).length = (as ++ bs).length := by
    rw [List.length_append, List.length_append, List.length_reverse]
  rw [reverseAt, if_pos ⟨Nat.le_add_right _ _, by omega⟩, htake, hwindow, hdrop, poke, hreversed,
    List.map_append, List.map_reverse, List.append_assoc, List.append_assoc, List.append_assoc]

end Memory

/-! ## `strncpy` -/

/-- The bytes `strncpy(dst, src, len)` stores at `dst`. -/
def strncpy (src : Bytes) (len : Nat) : Bytes :=
  let copied := (src.take len).takeWhile (· ≠ 0)
  copied ++ List.replicate (len - copied.length) 0

/-- Nothing but NULs follows the first NUL. -/
def NulTailed (bs : Bytes) : Prop := ∀ b ∈ bs.dropWhile (· ≠ 0), b = 0

instance (bs : Bytes) : Decidable (NulTailed bs) :=
  inferInstanceAs (Decidable (∀ b ∈ bs.dropWhile (· ≠ 0), b = 0))

@[simp] theorem length_strncpy (src : Bytes) (len : Nat) : (strncpy src len).length = len := by
  have h₁ : ((src.take len).takeWhile (· ≠ 0)).length ≤ (src.take len).length :=
    (List.takeWhile_prefix _).length_le
  rw [List.length_take] at h₁
  simp only [strncpy, List.length_append, List.length_replicate]
  omega

theorem strncpy_eq_self_iff {bs : Bytes} : strncpy bs bs.length = bs ↔ NulTailed bs := by
  have hsplit : bs.takeWhile (· ≠ 0) ++ bs.dropWhile (· ≠ 0) = bs := List.takeWhile_append_dropWhile
  have hlen := congrArg List.length hsplit
  rw [List.length_append] at hlen
  have hpad : bs.length - (bs.takeWhile (· ≠ 0)).length = (bs.dropWhile (· ≠ 0)).length := by omega
  have hcopy : strncpy bs bs.length
      = bs.takeWhile (· ≠ 0) ++ List.replicate (bs.dropWhile (· ≠ 0)).length 0 := by
    simp only [strncpy, List.take_length, hpad]
  rw [hcopy]
  constructor
  · intro h
    have htail : List.replicate (bs.dropWhile (· ≠ 0)).length 0 = bs.dropWhile (· ≠ 0) := by
      have hboth := h.trans hsplit.symm
      exact List.append_cancel_left hboth
    intro b hb
    rw [← htail] at hb
    exact List.eq_of_mem_replicate hb
  · intro h
    rw [← List.eq_replicate_of_mem h, hsplit]

/-- A string without NULs is copied unchanged. -/
theorem NulTailed.of_not_mem {bs : Bytes} (h : 0 ∉ bs) : NulTailed bs := by
  have : bs.dropWhile (· ≠ 0) = [] := by
    rw [List.dropWhile_eq_nil_iff]
    intro b hb
    simpa using fun h0 : b = 0 => h (h0 ▸ hb)
  intro b hb
  rw [this] at hb
  exact absurd hb List.not_mem_nil

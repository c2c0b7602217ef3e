/-
# `Lib.Ring` — a queue in a ring of slots

A vector of slots, the index of the oldest item, and how many there are: the
items are read from `head` on, and after the last slot comes the first.  An item
is added by writing the slot after the last one (`contents_push`), and the
oldest taken by moving `head` on (`contents_succ`).  What stands in the slots
outside does not matter (`contents_set`), so a slot may keep what was in it.
-/
import Mathlib.Data.Nat.ModEq

namespace Ring

variable {α : Type*} {slots : List α} {head size : Nat}

/-- The first `size` items, from the slot `head` on. -/
def contents (slots : List α) : Nat → Nat → List α
  | _, 0 => []
  | head, size + 1 => slots[head]?.toList ++ contents slots ((head + 1) % slots.length) size

theorem contents_succ (hhead : head < slots.length) (size : Nat) :
    contents slots head (size + 1) =
      slots[head] :: contents slots ((head + 1) % slots.length) size := by
  rw [contents, List.getElem?_eq_getElem hhead]
  rfl

/-- Once round the ring, no slot comes twice. -/
theorem index_ne (head : Nat) {i j : Nat} (hij : i < j) (hj : j < slots.length) :
    (head + i) % slots.length ≠ (head + j) % slots.length := by
  intro heq
  have hmod : i ≡ j [MOD slots.length] := Nat.ModEq.add_left_cancel' head heq
  rw [Nat.ModEq, Nat.mod_eq_of_lt (hij.trans hj), Nat.mod_eq_of_lt hj] at hmod
  exact absurd hmod (Nat.ne_of_lt hij)

theorem index_succ (head i : Nat) :
    ((head + 1) % slots.length + i) % slots.length = (head + (i + 1)) % slots.length := by
  rw [Nat.mod_add_mod, Nat.add_assoc, Nat.add_comm 1 i]

/-- A slot that holds none of the items can be written. -/
theorem contents_set {k : Nat} (a : α) (hhead : head < slots.length)
    (hk : ∀ i < size, (head + i) % slots.length ≠ k) :
    contents (slots.set k a) head size = contents slots head size := by
  induction size generalizing head with
  | zero => rfl
  | succ size ih =>
      have hne : head ≠ k := by
        have h := hk 0 (Nat.zero_lt_succ size)
        rwa [Nat.add_zero, Nat.mod_eq_of_lt hhead] at h
      have hrest := ih (Nat.mod_lt (head + 1) (Nat.zero_lt_of_lt hhead)) fun i hi => by
        rw [index_succ]
        exact hk (i + 1) (Nat.succ_lt_succ hi)
      rw [contents, contents, List.length_set, hrest, List.getElem?_set_ne hne.symm]

/-- An item written after the last one comes last. -/
theorem contents_push (a : α) (hhead : head < slots.length) (hsize : size < slots.length) :
    contents (slots.set ((head + size) % slots.length) a) head (size + 1) =
      contents slots head size ++ [a] := by
  induction size generalizing head with
  | zero =>
      rw [Nat.add_zero, Nat.mod_eq_of_lt hhead, contents, contents, List.getElem?_set_self hhead]
      rfl
  | succ size ih =>
      have hne : (head + (size + 1)) % slots.length ≠ head := by
        have h := index_ne head (Nat.zero_lt_succ size) hsize
        rw [Nat.add_zero, Nat.mod_eq_of_lt hhead] at h
        exact h.symm
      have hrest := ih (Nat.mod_lt (head + 1) (Nat.zero_lt_of_lt hhead)) (Nat.lt_of_succ_lt hsize)
      rw [index_succ] at hrest
      rw [contents, List.length_set, hrest, List.getElem?_set_ne hne, contents, List.append_assoc]

/-- The slot of an item that has been taken can be written. -/
theorem contents_pop (a : α) (hhead : head < slots.length) (hsize : size < slots.length) :
    contents (slots.set head a) ((head + 1) % slots.length) size =
      contents slots ((head + 1) % slots.length) size := by
  refine contents_set a (Nat.mod_lt (head + 1) (Nat.zero_lt_of_lt hhead)) fun i hi heq => ?_
  rw [index_succ] at heq
  have h := index_ne head (Nat.zero_lt_succ i) (Nat.lt_of_le_of_lt hi hsize)
  rw [Nat.add_zero, Nat.mod_eq_of_lt hhead] at h
  exact h heq.symm

end Ring

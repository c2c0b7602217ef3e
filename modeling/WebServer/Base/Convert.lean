/-
# `Base.Convert` — `convert`, as it is instantiated

`Base.LogStream` has the digits that `convert` writes, for a number; here is the
template at the types it is instantiated at, on words of 32 and 64 bits, with the
stores it makes one by one and its `std::reverse`.  A store outside the block, and an
index outside `digits`, have no outcome.

Division and remainder truncate, so of a negative number all digits are negative, and
the table has them too.  Nothing is negated: the least number is like any other
(`val_div10`, `lsd_eq`).  `convert_eq` says that both modules have the same characters,
and `convert_exact` that they are the number as it is written in base 10.
-/
import WebServer.Base.LogStream
import WebServer.Lib.Decimal

namespace WebServer

namespace LogStream

/-! ## The types -/

namespace IntType

/-- The bits of the type `T` that `formatInteger` is given; a short type is cast to `int`
or `unsigned int` before. -/
def width : IntType → Nat
  | .short => 32
  | .unsignedShort => 32
  | .int => 32
  | .unsignedInt => 32
  | .long => 64
  | .unsignedLong => 64
  | .longLong => 64
  | .unsignedLongLong => 64

def signed : IntType → Bool
  | .short => true
  | .unsignedShort => false
  | .int => true
  | .unsignedInt => false
  | .long => true
  | .unsignedLong => false
  | .longLong => true
  | .unsignedLongLong => false

/-- The number that a word stands for. -/
def val (T : IntType) (x : BitVec T.width) : Int := if T.signed then x.toInt else x.toNat

/-! ## The operators -/

/-- `i % 10`. -/
def mod10 (T : IntType) (i : BitVec T.width) : BitVec T.width :=
  if T.signed then i.srem 10#T.width else i % 10#T.width

/-- `i / 10`. -/
def div10 (T : IntType) (i : BitVec T.width) : BitVec T.width :=
  if T.signed then i.sdiv 10#T.width else i / 10#T.width

/-- `static_cast<int>(i % 10)`. -/
def lsd (T : IntType) (i : BitVec T.width) : Int := ((T.mod10 i).setWidth 32).toInt

theorem width_cases (T : IntType) : T.width = 32 ∨ T.width = 64 := by
  cases T <;> decide

section

variable {w : Nat}

theorem toInt_ten (hw : w = 32 ∨ w = 64) : (10#w).toInt = 10 := by
  rcases hw with rfl | rfl <;> rfl

theorem toNat_ten (hw : w = 32 ∨ w = 64) : (10#w).toNat = 10 := by
  rcases hw with rfl | rfl <;> rfl

theorem toInt_bounds (hw : w = 32 ∨ w = 64) (x : BitVec w) :
    -2 ^ 63 ≤ x.toInt ∧ x.toInt < 2 ^ 63 := by
  have hlt := x.isLt
  rw [BitVec.toInt_eq_toNat_cond]
  rcases hw with rfl | rfl <;> split <;> omega

theorem toNat_lt (hw : w = 32 ∨ w = 64) (x : BitVec w) : x.toNat < 2 ^ 64 := by
  have hlt := x.isLt
  rcases hw with rfl | rfl <;> omega

theorem ten_ne_neg_one (hw : w = 32 ∨ w = 64) : 10#w ≠ -1#w := by
  rcases hw with rfl | rfl <;> decide

/-- A small word is the same number as an `int`. -/
theorem toInt_setWidth_of_small (hw : w = 32 ∨ w = 64) {r : BitVec w} (hlow : -10 < r.toInt)
    (hhigh : r.toInt < 10) : (r.setWidth 32).toInt = r.toInt := by
  have hlt := r.isLt
  rw [BitVec.toInt_setWidth, Int.bmod_def]
  rw [BitVec.toInt_eq_toNat_cond] at hlow hhigh ⊢
  rcases hw with rfl | rfl <;> split at hlow <;> split <;> omega

theorem toInt_setWidth_of_lt {r : BitVec w} (h : r.toNat < 10) :
    (r.setWidth 32).toInt = r.toNat := by
  rw [BitVec.toInt_setWidth, Int.bmod_eq_of_le (by omega) (by omega)]

end

theorem val_eq_zero {T : IntType} {i : BitVec T.width} : T.val i = 0 ↔ i = 0#T.width := by
  unfold val
  split
  · exact ⟨fun h => BitVec.eq_of_toInt_eq (h.trans BitVec.toInt_zero.symm),
      fun h => h ▸ BitVec.toInt_zero⟩
  · constructor
    · intro h
      exact BitVec.eq_of_toNat_eq (Int.ofNat_inj.mp h)
    · rintro rfl
      rfl

theorem val_div10 (T : IntType) (i : BitVec T.width) :
    T.val (T.div10 i) = (T.val i).tdiv 10 := by
  unfold val div10
  cases T.signed with
  | true =>
      show (i.sdiv 10#T.width).toInt = i.toInt.tdiv 10
      rw [BitVec.toInt_sdiv_of_ne_or_ne i _ (Or.inr (ten_ne_neg_one T.width_cases)),
        toInt_ten T.width_cases]
  | false =>
      show ((i / 10#T.width).toNat : Int) = (i.toNat : Int).tdiv 10
      rw [BitVec.toNat_udiv, toNat_ten T.width_cases]
      rfl

theorem lsd_eq (T : IntType) (i : BitVec T.width) : T.lsd i = (T.val i).tmod 10 := by
  unfold lsd val mod10
  cases T.signed with
  | true =>
      have hrem : (i.srem 10#T.width).toInt = i.toInt.tmod 10 := by
        rw [BitVec.toInt_srem, toInt_ten T.width_cases]
      have hlow := Int.lt_tmod_of_pos i.toInt (show (0 : Int) < 10 by decide)
      have hhigh := Int.tmod_lt_of_pos i.toInt (show (0 : Int) < 10 by decide)
      exact (toInt_setWidth_of_small T.width_cases (hrem ▸ hlow) (hrem ▸ hhigh)).trans hrem
  | false =>
      have hrem : (i % 10#T.width).toNat = i.toNat % 10 := by
        rw [BitVec.toNat_umod, toNat_ten T.width_cases]
      have hlt := Nat.mod_lt i.toNat (show 0 < 10 by decide)
      exact (toInt_setWidth_of_lt (hrem ▸ hlt)).trans (congrArg Nat.cast hrem)

end IntType

/-! ## `convert` -/

/-- `zero[lsd]`, an access to `digits`. -/
def zeroAt (lsd : Int) : Option UInt8 := if 0 ≤ 9 + lsd then digits[(9 + lsd).toNat]? else none

namespace IntType

/-- The loop, from the store at `p` on: the block after it, and `p`. -/
def convertLoop (T : IntType) (m : Memory) (p : Nat) (i : BitVec T.width) :
    Option (Memory × Nat) := do
  let c ← zeroAt (T.lsd i)
  let m ← m.store p [c]
  if T.div10 i = 0#T.width then some (m, p + 1) else convertLoop T m (p + 1) (T.div10 i)
termination_by (T.val i).natAbs
decreasing_by
  rename_i hmore
  rw [val_div10, natAbs_tdiv_ten]
  have hi : T.val i ≠ 0 := by
    intro h
    refine hmore (val_eq_zero.mp ?_)
    rw [val_div10, h, Int.zero_tdiv]
  omega

/-- The minus sign, if the value has one. -/
def storeSign (T : IntType) (m : Memory) (p : Nat) (value : BitVec T.width) :
    Option (Memory × Nat) :=
  if T.val value < 0 then (m.store p [45]).map fun m => (m, p + 1) else some (m, p)

/-- `convert(buf, value)`: the block after it, and what it returns. -/
def convert (T : IntType) (m : Memory) (buf : Nat) (value : BitVec T.width) :
    Option (Memory × Nat) := do
  let (m, p) ← T.convertLoop m buf value
  let (m, p) ← T.storeSign m p value
  let m ← m.store p [0]
  let m ← m.reverseAt buf p
  some (m, p - buf)

end IntType

/-! ## What it leaves -/

theorem zeroAt_eq {lsd : Int} (hlow : -10 < lsd) (hhigh : lsd < 10) :
    zeroAt lsd = some (zero lsd) := by
  have hlength : digits.length = 19 := rfl
  have hlt : (9 + lsd).toNat < digits.length := by omega
  rw [zeroAt, if_pos (by omega), zero, List.getD_eq_getElem?_getD,
    List.getElem?_eq_getElem hlt, Option.getD_some]

/-- The table is a mirror: a digit and its negative have one character. -/
theorem zero_char : ∀ d : Nat, d < 10 → zero d = Decimal.char d ∧ zero (-d) = Decimal.char d := by
  decide

theorem zero_tmod (v : Int) : zero (v.tmod 10) = Decimal.char (v.natAbs % 10) := by
  have habs : (v.tmod 10).natAbs = v.natAbs % 10 := Int.natAbs_tmod v 10
  have hten := Nat.mod_lt v.natAbs (show 0 < 10 by decide)
  obtain ⟨hpos, hneg⟩ := zero_char _ hten
  rw [← habs] at hpos hneg ⊢
  rcases Int.natAbs_eq (v.tmod 10) with h | h
  · rwa [← h] at hpos
  · rwa [← h] at hneg

/-- The loop of `convert` writes the digits of the number without its sign. -/
theorem convertLoop_eq_digits (v : Int) : convertLoop v = Decimal.digits v.natAbs := by
  induction v using convertLoop.induct with
  | case1 v hdone =>
      have hlt : v.natAbs < 10 := by
        have habs := natAbs_tdiv_ten v
        rw [hdone] at habs
        omega
      rw [convertLoop, if_pos hdone, zero_tmod, Nat.mod_eq_of_lt hlt, Decimal.digits_of_lt hlt]
  | case2 v hmore ih =>
      have hle : 10 ≤ v.natAbs := by
        have hne := mt Int.natAbs_eq_zero.mp hmore
        rw [natAbs_tdiv_ten] at hne
        omega
      rw [convertLoop, if_neg hmore, zero_tmod, ih, natAbs_tdiv_ten, Decimal.digits_of_le hle]

theorem convert_eq_decimal (v : Int) : convert v = Decimal.decimal v := by
  rw [convert, List.reverse_append, convertLoop_eq_digits, Decimal.decimal]
  congr 1
  split <;> rfl

namespace IntType

/-- One round of the loop: the digit is stored, and the rest of the number is left. -/
theorem convertLoop_round (T : IntType) {m : Memory} {p : Nat} {i : BitVec T.width}
    (hroom : p + 1 ≤ m.length) : T.convertLoop m p i =
      if (T.val i).tdiv 10 = 0 then some (m.poke p [zero ((T.val i).tmod 10)], p + 1)
      else T.convertLoop (m.poke p [zero ((T.val i).tmod 10)]) (p + 1) (T.div10 i) := by
  have hlow := Int.lt_tmod_of_pos (T.val i) (show (0 : Int) < 10 by decide)
  have hhigh := Int.tmod_lt_of_pos (T.val i) (show (0 : Int) < 10 by decide)
  have hstore : m.store p [zero ((T.val i).tmod 10)] =
      some (m.poke p [zero ((T.val i).tmod 10)]) := Memory.store_of_le hroom
  rw [convertLoop, lsd_eq, zeroAt_eq hlow hhigh, ← val_div10]
  simp only [Option.bind_eq_bind, Option.bind_some, hstore, val_eq_zero]

theorem convertLoop_eq (T : IntType) {v : Int} : ∀ {m : Memory} {p : Nat} {i : BitVec T.width},
    T.val i = v → p + (LogStream.convertLoop v).length ≤ m.length →
    T.convertLoop m p i = some (m.poke p (LogStream.convertLoop v),
      p + (LogStream.convertLoop v).length) := by
  induction v using LogStream.convertLoop.induct with
  | case1 v hdone =>
      intro m p i hi hroom
      have hlast : LogStream.convertLoop v = [zero (v.tmod 10)] := by
        rw [LogStream.convertLoop, if_pos hdone]
      rw [hlast] at hroom ⊢
      rw [convertLoop_round T hroom, hi, if_pos hdone]
      rfl
  | case2 v hmore ih =>
      intro m p i hi hroom
      have hnext : LogStream.convertLoop v =
          zero (v.tmod 10) :: LogStream.convertLoop (v.tdiv 10) := by
        rw [LogStream.convertLoop, if_neg hmore]
      rw [hnext, List.length_cons] at hroom
      have hone : p + [zero (v.tmod 10)].length ≤ m.length := by
        rw [List.length_singleton]
        omega
      have hrest := ih (m := m.poke p [zero (v.tmod 10)]) (p := p + 1) (i := T.div10 i)
        (by rw [val_div10, hi]) (by rw [Memory.length_poke hone]; omega)
      rw [convertLoop_round T (by omega), hi, if_neg hmore, hrest, hnext, List.length_cons]
      refine congrArg some (Prod.ext (Memory.poke_poke hone) ?_)
      dsimp only
      omega

theorem storeSign_eq (T : IntType) {m : Memory} {buf : Nat} {bs : Bytes}
    (value : BitVec T.width) (hroom : buf + (bs.length + 1) ≤ m.length) :
    T.storeSign (m.poke buf bs) (buf + bs.length) value =
      some (m.poke buf (bs ++ if T.val value < 0 then [45] else []),
        buf + (bs ++ if T.val value < 0 then [45] else []).length) := by
  have hbs : buf + bs.length ≤ m.length := by omega
  unfold storeSign
  by_cases hneg : T.val value < 0
  · have hstore : (m.poke buf bs).store (buf + bs.length) [45] =
        some ((m.poke buf bs).poke (buf + bs.length) [45]) := by
      refine Memory.store_of_le ?_
      rw [Memory.length_poke hbs, List.length_singleton]
      omega
    rw [if_pos hneg, if_pos hneg, hstore, Option.map_some, Memory.poke_poke hbs,
      List.length_append, List.length_singleton, Nat.add_assoc]
  · rw [if_neg hneg, if_neg hneg, List.append_nil]

/-- The typed `convert` stores, from `buf` on, the characters that `Base.LogStream` has for
the number, with a NUL, and returns their number. -/
theorem convert_eq (T : IntType) {m : Memory} {buf : Nat} (value : BitVec T.width)
    (hroom : buf + ((LogStream.convert (T.val value)).length + 1) ≤ m.length) :
    T.convert m buf value = some (m.poke buf (LogStream.convert (T.val value) ++ [0]),
      (LogStream.convert (T.val value)).length) := by
  generalize htext : (LogStream.convertLoop (T.val value) ++
    if T.val value < 0 then [45] else [] : Bytes) = text
  have hconvert : LogStream.convert (T.val value) = text.reverse := by
    rw [LogStream.convert, htext]
  have hlength := congrArg List.length htext
  rw [List.length_append] at hlength
  rw [hconvert, List.length_reverse] at hroom ⊢
  have hloop := T.convertLoop_eq (m := m) (p := buf) (i := value) rfl (by omega)
  have hsign : T.storeSign (m.poke buf (LogStream.convertLoop (T.val value)))
      (buf + (LogStream.convertLoop (T.val value)).length) value =
        some (m.poke buf text, buf + text.length) := by
    rw [T.storeSign_eq value (by omega), htext]
  have hnul : (m.poke buf text).store (buf + text.length) [0] =
      some (m.poke buf (text ++ [0])) := by
    rw [← Memory.poke_poke (by omega)]
    refine Memory.store_of_le ?_
    rw [Memory.length_poke (by omega), List.length_singleton]
    omega
  have hreversed : (m.poke buf (text ++ [0])).reverseAt buf (buf + text.length) =
      some (m.poke buf (text.reverse ++ [0])) := by
    refine Memory.reverseAt_poke ?_
    rw [List.length_append, List.length_singleton]
    exact hroom
  simp only [convert, hloop, hsign, hnul, hreversed, Option.bind_eq_bind, Option.bind_some,
    Nat.add_sub_cancel_left]

/-! ## The number as it is written -/

theorem val_bounds (T : IntType) (x : BitVec T.width) : -2 ^ 63 ≤ T.val x ∧ T.val x < 2 ^ 64 := by
  obtain ⟨hlow, hhigh⟩ := toInt_bounds T.width_cases x
  have hlt := toNat_lt T.width_cases x
  unfold val
  split <;> omega

/-- In a block that has 21 bytes from `buf` on, `convert` stores one text and its NUL, 21
bytes at most, leaves the other bytes, and returns the length of the text.  It is the one
way to write the value in base 10, and reads as the value. -/
theorem convert_exact (T : IntType) (value : BitVec T.width) {m : Memory} {buf : Nat}
    (hroom : buf + 21 ≤ m.length) :
    ∃ text : Bytes, T.convert m buf value = some (m.poke buf (text ++ [0]), text.length) ∧
      text.length + 1 ≤ 21 ∧ (text.length : Int) + 1 < kMaxNumericSize ∧
      Decimal.Numeral (T.val value) text ∧
      ∀ s, Decimal.Numeral (T.val value) s → s = text := by
  obtain ⟨hlow, hhigh⟩ := T.val_bounds value
  have hlength := length_convert_of_bounds hlow hhigh
  have hmax : kMaxNumericSize = 32 := rfl
  refine ⟨LogStream.convert (T.val value), T.convert_eq value (by omega),
    by omega, by omega, ?_, ?_⟩
  · exact Decimal.numeral_iff.mpr (convert_eq_decimal _)
  · intro s hs
    rw [convert_eq_decimal]
    exact Decimal.numeral_iff.mp hs

/-- The least `long`, whose negative is no `long`. -/
theorem convert_exact_least : ∃ m : Memory,
    IntType.long.convert (Memory.malloc 21) 0 (BitVec.intMin 64) = some (m, 20) ∧
    m = [45, 57, 50, 50, 51, 51, 55, 50, 48, 51, 54, 56, 53, 52, 55, 55, 53, 56, 48, 56, 0].map
      some := by
  obtain ⟨text, hconvert, -, -, -, hunique⟩ := convert_exact .long (BitVec.intMin 64)
    (show 0 + 21 ≤ (Memory.malloc 21).length by decide)
  have hval : IntType.long.val (BitVec.intMin 64) = -9223372036854775808 := by decide
  have hleast : Decimal.Numeral (-9223372036854775808)
      [45, 57, 50, 50, 51, 51, 55, 50, 48, 51, 54, 56, 53, 52, 55, 55, 53, 56, 48, 56] := by
    refine ⟨by decide, by decide, ?_⟩
    rintro t (h | h) <;> cases h
  obtain rfl := hunique _ (hval ▸ hleast)
  exact ⟨_, hconvert, by decide⟩

/-! ## What `operator<<` inserts -/

/-- The values of a type are the numbers that its words stand for. -/
theorem Has.exists_val {T : IntType} {v : Int} (h : T.Has v) :
    ∃ x : BitVec T.width, T.val x = v := by
  refine ⟨BitVec.ofInt T.width v, ?_⟩
  cases T with
  | short | int =>
      obtain ⟨hlow, hhigh⟩ := h
      show (BitVec.ofInt 32 v).toInt = v
      rw [BitVec.toInt_ofInt, Int.bmod_eq_of_le (by omega) (by omega)]
  | long | longLong =>
      obtain ⟨hlow, hhigh⟩ := h
      show (BitVec.ofInt 64 v).toInt = v
      rw [BitVec.toInt_ofInt, Int.bmod_eq_of_le (by omega) (by omega)]
  | unsignedShort | unsignedInt =>
      obtain ⟨hlow, hhigh⟩ := h
      show ((BitVec.ofInt 32 v).toNat : Int) = v
      rw [BitVec.toNat_ofInt]
      omega
  | unsignedLong | unsignedLongLong =>
      obtain ⟨hlow, hhigh⟩ := h
      show ((BitVec.ofInt 64 v).toNat : Int) = v
      rw [BitVec.toNat_ofInt]
      omega

end IntType

/-- An integer that is inserted where there is room is what `convert` leaves at `current()`,
and `add` the length that it returns. -/
theorem insert_converts {s : LogStream} (hs : Sized s) {T : IntType} {v : Int} (hv : T.Has v)
    (hroom : kMaxNumericSize ≤ s.avail) :
    ∃ (x : BitVec T.width) (len : Nat), T.val x = v ∧
      T.convert s.data s.cur x = some ((s.insert (.integer T v)).data, len) ∧
      (s.insert (.integer T v)).cur = s.cur + len := by
  obtain ⟨x, rfl⟩ := hv.exists_val
  have hlength := length_convert hv
  have hmax : kMaxNumericSize = 32 := rfl
  have havail : s.avail = (kLargeBuffer : Int) - s.cur := rfl
  have hsize : s.data.length = kLargeBuffer := hs
  have hinsert : s.insert (.integer T (T.val x)) =
      { s.store (convert (T.val x) ++ [0]) with cur := s.cur + (convert (T.val x)).length } :=
    if_pos hroom
  have hdata : (s.store (convert (T.val x) ++ [0])).data =
      s.data.poke s.cur (convert (T.val x) ++ [0]) := by
    refine if_pos ?_
    rw [List.length_append, List.length_singleton]
    omega
  refine ⟨x, (convert (T.val x)).length, rfl, ?_, ?_⟩
  · rw [hinsert, T.convert_eq x (by omega)]
    exact congrArg (fun data => some (data, _)) hdata.symm
  · rw [hinsert]

end LogStream

end WebServer

import LedMatrix.Color

/-! # Bit planes

A channel is sent as sixteen words, the most significant bit of all three
primaries first. `pack` turns three counts into planes and `value` reads a
count back; each undoes the other, except that `pack` never sets a bit outside
the data mask. -/

namespace LedMatrix

/-- The words of one channel, most significant plane first. -/
abbrev Planes := Vector Word 16

namespace Planes

def dark : Planes := Vector.replicate 16 0

/-- Plane `i` carries bit `15 - i` of each primary's count. -/
def pack (counts : Primary → UInt16) : Planes :=
  Vector.ofFn fun i => Word.ofBits fun p => (counts p).toBitVec.getMsbD i

/-- A count with one more bit at its low end. -/
def push (count : UInt16) (b : Bool) : UInt16 := count <<< 1 ||| if b then 1 else 0

/-- The count that the planes spell on one primary. -/
def value (planes : Planes) (p : Primary) : UInt16 :=
  planes.foldl (fun count word => push count (word.carries p)) 0

/-- The words with every bit outside the data mask dropped. -/
def masked (planes : Planes) : Planes := planes.map (· &&& Word.dataMask)

/-- A plane is the word of one bit of every count. -/
theorem getElem_pack (counts : Primary → UInt16) {i : Nat} (h : i < 16) :
    (pack counts)[i] = Word.ofBits fun p => (counts p).toBitVec.getLsbD (15 - i) := by
  simp only [pack, Vector.getElem_ofFn, BitVec.getMsbD_eq_getLsbD, h, decide_true, Bool.true_and,
    Nat.reduceSub]

theorem carries_pack (counts : Primary → UInt16) (p : Primary) {i : Nat} (h : i < 16) :
    (pack counts)[i].carries p = (counts p).toBitVec.getMsbD i := by
  simp [pack]

theorem getLsbD_push (count : UInt16) (b : Bool) {k : Nat} (hk : k < 16) :
    (push count b).toBitVec.getLsbD k =
      if k = 0 then b else count.toBitVec.getLsbD (k - 1) := by
  have hshift : (count <<< 1).toBitVec.getLsbD k =
      (decide (k ≠ 0) && count.toBitVec.getLsbD (k - 1)) := by
    rw [UInt16.toBitVec_shiftLeft, show (1 : UInt16).toBitVec % 16 = 1#16 from rfl,
      BitVec.shiftLeft_eq', BitVec.getLsbD_shiftLeft]
    by_cases h0 : k = 0 <;> simp [hk, h0]
  have hbit : (if b then 1 else 0 : UInt16).toBitVec.getLsbD k = (decide (k = 0) && b) := by
    cases b <;> simp
  rw [push, UInt16.toBitVec_or, BitVec.getLsbD_or, hshift, hbit]
  by_cases h0 : k = 0 <;> simp [h0]

/-- Folding words in leaves the last word's bit lowest. -/
theorem getLsbD_foldl (p : Primary) (words : List Word) (count : UInt16) {k : Nat} (hk : k < 16) :
    (words.foldl (fun c w => push c (w.carries p)) count).toBitVec.getLsbD k =
      ((words.reverse.map (Word.carries · p))[k]?.getD
        (count.toBitVec.getLsbD (k - words.length))) := by
  induction words generalizing count with
  | nil => simp
  | cons w ws ih =>
    rw [List.foldl_cons, ih]
    simp only [List.reverse_cons, List.map_append, List.map_cons, List.map_nil]
    by_cases h : k < ws.length
    · simp [List.getElem?_append, h]
    · rw [List.getElem?_append_right (by simpa using h), List.getElem?_eq_none (by simpa using h),
        Option.getD_none, getLsbD_push _ _ (by omega)]
      by_cases h0 : k - ws.length = 0
      · simp [h0]
      · simp only [List.length_cons, List.length_map, List.length_reverse, h0, if_false]
        rw [List.getElem?_eq_none (by simp; omega), Option.getD_none]
        congr 1

/-- Bit `k` of the value is carried by plane `15 - k`. -/
theorem getLsbD_value (planes : Planes) (p : Primary) {k : Nat} (hk : k < 16) :
    (planes.value p).toBitVec.getLsbD k = (planes[15 - k]).carries p := by
  unfold value
  rw [← Vector.foldl_toList, getLsbD_foldl p _ _ hk]
  simp [hk]

/-- Bit `i` of the value from the top is carried by plane `i`. -/
theorem getMsbD_value (planes : Planes) (p : Primary) {i : Nat} (hi : i < 16) :
    (planes.value p).toBitVec.getMsbD i = planes[i].carries p := by
  rw [BitVec.getMsbD_eq_getLsbD, getLsbD_value _ _ (by omega)]
  simp [hi, show 15 - (16 - 1 - i) = i by omega]

theorem value_pack (counts : Primary → UInt16) (p : Primary) :
    (pack counts).value p = counts p := by
  apply UInt16.toBitVec_inj.mp
  apply BitVec.eq_of_getMsbD_eq
  intro i hi
  rw [getMsbD_value _ _ hi, carries_pack _ _ hi]

theorem pack_value (planes : Planes) : pack planes.value = planes.masked := by
  apply Vector.ext
  intro i hi
  simp only [pack, masked, Vector.getElem_ofFn, Vector.getElem_map, ← Word.ofBits_carries]
  congr 1
  funext p
  exact getMsbD_value planes p hi

end Planes

end LedMatrix

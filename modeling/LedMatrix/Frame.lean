import LedMatrix.Color
import LedMatrix.Fault

/-! # Frames

A frame holds one color per LED and touches no hardware. Its view is `get?`:
each operation is described by what `get?` gives afterwards, and two frames are
equal when `get?` agrees everywhere. -/

namespace LedMatrix

structure Frame (leds : Nat) where
  colors : Vector Color leds
  deriving DecidableEq

namespace Frame

variable {leds : Nat}

def dark : Frame leds := ⟨Vector.replicate leds .off⟩

def size (_ : Frame leds) : Nat := leds

def isEmpty (frame : Frame leds) : Bool := frame.size == 0

def get? (frame : Frame leds) (index : Nat) : Option Color := frame.colors[index]?

/-- Paints one LED; an index that names no LED changes nothing. -/
def set (frame : Frame leds) (index : Nat) (color : Color) : Except Fault (Frame leds) :=
  if h : index < leds then .ok ⟨frame.colors.set index color h⟩
  else .error (.indexOutOfRange index leds)

/-- Paints every LED alike. -/
def fill (_ : Frame leds) (color : Color) : Frame leds := ⟨Vector.replicate leds color⟩

theorem ext_get? {f g : Frame leds} (h : ∀ i, f.get? i = g.get? i) : f = g := by
  have : f.colors = g.colors := Vector.ext fun i hi => by simpa [get?, hi] using h i
  cases f; cases g; cases this; rfl

@[simp] theorem get?_eq_none_iff {frame : Frame leds} {i : Nat} :
    frame.get? i = none ↔ leds ≤ i := by
  simp [get?]

theorem get?_dark {i : Nat} (h : i < leds) : (dark : Frame leds).get? i = some .off := by
  simp [get?, dark, h]

theorem get?_fill {frame : Frame leds} {color : Color} {i : Nat} (h : i < leds) :
    (frame.fill color).get? i = some color := by
  simp [get?, fill, h]

theorem set_of_lt {frame : Frame leds} {index : Nat} (color : Color) (h : index < leds) :
    frame.set index color = .ok ⟨frame.colors.set index color h⟩ := dif_pos h

theorem set_of_le {frame : Frame leds} {index : Nat} (color : Color) (h : leds ≤ index) :
    frame.set index color = .error (.indexOutOfRange index leds) :=
  dif_neg (Nat.not_lt.mpr h)

/-- Painting one LED changes that LED and no other. -/
theorem get?_of_set {frame next : Frame leds} {index : Nat} {color : Color}
    (h : frame.set index color = .ok next) (i : Nat) :
    next.get? i = if i = index then some color else frame.get? i := by
  by_cases hi : index < leds
  · rw [set_of_lt color hi] at h
    cases h
    simp only [get?, Vector.getElem?_set, eq_comm (a := index)]
  · rw [set_of_le color (by omega)] at h
    cases h

end Frame

end LedMatrix

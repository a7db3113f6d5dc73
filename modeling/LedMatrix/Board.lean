import LedMatrix.Layout

/-! # Known boards

The One 2 SF keyboard has five rows of sixteen columns, of which sixty-nine
carry an LED. -/

namespace LedMatrix

/-- A grid and the LEDs on it. -/
structure Board where
  rows : Nat
  cols : Nat
  leds : Nat
  layout : Layout leds

namespace Board

/-- The occupied columns of the One 2 SF, row by row. -/
def oneTwoSFColumns : List (List Nat) :=
  [[0, 1, 2, 3, 4, 5, 6, 7, 8, 9, 10, 11, 12, 13, 14],
   [0, 1, 2, 3, 4, 5, 6, 7, 8, 9, 10, 11, 12, 13, 14],
   [0, 1, 2, 3, 4, 5, 6, 7, 8, 9, 10, 11, 13, 14],
   [0, 2, 3, 4, 5, 6, 7, 8, 9, 10, 11, 12, 13],
   [0, 1, 2, 3, 5, 7, 9, 10, 11, 12, 13, 14]]

/-- LEDs are numbered along each row, the first row first. -/
def positionsOf (columns : List (List Nat)) : List Position :=
  columns.zipIdx.flatMap fun (cols, row) =>
    cols.map fun col => ⟨UInt8.ofNat row, UInt8.ofNat col⟩

def oneTwoSF : Board where
  rows := 5
  cols := 16
  leds := 69
  layout := ⟨(positionsOf oneTwoSFColumns).toArray, by decide⟩

theorem check_oneTwoSF : oneTwoSF.layout.check oneTwoSF.rows oneTwoSF.cols = .ok () :=
  Layout.check_eq_ok_iff.mpr (by decide)

end Board

end LedMatrix

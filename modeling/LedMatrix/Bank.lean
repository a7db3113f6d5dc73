import LedMatrix.Curve
import LedMatrix.Frame
import LedMatrix.Layout
import LedMatrix.Row

/-! # Banks

A bank is one full picture, row by row, in the form in which it is sent.
`encode` redraws a bank from a frame: what the bank held before does not
matter, LEDs outside the grid are skipped, of several LEDs at one position the
last one wins, and a column without an LED is dark. -/

namespace LedMatrix

abbrev Bank (rows cols : Nat) := Vector (Row cols) rows

namespace Bank

variable {leds rows cols : Nat}

def dark : Bank rows cols := Vector.replicate rows Row.dark

/-- A bank with every row turned dark. -/
def clear (bank : Bank rows cols) : Bank rows cols := bank.map Row.clear

@[simp] theorem clear_eq_dark (bank : Bank rows cols) : bank.clear = dark := by
  apply Vector.ext
  simp [clear, dark, Row.clear]

/-- Replaces the planes at a position; a position outside the grid is skipped. -/
def put (bank : Bank rows cols) (position : Position) (planes : Planes) : Bank rows cols :=
  if h : position.row.toNat < rows then
    bank.set position.row.toNat (bank[position.row.toNat].put position.col.toNat planes) h
  else bank

/-- The planes that show a color. -/
def planesOf (curve : Curve) (color : Color) : Planes :=
  .pack fun p => curve.count (color.intensity p)

/-- Puts planes at one position after the other. -/
def draw (bank : Bank rows cols) (cells : List (Position × Planes)) : Bank rows cols :=
  cells.foldl (fun bank (position, planes) => bank.put position planes) bank

theorem draw_append (bank : Bank rows cols) (s t : List (Position × Planes)) :
    bank.draw (s ++ t) = (bank.draw s).draw t := List.foldl_append

/-- What every LED shows, and where. -/
def cells (frame : Frame leds) (layout : Layout leds) (curve : Curve) : List (Position × Planes) :=
  (List.finRange leds).map fun led =>
    (getElem layout led led.isLt, planesOf curve (getElem frame.colors led led.isLt))

/-- Redraws a bank from a full frame. -/
def encode (old : Bank rows cols) (frame : Frame leds) (layout : Layout leds) (curve : Curve) :
    Bank rows cols :=
  old.clear.draw (cells frame layout curve)

/-- Encoding does not depend on what the bank held. -/
theorem encode_eq_encode_dark (old : Bank rows cols) (frame : Frame leds) (layout : Layout leds)
    (curve : Curve) : old.encode frame layout curve = dark.encode frame layout curve := by
  simp [encode]

/-- The planes at a row and column, if they are in the grid. -/
def planes? (bank : Bank rows cols) (row col : Nat) : Option Planes :=
  bank[row]?.bind (·.channel? col)

theorem ext_planes? {a b : Bank rows cols} (h : ∀ row col, a.planes? row col = b.planes? row col) :
    a = b := by
  apply Vector.ext
  intro i hi
  apply Row.ext_channel?
  intro col
  simpa [planes?, hi] using h i col

theorem planes?_dark {row col : Nat} (hr : row < rows) (hc : col < cols) :
    (dark : Bank rows cols).planes? row col = some Planes.dark := by
  simp [planes?, dark, hr, Row.channel?_dark hc]

theorem planes?_put {bank : Bank rows cols} {position : Position} {planes : Planes}
    (row col : Nat) :
    (bank.put position planes).planes? row col =
      if row = position.row.toNat ∧ col = position.col.toNat ∧ position.Within rows cols then
        some planes
      else bank.planes? row col := by
  unfold put
  split <;> rename_i hr
  · by_cases h : row = position.row.toNat
    · subst h
      simp [planes?, hr, Row.channel?_put, Position.Within]
    · simp [planes?, h, Ne.symm h]
  · simp [Position.Within, hr]

end Bank

/-- The three banks that change hands: one is drawn, one waits, one is shown. -/
structure Banks (rows cols : Nat) where
  back : Bank rows cols
  published : Bank rows cols
  active : Bank rows cols
  deriving DecidableEq

namespace Banks

variable {rows cols : Nat}

def dark : Banks rows cols := ⟨.dark, .dark, .dark⟩

def clear (banks : Banks rows cols) : Banks rows cols :=
  ⟨banks.back.clear, banks.published.clear, banks.active.clear⟩

@[simp] theorem clear_eq_dark (banks : Banks rows cols) : banks.clear = dark := by
  simp [clear, dark]

end Banks

end LedMatrix

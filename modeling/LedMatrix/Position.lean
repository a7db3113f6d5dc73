/-! # Where an LED sits

A position names the row line that powers an LED and the column of the chip
chain that sinks its current. -/

namespace LedMatrix

structure Position where
  row : UInt8 := 0
  col : UInt8 := 0
  deriving DecidableEq, Repr

namespace Position

/-- A position inside a grid of the given size. -/
def Within (rows cols : Nat) (p : Position) : Prop :=
  p.row.toNat < rows ∧ p.col.toNat < cols

instance (rows cols : Nat) (p : Position) : Decidable (p.Within rows cols) :=
  inferInstanceAs (Decidable (_ ∧ _))

end Position

end LedMatrix

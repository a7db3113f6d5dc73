import LedMatrix.Command
import LedMatrix.Position

/-! # What can go wrong

Every refused request names its cause. The scan itself never refuses. -/

namespace LedMatrix

inductive Fault where
  | indexOutOfRange (index leds : Nat)
  | positionOutOfRange (led : Nat) (position : Position)
  | invalidRefreshRate (hertz : UInt32)
  | invalidRowCount (rows : Nat)
  | alreadyStarted
  | notStarted
  | queueFull (dropped : Command)
  deriving DecidableEq, Repr

def Fault.message : Fault → String
  | .indexOutOfRange index leds => s!"LED index {index} out of range (count {leds})"
  | .positionOutOfRange led ⟨row, col⟩ =>
    s!"LED {led} mapped outside the matrix (row {row}, col {col})"
  | .invalidRefreshRate hertz => s!"Invalid refresh rate: {hertz} Hz"
  | .invalidRowCount rows => s!"Invalid row count: {rows}"
  | .alreadyStarted => "Driver already initialized"
  | .notStarted => "no successful init yet"
  | .queueFull dropped => "Command queue full, dropped " ++ dropped.describe

end LedMatrix

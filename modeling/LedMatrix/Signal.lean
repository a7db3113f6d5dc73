import LedMatrix.Color
import LedMatrix.Period

/-! # Signals

A signal is one thing that happens to the panel: a line driven to a level, a
word presented on the three data lines at once, or a change to the refresh
timer. A trace is a sequence of signals in the order in which they happen. -/

namespace LedMatrix

inductive Level where
  | low | high
  deriving DecidableEq, Repr

def Level.ofBool : Bool → Level
  | true => .high
  | false => .low

inductive Line where
  /-- Data is sampled as this line rises. -/
  | clock
  /-- Commands are told apart by how many clocks this line stays high. -/
  | latch
  /-- The chips sink current while this line is low. -/
  | outputEnable
  | data (p : Primary)
  /-- The switch that powers one row of LEDs while it is high. -/
  | row (n : UInt8)
  deriving DecidableEq, Repr

inductive Signal where
  | drive (line : Line) (level : Level)
  | present (word : Word)
  | timerPeriod (period : Period)
  | timerOn
  deriving DecidableEq, Repr

/-- Signals that reach a line, as opposed to the timer. -/
def Signal.onLines : Signal → Bool
  | .drive .. | .present _ => true
  | .timerPeriod _ | .timerOn => false

abbrev Trace := List Signal

/-- The number of signals that reach a line. -/
def Trace.lineCount (trace : Trace) : Nat := trace.countP Signal.onLines

@[simp] theorem Trace.lineCount_append (s t : Trace) :
    Trace.lineCount (s ++ t) = Trace.lineCount s + Trace.lineCount t :=
  List.countP_append

end LedMatrix

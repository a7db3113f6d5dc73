import LedMatrix.Signal

/-! # Wirings

A wiring decides what a signal becomes on a given board. Line by line, a word
is spread over the three data lines; a bus takes it in one store; pins are
line by line too, but a panel with `n` row pins has no pin for a row from `n`
on, and such a signal is lost. -/

namespace LedMatrix

inductive Wiring where
  | direct
  | bus
  | pins (rows : Nat)
  deriving DecidableEq, Repr

/-- A word, one data line after the other. -/
def Word.spread (word : Word) : Trace :=
  Primary.all.map fun p => .drive (.data p) (.ofBool (word.carries p))

/-- Whether a line has a pin among `rows` row pins and one pin for each other line. -/
def Line.hasPin (rows : Nat) : Line → Bool
  | .row n => n.toNat < rows
  | _ => true

namespace Wiring

/-- What a signal becomes on the board. -/
def carry : Wiring → Signal → Trace
  | .bus, signal => [signal]
  | .direct, .present word => word.spread
  | .direct, signal => [signal]
  | .pins _, .present word => word.spread
  | .pins rows, .drive line level => if line.hasPin rows then [.drive line level] else []
  | .pins _, signal => [signal]

def carryAll (wiring : Wiring) (trace : Trace) : Trace := trace.flatMap wiring.carry

@[simp] theorem carryAll_nil (wiring : Wiring) : wiring.carryAll [] = [] := rfl

@[simp] theorem carryAll_append (wiring : Wiring) (s t : Trace) :
    wiring.carryAll (s ++ t) = wiring.carryAll s ++ wiring.carryAll t :=
  List.flatMap_append

/-- A bus takes every signal as it is. -/
@[simp] theorem carryAll_bus (trace : Trace) : Wiring.bus.carryAll trace = trace :=
  List.flatMap_singleton' trace

end Wiring

end LedMatrix

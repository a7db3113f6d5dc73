import LedMatrix.Burst
import LedMatrix.Command
import LedMatrix.Register
import LedMatrix.Row

/-! # Instructions

What the panel can be told to do, and the signals that tell it. -/

namespace LedMatrix

inductive Instruction (cols : Nat) where
  /-- Sends a row of counts into the chips. -/
  | shift (row : Row cols)
  /-- Shows what was sent. -/
  | latchAll
  /-- Restarts the grayscale counters. -/
  | resetCounter
  /-- Writes the configuration register of every chip. -/
  | configure (value : UInt16)
  /-- Lets the chips sink current, or stops them. -/
  | output (on : Bool)
  /-- Turns off the first `count` row lines. -/
  | rowsOff (count : Nat)
  | rowOn (row : UInt8)
  deriving DecidableEq

namespace Instruction

variable {cols : Nat}

/-- The columns of a row go out last first. Row lines are numbered by a byte,
so there is nothing to turn off from 256 on. -/
def signals : Instruction cols → Trace
  | .shift row =>
    Burst.opening ++ row.channels.toList.reverse.flatMap fun planes => (Burst.column planes).signals
  | .latchAll => Burst.opening ++ Burst.globalLatch.signals
  | .resetCounter => Burst.opening ++ Burst.counterReset.signals
  | .configure value =>
    Burst.opening ++ Burst.configEnable.signals ++ (Burst.configData value).signals
  | .output on => [.drive .outputEnable (.ofBool !on)]
  | .rowsOff count => (List.range (min count 256)).map fun n => .drive (.row (.ofNat n)) .low
  | .rowOn row => [.drive (.row row) .high]

/-- Sets the current gain of every chip. -/
def setGain (gain : UInt8) : Instruction cols := .configure (Register.ofGain gain)

end Instruction

/-- What a queued command does when its turn comes. -/
def Command.instruction {cols : Nat} : Command → Instruction cols
  | .setGain gain => .setGain gain
  | .setOutput on => .output on

end LedMatrix

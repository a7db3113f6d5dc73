import LedMatrix.Planes
import LedMatrix.Signal

/-! # Bursts

The chips know no operation codes. They count how many clocks rise while the
latch line is high, and that number names the command. Every burst has sixteen
clocks; its latch line rises for the last of them and falls at the end. -/

namespace LedMatrix

structure Burst where
  /-- How many of the sixteen clocks rise while the latch line is high. -/
  latched : Nat
  /-- The words presented before each clock, if the burst sends any. -/
  data : Option Planes
  deriving DecidableEq

namespace Burst

/-- Sends the planes of one column. -/
def column (planes : Planes) : Burst := ⟨1, some planes⟩

/-- Moves what was sent into the comparators. -/
def globalLatch : Burst := ⟨3, none⟩

/-- Restarts the grayscale counters. -/
def counterReset : Burst := ⟨13, none⟩

/-- Announces a write of the configuration register. -/
def configEnable : Burst := ⟨15, none⟩

/-- Sends a register value, the same on all three data lines. -/
def configData (value : UInt16) : Burst := ⟨11, some (.pack fun _ => value)⟩

/-- Brings latch and clock to the level every burst starts from. -/
def opening : Trace := [.drive .latch .low, .drive .clock .low]

def pulse : Trace := [.drive .clock .high, .drive .clock .low]

/-- Clock `i`: its word, if there is one, then the latch line on the first
latched clock, then a pulse. -/
def cycle (burst : Burst) (i : Fin 16) : Trace :=
  (burst.data.elim [] fun planes => [.present planes[i]]) ++
    (if i.val + burst.latched = 16 then [.drive .latch .high] else []) ++ pulse

def signals (burst : Burst) : Trace :=
  (List.finRange 16).flatMap burst.cycle ++ [.drive .latch .low]

end Burst

end LedMatrix

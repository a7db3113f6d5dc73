import LedMatrix.Curve.Reference
import LedMatrix.Period
import LedMatrix.Register

/-! # Settings

What a panel is started with, beside its layout. -/

namespace LedMatrix

structure Config where
  /-- Refresh ticks per second; each tick lights one row. -/
  refreshRate : UInt32 := 1800
  /-- Current gain written to the chips at the start. -/
  gain : UInt8 := Register.defaultGain
  curve : Curve := .reference
  deriving DecidableEq

/-- The time between two refresh ticks. -/
def Config.period? (config : Config) (timebase : Timebase) : Option Period :=
  timebase.ofRate? config.refreshRate

end LedMatrix

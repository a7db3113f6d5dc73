/-! # Refresh periods

The refresh timer counts the ticks of some timebase. What period a timebase has
for a rate is its own affair; a controller relies on no more than that there is
one for every rate but zero. -/

namespace LedMatrix

structure Period where
  ticks : Nat
  deriving DecidableEq, Repr

structure Timebase where
  /-- The time between two refreshes at a rate in hertz. -/
  ofRate? : UInt32 → Option Period
  /-- A rate of zero may not be asked for. -/
  answers : ∀ hertz, hertz ≠ 0 → (ofRate? hertz).isSome

namespace Timebase

def period (timebase : Timebase) (hertz : UInt32) (h : hertz ≠ 0) : Period :=
  (timebase.ofRate? hertz).get (timebase.answers hertz h)

theorem ofRate?_of_ne_zero (timebase : Timebase) {hertz : UInt32} (h : hertz ≠ 0) :
    timebase.ofRate? hertz = some (timebase.period hertz h) :=
  (Option.some_get _).symm

/-- With so many ticks a second a rate takes the nearest whole number of them, and at
least one. -/
def ticking (perSecond : Nat) : Timebase where
  ofRate? hertz :=
    if hertz = 0 then none
    else if perSecond ≤ hertz.toNat then some ⟨1⟩
    else some ⟨(perSecond + hertz.toNat / 2) / hertz.toNat⟩
  answers hertz h := by
    rw [if_neg h]
    split <;> rfl

def microseconds : Timebase := ticking 1000000

end Timebase

end LedMatrix

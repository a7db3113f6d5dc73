/-! # The configuration register

The chips read their current gain from a six-bit field of a sixteen-bit
register. The two high bits of a gain byte never reach it. -/

namespace LedMatrix.Register

/-- The bits of the register that do not depend on the gain. -/
def base : UInt16 := 0x8400

/-- The bits of a gain byte that count. -/
def gainMask : UInt8 := 0x3f

def defaultGain : UInt8 := 3

def ofGain (gain : UInt8) : UInt16 := (gain &&& gainMask).toUInt16 <<< 4 ||| base

/-- Bits 4 to 9 hold the bits of the gain that count, and no other bit depends on it. -/
theorem ofGain_fields (gain : UInt8) :
    (ofGain gain >>> 4) &&& 0x3f = (gain &&& gainMask).toUInt16 ∧
      ofGain gain &&& ~~~0x3f0 = base := by
  have every : ∀ n : Fin 256, (ofGain (.ofFin n) >>> 4) &&& 0x3f =
      (UInt8.ofFin n &&& gainMask).toUInt16 ∧ ofGain (.ofFin n) &&& ~~~0x3f0 = base := by
    decide +kernel
  exact every gain.toFin

/-- Gains give the same register only if they agree in the bits that count. -/
theorem ofGain_eq_iff {g h : UInt8} : ofGain g = ofGain h ↔ g &&& gainMask = h &&& gainMask := by
  constructor
  · intro same
    have field := (ofGain_fields g).1
    rw [same, (ofGain_fields h).1] at field
    exact UInt8.toUInt16_inj.mp field.symm
  · intro same
    rw [ofGain, same, ofGain]

end LedMatrix.Register

/-! # Lightness curves

The eye responds to lightness, not to duty cycle, so a curve turns each of the
256 intensities into a grayscale count. A curve may be given entry by entry, in
which case it must start dark and never fall, or computed for a counter of any
depth from the CIE 1931 lightness formula. -/

namespace LedMatrix

structure Curve where
  counts : Vector UInt16 256
  deriving DecidableEq

namespace Curve

/-- Dark at the start, and no entry below the one before it. -/
def Rising (counts : Vector UInt16 256) : Prop :=
  counts[0] = 0 ∧ ∀ i : Fin 255, counts[i.val] ≤ counts[i.val + 1]

instance (counts : Vector UInt16 256) : Decidable (Rising counts) :=
  inferInstanceAs (Decidable (_ ∧ _))

def ofCounts? (counts : Vector UInt16 256) : Option Curve :=
  if Rising counts then some ⟨counts⟩ else none

/-- The grayscale count shown for an intensity. -/
def count (c : Curve) (intensity : UInt8) : UInt16 := c.counts.get intensity.toFin

/-- The count of full intensity. -/
def peak (c : Curve) : UInt16 := c.count 255

theorem ofCounts?_eq_some_iff {counts : Vector UInt16 256} {c : Curve} :
    ofCounts? counts = some c ↔ Rising counts ∧ c.counts = counts := by
  unfold ofCounts?
  split <;> rename_i h
  · simp only [Option.some.injEq, h, true_and]
    exact ⟨fun e => e ▸ rfl, fun e => by cases c; cases e; rfl⟩
  · simp [h]

theorem Rising.getElem_le {counts : Vector UInt16 256} (h : Rising counts) {i j : Nat}
    (hij : i ≤ j) (hj : j < 256) : counts[i] ≤ counts[j] := by
  induction j with
  | zero => simp [Nat.le_zero.mp hij]
  | succ j ih =>
    rcases Nat.lt_or_eq_of_le hij with hlt | rfl
    · exact UInt16.le_trans (ih (by omega) (by omega)) (h.2 ⟨j, by omega⟩)
    · exact UInt16.le_refl _

/-! ## The CIE 1931 formula -/

/-- The integer nearest to a quotient, a half going up. -/
def nearest (num den : Nat) : Nat := (2 * num + den) / (2 * den)

/-- The nearest integer is off by at most a half. -/
theorem nearest_bounds (num : Nat) {den : Nat} (h : 0 < den) :
    2 * den * nearest num den ≤ 2 * num + den ∧
      2 * num + den < 2 * den * (nearest num den + 1) := by
  have hd : 0 < 2 * den := by omega
  exact ⟨Nat.mul_div_le _ _, Nat.lt_mul_div_succ _ hd⟩

/-- Relative luminance of an intensity `i`, as numerator and denominator. With
lightness `L = 100 i / 255` it is `L / 902.3` up to `L = 8`, and
`((L + 16) / 116) ^ 3` above. -/
def luminance (i : Nat) : Nat × Nat :=
  if 100 * i ≤ 8 * 255 then (1000 * i, 9023 * 255)
  else (Nat.pow (100 * i + 16 * 255) 3, Nat.pow (116 * 255) 3)

/-- The count nearest to the luminance of an intensity, for a counter that ends
at `depth`. -/
def nearestCount (depth i : Nat) : Nat :=
  nearest (depth * (luminance i).1) (luminance i).2

def cie1931 (depth : UInt16) : Curve :=
  ⟨Vector.ofFn fun i => UInt16.ofNat (nearestCount depth.toNat i)⟩

end Curve

end LedMatrix

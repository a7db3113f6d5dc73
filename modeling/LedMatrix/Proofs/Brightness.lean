import LedMatrix.Proofs.ReadBack
import LedMatrix.Proofs.Tables

/-! # Brighter frames read brighter

Two frames drawn by one layout show the same LED at every place. So if no LED of one frame is
brighter than in the other, no count that is read back is greater, and none is greater than
the count of full intensity. What an LED shows is covered by a later LED at its place. -/

namespace LedMatrix

variable {leds rows cols : Nat}

/-- No LED of the one frame is brighter than in the other, on any primary. -/
def Frame.Dimmer (frame brighter : Frame leds) : Prop :=
  ∀ led p, (frame.colors.get led).intensity p ≤ (brighter.colors.get led).intensity p

namespace Bank

variable {old other : Bank rows cols} {frame brighter : Frame leds} {layout : Layout leds}
  {curve : Curve}

/-- What is read at a place rises with the LED that shows there. -/
theorem count?_encode_le (rising : Curve.Rising curve.counts) (dimmer : frame.Dimmer brighter)
    {row col : Nat} (hr : row < rows) (hc : col < cols) (p : Primary) :
    ∃ low high, (old.encode frame layout curve).count? row col p = some low ∧
      (other.encode brighter layout curve).count? row col p = some high ∧
      low ≤ high ∧ high ≤ curve.peak := by
  rcases layout.lastAt_or_empty row col with ⟨led, last⟩ | empty
  · exact ⟨_, _, count?_encode_of_lastAt old frame layout curve last hr hc p,
      count?_encode_of_lastAt other brighter layout curve last hr hc p,
      rising.count_le (dimmer led p), rising.count_le_peak _⟩
  · exact ⟨_, _, count?_encode_of_empty old frame layout curve empty hr hc p,
      count?_encode_of_empty other brighter layout curve empty hr hc p,
      UInt16.le_refl 0, UInt16.zero_le⟩

/-- An LED that is off on a primary leaves its place dark there, unless a later LED at the same
place is lit on it. -/
theorem count?_encode_off (rising : Curve.Rising curve.counts) {led : Fin leds} {p : Primary}
    (inside : (layout.get led).Within rows cols) (off : (frame.colors.get led).intensity p = 0)
    (uncovered : ∀ later, led < later → layout.get later = layout.get led →
      (frame.colors.get later).intensity p = 0) :
    (old.encode frame layout curve).count? (layout.get led).row.toNat
      (layout.get led).col.toNat p = some 0 := by
  have at_ : (layout.get led).At (layout.get led).row.toNat (layout.get led).col.toNat :=
    ⟨rfl, rfl⟩
  rcases layout.lastAt_or_empty (layout.get led).row.toNat (layout.get led).col.toNat with
    ⟨shown, last⟩ | empty
  · -- the LED that shows is this one or a later one, never an earlier one
    have dark : (frame.colors.get shown).intensity p = 0 := by
      rcases lt_trichotomy led shown with after | rfl | before
      · exact uncovered shown after last.here.eq
      · exact off
      · exact absurd at_ (last.last led before)
    rw [count?_encode_of_lastAt old frame layout curve last inside.1 inside.2, dark,
      rising.count_zero]
  · exact absurd at_ (empty led)

/-- Where two frames are drawn by one layout, one of them nowhere brighter than the other, the
dimmer one reads at most what the brighter one reads, at every place and on every primary. An
LED that is off on a primary reads zero, unless a later LED at its place is lit on it. -/
theorem brighter_never_reads_dimmer (layout : Layout leds) {frame brighter : Frame leds}
    {curve : Curve}
    (accepted : curve = .reference ∨ ∃ counts, Curve.ofCounts? counts = some curve)
    (dimmer : frame.Dimmer brighter) (old other : Bank rows cols) (p : Primary) :
    (∀ row col, row < rows → col < cols → ∃ low high,
      (old.encode frame layout curve).count? row col p = some low ∧
        (other.encode brighter layout curve).count? row col p = some high ∧
        low ≤ high ∧ low ≤ curve.peak ∧ high ≤ curve.peak) ∧
      (∀ row col, ¬(row < rows ∧ col < cols) →
        (old.encode frame layout curve).count? row col p = none ∧
          (other.encode brighter layout curve).count? row col p = none) ∧
      ∀ led, (layout.get led).Within rows cols → (frame.colors.get led).intensity p = 0 →
        (∀ later, led < later → layout.get later = layout.get led →
          (frame.colors.get later).intensity p = 0) →
        (old.encode frame layout curve).count? (layout.get led).row.toNat
          (layout.get led).col.toNat p = some 0 := by
  have rising := Curve.rising_of_accepted accepted
  refine ⟨fun row col hr hc => ?_, fun row col outside => ?_, fun led => count?_encode_off rising⟩
  · obtain ⟨low, high, read, read', le, bound⟩ := count?_encode_le rising dimmer hr hc p
    exact ⟨low, high, read, read', le, UInt16.le_trans le bound, bound⟩
  · exact ⟨count?_of_outside outside p, count?_of_outside outside p⟩

/-- Two LEDs share the place of a row, and a third is outside. Brightening the first and the
third shows nowhere, brightening the second does, and the place stays dark on blue. -/
theorem brighter_never_reads_dimmer_shared :
    let layout : Layout 3 := #v[⟨0, 0⟩, ⟨0, 0⟩, ⟨7, 7⟩]
    let frame : Frame 3 := ⟨#v[⟨1, 2, 0⟩, ⟨30, 0, 0⟩, .off]⟩
    let brighter : Frame 3 := ⟨#v[⟨255, 2, 0⟩, ⟨40, 0, 0⟩, ⟨9, 9, 9⟩]⟩
    frame.Dimmer brighter ∧
      (∃ low high, ((.dark : Bank 1 1).encode frame layout .reference).count? 0 0 .red = some low ∧
        ((.dark : Bank 1 1).encode brighter layout .reference).count? 0 0 .red = some high ∧
        low ≤ high ∧ low ≤ Curve.reference.peak ∧ high ≤ Curve.reference.peak) ∧
      ((.dark : Bank 1 1).encode frame layout .reference).count? 0 0 .blue = some 0 := by
  intro layout frame brighter
  have dimmer : frame.Dimmer brighter := by
    intro led p
    cases p <;> revert led <;> decide
  have reads (p : Primary) :=
    brighter_never_reads_dimmer layout (.inl rfl) dimmer (.dark : Bank 1 1) (.dark : Bank 1 1) p
  exact ⟨dimmer, (reads .red).1 0 0 Nat.one_pos Nat.one_pos,
    (reads .blue).2.2 0 (by decide) rfl (by decide)⟩

/-- An LED that is off does not read zero where a later LED covers it: of two LEDs at one place,
in a layout that passes the check, the first is off and the place reads full red. -/
theorem off_led_covered :
    let layout : Layout 2 := #v[⟨0, 0⟩, ⟨0, 0⟩]
    let frame : Frame 2 := ⟨#v[.off, ⟨255, 0, 0⟩]⟩
    layout.check 1 1 = .ok () ∧ (frame.colors.get 0).intensity .red = 0 ∧
      ((.dark : Bank 1 1).encode frame layout .reference).count? (layout.get 0).row.toNat
        (layout.get 0).col.toNat .red = some 16383 := by
  intro layout frame
  have last : layout.LastAt 0 0 1 := ⟨by decide, by decide⟩
  exact ⟨by decide, rfl,
    count?_encode_of_lastAt .dark frame layout .reference last Nat.one_pos Nat.one_pos .red⟩

end Bank

end LedMatrix

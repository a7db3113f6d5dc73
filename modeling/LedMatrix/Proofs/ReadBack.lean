import LedMatrix.Proofs.Counts
import LedMatrix.Proofs.Drawing

/-! # Reading a drawn bank back

A layout is checked by comparing its positions with the size of the grid, while drawing looks
each position up in the bank and passes over an LED whose position is not found. Both draw
the same line: the check names the first LED that drawing would pass over. What was drawn
for the last LED at a place is what is read back there. -/

namespace LedMatrix

variable {leds rows cols : Nat}

/-- A position is its row and its column. -/
theorem Position.At.eq {p q : Position} (h : p.At q.row.toNat q.col.toNat) : p = q := by
  cases p
  cases q
  simp_all [Position.At, UInt8.toNat_inj]

namespace Layout

variable {layout : Layout leds}

/-- A layout is refused for the first LED outside the grid, and for nothing else. -/
theorem check_eq_error_iff {fault : Fault} :
    layout.check rows cols = .error fault ↔
      ∃ led : Fin leds, fault = .positionOutOfRange led (layout.get led) ∧
        layout.firstOutside? rows cols = some led := by
  unfold check
  cases layout.firstOutside? rows cols with
  | none => simp
  | some led =>
    simp only [Except.error.injEq, Option.some.injEq]
    exact ⟨fun h => ⟨led, h.symm, rfl⟩, fun ⟨_, h, same⟩ => by rw [h, same]; rfl⟩

/-- Where no two LEDs share a place, every LED is the last at its own. -/
theorem lastAt_of_injective (distinct : Function.Injective layout.get) (led : Fin leds) :
    layout.LastAt (layout.get led).row.toNat (layout.get led).col.toNat led :=
  ⟨⟨rfl, rfl⟩, fun _ after there => absurd (distinct there.eq) (Fin.ne_of_gt after)⟩

end Layout

namespace Bank

/-! ## Counts at a place -/

/-- The count that is read back at a row and a column on one primary. -/
def count? (bank : Bank rows cols) (row col : Nat) (p : Primary) : Option UInt16 :=
  bank[row]?.bind (·.count? col p)

section Counts

variable {bank : Bank rows cols} {row col : Nat}

theorem count?_eq_map (p : Primary) :
    bank.count? row col p = (bank.planes? row col).map (·.value p) := by
  unfold count? planes?
  cases bank[row]? <;> rfl

theorem planes?_eq_none_iff : bank.planes? row col = none ↔ ¬(row < rows ∧ col < cols) := by
  by_cases h : row < rows <;> simp [planes?, h]

/-- Nothing is read outside the grid. -/
theorem count?_of_outside (h : ¬(row < rows ∧ col < cols)) (p : Primary) :
    bank.count? row col p = none := by
  rw [count?_eq_map, planes?_eq_none_iff.mpr h, Option.map_none]

variable (old : Bank rows cols) (frame : Frame leds) (layout : Layout leds) (curve : Curve)

/-- What is read at a place is the count of the last LED there. -/
theorem count?_encode_of_lastAt {led : Fin leds} (h : layout.LastAt row col led)
    (hr : row < rows) (hc : col < cols) (p : Primary) :
    (old.encode frame layout curve).count? row col p =
      some (curve.count ((frame.colors.get led).intensity p)) := by
  rw [count?_eq_map, planes?_encode_of_lastAt old frame layout curve h hr hc, Option.map_some,
    planesOf, Planes.value_pack]

theorem count?_encode_of_empty (h : ∀ led, ¬(layout.get led).At row col)
    (hr : row < rows) (hc : col < cols) (p : Primary) :
    (old.encode frame layout curve).count? row col p = some 0 := by
  rw [count?_eq_map, planes?_encode_of_empty old frame layout curve h hr hc, Option.map_some]
  cases p <;> rfl

end Counts

/-! ## LEDs that are passed over -/

/-- Draws the LEDs of a list as `draw` does, and notes those whose position is looked up in
the bank and not found. -/
def drawNoting (bank : Bank rows cols) (cell : Fin leds → Position × Planes) :
    List (Fin leds) → Bank rows cols × List (Fin leds)
  | [] => (bank, [])
  | led :: later =>
    match bank.planes? (cell led).1.row.toNat (cell led).1.col.toNat with
    | none =>
      let rest := bank.drawNoting cell later
      (rest.1, led :: rest.2)
    | some _ => (bank.put (cell led).1 (cell led).2).drawNoting cell later

/-- Encodes a frame as `encode` does, and notes the LEDs that were passed over. -/
def encodeNoting (old : Bank rows cols) (frame : Frame leds) (layout : Layout leds)
    (curve : Curve) : Bank rows cols × List (Fin leds) :=
  old.clear.drawNoting (fun led => (layout.get led, planesOf curve (frame.colors.get led)))
    (List.finRange leds)

/-- Taking notes changes nothing of what is drawn, and the notes are the LEDs outside. -/
theorem drawNoting_eq (bank : Bank rows cols) (cell : Fin leds → Position × Planes)
    (list : List (Fin leds)) :
    bank.drawNoting cell list =
      (bank.draw (list.map cell), list.filter fun led => ¬(cell led).1.Within rows cols) := by
  induction list generalizing bank with
  | nil => rfl
  | cons led later ih =>
    have turn : bank.draw ((led :: later).map cell) =
        (bank.put (cell led).1 (cell led).2).draw (later.map cell) := rfl
    rw [drawNoting, turn]
    split <;> rename_i found
    · -- a position that is not found is outside, where putting changes nothing either
      have outside : ¬(cell led).1.Within rows cols := planes?_eq_none_iff.mp found
      rw [ih, put_of_not_within outside, List.filter_cons_of_pos (by simpa using outside)]
    · have inside : (cell led).1.Within rows cols := by
        by_contra outside
        rw [planes?_eq_none_iff.mpr outside] at found
        cases found
      rw [ih, List.filter_cons_of_neg (by simpa using inside)]

variable (old : Bank rows cols) (frame : Frame leds) (layout : Layout leds) (curve : Curve)

theorem encodeNoting_fst :
    (old.encodeNoting frame layout curve).1 = old.encode frame layout curve := by
  rw [encodeNoting, drawNoting_eq]
  rfl

/-- The first LED that is passed over is the one that the check finds. -/
theorem head?_encodeNoting :
    (old.encodeNoting frame layout curve).2.head? = layout.firstOutside? rows cols := by
  rw [encodeNoting, drawNoting_eq, List.head?_filter]
  rfl

end Bank

namespace Layout

/-- A layout passes its check exactly if drawing passes over no LED, whatever is drawn, and
is refused for the first LED that is passed over. In a layout that passes and in which no two
LEDs share a place, every LED's counts are read back at its position. -/
theorem check_iff_none_passed_over (rows cols : Nat) (layout : Layout leds) :
    (layout.check rows cols = .ok () ↔ ∀ led, (layout.get led).Within rows cols) ∧
      (∀ fault, layout.check rows cols = .error fault ↔
        ∃ led : Fin leds, fault = .positionOutOfRange led (layout.get led) ∧
          ¬(layout.get led).Within rows cols ∧
          ∀ earlier, earlier < led → (layout.get earlier).Within rows cols) ∧
      (∀ (old : Bank rows cols) frame curve,
        let noted := old.encodeNoting frame layout curve
        noted.1 = old.encode frame layout curve ∧
          (layout.check rows cols = .ok () ↔ noted.2 = []) ∧
          ∀ led : Fin leds,
            layout.check rows cols = .error (.positionOutOfRange led (layout.get led)) ↔
              noted.2.head? = some led) ∧
      (layout.check rows cols = .ok () → Function.Injective layout.get →
        ∀ (old : Bank rows cols) frame curve led p,
          (old.encode frame layout curve).count? (layout.get led).row.toNat
              (layout.get led).col.toNat p =
            some (curve.count ((frame.colors.get led).intensity p))) := by
  have passes : layout.check rows cols = .ok () ↔ layout.firstOutside? rows cols = none :=
    check_eq_ok_iff.trans firstOutside?_eq_none_iff.symm
  refine ⟨check_eq_ok_iff, fun fault => ?_, fun old frame curve => ⟨?_, ?_, ?_⟩,
    fun passed distinct old frame curve led p => ?_⟩
  · rw [check_eq_error_iff]
    exact exists_congr fun led => and_congr_right fun _ => firstOutside?_eq_some_iff
  · exact Bank.encodeNoting_fst old frame layout curve
  · rw [passes, ← Bank.head?_encodeNoting old frame layout curve, List.head?_eq_none_iff]
  · intro led
    rw [Bank.head?_encodeNoting, check_eq_error_iff]
    refine ⟨?_, fun first => ⟨led, rfl, first⟩⟩
    rintro ⟨named, same, first⟩
    have index : led.val = named.val := (Fault.positionOutOfRange.inj same).1
    rwa [Fin.ext index]
  · obtain ⟨hr, hc⟩ := check_eq_ok_iff.mp passed led
    exact Bank.count?_encode_of_lastAt old frame layout curve
      (lastAt_of_injective distinct led) hr hc p

/-- Two LEDs on a grid that is a column too narrow for the second, and on one that is not: the
narrow grid is refused for the second LED, the one that drawing passes over; on the wide one
it is read back. -/
theorem check_iff_none_passed_over_narrow :
    let layout : Layout 2 := #v[⟨0, 0⟩, ⟨1, 4⟩]
    let frame : Frame 2 := ⟨#v[⟨1, 2, 3⟩, ⟨255, 0, 9⟩]⟩
    layout.check 2 4 = .error (.positionOutOfRange 1 ⟨1, 4⟩) ∧
      ((Bank.dark : Bank 2 4).encodeNoting frame layout .reference).2.head? = some 1 ∧
      layout.check 2 5 = .ok () ∧ Function.Injective layout.get ∧
      ((Bank.dark : Bank 2 5).encode frame layout .reference).count? 1 4 .red =
        some (Curve.reference.count 255) := by
  intro layout frame
  obtain ⟨-, refused, noted, -⟩ := check_iff_none_passed_over 2 4 layout
  obtain ⟨passes, -, -, readBack⟩ := check_iff_none_passed_over 2 5 layout
  have narrow := (refused (.positionOutOfRange 1 ⟨1, 4⟩)).mpr ⟨1, rfl, by decide, by decide⟩
  have wide : layout.check 2 5 = .ok () := passes.mpr (by decide)
  have distinct : Function.Injective layout.get := by unfold Function.Injective; decide
  exact ⟨narrow, ((noted .dark frame .reference).2.2 1).mp narrow, wide, distinct,
    readBack wide distinct .dark frame .reference 1 .red⟩

end Layout

end LedMatrix

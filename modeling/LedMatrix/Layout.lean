import LedMatrix.Fault

/-! # Layouts

A layout gives every LED its position. A layout is accepted for a grid exactly
when all of its positions lie inside; otherwise the first LED that does not is
named. -/

namespace LedMatrix

abbrev Layout (leds : Nat) := Vector Position leds

namespace Layout

/-- The first LED that lies outside a grid. -/
def firstOutside? {leds : Nat} (rows cols : Nat) (layout : Layout leds) : Option (Fin leds) :=
  (List.finRange leds).find? fun led => decide ¬layout[led].Within rows cols

def check {leds : Nat} (rows cols : Nat) (layout : Layout leds) : Except Fault Unit :=
  match layout.firstOutside? rows cols with
  | none => .ok ()
  | some led => .error (.positionOutOfRange led layout[led])

theorem firstOutside?_eq_none_iff {leds rows cols : Nat} {layout : Layout leds} :
    layout.firstOutside? rows cols = none ↔ ∀ led : Fin leds, layout[led].Within rows cols := by
  simp [firstOutside?]

theorem firstOutside?_eq_some_iff {leds rows cols : Nat} {layout : Layout leds} {led : Fin leds} :
    layout.firstOutside? rows cols = some led ↔
      ¬layout[led].Within rows cols ∧ ∀ k, k < led → layout[k].Within rows cols := by
  unfold firstOutside?
  rw [List.find?_eq_some_iff_getElem]
  simp only [decide_eq_true_eq, List.getElem_finRange, List.length_finRange]
  refine and_congr_right fun _ => ⟨?_, fun h => ?_⟩
  · rintro ⟨i, hi, rfl, h⟩ k hk
    simpa using h k.val hk
  · refine ⟨led.val, led.isLt, rfl, fun j hj => ?_⟩
    simpa using h ⟨j, by omega⟩ hj

/-- A layout passes exactly when every LED is inside. -/
theorem check_eq_ok_iff {leds rows cols : Nat} {layout : Layout leds} :
    layout.check rows cols = .ok () ↔ ∀ led : Fin leds, layout[led].Within rows cols := by
  rw [← firstOutside?_eq_none_iff]
  unfold check
  split <;> simp_all

end Layout

end LedMatrix

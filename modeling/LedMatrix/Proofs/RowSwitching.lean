import LedMatrix.Proofs.Events

/-! # Turning rows off and one on

Rows are turned off one after the other, for as long as a byte can number them. So no
count is too large: 256 signals are the most that are ever sent, and the lowered lines
are exactly those of the rows below the count. Lighting a row then raises its line and
touches no other. -/

namespace LedMatrix

variable {rows cols : Nat}

/-! ## Row after row -/

/-- The line of a row, as long as a byte can number it. -/
def Line.ofRow? (row : Nat) : Option Line :=
  if row < 256 then some (.row (.ofNat row)) else none

/-- Lowers the lines of `left` rows, from `row` on, and stops at the first row that has none;
with the number of rows that were looked at. -/
def lowerFrom (row : Nat) : Nat → Trace × Nat
  | 0 => ([], 0)
  | left + 1 =>
    match Line.ofRow? row with
    | none => ([], 1)
    | some line =>
      let rest := lowerFrom (row + 1) left
      (.drive line .low :: rest.1, rest.2 + 1)

/-- Rows that have a line are lowered, and at most one row without a line is looked at. -/
theorem lowerFrom_eq {row : Nat} (h : row ≤ 256) (left : Nat) :
    lowerFrom row left =
      ((List.range' row (min left (256 - row))).map fun n => .drive (.row (.ofNat n)) .low,
        min left (257 - row)) := by
  induction left generalizing row with
  | zero => simp [lowerFrom]
  | succ left ih =>
    by_cases fits : row < 256
    · have signals : min (left + 1) (256 - row) = min left (256 - (row + 1)) + 1 := by omega
      have looked : min (left + 1) (257 - row) = min left (257 - (row + 1)) + 1 := by omega
      rw [lowerFrom, Line.ofRow?, if_pos fits, ih fits, signals, looked, List.range'_succ,
        List.map_cons]
    · -- no row is left that has a line: one more is looked at, and the walk is over
      have signals : min (left + 1) (256 - row) = 0 := by omega
      have looked : min (left + 1) (257 - row) = 1 := by omega
      rw [lowerFrom, Line.ofRow?, if_neg fits, signals, looked]
      rfl

theorem lowerFrom_zero (rows : Nat) :
    lowerFrom 0 rows = ((Instruction.rowsOff rows : Instruction cols).signals, min rows 257) := by
  rw [lowerFrom_eq (Nat.zero_le _), ← List.range_eq_range']
  rfl

/-! ## The lines afterwards -/

/-- The signals that turn the first rows off and then one on. -/
def switchTrace (cols rows : Nat) (r : UInt8) : Trace :=
  ([.rowsOff rows, .rowOn r] : List (Instruction cols)).flatMap Instruction.signals

section Lines

variable {wiring : Wiring} {levels : Levels} {line : Line} {r k : UInt8} {s : Signal}

theorem switchTrace_eq (cols rows : Nat) (r : UInt8) :
    switchTrace cols rows r =
      (Instruction.rowsOff rows : Instruction cols).signals ++ [.drive (.row r) .high] := rfl

theorem drives_of_switchTrace (h : s ∈ switchTrace cols rows r) :
    ∃ k level, s = .drive (.row k) level ∧ (k = r ∨ k.toNat < rows) := by
  rw [switchTrace_eq] at h
  rcases List.mem_append.mp h with off | on
  · obtain ⟨n, hn, rfl⟩ := List.mem_map.mp off
    have below := List.mem_range.mp hn
    have number : (UInt8.ofNat n).toNat = n := Nat.mod_eq_of_lt (by omega)
    exact ⟨_, _, rfl, .inr (by omega)⟩
  · exact ⟨r, .high, List.mem_singleton.mp on, .inl rfl⟩

/-- A line keeps its level unless it has a pin and is that of a row that is switched. -/
theorem after_switchTrace_of_other
    (h : ∀ k, line = .row k → wiring.hasPin line = true → k ≠ r ∧ rows ≤ k.toNat) :
    levels.after (wiring.carryAll (switchTrace cols rows r)) line = levels line := by
  refine Levels.after_of_touches fun s hs => ?_
  obtain ⟨source, hsource, carried⟩ := List.mem_flatMap.mp hs
  obtain ⟨k, level, rfl, switched⟩ := drives_of_switchTrace hsource
  rw [Wiring.carry_drive] at carried
  split at carried
  · rename_i pin
    obtain rfl := List.mem_singleton.mp carried
    refine decide_eq_false fun driven => ?_
    obtain ⟨other, further⟩ := h k driven.symm (driven ▸ pin)
    rcases switched with same | below
    · exact other same
    · exact absurd below (Nat.not_lt.mpr further)
  · cases carried

theorem after_switchTrace_of_lt (other : k ≠ r) (h : k.toNat < rows)
    (pin : wiring.hasPin (.row k) = true) :
    levels.after (wiring.carryAll (switchTrace cols rows r)) (.row k) = .low := by
  have lowered : .drive (.row k) .low ∈ switchTrace cols rows r :=
    List.mem_append_left _ (Instruction.lowered_of_rowsOff h)
  -- only the line of row `r` is raised, so it does not matter when this one is lowered
  have quiet : .drive (.row k) .high ∉ switchTrace cols rows r := by
    rw [switchTrace_eq, List.mem_append, not_or]
    exact ⟨Instruction.not_raised (by simp), by simpa using other⟩
  exact Levels.row_low_of_mem (Wiring.not_raised quiet (List.prefix_refl _))
    (Wiring.mem_carryAll_of_hasPin lowered pin)

theorem after_switchTrace_self (pin : wiring.hasPin (.row r) = true) :
    levels.after (wiring.carryAll (switchTrace cols rows r)) (.row r) = .high := by
  have last : wiring.carryAll [.drive (.row r) .high] = [.drive (.row r) .high] := by
    rw [Wiring.carryAll, List.flatMap_singleton, Wiring.carry_drive, if_pos pin]
  rw [switchTrace_eq, Wiring.carryAll_append, last, Levels.after_append]
  exact Function.update_self ..

end Lines

/-- Turning off any number of rows and lighting one lowers each row that has a line, in turn
and once, and then raises one. Every other line below the count is low afterwards, and all
other lines are as they were, on every board and whatever they carried before. -/
theorem rows_switched (cols rows : Nat) (r : UInt8) :
    let off := (Instruction.rowsOff rows : Instruction cols).signals
    lowerFrom 0 rows = (off, min rows 257) ∧ off.length = min rows 256 ∧
      (∀ k < min rows 256, ∃ n : UInt8, n.toNat = k ∧ off[k]? = some (.drive (.row n) .low)) ∧
      ∀ (wiring : Wiring) (levels : Levels),
        let after := levels.after (wiring.carryAll (switchTrace cols rows r))
        (wiring.hasPin (.row r) = true → after (.row r) = .high) ∧
          (∀ k, k ≠ r → k.toNat < rows → wiring.hasPin (.row k) = true → after (.row k) = .low) ∧
          (∀ k, k ≠ r → rows ≤ k.toNat → after (.row k) = levels (.row k)) ∧
          (∀ line, (∀ k, line ≠ .row k) → after line = levels line) ∧
          ∀ line, wiring.hasPin line = false → after line = levels line := by
  intro off
  refine ⟨lowerFrom_zero rows, by simp [off, Instruction.signals], fun k hk => ?_,
    fun wiring levels => ⟨after_switchTrace_self, fun k => after_switchTrace_of_lt, ?_, ?_, ?_⟩⟩
  · refine ⟨.ofNat k, Nat.mod_eq_of_lt (by omega), ?_⟩
    simp [off, Instruction.signals, List.getElem?_range hk]
  · intro k other further
    refine after_switchTrace_of_other fun n same _ => ?_
    cases same
    exact ⟨other, further⟩
  · intro line noRow
    exact after_switchTrace_of_other fun k same _ => absurd same (noRow k)
  · intro line noPin
    exact after_switchTrace_of_other fun k _ pin => absurd (noPin.symm.trans pin) Bool.false_ne_true

/-- All lines are high, and as many rows are turned off as a machine word can count, but for
row 255, which is lit: row 254 goes dark, and 256 signals are all that is sent for the rows.
One row fewer than there are lines leaves row 255 as it was. -/
theorem rows_switched_every_line :
    let all := 18446744073709551615
    let off := (Instruction.rowsOff all : Instruction 1).signals
    let high : Levels := fun _ => .high
    let after := high.after (Wiring.direct.carryAll (switchTrace 1 all 255))
    (lowerFrom 0 all).2 = 257 ∧ off.length = 256 ∧ off[255]? = some (.drive (.row 255) .low) ∧
      after (.row 255) = .high ∧ after (.row 254) = .low ∧ after .latch = .high ∧
      high.after (Wiring.direct.carryAll (switchTrace 1 255 7)) (.row 255) = .high := by
  intro all off high after
  obtain ⟨looked, length, numbered, lines⟩ := rows_switched 1 all 255
  obtain ⟨lit, dark, -, rest, -⟩ := lines .direct high
  obtain ⟨-, -, -, fewer⟩ := rows_switched 1 255 7
  obtain ⟨n, number, lowered⟩ := numbered 255 (by decide)
  obtain rfl : n = 255 := UInt8.toNat_inj.mp number
  refine ⟨by rw [looked]; rfl, length, lowered, lit rfl,
    dark 254 (by decide) (by decide) rfl, rest .latch nofun, ?_⟩
  exact (fewer .direct high).2.2.1 255 (by decide) (by decide)

end LedMatrix

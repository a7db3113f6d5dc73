import LedMatrix.Wiring
import Mathlib.Logic.Function.Basic

/-! # The levels of the lines

What the lines carry after a trace. A signal changes the lines it drives and no
other, and every wiring brings a word to the data lines. -/

namespace LedMatrix

abbrev Levels := Line → Level

/-- Whether a signal drives a line. -/
def Signal.touches (line : Line) : Signal → Bool
  | .drive driven _ => driven = line
  | .present _ => match line with
    | .data _ => true
    | _ => false
  | .timerPeriod _ | .timerOn => false

namespace Levels

def low : Levels := fun _ => .low

/-- The levels after a signal. -/
def apply (levels : Levels) : Signal → Levels
  | .drive line level => Function.update levels line level
  | .present word => fun line => match line with
    | .data p => .ofBool (word.carries p)
    | line => levels line
  | .timerPeriod _ | .timerOn => levels

def after (levels : Levels) (trace : Trace) : Levels := trace.foldl apply levels

def rises (line : Line) (before after : Levels) : Bool :=
  before line = .low ∧ after line = .high

def falls (line : Line) (before after : Levels) : Bool :=
  before line = .high ∧ after line = .low

/-- What the three data lines carry, as a word. -/
def word (levels : Levels) : Word := .ofBits fun p => levels (.data p) = .high

variable {levels : Levels} {line : Line} {s : Signal} {trace : Trace}

theorem after_cons (levels : Levels) (s : Signal) (trace : Trace) :
    levels.after (s :: trace) = (levels.apply s).after trace := rfl

theorem after_append (levels : Levels) (s t : Trace) :
    levels.after (s ++ t) = (levels.after s).after t := List.foldl_append

theorem apply_of_touches (h : s.touches line = false) : levels.apply s line = levels line := by
  cases s with
  | timerPeriod _ | timerOn => rfl
  | drive driven level =>
    have hne : line ≠ driven := by
      rintro rfl
      simp [Signal.touches] at h
    exact Function.update_of_ne hne level levels
  | present word =>
    cases line with
    | data p => cases h
    | clock | latch | outputEnable | row n => rfl

/-- A line that no signal drives keeps its level. -/
theorem after_of_touches (h : ∀ s ∈ trace, s.touches line = false) :
    levels.after trace line = levels line := by
  induction trace generalizing levels with
  | nil => rfl
  | cons s rest ih =>
    rw [after_cons, ih fun s hs => h s (List.mem_cons_of_mem _ hs)]
    exact apply_of_touches (h s List.mem_cons_self)

/-- A row line is high only if it was, or if some signal raised it. -/
theorem row_high_of_after {n : UInt8} (h : .drive (.row n) .high ∉ trace)
    (hn : levels.after trace (.row n) = .high) : levels (.row n) = .high := by
  induction trace generalizing levels with
  | nil => exact hn
  | cons s rest ih =>
    obtain ⟨hs, hrest⟩ := not_or.mp (mt List.mem_cons.mpr h)
    have hlast := ih hrest hn
    by_cases lowers : s = .drive (.row n) .low
    · subst lowers
      simp [apply] at hlast
    · have untouched : s.touches (.row n) = false := by
        cases s with
        | present _ | timerPeriod _ | timerOn => rfl
        | drive driven level =>
          refine decide_eq_false fun hd => ?_
          subst hd
          cases level with
          | low => exact lowers rfl
          | high => exact hs rfl
      rwa [apply_of_touches untouched] at hlast

theorem row_low_of_after {n : UInt8} (h : .drive (.row n) .high ∉ trace)
    (hn : levels (.row n) = .low) : levels.after trace (.row n) = .low := by
  cases hlast : levels.after trace (.row n) with
  | low => rfl
  | high =>
    rw [row_high_of_after h hlast] at hn
    cases hn

/-- A row line that is lowered and never raised ends low. -/
theorem row_low_of_mem {n : UInt8} (h : .drive (.row n) .high ∉ trace)
    (hlow : .drive (.row n) .low ∈ trace) : levels.after trace (.row n) = .low := by
  obtain ⟨s, t, rfl⟩ := List.append_of_mem hlow
  rw [after_append, after_cons]
  refine row_low_of_after (fun hs => h (by simp [hs])) ?_
  exact Function.update_self ..

/-! ## Words on the data lines -/

theorem word_present (levels : Levels) (word : Word) :
    (levels.apply (.present word)).word = word &&& Word.dataMask := by
  rw [← Word.ofBits_carries, Levels.word]
  congr 1
  funext p
  cases h : word.carries p <;> simp [apply, Level.ofBool, h]

theorem word_of_ne (h : ∀ p, line ≠ .data p) (level : Level) :
    Levels.word (Function.update levels line level) = levels.word := by
  unfold Levels.word
  congr 1
  funext p
  rw [Function.update_of_ne (h p).symm]

theorem after_spread (levels : Levels) (word : Word) :
    levels.after word.spread = levels.apply (.present word) := by
  funext line
  cases line with
  | data p => cases p <;> simp [Word.spread, Primary.all, after, apply]
  | clock | latch | outputEnable | row n =>
    simp [Word.spread, Primary.all, after, apply]

end Levels

/-! ## Levels behind a wiring -/

namespace Wiring

/-- Whether a line has a pin of its own on the board. -/
def hasPin : Wiring → Line → Bool
  | .pins rows, line => line.hasPin rows
  | .direct, _ | .bus, _ => true

theorem carry_drive (wiring : Wiring) (line : Line) (level : Level) :
    wiring.carry (.drive line level) =
      if wiring.hasPin line = true then [.drive line level] else [] := by
  cases wiring <;> rfl

theorem after_carry_present (wiring : Wiring) (levels : Levels) (word : Word) :
    levels.after (wiring.carry (.present word)) = levels.apply (.present word) := by
  cases wiring with
  | bus => rfl
  | direct | pins _ => exact Levels.after_spread levels word

end Wiring

end LedMatrix

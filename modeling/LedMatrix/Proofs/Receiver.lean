import LedMatrix.Instruction
import LedMatrix.Proofs.Levels
import Mathlib.Data.List.DropRight

/-! # What the wire says

A receiver knows no instructions. It samples the data lines as the clock rises,
counts the clocks that rise while the latch line is high, and reports the count
and the last samples when the latch line falls. Its reports tell which
instructions were sent, whatever was sent before. -/

namespace LedMatrix
open Levels (rises falls)

structure Report where
  /-- How many clocks rose since the latch line did. -/
  latched : Nat
  /-- What the data lines carried on the last sixteen clocks. -/
  samples : List Word
  deriving DecidableEq

structure Receiver where
  levels : Levels
  samples : List Word
  /-- Clocks since the latch line rose. -/
  edges : Nat
  reports : List Report

namespace Receiver

def feed (r : Receiver) (s : Signal) : Receiver :=
  let next := r.levels.apply s
  { levels := next
    samples := if rises .clock r.levels next then r.samples ++ [next.word] else r.samples
    edges :=
      if rises .latch r.levels next then 0
      else if rises .clock r.levels next then r.edges + 1 else r.edges
    reports :=
      if falls .latch r.levels next then r.reports ++ [⟨r.edges, r.samples.rtake 16⟩]
      else r.reports }

def feedAll (r : Receiver) (trace : Trace) : Receiver := trace.foldl feed r

/-- Clock and latch are at the level every burst starts from. -/
structure Quiet (r : Receiver) : Prop where
  clock : r.levels .clock = .low
  latch : r.levels .latch = .low

variable {r s : Receiver} {trace : Trace}

@[simp] theorem feedAll_nil (r : Receiver) : r.feedAll [] = r := rfl

theorem feedAll_cons (r : Receiver) (s : Signal) (trace : Trace) :
    r.feedAll (s :: trace) = (r.feed s).feedAll trace := rfl

theorem feedAll_append (r : Receiver) (s t : Trace) :
    r.feedAll (s ++ t) = (r.feedAll s).feedAll t := List.foldl_append

@[simp] theorem levels_feedAll (r : Receiver) (trace : Trace) :
    (r.feedAll trace).levels = r.levels.after trace := by
  induction trace generalizing r with
  | nil => rfl
  | cons s rest ih => rw [feedAll_cons, ih]; rfl

/-! ## Single signals -/

/-- A signal that leaves clock and latch alone changes the levels only. -/
theorem feed_of_touches {signal : Signal} (hc : signal.touches .clock = false)
    (hl : signal.touches .latch = false) :
    r.feed signal = { r with levels := r.levels.apply signal } := by
  have hclock : r.levels.apply signal .clock = r.levels .clock := Levels.apply_of_touches hc
  have hlatch : r.levels.apply signal .latch = r.levels .latch := Levels.apply_of_touches hl
  simp only [feed, rises, falls, hclock, hlatch]
  cases r.levels .clock <;> cases r.levels .latch <;> simp

theorem feedAll_of_touches (hc : ∀ s ∈ trace, s.touches .clock = false)
    (hl : ∀ s ∈ trace, s.touches .latch = false) :
    r.feedAll trace = { r with levels := r.levels.after trace } := by
  induction trace generalizing r with
  | nil => rfl
  | cons s rest ih =>
    rw [feedAll_cons, feed_of_touches (hc s List.mem_cons_self) (hl s List.mem_cons_self),
      ih (fun s hs => hc s (List.mem_cons_of_mem _ hs))
        (fun s hs => hl s (List.mem_cons_of_mem _ hs))]
    rfl

theorem feed_drive_same {line : Line} {level : Level} (h : r.levels line = level) :
    r.feed (.drive line level) = r := by
  have hlevels : r.levels.apply (.drive line level) = r.levels := by
    rw [Levels.apply, ← h, Function.update_eq_self]
  simp only [feed, hlevels, rises, falls]
  cases r.levels .clock <;> cases r.levels .latch <;> simp

theorem feedAll_pulse (h : r.levels .clock = .low) :
    r.feedAll Burst.pulse =
      { r with samples := r.samples ++ [r.levels.word], edges := r.edges + 1 } := by
  have hword : Levels.word (Function.update r.levels .clock .high) = r.levels.word :=
    Levels.word_of_ne (by simp) _
  have hback : Function.update (Function.update r.levels .clock .high) .clock .low = r.levels := by
    rw [Function.update_idem, ← h, Function.update_eq_self]
  have hlatch : Function.update r.levels .clock .high .latch = r.levels .latch := by
    simp
  simp only [Burst.pulse, feedAll, List.foldl, feed, Levels.apply, hback, rises, falls, hlatch,
    hword]
  cases r.levels .latch <;> simp [h]

theorem feed_latch_high (h : r.levels .latch = .low) :
    r.feed (.drive .latch .high) =
      { r with levels := Function.update r.levels .latch .high, edges := 0 } := by
  have hclock : Function.update r.levels .latch .high .clock = r.levels .clock := by
    simp
  simp only [feed, Levels.apply, rises, falls, hclock]
  cases r.levels .clock <;> simp [h]

theorem feed_latch_low (h : r.levels .latch = .high) :
    r.feed (.drive .latch .low) =
      { r with
        levels := Function.update r.levels .latch .low
        reports := r.reports ++ [⟨r.edges, r.samples.rtake 16⟩] } := by
  have hclock : Function.update r.levels .latch .low .clock = r.levels .clock := by
    simp
  simp only [feed, Levels.apply, rises, falls, hclock]
  cases r.levels .clock <;> simp [h]

theorem feedAll_opening (h : r.Quiet) : r.feedAll Burst.opening = r := by
  simp only [Burst.opening, feedAll, List.foldl]
  rw [feed_drive_same h.latch, feed_drive_same h.clock]

theorem feedAll_carry_present (wiring : Wiring) (word : Word) :
    r.feedAll (wiring.carry (.present word)) =
      { r with levels := r.levels.apply (.present word) } := by
  have data : ∀ s ∈ wiring.carry (.present word), s.touches .clock = false ∧
      s.touches .latch = false := by
    cases wiring <;> simp [Wiring.carry, Word.spread, Signal.touches]
  rw [feedAll_of_touches (fun s hs => (data s hs).1) (fun s hs => (data s hs).2),
    Wiring.after_carry_present]

/-- What the timer is told reaches no line. -/
theorem feedAll_carry_timer (wiring : Wiring) {signal : Signal} (h : signal.onLines = false) :
    r.feedAll (wiring.carryAll [signal]) = r := by
  cases signal with
  | drive _ _ | present _ => cases h
  | timerPeriod _ | timerOn => cases wiring <;> exact feed_of_touches rfl rfl

end Receiver

end LedMatrix

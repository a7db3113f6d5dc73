import Mathlib.Data.List.Forall2
import LedMatrix.Proofs.Events

/-! # Commands on the wire

A command reaches the board as a level of the output enable line, or as a write
of the register: a burst that announces it and one that holds the value. Whoever
watches the lines from a moment at which clock and latch are low sees the commands
in the order in which they were sent, among whatever else was sent. -/

namespace LedMatrix

inductive Sighting where
  /-- The output enable line was driven. -/
  | output (on : Bool)
  | burst (reading : Reading)
  deriving DecidableEq

/-- What a command makes the chips do. -/
inductive Control where
  /-- To keep a value, seen word by word, in the register. -/
  | register (words : List Word)
  | output (on : Bool)
  deriving DecidableEq

/-- Whether a sighting belongs to a command. -/
def Sighting.isControl : Sighting → Bool
  | .output _ => true
  | .burst reading => reading.latched = 15 ∨ reading.latched = 11

/-- The value that a burst holds for the register. -/
def Reading.value? (reading : Reading) : Option (List Word) :=
  if reading.latched = 11 then reading.samples else none

/-- What a sequence of sightings makes the chips do. A value counts only if the
burst before it announced one. -/
def controls (announced : Bool) : List Sighting → List Control
  | [] => []
  | .output on :: rest => .output on :: controls announced rest
  | .burst reading :: rest =>
    (if announced then reading.value?.toList.map .register else []) ++
      controls (reading.latched = 15) rest

def Command.control : Command → Control
  | .setGain gain => .register (Register.spelled (Register.ofGain gain))
  | .setOutput on => .output on

/-- A command with only the bits of its gain that count. -/
def Command.masked : Command → Command
  | .setGain gain => .setGain (gain &&& Register.gainMask)
  | .setOutput on => .setOutput on

/-- Commands that make the chips do the same differ at most in bits that do not count. -/
theorem Command.masked_of_control {c d : Command} (h : c.control = d.control) :
    c.masked = d.masked := by
  cases c with
  | setGain gain =>
    cases d with
    | setOutput on => cases h
    | setGain other =>
      have value := Register.spelled_injective (Control.register.inj h)
      rw [masked, masked, Register.ofGain_eq_iff.mp value]
  | setOutput on =>
    cases d with
    | setGain other => cases h
    | setOutput other => rw [Control.output.inj h]

theorem Command.masked_of_controls {commands others : List Command}
    (h : commands.map control = others.map control) :
    commands.map masked = others.map masked := by
  rw [← List.forall₂_eq_eq_eq, List.forall₂_map_left_iff, List.forall₂_map_right_iff] at h ⊢
  exact h.imp fun _ _ => masked_of_control

/-- Bursts that neither announce a value nor follow an announcement say nothing. -/
theorem controls_bursts {readings : List Reading} (h : ∀ reading ∈ readings, reading.latched ≠ 15)
    (rest : List Sighting) :
    controls false (readings.map .burst ++ rest) = controls false rest := by
  induction readings with
  | nil => rfl
  | cons reading readings ih =>
    have first : decide (reading.latched = 15) = false :=
      decide_eq_false (h reading List.mem_cons_self)
    rw [List.map_cons, List.cons_append, controls, first,
      ih fun reading hr => h reading (List.mem_cons_of_mem _ hr)]
    rfl

/-! ## What a receiver sees -/

namespace Receiver

variable {r : Receiver} {s : Signal} {trace : Trace} {news : List Reading}

/-- The readings that a signal completes. -/
def added (r : Receiver) (s : Signal) : List Reading := (r.feed s).readings.drop r.readings.length

def sees (r : Receiver) : Signal → List Sighting
  | .drive .outputEnable level => [.output (level = .low)]
  | s => (r.added s).map .burst

/-- What is seen of a trace, in order. -/
def sightings (r : Receiver) : Trace → List Sighting
  | [] => []
  | s :: rest => r.sees s ++ (r.feed s).sightings rest

theorem sightings_append (r : Receiver) (s t : Trace) :
    r.sightings (s ++ t) = r.sightings s ++ (r.feedAll s).sightings t := by
  induction s generalizing r with
  | nil => rfl
  | cons first s ih =>
    rw [List.cons_append, sightings, sightings, ih, feedAll_cons, List.append_assoc]

theorem readings_feed (r : Receiver) (s : Signal) :
    (r.feed s).readings = r.readings ++ r.added s :=
  (List.prefix_iff_eq_append.mp ((r.reports_feedAll [s]).map Report.reading)).symm

theorem sees_of_ne (h : ∀ level, s ≠ .drive .outputEnable level) :
    r.sees s = (r.added s).map .burst := by
  unfold sees
  split
  · exact absurd rfl (h _)
  · rfl

/-- While the output enable line is left alone, what is seen is what is read. -/
theorem sightings_of_readings (h : ∀ level, .drive .outputEnable level ∉ trace)
    (hread : (r.feedAll trace).readings = r.readings ++ news) :
    r.sightings trace = news.map .burst := by
  induction trace generalizing r news with
  | nil =>
    obtain rfl : news = [] := List.self_eq_append_right.mp hread
    rfl
  | cons s rest ih =>
    have first : ∀ level, s ≠ .drive .outputEnable level := by
      rintro level rfl
      exact h level List.mem_cons_self
    obtain ⟨later, split⟩ := ((r.feed s).reports_feedAll rest).map Report.reading
    have others := ih (fun level hs => h level (List.mem_cons_of_mem _ hs)) split.symm
    have all : r.readings ++ (r.added s ++ later) = r.readings ++ news := by
      rw [← List.append_assoc, ← readings_feed, ← hread]
      exact split
    rw [sightings, others, sees_of_ne first, ← List.map_append, List.append_cancel_left all]

end Receiver

/-! ## Instructions as they are seen -/

namespace Instruction

variable {cols : Nat}

def sightings : Instruction cols → List Sighting
  | .output on => [.output on]
  | i => i.readings.map .burst

/-- What an instruction makes the chips do from then on. -/
def controls : Instruction cols → List Control
  | .configure value => [.register (Register.spelled value)]
  | .output on => [.output on]
  | .shift _ | .latchAll | .resetCounter | .rowsOff _ | .rowOn _ => []

/-- An instruction that makes the chips do nothing new is not seen as a command. -/
theorem isControl_of_mem {i : Instruction cols} (h : i.controls = []) {s : Sighting}
    (hs : s ∈ i.sightings) : s.isControl = false := by
  cases i with
  | configure _ | output _ => cases h
  | rowsOff _ | rowOn _ => cases hs
  | latchAll | resetCounter =>
    rw [List.mem_singleton.mp hs]
    rfl
  | shift row =>
    obtain ⟨reading, hr, rfl⟩ := List.mem_map.mp hs
    obtain ⟨planes, -, rfl⟩ := List.mem_map.mp hr
    rfl

/-- Only one instruction drives the output enable line. -/
theorem enable_not_mem {i : Instruction cols} (h : ∀ on, i ≠ .output on) (level : Level) :
    .drive .outputEnable level ∉ i.signals := by
  cases i with
  | shift _ | latchAll | resetCounter | configure _ =>
    simp [signals, Burst.opening, Burst.drive_not_mem]
  | rowsOff _ | rowOn _ => simp [signals]
  | output on => exact absurd rfl (h on)

/-- What an instruction is seen as says what it makes the chips do, whatever is
seen after it. -/
theorem controls_sightings (i : Instruction cols) (rest : List Sighting) :
    LedMatrix.controls false (i.sightings ++ rest) =
      i.controls ++ LedMatrix.controls false rest := by
  cases i with
  | configure value => rfl
  | output on => rfl
  | shift row =>
    refine controls_bursts (fun reading hr => ?_) rest
    obtain ⟨_, _, rfl⟩ := List.mem_map.mp hr
    exact nofun
  | latchAll | resetCounter | rowsOff _ | rowOn _ => rfl

theorem controls_flatMap_sightings (is : List (Instruction cols)) :
    LedMatrix.controls false (is.flatMap sightings) = is.flatMap controls := by
  induction is with
  | nil => rfl
  | cons i is ih => rw [List.flatMap_cons, controls_sightings, ih, List.flatMap_cons]

end Instruction

theorem Command.controls_instructions {cols : Nat} (commands : List Command) :
    (commands.map (Command.instruction : Command → Instruction cols)).flatMap Instruction.controls =
      commands.map Command.control := by
  rw [List.flatMap_map, List.map_eq_flatMap]
  congr 1
  funext command
  cases command <;> rfl

namespace Receiver

variable {r : Receiver} {cols : Nat}

theorem sightings_instruction (wiring : Wiring) (i : Instruction cols) (h : r.Quiet) :
    r.sightings (wiring.carryAll i.signals) = i.sightings := by
  by_cases output : ∃ on, i = .output on
  · obtain ⟨on, rfl⟩ := output
    cases wiring <;> cases on <;> rfl
  · have other : ∀ on, i ≠ .output on := fun on he => output ⟨on, he⟩
    have untouched (level : Level) : .drive .outputEnable level ∉ wiring.carryAll i.signals :=
      fun hs => i.enable_not_mem other level (Wiring.mem_carryAll_drive (by simp) hs).1
    rw [sightings_of_readings untouched (readings_instruction wiring i h).2]
    cases i with
    | output on => exact absurd rfl (other on)
    | shift _ | latchAll | resetCounter | configure _ | rowsOff _ | rowOn _ => rfl

/-- A sequence of instructions is seen as each of them, one after the other. -/
theorem sightings_instructions (wiring : Wiring) (is : List (Instruction cols)) (h : r.Quiet) :
    r.sightings (wiring.carryAll (is.flatMap Instruction.signals)) =
      is.flatMap Instruction.sightings := by
  induction is generalizing r with
  | nil => rfl
  | cons i is ih =>
    rw [List.flatMap_cons, Wiring.carryAll_append, sightings_append,
      sightings_instruction wiring i h, ih (readings_instruction wiring i h).1, List.flatMap_cons]

/-! ## Where watching may begin -/

/-- An instruction that opens with latch and clock low leaves them so, wherever they were. -/
theorem quiet_of_opened (wiring : Wiring) {i : Instruction cols} {trace : Trace}
    (opens : i.signals = Burst.opening ++ trace) (r : Receiver) :
    (r.feedAll (wiring.carryAll i.signals)).Quiet := by
  have opened : (r.feedAll Burst.opening).Quiet := by
    refine ⟨?_, ?_⟩ <;> rw [levels_feedAll] <;> rfl
  -- a burst that is opened twice is the burst that is opened once
  have sent := (readings_instruction wiring i opened).1
  rw [opens] at sent ⊢
  rw [feedAll_opened wiring opened] at sent
  rwa [Wiring.carryAll_append, Wiring.carryAll_opening, feedAll_append]

theorem quiet_configure (wiring : Wiring) (value : UInt16) (r : Receiver) :
    (r.feedAll (wiring.carryAll (.configure value : Instruction cols).signals)).Quiet :=
  quiet_of_opened wiring (List.append_assoc ..) r

end Receiver

end LedMatrix

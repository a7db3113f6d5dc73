import LedMatrix.Proofs.Levels
import LedMatrix.Proofs.History

/-! # One panel behind three boards

What a panel does and answers does not depend on its wiring, and what reaches one
board follows from what reaches another: a word is spelled out over the three data
lines where there is no bus, and a row without a pin gets nothing. Behind pins every
level goes to the pin of its own line. -/

namespace LedMatrix

/-! ## From board to board -/

/-- A word as the levels of the three data lines; any other signal as it is. -/
def Signal.inBits : Signal → Trace
  | .present word =>
    [.drive (.data .red) (.ofBool (word.toBitVec.getLsbD 14)),
      .drive (.data .green) (.ofBool (word.toBitVec.getLsbD 13)),
      .drive (.data .blue) (.ofBool (word.toBitVec.getLsbD 12))]
  | s => [s]

/-- Whether a signal gets through to a board with so many row pins. -/
def Signal.reaches (rows : Nat) : Signal → Bool
  | .drive (.row n) _ => n.toNat < rows
  | _ => true

namespace Wiring

theorem carry_direct (s : Signal) : Wiring.direct.carry s = s.inBits := by
  cases s <;> rfl

theorem carryAll_direct (trace : Trace) :
    Wiring.direct.carryAll trace = trace.flatMap Signal.inBits := by
  rw [carryAll, funext carry_direct]

theorem carry_pins (rows : Nat) (s : Signal) :
    (Wiring.pins rows).carry s = (Wiring.direct.carry s).filter (Signal.reaches rows) := by
  cases s with
  | present _ | timerPeriod _ | timerOn => rfl
  | drive line level =>
    cases line with
    | clock | latch | outputEnable | data _ => rfl
    | row n => by_cases h : n.toNat < rows <;> simp [carry, Line.hasPin, Signal.reaches, h]

theorem carryAll_pins (rows : Nat) (trace : Trace) :
    (Wiring.pins rows).carryAll trace =
      (Wiring.direct.carryAll trace).filter (Signal.reaches rows) := by
  rw [carryAll, carryAll, List.filter_flatMap, funext (carry_pins rows)]

end Wiring

/-! ## The panel behind the wiring -/

namespace Panel

variable {leds rows cols : Nat}

/-- The reply to each request: the fault, or what the panel is doing from then on and
what reached its board. -/
def responses (timebase : Timebase) (panel : Panel leds rows cols) :
    List (Request leds) → List (Except Fault (Operation leds rows cols × Trace))
  | [] => []
  | r :: rest =>
    match panel.handle timebase r with
    | .ok (next, trace) => .ok (next.operation, trace) :: next.responses timebase rest
    | .error fault => .error fault :: panel.responses timebase rest

variable (timebase : Timebase)

/-- A wiring changes what reaches the board, and nothing else. -/
theorem handle_wiring (wiring : Wiring) (operation : Operation leds rows cols) (r : Request leds) :
    (⟨wiring, operation⟩ : Panel leds rows cols).handle timebase r =
      ((⟨.bus, operation⟩ : Panel leds rows cols).handle timebase r).map fun (next, trace) =>
        (⟨wiring, next.operation⟩, wiring.carryAll trace) := by
  cases r with
  | start config layout =>
    cases h : Setup.check rows cols config layout <;> cases operation <;>
      simp [handle, Panel.start, h, Except.map]
  | act action =>
    cases operation with
    | stopped storage => rfl
    | running controller =>
      cases h : controller.act action <;> simp [handle, Panel.act, h, Except.map]
  | stop => cases operation <;> rfl

/-- A reply with its trace changed. -/
def retrace (change : Trace → Trace) :
    Except Fault (Operation leds rows cols × Trace) →
      Except Fault (Operation leds rows cols × Trace) :=
  Except.map fun (operation, trace) => (operation, change trace)

theorem retrace_comp (f g : Trace → Trace) :
    (retrace f ∘ retrace g : Except Fault (Operation leds rows cols × Trace) → _) =
      retrace (fun trace => f (g trace)) := by
  funext reply
  cases reply <;> rfl

theorem responses_wiring (wiring : Wiring) (operation : Operation leds rows cols)
    (requests : List (Request leds)) :
    (⟨wiring, operation⟩ : Panel leds rows cols).responses timebase requests =
      ((⟨.bus, operation⟩ : Panel leds rows cols).responses timebase requests).map
        (retrace wiring.carryAll) := by
  induction requests generalizing operation with
  | nil => rfl
  | cons r rest ih =>
    have first := handle_wiring timebase wiring operation r
    cases h : (⟨.bus, operation⟩ : Panel leds rows cols).handle timebase r with
    | error fault =>
      rw [h] at first
      simp [responses, first, h, Except.map, retrace, ih operation]
    | ok reply =>
      obtain ⟨next, trace⟩ := reply
      have bus : next.wiring = .bus := wiring_of_handle h
      have later := ih next.operation
      rw [← bus] at later
      rw [h] at first
      simp [responses, first, h, Except.map, retrace, later]

theorem serve_wiring (wiring : Wiring) (operation : Operation leds rows cols)
    (requests : List (Request leds)) :
    let onBus := (⟨.bus, operation⟩ : Panel leds rows cols).serve timebase requests
    (⟨wiring, operation⟩ : Panel leds rows cols).serve timebase requests =
      (⟨wiring, onBus.1.operation⟩, wiring.carryAll onBus.2) := by
  induction requests generalizing operation with
  | nil => rfl
  | cons r rest ih =>
    have first := handle_wiring timebase wiring operation r
    cases h : (⟨.bus, operation⟩ : Panel leds rows cols).handle timebase r with
    | error fault =>
      rw [h] at first
      simp [serve, first, h, Except.map, ih operation]
    | ok reply =>
      obtain ⟨next, trace⟩ := reply
      have bus : next.wiring = .bus := wiring_of_handle h
      have later := ih next.operation
      rw [← bus] at later
      rw [h] at first
      simp [serve, first, h, Except.map, later]

end Panel

/-! ## Pins -/

/-- The pins of a board with so many row pins. -/
inductive Pin (rows : Nat) where
  | clock
  | latch
  | outputEnable
  | data (p : Primary)
  | row (n : Fin rows)
  deriving DecidableEq

/-- The pin of a line, if there is one for it. -/
def Line.pin? (rows : Nat) : Line → Option (Pin rows)
  | .clock => some .clock
  | .latch => some .latch
  | .outputEnable => some .outputEnable
  | .data p => some (.data p)
  | .row n => if h : n.toNat < rows then some (.row ⟨n.toNat, h⟩) else none

/-- The line of a pin. Row lines are numbered by a byte, so that row pins from 256 on have
none. -/
def Pin.line? {rows : Nat} : Pin rows → Option Line
  | .clock => some .clock
  | .latch => some .latch
  | .outputEnable => some .outputEnable
  | .data p => some (.data p)
  | .row n => if n.val < 256 then some (.row (.ofNat n)) else none

/-- A line and its pin belong to each other. -/
theorem Line.pin?_eq_some_iff {rows : Nat} {line : Line} {pin : Pin rows} :
    line.pin? rows = some pin ↔ pin.line? = some line := by
  cases line with
  | clock | latch | outputEnable => cases pin <;> simp [Line.pin?, Pin.line?]
  | data p => cases pin <;> simp [Line.pin?, Pin.line?, eq_comm]
  | row n =>
    cases pin with
    | clock | latch | outputEnable | data _ => simp [Line.pin?, Pin.line?]
    | row k =>
      simp only [Line.pin?, Pin.line?, Option.dite_none_right_eq_some,
        Option.ite_none_right_eq_some, Option.some.injEq, Pin.row.injEq, Line.row.injEq]
      constructor
      · rintro ⟨_, rfl⟩
        exact ⟨n.toNat_lt, n.ofNat_toNat⟩
      · rintro ⟨small, rfl⟩
        have same : (UInt8.ofNat k.val).toNat = k.val := Nat.mod_eq_of_lt small
        have inside := k.isLt
        exact ⟨by omega, Fin.ext same⟩

/-- The lines that a board has a pin for have one. -/
theorem Line.hasPin_iff {rows : Nat} {line : Line} :
    line.hasPin rows = true ↔ ∃ pin, line.pin? rows = some pin := by
  cases line <;> simp [Line.hasPin, Line.pin?]

/-- The levels that pins were set to, in order. -/
abbrev PinLog (rows : Nat) := List (Pin rows × Level)

namespace PinLog

variable {rows : Nat}

def drive (log : PinLog rows) (line : Line) (level : Level) : PinLog rows :=
  match line.pin? rows with
  | some pin => log ++ [(pin, level)]
  | none => log

/-- Without a bus a word is driven one data line after the other. -/
def present (log : PinLog rows) (word : Word) : PinLog rows :=
  Primary.all.foldl (fun log p => log.drive (.data p) (.ofBool (word &&& p.mask ≠ 0))) log

def take (log : PinLog rows) : Signal → PinLog rows
  | .drive line level => log.drive line level
  | .present word => log.present word
  | .timerPeriod _ | .timerOn => log

def takeAll (log : PinLog rows) (trace : Trace) : PinLog rows := trace.foldl take log

/-- What sets a pin is a signal on the line of the pin. -/
def signal? : Pin rows × Level → Option Signal
  | (pin, level) => pin.line?.map fun line => .drive line level

end PinLog

/-- A word carries a primary if masking leaves its bit. -/
theorem Word.and_mask_ne_zero (word : Word) (p : Primary) :
    decide (word &&& p.mask ≠ 0) = word.carries p := by
  have mask : p.mask.toBitVec = BitVec.twoPow 16 p.place := by cases p <;> rfl
  have bits : (word &&& p.mask).toBitVec =
      if word.carries p then BitVec.twoPow 16 p.place else 0 := by
    rw [UInt16.toBitVec_and, mask, BitVec.and_twoPow]
    rfl
  cases h : word.carries p with
  | false =>
    rw [h] at bits
    exact decide_eq_false (not_not.mpr (UInt16.toBitVec_inj.mp bits))
  | true =>
    rw [h] at bits
    refine decide_eq_true fun zero => ?_
    rw [zero] at bits
    cases p <;> exact absurd bits (by decide)

/-- The signals of a trace that get through to a line of a board with so many row pins. -/
def Trace.reaching (rows : Nat) (trace : Trace) : Trace :=
  (trace.filter (Signal.reaches rows)).filter Signal.onLines

namespace PinLog

variable {rows : Nat}

theorem map_drive (log : PinLog rows) (line : Line) (level : Level) :
    (log.drive line level).map signal? =
      log.map signal? ++ (Trace.reaching rows [.drive line level]).map some := by
  have through : (Signal.drive line level).reaches rows = line.hasPin rows := by
    cases line <;> rfl
  have onLine : (Signal.drive line level).onLines = true := rfl
  cases h : line.pin? rows with
  | none =>
    have lost : line.hasPin rows = false :=
      Bool.eq_false_iff.mpr fun has => by
        obtain ⟨pin, own⟩ := Line.hasPin_iff.mp has
        rw [h] at own
        cases own
    simp [drive, h, Trace.reaching, through, lost]
  | some pin =>
    have has : line.hasPin rows = true := Line.hasPin_iff.mpr ⟨pin, h⟩
    simp [drive, h, Trace.reaching, through, has, onLine, signal?,
      Line.pin?_eq_some_iff.mp h]

theorem map_take (log : PinLog rows) (s : Signal) :
    (log.take s).map signal? = log.map signal? ++ (Trace.reaching rows s.inBits).map some := by
  cases s with
  | drive line level => exact map_drive log line level
  | timerPeriod _ | timerOn => exact (List.append_nil _).symm
  | present word =>
    simp only [take, present, Primary.all, List.foldl, map_drive, Word.and_mask_ne_zero,
      List.append_assoc]
    rfl

/-- Event by event, pins are set to what gets through to their lines. -/
theorem map_takeAll (log : PinLog rows) (trace : Trace) :
    (log.takeAll trace).map signal? =
      log.map signal? ++ (Trace.reaching rows (trace.flatMap Signal.inBits)).map some := by
  induction trace generalizing log with
  | nil => exact (List.append_nil _).symm
  | cons s rest ih =>
    have first : log.takeAll (s :: rest) = (log.take s).takeAll rest := rfl
    simp only [first, ih, map_take, List.flatMap_cons, Trace.reaching, List.filter_append,
      List.map_append, List.append_assoc]

end PinLog

/-! ## The three boards -/

namespace Panel

variable {leds rows cols : Nat}

/-- A panel does and answers the same behind three boards: one driven line by line, one with
a bus for words and one with row pins. Where the bus takes a word, the first board gets the
levels of its three data lines, and the third what the first gets, less the row lines
without a pin; there every event sets the pin of its own line. -/
theorem boards_see_the_same (timebase : Timebase) (operation : Operation leds rows cols)
    (requests : List (Request leds)) (pins : Nat) :
    let lines : Panel leds rows cols := ⟨.direct, operation⟩
    let bus : Panel leds rows cols := ⟨.bus, operation⟩
    let pinned : Panel leds rows cols := ⟨.pins pins, operation⟩
    (lines.responses timebase requests =
        (bus.responses timebase requests).map (retrace (List.flatMap Signal.inBits)) ∧
      pinned.responses timebase requests =
        (lines.responses timebase requests).map
          (retrace (List.filter (Signal.reaches pins)))) ∧
    ((lines.serve timebase requests).1.operation = (bus.serve timebase requests).1.operation ∧
      (pinned.serve timebase requests).1.operation =
        (bus.serve timebase requests).1.operation) ∧
    ((lines.serve timebase requests).2 =
        (bus.serve timebase requests).2.flatMap Signal.inBits ∧
      (pinned.serve timebase requests).2 =
        (lines.serve timebase requests).2.filter (Signal.reaches pins)) ∧
    (PinLog.takeAll ([] : PinLog pins) (bus.serve timebase requests).2).map PinLog.signal? =
      ((pinned.serve timebase requests).2.filter Signal.onLines).map some ∧
    (∀ (line : Line) (pin : Pin pins), line.pin? pins = some pin ↔ pin.line? = some line) ∧
    ∀ line : Line, line.hasPin pins = true ↔ ∃ pin, line.pin? pins = some pin := by
  intro lines bus pinned
  have onLines := serve_wiring timebase .direct operation requests
  have onPins := serve_wiring timebase (.pins pins) operation requests
  have spelled : Wiring.direct.carryAll = List.flatMap Signal.inBits :=
    funext Wiring.carryAll_direct
  have reached : (Wiring.pins pins).carryAll =
      fun trace => (Wiring.direct.carryAll trace).filter (Signal.reaches pins) :=
    funext (Wiring.carryAll_pins pins)
  refine ⟨⟨?_, ?_⟩, ⟨?_, ?_⟩, ⟨?_, ?_⟩, ?_, fun _ _ => Line.pin?_eq_some_iff,
    fun _ => Line.hasPin_iff⟩
  · rw [← spelled]
    exact responses_wiring timebase .direct operation requests
  · have onLines := responses_wiring timebase .direct operation requests
    rw [onLines, List.map_map, retrace_comp, ← reached]
    exact responses_wiring timebase (.pins pins) operation requests
  · exact congrArg (fun served => served.1.operation) onLines
  · exact congrArg (fun served => served.1.operation) onPins
  · rw [← spelled]
    exact congrArg Prod.snd onLines
  · rw [congrArg Prod.snd onLines, congrArg Prod.snd onPins, Wiring.carryAll_pins]
  · rw [PinLog.map_takeAll, congrArg Prod.snd onPins, Wiring.carryAll_pins,
      Wiring.carryAll_direct]
    rfl

/-- A word with bits outside the mask, a row line without a pin, and every kind of pin. -/
theorem boards_see_the_same_one_pin :
    let operation : Operation 1 2 1 := .running Controller.twoRows
    let requests : List (Request 1) := [.act (.present 0xa123), .act (.drive (.row 1) .high),
      .act (.drive (.row 0) .high), .act (.call (.setColor 5 .off)),
      .act (.drive .clock .high), .act (.drive .latch .low), .act (.drive .outputEnable .high)]
    let bus : Panel 1 2 1 := ⟨.bus, operation⟩
    let pinned : Panel 1 2 1 := ⟨.pins 1, operation⟩
    let log : PinLog 1 := PinLog.takeAll [] (bus.serve .microseconds requests).2
    (Line.row 0).pin? 1 = some (.row 0) ∧ (Pin.row 0 : Pin 1).line? = some (.row 0) ∧
      log = [(.data .red, .low), (.data .green, .high), (.data .blue, .low), (.row 0, .high),
        (.clock, .high), (.latch, .low), (.outputEnable, .high)] ∧
      log.map PinLog.signal? =
        ((pinned.serve .microseconds requests).2.filter Signal.onLines).map some ∧
      (pinned.responses .microseconds requests).take 4 = [
        .ok (operation, [.drive (.data .red) .low, .drive (.data .green) .high,
          .drive (.data .blue) .low]),
        .ok (operation, []), .ok (operation, [.drive (.row 0) .high]),
        .error (.indexOutOfRange 5 1)] := by
  intro operation requests bus pinned log
  obtain ⟨⟨spelled, reached⟩, -, -, events, own, -⟩ :=
    boards_see_the_same .microseconds operation requests 1
  have pin : (Line.row 0).pin? 1 = some (.row 0) := rfl
  refine ⟨pin, (own _ _).mp pin, rfl, events, ?_⟩
  rw [reached, spelled]
  rfl

end Panel

end LedMatrix

import LedMatrix.Proofs.ClockPulses
import LedMatrix.Proofs.Dues
import Mathlib.Algebra.Group.Prod
import Mathlib.Algebra.BigOperators.Group.List.Basic
import Mathlib.Tactic.IntervalCases

/-! # The budget of events

What a tick costs on a board that is wired line by line: how many events reach the lines,
and on how many of them the clock rises. Each instruction has its price, whatever colors
it sends and whatever the lines carried before, and a tick or a whole run costs what its
instructions cost. -/

namespace LedMatrix

variable {leds rows cols : Nat}

/-- On how many signals of a trace the clock rises. -/
def Levels.clockRises (levels : Levels) : Trace → Nat
  | [] => 0
  | s :: rest =>
    (if rises .clock levels (levels.apply s) then 1 else 0) + (levels.apply s).clockRises rest

namespace Levels

variable {levels : Levels}

theorem clockRises_append (levels : Levels) (s t : Trace) :
    levels.clockRises (s ++ t) = levels.clockRises s + (levels.after s).clockRises t := by
  induction s generalizing levels with
  | nil => exact (Nat.zero_add _).symm
  | cons first s ih =>
    rw [List.cons_append, clockRises, clockRises, ih, after_cons, Nat.add_assoc]

theorem clockRises_of_touches {trace : Trace} (h : ∀ s ∈ trace, s.touches .clock = false) :
    levels.clockRises trace = 0 := by
  induction trace generalizing levels with
  | nil => rfl
  | cons s rest ih =>
    have still : rises .clock levels (levels.apply s) = false := by
      refine Bool.eq_false_iff.mpr fun rise => ?_
      have touched := h s List.mem_cons_self
      rw [eq_of_clock_rises rise] at touched
      cases touched
    rw [clockRises, still, ih fun x hx => h x (List.mem_cons_of_mem s hx)]
    rfl

end Levels

/-! ## What a trace costs -/

/-- The events on the lines and the rises of the clock that a trace costs from certain
levels on, and it ends at such levels again. -/
structure Trace.Costs (begins : Levels → Prop) (trace : Trace) (cost : Nat × Nat) : Prop where
  events : trace.lineCount = cost.1
  clocks : ∀ levels, begins levels → levels.clockRises trace = cost.2
  ends : ∀ levels, begins levels → begins (levels.after trace)

namespace Trace.Costs

variable {begins : Levels → Prop} {s t trace : Trace} {a b cost : Nat × Nat}

theorem nil : Costs begins [] 0 := ⟨rfl, fun _ _ => rfl, fun _ h => h⟩

theorem append (hs : Costs begins s a) (ht : Costs begins t b) : Costs begins (s ++ t) (a + b) where
  events := by rw [lineCount_append, hs.events, ht.events, Prod.fst_add]
  clocks levels h := by
    rw [Levels.clockRises_append, hs.clocks levels h, ht.clocks _ (hs.ends levels h), Prod.snd_add]
  ends levels h := by
    rw [Levels.after_append]
    exact ht.ends _ (hs.ends levels h)

theorem flatMap {α : Type} {f : α → Trace} {cost : α → Nat × Nat} {l : List α}
    (h : ∀ x ∈ l, Costs begins (f x) (cost x)) : Costs begins (l.flatMap f) (l.map cost).sum := by
  induction l with
  | nil => exact nil
  | cons x l ih =>
    rw [List.flatMap_cons, List.map_cons, List.sum_cons]
    exact (h x List.mem_cons_self).append (ih fun y hy => h y (List.mem_cons_of_mem x hy))

/-- Signals that leave the clock alone cost their events. -/
theorem of_touches (clock : ∀ s ∈ trace, s.touches .clock = false)
    (ends : ∀ levels, begins levels → begins (levels.after trace)) :
    Costs begins trace (trace.lineCount, 0) where
  events := rfl
  clocks _ _ := Levels.clockRises_of_touches clock
  ends := ends

end Trace.Costs

/-! ## The price of an instruction -/

/-- The clock line is low, as between two bursts. -/
def Levels.ClockLow (levels : Levels) : Prop := levels .clock = .low

/-- The lines may carry whatever they do. -/
def Levels.Any (_ : Levels) : Prop := True

theorem Levels.ClockLow.after_of_touches {levels : Levels} {trace : Trace} (h : levels.ClockLow)
    (clock : ∀ s ∈ trace, s.touches .clock = false) : (levels.after trace).ClockLow :=
  (Levels.after_of_touches clock).trans h

/-- An opening costs its two signals, and what follows it finds the clock low. -/
theorem Trace.Costs.opened {trace : Trace} {cost : Nat × Nat}
    (h : Costs Levels.ClockLow trace cost) :
    Costs Levels.Any (Wiring.direct.carryAll Burst.opening ++ trace) ((2, 0) + cost) where
  events := by
    rw [Wiring.carryAll_opening, lineCount_append, h.events]
    rfl
  clocks levels _ := by
    have low : (levels.after Burst.opening).ClockLow := by
      simp [Levels.ClockLow, Burst.opening, Levels.after, Levels.apply]
    have silent : levels.clockRises Burst.opening = 0 := by
      cases clock : levels .clock <;>
        simp [Burst.opening, Levels.clockRises, Levels.rises, Levels.apply, clock]
    rw [Wiring.carryAll_opening, Levels.clockRises_append, silent, h.clocks _ low, Prod.snd_add]
  ends _ _ := trivial

namespace Burst

variable (burst : Burst)

theorem costs_pulse : Trace.Costs Levels.ClockLow pulse (2, 1) where
  events := rfl
  clocks levels h := by
    have low : levels .clock = .low := h
    simp [pulse, Levels.clockRises, Levels.rises, Levels.apply, low]
  ends levels _ := by simp [Levels.ClockLow, pulse, Levels.after, Levels.apply]

/-- What comes before a pulse: three events for a word, and one for the latch line. -/
theorem costs_front (i : Fin 16) :
    Trace.Costs Levels.ClockLow (Wiring.direct.carryAll (burst.front i))
      ((if burst.data.isSome then 3 else 0) + if i.val + burst.latched = 16 then 1 else 0, 0) := by
  have clock : ∀ s ∈ Wiring.direct.carryAll (burst.front i), s.touches .clock = false :=
    fun s hs => (burst.untouched_front .direct i s hs).1
  have events : (Wiring.direct.carryAll (burst.front i)).lineCount =
      (if burst.data.isSome then 3 else 0) + if i.val + burst.latched = 16 then 1 else 0 := by
    rw [front, Wiring.carryAll_append, Trace.lineCount_append]
    congr 1
    · cases burst.data <;> rfl
    · split <;> rfl
  rw [← events]
  exact .of_touches clock fun levels h => h.after_of_touches clock

theorem costs_cycle (i : Fin 16) :
    Trace.Costs Levels.ClockLow (Wiring.direct.carryAll (burst.cycle i))
      ((if i.val + burst.latched = 16 then (1, 0) else 0) +
        (if burst.data.isSome then 5 else 2, 1)) := by
  rw [cycle_eq, Wiring.carryAll_append, Wiring.carryAll_pulse]
  have both := (burst.costs_front i).append costs_pulse
  convert both using 1
  split <;> split <;> rfl

/-- The latch line rises once in a burst. -/
theorem sum_latch {latched : Nat} (h : 1 ≤ latched ∧ latched ≤ 16) :
    ((List.finRange 16).map fun i => if i.val + latched = 16 then ((1, 0) : Nat × Nat) else 0).sum =
      (1, 0) := by
  obtain ⟨least, most⟩ := h
  interval_cases latched <;> rfl

theorem costs_signals (h : 1 ≤ burst.latched ∧ burst.latched ≤ 16) :
    Trace.Costs Levels.ClockLow (Wiring.direct.carryAll burst.signals)
      (if burst.data.isSome then 82 else 34, 16) := by
  have cycles := Trace.Costs.flatMap (l := List.finRange 16) fun i _ => burst.costs_cycle i
  rw [List.sum_map_add, sum_latch h, List.map_const', List.length_finRange, List.sum_replicate]
    at cycles
  rw [signals, Wiring.carryAll_append, Wiring.carryAll_flatMap, Wiring.carryAll_latch]
  have fall : Trace.Costs Levels.ClockLow [.drive .latch .low] (1, 0) :=
    .of_touches (by simp [Signal.touches]) fun levels low =>
      low.after_of_touches (by simp [Signal.touches])
  convert cycles.append fall using 1
  split <;> rfl

end Burst

namespace Instruction

/-- The events and the rising clocks of an instruction. -/
def cost : Instruction cols → Nat × Nat
  | .shift _ => (82 * cols + 2, 16 * cols)
  | .latchAll | .resetCounter => (36, 16)
  | .configure _ => (118, 32)
  | .rowsOff count => (min count 256, 0)
  | .output _ | .rowOn _ => (1, 0)

theorem costs_drives {trace : Trace}
    (h : ∀ s ∈ trace, ∃ line level, s = .drive line level ∧ line ≠ .clock) :
    Trace.Costs Levels.Any (Wiring.direct.carryAll trace) (trace.length, 0) := by
  have same : Wiring.direct.carryAll trace = trace := by
    have alone : ∀ s ∈ trace, Wiring.direct.carry s = [s] := by
      intro s hs
      obtain ⟨_, _, rfl, _⟩ := h s hs
      rfl
    rw [Wiring.carryAll, List.flatMap_congr alone, List.flatMap_singleton']
  have events : trace.lineCount = trace.length := List.countP_eq_length.mpr fun s hs => by
    obtain ⟨_, _, rfl, _⟩ := h s hs
    rfl
  rw [same, ← events]
  refine .of_touches (fun s hs => ?_) fun _ _ => trivial
  obtain ⟨_, _, rfl, clock⟩ := h s hs
  exact decide_eq_false clock

theorem costs_signals (i : Instruction cols) :
    Trace.Costs Levels.Any (Wiring.direct.carryAll i.signals) i.cost := by
  cases i with
  | shift row =>
    have column : ∀ planes ∈ row.channels.toList.reverse, Trace.Costs Levels.ClockLow
        (Wiring.direct.carryAll (Burst.column planes).signals) (82, 16) := fun planes _ =>
      (Burst.column planes).costs_signals ⟨Nat.le_refl 1, Nat.le_add_left 1 15⟩
    have columns := Trace.Costs.flatMap column
    rw [← Wiring.carryAll_flatMap, List.map_const', List.length_reverse, Vector.length_toList,
      List.sum_replicate] at columns
    rw [signals, Wiring.carryAll_append]
    convert columns.opened using 1
    rw [cost, Prod.smul_mk, Prod.mk_add_mk]
    simp only [Nat.nsmul_eq_mul, Prod.mk.injEq]
    omega
  | latchAll =>
    rw [signals, Wiring.carryAll_append]
    exact (Burst.globalLatch.costs_signals (by decide)).opened
  | resetCounter =>
    rw [signals, Wiring.carryAll_append]
    exact (Burst.counterReset.costs_signals (by decide)).opened
  | configure value =>
    have enable := Burst.configEnable.costs_signals (by decide)
    have write := (Burst.configData value).costs_signals
      ⟨Nat.le_add_left 1 10, Nat.le_add_left 11 5⟩
    rw [signals, List.append_assoc, Wiring.carryAll_append, Wiring.carryAll_append]
    exact (enable.append write).opened
  | output on =>
    refine costs_drives fun s hs => ?_
    exact ⟨_, _, List.mem_singleton.mp hs, by simp⟩
  | rowsOff count =>
    have length : (rowsOff count : Instruction cols).signals.length = min count 256 := by
      rw [signals, List.length_map, List.length_range]
    rw [cost, ← length]
    refine costs_drives fun s hs => ?_
    obtain ⟨n, -, rfl⟩ := List.mem_map.mp hs
    exact ⟨_, _, rfl, by simp⟩
  | rowOn row =>
    refine costs_drives fun s hs => ?_
    exact ⟨_, _, List.mem_singleton.mp hs, by simp⟩

/-- Whatever is sent costs what its instructions cost. -/
theorem costs_all (is : List (Instruction cols)) :
    Trace.Costs Levels.Any (Wiring.direct.carryAll (is.flatMap signals)) (is.map cost).sum := by
  rw [Wiring.carryAll_flatMap]
  exact .flatMap fun i _ => i.costs_signals

end Instruction

/-! ## The price of a tick -/

def Command.setsGain : Command → Bool
  | .setGain _ => true
  | .setOutput _ => false

/-- A gain is written to a register, and the output is a single event. -/
theorem Command.cost_instruction (command : Command) :
    (command.instruction : Instruction cols).cost =
      if command.setsGain then (118, 32) else (1, 0) := by
  cases command <;> rfl

theorem Command.sum_cost (commands : List Command) :
    ((commands.map Command.instruction).map (Instruction.cost : Instruction cols → _)).sum =
      (118 * commands.countP Command.setsGain + commands.countP (!·.setsGain),
        32 * commands.countP Command.setsGain) := by
  induction commands with
  | nil => rfl
  | cons command rest ih =>
    rw [List.map_cons, List.map_cons, List.sum_cons, ih, cost_instruction]
    by_cases gain : command.setsGain = true
    · rw [if_pos gain, List.countP_cons_of_pos gain, List.countP_cons_of_neg (by simp [gain]),
        Prod.mk_add_mk, Prod.mk.injEq]
      omega
    · rw [if_neg gain, List.countP_cons_of_neg gain, List.countP_cons_of_pos (by simp [gain]),
        Prod.mk_add_mk, Prod.mk.injEq]
      omega

theorem Bank.sum_cost_visit (bank : Bank rows cols) (row : Fin rows) (h : rows ≤ 256) :
    ((bank.visit row).map Instruction.cost).sum = (rows + 82 * cols + 75, 16 * cols + 32) := by
  simp only [Bank.visit, List.map_cons, List.map_nil, List.sum_cons, List.sum_nil,
    Instruction.cost, Nat.min_eq_left h, Prod.mk_add_mk, add_zero, Prod.mk.injEq]
  omega

namespace Controller

/-- A tick costs its visit of a row and the commands that it takes, and no other moment
costs anything. -/
theorem sum_cost_due (m : Moment leds rows cols) :
    (m.due.map Instruction.cost).sum =
      (if m.runs .idle then (rows + 82 * cols + 75, 16 * cols + 32) else 0) +
        ((m.taken.map Command.instruction).map (Instruction.cost : Instruction cols → _)).sum := by
  by_cases runs : m.runs .idle = true
  · obtain ⟨now, rfl, hp⟩ := Moment.exists_of_runs runs
    have taken : (Moment.ofStep now).taken = now.mailbox.queue.commands := if_pos runs
    rw [due_of_idle hp, taken, List.map_append, List.sum_append, if_pos runs,
      Bank.sum_cost_visit _ _ now.addressable, add_comm]
  · have due : m.due = [] := if_neg runs
    have taken : m.taken = [] := if_neg runs
    rw [due, taken, if_neg runs]
    rfl

theorem sum_cost_dues (past : List (Moment leds rows cols)) :
    ((past.flatMap Moment.due).map Instruction.cost).sum =
      ticksOf past • (rows + 82 * cols + 75, 16 * cols + 32) +
        (((past.flatMap Moment.taken).map Command.instruction).map
          (Instruction.cost : Instruction cols → _)).sum := by
  induction past with
  | nil => simp [ticksOf]
  | cons m past ih =>
    simp only [List.flatMap_cons, List.map_append, List.sum_append, sum_cost_due, ih]
    rw [add_add_add_comm]
    congr 1
    have count : ticksOf (m :: past) = ticksOf past + if m.runs .idle then 1 else 0 :=
      List.countP_cons ..
    rw [count]
    split
    · exact (succ_nsmul' ..).symm
    · exact zero_add _

/-! ## The budget -/

/-- A whole tick takes the commands of one queue, and costs them and a visit of its row. -/
theorem WholeTick.costs {now : Controller leds rows cols} {tick : List Action}
    (h : now.WholeTick tick) :
    ((now.history tick).flatMap Moment.taken).length ≤ CommandQueue.capacity ∧
      Trace.Costs Levels.Any (Wiring.direct.carryAll (now.run tick).2)
        ((rows + 82 * cols + 75, 16 * cols + 32) +
          ((((now.history tick).flatMap Moment.taken).map Command.instruction).map
            (Instruction.cost : Instruction cols → _)).sum) := by
  obtain ⟨_, met, _, _, idle, _, _, taken, sent⟩ := h.begins
  have runs : (Moment.ofStep met).runs .idle = true := by simp [Moment.runs, idle]
  have queued : (Moment.ofStep met).taken = met.mailbox.queue.commands := if_pos runs
  have price := sum_cost_due (.ofStep met)
  rw [if_pos runs, queued] at price
  rw [taken, sent, ← price]
  exact ⟨met.mailbox.queue.bounded, Instruction.costs_all _⟩

variable {timebase : Timebase} {config : Config} {layout : Layout leds} {banks : Banks rows cols}
  {c : Controller leds rows cols} {t : Trace} {actions : List Action}

theorem lineCount_start (h : start timebase config layout banks = .ok (c, t)) :
    (Wiring.direct.carryAll t).lineCount = rows + 119 := by
  obtain ⟨⟨_, byte⟩, period, _, _, rfl⟩ := eq_fresh_of_start h
  have instructions := (Instruction.costs_all (bringUp rows cols config)).events
  rw [carryAll_startTrace, Trace.lineCount_append, Trace.lineCount_append, instructions]
  have timer : (Wiring.direct.carryAll [.timerPeriod period]).lineCount = 0 ∧
      (Wiring.direct.carryAll [.timerOn]).lineCount = 0 := ⟨rfl, rfl⟩
  simp only [bringUp, List.map_cons, List.map_nil, List.sum_cons, List.sum_nil, Instruction.cost,
    Instruction.setGain, Nat.min_eq_left byte, Prod.fst_add, timer.1, timer.2]
  show 0 + ((rows + (1 + (118 + 0))) + 0) = rows + 119
  omega

/-- From a start on, a run that ends between two ticks costs its ticks and its commands. -/
theorem lineCount_run (h : start timebase config layout banks = .ok (c, t))
    (hdirect : ∀ a ∈ actions, a.isDirect = false) (ends : (c.run actions).1.phase = .idle) :
    let taken := (c.history actions).flatMap Moment.taken
    (Wiring.direct.carryAll (c.run actions).2).lineCount =
      c.ended actions * (rows + 82 * cols + 75) + 118 * taken.countP Command.setsGain +
        taken.countP (!·.setsGain) := by
  intro taken
  have begins : c.phase = .idle := by
    obtain ⟨_, _, _, rfl, _⟩ := eq_fresh_of_start h
    rfl
  have ticks : ticksOf (c.history actions) = c.ended actions :=
    (paced_run c hdirect).ticks_eq_turns begins ends
  rw [trace_of_dues hdirect begins ends, (Instruction.costs_all _).events, sum_cost_dues,
    Command.sum_cost, ticks]
  exact (Nat.add_assoc ..).symm

/-- The budget of events on a board that is wired line by line, of a start, of every whole
tick, wherever it is cut, and of a run that ends between two ticks. It depends on the numbers
of rows, columns, ticks and commands alone, never on a color. -/
theorem events_within_budget (h : start timebase config layout banks = .ok (c, t))
    (actions : List Action) : let now := (c.run actions).1
    (Wiring.direct.carryAll t).lineCount = rows + 119 ∧
      (now.phase = .idle → now.WholeTick [.tick]) ∧
      (∀ tick, now.WholeTick tick →
        let taken := (now.history tick).flatMap Moment.taken
        let sent := Wiring.direct.carryAll (now.run tick).2
        taken.length ≤ 4 ∧
          sent.lineCount = rows + 82 * cols + 75 +
            (118 * taken.countP Command.setsGain + taken.countP (!·.setsGain)) ∧
          ∀ levels : Levels,
            levels.clockRises sent = 16 * cols + 32 + 32 * taken.countP Command.setsGain) ∧
      ((∀ a ∈ actions, a.isDirect = false) → now.phase = .idle →
        let taken := (c.history actions).flatMap Moment.taken
        (Wiring.direct.carryAll (t ++ (c.run actions).2)).lineCount =
          rows + 119 + (c.ended actions * (rows + 82 * cols + 75) +
            (118 * taken.countP Command.setsGain + taken.countP (!·.setsGain)))) := by
  intro now
  refine ⟨lineCount_start h, wholeTick_tick, fun tick whole => ?_, fun hdirect idle => ?_⟩
  · obtain ⟨few, costs⟩ := whole.costs
    rw [Command.sum_cost] at costs
    exact ⟨few, costs.events, fun levels => costs.clocks levels trivial⟩
  · rw [Wiring.carryAll_append, Trace.lineCount_append, lineCount_start h,
      lineCount_run h hdirect idle, Nat.add_assoc (_ * _)]

/-- Two rows of one column. After one tick a gain and the output are asked for, and the
next tick, which is cut by a flush, carries both out. -/
theorem events_within_budget_two_commands :
    let actions : List Action := [.tick, .call (.setGain 5), .call (.setOutput false)]
    let tick : List Action := [.step, .call .flush, .tick]
    let now := (twoRows.run actions).1
    let sent := Wiring.direct.carryAll (now.run tick).2
    now.WholeTick tick ∧
      (now.history tick).flatMap Moment.taken = [.setGain 5, .setOutput false] ∧
      sent.lineCount = 278 ∧ Levels.low.clockRises sent = 80 ∧
      (∀ a ∈ actions, a.isDirect = false) ∧ now.phase = .idle ∧
      (Wiring.direct.carryAll (startTrace 2 1 {} ⟨556⟩ ++ (twoRows.run actions).2)).lineCount =
        280 := by
  intro actions tick now sent
  have whole : now.WholeTick tick := ⟨by decide, by decide +kernel⟩
  have taken : (now.history tick).flatMap Moment.taken = [.setGain 5, .setOutput false] := by
    decide +kernel
  have before : (twoRows.history actions).flatMap Moment.taken = [] := by decide +kernel
  have ended : twoRows.ended actions = 1 := ended_ticks twoRows (by decide)
  have ordinary : ∀ a ∈ actions, a.isDirect = false := by decide
  have idle : now.phase = .idle := by decide +kernel
  obtain ⟨_, _, ticks, total⟩ := events_within_budget start_twoRows actions
  obtain ⟨_, events, clocks⟩ := ticks tick whole
  have all := total ordinary idle
  rw [taken] at events clocks
  rw [before, ended] at all
  exact ⟨whole, taken, events, clocks .low, ordinary, idle, all⟩

end Controller

end LedMatrix

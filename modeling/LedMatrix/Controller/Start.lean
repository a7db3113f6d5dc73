import LedMatrix.Controller

/-! # Starting a controller

The settings are checked before anything is touched: the number of rows, then
the refresh rate, then the layout. A start turns the rows off and the chip
outputs on, writes the gain, and lets the timer run last. Whatever the banks
held is cleared. -/

namespace LedMatrix

variable {leds rows cols : Nat}

/-- What the settings have to be for a grid. -/
structure Fit (rows cols : Nat) (config : Config) (layout : Layout leds) : Prop where
  grid : 1 ≤ rows ∧ rows ≤ 256
  rate : config.refreshRate ≠ 0
  inside : ∀ led, (layout.get led).Within rows cols

/-- Settings that passed the checks. -/
structure Setup (leds rows cols : Nat) where
  config : Config
  layout : Layout leds
  fit : Fit rows cols config layout

def Setup.check (rows cols : Nat) (config : Config) (layout : Layout leds) :
    Except Fault (Setup leds rows cols) :=
  if grid : 1 ≤ rows ∧ rows ≤ 256 then
    if rate : config.refreshRate = 0 then .error (.invalidRefreshRate config.refreshRate)
    else
      match inside : layout.check rows cols with
      | .ok () => .ok ⟨config, layout, grid, rate, Layout.check_eq_ok_iff.mp inside⟩
      | .error fault => .error fault
  else .error (.invalidRowCount rows)

/-- What passes the checks is what fits. -/
theorem Setup.check_eq_ok_iff {config : Config} {layout : Layout leds}
    {setup : Setup leds rows cols} :
    Setup.check rows cols config layout = .ok setup ↔
      ∃ fit : Fit rows cols config layout, setup = ⟨config, layout, fit⟩ := by
  unfold Setup.check
  constructor
  · intro checked
    split at checked
    · split at checked
      · cases checked
      · split at checked <;> cases checked
        exact ⟨_, rfl⟩
    · cases checked
  · rintro ⟨fit, rfl⟩
    rw [dif_pos fit.grid, dif_neg fit.rate]
    split
    · rfl
    · rename_i refused
      rw [Layout.check_eq_ok_iff.mpr fit.inside] at refused
      cases refused

namespace Controller

/-- The instructions that bring the chips up. -/
def bringUp (rows cols : Nat) (config : Config) : List (Instruction cols) :=
  [.rowsOff rows, .output true, .setGain config.gain]

/-- The signals of a start: the timer is set up first and runs last. -/
def startTrace (rows cols : Nat) (config : Config) (period : Period) : Trace :=
  .timerPeriod period ::
    ((bringUp rows cols config).flatMap Instruction.signals ++ [.timerOn])

/-- A controller that has shown nothing yet. -/
def fresh (config : Config) (layout : Layout leds) (banks : Banks rows cols)
    (h : 1 ≤ rows ∧ rows ≤ 256) : Controller leds rows cols where
  canvas := ⟨.dark, layout, config.curve, banks.clear.back⟩
  mailbox := .idle banks.clear.published
  scanner := ⟨banks.clear.active, ⟨0, h.1⟩, .idle⟩
  addressable := h.2

end Controller

namespace Setup

def controller (setup : Setup leds rows cols) (banks : Banks rows cols) :
    Controller leds rows cols :=
  .fresh setup.config setup.layout banks setup.fit.grid

def period (setup : Setup leds rows cols) (timebase : Timebase) : Period :=
  timebase.period setup.config.refreshRate setup.fit.rate

/-- Brings a controller up. Not before now is the timebase asked for the period. -/
def begin (setup : Setup leds rows cols) (timebase : Timebase) (banks : Banks rows cols) :
    Controller leds rows cols × Trace :=
  (setup.controller banks,
    Controller.startTrace rows cols setup.config (setup.period timebase))

/-- What the banks held before a start makes no difference. -/
theorem begin_eq_begin_dark (setup : Setup leds rows cols) (timebase : Timebase)
    (banks : Banks rows cols) : setup.begin timebase banks = setup.begin timebase .dark := by
  simp [begin, controller, Controller.fresh]

end Setup

def Controller.start (timebase : Timebase) (config : Config) (layout : Layout leds)
    (banks : Banks rows cols) : Except Fault (Controller leds rows cols × Trace) :=
  (Setup.check rows cols config layout).map fun setup => setup.begin timebase banks

end LedMatrix
